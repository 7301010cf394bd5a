import Mathlib.Data.List.Basic
import SampleTypes.Text.Blank
import SampleTypes.Text.Lines

/-!
# Texts on lines of their own

A file may hold several texts, each on a line of its own, with blank lines anywhere and with either ending
(`LineFile`). Its lines that are not blank are then those texts (`forall₂_lines`), except that a carriage
return at the end of a text is taken for a part of the ending.
-/

namespace SampleTypes.Text

/-- How lines end: at a line feed, perhaps with a carriage return before it. -/
inductive Ending : List Char → Prop
  | feed : Ending ['\n']
  | returnFeed : Ending ['\r', '\n']

/-- White space on one line. -/
def BlankLine (chars : List Char) : Prop :=
  ∀ c ∈ chars, isSpace c = true ∧ c ≠ '\n'

instance (chars : List Char) : Decidable (BlankLine chars) :=
  List.decidableBAll (fun c => isSpace c = true ∧ c ≠ '\n') chars

/-- The characters of a file that holds the texts on lines of their own, in order. Blank lines may stand
before and behind each of them, and the last line may go without an ending. -/
inductive LineFile : List String → List Char → Prop
  | lastBlank {chars : List Char} (hb : BlankLine chars) : LineFile [] chars
  | last (text : String) : LineFile [text] text.toList
  | blank {texts : List String} {chars rest : List Char} (hb : BlankLine chars)
      (h : LineFile texts rest) : LineFile texts (chars ++ '\n' :: rest)
  | line {texts : List String} {ending rest : List Char} (text : String) (he : Ending ending)
      (h : LineFile texts rest) : LineFile (text :: texts) (text.toList ++ (ending ++ rest))

variable {chars rest reversed : List Char}

/-! ## Single lines -/

/-- A line goes up to its line feed. -/
theorem linesFrom_append (hfeed : '\n' ∉ chars) (reversed rest : List Char) :
    linesFrom reversed (chars ++ '\n' :: rest) =
      closeLine (chars.reverse ++ reversed) :: linesFrom [] rest := by
  induction chars generalizing reversed with
  | nil => rw [List.nil_append, linesFrom, List.reverse_nil, List.nil_append]
  | cons c chars ih =>
      rw [List.mem_cons, not_or] at hfeed
      rw [List.cons_append, linesFrom, ih hfeed.2, List.reverse_cons, List.append_assoc,
        List.singleton_append]
      exact fun heq => hfeed.1 heq.symm

/-- What comes behind the last line feed is a line, unless it is empty. -/
theorem linesFrom_of_not_mem (hfeed : '\n' ∉ chars) (reversed : List Char) :
    linesFrom reversed chars =
      if chars.reverse ++ reversed = [] then [] else [(chars.reverse ++ reversed).reverse] := by
  induction chars generalizing reversed with
  | nil => cases reversed <;> rfl
  | cons c chars ih =>
      rw [List.mem_cons, not_or] at hfeed
      rw [linesFrom, ih hfeed.2, List.reverse_cons, List.append_assoc, List.singleton_append]
      exact fun heq => hfeed.1 heq.symm

/-- Closing a line takes nothing but a carriage return off it. -/
theorem closeLine_reverse (chars : List Char) :
    closeLine chars.reverse = chars ∨ chars = closeLine chars.reverse ++ ['\r'] := by
  generalize hreversed : chars.reverse = reversed
  have hchars : chars = reversed.reverse := by rw [← hreversed, List.reverse_reverse]
  rw [hchars]
  unfold closeLine
  split
  · next rest => exact .inr List.reverse_cons
  · exact .inl rfl

/-- A line as it is found where a text was put: a carriage return at the end of the text may be missing. -/
def ReadAs (line text : String) : Prop :=
  line = text ∨ text = line ++ "\r"

/-- A carriage return at its end does not make a line less blank. -/
theorem ReadAs.isBlank_eq {line text : String} (h : ReadAs line text) :
    isBlank line = isBlank text := by
  rcases h with rfl | rfl
  · rfl
  · have hreturn : isBlank "\r" = true := by decide
    rw [isBlank, isBlank, String.toList_append, List.all_append]
    exact (Bool.and_eq_left_iff_imp.mpr fun _ => hreturn).symm

/-- A text with an ending is found again as a line. -/
theorem exists_linesFrom {text : String} {ending : List Char} (he : Ending ending)
    (hfeed : '\n' ∉ text.toList) (rest : List Char) :
    ∃ line, linesFrom [] (text.toList ++ (ending ++ rest)) = line :: linesFrom [] rest ∧
      ReadAs (String.ofList line) text := by
  cases he with
  | feed =>
      refine ⟨closeLine text.toList.reverse, ?_, ?_⟩
      · rw [List.singleton_append, linesFrom_append hfeed, List.append_nil]
      · rcases closeLine_reverse text.toList with heq | heq
        · rw [heq, String.ofList_toList]
          exact .inl rfl
        · refine .inr (String.toList_inj.mp ?_)
          rw [String.toList_append, String.toList_ofList]
          exact heq
  | returnFeed =>
      have hreturn : '\n' ∉ text.toList ++ ['\r'] := by
        rw [List.mem_append, not_or]
        exact ⟨hfeed, by decide⟩
      refine ⟨text.toList, ?_, .inl String.ofList_toList⟩
      have hcut : text.toList ++ (['\r', '\n'] ++ rest) = text.toList ++ ['\r'] ++ '\n' :: rest := by
        rw [List.append_assoc]
        rfl
      rw [hcut, linesFrom_append hreturn, List.append_nil, List.reverse_concat]
      exact congrArg (· :: linesFrom [] rest) (List.reverse_reverse text.toList)

theorem BlankLine.not_mem (hb : BlankLine chars) : '\n' ∉ chars :=
  fun hmem => (hb '\n' hmem).2 rfl

/-- A blank line is blank, with or without a carriage return at its end. -/
theorem BlankLine.isBlank_closeLine (hb : BlankLine chars) :
    isBlank (String.ofList (closeLine chars.reverse)) = true := by
  have hall : ∀ c ∈ closeLine chars.reverse, c ∈ chars := by
    rcases closeLine_reverse chars with heq | heq
    · rw [heq]
      exact fun c hc => hc
    · intro c hc
      rw [heq]
      exact List.mem_append_left _ hc
  rw [isBlank, String.toList_ofList, List.all_eq_true]
  exact fun c hc => (hb c (hall c hc)).1

/-- **The lines of a file that are not blank** are the texts that were put there. -/
theorem forall₂_lines {texts : List String} {content : String}
    (h : LineFile texts content.toList) (hfeed : ∀ text ∈ texts, '\n' ∉ text.toList)
    (hblank : ∀ text ∈ texts, isBlank text = false) :
    List.Forall₂ ReadAs ((lines content).filter fun line => !isBlank line) texts := by
  rw [lines]
  generalize content.toList = chars at h
  induction h with
  | @lastBlank chars hb =>
      rw [linesFrom_of_not_mem hb.not_mem, List.append_nil]
      split
      · exact .nil
      · have hblankline : isBlank (String.ofList chars) = true := by
          rw [isBlank, String.toList_ofList, List.all_eq_true]
          exact fun c hc => (hb c hc).1
        rw [List.reverse_reverse, List.map_singleton, List.filter_singleton, hblankline]
        exact .nil
  | last text =>
      rw [List.forall_mem_singleton] at hfeed hblank
      rw [linesFrom_of_not_mem hfeed, List.append_nil]
      split
      · next hempty =>
          -- The empty text is blank.
          rw [isBlank, List.reverse_eq_nil_iff.mp hempty] at hblank
          cases hblank
      · rw [List.reverse_reverse, List.map_singleton, String.ofList_toList, List.filter_singleton,
          hblank]
        exact .cons (.inl rfl) .nil
  | blank hb _ ih =>
      rw [linesFrom_append hb.not_mem, List.append_nil, List.map_cons, List.filter_cons_of_neg]
      · exact ih hfeed hblank
      · rw [hb.isBlank_closeLine]
        exact Bool.false_ne_true
  | line text he _ ih =>
      rw [List.forall_mem_cons] at hfeed hblank
      obtain ⟨line, hline, hreadAs⟩ := exists_linesFrom he hfeed.1 _
      rw [hline, List.map_cons, List.filter_cons_of_pos]
      · exact .cons hreadAs (ih hfeed.2 hblank.2)
      · rw [hreadAs.isBlank_eq, hblank.1]
        rfl

end SampleTypes.Text
