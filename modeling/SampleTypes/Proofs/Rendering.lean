import Mathlib.Data.List.Infix
import SampleTypes.Proofs.Store.Tuples

/-!
# Declarations read back

Declarations are written without quotation marks. A reader takes a text line by line, cuts it where lines
are blank (`Rendering.cut`), and takes each declaration apart at the marks in it
(`Rendering.readDeclaration`). What is read is unambiguous as long as the texts that go into declarations
are legible, that is, have no marks in them.

* `cut_render`: a store's text is cut into the texts of its declarations.
* `readDeclaration_text`: from the text of a declaration its header and its fields are read back, whether
  or not lines are terminated.
-/

namespace SampleTypes

namespace Rendering

def marks : List Char := ['?', ':', ';', '[', ']', '\n']

/-- The text has no mark in it. -/
def Legible (text : String) : Prop :=
  ∀ c ∈ text.toList, c ∉ marks

instance (text : String) : Decidable (Legible text) :=
  List.decidableBAll (· ∉ marks) text.toList

/-- What a declaration says: which form its header has, its name and its fields. -/
structure Reading where
  typeAlias : Bool
  name : String
  fields : List FieldTuple
deriving DecidableEq, Repr

/-! ## Readers -/

def linesOf (text : String) : List (List Char) :=
  text.toList.splitOn '\n'

def ofLines (lines : List (List Char)) : String :=
  String.ofList (['\n'].intercalate lines)

/-- The parts of a text between blank lines. -/
def cut (text : String) : List String :=
  (((linesOf text).splitOn []).filter (!·.isEmpty)).map ofLines

/-- A text without the mark at its end, and whether the mark was there. -/
def unmark (mark text : List Char) : List Char × Bool :=
  match text.dropSuffix? mark with
  | some rest => (rest, true)
  | none => (text, false)

/-- What stands between a beginning and an end. -/
def between (before after line : List Char) : Option (List Char) := do
  let rest ← line.dropPrefix? before
  rest.dropSuffix? after

def readHeader (line : List Char) : Option (Bool × String) :=
  match between "export type ".toList " = \x7b".toList line with
  | some name => some (true, String.ofList name)
  | none =>
    (between "export interface ".toList " \x7b".toList line).map fun name =>
      (false, String.ofList name)

def readField (line : List Char) : Option FieldTuple := do
  let rest ← line.dropPrefix? [' ', ' ']
  let label ← (rest.dropWhile (· != ':')).dropPrefix? [':', ' ']
  let (key, optional) := unmark ['?'] (rest.takeWhile (· != ':'))
  let (label, isArray) := unmark ['[', ']'] (unmark [';'] label).1
  return ⟨String.ofList key, optional, String.ofList label, isArray⟩

def readDeclaration (text : String) : Option Reading :=
  match (linesOf text).dropSuffix? [['\x7d']] with
  | some (header :: lines) => do
    let (typeAlias, name) ← readHeader header
    let fields ← lines.mapM readField
    return ⟨typeAlias, name, fields⟩
  | _ => none

/-! ## Lines -/

/-- A text and a mark that may follow it come apart, if the mark's last character is not in the text. -/
theorem unmark_append (mark : List Char) {text : List Char} {c : Char} (hc : c ∉ text)
    (b : Bool) : unmark (mark ++ [c]) (text ++ if b then mark ++ [c] else []) = (text, b) := by
  cases b with
  | true =>
      have hdrop : (text ++ (mark ++ [c])).dropSuffix? (mark ++ [c]) = some text :=
        List.dropSuffix?_eq_some_iff.mpr ⟨mark ++ [c], rfl, beq_self_eq_true _⟩
      rw [unmark, if_pos rfl, hdrop]
  | false =>
      have hdrop : text.dropSuffix? (mark ++ [c]) = none := by
        refine Option.eq_none_iff_forall_ne_some.mpr fun rest hrest => hc ?_
        obtain ⟨tail, heq, htail⟩ := List.dropSuffix?_eq_some_iff.mp hrest
        rw [heq, eq_of_beq htail]
        simp
      rw [unmark, if_neg Bool.false_ne_true, List.append_nil, hdrop]

/-- What stands between two texts is found between them. -/
theorem between_append (before after name : List Char) :
    between before after (before ++ name ++ after) = some name := by
  have hfirst : (before ++ name ++ after).dropPrefix? before = some (name ++ after) := by
    rw [List.append_assoc]
    exact List.dropPrefix?_append_of_beq _ (beq_self_eq_true _)
  have hlast : (name ++ after).dropSuffix? after = some name :=
    List.dropSuffix?_eq_some_iff.mpr ⟨after, rfl, beq_self_eq_true _⟩
  rw [between, hfirst]
  exact hlast

/-- The first line of a declaration, without the line feed. -/
def headerLine (name : String) (mode : RenderMode) : List Char :=
  if mode.typeAlias then "export type ".toList ++ name.toList ++ " = \x7b".toList
  else "export interface ".toList ++ name.toList ++ " \x7b".toList

theorem toList_header (name : String) (mode : RenderMode) :
    (header name mode).toList = headerLine name mode ++ ['\n'] := by
  rw [header, headerLine]
  split
  · simp only [String.toList_append, List.append_assoc]
    rfl
  · simp only [String.toList_append, List.append_assoc]
    rfl

/-- The form and the name are read back from the first line of a declaration. -/
theorem readHeader_headerLine (name : String) (mode : RenderMode) :
    readHeader (headerLine name mode) = some (mode.typeAlias, name) := by
  rw [headerLine, readHeader]
  cases mode.typeAlias with
  | true =>
      rw [if_pos rfl, between_append]
      exact congrArg some (congrArg (Prod.mk true) String.ofList_toList)
  | false =>
      have hother : between "export type ".toList " = \x7b".toList
          ("export interface ".toList ++ name.toList ++ " \x7b".toList) = none := rfl
      rw [if_neg Bool.false_ne_true, hother, between_append, Option.map_some, String.ofList_toList]

/-- The line of a field, without the line feed. -/
def lineOf (mode : RenderMode) (tuple : FieldTuple) : List Char :=
  [' ', ' '] ++ (tuple.key.toList ++ (if tuple.optional then ['?'] else []) ++ ([':', ' '] ++
    (tuple.label.toList ++ (if tuple.isArray then ['[', ']'] else []) ++
      (if mode.terminators then [';'] else []))))

private theorem toList_ite (b : Bool) (mark : String) :
    (if b then mark else "").toList = if b then mark.toList else [] := by
  cases b <;> rfl

theorem toList_line (mode : RenderMode) (tuple : FieldTuple) :
    (tuple.line mode).toList = lineOf mode tuple ++ ['\n'] := by
  simp only [FieldTuple.line, lineOf, String.toList_append, List.append_assoc, toList_ite]
  rfl

/-- The tuple has no mark in its key and none in its label. -/
def LegibleTuple (tuple : FieldTuple) : Prop :=
  Legible tuple.key ∧ Legible tuple.label

/-- A key without a colon ends at the first one. -/
theorem colon_apart {before : List Char} (h : ':' ∉ before) (after : List Char) :
    (before ++ ([':', ' '] ++ after)).takeWhile (· != ':') = before ∧
      (before ++ ([':', ' '] ++ after)).dropWhile (· != ':') = [':', ' '] ++ after := by
  have hbefore : ∀ c ∈ before, (c != ':') = true := by
    intro c hc
    rw [bne_iff_ne]
    rintro rfl
    exact h hc
  rw [List.takeWhile_append_of_pos hbefore, List.dropWhile_append_of_pos hbefore]
  exact ⟨List.append_nil before, rfl⟩

/-- Nothing of a legible field is lost in its line. -/
theorem readField_lineOf {tuple : FieldTuple} (h : LegibleTuple tuple) (mode : RenderMode) :
    readField (lineOf mode tuple) = some tuple := by
  obtain ⟨hkey, hlabel⟩ := h
  have hquestion : '?' ∉ tuple.key.toList := fun hmem => hkey '?' hmem (by decide)
  have hbracket : ']' ∉ tuple.label.toList := fun hmem => hlabel ']' hmem (by decide)
  have hcolon : ':' ∉ tuple.key.toList ++ if tuple.optional then ['?'] else [] := by
    rw [List.mem_append, not_or]
    refine ⟨fun hmem => hkey ':' hmem (by decide), ?_⟩
    split <;> decide
  have hsemicolon : ';' ∉ tuple.label.toList ++ if tuple.isArray then ['[', ']'] else [] := by
    rw [List.mem_append, not_or]
    refine ⟨fun hmem => hlabel ';' hmem (by decide), ?_⟩
    split <;> decide
  have hmarker := unmark_append [] hquestion tuple.optional
  have harray := unmark_append ['['] hbracket tuple.isArray
  have hend := unmark_append [] hsemicolon mode.terminators
  rw [List.nil_append] at hmarker hend
  rw [List.singleton_append] at harray
  rw [readField, lineOf, List.dropPrefix?_append_of_beq _ (beq_self_eq_true _)]
  simp only [Option.bind_eq_bind, Option.bind_some, colon_apart hcolon,
    List.dropPrefix?_append_of_beq _ (beq_self_eq_true [':', ' ']), hmarker, hend, harray,
    String.ofList_toList]
  rfl

/-! ## Declarations -/

/-- Lines with a line feed after each but the last. -/
theorem intercalate_concat (lines : List (List Char)) (last : List Char) :
    ['\n'].intercalate (lines ++ [last]) = lines.flatMap (· ++ ['\n']) ++ last := by
  induction lines with
  | nil => exact List.append_nil last
  | cons line lines ih =>
      obtain ⟨next, rest, hnext⟩ := List.exists_cons_of_ne_nil (List.concat_ne_nil last lines)
      rw [List.cons_append, hnext, List.intercalate_cons_cons, ← hnext, ih, List.flatMap_cons,
        List.append_assoc (line ++ ['\n'])]

/-- The lines of a declaration. -/
def declarationLines (mode : RenderMode) (name : String) (tuples : List FieldTuple) :
    List (List Char) :=
  headerLine name mode :: tuples.map (lineOf mode) ++ [['\x7d']]

variable {mode : RenderMode} {name : String} {tuples : List FieldTuple}

/-- A declaration is its lines, with a line feed between them. -/
theorem toList_text : (FieldTuple.text mode name tuples).toList =
    ['\n'].intercalate (declarationLines mode name tuples) := by
  have hlines : (String.join (tuples.map (·.line mode))).toList =
      (tuples.map (lineOf mode)).flatMap (· ++ ['\n']) := by
    rw [String.toList_join, List.flatMap_map, List.flatMap_map]
    exact List.flatMap_congr fun tuple _ => toList_line mode tuple
  rw [FieldTuple.text, declaration, String.toList_append, String.toList_append, toList_header, hlines,
    declarationLines, intercalate_concat, List.flatMap_cons]
  rfl

theorem not_mem_headerLine (hname : Legible name) : '\n' ∉ headerLine name mode := by
  have hmem : '\n' ∉ name.toList := fun hmem => hname '\n' hmem (by decide)
  rw [headerLine]
  split
  · simp only [List.mem_append, not_or]
    exact ⟨⟨by decide, hmem⟩, by decide⟩
  · simp only [List.mem_append, not_or]
    exact ⟨⟨by decide, hmem⟩, by decide⟩

/-- The line of a legible field is one line. -/
theorem not_mem_lineOf {tuple : FieldTuple} (h : LegibleTuple tuple) : '\n' ∉ lineOf mode tuple := by
  have hkey : '\n' ∉ tuple.key.toList := fun hmem => h.1 '\n' hmem (by decide)
  have hlabel : '\n' ∉ tuple.label.toList := fun hmem => h.2 '\n' hmem (by decide)
  have hmark : ∀ (b : Bool) (mark : List Char), '\n' ∉ mark → '\n' ∉ if b then mark else [] := by
    intro b mark hmark
    cases b with
    | true => exact hmark
    | false => exact List.not_mem_nil
  simp only [lineOf, List.mem_append, not_or]
  exact ⟨by decide, ⟨hkey, hmark _ _ (by decide)⟩, by decide,
    ⟨hlabel, hmark _ _ (by decide)⟩, hmark _ _ (by decide)⟩

/-- The lines of a legible declaration are those that it is made of. -/
theorem linesOf_text (hname : Legible name) (htuples : ∀ tuple ∈ tuples, LegibleTuple tuple) :
    linesOf (FieldTuple.text mode name tuples) = declarationLines mode name tuples := by
  rw [linesOf, toList_text]
  refine List.splitOn_intercalate '\n' (fun line hline => ?_) (List.cons_ne_nil _ _)
  rw [declarationLines, List.mem_append, List.mem_cons, List.mem_map, List.mem_singleton] at hline
  rcases hline with (rfl | ⟨tuple, htuple, rfl⟩) | rfl
  · exact not_mem_headerLine hname
  · exact not_mem_lineOf (htuples tuple htuple)
  · decide

/-- No line of a legible declaration is blank. -/
theorem nil_not_mem_linesOf_text (hname : Legible name)
    (htuples : ∀ tuple ∈ tuples, LegibleTuple tuple) :
    [] ∉ linesOf (FieldTuple.text mode name tuples) := by
  rw [linesOf_text hname htuples, declarationLines, List.mem_append, List.mem_cons, List.mem_map]
  rintro ((hheader | ⟨tuple, -, hline⟩) | hend)
  · rw [headerLine] at hheader
    split at hheader <;> cases hheader
  · cases hline
  · cases List.mem_singleton.mp hend

/-- **A declaration is read back from its text**, if its name and its fields are legible. -/
theorem readDeclaration_text (hname : Legible name)
    (htuples : ∀ tuple ∈ tuples, LegibleTuple tuple) :
    readDeclaration (FieldTuple.text mode name tuples) =
      some ⟨mode.typeAlias, name, tuples⟩ := by
  have hdrop : (linesOf (FieldTuple.text mode name tuples)).dropSuffix? [['\x7d']] =
      some (headerLine name mode :: tuples.map (lineOf mode)) := by
    rw [linesOf_text hname htuples]
    exact List.dropSuffix?_eq_some_iff.mpr ⟨_, rfl, beq_self_eq_true _⟩
  have hfields : (tuples.map (lineOf mode)).mapM readField = some tuples := by
    clear hdrop
    induction tuples with
    | nil => rfl
    | cons tuple tuples ih =>
        rw [List.forall_mem_cons] at htuples
        rw [List.map_cons, List.mapM_cons, readField_lineOf htuples.1, ih htuples.2]
        rfl
  rw [readDeclaration, hdrop]
  simp only [readHeader_headerLine, hfields, Option.bind_eq_bind, Option.bind_some]
  rfl

/-! ## Stores -/

theorem splitOn_of_not_mem {α : Type} [BEq α] [LawfulBEq α] {x : α} {xs : List α} (h : x ∉ xs) :
    xs.splitOn x = [xs] := by
  have hsplit : ([x].intercalate [xs]).splitOn x = [xs] := by
    refine List.splitOn_intercalate x (fun ys hys => ?_) (List.cons_ne_nil _ _)
    rw [List.mem_singleton.mp hys]
    exact h
  rwa [List.intercalate_singleton] at hsplit

/-- With two line feeds between texts and one at the end, there is a blank line behind every text. -/
theorem splitOn_texts {texts : List (List Char)} (hne : texts ≠ []) :
    (['\n', '\n'].intercalate texts ++ ['\n']).splitOn '\n' =
      (texts.map (·.splitOn '\n')).flatMap (· ++ [[]]) := by
  have hfeed : ∀ before after : List Char, (before ++ '\n' :: after).splitOn '\n' =
      before.splitOn '\n' ++ after.splitOn '\n' := fun before after =>
    List.splitOnP_append_cons before after (beq_self_eq_true '\n')
  induction texts with
  | nil => exact absurd rfl hne
  | cons text texts ih =>
      cases texts with
      | nil =>
          rw [List.intercalate_singleton, hfeed, List.map_singleton, List.flatMap_singleton]
          rfl
      | cons next texts =>
          have hcut : ['\n', '\n'].intercalate (text :: next :: texts) ++ ['\n'] =
              text ++ '\n' :: ([] ++ '\n' :: (['\n', '\n'].intercalate (next :: texts) ++ ['\n'])) := by
            simp only [List.intercalate_cons_cons, List.append_assoc, List.cons_append,
              List.nil_append]
          rw [hcut, hfeed, hfeed, ih (List.cons_ne_nil _ _)]
          simp only [List.splitOn_nil, List.map_cons, List.flatMap_cons, List.append_assoc]

/-- Groups that have no blank line in them come apart at the blank lines behind them. -/
theorem splitOn_groups {groups : List (List (List Char))} (h : ∀ group ∈ groups, [] ∉ group) :
    (groups.flatMap (· ++ [[]])).splitOn [] = groups ++ [[]] := by
  induction groups with
  | nil => rfl
  | cons group groups ih =>
      rw [List.forall_mem_cons] at h
      have hblank : (group ++ [] :: groups.flatMap (· ++ [[]])).splitOn [] =
          group.splitOn [] ++ (groups.flatMap (· ++ [[]])).splitOn [] :=
        List.splitOnP_append_cons _ _ (beq_self_eq_true [])
      rw [List.flatMap_cons, List.append_assoc, List.singleton_append, hblank,
        splitOn_of_not_mem h.1, ih h.2]
      rfl

/-- **A store's text is cut into the texts of its declarations**, if none has a blank line in it. -/
theorem cut_render {store : Store} (h : ∀ d ∈ store.entries, [] ∉ linesOf d.text) :
    cut store.render = store.entries.map (·.text) := by
  cases hentries : store.entries with
  | nil =>
      rw [Store.render, hentries]
      rfl
  | cons first rest =>
      have hne : store.entries.map (·.text.toList) ≠ [] := by
        rw [hentries]
        exact List.cons_ne_nil _ _
      -- Every text stands between two empty lines, and none of its own lines is empty.
      have hlines : linesOf store.render =
          (store.entries.map fun d => linesOf d.text).flatMap (· ++ [[]]) := by
        have hrender : store.render.toList =
            ['\n', '\n'].intercalate (store.entries.map (·.text.toList)) ++ ['\n'] := by
          rw [Store.render, String.toList_append, String.toList_intercalate, List.map_map]
          rfl
        rw [linesOf, hrender, splitOn_texts hne, List.map_map]
        rfl
      have hgroups : (linesOf store.render).splitOn [] =
          (store.entries.map fun d => linesOf d.text) ++ [[]] := by
        rw [hlines, splitOn_groups]
        intro group hgroup
        obtain ⟨d, hd, rfl⟩ := List.mem_map.mp hgroup
        exact h d hd
      have hfilled : ∀ group ∈ store.entries.map fun d => linesOf d.text,
          (!group.isEmpty) = true := by
        intro group hgroup
        obtain ⟨d, -, rfl⟩ := List.mem_map.mp hgroup
        have hlines : linesOf d.text ≠ [] := List.splitOn_ne_nil '\n' d.text.toList
        simpa using hlines
      rw [cut, hgroups, List.filter_append, List.filter_eq_self.mpr hfilled, ← hentries]
      show (_ ++ []).map ofLines = _
      rw [List.append_nil, List.map_map]
      refine List.map_congr_left fun d _ => ?_
      show String.ofList (['\n'].intercalate (d.text.toList.splitOn '\n')) = d.text
      rw [List.intercalate_splitOn, String.ofList_toList]

end Rendering

end SampleTypes
