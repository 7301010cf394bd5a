import Mathlib.Data.List.TakeWhile
import SampleTypes.Proofs.Json.Beginnings
import SampleTypes.Proofs.Saved

/-!
# What stands behind a saved value

A saved value is read from the beginning of a text, and the rest is left over (`readSaved`). A reader of whole
texts refuses a rest that is not blank (`readWhole`). A text that begins with a whole one and goes on with
something else is overfull (`Overfull`): there the two differ, and nowhere else
(`saved_values_read_from_front`).
-/

namespace SampleTypes

open Json.Reader

/-! ## Saved values end with a bracket -/

theorem TypeKind.closes_reader (depth : Nat) : Closes (reader depth) :=
  closes_variant names

theorem Collision.closes_reader (depth : Nat) : Closes (reader depth) :=
  closes_variant names

theorem CustomLabels.closes_fields (inner : Nat) : ∀ field ∈ fields, Closes (field.value inner) := by
  have hlabel : Closes (fields.label inner) := closes_nullable (closes_text _)
  simp only [fields, List.forall_mem_cons, List.not_mem_nil, false_implies, implies_true, and_true]
  exact ⟨hlabel.map _, hlabel.map _, hlabel.map _, hlabel.map _, hlabel.map _⟩

theorem CustomLabels.closes_reader (depth : Nat) : Closes (reader depth) :=
  closes_record _ _ fun inner _ field hfield => (closes_fields inner field hfield).peeks

/-- A type ends with a bracket if its shape does. -/
theorem FieldType.closes_readerWith {shape : Nat → Json.Reader Shape}
    (hshape : ∀ inner, Closes (shape inner)) (depth : Nat) : Closes (readerWith shape depth) := by
  refine Closes.map Saved.toFieldType (closes_record _ _ fun inner _ => ?_)
  simp only [savedFields, List.forall_mem_cons, List.not_mem_nil, false_implies, implies_true,
    and_true]
  exact ⟨((closes_nullable (TypeKind.closes_reader inner)).map _).peeks, ((closes_text _).map _).peeks,
    (closes_bool.map _).peeks, (closes_bool.map _).peeks, ((closes_nullable (hshape inner)).map _).peeks⟩

theorem Shape.closes_readerWithin (bound depth : Nat) : Closes (readerWithin bound depth) := by
  induction bound generalizing depth with
  | zero => exact (fails_refuseNext _).closes
  | succ bound ih =>
      exact closes_map fun inner _ => (FieldType.closes_readerWith (fun innermost => ih innermost) inner).peeks

theorem Shape.closes_reader (depth : Nat) : Closes (reader depth) :=
  closes_readerWithin (depth + 1) depth

theorem FieldType.closes_reader (depth : Nat) : Closes (reader depth) :=
  closes_readerWith (fun inner => Shape.closes_reader inner) depth

theorem Declaration.closes_reader (depth : Nat) : Closes (reader depth) := by
  refine closes_record _ _ fun inner _ => ?_
  simp only [fields, List.forall_mem_cons, List.not_mem_nil, false_implies, implies_true, and_true]
  exact ⟨((closes_text _).map _).peeks, ((Shape.closes_reader inner).map _).peeks,
    ((closes_text _).map _).peeks⟩

theorem Store.closes_reader (depth : Nat) : Closes (reader depth) :=
  (closes_list fun inner _ => Declaration.closes_reader inner).map Store.mk

theorem Options.closes_fields (inner : Nat) : ∀ field ∈ fields, Closes (field.value inner) := by
  have hflag : Closes (fields.flag inner) := closes_bool
  have hname : Closes (fields.name inner) := closes_nullable (closes_text _)
  simp only [fields, List.forall_mem_cons, List.not_mem_nil, false_implies, implies_true, and_true]
  exact ⟨(CustomLabels.closes_reader inner).map _, hflag.map _, hname.map _, hflag.map _, hflag.map _,
    (closes_nullable (Store.closes_reader inner)).map _, (closes_nullable (closes_text _)).map _,
    hname.map _, hflag.map _, hflag.map _, hflag.map _, hflag.map _,
    (Collision.closes_reader inner).map _⟩

theorem Options.closes_reader (depth : Nat) : Closes (reader depth) :=
  closes_record _ _ fun inner _ field hfield => (closes_fields inner field hfield).peeks

/-! ## Whole texts -/

/-- A value and the end of the text behind it, as in a document. -/
def untilEnd {α : Type} (reader : Json.Reader α) : Json.Reader α := do
  let a ← reader
  endOfText
  return a

example : document = untilEnd (value depthLimit) := rfl

/-- Reads a value from a text that holds nothing else, but for white space. -/
def readWhole {α : Type} (reader : Nat → Json.Reader α) (bytes : List UInt8) :
    Except BuildError α :=
  ((untilEnd (reader depthLimit)).run bytes).mapError .options

/-- The answer is that something follows the value. -/
def HasLeftover {α : Type} (answer : Except BuildError α) : Prop :=
  ∃ refusal, answer = .error (.options refusal) ∧ refusal.fault = .trailingCharacters

section

variable {α : Type} {reader : Nat → Json.Reader α} {bytes : List UInt8} {a : α} {c : Json.Cursor}

/-- White space may follow a text that is read as a whole. -/
theorem endOfText_of_blank (h : ∀ b ∈ c.rest, Json.Cursor.isBlank b = true) :
    ∃ c', endOfText c = .ok () c' := by
  have hrest : c.toToken.rest = [] := by
    rw [rest_toToken]
    exact List.dropWhile_eq_nil_iff.mpr h
  have htoken : token c = .ok none c.toToken := by rw [token, hrest, List.head?_nil]
  exact ⟨c.toToken, bind_eq_ok.mpr ⟨none, c.toToken, htoken, rfl⟩⟩

/-- Anything else that follows is refused, as trailing characters. -/
theorem endOfText_of_not_blank (h : ¬∀ b ∈ c.rest, Json.Cursor.isBlank b = true) :
    ∃ refusal c', endOfText c = .error refusal c' ∧ refusal.fault = .trailingCharacters := by
  have hne : c.toToken.rest ≠ [] := by
    rw [rest_toToken]
    exact mt List.dropWhile_eq_nil_iff.mp h
  obtain ⟨b, rest, hrest⟩ := List.exists_cons_of_ne_nil hne
  have htoken : token c = .ok (some b) c.toToken := by rw [token, hrest, List.head?_cons]
  refine ⟨⟨.trailingCharacters, some c.toToken.advance.position, []⟩, c.toToken, ?_, rfl⟩
  rw [endOfText]
  change EStateM.bind token _ c = _
  rw [EStateM.bind, htoken]
  rfl

/-- A saved value is read from the front of its bytes, and what follows it is not looked at. -/
theorem readSaved_eq_ok_iff :
    readSaved reader bytes = .ok a ↔ ∃ c, reader depthLimit (.start bytes) = .ok a c := by
  rw [readSaved, Json.Reader.run]
  cases reader depthLimit (.start bytes) with
  | ok value c =>
      constructor
      · intro h
        cases h
        exact ⟨c, rfl⟩
      · rintro ⟨c', h⟩
        cases h
        rfl
  | error refusal c =>
      constructor
      · intro h
        cases h
      · rintro ⟨c', h⟩
        cases h

/-- After a value the whole text is read if only white space is left. -/
theorem readWhole_of_blank (h : reader depthLimit (.start bytes) = .ok a c)
    (hblank : ∀ b ∈ c.rest, Json.Cursor.isBlank b = true) : readWhole reader bytes = .ok a := by
  obtain ⟨c', hend⟩ := endOfText_of_blank hblank
  have hread : untilEnd (reader depthLimit) (.start bytes) = .ok a c' :=
    bind_eq_ok.mpr ⟨a, c, h, bind_eq_ok.mpr ⟨(), c', hend, rfl⟩⟩
  rw [readWhole, Json.Reader.run, hread]
  rfl

/-- After a value the text is refused if anything else is left. -/
theorem readWhole_of_not_blank (h : reader depthLimit (.start bytes) = .ok a c)
    (hblank : ¬∀ b ∈ c.rest, Json.Cursor.isBlank b = true) : HasLeftover (readWhole reader bytes) := by
  obtain ⟨refusal, c', hend, hfault⟩ := endOfText_of_not_blank hblank
  refine ⟨refusal, ?_, hfault⟩
  have hread : untilEnd (reader depthLimit) (.start bytes) = .error refusal c' := by
    change EStateM.bind (reader depthLimit) _ _ = _
    rw [EStateM.bind, h]
    change EStateM.bind endOfText _ _ = _
    rw [EStateM.bind, hend]
  rw [readWhole, Json.Reader.run, hread]
  rfl

theorem readWhole_of_error {refusal : Json.Refusal}
    (h : reader depthLimit (.start bytes) = .error refusal c) :
    readWhole reader bytes = .error (.options refusal) := by
  have hread : untilEnd (reader depthLimit) (.start bytes) = .error refusal c := by
    change EStateM.bind (reader depthLimit) _ _ = _
    rw [EStateM.bind, h]
  rw [readWhole, Json.Reader.run, hread]
  rfl

/-- A whole text is read if it has a value and white space behind it. -/
theorem readWhole_eq_ok_iff : readWhole reader bytes = .ok a ↔
    ∃ c, reader depthLimit (.start bytes) = .ok a c ∧ ∀ b ∈ c.rest, Json.Cursor.isBlank b = true := by
  constructor
  · intro h
    cases hread : reader depthLimit (.start bytes) with
    | ok value c =>
        by_cases hblank : ∀ b ∈ c.rest, Json.Cursor.isBlank b = true
        · rw [readWhole_of_blank hread hblank] at h
          cases h
          exact ⟨c, rfl, hblank⟩
        · obtain ⟨refusal, hrefuses, -⟩ := readWhole_of_not_blank hread hblank
          rw [hrefuses] at h
          cases h
    | error refusal c =>
        rw [readWhole_of_error hread] at h
        cases h
  · rintro ⟨c, hread, hblank⟩
    exact readWhole_of_blank hread hblank

end

/-! ## What is accepted -/

/-- The text begins with one that would be read as a whole, and something that is not blank follows. -/
def Overfull {α : Type} (reader : Nat → Json.Reader α) (bytes : List UInt8) : Prop :=
  ∃ front back a, bytes = front ++ back ∧ readWhole reader front = .ok a ∧
    ∃ b ∈ back, Json.Cursor.isBlank b = false

section

variable {α : Type} {reader : Nat → Json.Reader α} {bytes front : List UInt8} {a : α}

/-- What is read from a whole text is read from every text that begins with it, and what is left is the same
white space before all the rest. -/
theorem exists_read_append (h : Closes (reader depthLimit)) (hfront : readWhole reader front = .ok a)
    (back : List UInt8) : ∃ c blanks, reader depthLimit (.start (front ++ back)) = .ok a c ∧
      c.rest = blanks ++ back ∧ ∀ b ∈ blanks, Json.Cursor.isBlank b = true := by
  obtain ⟨c, hread, hblank⟩ := readWhole_eq_ok_iff.mp hfront
  obtain ⟨used, hused, htakes⟩ := echoes_iff.mp h.1 _ _ _ hread
  have hsplit : (Json.Cursor.start (front ++ back)).rest = used ++ (c.rest ++ back) := by
    rw [← List.append_assoc, ← hused]
    rfl
  obtain ⟨d, hread', hrest⟩ := htakes _ _ hsplit False.elim
  exact ⟨d, c.rest, hread', hrest, hblank⟩

/-- A value is read from a text that begins with a whole one. -/
theorem readSaved_eq_ok_iff_front (h : Closes (reader depthLimit)) : readSaved reader bytes = .ok a ↔
    ∃ front back, bytes = front ++ back ∧ readWhole reader front = .ok a := by
  constructor
  · intro hok
    obtain ⟨c, hread⟩ := readSaved_eq_ok_iff.mp hok
    obtain ⟨used, hused, htakes⟩ := echoes_iff.mp h.1 _ _ _ hread
    -- The bytes that were taken are a whole text by themselves.
    obtain ⟨d, hread', hrest⟩ := htakes (.start used) [] (List.append_nil used).symm False.elim
    refine ⟨used, c.rest, hused, readWhole_of_blank hread' ?_⟩
    intro b hb
    rw [hrest] at hb
    cases hb
  · rintro ⟨front, back, rfl, hfront⟩
    obtain ⟨c, -, hread, -⟩ := exists_read_append h hfront back
    exact readSaved_eq_ok_iff.mpr ⟨c, hread⟩

/-- White space does no harm to a whole text. -/
theorem readWhole_append_of_blank (h : Closes (reader depthLimit)) (hfront : readWhole reader front = .ok a)
    {back : List UInt8} (hback : ∀ b ∈ back, Json.Cursor.isBlank b = true) :
    readWhole reader (front ++ back) = .ok a := by
  obtain ⟨c, blanks, hread, hrest, hblanks⟩ := exists_read_append h hfront back
  apply readWhole_of_blank hread
  rw [hrest, List.forall_mem_append]
  exact ⟨hblanks, hback⟩

/-- An overfull text is refused as a whole for what is left of it. -/
theorem Overfull.hasLeftover (h : Closes (reader depthLimit)) (hover : Overfull reader bytes) :
    HasLeftover (readWhole reader bytes) := by
  obtain ⟨front, back, a, rfl, hfront, b, hb, hnot⟩ := hover
  obtain ⟨c, blanks, hread, hrest, -⟩ := exists_read_append h hfront back
  apply readWhole_of_not_blank hread
  intro hblank
  rw [hrest, List.forall_mem_append] at hblank
  rw [hblank.2 b hb] at hnot
  cases hnot

/-- Without a value at the front a text is refused alike, as a whole or not. -/
theorem readWhole_of_refused {error : BuildError} (h : readSaved reader bytes = .error error) :
    readWhole reader bytes = .error error := by
  rw [readSaved, Json.Reader.run] at h
  cases hread : reader depthLimit (.start bytes) with
  | ok a c =>
      rw [hread] at h
      cases h
  | error refusal c =>
      rw [hread] at h
      cases h
      exact readWhole_of_error hread

/-- Only overfull texts are told apart. -/
theorem readSaved_eq_readWhole_iff (h : Closes (reader depthLimit)) :
    readSaved reader bytes = readWhole reader bytes ↔ ¬Overfull reader bytes := by
  constructor
  · intro heq hover
    obtain ⟨refusal, hrefuses, -⟩ := hover.hasLeftover h
    obtain ⟨front, back, a, hbytes, hfront, -⟩ := hover
    have hok := (readSaved_eq_ok_iff_front h).mpr ⟨front, back, hbytes, hfront⟩
    rw [hok, hrefuses] at heq
    cases heq
  · intro hnot
    cases hsaved : readSaved reader bytes with
    | error error => exact (readWhole_of_refused hsaved).symm
    | ok a =>
        obtain ⟨front, back, rfl, hfront⟩ := (readSaved_eq_ok_iff_front h).mp hsaved
        symm
        apply readWhole_append_of_blank h hfront
        intro b hb
        by_contra hblank
        exact hnot ⟨front, back, a, rfl, hfront, b, hb, Bool.eq_false_iff.mpr hblank⟩

end

/-! ## All that is saved -/

/-- The types of values that are saved. -/
inductive SavedKind where
  | options
  | labels
  | store
  | declaration
  | type
  | shape

namespace SavedKind

def Value : SavedKind → Type
  | options => Options
  | labels => CustomLabels
  | store => Store
  | declaration => Declaration
  | type => FieldType
  | shape => Shape

def reader : (kind : SavedKind) → Nat → Json.Reader kind.Value
  | options => Options.reader
  | labels => CustomLabels.reader
  | store => Store.reader
  | declaration => Declaration.reader
  | type => FieldType.reader
  | shape => Shape.reader

theorem closes_reader (kind : SavedKind) (depth : Nat) : Closes (kind.reader depth) := by
  cases kind with
  | options => exact Options.closes_reader depth
  | labels => exact CustomLabels.closes_reader depth
  | store => exact Store.closes_reader depth
  | declaration => exact Declaration.closes_reader depth
  | type => exact FieldType.closes_reader depth
  | shape => exact Shape.closes_reader depth

end SavedKind

/-- **Saved values are read from the front of a text.** A text is accepted if it begins with one that would be
accepted as a whole, and then with the same value. The answers differ for overfull texts and for no others:
these are accepted, where as a whole they are refused for what is left of them. -/
theorem saved_values_read_from_front (kind : SavedKind) (bytes : List UInt8) :
    (readSaved kind.reader bytes = readWhole kind.reader bytes ↔ ¬Overfull kind.reader bytes) ∧
    (∀ a, readSaved kind.reader bytes = .ok a ↔
      ∃ front back, bytes = front ++ back ∧ readWhole kind.reader front = .ok a) ∧
    (∀ a, readWhole kind.reader bytes = .ok a → readSaved kind.reader bytes = .ok a) ∧
    (Overfull kind.reader bytes → HasLeftover (readWhole kind.reader bytes)) := by
  have hcloses := kind.closes_reader depthLimit
  refine ⟨readSaved_eq_readWhole_iff hcloses, fun a => readSaved_eq_ok_iff_front hcloses, ?_,
    fun hover => hover.hasLeftover hcloses⟩
  intro a hwhole
  exact (readSaved_eq_ok_iff_front hcloses).mpr ⟨bytes, [], (List.append_nil bytes).symm, hwhole⟩

/-- Options are not read as a whole. -/
example : Options.read = readSaved Options.reader := rfl

/-- Options of which all members are left out, with a letter behind them. -/
def optionsAndMore : List UInt8 :=
  [0x7B, 0x7D, 0x20, 0x78]

theorem optionsAndMore_unnoticed :
    readSaved Options.reader optionsAndMore = .ok {} ∧
      HasLeftover (readWhole Options.reader optionsAndMore) :=
  ⟨rfl, _, rfl, rfl⟩

end SampleTypes
