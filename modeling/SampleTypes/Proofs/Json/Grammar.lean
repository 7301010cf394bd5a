import Mathlib.Data.List.DropRight
import Mathlib.Data.List.Forall2
import SampleTypes.Proofs.Json.Containers

/-!
# Texts of JSON

What values of JSON look like as bytes, told apart from all readers. White space may stand around every part
of a container (`Padded`), and the parts stand between commas (`Enclosed`). An object is told with its members
in order, each of them as the bytes of its key and those of its value (`ObjectText`), so that several texts
may be told to have the same members, or the same ones in another order.

Keys may be repeated, containers may lie in one another as deep as they like, and numbers may be of any size.
Bytes beyond ASCII may stand in strings without being the UTF-8 form of anything, and escapes need not stand
for characters.
-/

namespace SampleTypes.Json

open Reader (isDigit)

/-! ## Values without parts -/

/-- White space, or nothing. -/
def Blank (bytes : List UInt8) : Prop :=
  ∀ b ∈ bytes, Cursor.isBlank b = true

def IsHex (b : UInt8) : Prop :=
  (0x30 ≤ b ∧ b ≤ 0x39) ∨ (0x41 ≤ b ∧ b ≤ 0x46) ∨ (0x61 ≤ b ∧ b ≤ 0x66)

/-- The bytes that make an escape with the backslash before them. -/
def shortMarks : List UInt8 :=
  [0x22, 0x5C, 0x2F, 0x62, 0x66, 0x6E, 0x72, 0x74]

/-- What stands between the quotes of a string. -/
inductive StringBody : List UInt8 → Prop
  | nil : StringBody []
  | plain {b rest} (hb : IsPlain b) (more : StringBody rest) : StringBody (b :: rest)
  | short {mark rest} (hmark : mark ∈ shortMarks) (more : StringBody rest) :
      StringBody (0x5C :: mark :: rest)
  | numeric {w x y z rest} (hw : IsHex w) (hx : IsHex x) (hy : IsHex y) (hz : IsHex z)
      (more : StringBody rest) : StringBody (0x5C :: 0x75 :: w :: x :: y :: z :: rest)

def Digits (bytes : List UInt8) : Prop :=
  bytes ≠ [] ∧ ∀ b ∈ bytes, isDigit b = true

inductive WholePart : List UInt8 → Prop
  | zero : WholePart [0x30]
  | digits {b more} (hb : isDigit b = true) (hzero : b ≠ 0x30) (hmore : ∀ d ∈ more, isDigit d = true) :
      WholePart (b :: more)

/-- The fraction of a number, if it has one. -/
inductive FractionPart : List UInt8 → Prop
  | none : FractionPart []
  | some {digits} (h : Digits digits) : FractionPart (0x2E :: digits)

inductive ExponentPart : List UInt8 → Prop
  | none : ExponentPart []
  | some {mark sign digits} (hmark : mark = 0x65 ∨ mark = 0x45)
      (hsign : sign = [] ∨ sign = [0x2B] ∨ sign = [0x2D]) (h : Digits digits) :
      ExponentPart (mark :: (sign ++ digits))

def UnsignedText (text : List UInt8) : Prop :=
  ∃ whole fraction exponent, WholePart whole ∧ FractionPart fraction ∧ ExponentPart exponent ∧
    text = whole ++ (fraction ++ exponent)

/-! ## Containers -/

/-- The bytes with white space around them. -/
def Padded (v part : List UInt8) : Prop :=
  ∃ front back, Blank front ∧ Blank back ∧ part = front ++ (v ++ back)

/-- Parts with commas between them and a closing byte at the end. Without parts there may be white space. -/
inductive Enclosed (close : UInt8) : List (List UInt8) → List UInt8 → Prop
  | empty {blanks} (h : Blank blanks) : Enclosed close [] (blanks ++ [close])
  | parts (part parts) : Enclosed close (part :: parts) (part ++ following close parts)

/-- A member of an object: the bytes between the quotes of its key, and those of its value. -/
structure Member where
  key : List UInt8
  value : List UInt8

/-- The key of a member in quotes, a colon and the value. -/
def Member.Text (m : Member) (part : List UInt8) : Prop :=
  ∃ name value, Padded (0x22 :: (m.key ++ [0x22])) name ∧ Padded m.value value ∧
    part = name ++ 0x3A :: value

/-- A member of which the key has been read: a colon and the value are still to come. -/
def Member.Remains (m : Member) (rest before : List UInt8) : Prop :=
  ∃ gap front, Blank gap ∧ Blank front ∧ before = gap ++ 0x3A :: (front ++ (m.value ++ rest))

def ListText (items : List (List UInt8)) (text : List UInt8) : Prop :=
  ∃ parts inner, List.Forall₂ Padded items parts ∧ Enclosed 0x5D parts inner ∧ text = 0x5B :: inner

def ObjectText (members : List Member) (text : List UInt8) : Prop :=
  ∃ parts inner, List.Forall₂ Member.Text members parts ∧ Enclosed 0x7D parts inner ∧ text = 0x7B :: inner

inductive ValueText : List UInt8 → Prop
  | nullWord : ValueText [0x6E, 0x75, 0x6C, 0x6C]
  | trueWord : ValueText [0x74, 0x72, 0x75, 0x65]
  | falseWord : ValueText [0x66, 0x61, 0x6C, 0x73, 0x65]
  | unsigned {text} (h : UnsignedText text) : ValueText text
  | negative {text} (h : UnsignedText text) : ValueText (0x2D :: text)
  | string {inner} (h : StringBody inner) : ValueText (0x22 :: (inner ++ [0x22]))
  | list {items text} (h : ListText items text) (hitems : ∀ item ∈ items, ValueText item) : ValueText text
  | object {members text} (h : ObjectText members text) (hkeys : ∀ m ∈ members, StringBody m.key)
      (hvalues : ∀ m ∈ members, ValueText m.value) : ValueText text

/-- The members have strings for keys and values for values. -/
def ProperMembers (members : List Member) : Prop :=
  ∀ m ∈ members, StringBody m.key ∧ ValueText m.value

/-- A document that is an object with the members. -/
def ObjectDocument (members : List Member) (text : List UInt8) : Prop :=
  ProperMembers members ∧ ∃ object, ObjectText members object ∧ Padded object text

variable {front back rest text : List UInt8} {close : UInt8}

/-- An object is a value. -/
theorem ObjectText.value {members : List Member} (h : ObjectText members text)
    (hproper : ProperMembers members) : ValueText text :=
  .object h (fun m hm => (hproper m hm).1) fun m hm => (hproper m hm).2

/-! ## Texts without white space -/

theorem blank_nil : Blank [] :=
  List.forall_mem_nil _

def Member.compact (m : Member) : List UInt8 :=
  0x22 :: (m.key ++ [0x22]) ++ 0x3A :: m.value

/-- Parts without white space, and the end of their container. -/
def compactInner (close : UInt8) : List (List UInt8) → List UInt8
  | [] => [close]
  | part :: parts => part ++ following close parts

def compactObject (members : List Member) : List UInt8 :=
  0x7B :: compactInner 0x7D (members.map Member.compact)

/-- Any members have a text. -/
theorem objectText_compact (members : List Member) : ObjectText members (compactObject members) := by
  refine ⟨members.map Member.compact, _, ?_, ?_, rfl⟩
  · rw [List.forall₂_map_right_iff, List.forall₂_same]
    intro m _
    have hpadded : ∀ bytes, Padded bytes bytes := fun bytes =>
      ⟨[], [], blank_nil, blank_nil, (List.append_nil bytes).symm⟩
    exact ⟨_, _, hpadded _, hpadded _, rfl⟩
  · cases members with
    | nil => exact .empty blank_nil
    | cons m members => exact .parts _ _

/-- Plain bytes stand for themselves in a string. -/
theorem stringBody_of_plain {inner : List UInt8} (h : ∀ b ∈ inner, IsPlain b) : StringBody inner := by
  induction inner with
  | nil => exact .nil
  | cons b inner ih =>
      rw [List.forall_mem_cons] at h
      exact .plain h.1 (ih h.2)

/-! ## First bytes -/

/-- The bytes, without white space in front of them. -/
abbrev visible (bytes : List UInt8) : List UInt8 :=
  bytes.dropWhile Cursor.isBlank

/-- White space in front is not seen. -/
theorem visible_append (h : Blank front) (rest : List UInt8) : visible (front ++ rest) = visible rest :=
  List.dropWhile_append_of_pos h

theorem visible_cons {b : UInt8} (hb : Cursor.isBlank b = false) (rest : List UInt8) :
    visible (b :: rest) = b :: rest :=
  List.dropWhile_cons_of_neg (Bool.eq_false_iff.mp hb)

/-- What may follow a value: nothing, white space, a comma, or the end of a container. -/
def Delimits (rest : List UInt8) : Prop :=
  ∀ b, rest.head? = some b → Cursor.isBlank b = true ∨ b = 0x2C ∨ b = 0x5D ∨ b = 0x7D

theorem Blank.delimits (h : Blank back) (hrest : Delimits rest) : Delimits (back ++ rest) := by
  intro b hb
  cases back with
  | nil => exact hrest b hb
  | cons x back =>
      cases hb
      exact .inl (h _ List.mem_cons_self)

theorem delimits_nil : Delimits [] := by
  rintro b ⟨⟩

/-- The byte ends a container. -/
def IsCloser (b : UInt8) : Prop :=
  b = 0x5D ∨ b = 0x7D

theorem delimits_following (hclose : IsCloser close) (parts : List (List UInt8)) (rest : List UInt8) :
    Delimits (following close parts ++ rest) := by
  intro b hb
  cases parts with
  | nil =>
      cases hb
      exact .inr (.inr hclose)
  | cons part parts =>
      cases hb
      exact .inr (.inl rfl)

/-- What follows a part begins with a comma or a bracket, and so it is seen as it is. -/
theorem visible_following (hclose : IsCloser close) (parts : List (List UInt8)) (rest : List UInt8) :
    visible (following close parts ++ rest) = following close parts ++ rest := by
  cases parts with
  | nil =>
      refine visible_cons ?_ _
      rcases hclose with rfl | rfl <;> rfl
  | cons part parts => exact visible_cons rfl _

/-- The byte begins a value that is neither white space nor in the way of a closing bracket. -/
def BeginsValue (b : UInt8) : Prop :=
  isDigit b = true ∨ b ∈ [0x6E, 0x74, 0x66, 0x2D, 0x22, 0x5B, 0x7B]

theorem ne_of_isDigit {b other : UInt8} (h : isDigit b = true) (hother : isDigit other = false) :
    b ≠ other := by
  rintro rfl
  rw [h] at hother
  cases hother

theorem BeginsValue.not_blank {b : UInt8} (h : BeginsValue b) : Cursor.isBlank b = false := by
  rcases h with hdigit | hmem
  · simp only [Cursor.isBlank, Bool.or_eq_false_iff, beq_eq_false_iff_ne]
    refine ⟨⟨⟨?_, ?_⟩, ?_⟩, ?_⟩ <;> exact ne_of_isDigit hdigit rfl
  · simp only [List.mem_cons, List.not_mem_nil, or_false] at hmem
    rcases hmem with rfl | rfl | rfl | rfl | rfl | rfl | rfl <;> rfl

theorem BeginsValue.ne_closer {b : UInt8} (h : BeginsValue b) (hclose : IsCloser close) : b ≠ close := by
  rcases h with hdigit | hmem
  · rcases hclose with rfl | rfl <;> exact ne_of_isDigit hdigit rfl
  · simp only [List.mem_cons, List.not_mem_nil, or_false] at hmem
    rcases hclose with rfl | rfl <;> rcases hmem with rfl | rfl | rfl | rfl | rfl | rfl | rfl <;> decide

/-- White space in front does not come back. -/
theorem visible_visible (bytes : List UInt8) : visible (visible bytes) = visible bytes :=
  List.dropWhile_idempotent _ _

theorem UnsignedText.begins (h : UnsignedText text) : ∃ b more, text = b :: more ∧ isDigit b = true := by
  obtain ⟨whole, fraction, exponent, hwhole, -, -, rfl⟩ := h
  cases hwhole with
  | zero => exact ⟨0x30, _, rfl, rfl⟩
  | digits hb _ _ => exact ⟨_, _, rfl, hb⟩

/-- A value has a first byte, and it is one of those that may begin a value. -/
theorem ValueText.begins (h : ValueText text) : ∃ b more, text = b :: more ∧ BeginsValue b := by
  cases h with
  | nullWord => exact ⟨_, _, rfl, .inr (by decide)⟩
  | trueWord => exact ⟨_, _, rfl, .inr (by decide)⟩
  | falseWord => exact ⟨_, _, rfl, .inr (by decide)⟩
  | unsigned h =>
      obtain ⟨b, more, htext, hb⟩ := h.begins
      exact ⟨b, more, htext, .inl hb⟩
  | negative _ => exact ⟨_, _, rfl, .inr (by decide)⟩
  | string _ => exact ⟨_, _, rfl, .inr (by decide)⟩
  | list h _ =>
      obtain ⟨parts, inner, -, -, rfl⟩ := h
      exact ⟨_, _, rfl, .inr (by decide)⟩
  | object h _ _ =>
      obtain ⟨parts, inner, -, -, rfl⟩ := h
      exact ⟨_, _, rfl, .inr (by decide)⟩

theorem ValueText.visible_append (h : ValueText text) (rest : List UInt8) :
    visible (text ++ rest) = text ++ rest := by
  obtain ⟨b, more, rfl, hb⟩ := h.begins
  exact visible_cons hb.not_blank _

/-! ## What the first byte tells -/

def IsListInner (inner : List UInt8) : Prop :=
  ∃ items parts, List.Forall₂ Padded items parts ∧ Enclosed 0x5D parts inner ∧
    ∀ item ∈ items, ValueText item

def IsObjectInner (inner : List UInt8) : Prop :=
  ∃ members parts, List.Forall₂ Member.Text members parts ∧ Enclosed 0x7D parts inner ∧
    ProperMembers members

/-- A value, told by its first byte. -/
inductive Opening : UInt8 → List UInt8 → Prop
  | nullWord : Opening 0x6E [0x75, 0x6C, 0x6C]
  | trueWord : Opening 0x74 [0x72, 0x75, 0x65]
  | falseWord : Opening 0x66 [0x61, 0x6C, 0x73, 0x65]
  | number {b v} (hb : (isDigit b || b == 0x2D) = true) : Opening b v
  | string {inner} (h : StringBody inner) : Opening 0x22 (inner ++ [0x22])
  | list {inner} (h : IsListInner inner) : Opening 0x5B inner
  | object {inner} (h : IsObjectInner inner) : Opening 0x7B inner

/-- What follows the first byte of a value is what that byte opens. -/
theorem ValueText.opening {b : UInt8} {v : List UInt8} (h : ValueText (b :: v)) : Opening b v := by
  generalize htext : b :: v = text at h
  cases h with
  | nullWord => cases htext; exact .nullWord
  | trueWord => cases htext; exact .trueWord
  | falseWord => cases htext; exact .falseWord
  | unsigned h =>
      obtain ⟨b', more, hbegins, hdigit⟩ := h.begins
      cases htext.trans hbegins
      exact .number (by rw [hdigit, Bool.true_or])
  | negative _ => cases htext; exact .number rfl
  | string h => cases htext; exact .string h
  | list h hitems =>
      obtain ⟨parts, inner, hparts, hinner, hbegins⟩ := h
      cases htext.trans hbegins
      exact .list ⟨_, parts, hparts, hinner, hitems⟩
  | object h hkeys hvalues =>
      obtain ⟨parts, inner, hparts, hinner, hbegins⟩ := h
      cases htext.trans hbegins
      exact .object ⟨_, parts, hparts, hinner, fun m hm => ⟨hkeys m hm, hvalues m hm⟩⟩

section

variable {v : List UInt8}

theorem ValueText.of_null (h : ValueText (0x6E :: v)) : v = [0x75, 0x6C, 0x6C] := by
  cases h.opening with
  | nullWord => rfl
  | number hb => cases hb

theorem ValueText.of_true (h : ValueText (0x74 :: v)) : v = [0x72, 0x75, 0x65] := by
  cases h.opening with
  | trueWord => rfl
  | number hb => cases hb

theorem ValueText.of_false (h : ValueText (0x66 :: v)) : v = [0x61, 0x6C, 0x73, 0x65] := by
  cases h.opening with
  | falseWord => rfl
  | number hb => cases hb

theorem ValueText.of_quote (h : ValueText (0x22 :: v)) :
    ∃ inner, StringBody inner ∧ v = inner ++ [0x22] := by
  cases h.opening with
  | number hb => cases hb
  | string hinner => exact ⟨_, hinner, rfl⟩

theorem ValueText.of_bracket (h : ValueText (0x5B :: v)) : IsListInner v := by
  cases h.opening with
  | number hb => cases hb
  | list hinner => exact hinner

theorem ValueText.of_brace (h : ValueText (0x7B :: v)) : IsObjectInner v := by
  cases h.opening with
  | number hb => cases hb
  | object hinner => exact hinner

end

/-! ## The parts of containers -/

/-- What is left of a part of a list without the white space in front. -/
theorem Padded.exists_visible {v part : List UInt8} (h : Padded v part) (hvalue : ValueText v) :
    ∃ back, Blank back ∧ v.length + back.length ≤ part.length ∧
      ∀ rest, visible (part ++ rest) = v ++ (back ++ rest) := by
  obtain ⟨front, back, hfront, hback, rfl⟩ := h
  refine ⟨back, hback, ?_, fun rest => ?_⟩
  · simp only [List.length_append]
    omega
  · rw [List.append_assoc, List.append_assoc, Json.visible_append hfront, hvalue.visible_append]

/-- What is left of a member without the white space in front. -/
theorem Member.Text.exists_visible {m : Member} {part : List UInt8} (h : m.Text part) :
    ∃ gap front back, Blank gap ∧ Blank front ∧ Blank back ∧
      m.value.length + back.length ≤ part.length ∧ ∀ rest, visible (part ++ rest) =
        0x22 :: (m.key ++ 0x22 :: (gap ++ 0x3A :: (front ++ (m.value ++ (back ++ rest))))) := by
  obtain ⟨name, value, ⟨lead, gap, hlead, hgap, rfl⟩, ⟨front, back, hfront, hback, rfl⟩, rfl⟩ := h
  refine ⟨gap, front, back, hgap, hfront, hback, ?_, fun rest => ?_⟩
  · simp only [List.length_append, List.length_cons]
    omega
  · have hshape : lead ++ (0x22 :: (m.key ++ [0x22]) ++ gap) ++ 0x3A :: (front ++ (m.value ++ back)) ++ rest =
        lead ++ (0x22 :: (m.key ++ 0x22 :: (gap ++ 0x3A :: (front ++ (m.value ++ (back ++ rest)))))) := by
      simp only [List.append_assoc, List.cons_append, List.nil_append]
    rw [hshape, visible_append hlead]
    exact visible_cons rfl _

end SampleTypes.Json
