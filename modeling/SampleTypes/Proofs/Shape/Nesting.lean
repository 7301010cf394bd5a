import Mathlib.Data.List.Nodup
import SampleTypes.Proofs.Shape.Sameness

/-!
# Nested shapes

The shapes inside a shape are those that get declarations of their own (`FieldType.nested?`), at any
depth. They have fewer levels than the shape around them, so no shape is the same as one inside it.

In general `nested?` looks at kinds and sameness does not. In a regular type every object with fields
is of kind object, and there the two go together: shapes that are the same have the same shapes inside
(`Shape.exists_nested_of_same`, `Shape.Within.exists_like`).
-/

namespace SampleTypes

/-- A type has a shape to declare if it is an object with fields. -/
theorem FieldType.nested?_eq_some {type : FieldType} {nested : Shape} :
    type.nested? = some nested ↔
      type.kind = .object ∧ type.fields = some nested ∧ nested ≠ [] := by
  obtain ⟨kind, label, optional, isArray, fields?⟩ := type
  cases kind with
  | object =>
      match fields? with
      | none => simp [nested?]
      | some [] =>
          simp only [nested?, reduceCtorEq, true_and, Option.some.injEq, false_iff, not_and, not_not]
          exact Eq.symm
      | some (field :: rest) =>
          simp only [nested?, true_and, Option.some.injEq]
          exact ⟨fun h => ⟨h, h ▸ List.cons_ne_nil _ _⟩, And.left⟩
  | _ => simp [nested?]

theorem FieldType.fields_of_nested? {type : FieldType} {nested : Shape}
    (h : type.nested? = some nested) : type.fields = some nested :=
  (nested?_eq_some.mp h).2.1

/-- Whether a type with fields has a shape to declare. -/
theorem FieldType.nested?_mk_some (kind : TypeKind) (label : String) (optional isArray : Bool)
    (fields : Shape) : (FieldType.mk kind label optional isArray (some fields)).nested? =
      if kind == .object && !fields.isEmpty then some fields else none := by
  cases kind <;> cases fields <;> rfl

theorem FieldType.nested?_of_fields_eq_none {type : FieldType} (h : type.fields = none) :
    type.nested? = none := by
  cases hn : type.nested? with
  | none => rfl
  | some nested =>
      rw [fields_of_nested? hn] at h
      cases h

namespace Shape

variable {shape nested inner : Shape} {field : String × FieldType}

theorem Proper.of_nested (h : shape.Proper) (hfield : field ∈ shape)
    (hn : field.2.nested? = some nested) : nested.Proper :=
  (h.2 field hfield).fields (FieldType.fields_of_nested? hn)

/-- A nested shape has fewer levels, so it is another one. -/
theorem levels_lt_of_nested (hfield : field ∈ shape) (hn : field.2.nested? = some nested) :
    nested.levels < shape.levels := by
  rw [← FieldType.levels_of_some (FieldType.fields_of_nested? hn)]
  exact levels_lt_of_mem hfield

/-- The shape itself, or one nested in it at any depth. -/
inductive Within (inner : Shape) : Shape → Prop
  | self : Within inner inner
  | deeper {shape nested : Shape} {field : String × FieldType} (hfield : field ∈ shape)
      (hn : field.2.nested? = some nested) (h : Within inner nested) : Within inner shape

theorem Within.proper (h : inner.Within shape) (hs : shape.Proper) : inner.Proper := by
  induction h with
  | self => exact hs
  | deeper hfield hn _ ih => exact ih (hs.of_nested hfield hn)

theorem Within.levels_le (h : inner.Within shape) : inner.levels ≤ shape.levels := by
  induction h with
  | self => exact Nat.le_refl _
  | deeper hfield hn _ ih => exact Nat.le_trans ih (Nat.le_of_lt (levels_lt_of_nested hfield hn))

end Shape

/-! ## Regular types -/

/-- At every node the fields, if there are any, are those of an object to be declared. -/
inductive FieldType.Regular : FieldType → Prop
  | intro {type : FieldType} (h : type.nested? = type.fields)
      (hr : ∀ fields, type.fields = some fields → ∀ field ∈ fields, Regular field.2) : Regular type

/-- The types of all fields are regular. -/
def Shape.Regular (shape : Shape) : Prop :=
  ∀ field ∈ shape, field.2.Regular

theorem FieldType.Regular.nested?_eq {type : FieldType} (h : type.Regular) :
    type.nested? = type.fields := by
  cases h with
  | intro h _ => exact h

namespace Shape

variable {a b nested inner shape : Shape} {field : String × FieldType}

theorem Regular.of_nested (h : shape.Regular) (hfield : field ∈ shape)
    (hn : field.2.nested? = some nested) : nested.Regular := by
  cases h field hfield with
  | intro _ hr => exact hr nested (FieldType.fields_of_nested? hn)

theorem Within.regular (h : inner.Within shape) (hs : shape.Regular) : inner.Regular := by
  induction h with
  | self => exact hs
  | deeper hfield hn _ ih => exact ih (hs.of_nested hfield hn)

/-- A field of a shape has a counterpart in every shape that is the same. -/
theorem exists_field_of_same (h : a.same b = true) (hfield : field ∈ a) :
    ∃ other, (field.1, other) ∈ b ∧ FieldType.agree FieldType.sameMarks field.2 other = true := by
  obtain ⟨-, hcounterpart⟩ := agree_iff.mp h
  obtain ⟨other, hother, hagree⟩ := hcounterpart field hfield
  exact ⟨other, Entries.mem_of_find? hother, hagree⟩

/-- The fields of shapes that are the same are paired off by their keys. -/
theorem exists_pairing (ha : a.Proper) (hb : b.Proper) (h : a.same b = true) :
    ∃ paired : Shape, paired.Perm b ∧ List.Forall₂ (fun field other => other.1 = field.1 ∧
      FieldType.agree FieldType.sameMarks field.2 other.2 = true) a paired := by
  have hcounterpart : ∀ field ∈ a, ∃ other, (field.1, other) ∈ b ∧
      FieldType.agree FieldType.sameMarks field.2 other = true :=
    fun field hfield => exists_field_of_same h hfield
  choose! partner hpartner using hcounterpart
  refine ⟨a.map fun field => (field.1, partner field), ?_, ?_⟩
  · have hkeys : Entries.Distinct (a.map fun field => (field.1, partner field)) := by
      rw [Entries.Distinct, Entries.keys, List.map_map]
      exact ha.1
    have hpaired : (a.map fun field => (field.1, partner field)).Nodup :=
      List.Nodup.of_map Prod.fst hkeys
    -- Keys are distinct on both sides, so it is enough to have the same fields.
    refine (List.perm_ext_iff_of_nodup hpaired (List.Nodup.of_map Prod.fst hb.1)).mpr fun other => ?_
    constructor
    · intro hother
      obtain ⟨field, hfield, rfl⟩ := List.mem_map.mp hother
      exact (hpartner field hfield).1
    · intro hother
      obtain ⟨type, htype, -⟩ := exists_field_of_same (same_symm ha hb h) hother
      have heq : partner (other.1, type) = other.2 :=
        Entries.eq_of_mem hb.1 (hpartner _ htype).1 hother
      exact List.mem_map.mpr ⟨(other.1, type), htype, by rw [heq]⟩
  · rw [List.forall₂_map_right_iff, List.forall₂_same]
    exact fun field hfield => ⟨rfl, (hpartner field hfield).2⟩

/-- A shape inside one of two shapes that are the same has its like inside the other one. -/
theorem exists_nested_of_same (hb : b.Regular) (h : a.same b = true) (hfield : field ∈ a)
    (hn : field.2.nested? = some nested) :
    ∃ other ∈ b, other.1 = field.1 ∧
      ∃ like, other.2.nested? = some like ∧ nested.same like = true := by
  obtain ⟨other, hother, hagree⟩ := exists_field_of_same h hfield
  obtain ⟨-, like, hlike, hsame⟩ :=
    (FieldType.agree_of_some (FieldType.fields_of_nested? hn)).mp hagree
  refine ⟨_, hother, rfl, like, ?_, hsame⟩
  rw [(hb _ hother).nested?_eq, hlike]

/-- What is inside one of two shapes that are the same has its like inside the other one. -/
theorem Within.exists_like (hb : b.Regular) (h : a.same b = true) (hwithin : inner.Within a) :
    ∃ like : Shape, like.Within b ∧ inner.same like = true := by
  induction hwithin generalizing b with
  | self => exact ⟨b, .self, h⟩
  | deeper hfield hn _ ih =>
      obtain ⟨other, hother, -, nested, hnested, hsame⟩ := exists_nested_of_same hb h hfield hn
      obtain ⟨like, hlike, hinner⟩ := ih (hb.of_nested hother hnested) hsame
      exact ⟨like, .deeper hother hnested hlike, hinner⟩

end Shape

end SampleTypes
