import SampleTypes.Proofs.Json.Restoring
import SampleTypes.Proofs.Shape.Sameness
import SampleTypes.Shape.Codec

/-!
# Shapes are restored

A saved type is read back with all it had, its kind included, and a saved shape with its fields in
their order, as long as the saved form is not nested too deep (`Shape.restores`). The bound on levels
that the reader of shapes carries never takes effect: the depth runs out first.
-/

namespace SampleTypes

open Json.Reader

namespace TypeKind

theorem restores (depth : Nat) (kind : TypeKind) :
    Restores depth (reader depth) kind.toJson kind :=
  restores_variant (by cases kind <;> decide)

end TypeKind

namespace FieldType

variable {depth : Nat} {shape : Nat → Json.Reader Shape} {type : FieldType}

theorem membersOf_eq_map (fields : Shape) :
    membersOf fields = fields.map fun field => (field.1, field.2.toJson) := by
  induction fields with
  | nil => rw [membersOf, List.map_nil]
  | cons field fields ih => rw [membersOf, ih, List.map_cons]

/-- No key of a saved type can be taken for another one. -/
theorem unambiguous_savedFields (shape : Nat → Json.Reader Shape) :
    Unambiguous (savedFields shape) := by
  change (["kind", "type", "optional", "isArray", "objectKeys"] : List String).Nodup
  decide

/-- The values of a saved type's members, with what they do to the draft; `nested` writes its fields. -/
def savedValues (nested : Shape → List (String × Json)) (type : FieldType) :
    List (Json × (Saved → Saved)) := [
    (type.kind.toJson, fun s => { s with kind := some type.kind }),
    (.string type.label, fun s => { s with label := type.label }),
    (.bool type.optional, fun s => { s with optional := type.optional }),
    (.bool type.isArray, fun s => { s with isArray := type.isArray })] ++
  match type.fields with
  | none => []
  | some fields => [(.object (nested fields), fun s => { s with fields := some fields })]

def savedMembers (shape : Nat → Json.Reader Shape) (nested : Shape → List (String × Json))
    (type : FieldType) : List (Written Saved) :=
  Written.along (savedFields shape) (type.savedValues nested)

theorem toJson_eq_object (shape : Nat → Json.Reader Shape) (type : FieldType) :
    type.toJson = .object ((type.savedMembers shape membersOf).map Written.text) := by
  obtain ⟨kind, label, optional, isArray, fields?⟩ := type
  cases fields? with
  | none =>
      rw [toJson]
      rfl
  | some fields =>
      rw [toJson]
      rfl

/-- The members that a type is saved with are chosen among its fields. -/
theorem selects_savedMembers (shape : Nat → Json.Reader Shape)
    (nested : Shape → List (String × Json)) (type : FieldType) :
    Selects (savedFields shape) (type.savedMembers shape nested) := by
  refine selects_along (unambiguous_savedFields shape) _ ?_
  cases hfields : type.fields with
  | none =>
      simp only [savedValues, hfields]
      exact List.forall_mem_singleton.mpr rfl
  | some fields =>
      simp only [savedValues, hfields]
      exact fun _ h => absurd h List.not_mem_nil

/-- Every member of a saved type is restored if the shape of its fields is. -/
theorem restores_savedMembers {inner : Nat} {nested : Shape → List (String × Json)}
    (hshape : ∀ fields, type.fields = some fields →
      Restores inner (shape inner) (.object (nested fields)) fields) :
    ∀ written ∈ type.savedMembers shape nested,
      Restores inner (written.field.value inner) written.json written.put := by
  have hkind := ((TypeKind.restores inner type.kind).nullable (Json.opens_string _) rfl
    (by decide)).map fun kind (s : Saved) => { s with kind := kind }
  have hlabel := (restores_text inner "a string" type.label).map
    fun label (s : Saved) => { s with label := label }
  have hoptional := (restores_bool inner type.optional).map
    fun mark (s : Saved) => { s with optional := mark }
  have harray := (restores_bool inner type.isArray).map
    fun mark (s : Saved) => { s with isArray := mark }
  cases hfields : type.fields with
  | none =>
      simp only [savedMembers, savedValues, hfields, savedFields, Written.along, List.append_nil,
        List.zipWith_cons_cons, List.zipWith_nil_right, List.forall_mem_cons, List.not_mem_nil,
        false_implies, implies_true, and_true]
      exact ⟨hkind, hlabel, hoptional, harray⟩
  | some fields =>
      have hnested := ((hshape fields hfields).nullable (Json.opens_object _) rfl (by decide)).map
        fun fields (s : Saved) => { s with fields := fields }
      simp only [savedMembers, savedValues, hfields, savedFields, Written.along, List.cons_append,
        List.nil_append, List.zipWith_cons_cons, List.zipWith_nil_right, List.forall_mem_cons,
        List.not_mem_nil, false_implies, implies_true, and_true]
      exact ⟨hkind, hlabel, hoptional, harray, hnested⟩

/-- A type is restored if the shape of its fields is. -/
theorem restores_readerWith
    (hshape : ∀ inner fields, depth = inner + 1 → type.fields = some fields →
      Restores inner (shape inner) (Shape.toJson fields) fields) :
    Restores depth (readerWith shape depth) type.toJson type := by
  intro after
  rw [toJson_eq_object shape type]
  refine (restores_record (type.selects_savedMembers shape membersOf) "struct StoredValueType" _
    (fun inner hinner => restores_savedMembers fun fields => hshape inner fields hinner) after).map ?_
  obtain ⟨kind, label, optional, isArray, fields?⟩ := type
  cases fields? <;> rfl

end FieldType

namespace Shape

/-- A shape is restored by a reader with room for more levels than the depth has containers. -/
theorem restores_readerWithin {bound depth : Nat} (hbound : depth < bound) {shape : Shape}
    (hp : shape.Proper) : Restores depth (readerWithin bound depth) shape.toJson shape := by
  induction bound generalizing depth shape with
  | zero => exact absurd hbound (Nat.not_lt_zero depth)
  | succ bound ih =>
      -- A level takes two containers of the depth and one of the bound, so the bound stays ahead.
      rw [toJson, FieldType.membersOf_eq_map]
      refine restores_map hp.1 fun inner hinner field hfield => ?_
      refine FieldType.restores_readerWith fun innermost fields hinnermost hfields => ?_
      exact ih (by omega) ((hp.2 field hfield).fields hfields)

/-- A shape is restored, if its saved form fits in the depth. -/
theorem restores (depth : Nat) {shape : Shape} (hp : shape.Proper) :
    Restores depth (reader depth) shape.toJson shape :=
  restores_readerWithin (Nat.lt_succ_self depth) hp

end Shape

/-- A type is restored, if its saved form fits in the depth. -/
theorem FieldType.restores (depth : Nat) {type : FieldType} (hp : type.Proper) :
    Restores depth (reader depth) type.toJson type :=
  restores_readerWith fun inner _ _ hfields => Shape.restores inner (hp.fields hfields)

end SampleTypes
