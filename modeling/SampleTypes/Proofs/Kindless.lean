import SampleTypes.Proofs.Saved
import SampleTypes.Proofs.Shape.Canonical

/-!
# Saved forms without kinds

The kind of a saved type may be left out. What is read then is the type with the kind that its other members
tell at every node (`FieldType.recoveredKind`): the same shape, as kinds do not count for that. A saved store
without kinds is read back with the names and the texts that it had (`Store.restores_withoutKinds`).
-/

namespace SampleTypes

open Json.Reader

namespace FieldType

/-- The kind that is read where none is saved. -/
def recoveredKind (type : FieldType) : TypeKind :=
  Saved.recoverKind ⟨none, type.label, type.optional, type.isArray, type.fields⟩

mutual

def toJsonWithoutKinds : FieldType → Json
  | ⟨_, label, optional, isArray, none⟩ =>
    .object [("type", .string label), ("optional", .bool optional), ("isArray", .bool isArray)]
  | ⟨_, label, optional, isArray, some fields⟩ =>
    .object [("type", .string label), ("optional", .bool optional), ("isArray", .bool isArray),
      ("objectKeys", .object (membersWithoutKinds fields))]

def membersWithoutKinds : List (String × FieldType) → List (String × Json)
  | [] => []
  | (key, type) :: rest => (key, type.toJsonWithoutKinds) :: membersWithoutKinds rest

end

variable {depth : Nat} {shape : Nat → Json.Reader Shape} {type : FieldType}

theorem membersWithoutKinds_eq_map (fields : Shape) : membersWithoutKinds fields =
    fields.map fun field => (field.1, field.2.toJsonWithoutKinds) := by
  induction fields with
  | nil => rw [membersWithoutKinds, List.map_nil]
  | cons field fields ih => rw [membersWithoutKinds, ih, List.map_cons]

/-- The kind is the first member of a saved type; all the others stay. -/
theorem toJsonWithoutKinds_eq_object (shape : Nat → Json.Reader Shape) (type : FieldType) :
    type.toJsonWithoutKinds =
      .object ((type.savedMembers shape membersWithoutKinds).tail.map Written.text) := by
  obtain ⟨kind, label, optional, isArray, fields?⟩ := type
  cases fields? with
  | none =>
      rw [toJsonWithoutKinds]
      rfl
  | some fields =>
      rw [toJsonWithoutKinds]
      rfl

theorem selects_tail_savedMembers (shape : Nat → Json.Reader Shape)
    (nested : Shape → List (String × Json)) (type : FieldType) :
    Selects (savedFields shape) (type.savedMembers shape nested).tail := by
  refine (type.selects_savedMembers shape nested).sublist (List.tail_sublist _) ?_
  -- Only the label is needed, and it comes right behind the kind.
  have hlabel : "type" ∈ (type.savedMembers shape nested).tail.map (·.field.name) := by
    obtain ⟨kind, label, optional, isArray, fields?⟩ := type
    cases fields? <;> exact List.mem_cons_self
  simp only [savedFields, List.forall_mem_cons, List.not_mem_nil, false_implies, implies_true,
    and_true]
  have hfree : ∀ {P : Prop}, false = true → P := fun h => absurd h Bool.false_ne_true
  exact ⟨hfree, fun _ => hlabel, hfree, hfree, hfree⟩

/-- A type whose kind is the one to be recovered is restored without it, if the shape of its fields is. -/
theorem restores_readerWith_of_recovered (hkind : type.kind = type.recoveredKind)
    (hshape : ∀ inner fields, depth = inner + 1 → type.fields = some fields →
      Restores inner (shape inner) (.object (membersWithoutKinds fields)) fields) :
    Restores depth (readerWith shape depth) type.toJsonWithoutKinds type := by
  intro after
  rw [toJsonWithoutKinds_eq_object shape type]
  refine (restores_record (type.selects_tail_savedMembers shape membersWithoutKinds)
    "struct StoredValueType" _ (fun inner hinner written hwritten => ?_) after).map ?_
  · exact restores_savedMembers (fun fields => hshape inner fields hinner) written
      (List.mem_of_mem_tail hwritten)
  · have hdraft : Written.fill ⟨none, "", false, false, none⟩
        (type.savedMembers shape membersWithoutKinds).tail =
        ⟨none, type.label, type.optional, type.isArray, type.fields⟩ := by
      obtain ⟨kind, label, optional, isArray, fields?⟩ := type
      cases fields? <;> rfl
    rw [hdraft, Saved.toFieldType, ← recoveredKind, ← hkind]
    cases type
    rfl

end FieldType

def Shape.toJsonWithoutKinds (shape : Shape) : Json :=
  .object (FieldType.membersWithoutKinds shape)

/-! ## What is read -/

/-- Kinds play no part in what is saved of a shape without them, if this holds of the types of its fields. -/
theorem Shape.toJsonWithoutKinds_withKinds_of {kindOf : FieldType → TypeKind} {shape : Shape}
    (h : ∀ field ∈ shape,
      (field.2.withKinds kindOf).toJsonWithoutKinds = field.2.toJsonWithoutKinds) :
    (shape.withKinds kindOf).toJsonWithoutKinds = shape.toJsonWithoutKinds := by
  rw [toJsonWithoutKinds, toJsonWithoutKinds, withKinds_eq_map,
    FieldType.membersWithoutKinds_eq_map, FieldType.membersWithoutKinds_eq_map, List.map_map]
  refine congrArg Json.object (List.map_congr_left fun field hfield => ?_)
  rw [Function.comp_apply, h field hfield]

namespace FieldType

/-- Other kinds make no difference to a form without kinds. -/
theorem toJsonWithoutKinds_withKinds (kindOf : FieldType → TypeKind) (type : FieldType) :
    (type.withKinds kindOf).toJsonWithoutKinds = type.toJsonWithoutKinds := by
  induction type using fields_induction with
  | leaf type hf =>
      obtain ⟨kind, label, optional, isArray, fields?⟩ := type
      cases hf
      rw [withKinds, toJsonWithoutKinds, toJsonWithoutKinds]
  | node type fields hf ih =>
      obtain ⟨kind, label, optional, isArray, fields?⟩ := type
      cases hf
      have hfields := Shape.toJsonWithoutKinds_withKinds_of ih
      rw [Shape.toJsonWithoutKinds, Shape.toJsonWithoutKinds, Shape.withKinds] at hfields
      rw [withKinds, toJsonWithoutKinds, toJsonWithoutKinds, hfields]

/-- A type with recovered kinds has the kind that is recovered from it. -/
theorem kind_withKinds_recoveredKind (type : FieldType) :
    (type.withKinds recoveredKind).kind = (type.withKinds recoveredKind).recoveredKind := by
  rw [withKinds_eq, recoveredKind, recoveredKind, Saved.recoverKind, Saved.recoverKind]
  cases type.fields <;> rfl

end FieldType

namespace Shape

variable {shape : Shape}

theorem toJsonWithoutKinds_withKinds (kindOf : FieldType → TypeKind) (shape : Shape) :
    (shape.withKinds kindOf).toJsonWithoutKinds = shape.toJsonWithoutKinds :=
  toJsonWithoutKinds_withKinds_of fun field _ => field.2.toJsonWithoutKinds_withKinds kindOf

def recovered (shape : Shape) : Shape :=
  shape.withKinds FieldType.recoveredKind

theorem Proper.recovered (h : shape.Proper) : shape.recovered.Proper :=
  h.withKinds

theorem same_recovered (h : shape.Proper) : shape.same shape.recovered = true :=
  same_withKinds h

/-- A shape is read without kinds by a reader with room for more levels than the depth has containers. -/
theorem restores_withoutKinds_readerWithin {bound depth : Nat} (hbound : depth < bound)
    (hp : shape.Proper) :
    Restores depth (readerWithin bound depth) shape.toJsonWithoutKinds shape.recovered := by
  induction bound generalizing depth shape with
  | zero => exact absurd hbound (Nat.not_lt_zero depth)
  | succ bound ih =>
      -- The form is also that of the shape with recovered kinds, and there every kind is the one to be
      -- recovered.
      rw [← toJsonWithoutKinds_withKinds FieldType.recoveredKind shape, ← recovered,
        toJsonWithoutKinds, FieldType.membersWithoutKinds_eq_map]
      refine restores_map hp.recovered.1 fun inner hinner field hfield => ?_
      rw [recovered, withKinds_eq_map] at hfield
      obtain ⟨original, horiginal, rfl⟩ := List.mem_map.mp hfield
      refine FieldType.restores_readerWith_of_recovered original.2.kind_withKinds_recoveredKind ?_
      intro innermost fields hinnermost hfields
      rw [FieldType.fields_withKinds] at hfields
      obtain ⟨others, hothers, rfl⟩ := Option.map_eq_some_iff.mp hfields
      rw [← toJsonWithoutKinds, toJsonWithoutKinds_withKinds]
      exact ih (by omega) ((hp.2 original horiginal).fields hothers)

/-- A shape is read without kinds, if its saved form fits in the depth. -/
theorem restores_withoutKinds (depth : Nat) (hp : shape.Proper) :
    Restores depth (reader depth) shape.toJsonWithoutKinds shape.recovered :=
  restores_withoutKinds_readerWithin (Nat.lt_succ_self depth) hp

end Shape

/-! ## Stores -/

namespace Declaration

def toJsonWithoutKinds (declaration : Declaration) : Json :=
  .object [("name", .string declaration.name), ("shape", declaration.shape.toJsonWithoutKinds),
    ("renderedText", .string declaration.text)]

def recovered (declaration : Declaration) : Declaration :=
  { declaration with shape := declaration.shape.recovered }

theorem toJsonWithoutKinds_recovered (declaration : Declaration) :
    declaration.recovered.toJsonWithoutKinds = declaration.toJsonWithoutKinds := by
  rw [toJsonWithoutKinds, toJsonWithoutKinds, recovered, Shape.recovered,
    Shape.toJsonWithoutKinds_withKinds]

/-- From its form without kinds a declaration is restored up to its kinds. -/
theorem restores_withoutKinds (depth : Nat) {declaration : Declaration}
    (hp : declaration.shape.Proper) :
    Restores depth (reader depth) declaration.toJsonWithoutKinds declaration.recovered := by
  have hshape : ∀ inner, Restores inner (Shape.reader inner) declaration.shape.toJsonWithoutKinds
      declaration.recovered.shape := fun inner => Shape.restores_withoutKinds inner hp
  exact restores_of_shape hshape

end Declaration

namespace Store

def toJsonWithoutKinds (store : Store) : Json :=
  .array (store.entries.map Declaration.toJsonWithoutKinds)

def recovered (store : Store) : Store :=
  ⟨store.entries.map Declaration.recovered⟩

/-- A store is read without kinds, if its saved form fits in the depth. -/
theorem restores_withoutKinds (depth : Nat) {store : Store} (hp : store.Proper) :
    Restores depth (reader depth) store.toJsonWithoutKinds store.recovered := by
  have hentries : store.entries.map Declaration.toJsonWithoutKinds =
      (store.entries.map Declaration.recovered).map Declaration.toJsonWithoutKinds := by
    rw [List.map_map]
    exact List.map_congr_left fun d _ => d.toJsonWithoutKinds_recovered.symm
  rw [toJsonWithoutKinds, hentries]
  refine restores_of_declarations fun inner other hother => ?_
  obtain ⟨d, hd, rfl⟩ := List.mem_map.mp hother
  have hrestores := Declaration.restores_withoutKinds inner (hp d hd)
  rwa [← d.toJsonWithoutKinds_recovered] at hrestores

end Store

end SampleTypes
