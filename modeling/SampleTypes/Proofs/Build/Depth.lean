import SampleTypes.Proofs.Build.Contents
import SampleTypes.Proofs.Options.Codec

/-!
# How deep saved forms are

Every level of an inferred shape takes two containers in its saved form: one for the fields and one for
each of their types. A store takes two more, and options that carry a store one more than the store. So
the depth of what a sequence of builds leaves is decided by the values alone: by how many levels of
fields their shapes have (`Store.Exact.depth_toJson_le_iff`).
-/

namespace SampleTypes

open Json (depthOfMembers)
open Json.Reader

/-! ## Types and shapes -/

namespace FieldType

theorem depth_toJson_of_none {type : FieldType} (h : type.fields = none) :
    type.toJson.depth = 1 := by
  obtain ⟨kind, label, optional, isArray, fields?⟩ := type
  cases h
  rw [toJson]
  rfl

/-- A field with fields of its own is saved one level above them. -/
theorem depth_toJson_of_some {type : FieldType} {fields : Shape} (h : type.fields = some fields) :
    type.toJson.depth = (Shape.toJson fields).depth + 1 := by
  obtain ⟨kind, label, optional, isArray, fields?⟩ := type
  cases h
  simp only [toJson, TypeKind.toJson, Shape.toJson, Json.depth, depthOfMembers, Nat.zero_max,
    Nat.max_zero]

/-- If every field is as deep as its levels say, so are all of them together. -/
theorem depthOfMembers_membersOf {fields : Shape} (hne : fields ≠ [])
    (h : ∀ field ∈ fields, field.2.toJson.depth = 2 * field.2.levels + 1) :
    depthOfMembers (membersOf fields) = 2 * levelsOf fields + 1 := by
  induction fields with
  | nil => exact absurd rfl hne
  | cons field fields ih =>
      obtain ⟨key, type⟩ := field
      rw [List.forall_mem_cons] at h
      have htype : type.toJson.depth = 2 * type.levels + 1 := h.1
      rw [membersOf, depthOfMembers, levelsOf, htype]
      -- The last field decides the depth where the tail is empty; else both parts have a field.
      cases fields with
      | nil =>
          simp only [membersOf, depthOfMembers, levelsOf, Nat.max_zero]
      | cons next fields =>
          rw [ih (List.cons_ne_nil next fields) h.2]
          omega

/-- A type takes two containers for each of its levels, and one for itself. -/
theorem Inferred.depth_toJson {labels : CustomLabels} {type : FieldType}
    (h : type.Inferred labels) : type.toJson.depth = 2 * type.levels + 1 := by
  induction h with
  | leaf hf _ => rw [depth_toJson_of_none hf, levels_of_none hf]
  | node hf _ _ hne _ _ ih =>
      rw [depth_toJson_of_some hf, levels_of_some hf, Shape.toJson, Json.depth,
        depthOfMembers_membersOf hne ih, Shape.levels]
      omega

end FieldType

/-- An inferred shape takes two containers for each of its levels, except that one is enough for a shape
without fields. -/
theorem Shape.Inferred.depth_toJson_le_iff {labels : CustomLabels} {shape : Shape}
    (h : shape.Inferred labels) {bound : Nat} (hbound : 2 ≤ bound) :
    shape.toJson.depth ≤ bound ↔ shape.levels ≤ bound / 2 := by
  rw [toJson, Json.depth, levels]
  -- Without fields the shape takes one container where its level would allow for two.
  by_cases hne : shape = []
  · subst hne
    simp only [FieldType.membersOf, depthOfMembers, FieldType.levelsOf]
    omega
  · have hfields : ∀ field ∈ shape, field.2.toJson.depth = 2 * field.2.levels + 1 :=
      fun field hfield => (h.2 field hfield).depth_toJson
    rw [FieldType.depthOfMembers_membersOf hne hfields]
    omega

/-! ## Stores and options -/

variable {store : Store} {options : Options} {steps : List BuildStep} {bound : Nat}

theorem Declaration.depth_toJson (declaration : Declaration) :
    declaration.toJson.depth = declaration.shape.toJson.depth + 1 := by
  simp only [toJson, Json.depth, depthOfMembers, Nat.zero_max, Nat.max_zero]

/-- The deepest declaration decides how deep a saved store is. -/
theorem Store.depth_toJson_le_iff :
    store.toJson.depth ≤ bound + 2 ↔ ∀ d ∈ store.entries, d.shape.toJson.depth ≤ bound := by
  rw [toJson, Json.depth_array_le, List.forall_mem_map]
  constructor
  · rintro ⟨-, h⟩ d hd
    have := h d hd
    rw [Declaration.depth_toJson] at this
    omega
  · intro h
    refine ⟨Nat.succ_pos _, fun d hd => ?_⟩
    have := h d hd
    rw [Declaration.depth_toJson]
    omega

/-- All declared shapes have at most as many levels as a root shape has. -/
theorem Store.Exact.levels_le_iff (h : store.Exact (Demanded steps)) :
    (∀ d ∈ store.entries, d.shape.levels ≤ bound) ↔
      ∀ step ∈ steps, ∀ shape, step.Infers shape → shape.levels ≤ bound := by
  constructor
  · intro hentries step hstep shape hshape
    obtain ⟨d, hd⟩ := h.complete shape ⟨step, hstep, shape, hshape, .self⟩
    have hmem := mem_of_find? hd
    have hproper := (h.sound d hmem).proper_regular.1
    rw [← Shape.levels_eq_of_same hproper hshape.inferred.proper (same_of_find? hd)]
    exact hentries d hmem
  · intro hroots d hd
    obtain ⟨step, hstep, root, hroot, hwithin⟩ := h.sound d hd
    exact Nat.le_trans hwithin.levels_le (hroots step hstep root hroot)

/-- **How deep the saved form of a store is** that a sequence of builds leaves. -/
theorem Store.Exact.depth_toJson_le_iff (h : store.Exact (Demanded steps)) (hbound : 2 ≤ bound) :
    store.toJson.depth ≤ bound + 2 ↔
      ∀ step ∈ steps, ∀ shape, step.Infers shape → shape.levels ≤ bound / 2 := by
  rw [Store.depth_toJson_le_iff, ← h.levels_le_iff]
  refine forall_congr' fun d => forall_congr' fun hd => ?_
  obtain ⟨step, -, root, hroot, hwithin⟩ := h.sound d hd
  exact (hroot.inferred.of_within hwithin).depth_toJson_le_iff hbound

theorem CustomLabels.depth_toJson (labels : CustomLabels) : labels.toJson.depth = 1 := by
  obtain ⟨string, number, boolean, object, unknown⟩ := labels
  cases string <;> cases number <;> cases boolean <;> cases object <;> cases unknown <;> rfl

theorem depth_ofText? (text : Option String) : (Json.ofText? text).depth = 0 := by
  cases text <;> rfl

namespace Options

/-- Only a store among the members is nested deeper than one container. -/
theorem depth_member_le_iff (hseed : options.seed = some store) (hbound : 1 ≤ bound) :
    ∀ member ∈ options.savedMembers, member.json.depth ≤ bound ↔
      (member.field.name = "useStore" → store.toJson.depth ≤ bound) := by
  have hcollision : options.collision.toJson.depth = 0 := by
    cases options.collision <;> rfl
  simp only [savedMembers, savedValues, fields, Written.along, List.zipWith_cons_cons,
    List.zipWith_nil_right, List.forall_mem_cons, List.not_mem_nil, false_implies, implies_true,
    and_true, Field.written, Field.free, Field.orSpelt, hseed, CustomLabels.depth_toJson,
    depth_ofText?, Json.depth, hcollision]
  simp [hbound]

/-- Options take one container more than the store that is among their members. -/
theorem Selection.depth_le_iff {ms : List (Written Options)} (h : options.Selection ms)
    (hseed : options.seed = some store) (hstore : "useStore" ∈ ms.map (·.field.name))
    (hbound : 1 ≤ bound) :
    (Json.object (ms.map Written.text)).depth ≤ bound + 1 ↔ store.toJson.depth ≤ bound := by
  rw [Json.depth_object_le, List.forall_mem_map, Nat.add_sub_cancel]
  constructor
  · rintro ⟨-, hmembers⟩
    obtain ⟨written, hwritten, hname⟩ := List.mem_map.mp hstore
    have hdepth := hmembers written hwritten
    obtain ⟨member, hmember, key, -, rfl⟩ := h.saved written hwritten
    exact (depth_member_le_iff hseed hbound member hmember).mp hdepth hname
  · intro hdepth
    refine ⟨Nat.succ_pos bound, fun written hwritten => ?_⟩
    obtain ⟨member, hmember, key, -, rfl⟩ := h.saved written hwritten
    exact (depth_member_le_iff hseed hbound member hmember).mpr fun _ => hdepth

end Options

end SampleTypes
