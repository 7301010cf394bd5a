import SampleTypes.Proofs.Inference
import SampleTypes.Proofs.Json.Basic

/-!
# Documents with their members rearranged

A document is rearranged by giving the members of its objects another order, at any depth, and by putting
anything behind the first element of an array, where inference does not look (`Json.Rearranges`). What is
inferred then renders the same (`Json.agree_infer`, `Json.exists_inferShape`): a field is found by its
key, wherever it stands.
-/

namespace SampleTypes.Json

/-- The members of objects come in another order, and all that is looked at is kept. -/
inductive Rearranges : Json → Json → Prop
  | same (value : Json) : Rearranges value value
  | array {first other : Json} {rest others : List Json} (h : Rearranges first other) :
      Rearranges (.array (first :: rest)) (.array (other :: others))
  | object {members others : List (String × Json)}
      (hkeys : (Entries.keys members).Perm (Entries.keys others))
      (h : ∀ member ∈ members, ∀ other ∈ others, member.1 = other.1 →
        Rearranges member.2 other.2) : Rearranges (.object members) (.object others)

variable {a b : Json} {members others : List (String × Json)} {policy : Policy} {shape : Shape}

/-- To permute members is to rearrange them. -/
theorem rearranges_of_perm (hd : Entries.Distinct members) (h : members.Perm others) :
    Rearranges (.object members) (.object others) := by
  refine .object (h.map _) fun member hmember other hother hkey => ?_
  have hmem : (member.1, other.2) ∈ members := hkey ▸ h.mem_iff.mpr hother
  rw [Entries.eq_of_mem hd hmember hmem]
  exact .same _

/-- Objects with the same keys, and with types that agree behind each, have the same shape. -/
theorem same_ofList_inferMembers (hd : Entries.Distinct members)
    (hkeys : (Entries.keys members).Perm (Entries.keys others))
    (h : ∀ member ∈ members, ∀ other ∈ others, member.1 = other.1 →
      FieldType.agree FieldType.sameMarks (member.2.infer policy) (other.2.infer policy) = true) :
    Shape.same (Entries.ofList (inferMembers policy members))
      (Entries.ofList (inferMembers policy others)) = true := by
  have hd' : Entries.Distinct others := hkeys.nodup_iff.mp hd
  have hlength : members.length = others.length := by simpa [Entries.keys] using hkeys.length_eq
  have hdistinct := Entries.distinct_ofList (inferMembers policy others)
  rw [ofList_inferMembers hd'] at hdistinct ⊢
  rw [ofList_inferMembers hd]
  refine Shape.agree_iff.mpr ⟨by simpa using hlength, fun field hfield => ?_⟩
  obtain ⟨member, hmember, rfl⟩ := List.mem_map.mp hfield
  obtain ⟨value, hother⟩ := Entries.mem_keys.mp (hkeys.mem_iff.mp (Entries.mem_keys_of_mem hmember))
  refine ⟨value.infer policy, (Entries.find?_eq_some hdistinct).mpr ?_, h member hmember _ hother rfl⟩
  exact List.mem_map.mpr ⟨_, hother, rfl⟩

/-- Types of sequences agree as those of their elements do. -/
theorem agree_sequenceOf {a b : FieldType}
    (h : FieldType.agree FieldType.sameMarks a b = true) :
    FieldType.agree FieldType.sameMarks (policy.sequenceOf a) (policy.sequenceOf b) = true := by
  have hmarks : FieldType.sameMarks (policy.sequenceOf a) (policy.sequenceOf b) = true :=
    FieldType.sameMarks_iff.mpr ⟨(FieldType.sameMarks_iff.mp (FieldType.node_of_agree h)).1, rfl, rfl⟩
  cases hf : a.fields with
  | none =>
      have hf' : (policy.sequenceOf a).fields = none := hf
      exact (FieldType.agree_of_none hf').mpr ⟨hmarks, ((FieldType.agree_of_none hf).mp h).2⟩
  | some fields =>
      have hf' : (policy.sequenceOf a).fields = some fields := hf
      exact (FieldType.agree_of_some hf').mpr ⟨hmarks, ((FieldType.agree_of_some hf).mp h).2⟩

/-- **The types of rearranged documents render the same.** -/
theorem agree_infer (hp : a.Proper) (h : a.Rearranges b) :
    FieldType.agree FieldType.sameMarks (a.infer policy) (b.infer policy) = true := by
  induction h with
  | same value =>
      exact FieldType.agree_refl FieldType.sameMarks_refl (inferred_infer policy value).proper
  | array h ih =>
      rw [infer, infer, inferItems, inferItems]
      exact agree_sequenceOf (ih (hp.of_item _ List.mem_cons_self))
  | @object members others hkeys h ih =>
      obtain ⟨hd, hpmembers⟩ := hp.of_members
      have hsame : Shape.same (Entries.ofList (inferMembers policy members))
          (Entries.ofList (inferMembers policy others)) = true :=
        same_ofList_inferMembers hd hkeys fun member hmember other hother hkey =>
          ih member hmember other hother hkey (hpmembers member hmember)
      rw [infer, infer]
      -- An object without members has no fields, and neither has the other one then.
      cases members with
      | nil =>
          cases others with
          | nil => exact (FieldType.agree_of_none rfl).mpr ⟨FieldType.sameMarks_refl _, rfl⟩
          | cons other others => cases hkeys.length_eq
      | cons member members =>
          cases others with
          | nil => cases hkeys.length_eq
          | cons other others =>
              exact (FieldType.agree_of_some rfl).mpr ⟨FieldType.sameMarks_refl _, _, rfl, hsame⟩

/-- A rearranged value has a shape as well, and it is the same one. -/
theorem exists_inferShape (hp : a.Proper) (h : a.Rearranges b)
    (hshape : a.inferShape policy = .ok shape) :
    ∃ other, b.inferShape policy = .ok other ∧ shape.same other = true := by
  cases h with
  | same value =>
      exact ⟨shape, hshape, Shape.same_refl (inferred_of_inferShape hshape).proper⟩
  | array h => cases hshape
  | object hkeys h =>
      cases hshape
      obtain ⟨hd, hpmembers⟩ := hp.of_members
      refine ⟨_, rfl, same_ofList_inferMembers hd hkeys fun member hmember other hother hkey => ?_⟩
      exact agree_infer (hpmembers member hmember) (h member hmember other hother hkey)

end SampleTypes.Json
