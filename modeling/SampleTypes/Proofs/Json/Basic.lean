import SampleTypes.Json.Basic
import SampleTypes.Proofs.Entries

/-!
# Documents as trees

Induction over a document and its parts, the documents whose objects have no key twice (`Json.Proper`),
which are those that can be read, and the depth of a document in terms of its parts.
-/

namespace SampleTypes.Json

/-- Induction over documents. -/
@[elab_as_elim]
theorem parts_induction {motive : Json → Prop} (null : motive .null)
    (bool : ∀ b, motive (.bool b)) (number : ∀ n, motive (.number n))
    (string : ∀ s, motive (.string s))
    (array : ∀ items, (∀ item ∈ items, motive item) → motive (.array items))
    (object : ∀ members, (∀ member ∈ members, motive member.2) → motive (.object members))
    (value : Json) : motive value :=
  @Json.rec motive
    (fun items => ∀ item ∈ items, motive item)
    (fun members => ∀ member ∈ members, motive member.2)
    (fun member => motive member.2)
    null bool number string array object
    (fun _ h => nomatch h)
    (fun _ _ ih ihs => List.forall_mem_cons.mpr ⟨ih, ihs⟩)
    (fun _ h => nomatch h)
    (fun _ _ ih ihs => List.forall_mem_cons.mpr ⟨ih, ihs⟩)
    (fun _ _ ih => ih)
    value

/-- No object in the document has a key twice. -/
inductive Proper : Json → Prop
  | null : Proper .null
  | bool (b : Bool) : Proper (.bool b)
  | number (n : Number) : Proper (.number n)
  | string (s : String) : Proper (.string s)
  | array {items : List Json} (h : ∀ item ∈ items, Proper item) : Proper (.array items)
  | object {members : List (String × Json)} (hd : Entries.Distinct members)
      (h : ∀ member ∈ members, Proper member.2) : Proper (.object members)

theorem Proper.of_item {items : List Json} (h : Proper (.array items)) :
    ∀ item ∈ items, item.Proper := by
  cases h with
  | array h => exact h

/-- The members of a proper object have distinct keys and proper values. -/
theorem Proper.of_members {members : List (String × Json)} (h : Proper (.object members)) :
    Entries.Distinct members ∧ ∀ member ∈ members, member.2.Proper := by
  cases h with
  | object hd h => exact ⟨hd, h⟩

/-! ## Depth -/

/-- Items are as deep as the deepest one of them. -/
theorem depthOfItems_le {items : List Json} {bound : Nat} :
    depthOfItems items ≤ bound ↔ ∀ item ∈ items, item.depth ≤ bound := by
  induction items with
  | nil => simp [depthOfItems]
  | cons item items ih => rw [depthOfItems, Nat.max_le, ih, List.forall_mem_cons]

theorem depthOfMembers_le {members : List (String × Json)} {bound : Nat} :
    depthOfMembers members ≤ bound ↔ ∀ member ∈ members, member.2.depth ≤ bound := by
  induction members with
  | nil => simp [depthOfMembers]
  | cons member members ih => rw [depthOfMembers, Nat.max_le, ih, List.forall_mem_cons]

theorem depth_array_le {items : List Json} {bound : Nat} :
    (Json.array items).depth ≤ bound ↔ 0 < bound ∧ ∀ item ∈ items, item.depth ≤ bound - 1 := by
  rw [depth, ← depthOfItems_le]
  omega

theorem depth_object_le {members : List (String × Json)} {bound : Nat} :
    (Json.object members).depth ≤ bound ↔
      0 < bound ∧ ∀ member ∈ members, member.2.depth ≤ bound - 1 := by
  rw [depth, ← depthOfMembers_le]
  omega

end SampleTypes.Json
