import SampleTypes.Build
import SampleTypes.Proofs.Json.Basic

/-!
# Sample data is not seen

The data of a document are masked by putting one text in the place of every text, one number in the place
of every number and one truth value in the place of every other, and by leaving off what follows the first
element of an array. Keys and their order stay.

Inference does not notice the mask (`Json.infer_masked`, `Json.inferShape_masked`), and nothing but the
inferred shape goes into a build. So documents that look alike under a mask cannot be told apart by
anything that is made of them (`data_unseen`).
-/

namespace SampleTypes

/-- What stands in the place of sample data. -/
structure Mask where
  text : String
  number : Json.Number
  bool : Bool

namespace Json

mutual

/-- The document with its data masked. -/
def masked (mask : Mask) : Json → Json
  | .null => .null
  | .bool _ => .bool mask.bool
  | .number _ => .number mask.number
  | .string _ => .string mask.text
  | .array items => .array (maskedItems mask items)
  | .object members => .object (maskedMembers mask members)

def maskedItems (mask : Mask) : List Json → List Json
  | [] => []
  | first :: _ => [first.masked mask]

def maskedMembers (mask : Mask) : List (String × Json) → List (String × Json)
  | [] => []
  | (key, value) :: members => (key, value.masked mask) :: maskedMembers mask members

end

variable {mask : Mask} {policy : Policy}

/-- Masking members one by one is not seen by their inference. -/
private theorem inferMembers_masked (members : List (String × Json))
    (h : ∀ member ∈ members, (member.2.masked mask).infer policy = member.2.infer policy) :
    inferMembers policy (maskedMembers mask members) = inferMembers policy members := by
  induction members with
  | nil => rfl
  | cons member members ih =>
      rw [List.forall_mem_cons] at h
      show (member.1, (member.2.masked mask).infer policy) ::
        inferMembers policy (maskedMembers mask members) = _
      rw [h.1, ih h.2]
      rfl

/-- A masked document has the type of the document. -/
theorem infer_masked (mask : Mask) (policy : Policy) (value : Json) :
    (value.masked mask).infer policy = value.infer policy := by
  induction value using parts_induction with
  | null => rfl
  | bool b => rfl
  | number n => rfl
  | string s => rfl
  | array items ih =>
      cases items with
      | nil => rfl
      | cons first rest =>
          -- The other elements are gone under the mask, and inference takes the first one anyway.
          have hfirst := ih first List.mem_cons_self
          rw [masked, maskedItems, infer, infer, inferItems, inferItems, hfirst]
  | object members ih => rw [masked, infer, infer, inferMembers_masked members ih]

/-- A masked document has the shape of the document, or none for the same reason. -/
theorem inferShape_masked (mask : Mask) (policy : Policy) (value : Json) :
    (value.masked mask).inferShape policy = value.inferShape policy := by
  cases value with
  | object members =>
      have hmembers := inferMembers_masked members fun member _ =>
        infer_masked mask policy member.2
      rw [masked, inferShape, inferShape, hmembers]
  | _ => rfl

end Json

/-- **Sample data is not seen.** Two documents that look alike under a mask have the same type and the same
shape, or the same reason to have none; builds from them yield the same text, do the same to files, and
make the same declarations in every store, or fail alike. -/
theorem data_unseen (mask : Mask) {a b : Json} (h : a.masked mask = b.masked mask)
    (options : Options) :
    (Source.document a).infer options.policy = (Source.document b).infer options.policy ∧
      (Source.document a).inferShape options.policy =
        (Source.document b).inferShape options.policy ∧
      buildText (.document a) options = buildText (.document b) options ∧
      (∀ files, build (.document a) options files = build (.document b) options files) ∧
      ∀ seed, buildInto (.document a) options seed = buildInto (.document b) options seed := by
  have htype : a.infer options.policy = b.infer options.policy := by
    rw [← Json.infer_masked mask, h, Json.infer_masked]
  have hshape : a.inferShape options.policy = b.inferShape options.policy := by
    rw [← Json.inferShape_masked mask, h, Json.inferShape_masked]
  have hbuild : ∀ seed, buildInto (.document a) options seed =
      buildInto (.document b) options seed := by
    intro seed
    rw [buildInto, buildInto, Source.inferShape, Source.inferShape, hshape]
  refine ⟨congrArg Except.ok htype, hshape, ?_, fun files => ?_, hbuild⟩
  · rw [buildText, buildText, hbuild]
  · rw [build, build, hbuild]

/-- An order as it comes from a shop. -/
def orderOfAnn : Json :=
  .object [("buyer", .string "Ann"), ("paid", .bool true),
    ("rows", .array [.object [("id", .number (.natural 7)), ("note", .null)], .string "gift"])]

/-- An order with other data in the same places, and with fewer rows. -/
def orderOfBob : Json :=
  .object [("buyer", .string "Bob"), ("paid", .bool false),
    ("rows", .array [.object [("id", .number (.negative 1)), ("note", .null)]])]

theorem data_unseen_orders :
    orderOfAnn.masked ⟨"", .natural 0, false⟩ = orderOfBob.masked ⟨"", .natural 0, false⟩ ∧
      ∀ options seed, buildInto (.document orderOfAnn) options seed =
        buildInto (.document orderOfBob) options seed := by
  have halike : orderOfAnn.masked ⟨"", .natural 0, false⟩ =
      orderOfBob.masked ⟨"", .natural 0, false⟩ := rfl
  refine ⟨halike, fun options seed => ?_⟩
  obtain ⟨-, -, -, -, hbuild⟩ := data_unseen ⟨"", .natural 0, false⟩ halike options
  exact hbuild seed

end SampleTypes
