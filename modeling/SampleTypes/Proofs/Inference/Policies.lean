import SampleTypes.Proofs.Graph.Termination
import SampleTypes.Proofs.Inference

/-!
# What a policy decides

A policy chooses labels and may mark every field as optional. It decides nothing else: inferring by a policy
is inferring by the default one and putting the policy's labels and marks on what comes out, at every level
(`FieldType.under`). Kinds, array marks, keys and their order are those of the default policy, and where no
type is inferred the reason is the same (`policy_acts_afterwards`).

The argument does not look at labels or marks. All it needs is that a translation of types goes along with
each of the five ways in which policies put types together (`Policy.Translates`).
-/

namespace SampleTypes

namespace FieldType

mutual

/-- The type as the policy labels and marks it, at every level. A field that is optional stays so. -/
def under (policy : Policy) : FieldType → FieldType
  | ⟨kind, _, optional, isArray, none⟩ =>
    ⟨kind, policy.labels.label kind, optional || policy.forceOptional, isArray, none⟩
  | ⟨kind, _, optional, isArray, some fields⟩ =>
    ⟨kind, policy.labels.label kind, optional || policy.forceOptional, isArray,
      some (underWithin policy fields)⟩

def underWithin (policy : Policy) : List (String × FieldType) → List (String × FieldType)
  | [] => []
  | (key, type) :: rest => (key, type.under policy) :: underWithin policy rest

end

theorem underWithin_eq_map (policy : Policy) (fields : Shape) :
    underWithin policy fields = fields.map fun field => (field.1, field.2.under policy) := by
  induction fields with
  | nil => rw [underWithin, List.map_nil]
  | cons field fields ih => rw [underWithin, ih, List.map_cons]

end FieldType

def Shape.under (policy : Policy) (shape : Shape) : Shape :=
  FieldType.underWithin policy shape

theorem Shape.under_eq_map (policy : Policy) (shape : Shape) :
    shape.under policy = shape.map fun field => (field.1, field.2.under policy) :=
  FieldType.underWithin_eq_map policy shape

/-- At a node, the label is that of the kind and the policy may mark it as optional. Nothing else changes. -/
theorem FieldType.under_eq (policy : Policy) (type : FieldType) :
    type.under policy = ⟨type.kind, policy.labels.label type.kind,
      type.optional || policy.forceOptional, type.isArray,
      type.fields.map (Shape.under policy)⟩ := by
  obtain ⟨kind, label, optional, isArray, fields?⟩ := type
  cases fields? <;> (rw [under]; rfl)

/-! ## Translations between policies -/

/-- Types that one policy has put together are translated to those that the other one puts together, out
of translated parts. -/
structure Policy.Translates (plain policy : Policy) (f : FieldType → FieldType) : Prop where
  leaf : ∀ kind, policy.leaf kind = f (plain.leaf kind)
  absent : policy.absent = f plain.absent
  emptySequence : policy.emptySequence = f plain.emptySequence
  sequenceOf : ∀ element, policy.sequenceOf (f element) = f (plain.sequenceOf element)
  keyedOf : ∀ entries : List (String × FieldType),
    policy.keyedOf (entries.map fun entry => (entry.1, f entry.2)) = f (plain.keyedOf entries)

/-- From the default policy, all that a policy does is to label and to mark. -/
theorem Policy.translates_under (policy : Policy) :
    Translates {} policy (FieldType.under policy) where
  leaf kind := by
    rw [FieldType.under_eq]
    rfl
  absent := by
    rw [FieldType.under_eq]
    rfl
  emptySequence := by
    rw [FieldType.under_eq]
    rfl
  sequenceOf element := by
    rw [FieldType.under_eq, FieldType.under_eq]
    rfl
  keyedOf entries := by
    have hfields := Shape.under_eq_map policy (Entries.ofList entries)
    rw [FieldType.under_eq, keyedOf, Entries.ofList_map, ← hfields]
    cases entries <;> rfl

variable {plain policy : Policy} {f : FieldType → FieldType}

/-! ## Documents -/

namespace Json

/-- Inference under the one policy is that under the other one, translated. -/
theorem infer_translates (h : plain.Translates policy f) (value : Json) :
    value.infer policy = f (value.infer plain) := by
  induction value using parts_induction with
  | null =>
      rw [infer, infer]
      exact h.absent
  | bool b =>
      rw [infer, infer]
      exact h.leaf .boolean
  | number n =>
      rw [infer, infer]
      exact h.leaf .number
  | string s =>
      rw [infer, infer]
      exact h.leaf .string
  | array items ih =>
      rw [infer, infer]
      cases items with
      | nil =>
          rw [inferItems, inferItems]
          exact h.emptySequence
      | cons first rest =>
          rw [inferItems, inferItems, ih first List.mem_cons_self]
          exact h.sequenceOf _
  | object members ih =>
      -- Translating goes into the members one by one, so it may be done before they are put together.
      rw [infer, infer, ← h.keyedOf, inferMembers_eq_map, inferMembers_eq_map, List.map_map]
      refine congrArg policy.keyedOf (List.map_congr_left fun member hmember => ?_)
      rw [ih member hmember]
      rfl

theorem inferMembers_translates (h : plain.Translates policy f) (members : List (String × Json)) :
    inferMembers policy members =
      (inferMembers plain members).map fun entry => (entry.1, f entry.2) := by
  rw [inferMembers_eq_map, inferMembers_eq_map, List.map_map]
  refine List.map_congr_left fun member _ => ?_
  rw [infer_translates h]
  rfl

end Json

/-! ## Nodes of graphs -/

/-- The type of a view is translated where the types of its parts are. -/
theorem Policy.Translates.typeOf {α : Type} (h : plain.Translates policy f) (view : View α)
    (types : List (String × FieldType)) :
    policy.typeOf view (types.map fun entry => (entry.1, f entry.2)) =
      f (plain.typeOf view types) := by
  cases view with
  | text => exact h.leaf .string
  | numeric => exact h.leaf .number
  | boolean => exact h.leaf .boolean
  | absent => exact h.absent
  | other => exact h.leaf .unknown
  | keyed entries => exact h.keyedOf types
  | sequence first? =>
      cases types with
      | nil => exact h.emptySequence
      | cons entry rest => exact h.sequenceOf entry.2

namespace Graph

open Walker

variable {graph : Graph} {observe other : Nat → Walker FieldType}

/-- Along entries, if it holds of what is found at each of them. -/
theorem outcome_observeEntries_translates (hobserve : ∀ node, (observe node).Traceless)
    (hother : ∀ node, (other node).Traceless)
    (h : ∀ node walk, (other node).outcome walk = ((observe node).outcome walk).map f)
    (entries : List (String × Nat)) (walk : Walk) :
    (observeEntries other entries).outcome walk =
      ((observeEntries observe entries).outcome walk).map
        (List.map fun entry => (entry.1, f entry.2)) := by
  induction entries with
  | nil => rfl
  | cons entry entries ih =>
      rw [outcome_observeEntries_cons hobserve, outcome_observeEntries_cons hother, h, ih]
      cases (observe entry.2).outcome (walk.behind entry.1) with
      | error fault => rfl
      | ok type => cases (observeEntries observe entries).outcome walk <;> rfl

/-- Wherever a walk stands, it finds the translated type or fails for the same reason. -/
theorem outcome_observeWithin_translates (h : plain.Translates policy f) (bound node : Nat)
    (walk : Walk) : (observeWithin policy graph bound node).outcome walk =
      ((observeWithin plain graph bound node).outcome walk).map f := by
  induction bound generalizing node walk with
  | zero => rfl
  | succ bound ih =>
      have hplain := traceless_observeWithin plain graph bound
      have hpolicy := traceless_observeWithin policy graph bound
      rw [observeWithin, observeWithin, outcome_observeView hplain, outcome_observeView hpolicy,
        outcome_observeEntries_translates hplain hpolicy ih]
      split
      · rfl
      · cases (observeEntries (observeWithin plain graph bound)
            (graph.look node).parts).outcome (walk.inside node) with
        | error fault => rfl
        | ok types => exact congrArg Except.ok (h.typeOf (graph.look node) types)

/-- The same of a graph: faults stay as they are, and types are translated. -/
theorem infer_translates (h : plain.Translates policy f) (root : Nat) :
    graph.infer policy root = (graph.infer plain root).map f :=
  outcome_observeWithin_translates h _ root .start

theorem inferShape_translates (h : plain.Translates policy f) (root : Nat) :
    graph.inferShape policy root =
      (graph.inferShape plain root).map (List.map fun field => (field.1, f field.2)) := by
  by_cases hkeyed : ∃ entries, graph.look root = .keyed entries
  · obtain ⟨entries, hroot⟩ := hkeyed
    rw [inferShape_of_keyed plain hroot, inferShape_of_keyed policy hroot,
      outcome_observeEntries_translates (traceless_observe plain graph)
        (traceless_observe policy graph) (outcome_observeWithin_translates h _)]
    cases (observeEntries (graph.observe plain) entries).outcome (Walk.start.inside root) with
    | error fault => rfl
    | ok types => exact congrArg Except.ok (Entries.ofList_map f types)
  · have hroot : ∀ entries, graph.look root ≠ .keyed entries := fun entries heq =>
      hkeyed ⟨entries, heq⟩
    rw [inferShape_of_not_keyed plain hroot, inferShape_of_not_keyed policy hroot]
    rfl

end Graph

/-- **A policy acts afterwards.** For every value, a document or a node of a graph, the type that a policy
infers is the type that the default policy infers, with the policy's label in the place of every node's own
one and with every node marked as optional if the policy forces that. So is the shape; and if the default
policy infers no type or no shape, the policy infers none for the same reason. -/
theorem policy_acts_afterwards (policy : Policy) (source : Source) :
    source.infer policy = (source.infer {}).map (FieldType.under policy) ∧
      source.inferShape policy = (source.inferShape {}).map (Shape.under policy) := by
  have htranslates := policy.translates_under
  have hshape : Shape.under policy = List.map fun field => (field.1, field.2.under policy) :=
    funext (Shape.under_eq_map policy)
  rw [hshape]
  cases source with
  | document value =>
      refine ⟨congrArg Except.ok (Json.infer_translates htranslates value), ?_⟩
      cases value with
      | object members =>
          have hmembers := Json.inferMembers_translates htranslates members
          rw [Source.inferShape, Source.inferShape, Json.inferShape, Json.inferShape, hmembers,
            Entries.ofList_map]
          rfl
      | _ => rfl
  | node graph root =>
      exact ⟨Graph.infer_translates htranslates root, Graph.inferShape_translates htranslates root⟩

end SampleTypes
