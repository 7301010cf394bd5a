import Mathlib.Data.Finset.Card
import Mathlib.Data.Finset.Range
import SampleTypes.Proofs.Graph.Traces

/-!
# Inference of graphs ends

To infer the type of a node, the types of its parts are inferred inside it, unless the node is a container
that is entered already (`Graph.Asks`). Each time one more node of the graph is around, so no chain of
such questions goes on for ever (`wellFounded_asks`), and the bound that `Graph.observe` is given is never
reached: `observe` is what the rules for a node say of it, with no bound in them (`observe_eq`).
-/

namespace SampleTypes

/-- A node whose type is asked for, and the containers it is inside of. -/
structure Visit where
  ancestors : List Nat
  node : Nat

namespace Graph

open Walker

variable {policy : Policy} {graph : Graph} {node : Nat} {around : List Nat}

/-- The types of which nodes are asked for on a visit: those of the parts, if the node can be entered. -/
inductive Asks (graph : Graph) : Visit → Visit → Prop
  | part {visit : Visit} {part : String × Nat} (hnot : visit.node ∉ visit.ancestors)
      (hpart : part ∈ graph.parts visit.node) :
      Asks graph ⟨visit.node :: visit.ancestors, part.2⟩ visit

/-- How many nodes of the graph are not around. -/
def unvisited (graph : Graph) (around : List Nat) : Nat :=
  (Finset.range graph.nodes.size \ around.toFinset).card

theorem unvisited_le_size (graph : Graph) (around : List Nat) :
    graph.unvisited around ≤ graph.nodes.size := by
  have hle := Finset.card_le_card (Finset.sdiff_subset (s := Finset.range graph.nodes.size)
    (t := around.toFinset))
  simpa [unvisited] using hle

/-- A node with parts is one of the graph's. -/
theorem lt_size_of_mem_parts {part : String × Nat} (h : part ∈ graph.parts node) :
    node < graph.nodes.size := by
  by_contra hnot
  have hlook : graph.look node = .other := by
    rw [look, Array.getElem?_eq_none (Nat.le_of_not_lt hnot), Option.getD_none]
  rw [parts, hlook] at h
  exact List.not_mem_nil h

/-- To enter a new node leaves fewer nodes to visit. -/
theorem unvisited_cons_lt (hlt : node < graph.nodes.size) (hnot : node ∉ around) :
    graph.unvisited (node :: around) < graph.unvisited around := by
  apply Finset.card_lt_card
  rw [Finset.ssubset_iff_of_subset]
  · refine ⟨node, ?_, ?_⟩
    · simpa using ⟨hlt, hnot⟩
    · simp
  · intro other hother
    simp only [Finset.mem_sdiff, Finset.mem_range, List.mem_toFinset, List.mem_cons, not_or] at *
    exact ⟨hother.1, hother.2.2⟩

/-- **Questions come to an end.** -/
theorem wellFounded_asks (graph : Graph) : WellFounded graph.Asks := by
  apply Subrelation.wf _ (measure fun visit : Visit => graph.unvisited visit.ancestors).wf
  intro inner outer hasks
  cases hasks with
  | part hnot hpart => exact unvisited_cons_lt (lt_size_of_mem_parts hpart) hnot

/-! ## The bound is never reached -/

section Congr

variable {observe other : Nat → Walker FieldType}

theorem outcome_observeEntries_congr (h : ∀ node, (observe node).Traceless)
    (h' : ∀ node, (other node).Traceless) {entries : List (String × Nat)} {walk : Walk}
    (hentries : ∀ entry ∈ entries,
      (observe entry.2).outcome (walk.behind entry.1) =
        (other entry.2).outcome (walk.behind entry.1)) :
    (observeEntries observe entries).outcome walk = (observeEntries other entries).outcome walk := by
  induction entries with
  | nil => rfl
  | cons entry entries ih =>
      rw [List.forall_mem_cons] at hentries
      rw [outcome_observeEntries_cons h, outcome_observeEntries_cons h', hentries.1, ih hentries.2]

/-- What is found at a node depends on what is found on the visits that it asks for. -/
theorem outcome_observeView_congr (h : ∀ node, (observe node).Traceless)
    (h' : ∀ node, (other node).Traceless) {walk : Walk}
    (hasks : ∀ part ∈ graph.parts node, node ∉ walk.ancestors →
      (observe part.2).outcome ((walk.inside node).behind part.1) =
        (other part.2).outcome ((walk.inside node).behind part.1)) :
    (observeView policy observe node (graph.look node)).outcome walk =
      (observeView policy other node (graph.look node)).outcome walk := by
  rw [outcome_observeView h, outcome_observeView h']
  split
  · rfl
  · next hopen =>
      congr 1
      apply outcome_observeEntries_congr h h'
      intro part hpart
      apply hasks part hpart
      exact fun hmem => hopen ⟨View.isContainer_of_mem_parts hpart, hmem⟩

end Congr

/-- Bounds above the number of nodes that are not around make no difference. -/
theorem outcome_observeWithin_congr {bound bound' : Nat} {walk : Walk}
    (h : graph.unvisited walk.ancestors < bound) (h' : graph.unvisited walk.ancestors < bound') :
    (observeWithin policy graph bound node).outcome walk =
      (observeWithin policy graph bound' node).outcome walk := by
  induction bound generalizing bound' node walk with
  | zero => exact absurd h (Nat.not_lt_zero _)
  | succ bound ih =>
      cases bound' with
      | zero => exact absurd h' (Nat.not_lt_zero _)
      | succ bound' =>
          apply outcome_observeView_congr (traceless_observeWithin policy graph bound)
            (traceless_observeWithin policy graph bound')
          intro part hpart hnot
          have hlt := unvisited_cons_lt (lt_size_of_mem_parts hpart) hnot
          apply ih
          · simp only [Walk.ancestors_behind, Walk.ancestors_inside]
            omega
          · simp only [Walk.ancestors_behind, Walk.ancestors_inside]
            omega

/-- **Inference follows its rules without a bound.** -/
theorem observe_eq (policy : Policy) (graph : Graph) (node : Nat) :
    graph.observe policy node =
      observeView policy (graph.observe policy) node (graph.look node) := by
  apply Traceless.ext (traceless_observe policy graph node)
    (traceless_observeView (traceless_observe policy graph) node _)
  intro walk
  -- One step of the bounded recursion leaves a bound that is still above all that is left to visit.
  apply outcome_observeView_congr (traceless_observeWithin policy graph graph.nodes.size)
    (traceless_observe policy graph)
  intro part hpart hnot
  have hlt := unvisited_cons_lt (lt_size_of_mem_parts hpart) hnot
  have hle := graph.unvisited_le_size walk.ancestors
  apply outcome_observeWithin_congr
  · simp only [Walk.ancestors_behind, Walk.ancestors_inside]
    omega
  · simp only [Walk.ancestors_behind, Walk.ancestors_inside]
    omega

/-- What is found at a node. -/
theorem outcome_observe (policy : Policy) (graph : Graph) (node : Nat) (walk : Walk) :
    (graph.observe policy node).outcome walk =
      if (graph.look node).isContainer = true ∧ node ∈ walk.ancestors then
        .error (.cycle walk.path)
      else ((observeEntries (graph.observe policy) (graph.parts node)).outcome
        (walk.inside node)).map (policy.typeOf (graph.look node)) := by
  rw [observe_eq, outcome_observeView (traceless_observe policy graph)]
  rfl

/-! ## From the beginning of a walk -/

/-- The type at a root, from what is found at its parts. -/
theorem infer_eq (policy : Policy) (graph : Graph) (root : Nat) :
    graph.infer policy root = ((observeEntries (graph.observe policy) (graph.parts root)).outcome
      (Walk.start.inside root)).map (policy.typeOf (graph.look root)) := by
  rw [infer, run_eq_outcome, outcome_observe, if_neg fun h => List.not_mem_nil h.2]

/-- The shape at a keyed root, from what is found at its entries. -/
theorem inferShape_of_keyed (policy : Policy) {root : Nat} {entries : List (String × Nat)}
    (hroot : graph.look root = .keyed entries) :
    graph.inferShape policy root = ((observeEntries (graph.observe policy) entries).outcome
      (Walk.start.inside root)).map Entries.ofList := by
  have hstart : root ∉ Walk.start.ancestors := List.not_mem_nil
  rw [inferShape, run_eq_outcome, observeShape, hroot, outcome_enter, if_neg hstart,
    outcome_bind_pure (traceless_observeEntries (traceless_observe policy graph) entries)]

/-- At any other root there is no shape, and the reason is what is seen there. -/
theorem inferShape_of_not_keyed (policy : Policy) {root : Nat}
    (hroot : ∀ entries, graph.look root ≠ .keyed entries) :
    graph.inferShape policy root = .error (.rootNotKeyed (graph.look root).describe) := by
  rw [inferShape, run_eq_outcome, observeShape]
  cases hlook : graph.look root with
  | keyed entries => exact absurd hlook (hroot entries)
  | _ => rfl

end Graph

end SampleTypes
