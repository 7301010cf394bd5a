import SampleTypes.Proofs.Entries
import SampleTypes.Proofs.Graph.Cycles
import SampleTypes.Proofs.Outcomes

/-!
# Nodes of graphs, from their parts

Inference at a node goes into its parts with the node around, and behind keys. Both only matter where
something is repeated: what is found is found with fewer containers around as well, and behind any keys
(`outcome_of_fewer`). And if nothing is repeated below the parts of a node, nothing is repeated below the
node (`repeats_iff_exists_part`): a way from a part back to the node could be prolonged to the part.

Together this gives inference an equation in which there is no walk: a node has a type if each of its parts,
taken on its own, has one, and the policy makes it out of these (`infer_eq_ok_iff`).
-/

namespace SampleTypes.Graph

open Walker

variable {policy : Policy} {graph : Graph} {node root : Nat} {type : FieldType}
  {types : List (String × FieldType)}

theorem map_eq_ok {α β : Type} {f : α → β} {outcome : Except InferenceFault α} {b : β} :
    outcome.map f = .ok b ↔ ∃ a, outcome = .ok a ∧ b = f a := by
  cases outcome <;> simp [Except.map, eq_comm]

theorem parts_of_keyed {entries : List (String × Nat)} (h : graph.look node = .keyed entries) :
    graph.parts node = entries := by
  rw [parts, h]
  rfl

/-! ## What is around -/

/-- Along entries a type is found for each of them, behind its key. -/
theorem outcome_observeEntries_eq_ok {observe : Nat → Walker FieldType}
    (h : ∀ node, (observe node).Traceless) {entries : List (String × Nat)} {walk : Walk} :
    (observeEntries observe entries).outcome walk = .ok types ↔
      List.Forall₂ (fun entry found => found.1 = entry.1 ∧
        (observe entry.2).outcome (walk.behind entry.1) = .ok found.2) entries types := by
  induction entries generalizing types with
  | nil =>
      rw [List.forall₂_nil_left_iff]
      constructor
      · intro hok
        cases hok
        rfl
      · rintro rfl
        rfl
  | cons entry entries ih =>
      rw [outcome_observeEntries_cons h, List.forall₂_cons_left_iff]
      constructor
      · intro hok
        -- A fault at any entry would be the outcome.
        cases hfirst : (observe entry.2).outcome (walk.behind entry.1) with
        | error fault =>
            rw [hfirst] at hok
            cases hok
        | ok type =>
            cases hrest : (observeEntries observe entries).outcome walk with
            | error fault =>
                rw [hfirst, hrest] at hok
                cases hok
            | ok others =>
                rw [hfirst, hrest] at hok
                cases hok
                exact ⟨_, others, ⟨rfl, rfl⟩, ih.mp hrest, rfl⟩
      · rintro ⟨⟨key, type⟩, others, ⟨hkey, hfirst⟩, hrest, rfl⟩
        cases hkey
        rw [hfirst, ih.mpr hrest]
        rfl

/-- A type is found at a node that can be entered, if one is found at each of its parts from inside it. -/
theorem outcome_observe_eq_ok {walk : Walk} :
    (graph.observe policy node).outcome walk = .ok type ↔
      ¬((graph.look node).isContainer = true ∧ node ∈ walk.ancestors) ∧
        ∃ types, List.Forall₂ (fun part found => found.1 = part.1 ∧
            (graph.observe policy part.2).outcome ((walk.inside node).behind part.1) = .ok found.2)
          (graph.parts node) types ∧ type = policy.typeOf (graph.look node) types := by
  rw [outcome_observe]
  split
  · next hagain => exact iff_of_false nofun fun h => h.1 hagain
  · next hopen =>
      simp only [map_eq_ok, outcome_observeEntries_eq_ok (traceless_observe policy graph)]
      rw [and_iff_right hopen]

/-- What is found with containers around is found with fewer of them, behind any keys. -/
theorem outcome_of_fewer {walk fewer : Walk} (hsub : fewer.ancestors ⊆ walk.ancestors)
    (h : (graph.observe policy node).outcome walk = .ok type) :
    (graph.observe policy node).outcome fewer = .ok type := by
  -- The induction is on the questions that are asked, each from inside one more container.
  generalize hvisit : (⟨walk.ancestors, node⟩ : Visit) = visit
  induction visit using (wellFounded_asks graph).induction generalizing node walk fewer type with
  | h visit ih =>
      subst hvisit
      rw [outcome_observe_eq_ok] at h ⊢
      obtain ⟨hopen, types, hparts, htype⟩ := h
      refine ⟨fun hagain => hopen ⟨hagain.1, hsub hagain.2⟩, types, ?_, htype⟩
      have hpart : ∀ part ∈ graph.parts node, ∀ type : FieldType,
          (graph.observe policy part.2).outcome ((walk.inside node).behind part.1) = .ok type →
          (graph.observe policy part.2).outcome ((fewer.inside node).behind part.1) = .ok type := by
        intro part hpart type hfound
        have hnot : node ∉ walk.ancestors := fun hmem =>
          hopen ⟨View.isContainer_of_mem_parts hpart, hmem⟩
        have hinside : ((fewer.inside node).behind part.1).ancestors ⊆
            ((walk.inside node).behind part.1).ancestors := List.cons_subset_cons node hsub
        exact ih _ (.part hnot hpart) hinside hfound rfl
      exact ((List.forall₂_and_left _ _).mpr ⟨hpart, hparts⟩).imp
        fun part found hfound => ⟨hfound.2.1, hfound.1 found.2 hfound.2.2⟩

/-! ## Repetitions -/

/-- A route that comes to a node can go on from there. -/
theorem Leads.exists_turn (h : graph.Leads root route) (hmem : node ∈ route.nodes root)
    {turn : Turn} (hpart : (graph.parts node)[turn.position]? = some (turn.key, turn.node)) :
    ∃ before, graph.Leads root (before ++ [turn]) := by
  induction h with
  | here =>
      cases List.mem_singleton.mp hmem
      exact ⟨[], .turn hpart .here⟩
  | @turn start first rest hfirst _ ih =>
      rcases List.mem_cons.mp hmem with rfl | hmem
      · exact ⟨[], .turn hpart .here⟩
      · obtain ⟨before, hbefore⟩ := ih hmem
        exact ⟨first :: before, .turn hfirst hbefore⟩

/-- Something is repeated below a node if something is repeated below one of its parts. -/
theorem repeats_iff_exists_part :
    graph.Repeats node ↔ ∃ part ∈ graph.parts node, graph.Repeats part.2 := by
  constructor
  · rintro ⟨route, hleads, hrepeats⟩
    cases hleads with
    | here => exact absurd (List.nodup_singleton node) hrepeats
    | @turn _ turn rest hpart hrest =>
        refine ⟨(turn.key, turn.node), List.mem_of_getElem? hpart, ?_⟩
        rw [Route.nodes_cons, List.nodup_cons, not_and_or, not_not] at hrepeats
        rcases hrepeats with hback | hrepeats
        · -- The route is back at the node, and from there it can take the same turn again.
          obtain ⟨before, hbefore⟩ := hrest.exists_turn hback hpart
          refine ⟨before ++ [turn], hbefore, ?_⟩
          rw [Route.nodes_append_singleton, ← List.concat_eq_append, List.nodup_concat]
          exact fun h => h.1 List.mem_cons_self
        · exact ⟨rest, hrest, hrepeats⟩
  · rintro ⟨part, hpart, route, hleads, hrepeats⟩
    obtain ⟨position, hposition⟩ := List.getElem?_of_mem hpart
    refine ⟨⟨position, part.1, part.2⟩ :: route, .turn hposition hleads, fun hnodup => ?_⟩
    exact hrepeats (List.nodup_cons.mp hnodup).2

/-- A node has a type if and only if no route from it repeats a container. -/
theorem exists_infer_iff :
    (∃ type, graph.infer policy node = .ok type) ↔ ¬graph.Repeats node :=
  (detects_of_verdict (verdict_infer policy graph node)).ok_iff

/-! ## Parts on their own -/

/-- The type is that of the part, taken on its own. -/
def Found (graph : Graph) (policy : Policy) (part : String × Nat) (found : String × FieldType) :
    Prop :=
  found.1 = part.1 ∧ graph.infer policy part.2 = .ok found.2

/-- There is one list of types to be found at the parts of a node. -/
theorem eq_of_found {parts : List (String × Nat)} {others : List (String × FieldType)}
    (h : List.Forall₂ (graph.Found policy) parts types)
    (h' : List.Forall₂ (graph.Found policy) parts others) : types = others := by
  refine List.right_unique_forall₂' ?_ h h'
  rintro part ⟨key, type⟩ ⟨key', type'⟩ ⟨hkey, htype⟩ ⟨hkey', htype'⟩
  cases hkey
  cases hkey'
  cases htype.symm.trans htype'
  rfl

/-- From the beginning of a walk, what is found at the parts of a root is what is found at each of them
alone. -/
theorem outcome_parts_eq_ok_iff :
    (observeEntries (graph.observe policy) (graph.parts root)).outcome (Walk.start.inside root) =
      .ok types ↔ List.Forall₂ (graph.Found policy) (graph.parts root) types := by
  have halone : ∀ {types}, (observeEntries (graph.observe policy) (graph.parts root)).outcome
      (Walk.start.inside root) = .ok types →
        List.Forall₂ (graph.Found policy) (graph.parts root) types := by
    intro types hok
    refine ((outcome_observeEntries_eq_ok (traceless_observe policy graph)).mp hok).imp ?_
    rintro part found ⟨hkey, hfound⟩
    exact ⟨hkey, outcome_of_fewer (List.nil_subset _) hfound⟩
  refine ⟨halone, fun hfound => ?_⟩
  have hroot : ∃ type, graph.infer policy root = .ok type := by
    rw [exists_infer_iff, repeats_iff_exists_part]
    rintro ⟨part, hpart, hrepeats⟩
    obtain ⟨found, -, -, htype⟩ := (exists_of_forall₂ hfound).1 part hpart
    exact exists_infer_iff.mp ⟨found.2, htype⟩ hrepeats
  -- The root has a type, so there is something that is found at its parts.
  obtain ⟨type, htype⟩ := hroot
  rw [infer_eq, map_eq_ok] at htype
  obtain ⟨others, hparts, -⟩ := htype
  rw [hparts, eq_of_found (halone hparts) hfound]

/-- **A node has a type if all its parts have one**, each taken on its own, and the policy makes the node's
type out of theirs. -/
theorem infer_eq_ok_iff : graph.infer policy node = .ok type ↔
    ∃ types, List.Forall₂ (graph.Found policy) (graph.parts node) types ∧
      type = policy.typeOf (graph.look node) types := by
  rw [infer_eq, map_eq_ok]
  simp only [outcome_parts_eq_ok_iff]

/-- A keyed node has a shape if all its entries have a type, each taken on its own. -/
theorem inferShape_eq_ok_iff {entries : List (String × Nat)} {shape : Shape}
    (hroot : graph.look root = .keyed entries) : graph.inferShape policy root = .ok shape ↔
      ∃ types, List.Forall₂ (graph.Found policy) entries types ∧
        shape = Entries.ofList types := by
  rw [inferShape_of_keyed policy hroot, map_eq_ok]
  simp only [← parts_of_keyed hroot, outcome_parts_eq_ok_iff]

/-- At a keyed node, the type holds the shape, unless there are no entries. -/
theorem infer_eq_map_inferShape (policy : Policy) {entries : List (String × Nat)}
    (hroot : graph.look root = .keyed entries) :
    graph.infer policy root = (graph.inferShape policy root).map fun shape =>
      { policy.leaf .object with fields := if entries.isEmpty then none else some shape } := by
  rw [infer_eq, inferShape_of_keyed policy hroot, parts_of_keyed hroot, hroot]
  cases hfound : (observeEntries (graph.observe policy) entries).outcome
      (Walk.start.inside root) with
  | error fault => rfl
  | ok types =>
      rw [outcome_observeEntries_eq_ok (traceless_observe policy graph)] at hfound
      have hempty : types.isEmpty = entries.isEmpty := by
        cases hfound <;> rfl
      simp only [Except.map, Policy.typeOf, Policy.keyedOf, hempty]

end SampleTypes.Graph
