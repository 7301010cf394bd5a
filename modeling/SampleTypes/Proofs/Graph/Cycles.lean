import SampleTypes.Proofs.Graph.Routes
import SampleTypes.Proofs.Graph.Termination
import SampleTypes.Proofs.Json.Pointer

/-!
# Cycles are found, and only cycles

A type is inferred for a node unless a route from it enters a container a second time. If there is such a
route, the path in the fault is that of the first one in depth-first order (`cycle_detection_exact`).
Whether nodes are shared does not matter, only whether one is met inside itself.

Inference is followed from inside: where it stands with containers around, what it finds agrees with the
routes from there that hit one of them or return (`Verdict`). One lemma goes along the parts of a node and
one into them.
-/

namespace SampleTypes

/-- What is found agrees with the routes of a kind: there are none, or the fault has the keys of the first
one, behind those that led to where it begins. -/
inductive Verdict {α : Type} (P : Route → Prop) (path : List String) :
    Except InferenceFault α → Prop
  | clear {a : α} (h : ∀ route, ¬P route) : Verdict P path (.ok a)
  | cycle {route : Route} (h : route.IsFirst P) :
      Verdict P path (.error (.cycle (path ++ route.keys)))

namespace Verdict

variable {α β : Type} {P Q : Route → Prop} {path : List String}
  {outcome : Except InferenceFault α}

/-- A cycle may be told by its keys where they are those of the first route. -/
theorem cycle_of_eq {route : Route} {keys : List String} (h : route.IsFirst P)
    (hkeys : keys = path ++ route.keys) :
    Verdict P path (.error (.cycle keys) : Except InferenceFault α) :=
  hkeys ▸ .cycle h

theorem map (h : Verdict P path outcome) (f : α → β) : Verdict P path (outcome.map f) := by
  cases h with
  | clear h => exact .clear h
  | cycle h => exact .cycle h

theorem congr (h : Verdict P path outcome) (hiff : ∀ route, P route ↔ Q route) :
    Verdict Q path outcome := by
  have heq : P = Q := funext fun route => propext (hiff route)
  rwa [← heq]

theorem exists_ok_iff (h : Verdict P path outcome) :
    (∃ a, outcome = .ok a) ↔ ∀ route, ¬P route := by
  cases h with
  | clear h => simpa using h
  | @cycle route h => simpa using ⟨route, h.1⟩

/-- A failure tells the first route. -/
theorem exists_of_error {fault : InferenceFault} (h : Verdict P path outcome)
    (herror : outcome = .error fault) :
    ∃ route, Route.IsFirst P route ∧ fault = .cycle (path ++ route.keys) := by
  cases h with
  | clear h => cases herror
  | @cycle route h =>
      cases herror
      exact ⟨route, h, rfl⟩

end Verdict

namespace Graph

open Walker

variable {policy : Policy} {graph : Graph} {around : List Nat} {entries : List (String × Nat)}
  {route : Route}

/-- The route takes one of the entries first, and hits behind it. -/
inductive HitsBehind (graph : Graph) (around : List Nat) (entries : List (String × Nat)) :
    Route → Prop
  | turn {turn : Turn} {rest : Route}
      (hpart : entries[turn.position]? = some (turn.key, turn.node))
      (hrest : graph.Hits around turn.node rest) : HitsBehind graph around entries (turn :: rest)

/-- From a node that is no repetition itself, the routes to what lies around go through its parts. -/
theorem hitsBehind_parts_iff {node : Nat}
    (h : ¬((graph.look node).isContainer = true ∧ node ∈ around)) :
    graph.HitsBehind (node :: around) (graph.parts node) route ↔ graph.Hits around node route := by
  constructor
  · intro hbehind
    cases hbehind with
    | turn hpart hrest =>
        exact .turn (fun hmem => h ⟨isContainer_of_part hpart, hmem⟩) hpart hrest
  · intro hhits
    cases hhits with
    | here hc hmem => exact absurd ⟨hc, hmem⟩ h
    | turn _ hpart hrest => exact .turn hpart hrest

/-- The first route that hits behind the first entry is the first one behind all entries. -/
theorem isFirst_hitsBehind_head {key : String} {node : Nat}
    (h : route.IsFirst (graph.Hits around node)) :
    Route.IsFirst (graph.HitsBehind around ((key, node) :: entries)) (⟨0, key, node⟩ :: route) := by
  refine ⟨.turn rfl h.1, fun other hother => ?_⟩
  cases hother with
  | @turn turn rest hpart hrest =>
      obtain ⟨position, key', node'⟩ := turn
      cases position with
      | zero =>
          cases hpart
          exact .along rfl (h.2 rest hrest)
      | succ position => exact .earlier (Nat.succ_pos position)

/-- If nothing is hit behind the first entry, the first route is that behind the others. -/
theorem isFirst_hitsBehind_tail {key : String} {node : Nat} {turn : Turn} {rest : Route}
    (hclear : ∀ route, ¬graph.Hits around node route)
    (h : Route.IsFirst (graph.HitsBehind around entries) (turn :: rest)) :
    Route.IsFirst (graph.HitsBehind around ((key, node) :: entries))
      ({ turn with position := turn.position + 1 } :: rest) := by
  constructor
  · cases h.1 with
    | turn hpart hrest => exact .turn hpart hrest
  · intro other hother
    cases hother with
    | @turn turn' rest' hpart hrest =>
        obtain ⟨position, key', node'⟩ := turn'
        cases position with
        | zero =>
            cases hpart
            exact absurd hrest (hclear rest')
        | succ position =>
            have hle := h.2 (⟨position, key', node'⟩ :: rest') (.turn hpart hrest)
            cases hle with
            | earlier hlt => exact .earlier (Nat.succ_lt_succ hlt)
            | along heq hrest => exact .along (congrArg Nat.succ heq) hrest

/-- Along entries: the first fault is the one that is found. -/
theorem verdict_observeEntries {observe : Nat → Walker FieldType} {walk : Walk}
    (h : ∀ node, (observe node).Traceless)
    (hentries : ∀ entry ∈ entries, Verdict (graph.Hits around entry.2) (walk.path ++ [entry.1])
      ((observe entry.2).outcome (walk.behind entry.1))) :
    Verdict (graph.HitsBehind around entries) walk.path
      ((observeEntries observe entries).outcome walk) := by
  induction entries with
  | nil =>
      refine .clear fun route hroute => ?_
      cases hroute with
      | turn hpart _ => cases hpart
  | cons entry entries ih =>
      obtain ⟨key, node⟩ := entry
      rw [List.forall_mem_cons] at hentries
      obtain ⟨hfirst, hothers⟩ := hentries
      have hrest := ih hothers
      rw [outcome_observeEntries_cons h]
      generalize (observe node).outcome (walk.behind key) = first at hfirst
      generalize (observeEntries observe entries).outcome walk = others at hrest
      -- A cycle behind the first entry is the first one; the other entries are asked only if there is
      -- none.
      cases hfirst with
      | @cycle route hroute =>
          exact .cycle_of_eq (isFirst_hitsBehind_head hroute) (by simp)
      | clear hclear =>
          cases hrest with
          | @cycle route hroute =>
              cases hroute.1 with
              | @turn turn rest hpart hrest =>
                  exact .cycle_of_eq (isFirst_hitsBehind_tail hclear hroute) rfl
          | clear hnone =>
              refine .clear fun route hroute => ?_
              cases hroute with
              | @turn turn rest hpart hrest =>
                  obtain ⟨position, key', node'⟩ := turn
                  cases position with
                  | zero =>
                      cases hpart
                      exact hclear rest hrest
                  | succ position => exact hnone (⟨position, key', node'⟩ :: rest) (.turn hpart hrest)

/-- Into a node: what its parts agree with, the node agrees with. -/
theorem verdict_parts {walk : Walk} {node : Nat}
    (hopen : ¬((graph.look node).isContainer = true ∧ node ∈ walk.ancestors))
    (hparts : ∀ part ∈ graph.parts node, node ∉ walk.ancestors →
      Verdict (graph.Hits (node :: walk.ancestors) part.2) (walk.path ++ [part.1])
        ((graph.observe policy part.2).outcome ((walk.inside node).behind part.1))) :
    Verdict (graph.Hits walk.ancestors node) walk.path
      ((observeEntries (graph.observe policy) (graph.parts node)).outcome (walk.inside node)) := by
  have hiff : ∀ route, graph.HitsBehind (node :: walk.ancestors) (graph.parts node) route ↔
      graph.Hits walk.ancestors node route := fun _ => hitsBehind_parts_iff hopen
  refine Verdict.congr ?_ hiff
  rw [← Walk.path_inside walk node]
  apply verdict_observeEntries (traceless_observe policy graph)
  intro part hpart
  apply hparts part hpart
  exact fun hmem => hopen ⟨View.isContainer_of_mem_parts hpart, hmem⟩

/-- What is found at a node agrees with the routes that hit a container around or return. -/
theorem verdict_observe (policy : Policy) (graph : Graph) (node : Nat) (walk : Walk) :
    Verdict (graph.Hits walk.ancestors node) walk.path
      ((graph.observe policy node).outcome walk) := by
  -- The induction is on the questions that are asked, each from inside one more container.
  generalize hvisit : (⟨walk.ancestors, node⟩ : Visit) = visit
  induction visit using (wellFounded_asks graph).induction generalizing node walk with
  | h visit ih =>
      subst hvisit
      rw [outcome_observe]
      split
      · next hagain =>
          have hfirst : Route.IsFirst (graph.Hits walk.ancestors node) [] :=
            ⟨.here hagain.1 hagain.2, fun _ _ => .ends⟩
          exact .cycle_of_eq hfirst (by simp)
      · next hopen =>
          refine (verdict_parts hopen fun part hpart hnot => ?_).map _
          have hpartverdict := ih _ (.part hnot hpart) part.2 ((walk.inside node).behind part.1) rfl
          simpa using hpartverdict

/-- Inference gives its verdict on the routes that return to a container. -/
theorem verdict_infer (policy : Policy) (graph : Graph) (root : Nat) :
    Verdict (graph.Returns root) [] (graph.infer policy root) :=
  (verdict_observe policy graph root .start).congr fun _ => hits_nil_iff

/-- So does the inference of the shape of a keyed root. -/
theorem verdict_inferShape (policy : Policy) {root : Nat}
    (hroot : graph.look root = .keyed entries) :
    Verdict (graph.Returns root) [] (graph.inferShape policy root) := by
  have hstart : root ∉ Walk.start.ancestors := List.not_mem_nil
  have hopen : ¬((graph.look root).isContainer = true ∧ root ∈ Walk.start.ancestors) :=
    fun h => hstart h.2
  have hparts : Verdict (graph.Hits Walk.start.ancestors root) Walk.start.path
      ((observeEntries (graph.observe policy) (graph.parts root)).outcome
        (Walk.start.inside root)) := by
    apply verdict_parts hopen
    intro part _ _
    simpa using verdict_observe policy graph part.2 ((Walk.start.inside root).behind part.1)
  rw [parts, hroot] at hparts
  rw [inferShape_of_keyed policy hroot]
  exact (hparts.map _).congr fun _ => hits_nil_iff

/-- What is found from a root tells of exactly the cycles that can be reached: a fault if some route
repeats a container, with the keys of the first route that returns, and no fault otherwise. -/
structure Detects {α : Type} (graph : Graph) (root : Nat) (outcome : Except InferenceFault α) :
    Prop where
  cycle_iff : (∃ path, outcome = .error (.cycle path)) ↔ graph.Repeats root
  ok_iff : (∃ a, outcome = .ok a) ↔ ¬graph.Repeats root
  path : ∀ path, outcome = .error (.cycle path) →
    ∃! route, Route.IsFirst (graph.Returns root) route ∧ route.keys = path
  pointer : ∀ path, outcome = .error (.cycle path) →
    path ≠ [] ∧ Json.Pointer.keys? (InferenceFault.pointer path) = some path ∧
      (InferenceFault.pointer path = InferenceFault.pointer [] ↔ path = [""])

/-- A verdict detects cycles exactly: their keys are those of the first route that returns. -/
theorem detects_of_verdict {α : Type} {root : Nat} {outcome : Except InferenceFault α}
    (h : Verdict (graph.Returns root) [] outcome) : graph.Detects root outcome := by
  have hok : (∃ a, outcome = .ok a) ↔ ¬graph.Repeats root := by
    rw [h.exists_ok_iff, repeats_iff, not_exists]
  have hpath : ∀ path, outcome = .error (.cycle path) →
      ∃ route, Route.IsFirst (graph.Returns root) route ∧ route.keys = path := by
    intro path hcycle
    obtain ⟨route, hroute, heq⟩ := h.exists_of_error hcycle
    cases heq
    exact ⟨route, hroute, rfl⟩
  -- A verdict is one of two, so an outcome that is no success is the cycle of the first route.
  refine ⟨?_, hok, ?_, ?_⟩
  · constructor
    · rintro ⟨path, hcycle⟩
      by_contra hnot
      obtain ⟨a, ha⟩ := hok.mpr hnot
      rw [hcycle] at ha
      cases ha
    · intro hrepeats
      cases outcome with
      | ok a => exact absurd hrepeats (hok.mp ⟨a, rfl⟩)
      | error fault =>
          obtain ⟨route, -, hfault⟩ := h.exists_of_error rfl
          exact ⟨_, congrArg Except.error hfault⟩
  · intro path hcycle
    obtain ⟨route, hroute, hkeys⟩ := hpath path hcycle
    refine ⟨route, ⟨hroute, hkeys⟩, fun other hother => ?_⟩
    exact eq_of_isFirst (fun _ hreturns => hreturns.leads) hother.1 hroute
  · intro path hcycle
    obtain ⟨route, hroute, rfl⟩ := hpath path hcycle
    have hne : route.keys ≠ [] := fun hnil => hroute.1.ne_nil (List.map_eq_nil_iff.mp hnil)
    refine ⟨hne, ?_, InferenceFault.pointer_eq_pointer_nil_iff hne⟩
    rw [InferenceFault.pointer_of_ne_nil hne, Json.Pointer.keys?_write]

end Graph

/-- **Inference finds exactly the cycles.** It ends at every node, by rules that know no bound, and below
a keyed root it tells of the first route that returns, or of none because there is none. -/
theorem cycle_detection_exact (policy : Policy) {graph : Graph} {root : Nat}
    {entries : List (String × Nat)} (hroot : graph.look root = .keyed entries) :
    WellFounded graph.Asks ∧
      (∀ node, graph.observe policy node =
        Graph.observeView policy (graph.observe policy) node (graph.look node)) ∧
      graph.Detects root (graph.infer policy root) ∧
      graph.Detects root (graph.inferShape policy root) := by
  refine ⟨Graph.wellFounded_asks graph, Graph.observe_eq policy graph, ?_, ?_⟩
  · exact Graph.detects_of_verdict (Graph.verdict_infer policy graph root)
  · exact Graph.detects_of_verdict (Graph.verdict_inferShape policy hroot)

/-- Two entries share a part, which is no cycle. The third leads through a sequence back to the root. -/
def sharedPartAndLoop : Graph :=
  ⟨#[.keyed [("a", 1), ("b", 1), ("c", 2)], .keyed [("x", 3)], .sequence (some 0), .text]⟩

theorem cycle_detection_exact_sharedPartAndLoop :
    sharedPartAndLoop.Repeats 0 ∧
      (∃! route, Route.IsFirst (sharedPartAndLoop.Returns 0) route ∧ route.keys = ["c", "0"]) ∧
      ¬sharedPartAndLoop.Repeats 1 := by
  have hroot := cycle_detection_exact {} (rfl : sharedPartAndLoop.look 0 = .keyed _)
  have hpart := cycle_detection_exact {} (rfl : sharedPartAndLoop.look 1 = .keyed _)
  have hcycle : sharedPartAndLoop.inferShape {} 0 = .error (.cycle ["c", "0"]) := rfl
  refine ⟨?_, ?_, ?_⟩
  · exact hroot.2.2.2.cycle_iff.mp ⟨_, hcycle⟩
  · exact hroot.2.2.2.path _ hcycle
  · exact hpart.2.2.2.ok_iff.mp ⟨_, rfl⟩

/-- The root is its own part, behind the empty key. -/
def emptyKeyLoop : Graph :=
  ⟨#[.keyed [("", 0)]]⟩

theorem emptyKeyLoop_pointer :
    emptyKeyLoop.look 0 = .keyed [("", 0)] ∧
      emptyKeyLoop.inferShape {} 0 = .error (.cycle [""]) ∧
      InferenceFault.pointer [""] = InferenceFault.pointer [] :=
  ⟨rfl, rfl, rfl⟩

end SampleTypes
