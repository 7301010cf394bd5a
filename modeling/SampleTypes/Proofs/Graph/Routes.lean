import Mathlib.Data.List.Induction
import Mathlib.Data.List.Nodup
import Mathlib.Tactic.Tauto
import SampleTypes.Proofs.Graph.Traces

/-!
# Routes through graphs

A route goes from a node to one of its parts, from there to one of the part's parts, and so on. Routes
from one node are told apart by the positions they take, and these order them: at the node where two
routes part, the one that takes the earlier part comes first, which is the order of a depth-first walk.

A route returns if it ends at a node that it has passed, and has not done so before
(`Graph.Returns`). Seen from inside, with the containers around as what has been passed, such a route
ends at once or takes a turn out of a node that is not around (`Graph.Hits`); `hits_iff` says that this is
the same thing.
-/

namespace SampleTypes

/-- One step of a route: the position and the key of a node's part, and the node it is. -/
structure Turn where
  position : Nat
  key : String
  node : Nat

abbrev Route := List Turn

namespace Route

def keys (route : Route) : List String :=
  route.map (·.key)

def nodes (start : Nat) (route : Route) : List Nat :=
  start :: route.map (·.node)

/-- The route comes no later than the other one in depth-first order: it ends where the other one goes on,
or it takes the earlier part where the two part. -/
inductive NoLater : Route → Route → Prop
  | ends {other : Route} : NoLater [] other
  | earlier {turn turn' : Turn} {rest rest' : Route} (h : turn.position < turn'.position) :
      NoLater (turn :: rest) (turn' :: rest')
  | along {turn turn' : Turn} {rest rest' : Route} (hposition : turn.position = turn'.position)
      (h : NoLater rest rest') : NoLater (turn :: rest) (turn' :: rest')

/-- The first route with a property, in depth-first order. -/
def IsFirst (P : Route → Prop) (route : Route) : Prop :=
  P route ∧ ∀ other, P other → NoLater route other

@[simp] theorem keys_nil : keys [] = [] := rfl

@[simp] theorem keys_cons (turn : Turn) (route : Route) :
    keys (turn :: route) = turn.key :: keys route := rfl

@[simp] theorem nodes_nil (start : Nat) : nodes start [] = [start] := rfl

@[simp] theorem nodes_cons (start : Nat) (turn : Turn) (route : Route) :
    nodes start (turn :: route) = start :: nodes turn.node route := rfl

@[simp] theorem nodes_append_singleton (start : Nat) (route : Route) (turn : Turn) :
    nodes start (route ++ [turn]) = nodes start route ++ [turn.node] := by
  simp [nodes]

end Route

namespace Graph

variable {graph : Graph} {root node : Nat} {around : List Nat} {route other : Route}

/-- The turns of the route can be taken from the node, one after the other. -/
inductive Leads (graph : Graph) : Nat → Route → Prop
  | here {node : Nat} : Leads graph node []
  | turn {node : Nat} {turn : Turn} {rest : Route}
      (hpart : (graph.parts node)[turn.position]? = some (turn.key, turn.node))
      (hrest : Leads graph turn.node rest) : Leads graph node (turn :: rest)

/-- Some route from the node enters a container a second time. -/
def Repeats (graph : Graph) (root : Nat) : Prop :=
  ∃ route, graph.Leads root route ∧ ¬(route.nodes root).Nodup

/-- The route ends at a node that it has passed, and no shorter part of it does. -/
structure Returns (graph : Graph) (root : Nat) (route : Route) : Prop where
  leads : graph.Leads root route
  again : ∃ before last, route.nodes root = before ++ [last] ∧ before.Nodup ∧ last ∈ before

/-- The beginning of a route is a route. -/
theorem Leads.of_append {more : Route} (h : graph.Leads root (route ++ more)) :
    graph.Leads root route := by
  induction route generalizing root with
  | nil => exact .here
  | cons turn route ih =>
      cases h with
      | turn hpart hrest => exact .turn hpart (ih hrest)

/-- Positions tell routes apart: two of which neither comes later are one. -/
theorem Leads.eq_of_noLater (h : graph.Leads root route) (h' : graph.Leads root other)
    (hle : route.NoLater other) (hle' : other.NoLater route) : route = other := by
  induction hle generalizing root with
  | ends =>
      cases hle'
      rfl
  | earlier hlt =>
      cases hle' with
      | earlier hgt => exact absurd hlt (Nat.lt_asymm hgt)
      | along heq _ => exact absurd heq.symm (Nat.ne_of_lt hlt)
  | @along turn turn' rest rest' hposition _ ih =>
      cases hle' with
      | earlier hgt => exact absurd hposition.symm (Nat.ne_of_lt hgt)
      | along _ hle' =>
          obtain ⟨position, key, node⟩ := turn
          obtain ⟨position', key', node'⟩ := turn'
          -- At one position there is one part, so key and node agree too.
          cases hposition
          cases h with
          | turn hpart hrest =>
              cases h' with
              | turn hpart' hrest' =>
                  rw [hpart] at hpart'
                  cases hpart'
                  rw [ih hrest hrest' hle']

/-- Only one route of a kind is the first. -/
theorem eq_of_isFirst {P : Route → Prop} (hP : ∀ route, P route → graph.Leads root route)
    (h : route.IsFirst P) (h' : other.IsFirst P) : route = other := by
  exact (hP route h.1).eq_of_noLater (hP other h'.1) (h.2 other h'.1) (h'.2 route h.1)

theorem Returns.ne_nil (h : graph.Returns root route) : route ≠ [] := by
  rintro rfl
  obtain ⟨before, last, heq, -, hmem⟩ := h.again
  rw [Route.nodes_nil, List.singleton_eq_append_iff] at heq
  simp_all

/-- The shortest part of a route that passes some node twice returns. -/
theorem repeats_iff : graph.Repeats root ↔ ∃ route, graph.Returns root route := by
  constructor
  · rintro ⟨route, hleads, hnot⟩
    induction route using List.reverseRecOn with
    | nil => exact absurd (List.nodup_singleton root) hnot
    | append_singleton route turn ih =>
        by_cases hnodup : (Route.nodes root route).Nodup
        · refine ⟨_, hleads, Route.nodes root route, turn.node, by simp, hnodup, ?_⟩
          by_contra hmem
          apply hnot
          rw [Route.nodes_append_singleton, ← List.concat_eq_append, List.nodup_concat]
          exact ⟨hmem, hnodup⟩
        · exact ih hleads.of_append hnodup
  · rintro ⟨route, hleads, before, last, heq, -, hmem⟩
    refine ⟨route, hleads, ?_⟩
    rw [heq, ← List.concat_eq_append, List.nodup_concat]
    exact fun h => h.1 hmem

/-! ## Routes seen from inside -/

/-- The route ends at a container that is around or that it has passed, and has not done so before. -/
inductive Hits (graph : Graph) : List Nat → Nat → Route → Prop
  | here {around : List Nat} {node : Nat} (hc : (graph.look node).isContainer = true)
      (hmem : node ∈ around) : Hits graph around node []
  | turn {around : List Nat} {node : Nat} {turn : Turn} {rest : Route} (hnot : node ∉ around)
      (hpart : (graph.parts node)[turn.position]? = some (turn.key, turn.node))
      (hrest : Hits graph (node :: around) turn.node rest) : Hits graph around node (turn :: rest)

theorem isContainer_of_part {position : Nat} {part : String × Nat}
    (h : (graph.parts node)[position]? = some part) : (graph.look node).isContainer = true :=
  View.isContainer_of_mem_parts (List.mem_of_getElem? h)

/-- What a route from inside hits: the containers around and those that it has passed make no difference. -/
theorem hits_iff (haround : ∀ other ∈ around, (graph.look other).isContainer = true) :
    graph.Hits around node route ↔ graph.Leads node route ∧
      ∃ before last, route.nodes node = before ++ [last] ∧ before.Nodup ∧
        (∀ other ∈ before, other ∉ around) ∧ (last ∈ before ∨ last ∈ around) := by
  induction route generalizing node around with
  | nil =>
      constructor
      · intro h
        cases h with
        | here _ hmem =>
            exact ⟨.here, [], node, rfl, List.nodup_nil, by simp, .inr hmem⟩
      · rintro ⟨-, before, last, heq, -, -, hmem⟩
        rw [Route.nodes_nil, List.singleton_eq_append_iff] at heq
        simp only [List.cons_ne_nil, and_false, or_false, List.cons.injEq, and_true] at heq
        obtain ⟨rfl, rfl⟩ := heq
        have haround' : last ∈ around := by simpa using hmem
        exact .here (haround last haround') haround'
  | cons turn rest ih =>
      constructor
      · intro h
        cases h with
        | turn hnot hpart hrest =>
            have hinside : ∀ other ∈ node :: around, (graph.look other).isContainer = true :=
              List.forall_mem_cons.mpr ⟨isContainer_of_part hpart, haround⟩
            obtain ⟨hleads, before, last, heq, hnodup, hfree, hmem⟩ := (ih hinside).mp hrest
            refine ⟨.turn hpart hleads, node :: before, last, ?_, ?_, ?_, ?_⟩
            · rw [Route.nodes_cons, heq, List.cons_append]
            · refine List.nodup_cons.mpr ⟨fun hnode => ?_, hnodup⟩
              exact hfree node hnode List.mem_cons_self
            · refine List.forall_mem_cons.mpr ⟨hnot, fun other hother hin => ?_⟩
              exact hfree other hother (List.mem_cons_of_mem _ hin)
            · rw [List.mem_cons] at hmem ⊢
              tauto
      · rintro ⟨hleads, before, last, heq, hnodup, hfree, hmem⟩
        cases hleads with
        | turn hpart hleads =>
            have hinside : ∀ other ∈ node :: around, (graph.look other).isContainer = true :=
              List.forall_mem_cons.mpr ⟨isContainer_of_part hpart, haround⟩
            -- The node is not the last one, as the route goes on from it.
            rw [Route.nodes_cons, List.cons_eq_append_iff] at heq
            rcases heq with ⟨-, hlast⟩ | ⟨before', rfl, heq⟩
            · simp [Route.nodes] at hlast
            · rw [List.nodup_cons] at hnodup
              rw [List.forall_mem_cons] at hfree
              refine .turn hfree.1 hpart ((ih hinside).mpr ⟨hleads, before', last, heq, hnodup.2, ?_, ?_⟩)
              · intro other hother hin
                rcases List.mem_cons.mp hin with rfl | hin
                · exact hnodup.1 hother
                · exact hfree.2 other hother hin
              · rw [List.mem_cons] at hmem ⊢
                tauto

/-- A route from the outside hits what it has passed. -/
theorem hits_nil_iff : graph.Hits [] root route ↔ graph.Returns root route := by
  rw [hits_iff (by simp)]
  constructor
  · rintro ⟨hleads, before, last, heq, hnodup, -, hmem⟩
    exact ⟨hleads, before, last, heq, hnodup, by simpa using hmem⟩
  · rintro ⟨hleads, before, last, heq, hnodup, hmem⟩
    exact ⟨hleads, before, last, heq, hnodup, by simp, .inl hmem⟩

end Graph

end SampleTypes
