import SampleTypes.Inference

/-!
# Value graphs

Values whose parts may be shared and may lead back to the whole. A graph lists its nodes, and parts are
given by the index of a node.

Inference walks the graph from a node. It keeps the containers it is inside of, and the keys that led
there; a container that is met inside itself ends the walk. `Walker.enter` and `Walker.descend` undo
their step however the walk inside them ends.
-/

namespace SampleTypes

structure Graph where
  nodes : Array (View Nat)

/-- What inference sees of a node; there is nothing to see where no node is. -/
def Graph.look (graph : Graph) (node : Nat) : View Nat :=
  graph.nodes[node]?.getD .other

/-- Where a walk stands: the containers around, the innermost first, and the keys that led there, the
last one first. -/
structure Walk where
  ancestors : List Nat
  trail : List String
deriving DecidableEq, Repr

namespace Walk

def start : Walk := ⟨[], []⟩

/-- The keys from the beginning of the walk. -/
def path (walk : Walk) : List String :=
  walk.trail.reverse

end Walk

/-- A part of a walk. -/
abbrev Walker := EStateM InferenceFault Walk

namespace Walker

variable {α : Type}

/-- Ends the walk at a container that was entered before. -/
def repeated : Walker α := fun walk =>
  .error (.cycle walk.path) walk

/-- Walks inside a container, unless it is entered already. -/
def enter (node : Nat) (inside : Walker α) : Walker α := fun walk =>
  if walk.ancestors.contains node then
    repeated walk
  else
    match inside { walk with ancestors := node :: walk.ancestors } with
    | .ok a after => .ok a { after with ancestors := after.ancestors.tail }
    | .error fault after => .error fault { after with ancestors := after.ancestors.tail }

def descend (key : String) (below : Walker α) : Walker α := fun walk =>
  match below { walk with trail := key :: walk.trail } with
  | .ok a after => .ok a { after with trail := after.trail.tail }
  | .error fault after => .error fault { after with trail := after.trail.tail }

/-- What a walk from its beginning finds. -/
def run (walker : Walker α) : Except InferenceFault α :=
  match walker .start with
  | .ok a _ => .ok a
  | .error fault _ => .error fault

end Walker

namespace Graph

open Walker

def observeEntries (observe : Nat → Walker FieldType) :
    List (String × Nat) → Walker (List (String × FieldType))
  | [] => return []
  | (key, node) :: entries => do
    let type ← descend key (observe node)
    let types ← observeEntries observe entries
    return (key, type) :: types

/-- The type of a node that is seen as `view`. -/
def observeView (policy : Policy) (observe : Nat → Walker FieldType) (node : Nat) :
    View Nat → Walker FieldType
  | .text => return policy.leaf .string
  | .numeric => return policy.leaf .number
  | .boolean => return policy.leaf .boolean
  | .absent => return policy.absent
  | .other => return policy.leaf .unknown
  | .sequence none => enter node (return policy.emptySequence)
  | .sequence (some first) =>
    enter node do return policy.sequenceOf (← descend "0" (observe first))
  | .keyed entries => enter node do return policy.keyedOf (← observeEntries observe entries)

/-- The type of a node. No walk passes more than `bound` nodes without a repetition. -/
def observeWithin (policy : Policy) (graph : Graph) : (bound : Nat) → Nat → Walker FieldType
  | 0, _ => repeated
  | bound + 1, node =>
    observeView policy (observeWithin policy graph bound) node (graph.look node)

/-- The type of a node. Every container can be entered once, and one more step shows a repetition. -/
def observe (policy : Policy) (graph : Graph) (node : Nat) : Walker FieldType :=
  observeWithin policy graph (graph.nodes.size + 1) node

def observeShape (policy : Policy) (graph : Graph) (node : Nat) : Walker Shape :=
  match graph.look node with
  | .keyed entries =>
    enter node do return Entries.ofList (← observeEntries (observe policy graph) entries)
  | view => fun walk => .error (.rootNotKeyed view.describe) walk

def infer (policy : Policy) (graph : Graph) (root : Nat) : Except InferenceFault FieldType :=
  (observe policy graph root).run

def inferShape (policy : Policy) (graph : Graph) (root : Nat) : Except InferenceFault Shape :=
  (observeShape policy graph root).run

end Graph

end SampleTypes
