import SampleTypes.Graph

/-!
# Walks leave no trace

However a walk through a graph ends, it ends where it began: every container that is entered is left
again and every key is taken back, also when something inside is at fault (`Walker.Traceless`). So a walk
can be told from what it finds alone (`Walker.outcome`), and what it finds is put together from what its
parts find.

What inference does at a node is the same whatever the node's view is: a container is entered, the types
of its parts are found in order, and the policy makes one type of them (`Policy.typeOf`,
`Graph.outcome_observeView`).
-/

namespace SampleTypes

namespace Walk

def inside (walk : Walk) (node : Nat) : Walk :=
  { walk with ancestors := node :: walk.ancestors }

def behind (walk : Walk) (key : String) : Walk :=
  { walk with trail := key :: walk.trail }

@[simp] theorem ancestors_inside (walk : Walk) (node : Nat) :
    (walk.inside node).ancestors = node :: walk.ancestors := rfl

@[simp] theorem ancestors_behind (walk : Walk) (key : String) :
    (walk.behind key).ancestors = walk.ancestors := rfl

@[simp] theorem path_inside (walk : Walk) (node : Nat) : (walk.inside node).path = walk.path := rfl

@[simp] theorem path_behind (walk : Walk) (key : String) :
    (walk.behind key).path = walk.path ++ [key] := by
  simp [behind, path]

end Walk

namespace Walker

variable {α β : Type} {walker other : Walker α}

/-- What is found from where the walk stands. -/
def outcome (walker : Walker α) (walk : Walk) : Except InferenceFault α :=
  match walker walk with
  | .ok a _ => .ok a
  | .error fault _ => .error fault

/-- The walk ends where it began. -/
def Traceless (walker : Walker α) : Prop :=
  ∀ walk, walker walk =
    match walker.outcome walk with
    | .ok a => .ok a walk
    | .error fault => .error fault walk

theorem run_eq_outcome (walker : Walker α) : walker.run = walker.outcome .start := rfl

/-- Without traces only the outcomes count. -/
theorem Traceless.ext (h : walker.Traceless) (h' : other.Traceless)
    (houtcome : ∀ walk, walker.outcome walk = other.outcome walk) : walker = other := by
  funext walk
  rw [h walk, h' walk, houtcome]

/-! ## One step -/

@[simp] theorem outcome_pure (a : α) (walk : Walk) : outcome (pure a) walk = .ok a := rfl

@[simp] theorem outcome_repeated (walk : Walk) :
    outcome (repeated : Walker α) walk = .error (.cycle walk.path) := rfl

theorem traceless_pure (a : α) : Traceless (pure a : Walker α) :=
  fun _ => rfl

theorem traceless_repeated : Traceless (repeated : Walker α) :=
  fun _ => rfl

/-- What comes next walks on from where a walker succeeded, and a fault ends both. -/
theorem bind_apply (walker : Walker α) (next : α → Walker β) (walk : Walk) :
    (walker >>= next) walk =
      match walker walk with
      | .ok a after => next a after
      | .error fault after => .error fault after := by
  change EStateM.bind walker next walk = _
  rw [EStateM.bind]
  cases walker walk <;> rfl

/-- Behind a walker that leaves no trace, the next one starts from the same walk. -/
theorem outcome_bind (h : walker.Traceless) (next : α → Walker β) (walk : Walk) :
    outcome (walker >>= next) walk = (do (next (← walker.outcome walk)).outcome walk) := by
  rw [outcome, bind_apply, h walk]
  cases walker.outcome walk <;> rfl

/-- Making something of what is found leaves faults as they are. -/
theorem outcome_bind_pure (h : walker.Traceless) (f : α → β) (walk : Walk) :
    outcome (walker >>= fun a => pure (f a)) walk = (walker.outcome walk).map f := by
  rw [outcome_bind h]
  cases walker.outcome walk <;> rfl

theorem Traceless.bind (h : walker.Traceless) {next : α → Walker β}
    (hnext : ∀ a, (next a).Traceless) : (walker >>= next).Traceless := by
  intro walk
  rw [outcome_bind h, bind_apply, h walk]
  cases walker.outcome walk with
  | ok a => exact hnext a walk
  | error fault => rfl

theorem outcome_descend (key : String) (below : Walker α) (walk : Walk) :
    (descend key below).outcome walk = below.outcome (walk.behind key) := by
  unfold outcome descend Walk.behind
  cases below { walk with trail := key :: walk.trail } <;> rfl

theorem Traceless.descend (h : walker.Traceless) (key : String) :
    (descend key walker).Traceless := by
  intro walk
  rw [outcome_descend]
  unfold Walker.descend
  rw [show ({ walk with trail := key :: walk.trail } : Walk) = walk.behind key from rfl, h]
  cases walker.outcome (walk.behind key) <;> rfl

/-- To enter a node that lies around is a cycle; any other one is entered with the node around it. -/
theorem outcome_enter (node : Nat) (inside : Walker α) (walk : Walk) :
    (enter node inside).outcome walk =
      if node ∈ walk.ancestors then .error (.cycle walk.path)
      else inside.outcome (walk.inside node) := by
  unfold outcome enter Walk.inside
  by_cases hmem : node ∈ walk.ancestors
  · simp [hmem, repeated]
  · simp only [List.contains_iff_mem, hmem, if_false]
    cases inside { walk with ancestors := node :: walk.ancestors } <;> rfl

/-- A node is left again, whatever the outcome inside it was. -/
theorem Traceless.enter (h : walker.Traceless) (node : Nat) : (enter node walker).Traceless := by
  intro walk
  rw [outcome_enter]
  unfold Walker.enter
  by_cases hmem : node ∈ walk.ancestors
  · simp [hmem, repeated]
  · simp only [List.contains_iff_mem, hmem, if_false]
    rw [show ({ walk with ancestors := node :: walk.ancestors } : Walk) = walk.inside node from rfl, h]
    cases walker.outcome (walk.inside node) <;> rfl

end Walker

/-! ## Nodes of a graph -/

namespace View

variable {α : Type}

/-- The parts that inference looks at, each behind its key. -/
def parts : View α → List (String × α)
  | .sequence (some first) => [("0", first)]
  | .keyed entries => entries
  | _ => []

/-- Sequences and keyed values are entered. -/
def isContainer : View α → Bool
  | .sequence _ | .keyed _ => true
  | _ => false

theorem isContainer_of_mem_parts {view : View α} {part : String × α} (h : part ∈ view.parts) :
    view.isContainer = true := by
  cases view <;> first | rfl | exact absurd h List.not_mem_nil

end View

/-- The type of a value that is seen as `view`, from the types of its parts. -/
def Policy.typeOf {α : Type} (policy : Policy) (view : View α)
    (types : List (String × FieldType)) : FieldType :=
  match view with
  | .text => policy.leaf .string
  | .numeric => policy.leaf .number
  | .boolean => policy.leaf .boolean
  | .absent => policy.absent
  | .other => policy.leaf .unknown
  | .keyed _ => policy.keyedOf types
  | .sequence _ =>
    match types with
    | [] => policy.emptySequence
    | (_, element) :: _ => policy.sequenceOf element

namespace Graph

open Walker

variable {policy : Policy} {graph : Graph} {observe : Nat → Walker FieldType}

/-- The parts of a node that inference looks at. -/
def parts (graph : Graph) (node : Nat) : List (String × Nat) :=
  (graph.look node).parts

theorem traceless_observeEntries (h : ∀ node, (observe node).Traceless)
    (entries : List (String × Nat)) : (observeEntries observe entries).Traceless := by
  induction entries with
  | nil => exact traceless_pure _
  | cons entry entries ih =>
      apply ((h entry.2).descend entry.1).bind
      intro type
      apply ih.bind
      intro types
      exact traceless_pure _

/-- Entries are observed in their order, each one behind its key. -/
theorem outcome_observeEntries_cons (h : ∀ node, (observe node).Traceless) (key : String)
    (node : Nat) (entries : List (String × Nat)) (walk : Walk) :
    (observeEntries observe ((key, node) :: entries)).outcome walk = (do
      let type ← (observe node).outcome (walk.behind key)
      let types ← (observeEntries observe entries).outcome walk
      return (key, type) :: types) := by
  rw [observeEntries, outcome_bind ((h node).descend key), outcome_descend]
  congr
  funext type
  exact outcome_bind (traceless_observeEntries h entries) _ walk

theorem traceless_observeView (h : ∀ node, (observe node).Traceless) (node : Nat)
    (view : View Nat) : (observeView policy observe node view).Traceless := by
  cases view with
  | sequence first? =>
      cases first? with
      | none => exact (traceless_pure _).enter node
      | some first => exact (((h first).descend "0").bind fun _ => traceless_pure _).enter node
  | keyed entries =>
      exact ((traceless_observeEntries h entries).bind fun _ => traceless_pure _).enter node
  | _ => exact traceless_pure _

/-- What is found at a node, from what is found at its parts. -/
theorem outcome_observeView (h : ∀ node, (observe node).Traceless) (node : Nat) (view : View Nat)
    (walk : Walk) :
    (observeView policy observe node view).outcome walk =
      if view.isContainer = true ∧ node ∈ walk.ancestors then .error (.cycle walk.path)
      else ((observeEntries observe view.parts).outcome (walk.inside node)).map
        (policy.typeOf view) := by
  cases view with
  | sequence first? =>
      cases first? with
      | none => simp [observeView, outcome_enter, View.isContainer, View.parts, observeEntries,
          Policy.typeOf, Except.map]
      | some first =>
          rw [observeView, outcome_enter, outcome_bind_pure ((h first).descend "0"),
            outcome_descend, View.parts, outcome_observeEntries_cons h]
          simp only [View.isContainer, true_and]
          congr 1
          cases (observe first).outcome ((walk.inside node).behind "0") <;> rfl
  | keyed entries =>
      rw [observeView, outcome_enter, outcome_bind_pure (traceless_observeEntries h entries)]
      simp only [View.isContainer, View.parts, true_and]
      rfl
  | _ => rfl

theorem traceless_observeWithin (policy : Policy) (graph : Graph) (bound node : Nat) :
    (observeWithin policy graph bound node).Traceless := by
  induction bound generalizing node with
  | zero => exact traceless_repeated
  | succ bound ih => exact traceless_observeView ih node (graph.look node)

theorem traceless_observe (policy : Policy) (graph : Graph) (node : Nat) :
    (graph.observe policy node).Traceless :=
  traceless_observeWithin policy graph _ node

end Graph

end SampleTypes
