import SampleTypes.Proofs.Build.Sequence
import SampleTypes.Proofs.Graph.Termination

/-!
# Failures leave no trace

Steps that work on a common state may be tried one after the other, and a step that fails is followed by the
next one all the same (`attempts`). What a failed step has done to the state then counts.

Inference undoes what it does on its walk, also where it gives up in the middle of a cycle. So a walk may be
used for any number of questions: each of them is answered as on a walk of its own. A build infers before it
declares, so a build that fails has not touched the store, and those around it are done as without it
(`failures_leave_no_trace`).
-/

namespace SampleTypes

/-- Tries steps one after the other, each from where the one before it ended, whether or not it failed. Lists
their answers and the states that they leave. -/
def attempts {ε σ α : Type} : List (EStateM ε σ α) → σ → List (Except ε α × σ)
  | [], _ => []
  | step :: steps, state =>
    match step state with
    | .ok a after => (.ok a, after) :: attempts steps after
    | .error fault after => (.error fault, after) :: attempts steps after

/-! ## Questions -/

/-- Walks that leave no trace do not see one another. -/
theorem Walker.attempts_eq_map {α : Type} {walkers : List (Walker α)}
    (h : ∀ walker ∈ walkers, walker.Traceless) (walk : Walk) :
    attempts walkers walk = walkers.map fun walker => (walker.outcome walk, walk) := by
  induction walkers with
  | nil => rfl
  | cons walker walkers ih =>
      rw [List.forall_mem_cons] at h
      rw [attempts, h.1 walk, List.map_cons]
      cases walker.outcome walk with
      | ok a => simp only [ih h.2]
      | error fault => simp only [ih h.2]

/-- A node of a graph whose type is asked for. -/
structure Question where
  graph : Graph
  node : Nat

/-- The walk that answers the question. -/
def Question.walker (policy : Policy) (question : Question) : Walker FieldType :=
  question.graph.observe policy question.node

/-- Every question of a sequence is answered as if it were the first one, and leaves the walk as it found
it. -/
theorem attempts_questions (policy : Policy) (questions : List Question) (walk : Walk) :
    attempts (questions.map (·.walker policy)) walk =
      questions.map fun question => ((question.walker policy).outcome walk, walk) := by
  rw [Walker.attempts_eq_map, List.map_map]
  · rfl
  · intro walker hwalker
    obtain ⟨question, -, rfl⟩ := List.mem_map.mp hwalker
    exact Graph.traceless_observe policy question.graph question.node

/-! ## Builds -/

/-- A build as a step on a store: infers the shape of the value, declares it in the store at hand and yields
the name of its declaration. -/
def BuildStep.onto (step : BuildStep) : EStateM InferenceFault Store String := do
  match step.source.inferShape step.options.policy with
  | .error fault => throw fault
  | .ok shape =>
    let store ← get
    let built := declareInto shape step.options store
    set built.store
    return built.root

/-- The value of the step has a shape. -/
def BuildStep.hasShape (step : BuildStep) : Bool :=
  (step.source.inferShape step.options.policy).isOk

variable {step : BuildStep} {steps : List BuildStep} {store after : Store}

/-- The step does what the build does, and nothing at all if that fails. -/
theorem BuildStep.onto_eq (step : BuildStep) (store : Store) :
    step.onto store = match buildInto step.source step.options store with
      | .ok built => .ok built.root built.store
      | .error fault => .error fault store := by
  rw [onto, buildInto]
  cases step.source.inferShape step.options.policy <;> rfl

theorem BuildStep.onto_of_infers {shape : Shape} (h : step.Infers shape) (store : Store) :
    step.onto store = .ok (declareInto shape step.options store).root
      (declareInto shape step.options store).store := by
  rw [onto_eq, buildInto_eq h]

/-- A build whose source has no shape fails before it touches the store. -/
theorem BuildStep.onto_of_error {fault : InferenceFault}
    (h : step.source.inferShape step.options.policy = .error fault) (store : Store) :
    step.onto store = .error fault store := by
  rw [onto, h]
  rfl

/-- **A failed build leaves the store as it was.** -/
theorem BuildStep.eq_of_onto_error {fault : InferenceFault}
    (h : step.onto store = .error fault after) :
    after = store ∧ buildInto step.source step.options store = .error fault := by
  rw [onto_eq] at h
  cases hbuilt : buildInto step.source step.options store with
  | ok built =>
      rw [hbuilt] at h
      cases h
  | error other =>
      rw [hbuilt] at h
      cases h
      exact ⟨rfl, rfl⟩

/-- What the builds that succeed do is what they do on their own, without those that fail. -/
theorem attempts_builds (steps : List BuildStep) (store : Store) :
    (attempts (steps.map BuildStep.onto) store).filter (·.1.isOk) =
      attempts ((steps.filter BuildStep.hasShape).map BuildStep.onto) store := by
  induction steps generalizing store with
  | nil => rfl
  | cons step steps ih =>
      cases hshape : step.source.inferShape step.options.policy with
      | error fault =>
          have hskip : step.hasShape = false := by
            rw [BuildStep.hasShape, hshape]
            rfl
          have honto := BuildStep.onto_of_error hshape store
          simp only [List.map_cons, attempts, honto, List.filter_cons, hskip]
          exact ih store
      | ok shape =>
          have hkeep : step.hasShape = true := by
            rw [BuildStep.hasShape, hshape]
            rfl
          have honto := BuildStep.onto_of_infers hshape store
          simp only [List.map_cons, attempts, honto, List.filter_cons, hkeep, if_true]
          rw [← ih]
          rfl

/-! ## All together -/

/-- **Failures leave no trace.** Questions that are asked on one walk leave it as it was, whatever becomes of
them, and on a walk that has not begun each of them is answered as if it were the first. A build that fails
leaves the store as it was, and the builds before and behind it are done as without it. -/
theorem failures_leave_no_trace (policy : Policy) :
    (∀ (questions : List Question) (walk : Walk),
      attempts (questions.map (·.walker policy)) walk =
        questions.map fun question => ((question.walker policy).outcome walk, walk)) ∧
    (∀ questions : List Question,
      attempts (questions.map (·.walker policy)) .start =
        questions.map fun question => (question.graph.infer policy question.node, .start)) ∧
    (∀ (step : BuildStep) (store after : Store) (fault : InferenceFault),
      step.onto store = .error fault after →
        after = store ∧ buildInto step.source step.options store = .error fault) ∧
    ∀ (steps : List BuildStep) (store : Store),
      (attempts (steps.map BuildStep.onto) store).filter (·.1.isOk) =
        attempts ((steps.filter BuildStep.hasShape).map BuildStep.onto) store := by
  refine ⟨attempts_questions policy, ?_, ?_, attempts_builds⟩
  · intro questions
    rw [attempts_questions policy]
    rfl
  · intro step store after fault h
    exact BuildStep.eq_of_onto_error h

/-- The root is met again two keys below it, and the question for its first entry comes after that. -/
def loopThenEntry : List Question :=
  [⟨⟨#[.keyed [("a", 1), ("b", 2)], .keyed [("x", 3)], .sequence (some 0), .text]⟩, 0⟩,
    ⟨⟨#[.text, .keyed [("y", 0)]]⟩, 1⟩]

/-- A node that is its own part. -/
def loopStep : BuildStep :=
  ⟨.node ⟨#[.keyed [("a", 0)]]⟩ 0, {}⟩

theorem failures_leave_no_trace_loopThenEntry :
    attempts (loopThenEntry.map (·.walker {})) .start =
        [(.error (.cycle ["b", "0"]), .start),
          (.ok ⟨.object, "object", false, false, some [("y", ({} : Policy).leaf .string)]⟩, .start)] ∧
      ∀ store, ∃ fault, loopStep.onto store = .error fault store ∧
        buildInto loopStep.source loopStep.options store = .error fault := by
  obtain ⟨-, hquestions, hbuild, -⟩ := failures_leave_no_trace {}
  constructor
  · rw [hquestions]
    rfl
  · intro store
    have hloop : loopStep.onto store = .error (.cycle ["a"]) store := rfl
    exact ⟨_, hloop, (hbuild _ _ _ _ hloop).2⟩

end SampleTypes
