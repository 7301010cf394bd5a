import SampleTypes.Proofs.Inference
import SampleTypes.Proofs.Synthesis.Contents

/-!
# Builds, one after the other

`buildAll` builds one value after the other into a store, each with options of its own. It succeeds as
soon as every value has a shape (`exists_buildAll`), and it can be cut into parts (`buildAll_append_eq_ok`).
`buildEach` goes on where a build fails. What one build does is what declaring the value's shape does.
-/

namespace SampleTypes

/-- A value to build from, and the options of its build. -/
structure BuildStep where
  source : Source
  options : Options

namespace BuildStep

def Infers (step : BuildStep) (shape : Shape) : Prop :=
  step.source.inferShape step.options.policy = .ok shape

theorem Infers.inferred {step : BuildStep} {shape : Shape} (h : step.Infers shape) :
    shape.Inferred step.options.policy.labels :=
  Source.inferred_of_inferShape h

/-- The kinds' own labels are used, and the name wished for the whole value is none of them. -/
structure OwnLabels (step : BuildStep) : Prop where
  labels : ∀ kind, step.options.policy.labels.label kind = kind.label
  root : TypeKind.ofLabel? step.options.rootName = none

end BuildStep

/-- Builds one value after the other, and lists the names of the values' declarations. -/
def buildAll : List BuildStep → Store → Except InferenceFault (List String × Store)
  | [], store => .ok ([], store)
  | step :: steps, store => do
    let built ← buildInto step.source step.options store
    let (roots, final) ← buildAll steps built.store
    return (built.root :: roots, final)

variable {step : BuildStep} {steps : List BuildStep} {shape : Shape} {store final : Store}
  {options : Options}

/-! ## One build -/

/-- The declaration of a whole value, and the synthesis that leads to it. -/
def declareRoot (shape : Shape) (options : Options) (store : Store) : Declaration × Synthesis :=
  (Synthesis.start store).declare options.collision shape (.root options.rootName options.mode)

/-- A build of a source with a shape succeeds with what is declared for it. -/
theorem buildInto_eq (h : step.Infers shape) (store : Store) :
    buildInto step.source step.options store = .ok (declareInto shape step.options store) := by
  rw [buildInto, h]
  rfl

/-- Only a source with a shape can be built, and what is built is declared for that shape. -/
theorem infers_of_buildInto {built : Built}
    (h : buildInto step.source step.options store = .ok built) :
    ∃ shape, step.Infers shape ∧ built = declareInto shape step.options store := by
  rw [buildInto] at h
  cases hinfer : step.source.inferShape step.options.policy with
  | error fault =>
      rw [hinfer] at h
      cases h
  | ok shape =>
      rw [hinfer] at h
      cases h
      exact ⟨shape, hinfer, rfl⟩

theorem declareInto_extends (hp : shape.Proper) (options : Options) (store : Store) :
    (declareInto shape options store).store.Extends store :=
  Synthesis.declare_track (Synthesis.tracks_extends _) hp _ (Synthesis.start store)

/-- The value's shape is known afterwards, and its declaration has the name that is returned. -/
theorem declareInto_find? (hp : shape.Proper) (options : Options) (store : Store) :
    ∃ d, (declareInto shape options store).store.find? shape = some d ∧
      d.name = (declareInto shape options store).root :=
  ⟨_, Synthesis.declare_find? _ hp _ (Synthesis.start store), rfl⟩

/-! ## Many builds -/

/-- Builds succeed if the first one has a shape and the others succeed on what it leaves. -/
theorem buildAll_cons_eq_ok {roots : List String} :
    buildAll (step :: steps) store = .ok (roots, final) ↔
      ∃ shape rest, step.Infers shape ∧
        buildAll steps (declareInto shape step.options store).store = .ok (rest, final) ∧
        roots = (declareInto shape step.options store).root :: rest := by
  rw [buildAll]
  constructor
  · intro h
    cases hbuilt : buildInto step.source step.options store with
    | error fault =>
        rw [hbuilt] at h
        cases h
    | ok built =>
        obtain ⟨shape, hshape, rfl⟩ := infers_of_buildInto hbuilt
        rw [hbuilt] at h
        change (buildAll steps (declareInto shape step.options store).store >>= _) = _ at h
        -- A list of builds fails as soon as one of them does.
        cases hrest : buildAll steps (declareInto shape step.options store).store with
        | error fault =>
            rw [hrest] at h
            cases h
        | ok rest =>
            rw [hrest] at h
            cases h
            exact ⟨shape, rest.1, hshape, hrest, rfl⟩
  · rintro ⟨shape, rest, hshape, hrest, rfl⟩
    rw [buildInto_eq hshape]
    change (buildAll steps (declareInto shape step.options store).store >>= _) = _
    rw [hrest]
    rfl

/-- Builds succeed if every value has a shape. -/
theorem exists_buildAll (h : ∀ step ∈ steps, ∃ shape, step.Infers shape) (store : Store) :
    ∃ roots final, buildAll steps store = .ok (roots, final) := by
  induction steps generalizing store with
  | nil => exact ⟨[], store, rfl⟩
  | cons step steps ih =>
      rw [List.forall_mem_cons] at h
      obtain ⟨⟨shape, hshape⟩, hrest⟩ := h
      obtain ⟨roots, final, heq⟩ := ih hrest (declareInto shape step.options store).store
      exact ⟨_, final, buildAll_cons_eq_ok.mpr ⟨shape, roots, hshape, heq, rfl⟩⟩

/-- Builds in two parts. -/
theorem buildAll_append_eq_ok {earlier later : List BuildStep} {roots : List String} :
    buildAll (earlier ++ later) store = .ok (roots, final) ↔
      ∃ roots₁ middle roots₂, buildAll earlier store = .ok (roots₁, middle) ∧
        buildAll later middle = .ok (roots₂, final) ∧ roots = roots₁ ++ roots₂ := by
  induction earlier generalizing store roots with
  | nil =>
      constructor
      · intro h
        exact ⟨[], store, roots, rfl, h, rfl⟩
      · rintro ⟨roots₁, middle, roots₂, hearlier, hlater, rfl⟩
        cases hearlier
        exact hlater
  | cons step earlier ih =>
      rw [List.cons_append, buildAll_cons_eq_ok]
      constructor
      · rintro ⟨shape, rest, hshape, hrest, rfl⟩
        obtain ⟨roots₁, middle, roots₂, hearlier, hlater, rfl⟩ := ih.mp hrest
        exact ⟨_, middle, roots₂, buildAll_cons_eq_ok.mpr ⟨shape, roots₁, hshape, hearlier, rfl⟩,
          hlater, rfl⟩
      · rintro ⟨roots₁, middle, roots₂, hearlier, hlater, rfl⟩
        obtain ⟨shape, rest, hshape, hrest, rfl⟩ := buildAll_cons_eq_ok.mp hearlier
        exact ⟨shape, rest ++ roots₂, hshape, ih.mpr ⟨rest, middle, roots₂, hrest, hlater, rfl⟩,
          rfl⟩

/-- What is in the store before a sequence of builds stays where it is. -/
theorem buildAll_extends {roots : List String} (h : buildAll steps store = .ok (roots, final)) :
    final.Extends store := by
  induction steps generalizing store roots with
  | nil =>
      cases h
      exact .refl _
  | cons step steps ih =>
      obtain ⟨shape, rest, hshape, hrest, rfl⟩ := buildAll_cons_eq_ok.mp h
      exact (declareInto_extends hshape.inferred.proper step.options store).trans (ih hrest)

theorem length_of_buildAll {roots : List String} (h : buildAll steps store = .ok (roots, final)) :
    roots.length = steps.length := by
  induction steps generalizing store roots with
  | nil =>
      cases h
      rfl
  | cons step steps ih =>
      obtain ⟨shape, rest, -, hrest, rfl⟩ := buildAll_cons_eq_ok.mp h
      rw [List.length_cons, List.length_cons, ih hrest]

/-- The name that a build in a sequence returns, and what is left of the build in the end. -/
theorem exists_of_mem_zip {roots : List String} (h : buildAll steps store = .ok (roots, final))
    {root : String} (hmem : (step, root) ∈ steps.zip roots) :
    ∃ shape before, step.Infers shape ∧ root = (declareInto shape step.options before).root ∧
      final.Extends (declareInto shape step.options before).store := by
  induction steps generalizing store roots with
  | nil => cases hmem
  | cons first steps ih =>
      obtain ⟨shape, rest, hshape, hrest, rfl⟩ := buildAll_cons_eq_ok.mp h
      rcases List.mem_cons.mp hmem with heq | hmem
      · cases heq
        exact ⟨shape, store, hshape, rfl, buildAll_extends hrest⟩
      · exact ih hrest hmem

/-! ## Builds that may fail -/

/-- Builds one value after the other. A value without a shape leaves the store as it is. -/
def buildEach (steps : List BuildStep) (store : Store) : Store :=
  steps.foldl (fun store step =>
    match buildInto step.source step.options store with
    | .ok built => built.store
    | .error _ => store) store

theorem buildEach_cons_of_error {fault : InferenceFault}
    (h : step.source.inferShape step.options.policy = .error fault) :
    buildEach (step :: steps) store = buildEach steps store := by
  have hfails : buildInto step.source step.options store = .error fault := by
    rw [buildInto, h]
    rfl
  rw [buildEach, List.foldl_cons, hfails]
  rfl

theorem buildEach_cons_of_infers (h : step.Infers shape) :
    buildEach (step :: steps) store = buildEach steps (declareInto shape step.options store).store := by
  rw [buildEach, List.foldl_cons, buildInto_eq h]
  rfl

theorem buildEach_append (earlier later : List BuildStep) (store : Store) :
    buildEach (earlier ++ later) store = buildEach later (buildEach earlier store) :=
  List.foldl_append

/-- What is kept whenever a shape is declared is kept by builds, whether or not all of them succeed. -/
theorem buildEach_induction {motive : Store → Prop} (hstart : motive store)
    (hstep : ∀ step ∈ steps, ∀ shape store, step.Infers shape → motive store →
      motive (declareInto shape step.options store).store) : motive (buildEach steps store) := by
  induction steps generalizing store with
  | nil => exact hstart
  | cons step steps ih =>
      rw [List.forall_mem_cons] at hstep
      cases hshape : step.source.inferShape step.options.policy with
      | error fault =>
          rw [buildEach_cons_of_error hshape]
          exact ih hstart hstep.2
      | ok shape =>
          rw [buildEach_cons_of_infers hshape]
          exact ih (hstep.1 shape store hshape hstart) hstep.2

end SampleTypes
