import SampleTypes.Proofs.Build.Choices

/-!
# Building again

Once a value is built, the store knows its shape, and so does every store that is made of it later: the
declaration that a look-up finds stays the first match, whatever is added behind it. So a value that is
built again, or another one whose shape is the same, gets the name that was given the first time and leaves
no trace in the store, whatever its options say of names and syntax (`rebuilding_changes_nothing`).

What makes a build pass without a trace is that its shape is known (`buildInto_of_known`). A whole sequence
of such builds leaves the store as it is, and each of them yields what it would yield alone
(`buildEach_of_settled`).
-/

namespace SampleTypes

variable {step again : BuildStep} {steps replay : List BuildStep} {shape other : Shape}
  {store seed : Store} {declaration : Declaration}

/-- Both values have a shape, and these are the same as rendered. -/
def BuildStep.Echoes (again step : BuildStep) : Prop :=
  ∃ shape other, again.Infers shape ∧ step.Infers other ∧ shape.same other = true

/-- Nothing is added for a shape that the store knows. -/
theorem buildInto_of_known (h : step.Infers shape) (hfind : store.find? shape = some declaration) :
    buildInto step.source step.options store =
      .ok ⟨declaration.name, store, [.reused declaration.name]⟩ := by
  have hstart : (Synthesis.start store).store.find? shape = some declaration := hfind
  rw [buildInto_eq h, declareInto, Synthesis.declare_of_known hstart]
  rfl

/-! ## Later stores -/

/-- Builds only add to a store, whether or not all of them succeed. -/
theorem buildEach_extends (steps : List BuildStep) (store : Store) :
    (buildEach steps store).Extends store := by
  refine buildEach_induction (motive := fun later => later.Extends store) (.refl store) ?_
  intro step _ shape later hshape hextends
  exact hextends.trans (declareInto_extends hshape.inferred.proper step.options later)

/-- The shape of a value that was built is still known after all later builds, by the declaration whose
name the build returned. -/
theorem exists_find?_buildEach (hshape : shape.Proper) (options : Options) (store : Store)
    (later : List BuildStep) :
    ∃ d, (buildEach later (declareInto shape options store).store).find? shape = some d ∧
      d.name = (declareInto shape options store).root := by
  obtain ⟨d, hd, hname⟩ := declareInto_find? hshape options store
  exact ⟨d, (buildEach_extends later _).find? hd, hname⟩

/-- All shapes of values in a sequence of builds are known when it is over. -/
theorem exists_find?_of_mem (hmem : step ∈ steps) (hshape : step.Infers shape) (seed : Store) :
    ∃ d, (buildEach steps seed).find? shape = some d := by
  obtain ⟨before, later, rfl⟩ := List.append_of_mem hmem
  rw [buildEach_append, buildEach_cons_of_infers hshape]
  obtain ⟨d, hd, -⟩ := exists_find?_buildEach hshape.inferred.proper step.options
    (buildEach before seed) later
  exact ⟨d, hd⟩

/-! ## Builds that pass without a trace -/

/-- If every value either has no shape or one that the store knows, builds leave the store as it is, and
each of them yields what it yields alone. -/
theorem buildEach_of_settled
    (h : ∀ again ∈ replay, ∀ shape, again.Infers shape → ∃ d, store.find? shape = some d) :
    buildEach replay store = store ∧ buildResults replay store =
      replay.map fun again => buildInto again.source again.options store := by
  induction replay with
  | nil => exact ⟨rfl, rfl⟩
  | cons again replay ih =>
      rw [List.forall_mem_cons] at h
      obtain ⟨hstore, hresults⟩ := ih h.2
      cases hinfer : again.source.inferShape again.options.policy with
      | error fault =>
          have hfails : buildInto again.source again.options store = .error fault := by
            rw [buildInto, hinfer]
            rfl
          refine ⟨?_, ?_⟩
          · rw [buildEach_cons_of_error hinfer, hstore]
          · rw [buildResults, List.map_cons, hfails, hresults]
      | ok shape =>
          obtain ⟨d, hd⟩ := h.1 shape hinfer
          have hbuilt := buildInto_of_known hinfer hd
          -- The shape is known, so the store stays and the hypothesis with it.
          have hkept : (declareInto shape again.options store).store = store := by
            rw [buildInto_eq hinfer] at hbuilt
            rw [Except.ok.inj hbuilt]
          refine ⟨?_, ?_⟩
          · rw [buildEach_cons_of_infers hinfer, hkept, hstore]
          · rw [buildResults, List.map_cons, hbuilt]
            exact congrArg (_ :: ·) hresults

/-- **Building again changes nothing.** Once a value is built into a store, any later build of a value
whose shape is the same returns the name that was returned then and leaves the store exactly as it is; all
that is noted is that the declaration is used again. What was built in between, and with which options, does
not matter. So a batch of builds may be replayed, in any order, with repetitions and with parts left out: no
build of the replay changes anything, and each of them yields what it yields right behind the batch. -/
theorem rebuilding_changes_nothing (seed : Store) :
    (∀ (step : BuildStep) (built : Built),
      buildInto step.source step.options seed = .ok built →
      ∀ (later : List BuildStep) (again : BuildStep), again.Echoes step →
        buildInto again.source again.options (buildEach later built.store) =
          .ok ⟨built.root, buildEach later built.store, [.reused built.root]⟩) ∧
    ∀ batch replay : List BuildStep, (∀ again ∈ replay, again ∈ batch) →
      buildEach replay (buildEach batch seed) = buildEach batch seed ∧
        buildResults replay (buildEach batch seed) = replay.map fun again =>
          buildInto again.source again.options (buildEach batch seed) := by
  refine ⟨fun step built hbuilt later again hechoes => ?_, fun batch replay hreplay => ?_⟩
  · obtain ⟨shape, other, hshape, hother, hsame⟩ := hechoes
    obtain ⟨first, hfirst, rfl⟩ := infers_of_buildInto hbuilt
    cases hfirst.symm.trans hother
    have hp := hother.inferred.proper
    obtain ⟨d, hd, hname⟩ := exists_find?_buildEach hp step.options seed later
    rw [← hname]
    -- The later value is looked up by its own shape, which finds what the first one finds.
    apply buildInto_of_known hshape
    rw [Store.find?_congr hshape.inferred.proper hp hsame, hd]
  · apply buildEach_of_settled
    intro again hagain shape hshape
    exact exists_find?_of_mem (hreplay again hagain) hshape seed

/-- Two declarations of one shape, as a store may have them that was put together by hand. -/
def twiceDeclared : Store :=
  ⟨[⟨"Point", [("x", ({} : Policy).leaf .number)], ""⟩,
    ⟨"Dot", [("x", ({} : Policy).leaf .number)], ""⟩]⟩

/-- A line between points, and one that is told in another order and wishes for another name. -/
def lineStep : BuildStep :=
  ⟨.document (.object [("from", .object [("x", .number (.natural 1))]), ("label", .null)]),
    { rootWish := some "Line" }⟩

def lineAgainStep : BuildStep :=
  ⟨.document (.object [("label", .null), ("from", .object [("x", .number (.negative 2))])]),
    { rootWish := some "Edge", mode := ⟨true, true⟩, collision := .preserve }⟩

theorem rebuilding_changes_nothing_line :
    ∃ built, buildInto lineStep.source lineStep.options twiceDeclared = .ok built ∧
      lineAgainStep.Echoes lineStep ∧
      (∀ later, buildInto lineAgainStep.source lineAgainStep.options
          (buildEach later built.store) =
        .ok ⟨built.root, buildEach later built.store, [.reused built.root]⟩) ∧
      buildEach [lineAgainStep, lineStep, lineAgainStep]
          (buildEach [lineStep, lineAgainStep] twiceDeclared) =
        buildEach [lineStep, lineAgainStep] twiceDeclared := by
  have hbuilt := buildInto_eq (rfl : lineStep.Infers _) twiceDeclared
  have hechoes : lineAgainStep.Echoes lineStep := ⟨_, _, rfl, rfl, by decide⟩
  obtain ⟨hagain, hreplay⟩ := rebuilding_changes_nothing twiceDeclared
  refine ⟨_, hbuilt, hechoes, fun later => hagain _ _ hbuilt later _ hechoes, ?_⟩
  exact (hreplay _ _ (by simp)).1

end SampleTypes
