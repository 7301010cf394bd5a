import SampleTypes.Proofs.Build.Sequence

/-!
# What builds leave in an empty store

A shape is demanded by a sequence of builds if it is the shape of one of the values, or nested in one.
The store that the builds leave has exactly one declaration for every class of demanded shapes and no
other declarations, and no build changes what earlier ones have left (`exact_contents`).

The invariant is `Store.Exact`. It is kept by one build (`Store.Exact.declareInto`), whether or not the
value's shape is known already: what is added are shapes inside the value's, the store stays closed,
and so it knows all of them.
-/

namespace SampleTypes

variable {demanded : Shape → Prop} {store final : Store} {shape : Shape} {steps : List BuildStep}

/-- The shape of one of the values, or one nested in it. -/
def Demanded (steps : List BuildStep) (shape : Shape) : Prop :=
  ∃ step ∈ steps, ∃ root, step.Infers root ∧ shape.Within root

/-- The store holds declarations of demanded shapes and no others, all that is demanded is known, and
no two declarations are the same. -/
structure Store.Exact (demanded : Shape → Prop) (store : Store) : Prop where
  unique : store.Unique
  closed : store.Closed
  sound : ∀ d ∈ store.entries, demanded d.shape
  complete : ∀ shape, demanded shape → ∃ d, store.find? shape = some d

theorem Store.exact_empty : Store.empty.Exact fun _ => False where
  unique := unique_empty
  closed := closed_empty
  sound := fun _ h => absurd h List.not_mem_nil
  complete := fun _ h => h.elim

/-- One build adds the shapes inside the value's to those that are demanded. -/
theorem Store.Exact.declareInto (h : store.Exact demanded)
    (hdemanded : ∀ shape, demanded shape → shape.Proper ∧ shape.Regular) (hp : shape.Proper)
    (hr : shape.Regular) (options : Options) :
    Exact (fun inner => demanded inner ∨ inner.Within shape)
      (declareInto shape options store).store where
  unique := Synthesis.declare_track (Synthesis.tracks_unique _) hp _ (.start store) h.unique
  closed := Synthesis.declare_track (Synthesis.tracks_closed _) hp _ (.start store) h.closed
  sound := by
    intro d hd
    exact (Synthesis.declare_within _ hp _ (.start store) hd).imp_left (h.sound d)
  complete := by
    -- A known shape is not written again, so what lies inside it is known because the store is closed.
    have hclosed := Synthesis.declare_track (Synthesis.tracks_closed options.collision) hp
      (.root options.rootName options.mode) (.start store) h.closed
    have hentries : ∀ d ∈ (SampleTypes.declareInto shape options store).store.entries,
        d.shape.Proper ∧ d.shape.Regular := by
      intro d hd
      rcases Synthesis.declare_within _ hp _ (.start store) hd with hd | hwithin
      · exact hdemanded _ (h.sound d hd)
      · exact ⟨hwithin.proper hp, hwithin.regular hr⟩
    rintro inner (hinner | hwithin)
    · obtain ⟨d, hd⟩ := h.complete inner hinner
      exact ⟨d, (declareInto_extends hp options store).find? hd⟩
    · obtain ⟨d, hd, -⟩ := declareInto_find? hp options store
      exact hclosed.find?_of_within hentries hp hwithin ⟨d, hd⟩

theorem Store.Exact.congr {demanded' : Shape → Prop} (h : store.Exact demanded)
    (hiff : ∀ shape, demanded shape ↔ demanded' shape) : store.Exact demanded' where
  unique := h.unique
  closed := h.closed
  sound d hd := (hiff d.shape).mp (h.sound d hd)
  complete shape hshape := h.complete shape ((hiff shape).mpr hshape)

/-- Demanded shapes were inferred, so they are proper and regular. -/
theorem Demanded.proper_regular (h : Demanded steps shape) : shape.Proper ∧ shape.Regular := by
  obtain ⟨step, -, root, hroot, hwithin⟩ := h
  exact ⟨hwithin.proper hroot.inferred.proper, hwithin.regular hroot.inferred.regular⟩

/-- What a store is exact for grows by what the builds demand. -/
theorem Store.Exact.buildAll {roots : List String} (h : store.Exact demanded)
    (hdemanded : ∀ shape, demanded shape → shape.Proper ∧ shape.Regular)
    (hbuild : buildAll steps store = .ok (roots, final)) :
    final.Exact fun shape => demanded shape ∨ Demanded steps shape := by
  induction steps generalizing store demanded roots with
  | nil =>
      cases hbuild
      refine h.congr fun shape => ?_
      simp [Demanded]
  | cons step steps ih =>
      obtain ⟨root, rest, hroot, hrest, -⟩ := buildAll_cons_eq_ok.mp hbuild
      have hp := hroot.inferred.proper
      have hr := hroot.inferred.regular
      -- The store after the first build is exact for what was demanded and the shapes inside its root.
      refine (ih (h.declareInto hdemanded hp hr step.options) ?_ hrest).congr fun shape => ?_
      · rintro shape (hshape | hwithin)
        · exact hdemanded shape hshape
        · exact ⟨hwithin.proper hp, hwithin.regular hr⟩
      · have hone : shape.Within root ↔ ∃ other, step.Infers other ∧ shape.Within other := by
          refine ⟨fun hwithin => ⟨root, hroot, hwithin⟩, ?_⟩
          rintro ⟨other, hother, hwithin⟩
          rw [BuildStep.Infers, hroot] at hother
          cases hother
          exact hwithin
        rw [hone, or_assoc]
        simp [Demanded]

/-- From the empty store, a list of builds leaves exactly what it demands. -/
theorem Store.exact_of_buildAll {roots : List String}
    (h : SampleTypes.buildAll steps .empty = .ok (roots, final)) : final.Exact (Demanded steps) :=
  (exact_empty.buildAll (fun _ h => h.elim) h).congr fun shape => by simp

/-- **What a sequence of builds leaves in an empty store.** If every value has a shape, the builds
succeed, whatever their options are; each of them only adds to what the store held before it; every
shape that is demanded has exactly one declaration like it; and every declaration is that of a demanded
shape. -/
theorem exact_contents (steps : List BuildStep)
    (h : ∀ step ∈ steps, ∃ shape, step.Infers shape) :
    ∃ roots final, buildAll steps .empty = .ok (roots, final) ∧
      (∀ earlier step later, steps = earlier ++ step :: later → ∃ roots before built,
        buildAll earlier .empty = .ok (roots, before) ∧
        buildInto step.source step.options before = .ok built ∧
        built.store.Extends before ∧ final.Extends built.store) ∧
      (∀ shape, Demanded steps shape →
        ∃! index, ∃ d, final.get? index = some d ∧ d.shape.same shape = true) ∧
      ∀ d ∈ final.entries, Demanded steps d.shape := by
  obtain ⟨roots, final, hbuild⟩ := exists_buildAll h .empty
  have hexact := Store.exact_of_buildAll hbuild
  refine ⟨roots, final, hbuild, ?_, ?_, hexact.sound⟩
  · rintro earlier step later rfl
    obtain ⟨roots₁, before, roots₂, hearlier, hlater, -⟩ := buildAll_append_eq_ok.mp hbuild
    obtain ⟨shape, rest, hshape, hrest, -⟩ := buildAll_cons_eq_ok.mp hlater
    exact ⟨roots₁, before, declareInto shape step.options before, hearlier,
      buildInto_eq hshape before, declareInto_extends hshape.inferred.proper step.options before,
      buildAll_extends hrest⟩
  · intro shape hshape
    refine hexact.unique.existsUnique ?_ hshape.proper_regular.1 (hexact.complete shape hshape)
    exact fun d hd => (hexact.sound d hd).proper_regular.1

/-- Two documents with a shape in common. The second one is built by other rules. -/
def commonShape : List BuildStep :=
  [⟨.document (.object [("a", .object [("x", .number (.natural 1))])]), {}⟩,
   ⟨.document (.object [("b", .array [.object [("x", .number (.natural 2))]]), ("c", .null)]),
    { rootWish := some "A", collision := .preserve }⟩]

theorem exact_contents_commonShape :
    (∀ step ∈ commonShape, ∃ shape, step.Infers shape) ∧
    ∃ roots final, buildAll commonShape .empty = .ok (roots, final) ∧
      (∀ shape, Demanded commonShape shape →
        ∃! index, ∃ d, final.get? index = some d ∧ d.shape.same shape = true) ∧
      ∀ d ∈ final.entries, Demanded commonShape d.shape := by
  have h : ∀ step ∈ commonShape, ∃ shape, step.Infers shape := by
    simp only [commonShape, List.forall_mem_cons, List.not_mem_nil, IsEmpty.forall_iff,
      implies_true, and_true]
    exact ⟨⟨_, rfl⟩, ⟨_, rfl⟩⟩
  obtain ⟨roots, final, hbuild, -, hone, hsound⟩ := exact_contents commonShape h
  exact ⟨h, roots, final, hbuild, hone, hsound⟩

end SampleTypes
