import SampleTypes.Proofs.Build.Sequence
import SampleTypes.Proofs.Synthesis.Names

/-!
# References resolve

From any store, any number of shapes may be declared with fresh names, by one synthesis or by several
ones, one after the other (`Synthesis.Reached`). Every declaration that is new then has a name of its
own, and its fields refer to declarations before it. As the store only grows, a reference that is looked
up by name, at any later time, leads to the shape that it was made for (`names_and_references`).
-/

namespace SampleTypes

variable {seed store later : Store} {s : Synthesis} {shape : Shape} {index : Nat} {d : Declaration}

namespace Synthesis

/-- A synthesis that has declared shapes with fresh names, in any contexts, starting from a store; in
between it may have been taken up anew. -/
inductive Reached (seed : Store) : Synthesis → Prop
  | start : Reached seed (.start seed)
  | declare {s : Synthesis} (h : Reached seed s) {shape : Shape} (hp : shape.Proper)
      (context : Context) : Reached seed (s.declare .disambiguate shape context).2
  | restart {s : Synthesis} (h : Reached seed s) : Reached seed (.start s.store)

/-- What holds of every synthesis that is reached. -/
structure Invariant (seed : Store) (s : Synthesis) : Prop where
  store_extends : s.store.Extends seed
  names : ∃ added, s.store.names = seed.names ++ added ∧ added.Nodup ∧
    ∀ name ∈ added, name ∉ seed.names ∧ Text.isBlank name = false
  taken : ∀ name ∈ s.store.names, name ∈ s.taken
  refers : ∀ index d, seed.length ≤ index → s.store.get? index = some d → s.store.Refers index d

theorem Invariant.start (seed : Store) : Invariant seed (.start seed) where
  store_extends := .refl _
  names := ⟨[], by simp [Synthesis.start], List.nodup_nil, by simp⟩
  taken _ h := h
  refers index d hle hget := by
    have hlt : index < seed.length := (List.getElem?_eq_some_iff.mp hget).1
    omega

/-- A synthesis may be started anew from the store that another one has left. -/
theorem Invariant.restart (h : Invariant seed s) : Invariant seed (.start s.store) where
  store_extends := h.store_extends
  names := h.names
  taken _ h := h
  refers := h.refers

/-- To declare a shape keeps the invariant: the names that are added are new ones. -/
theorem Invariant.declare (h : Invariant seed s) (hp : shape.Proper) (context : Context) :
    Invariant seed (s.declare .disambiguate shape context).2 where
  store_extends :=
    h.store_extends.trans (declare_track (tracks_extends _) hp context s)
  names := by
    obtain ⟨added, hnames, hnodup, hadded⟩ := h.names
    obtain ⟨new, hgrows⟩ := declare_track tracks_grows hp context s
    -- Names in the store are taken, whether they come from the seed or not.
    have hfree : ∀ name ∈ new, name ∉ s.store.names := by
      intro name hname hmem
      exact hgrows.free name hname (h.taken name hmem)
    refine ⟨added ++ new, by rw [hgrows.names_eq, hnames, List.append_assoc], ?_, ?_⟩
    · refine List.nodup_append.mpr ⟨hnodup, hgrows.nodup, ?_⟩
      rintro name hname _ hother rfl
      exact hfree name hother (hnames ▸ List.mem_append_right _ hname)
    · intro name hname
      rcases List.mem_append.mp hname with hname | hname
      · exact hadded name hname
      · refine ⟨fun hmem => ?_, hgrows.notBlank name hname⟩
        exact hfree name hname (hnames ▸ List.mem_append_left _ hmem)
  taken := by
    obtain ⟨new, hgrows⟩ := declare_track tracks_grows hp context s
    intro name hname
    rw [hgrows.names_eq] at hname
    rw [hgrows.taken_iff]
    exact (List.mem_append.mp hname).imp_left (h.taken name)
  refers := by
    obtain ⟨he, hrefers⟩ := declare_track (tracks_refers .disambiguate) hp context s
    intro index d hle hget
    by_cases hlt : index < s.store.length
    · exact he.refers (h.refers index d hle (he.get?_of_lt hlt hget))
    · exact hrefers index d (Nat.le_of_not_lt hlt) hget

/-- The invariant holds of every synthesis that is reached. -/
theorem Reached.invariant (h : Reached seed s) : Invariant seed s := by
  induction h with
  | start => exact .start seed
  | declare _ hp context ih => exact ih.declare hp context
  | restart _ ih => exact ih.restart

/-! ## Names -/

namespace Invariant

variable (h : Invariant seed s)

include h

/-- New names are neither blank nor in use anywhere else. -/
theorem name_of_new (hle : seed.length ≤ index) (hget : s.store.get? index = some d) :
    Text.isBlank d.name = false ∧
      ∀ other e, other ≠ index → s.store.get? other = some e → e.name ≠ d.name := by
  obtain ⟨added, hnames, hnodup, hadded⟩ := h.names
  have hlength : seed.names.length = seed.length := List.length_map _
  have hat : ∀ i e, s.store.get? i = some e → (seed.names ++ added)[i]? = some e.name := by
    intro i e hi
    rw [← hnames, Store.names, List.getElem?_map]
    exact congrArg (Option.map (·.name)) hi
  have hnew : added[index - seed.names.length]? = some d.name := by
    rw [← List.getElem?_append_right (hlength ▸ hle)]
    exact hat index d hget
  obtain ⟨hnotseed, hblank⟩ := hadded d.name (List.mem_of_getElem? hnew)
  -- An equal name would stand among the seed's names or at another place of `added`.
  refine ⟨hblank, fun other e hne hother heq => ?_⟩
  have hsame := hat other e hother
  rw [heq] at hsame
  by_cases hlt : other < seed.names.length
  · rw [List.getElem?_append_left hlt] at hsame
    exact hnotseed (List.mem_of_getElem? hsame)
  · rw [List.getElem?_append_right (Nat.le_of_not_lt hlt)] at hsame
    obtain ⟨hi, hgeti⟩ := List.getElem?_eq_some_iff.mp hnew
    obtain ⟨hj, hgetj⟩ := List.getElem?_eq_some_iff.mp hsame
    have := (List.Nodup.getElem_inj_iff hnodup).mp (hgeti.trans hgetj.symm)
    omega

/-- If the names of the seed are distinct, all names are. -/
theorem names_nodup (hseed : seed.names.Nodup) : s.store.names.Nodup := by
  obtain ⟨added, hnames, hnodup, hadded⟩ := h.names
  rw [hnames]
  refine List.nodup_append.mpr ⟨hseed, hnodup, ?_⟩
  rintro name hname _ hother rfl
  exact (hadded name hother).1 hname

end Invariant

/-! ## References -/

end Synthesis

/-- With distinct names, the name of a shape's declaration leads back to the shape, in the store and in
every later one. -/
theorem Store.Extends.byName?_of_find? (he : later.Extends store) (hnames : store.names.Nodup)
    (hfind : store.find? shape = some d) :
    ∃ e, later.byName? d.name = some e ∧ e.shape.same shape = true :=
  ⟨d, he.byName? (byName?_of_mem hnames (mem_of_find? hfind)), same_of_find? hfind⟩

/-- **Names and references.** Whatever the store was from the start and whatever has been declared in it
with fresh names since, a new declaration's name is not blank and no other declaration has it; and the
declaration is rendered with the names of its nested shapes' declarations, which stand before it. If
the names were distinct from the start, all these names, and those that builds return, lead to the
shapes they stand for, in the store and in every later one. -/
theorem names_and_references (h : Synthesis.Reached seed s) :
    s.store.Extends seed ∧
    (∀ index d, seed.length ≤ index → s.store.get? index = some d →
      Text.isBlank d.name = false ∧
      (∀ other e, other ≠ index → s.store.get? other = some e → e.name ≠ d.name) ∧
      s.store.Refers index d ∧
      (seed.names.Nodup → ∀ field ∈ d.shape, ∀ nested, field.2.nested? = some nested →
        ∀ later : Store, later.Extends s.store →
          ∃ e, later.byName? (s.store.labelOf field.2) = some e ∧ e.shape.same nested = true)) ∧
    (seed.names.Nodup → ∀ source options shape built, options.collision = .disambiguate →
      source.inferShape options.policy = .ok shape →
      buildInto source options s.store = .ok built →
      ∀ later : Store, later.Extends built.store →
        ∃ e, later.byName? built.root = some e ∧ e.shape.same shape = true) := by
  have hinv := h.invariant
  refine ⟨hinv.store_extends, fun index d hle hget => ?_, ?_⟩
  · have hrefers := hinv.refers index d hle hget
    obtain ⟨hblank, hother⟩ := hinv.name_of_new hle hget
    refine ⟨hblank, hother, hrefers, fun hseed field hfield nested hn later he => ?_⟩
    obtain ⟨target, hfind⟩ := hrefers.covers field hfield nested hn
    rw [Store.labelOf_of_some hn hfind]
    exact he.byName?_of_find? (hinv.names_nodup hseed) hfind
  · intro hseed source options shape built hcollision hinfer hbuild later he
    have hp : shape.Proper := (Source.inferred_of_inferShape hinfer).proper
    have hstep : (⟨source, options⟩ : BuildStep).Infers shape := hinfer
    rw [buildInto_eq hstep, Except.ok.injEq] at hbuild
    subst hbuild
    -- A build takes the store up anew, so its synthesis is one that can be reached.
    have hreached : Synthesis.Reached seed (declareRoot shape options s.store).2 := by
      rw [declareRoot, hcollision]
      exact h.restart.declare hp _
    obtain ⟨d, hfind, hname⟩ := declareInto_find? hp options s.store
    rw [← hname]
    exact he.byName?_of_find? (hreached.invariant.names_nodup hseed) hfind

def seedWithA : Store :=
  ⟨[⟨"A", [("x", ⟨.string, "string", false, false, none⟩)], ""⟩]⟩

def shapeWithA : Shape :=
  [("a", ⟨.object, "object", false, false, some [("y", ⟨.number, "number", false, false, none⟩)]⟩)]

theorem names_and_references_seedWithA :
    shapeWithA.Proper ∧ seedWithA.names.Nodup ∧
    ∀ context index d, seedWithA.length ≤ index →
      ((Synthesis.start seedWithA).declare .disambiguate shapeWithA context).2.store.get? index =
        some d →
      Text.isBlank d.name = false ∧ d.name ≠ "A" := by
  have hp : shapeWithA.Proper := by
    refine ⟨by decide, List.forall_mem_singleton.mpr (.node rfl (by decide) ?_)⟩
    exact List.forall_mem_singleton.mpr (.leaf rfl)
  refine ⟨hp, by decide, fun context index d hle hget => ?_⟩
  obtain ⟨hextends, hnew, -⟩ :=
    names_and_references (Synthesis.Reached.start.declare hp context)
  obtain ⟨hblank, hother, -⟩ := hnew index d hle hget
  refine ⟨hblank, (hother 0 _ (Nat.ne_of_lt hle) (hextends.get? rfl)).symm⟩

end SampleTypes
