import SampleTypes.Proofs.Synthesis.Steps

/-!
# What a store holds

Three facts hold of a store from the start and after every step of a synthesis. No two declarations have
shapes that are the same (`Store.Unique`): a shape is looked up before its fields are written and added
after them, and what is added in between has fewer levels than it. All shapes nested in a declared one
are declared (`Store.Closed`), so that a declaration that is reused needs no second visit. And every
declaration is rendered from its fields' tuples (`Store.Rendered`), which later declarations leave alone.

* `Store.Closed.find?_of_within`: a closed store that knows a shape knows the shapes inside it.
* `Store.Unique.index_eq`, `Store.Unique.existsUnique`: a store that knows a shape has exactly one
  declaration like it.
-/

namespace SampleTypes

namespace Store

variable {store : Store} {shape inner : Shape} {declaration : Declaration}

/-- No two declarations have shapes that are the same. -/
def Unique (store : Store) : Prop :=
  store.entries.Pairwise fun earlier later => earlier.shape.same later.shape = false

/-- The shapes nested in declared ones are declared. -/
def Closed (store : Store) : Prop :=
  ∀ d ∈ store.entries, store.Covers d.shape

/-- Every declaration is rendered from its fields' tuples. -/
def Rendered (store : Store) : Prop :=
  ∀ d ∈ store.entries, ∃ mode, d.text = FieldTuple.text mode d.name (store.tuples d.shape)

theorem unique_empty : Unique .empty := List.Pairwise.nil

theorem closed_empty : Closed .empty := fun _ h => absurd h List.not_mem_nil

theorem rendered_empty : Rendered .empty := fun _ h => absurd h List.not_mem_nil

/-- Adding an unknown shape keeps declarations unique. -/
theorem Unique.push (h : store.Unique) (hf : store.find? declaration.shape = none) :
    (store.push declaration).Unique := by
  rw [Unique, entries_push, List.pairwise_append]
  refine ⟨h, List.pairwise_singleton _ _, fun earlier hearlier later hlater => ?_⟩
  rw [List.mem_singleton.mp hlater]
  exact find?_eq_none_iff.mp hf earlier hearlier

/-- Adding a shape whose nested shapes are known keeps a store closed. -/
theorem Closed.push (h : store.Closed) (hc : store.Covers declaration.shape) :
    (store.push declaration).Closed := by
  intro d hd
  rw [entries_push, List.mem_append, List.mem_singleton] at hd
  rcases hd with hd | rfl
  · exact (extends_push store declaration).covers (h d hd)
  · exact (extends_push store d).covers hc

/-- Earlier texts still hold when a declaration is added, as their labels stay. -/
theorem Rendered.push (h : store.Rendered) (hclosed : store.Closed)
    (hc : store.Covers declaration.shape)
    (htext : ∃ mode, declaration.text =
      FieldTuple.text mode declaration.name (store.tuples declaration.shape)) :
    (store.push declaration).Rendered := by
  intro d hd
  rw [entries_push, List.mem_append, List.mem_singleton] at hd
  rcases hd with hd | rfl
  · rw [(extends_push store declaration).tuples_eq (hclosed d hd)]
    exact h d hd
  · rw [(extends_push store d).tuples_eq hc]
    exact htext

/-- In a closed store that knows a shape, the shapes inside it are known: its declaration may be that
of another shape, but of one with the same shapes inside. -/
theorem Closed.find?_of_within (h : store.Closed)
    (hentries : ∀ d ∈ store.entries, d.shape.Proper ∧ d.shape.Regular) (hp : shape.Proper)
    (hwithin : inner.Within shape) (hf : ∃ d, store.find? shape = some d) :
    ∃ d, store.find? inner = some d := by
  induction hwithin with
  | self => exact hf
  | deeper hfield hn hwithin ih =>
      obtain ⟨d, hd⟩ := hf
      have hmem : d ∈ store.entries := mem_of_find? hd
      obtain ⟨hdp, hdr⟩ := hentries d hmem
      have hsame := Shape.same_symm hdp hp (same_of_find? hd)
      obtain ⟨other, hother, -, like, hlike, hnested⟩ :=
        Shape.exists_nested_of_same hdr hsame hfield hn
      refine ih (hp.of_nested hfield hn) ?_
      rw [find?_congr (hp.of_nested hfield hn) (hdp.of_nested hother hlike) hnested]
      exact h d hmem other hother like hlike

/-- Declarations whose shapes are the same are at one index. -/
theorem Unique.index_eq (h : store.Unique) (hentries : ∀ d ∈ store.entries, d.shape.Proper)
    {index index' : Nat} {d d' : Declaration} (hget : store.get? index = some d)
    (hget' : store.get? index' = some d') (hsame : d.shape.same d'.shape = true) :
    index = index' := by
  obtain ⟨hi, hgeti⟩ := List.getElem?_eq_some_iff.mp hget
  obtain ⟨hj, hgetj⟩ := List.getElem?_eq_some_iff.mp hget'
  have hp := hentries d (List.mem_of_getElem? hget)
  have hp' := hentries d' (List.mem_of_getElem? hget')
  rcases Nat.lt_trichotomy index index' with hlt | heq | hgt
  · have hdiffer := List.pairwise_iff_getElem.mp h index index' hi hj hlt
    rw [hgeti, hgetj, hsame] at hdiffer
    cases hdiffer
  · exact heq
  · have hdiffer := List.pairwise_iff_getElem.mp h index' index hj hi hgt
    rw [hgeti, hgetj, Shape.same_symm hp hp' hsame] at hdiffer
    cases hdiffer

theorem Unique.eq_of_same (h : store.Unique) (hentries : ∀ d ∈ store.entries, d.shape.Proper)
    {d d' : Declaration} (hd : d ∈ store.entries) (hd' : d' ∈ store.entries)
    (hsame : d.shape.same d'.shape = true) : d = d' := by
  obtain ⟨index, hget⟩ := List.getElem?_of_mem hd
  obtain ⟨index', hget'⟩ := List.getElem?_of_mem hd'
  have heq := h.index_eq hentries hget hget' hsame
  subst heq
  exact Option.some.inj (hget.symm.trans hget')

/-- A shape that is known has one declaration, and no other one is like it. -/
theorem Unique.existsUnique (h : store.Unique) (hentries : ∀ d ∈ store.entries, d.shape.Proper)
    (hp : shape.Proper) (hf : ∃ d, store.find? shape = some d) :
    ∃! index, ∃ d, store.get? index = some d ∧ d.shape.same shape = true := by
  obtain ⟨d, hd⟩ := hf
  obtain ⟨index, -, hget⟩ := find?_eq_some_iff.mp hd
  refine ⟨index, ⟨d, hget, same_of_find? hd⟩, ?_⟩
  rintro other ⟨e, hother, he⟩
  have hdp := hentries d (List.mem_of_getElem? hget)
  exact h.index_eq hentries hother hget
    (Shape.same_trans he (Shape.same_symm hdp hp (same_of_find? hd)))

end Store

namespace Synthesis

variable {policy : Collision}

theorem tracks_unique (policy : Collision) :
    Tracks policy fun s s' => s.store.Unique → s'.store.Unique where
  refl _ h := h
  trans h h' hu := h' (h hu)
  note _ _ h := h
  emit hemits h hu := by
    rw [store_opened] at h
    exact (h hu).push hemits.still_unknown

/-- A synthesis keeps a store closed: nested shapes are declared before the ones they stand in. -/
theorem tracks_closed (policy : Collision) :
    Tracks policy fun s s' => s.store.Closed → s'.store.Closed where
  refl _ h := h
  trans h h' hc := h' (h hc)
  note _ _ h := h
  emit hemits h hc := by
    rw [store_opened] at h
    exact (h hc).push hemits.covers

/-- A synthesis keeps all texts in step with their shapes. -/
theorem tracks_rendered (policy : Collision) : Tracks policy fun s s' =>
    s.store.Closed ∧ s.store.Rendered → s'.store.Closed ∧ s'.store.Rendered where
  refl _ h := h
  trans h h' hs := h' (h hs)
  note _ _ h := h
  emit hemits h hs := by
    rw [store_opened] at h
    obtain ⟨hclosed, hrendered⟩ := h hs
    exact ⟨hclosed.push hemits.covers,
      hrendered.push hclosed hemits.covers ⟨_, hemits.text_eq⟩⟩

end Synthesis

end SampleTypes
