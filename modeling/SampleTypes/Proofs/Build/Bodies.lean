import SampleTypes.Proofs.Build.Conformance

/-!
# No body is declared twice

Shapes are looked up by sameness, and what a reader sees are fields' tuples. With the kinds' own labels
and with fresh names the two come to the same: declarations whose fields have the same tuples have shapes
that are the same (`Store.Readable.same_of_tuples`). A label says whether a field has a shape of its own,
because no declaration is named like a kind, and if so it says which shape, because no two declarations
have one name.

As no two declarations of a store have shapes that are the same, no two have the same body
(`bodies_distinct`).
-/

namespace SampleTypes

namespace Store.Readable

variable {store : Store} {a b : FieldType} {d e : Declaration}

/-- No declaration is called like the default label of a type. -/
theorem name_ne_label (h : store.Readable) (hd : d ∈ store.entries) (kind : TypeKind) :
    d.name ≠ kind.label := by
  intro heq
  have hreserved := TypeKind.ofLabel?_label kind
  rw [← heq, h.unreserved d hd] at hreserved
  cases hreserved

/-- A name belongs to one declaration only. -/
theorem eq_of_name_eq (h : store.Readable) (hd : d ∈ store.entries) (he : e ∈ store.entries)
    (hname : d.name = e.name) : d = e := by
  have hfind := byName?_of_mem h.names hd
  rw [hname, byName?_of_mem h.names he] at hfind
  exact (Option.some.inj hfind).symm

/-- Types that are declared alike agree. -/
theorem agree_of_labelOf_eq (h : store.Readable) (ha : a.Inferred {}) (hb : b.Inferred {})
    (hca : ∀ nested, a.nested? = some nested → ∃ d, store.find? nested = some d)
    (hcb : ∀ nested, b.nested? = some nested → ∃ d, store.find? nested = some d)
    (hoptional : a.optional = b.optional) (harray : a.isArray = b.isArray)
    (hlabel : store.labelOf a = store.labelOf b) :
    FieldType.agree FieldType.sameMarks a b = true := by
  have hla : a.label = a.kind.label := ha.label_eq.trans (CustomLabels.label_default _)
  have hlb : b.label = b.kind.label := hb.label_eq.trans (CustomLabels.label_default _)
  cases hna : a.nested? with
  | none =>
      have hfa : a.fields = none := ha.regular.nested?_eq ▸ hna
      rw [labelOf_of_none hna] at hlabel
      cases hnb : b.nested? with
      | none =>
          rw [labelOf_of_none hnb] at hlabel
          have hmarks := FieldType.sameMarks_iff.mpr ⟨hlabel, hoptional, harray⟩
          exact (FieldType.agree_of_none hfa).mpr ⟨hmarks, hb.regular.nested?_eq ▸ hnb⟩
      | some nested =>
          obtain ⟨d, hd⟩ := hcb nested hnb
          rw [labelOf_of_some hnb hd, hla] at hlabel
          exact absurd hlabel.symm (h.name_ne_label (mem_of_find? hd) a.kind)
  | some nested =>
      obtain ⟨hka, hfa, -⟩ := FieldType.nested?_eq_some.mp hna
      obtain ⟨d, hd⟩ := hca nested hna
      rw [labelOf_of_some hna hd] at hlabel
      cases hnb : b.nested? with
      | none =>
          rw [labelOf_of_none hnb, hlb] at hlabel
          exact absurd hlabel (h.name_ne_label (mem_of_find? hd) b.kind)
      | some others =>
          obtain ⟨hkb, hfb, -⟩ := FieldType.nested?_eq_some.mp hnb
          obtain ⟨e, he⟩ := hcb others hnb
          rw [labelOf_of_some hnb he] at hlabel
          -- One name, so one declaration, and the shapes of both types are the same as its shape.
          have heq := h.eq_of_name_eq (mem_of_find? hd) (mem_of_find? he) hlabel
          subst heq
          have hp := (h.inferred d (mem_of_find? hd)).proper
          have hsame := Shape.same_trans
            (Shape.same_symm hp (ha.proper.fields hfa) (same_of_find? hd)) (same_of_find? he)
          have hmarks := FieldType.sameMarks_iff.mpr
            ⟨by rw [hla, hlb, hka, hkb], hoptional, harray⟩
          exact (FieldType.agree_of_some hfa).mpr ⟨hmarks, others, hfb, hsame⟩

/-- Declarations whose fields have the same tuples, in whatever order, have shapes that are the same. -/
theorem same_of_tuples (h : store.Readable) (hd : d ∈ store.entries) (he : e ∈ store.entries)
    (htuples : ∀ tuple, tuple ∈ store.tuples d.shape ↔ tuple ∈ store.tuples e.shape) :
    d.shape.same e.shape = true := by
  have hdinferred := h.inferred d hd
  have heinferred := h.inferred e he
  have hkey : ∀ (shape : Shape) (key : String), key ∈ Entries.keys shape ↔
      ∃ tuple ∈ store.tuples shape, tuple.key = key := by
    intro shape key
    simp [Entries.keys, tuples, tuple]
  have hkeys : (Entries.keys d.shape).Perm (Entries.keys e.shape) := by
    refine (List.perm_ext_iff_of_nodup hdinferred.1 heinferred.1).mpr fun key => ?_
    simp only [hkey, htuples]
  refine Shape.agree_iff.mpr ⟨by simpa [Entries.keys] using hkeys.length_eq, ?_⟩
  rintro ⟨key, a⟩ ha
  obtain ⟨⟨key', b⟩, hb, heq⟩ := List.mem_map.mp ((htuples _).mp (List.mem_map_of_mem ha))
  obtain ⟨hkey, hoptional, hlabel, harray⟩ := FieldTuple.mk.inj heq
  subst hkey
  refine ⟨b, (Entries.find?_eq_some heinferred.1).mpr hb, ?_⟩
  exact h.agree_of_labelOf_eq (hdinferred.2 _ ha) (heinferred.2 _ hb) (h.closed d hd _ ha)
    (h.closed e he _ hb) hoptional.symm harray.symm hlabel.symm

end Store.Readable

/-- Builds with the kinds' own labels and fresh names leave a store that can be read and in which every
shape is declared once. -/
theorem readable_unique_buildEach {steps : List BuildStep} (hsteps : ∀ step ∈ steps, step.Plain) :
    (buildEach steps .empty).Readable ∧ (buildEach steps .empty).Unique := by
  apply buildEach_induction (motive := fun store => store.Readable ∧ store.Unique)
  · exact ⟨Store.readable_empty, Store.unique_empty⟩
  · rintro step hstep shape store hshape ⟨hreadable, hunique⟩
    have htrack := Synthesis.declare_track (Synthesis.tracks_unique step.options.collision)
      hshape.inferred.proper (.root step.options.rootName step.options.mode) (.start store)
    exact ⟨hreadable.declareInto (hsteps step hstep) hshape, htrack hunique⟩

/-- **No body is declared twice.** Values of any sort are built one after the other into an empty store,
with the kinds' own labels, with fresh names, and with root names that are no labels of kinds; values
without a shape are passed over. Every declaration of the store that is left is rendered from its fields'
tuples, and declarations whose fields have the same tuples are one and the same. -/
theorem bodies_distinct {steps : List BuildStep} {final : Store}
    (hsteps : ∀ step ∈ steps, step.Plain) (hfinal : buildEach steps .empty = final) :
    (∀ d ∈ final.entries, ∃ mode, d.text = FieldTuple.text mode d.name (final.tuples d.shape)) ∧
      ∀ i j d e, final.get? i = some d → final.get? j = some e →
        (∀ tuple, tuple ∈ final.tuples d.shape ↔ tuple ∈ final.tuples e.shape) → i = j := by
  obtain ⟨hreadable, hunique⟩ := readable_unique_buildEach hsteps
  rw [hfinal] at hreadable hunique
  refine ⟨hreadable.rendered, fun i j d e hd he htuples => ?_⟩
  have hsame := hreadable.same_of_tuples (List.mem_of_getElem? hd) (List.mem_of_getElem? he) htuples
  exact hunique.index_eq (fun d hd => (hreadable.inferred d hd).proper) hd he hsame

/-- Two fields have one shape, and so has the node of a graph that is built later and with other options.
There is nothing to build from the text between them. -/
def twins : List BuildStep :=
  [⟨.document (.object [("left", .object [("x", .null)]), ("right", .object [("x", .null)])]), {}⟩,
    ⟨.document (.string "x"), {}⟩,
    ⟨.node ⟨#[.keyed [("x", 1)], .absent]⟩ 0, { rootWish := some "Twin", mode := ⟨true, true⟩ }⟩]

theorem bodies_distinct_twins :
    (∀ step ∈ twins, step.Plain) ∧ ∃ final, buildEach twins .empty = final ∧ final.length = 2 ∧
      ∀ i j d e, final.get? i = some d → final.get? j = some e →
        (∀ tuple, tuple ∈ final.tuples d.shape ↔ tuple ∈ final.tuples e.shape) → i = j := by
  have hplain : ∀ step ∈ twins, step.Plain := by
    simp only [twins, List.forall_mem_cons, List.not_mem_nil, IsEmpty.forall_iff, implies_true,
      and_true]
    exact ⟨⟨⟨CustomLabels.label_default, by decide⟩, rfl⟩, ⟨⟨CustomLabels.label_default, by decide⟩, rfl⟩,
      ⟨CustomLabels.label_default, by decide⟩, rfl⟩
  exact ⟨hplain, _, rfl, by decide +kernel, (bodies_distinct hplain rfl).2⟩

end SampleTypes
