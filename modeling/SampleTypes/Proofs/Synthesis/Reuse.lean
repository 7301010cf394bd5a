import SampleTypes.Proofs.Outcomes
import SampleTypes.Proofs.Synthesis.Contents

/-!
# What a reused declaration shows

A shape that is asked for may be answered with the declaration of another one that is the same. This
declaration shows the shape that was asked for if each field stands there with its own markers and with
the label that its type calls for (`Store.Shows`).

Keys and markers are always right. Labels need not be: sameness ignores kinds, but the kind decides
whether a field with fields of its own is written with the name of a declaration or with its own label.
`declare_shows` says exactly when the labels are right: if the fields of the two shapes have declarations
of their own behind the same keys (`Shape.NestsLike`).
-/

namespace SampleTypes

variable {store : Store} {key : String} {f g : FieldType} {a b shape : Shape} {d : Declaration}
  {tuple : FieldTuple} {s : Synthesis}

/-! ## Fields -/

/-- The tuple has the field's markers, and as label the name of a declaration of the field's shape, or
the field's own label if it has no shape to be declared. -/
structure FieldTuple.Shows (store : Store) (field : String × FieldType) (tuple : FieldTuple) :
    Prop where
  key_eq : tuple.key = field.1
  optional_eq : tuple.optional = field.2.optional
  isArray_eq : tuple.isArray = field.2.isArray
  declared : ∀ nested, field.2.nested? = some nested →
    ∃ d ∈ store.entries, d.shape.same nested = true ∧ tuple.label = d.name
  plain : field.2.nested? = none → tuple.label = field.2.label

/-- The tuple of one type shows another one that agrees with it, if both are to be declared or neither. -/
theorem FieldTuple.shows_tuple (hf : f.Proper) (hg : g.Proper)
    (hagree : FieldType.agree FieldType.sameMarks f g = true)
    (hc : ∀ nested, g.nested? = some nested → ∃ d, store.find? nested = some d)
    (hnests : f.nested?.isSome = g.nested?.isSome) :
    FieldTuple.Shows store (key, f) (store.tuple (key, g)) := by
  obtain ⟨hlabel, hoptional, harray⟩ := FieldType.sameMarks_iff.mp (FieldType.node_of_agree hagree)
  refine ⟨rfl, hoptional.symm, harray.symm, fun nested hn => ?_, fun hn => ?_⟩
  · rw [hn, Option.isSome_some] at hnests
    obtain ⟨others, hothers⟩ := Option.isSome_iff_exists.mp hnests.symm
    obtain ⟨d, hd⟩ := hc others hothers
    have hfields := FieldType.fields_of_nested? hn
    have hfields' := FieldType.fields_of_nested? hothers
    obtain ⟨-, fields, hsome, hsame⟩ := (FieldType.agree_of_some hfields).mp hagree
    have heq : fields = others := Option.some.inj (hsome.symm.trans hfields')
    subst heq
    refine ⟨d, Store.mem_of_find? hd, Shape.same_trans (Store.same_of_find? hd) ?_,
      Store.labelOf_of_some hothers hd⟩
    exact Shape.same_symm (hf.fields hfields) (hg.fields hfields') hsame
  · rw [hn, Option.isSome_none] at hnests
    have hnone : g.nested? = none := by simpa using hnests.symm
    exact (Store.labelOf_of_none hnone).trans hlabel.symm

/-- Else the tuple is wrong, unless a declaration has the field's label as its name by chance. -/
theorem FieldTuple.Shows.nests (h : FieldTuple.Shows store (key, f) (store.tuple (key, g)))
    (hagree : FieldType.agree FieldType.sameMarks f g = true)
    (hc : ∀ nested, g.nested? = some nested → ∃ d, store.find? nested = some d)
    (hlabel : f.label ∉ store.names) : f.nested?.isSome = g.nested?.isSome := by
  have heq : f.label = g.label :=
    (FieldType.sameMarks_iff.mp (FieldType.node_of_agree hagree)).1
  cases hf : f.nested? with
  | none =>
      cases hg : g.nested? with
      | none => rfl
      | some nested =>
          obtain ⟨d, hd⟩ := hc nested hg
          have hname : d.name = f.label := (Store.labelOf_of_some hg hd).symm.trans (h.plain hf)
          exact absurd (hname ▸ List.mem_map_of_mem (Store.mem_of_find? hd)) hlabel
  | some nested =>
      cases hg : g.nested? with
      | some _ => rfl
      | none =>
          obtain ⟨d, hd, -, htuple⟩ := h.declared nested hf
          have hname : d.name = f.label :=
            htuple.symm.trans ((Store.labelOf_of_none hg).trans heq.symm)
          exact absurd (hname ▸ List.mem_map_of_mem hd) hlabel

/-! ## Shapes -/

/-- Behind a key of both shapes, both have a field to be declared or neither has. -/
def Shape.NestsLike (a b : Shape) : Prop :=
  ∀ key f g, (key, f) ∈ a → (key, g) ∈ b → f.nested?.isSome = g.nested?.isSome

theorem Shape.nestsLike_refl (ha : a.Distinct) : a.NestsLike a := by
  intro key f g hf hg
  rw [Entries.eq_of_mem ha hf hg]

/-- In regular shapes the kinds say nothing that sameness misses. -/
theorem Shape.nestsLike_of_regular (ha : a.Regular) (hb : b.Regular) (hbd : b.Distinct)
    (h : a.same b = true) : a.NestsLike b := by
  intro key f g hf hg
  obtain ⟨other, hother, hagree⟩ := exists_field_of_same h hf
  rw [(ha _ hf).nested?_eq, (hb _ hg).nested?_eq, ← Entries.eq_of_mem hbd hother hg]
  cases hfields : f.fields with
  | none => rw [((FieldType.agree_of_none hfields).mp hagree).2]
  | some fields =>
      obtain ⟨-, others, hothers, -⟩ := (FieldType.agree_of_some hfields).mp hagree
      rw [hothers, Option.isSome_some, Option.isSome_some]

/-- The declaration has one tuple for each field of the shape, which shows it, and no others. -/
def Store.Shows (store : Store) (d : Declaration) (shape : Shape) : Prop :=
  ∃ tuples : List FieldTuple, tuples.Perm (store.tuples d.shape) ∧
    List.Forall₂ (FieldTuple.Shows store) shape tuples

/-- A declaration shows every shape that is the same as its own and nests like it. -/
theorem Store.shows_of_nestsLike (hc : store.Covers d.shape) (hd : d.shape.Proper)
    (hp : shape.Proper) (hsame : d.shape.same shape = true) (hnests : shape.NestsLike d.shape) :
    store.Shows d shape := by
  obtain ⟨paired, hperm, hall⟩ := Shape.exists_pairing hp hd (Shape.same_symm hd hp hsame)
  refine ⟨paired.map store.tuple, hperm.map _, ?_⟩
  rw [List.forall₂_map_right_iff, List.forall₂_iff_zip]
  refine ⟨hall.length_eq, fun {field other} hzip => ?_⟩
  obtain ⟨hkey, hagree⟩ := (List.forall₂_iff_zip.mp hall).2 hzip
  obtain ⟨hfield, hother⟩ := List.of_mem_zip hzip
  have hother' := hperm.mem_iff.mp hother
  obtain ⟨key, f⟩ := field
  obtain ⟨key', g⟩ := other
  cases hkey
  exact FieldTuple.shows_tuple (hp.2 _ hfield) (hd.2 _ hother') hagree (hc _ hother')
    (hnests key f g hfield hother')

/-- If no label is a name, a declaration shows only shapes that nest like its own. -/
theorem Store.Shows.nestsLike (h : store.Shows d shape) (hc : store.Covers d.shape)
    (hd : d.shape.Proper) (hp : shape.Proper) (hsame : d.shape.same shape = true)
    (hlabels : ∀ field ∈ shape, field.2.label ∉ store.names) : shape.NestsLike d.shape := by
  intro key f g hf hg
  obtain ⟨tuples, hperm, hall⟩ := h
  obtain ⟨tuple, htuple, hshows⟩ := (exists_of_forall₂ hall).1 _ hf
  -- The tuple that shows the field is that of the only field of this key.
  obtain ⟨⟨key', g'⟩, hg', rfl⟩ := List.mem_map.mp (hperm.mem_iff.mp htuple)
  have hkey : key' = key := hshows.key_eq
  subst hkey
  rw [Entries.eq_of_mem hd.1 hg' hg] at hshows
  obtain ⟨other, hother, hagree⟩ :=
    Shape.exists_field_of_same (Shape.same_symm hd hp hsame) hf
  rw [Entries.eq_of_mem hd.1 hother hg] at hagree
  exact hshows.nests hagree (hc _ hg) (hlabels _ hf)

/-! ## Syntheses from nothing -/

namespace Synthesis

/-- A synthesis that has declared shapes, in any contexts and with any names, starting from an empty
store; in between it may have been taken up anew. -/
inductive FromEmpty : Synthesis → Prop
  | start : FromEmpty (.start .empty)
  | declare {s : Synthesis} (h : FromEmpty s) {shape : Shape} (hp : shape.Proper)
      (policy : Collision) (context : Context) : FromEmpty (s.declare policy shape context).2
  | restart {s : Synthesis} (h : FromEmpty s) : FromEmpty (.start s.store)

/-- What holds of every synthesis from nothing. -/
structure FromEmpty.Invariant (s : Synthesis) : Prop where
  proper : ∀ d ∈ s.store.entries, d.shape.Proper
  closed : s.store.Closed
  rendered : s.store.Rendered

theorem FromEmpty.Invariant.declare (h : Invariant s) (hp : shape.Proper) (policy : Collision)
    (context : Context) : Invariant (s.declare policy shape context).2 := by
  obtain ⟨hclosed, hrendered⟩ :=
    declare_track (tracks_rendered policy) hp context s ⟨h.closed, h.rendered⟩
  refine ⟨fun d hd => ?_, hclosed, hrendered⟩
  rcases declare_within policy hp context s hd with hd | hwithin
  · exact h.proper d hd
  · exact hwithin.proper hp

theorem FromEmpty.invariant (h : s.FromEmpty) : Invariant s := by
  induction h with
  | start => exact ⟨fun _ hd => absurd hd List.not_mem_nil, Store.closed_empty, Store.rendered_empty⟩
  | declare _ hp policy context ih => exact ih.declare hp policy context
  | restart _ ih => exact ⟨ih.proper, ih.closed, ih.rendered⟩

end Synthesis

/-- **What the declaration shows that a shape is given.** Any shapes are declared one after the other,
starting from an empty store. The declaration that the next one is given is that of a shape that is the
same, and of the shape itself if it was not known; it is rendered from its fields' tuples; and it shows
the shape if the two shapes nest alike, as regular shapes do. If no declaration is named by the label of
one of the shape's fields, it shows the shape in no other case. -/
theorem declare_shows (h : s.FromEmpty) (hp : shape.Proper) (policy : Collision)
    (context : Context) :
    ∃ d s', s.declare policy shape context = (d, s') ∧ d ∈ s'.store.entries ∧
      d.shape.same shape = true ∧ (s.store.find? shape = none → d.shape = shape) ∧
      (∃ mode, d.text = FieldTuple.text mode d.name (s'.store.tuples d.shape)) ∧
      (shape.Regular → d.shape.Regular → shape.NestsLike d.shape) ∧
      (shape.NestsLike d.shape → s'.store.Shows d shape) ∧
      ((∀ field ∈ shape, field.2.label ∉ s'.store.names) → s'.store.Shows d shape →
        shape.NestsLike d.shape) := by
  have hinvariant := h.invariant.declare hp policy context
  have hfind := Synthesis.declare_find? policy hp context s
  have hmem := Store.mem_of_find? hfind
  have hsame := Store.same_of_find? hfind
  have hfresh : s.store.find? shape = none → (s.declare policy shape context).1.shape = shape := by
    intro hunknown
    rw [Synthesis.declare_of_unknown hunknown]
    rfl
  -- The declaration is one of the store, so the invariant tells what is needed of it.
  have hd := hinvariant.proper _ hmem
  have hc := hinvariant.closed _ hmem
  refine ⟨_, _, rfl, hmem, hsame, hfresh, hinvariant.rendered _ hmem, fun hr hdr => ?_, ?_, ?_⟩
  · exact Shape.nestsLike_of_regular hr hdr hd.1 (Shape.same_symm hd hp hsame)
  · exact Store.shows_of_nestsLike hc hd hp hsame
  · exact fun hlabels hshows => hshows.nestsLike hc hd hp hsame hlabels

/-- A field with a field of its own, of any kind. -/
def box (kind : TypeKind) : Shape :=
  [("x", ⟨kind, "object", false, false, some [("y", ⟨.number, "number", false, false, none⟩)]⟩)]

/-- A box that is an object, declared as `A`. -/
def boxDeclared : Synthesis :=
  ((Synthesis.start .empty).declare .disambiguate (box .object) (.root "A" ⟨false, false⟩)).2

theorem proper_box (kind : TypeKind) : (box kind).Proper := by
  refine ⟨List.nodup_singleton _, List.forall_mem_singleton.mpr (.node rfl ?_ ?_)⟩
  · exact List.nodup_singleton _
  · exact List.forall_mem_singleton.mpr (.leaf rfl)

set_option maxRecDepth 4000 in
theorem declare_shows_box : boxDeclared.FromEmpty ∧ (box .object).Proper ∧
    ∃ d s', boxDeclared.declare .preserve (box .object) (.root "B" ⟨true, true⟩) = (d, s') ∧
      s'.store.Shows d (box .object) := by
  have hempty : boxDeclared.FromEmpty := .declare .start (proper_box .object) _ _
  obtain ⟨d, s', hdeclare, -, -, -, -, -, hshows, -⟩ :=
    declare_shows hempty (proper_box .object) .preserve (.root "B" ⟨true, true⟩)
  have hshape : (boxDeclared.declare .preserve (box .object)
      (.root "B" ⟨true, true⟩)).1.shape = box .object := rfl
  rw [hdeclare] at hshape
  refine ⟨hempty, proper_box .object, d, s', hdeclare, hshows ?_⟩
  rw [hshape]
  exact Shape.nestsLike_refl (proper_box .object).1

/-- A box that is said to be a string is given the declaration of the object, in which its field is written
with the name of a declaration. It has no shape to be declared and should be written with its label. -/
theorem box_string_not_shown :
    (box .string).Proper ∧
      (boxDeclared.declare .disambiguate (box .string) (.root "B" ⟨false, false⟩)).1.text =
        "export interface A {
  x: X
}" ∧
      ¬(boxDeclared.declare .disambiguate (box .string) (.root "B" ⟨false, false⟩)).2.store.Shows
        (boxDeclared.declare .disambiguate (box .string) (.root "B" ⟨false, false⟩)).1
        (box .string) := by
  refine ⟨proper_box .string, by decide +kernel, ?_⟩
  have htuples : (boxDeclared.declare .disambiguate (box .string)
      (.root "B" ⟨false, false⟩)).2.store.tuples (boxDeclared.declare .disambiguate (box .string)
        (.root "B" ⟨false, false⟩)).1.shape = [⟨"x", false, "X", false⟩] := by
    decide +kernel
  rintro ⟨tuples, hperm, hall⟩
  rw [htuples, List.perm_singleton] at hperm
  subst hperm
  cases hall with
  | cons hshows _ => exact absurd (hshows.plain rfl) (by decide)

end SampleTypes
