import SampleTypes.Proofs.Build.Sequence
import SampleTypes.Proofs.Synthesis.Names
import SampleTypes.Proofs.Synthesis.Reuse

/-!
# Labels and names are told apart

A declaration for a nested shape is named after the fields that lead there, and such a name never begins with
a small letter, as all labels of kinds do. So as long as labels are those of kinds, and nobody wishes for a
name that is one of them, what stands for a field's type is a name only if the field has a shape of its own
(`names_shadow_no_label`).

This holds for names that give way and for names that are used again: the invariant (`OwnLabels.Invariant`)
is about names and labels one by one, and does not ask for names to be distinct.
-/

namespace SampleTypes

variable {shape inner : Shape} {s : Synthesis}

/-- The labels of all fields are labels of kinds, at any depth. -/
def Shape.OwnLabels (shape : Shape) : Prop :=
  ∀ inner : Shape, inner.Within shape → ∀ field ∈ inner, ∃ kind : TypeKind, field.2.label = kind.label

/-- The fields of nested shapes keep the default labels as well. -/
theorem Shape.OwnLabels.of_within (h : shape.OwnLabels) (hwithin : inner.Within shape) :
    ∀ field ∈ inner, ∃ kind : TypeKind, field.2.label = kind.label :=
  h inner hwithin

namespace Synthesis

/-- A synthesis that has declared shapes with the kinds' own labels, starting from an empty store, by any
policy and in any contexts but those that wish for the label of a kind as a name; in between it may have been
taken up anew. -/
inductive OwnLabels : Synthesis → Prop
  | start : OwnLabels (.start .empty)
  | declare {s : Synthesis} (h : OwnLabels s) {shape : Shape} (hp : shape.Proper)
      (hlabels : shape.OwnLabels) (policy : Collision) {context : Context}
      (hwish : ∀ name, context.name = some name → TypeKind.ofLabel? name = none) :
      OwnLabels (s.declare policy shape context).2
  | restart {s : Synthesis} (h : OwnLabels s) : OwnLabels (.start s.store)

theorem OwnLabels.fromEmpty (h : s.OwnLabels) : s.FromEmpty := by
  induction h with
  | start => exact .start
  | declare _ hp _ policy _ ih => exact ih.declare hp policy _
  | restart _ ih => exact ih.restart

/-- No declaration is named by a kind's label, and all fields have kinds' labels. -/
structure OwnLabels.Invariant (s : Synthesis) : Prop where
  names : ∀ d ∈ s.store.entries, TypeKind.ofLabel? d.name = none
  labels : ∀ d ∈ s.store.entries, ∀ field ∈ d.shape, ∃ kind : TypeKind, field.2.label = kind.label

theorem OwnLabels.Invariant.declare (h : Invariant s) (hp : shape.Proper) (hlabels : shape.OwnLabels)
    (policy : Collision) {context : Context}
    (hwish : ∀ name, context.name = some name → TypeKind.ofLabel? name = none) :
    Invariant (s.declare policy shape context).2 := by
  constructor
  · intro d hd
    rcases declare_name_eq hp context s hd with hd | ⟨wish, taken, hname, hsource⟩
    · exact h.names d hd
    · rw [hname]
      refine Naming.ofLabel?_claim _ _ (Naming.ofLabel?_candidate fun name hsome => ?_)
      rcases hsource with rfl | ⟨chain, rfl⟩
      · exact hwish name hsome
      · cases hsome
        exact Naming.ofLabel?_derived chain
  · intro d hd
    rcases declare_within policy hp context s hd with hd | hwithin
    · exact h.labels d hd
    · exact hlabels.of_within hwithin

/-- The invariant holds of every state that is reached with default labels. -/
theorem OwnLabels.invariant (h : s.OwnLabels) : Invariant s := by
  induction h with
  | start => exact ⟨fun _ h => absurd h List.not_mem_nil, fun _ h => absurd h List.not_mem_nil⟩
  | declare _ hp hlabels policy hwish ih => exact ih.declare hp hlabels policy hwish
  | restart _ ih => exact ⟨ih.names, ih.labels⟩

/-- What stands for a field's type is the name of a declaration if the field has a shape of its own. -/
theorem OwnLabels.labelOf_mem_names_iff (h : s.OwnLabels) {d : Declaration}
    (hd : d ∈ s.store.entries) {field : String × FieldType} (hfield : field ∈ d.shape) :
    s.store.labelOf field.2 ∈ s.store.names ↔ ∃ nested, field.2.nested? = some nested := by
  cases hn : field.2.nested? with
  | some nested =>
      obtain ⟨target, hfind⟩ := h.fromEmpty.invariant.closed d hd field hfield nested hn
      rw [Store.labelOf_of_some hn hfind]
      exact ⟨fun _ => ⟨nested, rfl⟩, fun _ => List.mem_map_of_mem (Store.mem_of_find? hfind)⟩
  | none =>
      obtain ⟨kind, hlabel⟩ := h.invariant.labels d hd field hfield
      rw [Store.labelOf_of_none hn, hlabel]
      refine ⟨fun hmem => ?_, fun ⟨_, hnone⟩ => absurd hnone.symm (Option.some_ne_none _)⟩
      obtain ⟨e, he, hname⟩ := List.mem_map.mp hmem
      have hreserved := h.invariant.names e he
      rw [hname, TypeKind.ofLabel?_label] at hreserved
      cases hreserved

/-- What is declared for a shape, apart from its own declaration, which comes last, has a name that does not
begin small. -/
theorem declare_not_beginsSmall (policy : Collision) (shape : Shape) (context : Context) (s : Synthesis)
    {index : Nat} {d : Declaration} (hle : s.store.length ≤ index)
    (hget : (s.declare policy shape context).2.store.get? index = some d) :
    index + 1 = (s.declare policy shape context).2.store.length ∧ d.shape = shape ∨
      ¬Naming.BeginsSmall d.name := by
  cases hf : s.store.find? shape with
  | some known =>
      rw [declare_of_known hf] at hget
      have hlt : index < s.store.length := (List.getElem?_eq_some_iff.mp hget).1
      exact absurd hlt (Nat.not_lt_of_le hle)
  | none =>
      have hwrites := writes_writeFields policy context shape (s.opened policy context)
      rw [declare_of_unknown hf] at hget ⊢
      rw [store_emit] at hget ⊢
      rcases Store.get?_push_eq_some.mp hget with hin | ⟨hindex, hd⟩
      · rw [← store_opened policy context s] at hle
        obtain ⟨chain, taken, hname⟩ := hwrites.name_of_new hle hin
        rw [hname]
        exact .inr (Naming.not_beginsSmall_claim policy taken chain)
      · rw [Store.length_push, hindex, ← hd]
        exact .inl ⟨rfl, rfl⟩

end Synthesis

/-! ## Builds -/

/-- Builds with the kinds' own labels are such a synthesis. -/
theorem ownLabels_buildEach {steps : List BuildStep} (h : ∀ step ∈ steps, step.OwnLabels) :
    (Synthesis.start (buildEach steps .empty)).OwnLabels := by
  refine buildEach_induction (motive := fun store => (Synthesis.start store).OwnLabels) .start ?_
  intro step hstep shape store hinfers hstore
  have hlabels : shape.OwnLabels := by
    intro inner hwithin field hfield
    have hlabel := ((hinfers.inferred.of_within hwithin).2 field hfield).label_eq
    exact ⟨field.2.kind, hlabel.trans ((h step hstep).labels _)⟩
  refine (hstore.declare hinfers.inferred.proper hlabels step.options.collision ?_).restart
  intro name hname
  rw [← Option.some.inj hname]
  exact (h step hstep).root

/-- **Names shadow no labels.** Whatever the store holds, whichever names are taken and however names give
way, every declaration that is added for a shape, but for the shape's own one at the end, has a name that does
not begin with a small letter and is no label of a kind. In a store that is made from nothing with the kinds'
own labels, and without a wish for a name that is one of them, by builds or by any syntheses, every
declaration is rendered from its fields' tuples, and the label in a tuple is the name of a declaration if and
only if the field has a shape of its own. -/
theorem names_shadow_no_label :
    (∀ (policy : Collision) (shape : Shape) (context : Context) (s : Synthesis) (index : Nat)
        (d : Declaration), s.store.length ≤ index →
      (s.declare policy shape context).2.store.get? index = some d →
      index + 1 = (s.declare policy shape context).2.store.length ∧ d.shape = shape ∨
        ¬Naming.BeginsSmall d.name ∧ ∀ kind : TypeKind, d.name ≠ kind.label) ∧
    (∀ steps : List BuildStep, (∀ step ∈ steps, step.OwnLabels) →
      (Synthesis.start (buildEach steps .empty)).OwnLabels) ∧
    ∀ s : Synthesis, s.OwnLabels → ∀ d ∈ s.store.entries,
      (∃ mode, d.text = FieldTuple.text mode d.name (s.store.tuples d.shape)) ∧
      ∀ field ∈ d.shape, s.store.labelOf field.2 ∈ s.store.names ↔
        ∃ nested, field.2.nested? = some nested := by
  refine ⟨fun policy shape context s index d hle hget => ?_, fun steps h => ownLabels_buildEach h,
    fun s h d hd => ⟨h.fromEmpty.invariant.rendered d hd, fun field hfield =>
      h.labelOf_mem_names_iff hd hfield⟩⟩
  refine (Synthesis.declare_not_beginsSmall policy shape context s hle hget).imp_right fun hsmall => ?_
  exact ⟨hsmall, fun kind hname => hsmall (hname ▸ Naming.beginsSmall_label kind)⟩

/-- The key of a nested object is a label, and so is the type of the field beside it. -/
def labelAsKey : List BuildStep :=
  [⟨.document (.object [("string", .object [("", .object [("x", .null)])]), ("s", .string "")]),
    { collision := .preserve }⟩]

set_option maxRecDepth 4000 in
theorem names_shadow_no_label_labelAsKey :
    (∀ step ∈ labelAsKey, step.OwnLabels) ∧
    (buildEach labelAsKey .empty).names = ["String", "String", "Response"] ∧
    ∀ d ∈ (buildEach labelAsKey .empty).entries, ∀ field ∈ d.shape,
      (buildEach labelAsKey .empty).labelOf field.2 ∈ (buildEach labelAsKey .empty).names ↔
        ∃ nested, field.2.nested? = some nested := by
  have hown : ∀ step ∈ labelAsKey, step.OwnLabels := by
    refine List.forall_mem_singleton.mpr ⟨fun kind => ?_, by decide⟩
    cases kind <;> rfl
  obtain ⟨-, hbuilds, hstores⟩ := names_shadow_no_label
  exact ⟨hown, by decide +kernel, fun d hd => (hstores _ (hbuilds _ hown) d hd).2⟩

end SampleTypes
