import SampleTypes.Proofs.Build.Sequence
import SampleTypes.Proofs.Json.Basic
import SampleTypes.Proofs.Synthesis.Resolution

/-!
# Documents conform to their declarations

What a declaration says about a document is said by its fields' tuples: a label of a kind admits the
values of the kind, and the name of a declaration admits the objects that conform to that declaration
(`Conforms`). A document that was built conforms to the declaration its build returned, in the store
that is left after all builds (`documents_conform`).

Arrays have to be uniform for this (`Json.Uniform`), as only their first element is looked at. The
declaration need not stem from the document's own build; what counts is that its shape is the same.
-/

namespace SampleTypes

/-- The values of a kind. -/
def TypeKind.Admits : TypeKind → Json → Prop
  | .string, .string _ => True
  | .number, .number _ => True
  | .boolean, .bool _ => True
  | .object, .object _ => True
  | .unknown, _ => True
  | _, _ => False

/-- A value conforms to a label, or as an array to the label of its elements. -/
inductive Conforms (store : Store) : (label : String) → (isArray : Bool) → Json → Prop
  | builtIn {label : String} {kind : TypeKind} {value : Json}
      (hlabel : TypeKind.ofLabel? label = some kind) (hv : kind.Admits value) :
      Conforms store label false value
  | declared {label : String} {declaration : Declaration} {members : List (String × Json)}
      (hlabel : TypeKind.ofLabel? label = none) (hname : store.byName? label = some declaration)
      (hkeys : ∀ member ∈ members, ∃ tuple ∈ store.tuples declaration.shape, tuple.key = member.1)
      (hvalues : ∀ member ∈ members, ∀ tuple ∈ store.tuples declaration.shape,
        tuple.key = member.1 → Conforms store tuple.label tuple.isArray member.2)
      (hrequired : ∀ tuple ∈ store.tuples declaration.shape, tuple.optional = false →
        tuple.key ∈ Entries.keys members) :
      Conforms store label false (.object members)
  | array {label : String} {items : List Json}
      (h : ∀ item ∈ items, Conforms store label false item) :
      Conforms store label true (.array items)

/-- Every array, at any depth, holds no arrays, and its elements have equal types. -/
inductive Json.Uniform (policy : Policy) : Json → Prop
  | null : Uniform policy .null
  | bool (b : Bool) : Uniform policy (.bool b)
  | number (n : Json.Number) : Uniform policy (.number n)
  | string (s : String) : Uniform policy (.string s)
  | array {items : List Json} (hflat : ∀ item ∈ items, ∀ inner, item ≠ .array inner)
      (hequal : ∀ a ∈ items, ∀ b ∈ items,
        FieldType.agree FieldType.equalMarks (a.infer policy) (b.infer policy) = true)
      (h : ∀ item ∈ items, Uniform policy item) : Uniform policy (.array items)
  | object {members : List (String × Json)} (h : ∀ member ∈ members, Uniform policy member.2) :
      Uniform policy (.object members)

/-! ## Types up to their own markers -/

namespace FieldType

/-- The types have one label, and both have no fields or fields that are the same. -/
structure Like (a b : FieldType) : Prop where
  label_eq : a.label = b.label
  leaf : a.fields = none → b.fields = none
  node : ∀ fields : Shape, a.fields = some fields →
    ∃ others, b.fields = some others ∧ fields.same others = true

variable {a b c : FieldType}

/-- Types that agree in their marks all the way down are alike. -/
theorem like_of_agree (h : agree sameMarks a b = true) : a.Like b where
  label_eq := (sameMarks_iff.mp (node_of_agree h)).1
  leaf hf := ((agree_of_none hf).mp h).2
  node _ hf := ((agree_of_some hf).mp h).2

theorem Like.trans (h : a.Like b) (h' : b.Like c) : a.Like c where
  label_eq := h.label_eq.trans h'.label_eq
  leaf hf := h'.leaf (h.leaf hf)
  node fields hf := by
    obtain ⟨others, hothers, hsame⟩ := h.node fields hf
    obtain ⟨thirds, hthirds, hsame'⟩ := h'.node others hothers
    exact ⟨thirds, hthirds, Shape.same_trans hsame hsame'⟩

end FieldType

/-! ## Stores whose declarations can be read -/

/-- The declarations are those of inferred shapes with the kinds' own labels, rendered from their tuples,
the shapes nested in them are declared, and every label is the name of at most one declaration, or that
of a kind. -/
structure Store.Readable (store : Store) : Prop where
  inferred : ∀ d ∈ store.entries, d.shape.Inferred {}
  closed : store.Closed
  rendered : ∀ d ∈ store.entries, ∃ mode,
    d.text = FieldTuple.text mode d.name (store.tuples d.shape)
  names : store.names.Nodup
  unreserved : ∀ d ∈ store.entries, TypeKind.ofLabel? d.name = none

variable {store : Store} {policy : Policy} {type : FieldType} {shape : Shape}

@[simp] theorem CustomLabels.label_default (kind : TypeKind) :
    ({} : CustomLabels).label kind = kind.label := by
  cases kind <;> rfl

/-- Only the labels that kinds have matter for the form of inferred types. -/
theorem FieldType.Inferred.of_labels {labels labels' : CustomLabels}
    (hlabels : ∀ kind, labels.label kind = labels'.label kind) (h : type.Inferred labels) :
    type.Inferred labels' := by
  induction h with
  | leaf hf hl => exact .leaf hf (hl.trans (hlabels _))
  | node hf hk hl hne hd _ ih => exact .node hf hk (hl.trans (hlabels _)) hne hd ih

/-- Which labels are custom is no matter to a shape: what counts is the label of each kind. -/
theorem Shape.Inferred.of_labels {labels labels' : CustomLabels}
    (hlabels : ∀ kind, labels.label kind = labels'.label kind) (h : shape.Inferred labels) :
    shape.Inferred labels' :=
  ⟨h.1, fun field hfield => (h.2 field hfield).of_labels hlabels⟩

/-! ## Values conform to the labels of their types -/

/-- A value whose type has a kind's label and no fields conforms to that label. -/
theorem conforms_leaf {value : Json} (kind : TypeKind) {a : FieldType} (hv : kind.Admits value)
    (hl : a.Like type) (hf : a.fields = none) (hlabel : a.label = kind.label) :
    Conforms store (store.labelOf type) false value := by
  rw [Store.labelOf_of_none (FieldType.nested?_of_fields_eq_none (hl.leaf hf)), ← hl.label_eq,
    hlabel]
  exact .builtIn (TypeKind.ofLabel?_label kind) hv

theorem isArray_infer {value : Json} (h : ∀ inner, value ≠ .array inner) :
    (value.infer policy).isArray = false := by
  cases value with
  | array items => exact absurd rfl (h items)
  | _ => rfl

section Values

variable (hstore : store.Readable)

include hstore

/-- An object conforms to a declaration whose shape is the same as that of the object, if its members
conform to all types that agree with theirs. -/
theorem conforms_declaration {members : List (String × Json)} (hd : Entries.Distinct members)
    {declaration : Declaration} (hmem : declaration ∈ store.entries)
    (hp : Shape.Proper (Entries.ofList (Json.inferMembers policy members)))
    (hsame : declaration.shape.same (Entries.ofList (Json.inferMembers policy members)) = true)
    (ih : ∀ member ∈ members, ∀ type : FieldType, type.Inferred {} →
      (∀ nested, type.nested? = some nested → ∃ d, store.find? nested = some d) →
      FieldType.agree FieldType.sameMarks (member.2.infer policy) type = true →
      Conforms store (store.labelOf type) type.isArray member.2) :
    Conforms store declaration.name false (.object members) := by
  have hinferred := hstore.inferred declaration hmem
  have hsymm := Shape.same_symm hinferred.proper hp hsame
  rw [Json.ofList_inferMembers hd] at hsame hsymm
  have hfield : ∀ member ∈ members, ∃ type, (member.1, type) ∈ declaration.shape ∧
      FieldType.agree FieldType.sameMarks (member.2.infer policy) type = true :=
    fun member hmember => Shape.exists_field_of_same hsymm (List.mem_map_of_mem hmember)
  refine .declared (hstore.unreserved declaration hmem)
    (Store.byName?_of_mem hstore.names hmem) ?_ ?_ ?_
  · intro member hmember
    obtain ⟨type, htype, -⟩ := hfield member hmember
    exact ⟨_, List.mem_map_of_mem htype, rfl⟩
  · intro member hmember tuple htuple hkey
    obtain ⟨⟨key, type⟩, htype, rfl⟩ := List.mem_map.mp htuple
    obtain ⟨other, hother, hagree⟩ := hfield member hmember
    -- The declaration has one field of the key.
    have heq : other = type := by
      rw [show member.1 = key from hkey.symm] at hother
      exact Entries.eq_of_mem hinferred.1 hother htype
    subst heq
    exact ih member hmember other (hinferred.2 _ htype)
      (hstore.closed declaration hmem (key, other) htype) hagree
  · intro tuple htuple _
    obtain ⟨field, htype, rfl⟩ := List.mem_map.mp htuple
    obtain ⟨other, hother, -⟩ := Shape.exists_field_of_same hsame htype
    obtain ⟨member, hmember, heq⟩ := List.mem_map.mp hother
    have hkey : (store.tuple field).key = member.1 := (congrArg Prod.fst heq).symm
    rw [hkey]
    exact Entries.mem_keys_of_mem hmember

/-- A value conforms to the label of every type that is like its own. -/
theorem conforms_of_like (hlabels : ∀ kind, policy.labels.label kind = kind.label) {value : Json}
    (hp : value.Proper) (hu : value.Uniform policy) (ht : type.Inferred {})
    (hc : ∀ nested, type.nested? = some nested → ∃ d, store.find? nested = some d)
    (hl : (value.infer policy).Like type) :
    Conforms store (store.labelOf type) (value.infer policy).isArray value := by
  induction value using Json.parts_induction generalizing type with
  | null =>
      rw [Json.infer] at hl ⊢
      exact conforms_leaf .unknown trivial hl rfl (hlabels .unknown)
  | bool b =>
      rw [Json.infer] at hl ⊢
      exact conforms_leaf .boolean trivial hl rfl (hlabels .boolean)
  | number n =>
      rw [Json.infer] at hl ⊢
      exact conforms_leaf .number trivial hl rfl (hlabels .number)
  | string s =>
      rw [Json.infer] at hl ⊢
      exact conforms_leaf .string trivial hl rfl (hlabels .string)
  | array items ih =>
      rw [Json.infer] at hl ⊢
      cases items with
      | nil =>
          rw [Json.inferItems]
          exact .array fun item hitem => absurd hitem List.not_mem_nil
      | cons first rest =>
          rw [Json.inferItems] at hl ⊢
          -- The type is that of the first item, and every other item has an equal one.
          refine .array fun item hitem => ?_
          cases hu with
          | array hflat hequal hu =>
              have hagree := FieldType.agree_mono FieldType.sameMarks_of_equalMarks
                (hequal item hitem first List.mem_cons_self)
              have hfirst : (first.infer policy).Like type := ⟨hl.label_eq, hl.leaf, hl.node⟩
              have hitemlike := (FieldType.like_of_agree hagree).trans hfirst
              have hconforms := ih item hitem (hp.of_item item hitem) (hu item hitem) ht hc hitemlike
              rwa [isArray_infer (hflat item hitem)] at hconforms
  | object members ih =>
      obtain ⟨hd, hpmembers⟩ := hp.of_members
      cases hu with
      | object humembers =>
          cases members with
          | nil =>
              rw [Json.infer, Json.inferMembers] at hl ⊢
              exact conforms_leaf .object trivial hl rfl (hlabels .object)
          | cons member members =>
              -- The declaration that is found for the type's shape may stem from another document: its
              -- shape is only known to be the same as the object's.
              obtain ⟨others, hothers, hsame⟩ := hl.node _ rfl
              have hn : type.nested? = some others := by rw [ht.regular.nested?_eq, hothers]
              obtain ⟨d, hfind⟩ := hc others hn
              have hshape : Shape.Proper
                  (Entries.ofList (Json.inferMembers policy (member :: members))) :=
                (policy.inferred_ofList (Json.inferred_inferMembers policy _)).proper
              have hothersproper : Shape.Proper others := ht.proper.fields hothers
              have hdsame := Shape.same_trans (Store.same_of_find? hfind)
                (Shape.same_symm hshape hothersproper hsame)
              have hflat : ∀ inner, Json.object (member :: members) ≠ .array inner :=
                fun _ h => Json.noConfusion h
              rw [Store.labelOf_of_some hn hfind, isArray_infer hflat]
              refine conforms_declaration hstore hd (Store.mem_of_find? hfind) hshape hdsame ?_
              intro other hother type ht hc hagree
              have harray := (FieldType.sameMarks_iff.mp (FieldType.node_of_agree hagree)).2.2
              rw [← harray]
              exact ih other hother (hpmembers other hother) (humembers other hother) ht hc
                (FieldType.like_of_agree hagree)

end Values

/-! ## Builds of documents -/

/-- A step that builds a value of any sort with the kinds' own labels and with fresh names. -/
structure BuildStep.Plain (step : BuildStep) : Prop extends step.OwnLabels where
  collision : step.options.collision = .disambiguate

/-- A step that builds an object document in this way. -/
structure BuildStep.Standard (step : BuildStep) : Prop extends step.Plain where
  document : ∃ members, step.source = .document (.object members)

variable {step : BuildStep} {steps : List BuildStep} {final : Store} {roots : List String}

theorem BuildStep.Standard.exists_infers (h : step.Standard) : ∃ shape, step.Infers shape := by
  obtain ⟨members, hsource⟩ := h.document
  exact ⟨Entries.ofList (Json.inferMembers step.options.policy members), by
    rw [BuildStep.Infers, hsource]; rfl⟩

theorem Store.readable_empty : Store.empty.Readable where
  inferred _ h := absurd h List.not_mem_nil
  closed := closed_empty
  rendered _ h := absurd h List.not_mem_nil
  names := List.nodup_nil
  unreserved _ h := absurd h List.not_mem_nil

/-- A build keeps declarations readable. -/
theorem Store.Readable.declareInto (h : store.Readable) (hstep : step.Plain)
    (hshape : step.Infers shape) : (declareInto shape step.options store).store.Readable := by
  have hinferred : shape.Inferred {} :=
    hshape.inferred.of_labels fun kind => by rw [hstep.labels, CustomLabels.label_default]
  have hp := hinferred.proper
  have hreached : Synthesis.Reached store (declareRoot shape step.options store).2 := by
    rw [declareRoot, hstep.collision]
    exact .declare .start hp _
  refine ⟨?_, ?_, ?_, hreached.invariant.names_nodup h.names, ?_⟩
  · intro d hd
    rcases Synthesis.declare_within _ hp _ (.start store) hd with hd | hwithin
    · exact h.inferred d hd
    · exact hinferred.of_within hwithin
  · exact Synthesis.declare_track (Synthesis.tracks_closed _) hp _ (.start store) h.closed
  · exact (Synthesis.declare_track (Synthesis.tracks_rendered _) hp _ (.start store)
      ⟨h.closed, h.rendered⟩).2
  · intro d hd
    rcases Synthesis.declare_name_eq hp _ (.start store) hd with hd | ⟨wish, taken, hname, hwish⟩
    · exact h.unreserved d hd
    · -- A new name is the root's or a chain's, and a number at its end makes no label of it.
      rw [hname]
      refine Naming.ofLabel?_claim _ _ (Naming.ofLabel?_candidate fun name hsome => ?_)
      rcases hwish with rfl | ⟨chain, rfl⟩
      · cases hsome
        exact hstep.root
      · cases hsome
        exact Naming.ofLabel?_derived chain

/-- Builds keep declarations readable. -/
theorem Store.Readable.buildAll (h : store.Readable) (hsteps : ∀ step ∈ steps, step.Standard)
    (hbuild : buildAll steps store = .ok (roots, final)) : final.Readable := by
  induction steps generalizing store roots with
  | nil =>
      cases hbuild
      exact h
  | cons step steps ih =>
      rw [List.forall_mem_cons] at hsteps
      obtain ⟨shape, rest, hshape, hrest, -⟩ := buildAll_cons_eq_ok.mp hbuild
      exact ih (h.declareInto hsteps.1.toPlain hshape) hsteps.2 hrest

/-- In every later store that is readable, a document conforms to the declaration that its build
returned. -/
theorem conforms_root {members : List (String × Json)} (hfinal : final.Readable)
    (hstep : step.Standard) (hsource : step.source = .document (.object members))
    (hshape : step.Infers shape)
    (hextends : final.Extends (declareInto shape step.options store).store)
    (hp : (Json.object members).Proper) (hu : (Json.object members).Uniform step.options.policy) :
    Conforms final (declareInto shape step.options store).root false (.object members) := by
  have heq : shape = Entries.ofList (Json.inferMembers step.options.policy members) := by
    rw [BuildStep.Infers, hsource] at hshape
    cases hshape
    rfl
  have hproper := hshape.inferred.proper
  obtain ⟨d, hfind, hname⟩ := declareInto_find? hproper step.options store
  -- Later builds only add, so the root is still found in the final store.
  have hfound := hextends.find? hfind
  subst heq
  rw [← hname]
  obtain ⟨hd, hpmembers⟩ := hp.of_members
  refine conforms_declaration hfinal hd (Store.mem_of_find? hfound) hproper
    (Store.same_of_find? hfound) ?_
  intro member hmember type ht hc hagree
  have harray := (FieldType.sameMarks_iff.mp (FieldType.node_of_agree hagree)).2.2
  rw [← harray]
  cases hu with
  | object humembers =>
      exact conforms_of_like hfinal hstep.labels (hpmembers member hmember)
        (humembers member hmember) ht hc (FieldType.like_of_agree hagree)

/-- **Documents conform to their declarations.** Object documents are built one after the other into an
empty store, with the kinds' own labels and with fresh names. In the store that is left, no declaration
has the name of a kind's label and no two have one name, every declaration is rendered from its fields'
tuples, and every document whose arrays are uniform conforms to the declaration whose name its build
returned. -/
theorem documents_conform (steps : List BuildStep) (hsteps : ∀ step ∈ steps, step.Standard) :
    ∃ roots final, buildAll steps .empty = .ok (roots, final) ∧ roots.length = steps.length ∧
      final.names.Nodup ∧
      (∀ d ∈ final.entries, TypeKind.ofLabel? d.name = none ∧
        ∃ mode, d.text = FieldTuple.text mode d.name (final.tuples d.shape)) ∧
      ∀ step root, (step, root) ∈ steps.zip roots → ∀ document : Json,
        step.source = .document document → document.Proper →
        document.Uniform step.options.policy → Conforms final root false document := by
  obtain ⟨roots, final, hbuild⟩ :=
    exists_buildAll (fun step hstep => (hsteps step hstep).exists_infers) .empty
  have hreadable := Store.readable_empty.buildAll hsteps hbuild
  refine ⟨roots, final, hbuild, length_of_buildAll hbuild, hreadable.names,
    fun d hd => ⟨hreadable.unreserved d hd, hreadable.rendered d hd⟩, ?_⟩
  intro step root hmem document hsource hp hu
  have hstandard := hsteps step (List.of_mem_zip hmem).1
  obtain ⟨shape, before, hshape, rfl, hextends⟩ := exists_of_mem_zip hbuild hmem
  obtain ⟨members, hobject⟩ := hstandard.document
  rw [hsource] at hobject
  cases hobject
  exact conforms_root hreadable hstandard hsource hshape hextends hp hu

/-- A document with an array of objects of one type. -/
def sightings : Json :=
  .object [("sightings", .array [.object [("species", .string "wren")],
    .object [("species", .string "crane")]])]

theorem documents_conform_sightings :
    (∀ step ∈ [(⟨.document sightings, {}⟩ : BuildStep)], step.Standard) ∧
    ∃ root final, buildAll [⟨.document sightings, {}⟩] .empty = .ok ([root], final) ∧
      Conforms final root false sightings := by
  have hstandard : ∀ step ∈ [(⟨.document sightings, {}⟩ : BuildStep)], step.Standard :=
    List.forall_mem_singleton.mpr ⟨⟨⟨CustomLabels.label_default, by decide⟩, rfl⟩, _, rfl⟩
  have hproper : sightings.Proper := by
    refine .object (by decide) (List.forall_mem_singleton.mpr (.array ?_))
    simp only [List.forall_mem_cons, List.not_mem_nil, IsEmpty.forall_iff, implies_true, and_true]
    exact ⟨.object (by decide) (List.forall_mem_singleton.mpr (.string _)),
      .object (by decide) (List.forall_mem_singleton.mpr (.string _))⟩
  have huniform : sightings.Uniform {} := by
    refine .object (List.forall_mem_singleton.mpr (.array ?_ ?_ ?_))
    · simp
    · simp only [List.forall_mem_cons, List.not_mem_nil, IsEmpty.forall_iff, implies_true, and_true]
      decide
    · simp only [List.forall_mem_cons, List.not_mem_nil, IsEmpty.forall_iff, implies_true, and_true]
      exact ⟨.object (List.forall_mem_singleton.mpr (.string _)),
        .object (List.forall_mem_singleton.mpr (.string _))⟩
  obtain ⟨roots, final, hbuild, hlength, -, -, hconform⟩ := documents_conform _ hstandard
  obtain ⟨root, rfl⟩ := List.length_eq_one_iff.mp hlength
  exact ⟨hstandard, root, final, hbuild,
    hconform _ root List.mem_cons_self _ rfl hproper huniform⟩

end SampleTypes
