import SampleTypes.Proofs.Graph.Unfolding
import SampleTypes.Proofs.Inference.Composition
import SampleTypes.Proofs.Shape.Canonical

/-!
# Nodes of inferred types

Every node of an inferred type stands for a value: the one that is found behind the same keys
(`Source.Behind`). On the way, and in the end, a sequence is represented by its first element, and that by
its own first element, until something else is reached (`Source.Core`).

What a node says of its value is split between the two (`Source.Describes`). Kind, label and fields come from
the core, however many sequences are around it. The markers come from the value itself: an absent value or
an empty sequence makes the node optional only if it is the value, and not if it is the first element.
-/

namespace SampleTypes

/-- The kind of the values that are seen like this, apart from sequences with elements. -/
def View.kind {α : Type} : View α → TypeKind
  | .text => .string
  | .numeric => .number
  | .boolean => .boolean
  | .keyed _ => .object
  | .absent | .sequence _ | .other => .unknown

namespace Source

/-- What is reached by taking first elements for as long as there are any. -/
inductive Core : Source → Source → Prop
  | self {source : Source} (h : ∀ first, source.view ≠ .sequence (some first)) : Core source source
  | first {source first core : Source} (h : source.view = .sequence (some first))
      (hcore : Core first core) : Core source core

/-- What is found behind a path of keys. A repeated key leads to its last entry. -/
inductive Behind : Source → List String → Source → Prop
  | here {source : Source} : Behind source [] source
  | key {source object inner value : Source} {entries : List (String × Source)} {key : String}
      {path : List String} (hcore : source.Core object) (hview : object.view = .keyed entries)
      (hfind : Entries.find? key entries.reverse = some inner) (hrest : Behind inner path value) :
      Behind source (key :: path) value

/-- The node says of the value what the policy wants it to say. -/
structure Describes (policy : Policy) (value : Source) (node : FieldType) : Prop where
  kind : ∃ core, value.Core core ∧ node.kind = core.view.kind
  label : node.label = policy.labels.label node.kind
  /-- Fields are given for objects that have entries, and for nothing else. -/
  fields_iff : node.fields.isSome = true ↔ node.kind = .object ∧
    ∃ object entries, value.Core object ∧ object.view = .keyed entries ∧ entries ≠ []
  fields : ∀ fields, node.fields = some fields → fields ≠ [] ∧ Entries.Distinct fields
  isArray_iff : node.isArray = true ↔ ∃ first?, value.view = .sequence first?
  optional_iff : node.optional = true ↔ policy.forceOptional = true ∨ value.view = .absent ∨
    value.view = .sequence none
  /-- Whatever the first element is, it does not make a sequence optional. -/
  optional_sequence : ∀ first, value.view = .sequence (some first) →
    node.optional = policy.forceOptional

variable {policy : Policy} {source core other : Source} {type node : FieldType} {shape : Shape}
  {path : List String}

/-! ## Cores -/

theorem Core.unique (h : source.Core core) (h' : source.Core other) : core = other := by
  induction h with
  | self hnot =>
      cases h' with
      | self _ => rfl
      | first hview _ => exact absurd hview (hnot _)
  | first hview _ ih =>
      cases h' with
      | self hnot => exact absurd hview (hnot _)
      | first hview' hcore =>
          cases hview.symm.trans hview'
          exact ih hcore

/-- A core is no sequence with elements. -/
theorem Core.view_ne (h : source.Core core) (first : Source) :
    core.view ≠ .sequence (some first) := by
  induction h with
  | self hnot => exact hnot first
  | first _ _ ih => exact ih

theorem Behind.unique {value other : Source} (h : source.Behind path value)
    (h' : source.Behind path other) : value = other := by
  induction h with
  | here =>
      cases h'
      rfl
  | key hcore hview hfind _ ih =>
      cases h' with
      | key hcore' hview' hfind' hrest =>
          cases hcore.unique hcore'
          cases hview.symm.trans hview'
          cases hfind.symm.trans hfind'
          exact ih hrest

/-- Where a type is inferred, the parts of a value come before it. -/
theorem parts_induction {motive : Source → Prop} (h : source.infer policy = .ok type)
    (step : ∀ source : Source, (∀ part ∈ source.view.parts, motive part.2) → motive source) :
    motive source := by
  cases source with
  | document value =>
      -- Documents are finite, whatever is inferred of them.
      clear h
      induction value using Json.parts_induction with
      | array items ih =>
          apply step
          intro part hpart
          cases items with
          | nil => exact absurd hpart List.not_mem_nil
          | cons first rest =>
              cases List.mem_singleton.mp hpart
              exact ih first List.mem_cons_self
      | object members ih =>
          apply step
          intro part hpart
          obtain ⟨member, hmember, rfl⟩ := List.mem_map.mp hpart
          exact ih member hmember
      | _ => exact step _ fun part hpart => absurd hpart List.not_mem_nil
  | node graph root =>
      -- Inference has succeeded on the graph, so no route repeats a container.
      refine Graph.parts_induction (Graph.exists_infer_iff.mp ⟨type, h⟩) (fun node ih => ?_)
        (motive := fun node => motive (.node graph node))
      apply step
      intro part hpart
      rw [view, View.parts_map] at hpart
      obtain ⟨own, hown, rfl⟩ := List.mem_map.mp hpart
      exact ih own hown

/-- A value that has a type has a core. -/
theorem exists_core (h : source.infer policy = .ok type) : ∃ core, source.Core core := by
  refine parts_induction h (motive := fun source => ∃ core, source.Core core) fun source ih => ?_
  by_cases hview : ∃ first, source.view = .sequence (some first)
  · obtain ⟨first, hview⟩ := hview
    rw [hview] at ih
    obtain ⟨core, hcore⟩ := ih ("0", first) List.mem_cons_self
    exact ⟨core, .first hview hcore⟩
  · exact ⟨source, .self fun first hfirst => hview ⟨first, hfirst⟩⟩

/-! ## One node -/

/-- The type of a sequence is that of its first element, with other markers. -/
theorem exists_element {first : Source} (hview : source.view = .sequence (some first))
    (h : source.infer policy = .ok type) :
    ∃ element, first.infer policy = .ok element ∧ type = policy.sequenceOf element := by
  rw [infer_eq_ok_iff, hview] at h
  obtain ⟨types, hfound, rfl⟩ := h
  obtain ⟨found, rest, ⟨-, helement⟩, -, rfl⟩ := List.forall₂_cons_left_iff.mp hfound
  exact ⟨found.2, helement, rfl⟩

/-- The type of a value and that of its core differ in markers only. -/
theorem Core.exists_infer (hcore : source.Core core) (h : source.infer policy = .ok type) :
    ∃ own, core.infer policy = .ok own ∧ type.kind = own.kind ∧ type.label = own.label ∧
      type.fields = own.fields := by
  induction hcore generalizing type with
  | self _ => exact ⟨type, h, rfl, rfl, rfl⟩
  | first hview _ ih =>
      obtain ⟨element, helement, rfl⟩ := exists_element hview h
      obtain ⟨own, hown, hkind, hlabel, hfields⟩ := ih helement
      exact ⟨own, hown, hkind, hlabel, hfields⟩

/-- The type of a keyed value. -/
theorem infer_of_keyed {entries : List (String × Source)} (hview : source.view = .keyed entries)
    (h : source.infer policy = .ok type) : ∃ shape, source.inferShape policy = .ok shape ∧
      type = { policy.leaf .object with fields := if entries.isEmpty then none else some shape } := by
  rw [infer_eq_map_inferShape policy hview, Graph.map_eq_ok] at h
  exact h

/-- What a value that is no sequence with elements has: kind and label by what it is seen as, and no fields
unless it is keyed. -/
theorem own_of_infer (hfirst : ∀ first, source.view ≠ .sequence (some first))
    (h : source.infer policy = .ok type) :
    type.kind = source.view.kind ∧ type.label = policy.labels.label type.kind ∧
      (type.fields = none ∨ ∃ entries, source.view = .keyed entries) := by
  obtain ⟨types, hfound, rfl⟩ := infer_eq_ok_iff.mp h
  cases hview : source.view with
  | keyed entries => exact ⟨rfl, rfl, .inr ⟨entries, rfl⟩⟩
  | sequence first? =>
      cases first? with
      | none =>
          rw [hview] at hfound
          cases hfound
          exact ⟨rfl, rfl, .inl rfl⟩
      | some first => exact absurd hview (hfirst first)
  | _ => exact ⟨rfl, rfl, .inl rfl⟩

/-- Kind and label of a type are those of the core. -/
theorem Core.kind_label_eq (hcore : source.Core core) (h : source.infer policy = .ok type) :
    type.kind = core.view.kind ∧ type.label = policy.labels.label type.kind := by
  obtain ⟨own, hown, hkind, hlabel, -⟩ := hcore.exists_infer h
  obtain ⟨hkind', hlabel', -⟩ := own_of_infer hcore.view_ne hown
  rw [hkind, hlabel]
  exact ⟨hkind', hlabel'⟩

/-- The fields of a type are the shape of the core, if that has entries. -/
theorem Core.fields_eq_some_iff (hcore : source.Core core) (h : source.infer policy = .ok type) :
    type.fields = some shape ↔
      ∃ entries, core.view = .keyed entries ∧ entries ≠ [] ∧ core.inferShape policy = .ok shape := by
  obtain ⟨own, hown, -, -, hfields⟩ := hcore.exists_infer h
  rw [hfields]
  constructor
  · intro hsome
    obtain ⟨-, -, hnone | ⟨entries, hview⟩⟩ := own_of_infer hcore.view_ne hown
    · rw [hnone] at hsome
      cases hsome
    · obtain ⟨inferred, hshape, rfl⟩ := infer_of_keyed hview hown
      cases entries with
      | nil => cases hsome
      | cons entry rest =>
          cases hsome
          exact ⟨_, hview, List.cons_ne_nil entry rest, hshape⟩
  · rintro ⟨entries, hview, hne, hshape⟩
    obtain ⟨inferred, hinferred, rfl⟩ := infer_of_keyed hview hown
    cases hinferred.symm.trans hshape
    simp [hne]

/-- The fields that are inferred for entries have distinct keys, and there are some. -/
theorem fields_of_inferShape {entries : List (String × Source)} (hview : source.view = .keyed entries)
    (hne : entries ≠ []) (h : source.inferShape policy = .ok shape) :
    shape ≠ [] ∧ Entries.Distinct shape := by
  obtain ⟨types, hfound, rfl⟩ := (inferShape_eq_ok_iff hview).mp h
  refine ⟨Entries.ofList_ne_nil ?_, Entries.distinct_ofList types⟩
  rintro rfl
  cases hfound
  exact hne rfl

/-- A type is an array if and only if its source is a sequence. -/
theorem isArray_iff_of_infer (h : source.infer policy = .ok type) :
    type.isArray = true ↔ ∃ first?, source.view = .sequence first? := by
  obtain ⟨types, hfound, rfl⟩ := infer_eq_ok_iff.mp h
  cases hview : source.view with
  | sequence first? => cases types <;> simp [Policy.typeOf, Policy.emptySequence, Policy.sequenceOf]
  | _ => simp [Policy.typeOf, Policy.leaf, Policy.absent, Policy.keyedOf]

/-- A type is optional where the policy forces it, and for null and empty sequences. -/
theorem optional_iff_of_infer (h : source.infer policy = .ok type) :
    type.optional = true ↔ policy.forceOptional = true ∨ source.view = .absent ∨
      source.view = .sequence none := by
  obtain ⟨types, hfound, rfl⟩ := infer_eq_ok_iff.mp h
  cases hview : source.view with
  | sequence first? =>
      rw [hview] at hfound
      cases first? with
      | none =>
          cases hfound
          simp [Policy.typeOf, Policy.emptySequence]
      | some first =>
          cases hfound
          simp [Policy.typeOf, Policy.sequenceOf]
  | _ => simp [Policy.typeOf, Policy.leaf, Policy.absent, Policy.keyedOf]

/-- **The node of a whole value** says of it what it should. -/
theorem describes_of_infer (h : source.infer policy = .ok type) : source.Describes policy type := by
  obtain ⟨core, hcore⟩ := exists_core h
  obtain ⟨hkind, hlabel⟩ := hcore.kind_label_eq h
  have hoptional := optional_iff_of_infer h
  refine ⟨⟨core, hcore, hkind⟩, hlabel, ?_, ?_, isArray_iff_of_infer h, hoptional, ?_⟩
  · rw [Option.isSome_iff_exists]
    simp only [hcore.fields_eq_some_iff h]
    constructor
    · rintro ⟨shape, entries, hview, hne, -⟩
      refine ⟨?_, core, entries, hcore, hview, hne⟩
      rw [hkind, hview]
      rfl
    · rintro ⟨-, object, entries, hobject, hview, hne⟩
      -- The core is unique, so it is the object whose entries are known.
      cases hcore.unique hobject
      obtain ⟨own, hown, -⟩ := hcore.exists_infer h
      obtain ⟨shape, hshape, -⟩ := infer_of_keyed hview hown
      exact ⟨shape, entries, hview, hne, hshape⟩
  · intro fields hfields
    obtain ⟨entries, hview, hne, hshape⟩ := (hcore.fields_eq_some_iff h).mp hfields
    exact fields_of_inferShape hview hne hshape
  · intro first hview
    rw [hview] at hoptional
    simp only [reduceCtorEq, View.sequence.injEq, or_false] at hoptional
    exact Bool.eq_iff_iff.mpr hoptional

/-! ## Paths -/

/-- Behind a key stands what is inferred of its last entry. -/
theorem exists_entry {key : String} {inner : FieldType} (hcore : source.Core core)
    (h : source.infer policy = .ok type) {fields : Shape} (hfields : type.fields = some fields)
    (hinner : Entries.find? key fields = some inner) :
    ∃ entries child, core.view = .keyed entries ∧ Entries.find? key entries.reverse = some child ∧
      child.infer policy = .ok inner := by
  obtain ⟨entries, hview, -, hshape⟩ := (hcore.fields_eq_some_iff h).mp hfields
  have htype := (composed policy hview).types fields hshape key
  rw [hinner, Option.map_some, eq_comm, Option.map_eq_some_iff] at htype
  obtain ⟨child, hchild, hinfer⟩ := htype
  exact ⟨entries, child, hview, hchild, hinfer⟩

/-- A node behind a path stands for the value behind the path. -/
theorem exists_behind (h : source.infer policy = .ok type) (hnode : type.at? path = some node) :
    ∃ value, source.Behind path value ∧ value.infer policy = .ok node := by
  induction path generalizing source type with
  | nil =>
      cases hnode
      exact ⟨source, .here, h⟩
  | cons key path ih =>
      obtain ⟨fields, hfields, hnode⟩ := Option.bind_eq_some_iff.mp hnode
      obtain ⟨inner, hinner, hnode⟩ := Option.bind_eq_some_iff.mp hnode
      obtain ⟨core, hcore⟩ := exists_core h
      obtain ⟨entries, child, hview, hchild, hinfer⟩ := exists_entry hcore h hfields hinner
      obtain ⟨value, hbehind, hvalue⟩ := ih hinfer hnode
      exact ⟨value, .key hcore hview hchild hbehind, hvalue⟩

/-- Every value behind a path has a node there. -/
theorem Behind.exists_node {value : Source} (hbehind : source.Behind path value)
    (h : source.infer policy = .ok type) : ∃ node, type.at? path = some node := by
  induction hbehind generalizing type with
  | here => exact ⟨type, rfl⟩
  | @key source object inner value entries key path hcore hview hfind _ ih =>
      obtain ⟨own, hown, -⟩ := hcore.exists_infer h
      obtain ⟨shape, hshape, -⟩ := infer_of_keyed hview hown
      have hne : entries ≠ [] := by
        rintro rfl
        cases hfind
      have hfields := (hcore.fields_eq_some_iff h).mpr ⟨entries, hview, hne, hshape⟩
      have htype := (composed policy hview).types shape hshape key
      rw [hfind, Option.map_some, Option.map_eq_some_iff] at htype
      obtain ⟨found, hfound, hinfer⟩ := htype
      obtain ⟨node, hnode⟩ := ih hinfer.symm
      refine ⟨node, ?_⟩
      rw [FieldType.at?, hfields]
      simpa [hfound] using hnode

/-! ## Shapes -/

theorem keyed_of_inferShape (h : source.inferShape policy = .ok shape) :
    ∃ entries, source.view = .keyed entries := by
  cases source with
  | document value =>
      cases value with
      | object members => exact ⟨_, rfl⟩
      | _ => cases h
  | node graph root =>
      by_contra hnot
      have hlook : ∀ entries, graph.look root ≠ .keyed entries := by
        intro entries heq
        apply hnot
        rw [view, heq]
        exact ⟨_, rfl⟩
      rw [inferShape, Graph.inferShape_of_not_keyed policy hlook] at h
      cases h

/-- Behind keys, the shape of a value is its type. -/
theorem at?_of_inferShape (h : source.inferShape policy = .ok shape) :
    ∃ type, source.infer policy = .ok type ∧
      ∀ path, path ≠ [] → shape.at? path = type.at? path := by
  obtain ⟨entries, hview⟩ := keyed_of_inferShape h
  refine ⟨_, by rw [infer_eq_map_inferShape policy hview, h]; rfl, ?_⟩
  intro path hpath
  cases path with
  | nil => exact absurd rfl hpath
  | cons key path =>
      rw [Shape.at?, FieldType.at?]
      cases entries with
      | nil =>
          obtain ⟨types, hfound, rfl⟩ := (inferShape_eq_ok_iff hview).mp h
          cases hfound
          rfl
      | cons entry rest => rfl

/-! ## All nodes -/

/-- What stands behind a path, if anything does, stands for the one value that is found there. -/
structure Explains (policy : Policy) (source : Source) (path : List String) (node? : Option FieldType) :
    Prop where
  isSome_iff : node?.isSome = true ↔ ∃ value, source.Behind path value
  unique : ∀ value other, source.Behind path value → source.Behind path other → value = other
  describes : ∀ node, node? = some node → ∀ value, source.Behind path value →
    value.Describes policy node

/-- The node at any path of a type is explained by the value behind that path. -/
theorem explains_at? (h : source.infer policy = .ok type) (path : List String) :
    source.Explains policy path (type.at? path) where
  isSome_iff := by
    rw [Option.isSome_iff_exists]
    constructor
    · rintro ⟨node, hnode⟩
      obtain ⟨value, hbehind, -⟩ := exists_behind h hnode
      exact ⟨value, hbehind⟩
    · rintro ⟨value, hbehind⟩
      exact hbehind.exists_node h
  unique _ _ hbehind hbehind' := hbehind.unique hbehind'
  describes := by
    intro node hnode value hbehind
    obtain ⟨other, hother, hinfer⟩ := exists_behind h hnode
    cases hbehind.unique hother
    exact describes_of_infer hinfer

end Source

/-- **Inferred nodes are well formed**, at every depth, in types and in shapes: there is a node wherever the
value has something to be seen, and it has the kind, the label, the fields and the markers that are due to what
is there. -/
theorem nodes_well_formed (policy : Policy) (source : Source) :
    (∀ type, source.infer policy = .ok type →
      ∀ path, source.Explains policy path (type.at? path)) ∧
    ∀ shape, source.inferShape policy = .ok shape →
      ∀ path, path ≠ [] → source.Explains policy path (shape.at? path) := by
  refine ⟨fun type h path => Source.explains_at? h path, fun shape h path hpath => ?_⟩
  obtain ⟨type, htype, hat⟩ := Source.at?_of_inferShape h
  rw [hat path hpath]
  exact Source.explains_at? htype path

/-- A list of a list of objects, a list that begins with an absent value, and an empty one. -/
def listsOfLists : Json :=
  .object [("lists", .array [.array [.object [("x", .null)], .null]]), ("absent", .array [.null]),
    ("empty", .array [])]

/-- The lists are arrays of objects, however many there are around them. -/
def listsOfListsType : FieldType :=
  ⟨.object, "object", false, false, some [
    ("lists", ⟨.object, "object", false, true, some [("x", ⟨.unknown, "unknown", true, false, none⟩)]⟩),
    ("absent", ⟨.unknown, "unknown", false, true, none⟩),
    ("empty", ⟨.unknown, "unknown", true, true, none⟩)]⟩

theorem nodes_well_formed_listsOfLists :
    (Source.document listsOfLists).infer {} = .ok listsOfListsType ∧
      (Source.document .null).Describes {} ⟨.unknown, "unknown", true, false, none⟩ ∧
      (Source.document (.array [.array [.object [("x", .null)], .null]])).Describes {}
        ⟨.object, "object", false, true, some [("x", ⟨.unknown, "unknown", true, false, none⟩)]⟩ ∧
      (Source.document (.array [.null])).Describes {} ⟨.unknown, "unknown", false, true, none⟩ := by
  have hinfer : (Source.document listsOfLists).infer {} = .ok listsOfListsType := rfl
  obtain ⟨htypes, -⟩ := nodes_well_formed {} (.document listsOfLists)
  have hexplains := htypes _ hinfer
  have hobject : ∀ members, (Source.document (.object members)).Core (.document (.object members)) := by
    intro members
    apply Source.Core.self
    intro first h
    cases h
  refine ⟨hinfer, ?_, ?_, ?_⟩
  · refine (hexplains ["lists", "x"]).describes _ rfl _ (.key (hobject _) rfl rfl ?_)
    exact .key (.first rfl (.first rfl (hobject _))) rfl rfl .here
  · exact (hexplains ["lists"]).describes _ rfl _ (.key (hobject _) rfl rfl .here)
  · exact (hexplains ["absent"]).describes _ rfl _ (.key (hobject _) rfl rfl .here)

end SampleTypes
