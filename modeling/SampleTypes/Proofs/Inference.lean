import SampleTypes.Build
import SampleTypes.Proofs.Json.Basic
import SampleTypes.Proofs.Shape.Nesting

/-!
# What inference yields

Whatever the value is, a document or a node of a graph, the types that inference gives it are of one
form (`FieldType.Inferred`): every type has the policy's label of its kind, and the types with fields
are objects with at least one field, whose keys are distinct. So they are proper and regular, and
sameness can be used on them without further thought.

* `Source.inferred_of_inferShape`: a shape that is inferred is of this form.
* `Source.keysIn_of_inferShape`: all its keys are keys of the value.
-/

namespace SampleTypes

/-- The form of inferred types: labels go with kinds, and fields with objects. -/
inductive FieldType.Inferred (labels : CustomLabels) : FieldType → Prop
  | leaf {type : FieldType} (hf : type.fields = none)
      (hl : type.label = labels.label type.kind) : Inferred labels type
  | node {type : FieldType} {fields : Shape} (hf : type.fields = some fields)
      (hk : type.kind = .object) (hl : type.label = labels.label .object) (hne : fields ≠ [])
      (hd : fields.Distinct) (hi : ∀ field ∈ fields, Inferred labels field.2) : Inferred labels type

/-- The form of inferred shapes. -/
def Shape.Inferred (labels : CustomLabels) (shape : Shape) : Prop :=
  shape.Distinct ∧ ∀ field ∈ shape, field.2.Inferred labels

namespace FieldType.Inferred

variable {labels : CustomLabels} {type : FieldType}

/-- Inferred types have every key once. -/
theorem proper (h : type.Inferred labels) : type.Proper := by
  induction h with
  | leaf hf _ => exact .leaf hf
  | node hf _ _ _ hd _ ih => exact .node hf hd ih

/-- Inferred types have fields only where there is an object to declare. -/
theorem regular (h : type.Inferred labels) : type.Regular := by
  induction h with
  | leaf hf _ =>
      refine .intro ?_ fun fields hsome => ?_
      · rw [hf, nested?_of_fields_eq_none hf]
      · rw [hf] at hsome
        cases hsome
  | node hf hk _ hne _ _ ih =>
      refine .intro ?_ fun fields hsome => ?_
      · rw [hf, nested?_eq_some]
        exact ⟨hk, hf, hne⟩
      · rw [hf] at hsome
        cases hsome
        exact ih

theorem label_eq (h : type.Inferred labels) : type.label = labels.label type.kind := by
  cases h with
  | leaf _ hl => exact hl
  | node _ hk hl _ _ _ => rw [hl, hk]

/-- Markers do not matter. -/
theorem with_marks (h : type.Inferred labels) (optional isArray : Bool) :
    Inferred labels { type with optional := optional, isArray := isArray } := by
  cases h with
  | leaf hf hl => exact .leaf hf hl
  | node hf hk hl hne hd hi => exact .node hf hk hl hne hd hi

end FieldType.Inferred

namespace Shape.Inferred

variable {labels : CustomLabels} {shape nested inner : Shape}

theorem proper (h : shape.Inferred labels) : shape.Proper :=
  ⟨h.1, fun field hfield => (h.2 field hfield).proper⟩

theorem regular (h : shape.Inferred labels) : shape.Regular :=
  fun field hfield => (h.2 field hfield).regular

/-- Nested shapes of an inferred shape were inferred with the same labels. -/
theorem of_nested (h : shape.Inferred labels) {field : String × FieldType} (hfield : field ∈ shape)
    (hn : field.2.nested? = some nested) : nested.Inferred labels := by
  have hfields := FieldType.fields_of_nested? hn
  cases h.2 field hfield with
  | leaf hf _ =>
      rw [hf] at hfields
      cases hfields
  | node hf _ _ _ hd hi =>
      rw [hf] at hfields
      cases hfields
      exact ⟨hd, hi⟩

theorem of_within (h : shape.Inferred labels) (hwithin : inner.Within shape) :
    inner.Inferred labels := by
  induction hwithin with
  | self => exact h
  | deeper hfield hn _ ih => exact ih (h.of_nested hfield hn)

end Shape.Inferred

/-! ## Keys -/

/-- All keys in the document have the property. -/
inductive Json.KeysIn (K : String → Prop) : Json → Prop
  | null : KeysIn K .null
  | bool (b : Bool) : KeysIn K (.bool b)
  | number (n : Json.Number) : KeysIn K (.number n)
  | string (s : String) : KeysIn K (.string s)
  | array {items : List Json} (h : ∀ item ∈ items, KeysIn K item) : KeysIn K (.array items)
  | object {members : List (String × Json)} (hk : ∀ member ∈ members, K member.1)
      (h : ∀ member ∈ members, KeysIn K member.2) : KeysIn K (.object members)

def Graph.KeysIn (K : String → Prop) (graph : Graph) : Prop :=
  ∀ node entries, graph.look node = .keyed entries → ∀ entry ∈ entries, K entry.1

def Source.KeysIn (K : String → Prop) : Source → Prop
  | .document value => value.KeysIn K
  | .node graph _ => graph.KeysIn K

inductive FieldType.KeysIn (K : String → Prop) : FieldType → Prop
  | leaf {type : FieldType} (hf : type.fields = none) : KeysIn K type
  | node {type : FieldType} {fields : Shape} (hf : type.fields = some fields)
      (hk : ∀ field ∈ fields, K field.1) (h : ∀ field ∈ fields, KeysIn K field.2) : KeysIn K type

def Shape.KeysIn (K : String → Prop) (shape : Shape) : Prop :=
  ∀ field ∈ shape, K field.1 ∧ field.2.KeysIn K

theorem Shape.KeysIn.of_nested {K : String → Prop} {shape nested : Shape} (h : shape.KeysIn K)
    {field : String × FieldType} (hfield : field ∈ shape) (hn : field.2.nested? = some nested) :
    nested.KeysIn K := by
  have hfields := FieldType.fields_of_nested? hn
  cases (h field hfield).2 with
  | leaf hf =>
      rw [hf] at hfields
      cases hfields
  | node hf hk hi =>
      rw [hf] at hfields
      cases hfields
      exact fun inner hinner => ⟨hk inner hinner, hi inner hinner⟩

theorem Json.keysIn_true (value : Json) : value.KeysIn fun _ => True := by
  induction value using Json.parts_induction with
  | null => exact .null
  | bool b => exact .bool b
  | number n => exact .number n
  | string s => exact .string s
  | array items ih => exact .array ih
  | object members ih => exact .object (fun _ _ => trivial) ih

/-! ## What policies keep -/

/-- A property of types that the policy keeps whenever it puts a type together. Keys are asked to have a
property of their own. -/
structure Policy.Keeps (policy : Policy) (K : String → Prop) (P : FieldType → Prop) : Prop where
  leaf : ∀ kind, P (policy.leaf kind)
  absent : P policy.absent
  emptySequence : P policy.emptySequence
  sequenceOf : ∀ {element}, P element → P (policy.sequenceOf element)
  keyedOf : ∀ {entries : List (String × FieldType)}, (∀ entry ∈ entries, K entry.1 ∧ P entry.2) →
    P (policy.keyedOf entries)

namespace Policy

variable (policy : Policy)

/-- Types of entries, taken as fields. -/
theorem inferred_ofList {entries : List (String × FieldType)}
    (h : ∀ entry ∈ entries, entry.2.Inferred policy.labels) :
    Shape.Inferred policy.labels (Entries.ofList entries) :=
  ⟨Entries.distinct_ofList entries, fun entry hentry => h entry (Entries.mem_of_mem_ofList hentry)⟩

/-- Whatever the keys are, types have the form of inferred ones. -/
theorem keeps_inferred : policy.Keeps (fun _ => True) (·.Inferred policy.labels) where
  leaf _ := .leaf rfl rfl
  absent := .leaf rfl rfl
  emptySequence := .leaf rfl rfl
  sequenceOf h := h.with_marks _ _
  keyedOf := by
    intro entries h
    cases entries with
    | nil => exact .leaf rfl rfl
    | cons entry rest =>
        obtain ⟨hd, hi⟩ := inferred_ofList policy fun entry hentry => (h entry hentry).2
        refine .node rfl rfl rfl ?_ hd hi
        exact Entries.ofList_ne_nil (List.cons_ne_nil entry rest)

/-- Entries that are put together have no keys but those that were given. -/
theorem keysIn_ofList {K : String → Prop} {entries : List (String × FieldType)}
    (h : ∀ entry ∈ entries, K entry.1 ∧ entry.2.KeysIn K) :
    Shape.KeysIn K (Entries.ofList entries) :=
  fun entry hentry => h entry (Entries.mem_of_mem_ofList hentry)

/-- No key comes from elsewhere. -/
theorem keeps_keysIn (K : String → Prop) : policy.Keeps K (·.KeysIn K) where
  leaf _ := .leaf rfl
  absent := .leaf rfl
  emptySequence := .leaf rfl
  sequenceOf := by
    intro element h
    cases h with
    | leaf hf => exact .leaf hf
    | node hf hk hi => exact .node hf hk hi
  keyedOf := by
    intro entries h
    cases entries with
    | nil => exact .leaf rfl
    | cons entry rest =>
        have hshape := keysIn_ofList h
        exact .node rfl (fun field hfield => (hshape field hfield).1) fun field hfield =>
          (hshape field hfield).2

end Policy

/-! ## Documents -/

namespace Json

variable {policy : Policy} {K : String → Prop} {P : FieldType → Prop} {value : Json}

theorem inferMembers_eq_map (policy : Policy) (members : List (String × Json)) :
    inferMembers policy members = members.map fun member => (member.1, member.2.infer policy) := by
  induction members with
  | nil => rw [inferMembers, List.map_nil]
  | cons member members ih => rw [inferMembers, ih, List.map_cons]

/-- What the policy keeps holds of the type of a document. -/
theorem keeps_infer (h : policy.Keeps K P) (hkeys : value.KeysIn K) : P (value.infer policy) := by
  induction hkeys with
  | null =>
      rw [infer]
      exact h.absent
  | bool b =>
      rw [infer]
      exact h.leaf .boolean
  | number n =>
      rw [infer]
      exact h.leaf .number
  | string s =>
      rw [infer]
      exact h.leaf .string
  | @array items _ ih =>
      rw [infer]
      cases items with
      | nil =>
          rw [inferItems]
          exact h.emptySequence
      | cons first rest =>
          rw [inferItems]
          exact h.sequenceOf (ih first List.mem_cons_self)
  | @object members hk _ ih =>
      rw [infer, inferMembers_eq_map]
      refine h.keyedOf fun entry hentry => ?_
      obtain ⟨member, hmember, rfl⟩ := List.mem_map.mp hentry
      exact ⟨hk member hmember, ih member hmember⟩

theorem inferred_infer (policy : Policy) (value : Json) :
    (value.infer policy).Inferred policy.labels :=
  keeps_infer policy.keeps_inferred value.keysIn_true

theorem inferred_inferMembers (policy : Policy) (members : List (String × Json)) :
    ∀ entry ∈ inferMembers policy members, entry.2.Inferred policy.labels := by
  rw [inferMembers_eq_map]
  intro entry hentry
  obtain ⟨member, -, rfl⟩ := List.mem_map.mp hentry
  exact inferred_infer policy member.2

/-- The fields of an object whose keys are distinct are its members' types, in order. -/
theorem ofList_inferMembers {members : List (String × Json)} (hd : Entries.Distinct members)
    (policy : Policy) : Entries.ofList (inferMembers policy members) =
      members.map fun member => (member.1, member.2.infer policy) := by
  have hkeys : Entries.keys (inferMembers policy members) = Entries.keys members := by
    rw [inferMembers_eq_map, Entries.keys, Entries.keys, List.map_map]
    rfl
  rw [Entries.ofList_of_distinct (by rwa [Entries.Distinct, hkeys]), inferMembers_eq_map]

/-- The shape of an object of a document. -/
theorem inferred_of_inferShape {shape : Shape} (h : value.inferShape policy = .ok shape) :
    shape.Inferred policy.labels := by
  cases value with
  | object members =>
      cases h
      exact policy.inferred_ofList (inferred_inferMembers policy members)
  | _ => cases h

/-- The keys of a shape all stem from its value. -/
theorem keysIn_of_inferShape {shape : Shape} (hkeys : value.KeysIn K)
    (h : value.inferShape policy = .ok shape) : shape.KeysIn K := by
  cases hkeys with
  | @object members hk hi =>
      cases h
      refine Policy.keysIn_ofList fun entry hentry => ?_
      rw [inferMembers_eq_map] at hentry
      obtain ⟨member, hmember, rfl⟩ := List.mem_map.mp hentry
      exact ⟨hk member hmember, keeps_infer (policy.keeps_keysIn K) (hi member hmember)⟩
  | _ => cases h

end Json

/-! ## Nodes of graphs -/

namespace Walker

variable {α β : Type} {P : α → Prop} {Q : β → Prop} {walker : Walker α}

/-- Whatever the walk yields has the property. -/
def Yields (walker : Walker α) (P : α → Prop) : Prop :=
  ∀ walk a after, walker walk = .ok a after → P a

theorem yields_pure {a : α} (h : P a) : Yields (pure a) P := by
  intro walk b after heq
  cases heq
  exact h

/-- What a walker yields may be assumed of what comes next. -/
theorem Yields.bind {next : α → Walker β} (h : walker.Yields P)
    (hnext : ∀ a, P a → (next a).Yields Q) : Yields (walker >>= next) Q := by
  intro walk b after heq
  change EStateM.bind walker next walk = .ok b after at heq
  rw [EStateM.bind] at heq
  split at heq
  · next a between hfirst => exact hnext a (h walk a between hfirst) between b after heq
  · cases heq

theorem yields_repeated : Yields repeated P := by
  intro walk a after heq
  cases heq

theorem Yields.enter (h : walker.Yields P) (node : Nat) : (enter node walker).Yields P := by
  intro walk a after heq
  rw [Walker.enter] at heq
  split at heq
  · exact yields_repeated walk a after heq
  · split at heq
    · next b between hinside =>
        cases heq
        exact h _ _ _ hinside
    · cases heq

theorem Yields.descend (h : walker.Yields P) (key : String) : (descend key walker).Yields P := by
  intro walk a after heq
  rw [Walker.descend] at heq
  split at heq
  · next b between hbelow =>
      cases heq
      exact h _ _ _ hbelow
  · cases heq

theorem Yields.of_run (h : walker.Yields P) {a : α} (hrun : walker.run = .ok a) : P a := by
  rw [run] at hrun
  split at hrun
  · next b after hwalk =>
      cases hrun
      exact h _ _ _ hwalk
  · cases hrun

end Walker

namespace Graph

open Walker

variable {policy : Policy} {graph : Graph} {K : String → Prop} {P : FieldType → Prop}

/-- Observing entries yields types under their keys. -/
theorem yields_observeEntries {observe : Nat → Walker FieldType}
    (h : ∀ node, (observe node).Yields P) {entries : List (String × Nat)}
    (hkeys : ∀ entry ∈ entries, K entry.1) :
    (observeEntries observe entries).Yields fun types =>
      ∀ entry ∈ types, K entry.1 ∧ P entry.2 := by
  induction entries with
  | nil =>
      apply yields_pure
      intro entry hentry
      cases hentry
  | cons entry entries ih =>
      rw [List.forall_mem_cons] at hkeys
      refine ((h entry.2).descend entry.1).bind fun type htype => ?_
      refine (ih hkeys.2).bind fun types htypes => ?_
      exact yields_pure (List.forall_mem_cons.mpr ⟨⟨hkeys.1, htype⟩, htypes⟩)

/-- What one look at a node yields, if its parts yield what the policy keeps. -/
theorem yields_observeView (hkeeps : policy.Keeps K P) {observe : Nat → Walker FieldType}
    (h : ∀ node, (observe node).Yields P) (node : Nat) {view : View Nat}
    (hkeys : ∀ entries, view = .keyed entries → ∀ entry ∈ entries, K entry.1) :
    (observeView policy observe node view).Yields P := by
  cases view with
  | text => exact yields_pure (hkeeps.leaf .string)
  | numeric => exact yields_pure (hkeeps.leaf .number)
  | boolean => exact yields_pure (hkeeps.leaf .boolean)
  | absent => exact yields_pure hkeeps.absent
  | other => exact yields_pure (hkeeps.leaf .unknown)
  | sequence first? =>
      cases first? with
      | none => exact (yields_pure hkeeps.emptySequence).enter node
      | some first =>
          refine Yields.enter (((h first).descend "0").bind fun element helement => ?_) node
          exact yields_pure (hkeeps.sequenceOf helement)
  | keyed entries =>
      have hentries := yields_observeEntries h (hkeys entries rfl)
      refine Yields.enter (hentries.bind fun types htypes => ?_) node
      exact yields_pure (hkeeps.keyedOf htypes)

/-- What the policy keeps holds of the type of a node. -/
theorem yields_observeWithin (hkeeps : policy.Keeps K P) (hkeys : graph.KeysIn K)
    (bound node : Nat) : (observeWithin policy graph bound node).Yields P := by
  induction bound generalizing node with
  | zero => exact yields_repeated
  | succ bound ih => exact yields_observeView hkeeps ih node (hkeys node)

/-- The shape of a keyed node has the types of the node's entries. -/
theorem exists_of_inferShape (hkeeps : policy.Keeps K P) (hkeys : graph.KeysIn K) {root : Nat}
    {shape : Shape} (h : graph.inferShape policy root = .ok shape) :
    ∃ types, shape = Entries.ofList types ∧ ∀ entry ∈ types, K entry.1 ∧ P entry.2 := by
  have hyields : (observeShape policy graph root).Yields fun shape =>
      ∃ types, shape = Entries.ofList types ∧ ∀ entry ∈ types, K entry.1 ∧ P entry.2 := by
    unfold observeShape
    cases hlook : graph.look root with
    | keyed entries =>
        have hentries := yields_observeEntries
          (yields_observeWithin hkeeps hkeys (graph.nodes.size + 1)) (hkeys root entries hlook)
        refine Yields.enter (hentries.bind fun types htypes => ?_) root
        exact yields_pure ⟨types, rfl, htypes⟩
    | _ =>
        intro walk a after heq
        cases heq
  exact hyields.of_run h

end Graph

/-! ## Shapes that are inferred -/

namespace Source

variable {source : Source} {policy : Policy} {shape : Shape}

/-- A shape that is inferred, from a document or from a node, has the form of inferred shapes. -/
theorem inferred_of_inferShape (h : source.inferShape policy = .ok shape) :
    shape.Inferred policy.labels := by
  cases source with
  | document value => exact Json.inferred_of_inferShape h
  | node graph root =>
      have hkeys : graph.KeysIn fun _ => True := fun _ _ _ _ _ => trivial
      obtain ⟨types, rfl, htypes⟩ := Graph.exists_of_inferShape policy.keeps_inferred hkeys h
      exact policy.inferred_ofList fun entry hentry => (htypes entry hentry).2

/-- No key of an inferred shape comes from elsewhere than the value. -/
theorem keysIn_of_inferShape {K : String → Prop} (hkeys : source.KeysIn K)
    (h : source.inferShape policy = .ok shape) : shape.KeysIn K := by
  cases source with
  | document value => exact Json.keysIn_of_inferShape hkeys h
  | node graph root =>
      obtain ⟨types, rfl, htypes⟩ := Graph.exists_of_inferShape (policy.keeps_keysIn K) hkeys h
      exact Policy.keysIn_ofList htypes

end Source

end SampleTypes
