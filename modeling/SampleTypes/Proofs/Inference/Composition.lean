import SampleTypes.Proofs.Graph.Composition
import SampleTypes.Proofs.Inference

/-!
# Types from the types of parts

Inference sees a value as one of seven classes with parts (`Source.view`), and the parts are values again.
What it finds for the whole is put together from what it finds for each part on its own, whether the value is
a document or a node of a graph (`Source.infer_eq_ok_iff`, `Source.inferShape_eq_ok_iff`). A walk through a
graph has containers around and keys behind it, and a part may lead back to them; where a type is found,
none of this shows.

For a keyed value this ties the two questions that can be asked, for its type and for its shape, to each
other and to its entries (`Source.Composed`). The main statement is `inference_compositional`.
-/

namespace SampleTypes

namespace View

variable {α β : Type}

def map (f : α → β) : View α → View β
  | .text => .text
  | .numeric => .numeric
  | .boolean => .boolean
  | .absent => .absent
  | .sequence first => .sequence (first.map f)
  | .keyed entries => .keyed (entries.map fun entry => (entry.1, f entry.2))
  | .other => .other

theorem parts_map (f : α → β) (view : View α) :
    (view.map f).parts = view.parts.map fun part => (part.1, f part.2) := by
  cases view with
  | sequence first? => cases first? <;> rfl
  | _ => rfl

/-- The type of a view depends on the types of its parts, not on the parts. -/
theorem typeOf_map (policy : Policy) (f : α → β) (view : View α)
    (types : List (String × FieldType)) :
    policy.typeOf (view.map f) types = policy.typeOf view types := by
  cases view <;> rfl

theorem exists_of_map_eq_keyed {f : α → β} {view : View α} {entries : List (String × β)}
    (h : view.map f = .keyed entries) : ∃ own, view = .keyed own ∧
      entries = own.map fun entry => (entry.1, f entry.2) := by
  cases view with
  | keyed own =>
      cases h
      exact ⟨own, rfl, rfl⟩
  | _ => cases h

end View

namespace Json

/-- The type of a document is put together from the types of its parts. -/
theorem infer_eq_typeOf (policy : Policy) (value : Json) : value.infer policy =
    policy.typeOf value.view (value.view.parts.map fun part => (part.1, part.2.infer policy)) := by
  cases value with
  | array items =>
      rw [infer]
      cases items <;> (rw [inferItems]; rfl)
  | object members =>
      rw [infer, inferMembers_eq_map]
      rfl
  | _ =>
      rw [infer]
      rfl

theorem exists_of_view_eq_keyed {value : Json} {entries : List (String × Json)}
    (h : value.view = .keyed entries) : value = .object entries := by
  cases value with
  | object members =>
      cases h
      rfl
  | _ => cases h

end Json

namespace Source

/-- What inference sees of a value, with its parts as values of their own. -/
def view : Source → View Source
  | .document value => value.view.map .document
  | .node graph root => (graph.look root).map (.node graph)

/-- The type is that of the part, taken on its own. -/
def Found (policy : Policy) (part : String × Source) (found : String × FieldType) : Prop :=
  found.1 = part.1 ∧ part.2.infer policy = .ok found.2

variable {policy : Policy} {source first : Source} {entries : List (String × Source)}
  {types : List (String × FieldType)} {type : FieldType} {shape : Shape}

/-- Parts of documents have the types that are inferred of them. -/
theorem forall₂_found_document {parts : List (String × Json)} :
    List.Forall₂ (Found policy) (parts.map fun part => (part.1, .document part.2)) types ↔
      types = parts.map fun part => (part.1, part.2.infer policy) := by
  rw [List.forall₂_map_left_iff]
  constructor
  · intro h
    induction h with
    | nil => rfl
    | @cons part found _ _ hfound _ ih =>
        obtain ⟨key, type⟩ := found
        obtain ⟨hkey, htype⟩ := hfound
        cases hkey
        cases htype
        rw [List.map_cons, ← ih]
  · rintro rfl
    rw [List.forall₂_map_right_iff, List.forall₂_same]
    exact fun part _ => ⟨rfl, rfl⟩

/-- **A type is put together from the types of the parts**, each taken on its own; there is one if all parts
have one. -/
theorem infer_eq_ok_iff : source.infer policy = .ok type ↔
    ∃ types, List.Forall₂ (Found policy) source.view.parts types ∧
      type = policy.typeOf source.view types := by
  cases source with
  | document value =>
      rw [view, View.parts_map]
      simp only [forall₂_found_document, exists_eq_left, View.typeOf_map, ← Json.infer_eq_typeOf]
      rw [infer, Except.ok.injEq, eq_comm]
  | node graph root =>
      rw [view, View.parts_map]
      simp only [List.forall₂_map_left_iff, View.typeOf_map]
      exact Graph.infer_eq_ok_iff

/-- The shape of a keyed value is put together from the types of the entries, each taken on its own; there is
one if all entries have a type. -/
theorem inferShape_eq_ok_iff (h : source.view = .keyed entries) :
    source.inferShape policy = .ok shape ↔
      ∃ types, List.Forall₂ (Found policy) entries types ∧ shape = Entries.ofList types := by
  cases source with
  | document value =>
      obtain ⟨members, hview, rfl⟩ := View.exists_of_map_eq_keyed h
      cases Json.exists_of_view_eq_keyed hview
      simp only [forall₂_found_document, exists_eq_left]
      rw [inferShape, Json.inferShape, Json.inferMembers_eq_map, Except.ok.injEq, eq_comm]
  | node graph root =>
      obtain ⟨own, hlook, rfl⟩ := View.exists_of_map_eq_keyed h
      simp only [List.forall₂_map_left_iff]
      exact Graph.inferShape_eq_ok_iff hlook

/-- The type of a keyed value holds its shape, unless there are no entries. -/
theorem infer_eq_map_inferShape (policy : Policy) (h : source.view = .keyed entries) :
    source.infer policy = (source.inferShape policy).map fun shape =>
      { policy.leaf .object with fields := if entries.isEmpty then none else some shape } := by
  cases source with
  | document value =>
      obtain ⟨members, hview, rfl⟩ := View.exists_of_map_eq_keyed h
      cases Json.exists_of_view_eq_keyed hview
      rw [infer, Json.infer, inferShape, Json.inferShape, Json.inferMembers_eq_map]
      cases members <;> rfl
  | node graph root =>
      obtain ⟨own, hlook, rfl⟩ := View.exists_of_map_eq_keyed h
      rw [infer, inferShape, Graph.infer_eq_map_inferShape policy hlook, List.isEmpty_map]

/-- A keyed value lacks a shape only because of a cycle. -/
theorem exists_cycle_of_error {fault : InferenceFault} (h : source.view = .keyed entries)
    (hfault : source.inferShape policy = .error fault) : ∃ path, fault = .cycle path := by
  cases source with
  | document value =>
      obtain ⟨members, hview, rfl⟩ := View.exists_of_map_eq_keyed h
      cases Json.exists_of_view_eq_keyed hview
      cases hfault
  | node graph root =>
      obtain ⟨own, hlook, rfl⟩ := View.exists_of_map_eq_keyed h
      obtain ⟨route, -, heq⟩ := (Graph.verdict_inferShape policy hlook).exists_of_error hfault
      exact ⟨_, heq⟩

/-! ## Keyed values -/

/-- How type and shape of a keyed value come from its entries, each of them taken on its own. -/
structure Composed (policy : Policy) (source : Source) (entries : List (String × Source)) : Prop where
  /-- The type is that of an object with the shape as its fields, or with none if there are no entries. Both
  exist, or both are missing for the same reason. -/
  infer_eq : source.infer policy = (source.inferShape policy).map fun shape =>
    { policy.leaf .object with fields := if entries.isEmpty then none else some shape }
  /-- A cycle is the only reason. -/
  cycle : ∀ fault, source.inferShape policy = .error fault → ∃ path, fault = .cycle path
  ok_iff : (∃ shape, source.inferShape policy = .ok shape) ↔
    ∀ entry ∈ entries, ∃ type, entry.2.infer policy = .ok type
  /-- The keys are those of the entries, each where it first came. -/
  keys : ∀ shape, source.inferShape policy = .ok shape →
    Entries.keys shape = (Entries.keys entries).eraseDups
  /-- A key has the type of its last entry. -/
  types : ∀ shape, source.inferShape policy = .ok shape → ∀ key,
    (Entries.find? key shape).map Except.ok =
      (Entries.find? key entries.reverse).map fun value => value.infer policy

theorem keys_of_found (h : List.Forall₂ (Found policy) entries types) :
    Entries.keys types = Entries.keys entries := by
  induction h with
  | nil => rfl
  | cons hfound _ ih =>
      rw [Entries.keys, Entries.keys, List.map_cons, List.map_cons, hfound.1]
      exact congrArg _ ih

/-- The type found last under a key is that of the last entry with it. -/
theorem find?_of_found (h : List.Forall₂ (Found policy) entries types) (key : String) :
    (Entries.find? key types).map Except.ok =
      (Entries.find? key entries).map fun value => value.infer policy := by
  induction h with
  | nil => rfl
  | cons hfound _ ih =>
      obtain ⟨hkey, htype⟩ := hfound
      rw [Entries.find?, Entries.find?, hkey]
      split
      · exact congrArg some htype.symm
      · exact ih

/-- Every keyed source is composed of its entries. -/
theorem composed (policy : Policy) (h : source.view = .keyed entries) :
    source.Composed policy entries where
  infer_eq := infer_eq_map_inferShape policy h
  cycle _ hfault := exists_cycle_of_error h hfault
  ok_iff := by
    simp only [inferShape_eq_ok_iff h]
    constructor
    · rintro ⟨shape, types, hfound, rfl⟩ entry hentry
      obtain ⟨found, -, -, htype⟩ := (exists_of_forall₂ hfound).1 entry hentry
      exact ⟨found.2, htype⟩
    · -- Each entry has a type of its own, and a list of them is what is found.
      intro htypes
      choose! type htype using htypes
      refine ⟨_, entries.map fun entry => (entry.1, type entry), ?_, rfl⟩
      rw [List.forall₂_map_right_iff, List.forall₂_same]
      exact fun entry hentry => ⟨rfl, htype entry hentry⟩
  keys := by
    intro shape hshape
    obtain ⟨types, hfound, rfl⟩ := (inferShape_eq_ok_iff h).mp hshape
    rw [Entries.keys_ofList, keys_of_found hfound]
  types := by
    intro shape hshape key
    obtain ⟨types, hfound, rfl⟩ := (inferShape_eq_ok_iff h).mp hshape
    rw [Entries.find?_ofList]
    exact find?_of_found (List.rel_reverse hfound) key

end Source

/-- **Inference is compositional, and its two questions agree.** Type and shape of a keyed value are put
together from what is inferred of its entries, each taken on its own: there are both if every entry has a
type, and otherwise neither, because of the same cycle. A sequence has a type if its first element has one,
taken on its own: that one, marked as an array and optional as the policy says. This holds of documents and
of nodes of graphs, whatever they share and however often a key comes. -/
theorem inference_compositional (policy : Policy) (source : Source) :
    (∀ entries, source.view = .keyed entries → source.Composed policy entries) ∧
      ∀ first, source.view = .sequence (some first) → ∀ type,
        source.infer policy = .ok type ↔ ∃ element, first.infer policy = .ok element ∧
          type = { element with optional := policy.forceOptional, isArray := true } := by
  refine ⟨fun entries h => Source.composed policy h, fun first h type => ?_⟩
  rw [Source.infer_eq_ok_iff, h]
  constructor
  · rintro ⟨types, hfound, rfl⟩
    obtain ⟨found, rest, ⟨-, htype⟩, -, rfl⟩ := List.forall₂_cons_left_iff.mp hfound
    exact ⟨found.2, htype, rfl⟩
  · rintro ⟨element, helement, rfl⟩
    exact ⟨[("0", element)], .cons ⟨rfl, helement⟩ .nil, rfl⟩

/-- A key comes twice, first with a text and then with a sequence to which another key leads as well. -/
def repeatedKey : Graph :=
  ⟨#[.keyed [("a", 1), ("b", 2), ("a", 2)], .text, .sequence (some 3), .keyed [("x", 1)]]⟩

theorem inference_compositional_repeatedKey :
    (Source.node repeatedKey 0).Composed {}
        [("a", .node repeatedKey 1), ("b", .node repeatedKey 2), ("a", .node repeatedKey 2)] ∧
      (∃ shape, (Source.node repeatedKey 0).inferShape {} = .ok shape) ∧
      ∃ element, (Source.node repeatedKey 3).infer {} = .ok element ∧
        (Source.node repeatedKey 2).infer {} =
          .ok { element with optional := false, isArray := true } := by
  obtain ⟨hkeyed, -⟩ := inference_compositional {} (.node repeatedKey 0)
  obtain ⟨-, hsequence⟩ := inference_compositional {} (.node repeatedKey 2)
  have helement : (Source.node repeatedKey 3).infer {} =
      .ok ⟨.object, "object", false, false, some [("x", ({} : Policy).leaf .string)]⟩ := rfl
  have hview : (Source.node repeatedKey 2).view = .sequence (some (.node repeatedKey 3)) := rfl
  have hlist := (hsequence _ hview _).mpr ⟨_, helement, rfl⟩
  have hcomposed := hkeyed
    [("a", .node repeatedKey 1), ("b", .node repeatedKey 2), ("a", .node repeatedKey 2)] rfl
  refine ⟨hcomposed, hcomposed.ok_iff.mpr ?_, _, helement, hlist⟩
  simp only [List.forall_mem_cons, List.not_mem_nil, false_implies, implies_true, and_true]
  exact ⟨⟨_, rfl⟩, ⟨_, hlist⟩, ⟨_, hlist⟩⟩

end SampleTypes
