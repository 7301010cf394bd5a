import SampleTypes.Proofs.Store.Lookup
import SampleTypes.Rendering

/-!
# Declarations as tuples of fields

What a declaration says, apart from its punctuation: for every field its key, its two markers and the
label that stands for its type. In a store the label of a field with a shape of its own is the name of
that shape's declaration (`Store.labelOf`).
-/

namespace SampleTypes

structure FieldTuple where
  key : String
  optional : Bool
  label : String
  isArray : Bool
deriving DecidableEq, Repr

def FieldTuple.line (mode : RenderMode) (tuple : FieldTuple) : String :=
  "  " ++ tuple.key ++ (if tuple.optional then "?" else "") ++ ": " ++ tuple.label ++
    (if tuple.isArray then "[]" else "") ++ (if mode.terminators then ";" else "") ++ "\n"

/-- The text of a declaration whose fields are tuples. -/
def FieldTuple.text (mode : RenderMode) (name : String) (tuples : List FieldTuple) : String :=
  Rendering.declaration name (String.join (tuples.map (·.line mode))) mode

namespace Store

variable {store later : Store} {type : FieldType} {shape nested : Shape}

/-- The label of a type: the name of its shape's declaration, if it has a shape and the store knows it,
and its own label else. -/
def labelOf (store : Store) (type : FieldType) : String :=
  match type.nested?.bind store.find? with
  | some declaration => declaration.name
  | none => type.label

def tuple (store : Store) (field : String × FieldType) : FieldTuple :=
  ⟨field.1, field.2.optional, store.labelOf field.2, field.2.isArray⟩

/-- The fields of a shape as its declaration in the store has them. -/
def tuples (store : Store) (shape : Shape) : List FieldTuple :=
  shape.map store.tuple

theorem line_tuple (store : Store) (key : String) (type : FieldType) (mode : RenderMode) :
    (store.tuple (key, type)).line mode =
      Rendering.fieldLine key (store.labelOf type) type mode := rfl

theorem labelOf_of_none (h : type.nested? = none) : store.labelOf type = type.label := by
  rw [labelOf, h, Option.bind_none]

/-- A known nested shape goes by the name of its declaration. -/
theorem labelOf_of_some {declaration : Declaration} (h : type.nested? = some nested)
    (hf : store.find? nested = some declaration) : store.labelOf type = declaration.name := by
  rw [labelOf, h, Option.bind_some, hf]

/-- The store knows all shapes of the fields. -/
def Covers (store : Store) (shape : Shape) : Prop :=
  ∀ field ∈ shape, ∀ nested, field.2.nested? = some nested → ∃ d, store.find? nested = some d

/-- A store that knows all nested shapes of a shape still does so later. -/
theorem Extends.covers (h : later.Extends store) (hc : store.Covers shape) :
    later.Covers shape := by
  intro field hfield nested hn
  obtain ⟨d, hd⟩ := hc field hfield nested hn
  exact ⟨d, h.find? hd⟩

/-- Once its nested shape is known, the label of a type stays. -/
theorem Extends.labelOf_eq (h : later.Extends store)
    (hc : ∀ nested, type.nested? = some nested → ∃ d, store.find? nested = some d) :
    later.labelOf type = store.labelOf type := by
  cases hn : type.nested? with
  | none => rw [labelOf_of_none hn, labelOf_of_none hn]
  | some nested =>
      obtain ⟨d, hd⟩ := hc nested hn
      rw [labelOf_of_some hn hd, labelOf_of_some hn (h.find? hd)]

/-- Once a store knows the shapes of all fields, what stands in the declaration is settled. -/
theorem Extends.tuples_eq (h : later.Extends store) (hc : store.Covers shape) :
    later.tuples shape = store.tuples shape := by
  refine List.map_congr_left fun field hfield => ?_
  rw [tuple, tuple, h.labelOf_eq (hc field hfield)]

end Store

end SampleTypes
