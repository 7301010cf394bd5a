/-!
# Kinds

The five primitive classes of values that a declaration tells apart. Each has a label of its own,
which stands in declarations unless it is replaced.
-/

namespace SampleTypes

/-- What class of values a type describes, whatever it is called. -/
inductive TypeKind where
  | string
  | number
  | boolean
  | object
  | unknown
deriving DecidableEq, Repr, Inhabited

namespace TypeKind

def all : List TypeKind :=
  [.string, .number, .boolean, .object, .unknown]

/-- The label of a kind, unless another one is chosen. -/
def label : TypeKind → String
  | .string => "string"
  | .number => "number"
  | .boolean => "boolean"
  | .object => "object"
  | .unknown => "unknown"

/-- The kind whose own label this is. -/
def ofLabel? (label : String) : Option TypeKind :=
  all.find? fun kind => kind.label == label

@[simp] theorem ofLabel?_label (kind : TypeKind) : ofLabel? kind.label = some kind := by
  cases kind <;> decide

end TypeKind

end SampleTypes
