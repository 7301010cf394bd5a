import SampleTypes.Json.Basic
import SampleTypes.Options

/-!
# Inference

The type of a value, from the value alone. Every value falls into one of seven classes (`View`), and the
policy turns a class into a type:

* a primitive value is required, unless every field is to be optional;
* an absent value is optional, whatever the policy says;
* a sequence takes kind and label of its first element; an empty one is an optional sequence of
  unknown elements;
* a keyed value has the types of its entries as fields. Without entries it is an object of unknown
  fields.
-/

namespace SampleTypes

/-- What inference sees of a value whose parts are of type `α`. -/
inductive View (α : Type) where
  | text
  | numeric
  | boolean
  | absent
  /-- Only the first element is ever looked at. -/
  | sequence (first : Option α)
  | keyed (entries : List (String × α))
  | other

def View.describe {α : Type} : View α → String
  | .text => "text"
  | .numeric => "numeric"
  | .boolean => "boolean"
  | .absent => "absent"
  | .sequence _ => "sequence"
  | .keyed _ => "keyed object"
  | .other => "other"

namespace Policy

def leaf (policy : Policy) (kind : TypeKind) : FieldType :=
  ⟨kind, policy.labels.label kind, policy.forceOptional, false, none⟩

def absent (policy : Policy) : FieldType :=
  { policy.leaf .unknown with optional := true }

def emptySequence (policy : Policy) : FieldType :=
  { policy.leaf .unknown with optional := true, isArray := true }

/-- The type of a sequence whose first element has the given type. -/
def sequenceOf (policy : Policy) (element : FieldType) : FieldType :=
  { element with optional := policy.forceOptional, isArray := true }

/-- The type of a keyed value whose entries have the given types, one for each entry. -/
def keyedOf (policy : Policy) (entries : List (String × FieldType)) : FieldType :=
  { policy.leaf .object with
    fields := if entries.isEmpty then none else some (Entries.ofList entries) }

end Policy

/-- Why no type or no shape is inferred. -/
inductive InferenceFault where
  /-- A container holds itself, at the end of the path. -/
  | cycle (path : List String)
  /-- The value has no fields of its own. -/
  | rootNotKeyed (found : String)
deriving DecidableEq, Repr

namespace Json

def view : Json → View Json
  | .null => .absent
  | .bool _ => .boolean
  | .number _ => .numeric
  | .string _ => .text
  | .array items => .sequence items.head?
  | .object members => .keyed members

mutual

def infer (policy : Policy) : Json → FieldType
  | .null => policy.absent
  | .bool _ => policy.leaf .boolean
  | .number _ => policy.leaf .number
  | .string _ => policy.leaf .string
  | .array items => inferItems policy items
  | .object members => policy.keyedOf (inferMembers policy members)

def inferItems (policy : Policy) : List Json → FieldType
  | [] => policy.emptySequence
  | first :: _ => policy.sequenceOf (first.infer policy)

def inferMembers (policy : Policy) : List (String × Json) → List (String × FieldType)
  | [] => []
  | (key, value) :: members => (key, value.infer policy) :: inferMembers policy members

end

def inferShape (policy : Policy) (value : Json) : Except InferenceFault Shape :=
  match value with
  | .object members => .ok (Entries.ofList (inferMembers policy members))
  | value => .error (.rootNotKeyed value.view.describe)

end Json

end SampleTypes
