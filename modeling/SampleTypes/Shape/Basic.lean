import SampleTypes.Entries
import SampleTypes.Shape.Kind

/-!
# Shapes

A shape lists the fields of an object with their types, in the order in which they were met. The type
of a field is a kind with its label, two markers, and for objects with known fields their shape.

Two comparisons of shapes do not look at the order of fields. `Shape.same` is sameness as rendered: it
ignores kinds. `Shape.equal` compares kinds too. Both are instances of one recursion.
-/

namespace SampleTypes

structure FieldType where
  kind : TypeKind
  /-- What stands for the type in a declaration. -/
  label : String
  optional : Bool
  isArray : Bool
  /-- The fields of an object, if any are known. -/
  fields : Option (List (String × FieldType))

abbrev Shape := Entries FieldType

instance : Inhabited FieldType := ⟨⟨.unknown, "", false, false, none⟩⟩

namespace FieldType

/-- Label and markers agree: two fields without fields of their own render alike. -/
def sameMarks (a b : FieldType) : Bool :=
  a.label == b.label && a.optional == b.optional && a.isArray == b.isArray

def equalMarks (a b : FieldType) : Bool :=
  a.kind == b.kind && a.sameMarks b

mutual

/-- The nodes of two types agree pairwise, whatever the order of fields. -/
def agree (node : FieldType → FieldType → Bool) : FieldType → FieldType → Bool
  | a@⟨_, _, _, _, none⟩, b => node a b && b.fields.isNone
  | a@⟨_, _, _, _, some fields⟩, b =>
    node a b && match b.fields with
      | some others => fields.length == others.length && agreeWithin node fields others
      | none => false

/-- Every field has a counterpart of the same key whose type agrees. -/
def agreeWithin (node : FieldType → FieldType → Bool) :
    List (String × FieldType) → Shape → Bool
  | [], _ => true
  | (key, a) :: rest, others =>
    (match others.find? key with
      | some b => agree node a b
      | none => false) && agreeWithin node rest others

end

/-- The shape that gets a declaration of its own: that of an object with at least one known field. -/
def nested? (type : FieldType) : Option Shape :=
  match type.kind, type.fields with
  | .object, some (field :: rest) => some (field :: rest)
  | _, _ => none

end FieldType

namespace Shape

/-- The fields of two shapes agree pairwise. -/
def agree (node : FieldType → FieldType → Bool) (a b : Shape) : Bool :=
  a.length == b.length && FieldType.agreeWithin node a b

/-- The shapes render alike, up to the order of fields. -/
def same (a b : Shape) : Bool :=
  agree FieldType.sameMarks a b

/-- The shapes are equal, up to the order of fields. -/
def equal (a b : Shape) : Bool :=
  agree FieldType.equalMarks a b

end Shape

end SampleTypes
