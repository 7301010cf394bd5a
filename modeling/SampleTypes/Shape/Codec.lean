import SampleTypes.Json.Printer
import SampleTypes.Json.Record
import SampleTypes.Shape.Basic

/-!
# Shapes as JSON

The saved form of a type is an object with its kind, its label under `type`, its markers and, if it
has any, its fields under `objectKeys`. The kind may be missing when it is read: a type with fields is
an object, and any other one has the kind whose own label it carries.
-/

namespace SampleTypes

open Json (Reader)

namespace TypeKind

def names : List (String × TypeKind) :=
  all.map fun kind => (kind.label, kind)

def reader (depth : Nat) : Reader TypeKind :=
  Json.Reader.variant depth names

def toJson (kind : TypeKind) : Json :=
  .string kind.label

end TypeKind

namespace FieldType

mutual

def toJson : FieldType → Json
  | ⟨kind, label, optional, isArray, none⟩ =>
    .object [("kind", kind.toJson), ("type", .string label), ("optional", .bool optional),
      ("isArray", .bool isArray)]
  | ⟨kind, label, optional, isArray, some fields⟩ =>
    .object [("kind", kind.toJson), ("type", .string label), ("optional", .bool optional),
      ("isArray", .bool isArray), ("objectKeys", .object (membersOf fields))]

def membersOf : List (String × FieldType) → List (String × Json)
  | [] => []
  | (key, type) :: rest => (key, type.toJson) :: membersOf rest

end

structure Saved where
  kind : Option TypeKind
  label : String
  optional : Bool
  isArray : Bool
  fields : Option Shape

/-- The kind of a saved type, recovered if it is missing. -/
def Saved.recoverKind (saved : Saved) : TypeKind :=
  match saved.kind with
  | some kind => kind
  | none =>
    if saved.fields.isSome then .object
    else (TypeKind.ofLabel? saved.label).getD .unknown

def Saved.toFieldType (saved : Saved) : FieldType :=
  ⟨saved.recoverKind, saved.label, saved.optional, saved.isArray, saved.fields⟩

open Json.Reader in
/-- The fields of a saved type; `shape` reads those of an object. -/
def savedFields (shape : Nat → Reader Shape) : List (Reader.Field Saved) := [
  .free "kind" (fun depth => nullable (TypeKind.reader depth)) fun kind s => { s with kind := kind },
  .needed "type" (fun _ => text "a string") fun label s => { s with label := label },
  .free "optional" (fun _ => bool) fun mark s => { s with optional := mark },
  .free "isArray" (fun _ => bool) fun mark s => { s with isArray := mark },
  .free "objectKeys" (fun depth => nullable (shape depth)) fun fields s =>
    { s with fields := fields }]

/-- A saved type; `shape` reads the fields of an object. -/
def readerWith (shape : Nat → Reader Shape) (depth : Nat) : Reader FieldType := do
  let saved ← Json.Reader.record "struct StoredValueType" (savedFields shape)
    ⟨none, "", false, false, none⟩ depth
  return saved.toFieldType

end FieldType

namespace Shape

def toJson (shape : Shape) : Json :=
  .object (FieldType.membersOf shape)

/-- A saved shape inside containers that leave room for `bound` levels of shapes. -/
def readerWithin : (bound : Nat) → (depth : Nat) → Reader Shape
  | 0, _ => Json.Reader.refuseNext .tooDeep
  | bound + 1, depth =>
    Json.Reader.map depth (FieldType.readerWith (readerWithin bound))

def reader (depth : Nat) : Reader Shape :=
  readerWithin (depth + 1) depth

end Shape

def FieldType.reader (depth : Nat) : Reader FieldType :=
  FieldType.readerWith Shape.reader depth

end SampleTypes
