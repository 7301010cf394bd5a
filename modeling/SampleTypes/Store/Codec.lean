import SampleTypes.Shape.Codec
import SampleTypes.Store

/-!
# Stores as JSON

The saved form of a store is the list of its declarations, each with its name, its shape and its text.
Nothing is checked when a store is read: its shapes may be the same and its texts may be anything.
-/

namespace SampleTypes

open Json (Reader)

namespace Declaration

open Json.Reader in
def fields : List (Reader.Field Declaration) := [
  .needed "name" (fun _ => Json.Reader.text "a string") fun name d => { d with name := name },
  .needed "shape" Shape.reader fun shape d => { d with shape := shape },
  .needed "renderedText" (fun _ => Json.Reader.text "a string") fun text d => { d with text := text }]

def reader (depth : Nat) : Reader Declaration :=
  Json.Reader.record "struct InterfaceConfig" fields default depth

def toJson (declaration : Declaration) : Json :=
  .object [("name", .string declaration.name), ("shape", declaration.shape.toJson),
    ("renderedText", .string declaration.text)]

end Declaration

namespace Store

def reader (depth : Nat) : Reader Store :=
  Store.mk <$> Json.Reader.list depth Declaration.reader

def toJson (store : Store) : Json :=
  .array (store.entries.map Declaration.toJson)

end Store

end SampleTypes
