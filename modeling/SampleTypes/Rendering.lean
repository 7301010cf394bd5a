import SampleTypes.Shape.Basic

/-!
# Rendering

The text of a declaration: a header with its name, a line for every field, and a closing brace. Two
forms of header and an optional mark at the end of a line are a matter of choice.
-/

namespace SampleTypes

structure RenderMode where
  /-- A type alias instead of an interface. -/
  typeAlias : Bool
  /-- A semicolon after every field. -/
  terminators : Bool
deriving DecidableEq, Repr, Inhabited

namespace Rendering

def header (name : String) (mode : RenderMode) : String :=
  if mode.typeAlias then "export type " ++ name ++ " = \x7b\n"
  else "export interface " ++ name ++ " \x7b\n"

/-- The line of a field, with each mark only where it applies. -/
def fieldLine (key label : String) (type : FieldType) (mode : RenderMode) : String :=
  "  " ++ key ++ (if type.optional then "?" else "") ++ ": " ++ label ++
    (if type.isArray then "[]" else "") ++ (if mode.terminators then ";" else "") ++ "\n"

def declaration (name : String) (lines : String) (mode : RenderMode) : String :=
  header name mode ++ lines ++ "\x7d"

end Rendering

end SampleTypes
