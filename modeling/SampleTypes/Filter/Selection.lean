import SampleTypes.Filter.Engine
import SampleTypes.Json.Document

/-!
# Selection

A filter selects documents from a document: each of its outputs, read as a text of JSON. Numbers thereby take
the forms that documents have. The first output that fails, or is no document, is the end of it.
-/

namespace SampleTypes.Filter

/-- Why nothing is selected. -/
inductive SelectionFault where
  /-- The text is no filter. -/
  | unreadable (faults : List (Remark String))
  | undefined (faults : List (Remark (List Undefined)))
  /-- The filter fails on the document. -/
  | failed (description : String)
  /-- An output is no document. -/
  | notDocument (refusal : Json.Refusal)

def document (output : Except String String) : Except SelectionFault Json :=
  match output with
  | .ok text => (Json.read text).mapError .notDocument
  | .error description => .error (.failed description)

/-- The documents of all outputs, up to the first failure; those found so far stand back to front. -/
def documents (reversed : List Json) :
    Sequence (Except String String) → Except SelectionFault (List Json)
  | .nil => .ok reversed.reverse
  | .last output => do return ((← document output) :: reversed).reverse
  | .cons output rest =>
    match document output with
    | .ok found => documents (found :: reversed) (rest ())
    | .error fault => .error fault
  | .later rest => documents reversed (rest ())

/-- The documents that a filter's text selects. -/
def Engine.select (engine : Engine) (text : String) (value : Json) :
    Except SelectionFault (List Json) := do
  let loaded ← (engine.load text).mapError .unreadable
  let program ← (engine.compile loaded).mapError .undefined
  documents [] (engine.run program value)

end SampleTypes.Filter
