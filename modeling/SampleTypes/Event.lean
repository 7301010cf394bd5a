/-!
# Events

What happens on the way, for whoever wants to follow it: which declarations are reused, renamed and
made, and what becomes of the text.
-/

namespace SampleTypes

/-- How much an event matters. -/
inductive Level where
  | debug
  | info
  | error
deriving DecidableEq, Repr

inductive Event where
  /-- A shape was declared already. -/
  | reused (name : String)
  /-- A name was taken and got a number. -/
  | renamed (candidate name : String)
  /-- A declaration is complete. -/
  | emitted (name : String) (fields : Nat)
  /-- A document of a source was declared. -/
  | documentBuilt (source root : String)
  /-- The text was written. -/
  | written (path : String)
  /-- The text could not be written. -/
  | notWritten (path reason : String)
deriving DecidableEq, Repr

namespace Event

def level : Event → Level
  | .written _ => .info
  | .notWritten _ _ => .error
  | _ => .debug

def describe : Event → String
  | .reused name => "reusing declaration name=" ++ name
  | .renamed candidate name =>
    "declaration name taken, using suffix candidate=" ++ candidate ++ " name=" ++ name
  | .emitted name fields =>
    "emitting declaration name=" ++ name ++ " fields=" ++ toString fields
  | .documentBuilt source root => "document built source=" ++ source ++ " root=" ++ root
  | .written path => "declarations written path=" ++ path
  | .notWritten path reason =>
    "could not write declarations path=" ++ path ++ " err=" ++ reason

end Event

def Level.describe : Level → String
  | .debug => "DEBUG"
  | .info => "INFO"
  | .error => "ERROR"

def Event.line (event : Event) : String :=
  event.level.describe ++ " " ++ event.describe

end SampleTypes
