import SampleTypes.Filter.Engine
import SampleTypes.Filter.Evaluation
import SampleTypes.Filter.Scope

/-!
# The standard engine

The engine that the program runs its filters with. It reads them by `read?`, looks for undefined names before
it runs anything, and knows what the prelude defines.
-/

namespace SampleTypes.Filter

/-- A bound on the depth of evaluation that no run lives to see. -/
def depthLimit : Nat := Nat.pow 2 60

def Failure.description : Failure → String
  | .error value => value.text
  | .leave _ => "break"

/-- The engine of the program. -/
def Engine.standard : Engine where
  Loaded := Remark Filter
  Program := Filter
  load text :=
    match read? text with
    | some filter => .ok ⟨text, filter⟩
    | none => .error [⟨text, "no filter"⟩]
  compile loaded :=
    match undefined .known loaded.content with
    | [] => .ok loaded.content
    | names => .error [⟨loaded.text, names⟩]
  run filter value :=
    (outputs depthLimit .known filter (.ofJson value)).run.map fun
      | .ok value => .ok value.text
      | .error failure => .error failure.description

end SampleTypes.Filter
