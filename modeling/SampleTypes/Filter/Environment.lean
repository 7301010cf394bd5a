import SampleTypes.Filter.Outputs
import SampleTypes.Filter.Prelude

/-!
# Environments

What the names in a filter stand for. A definition sees what stands before it, and itself; a filter that
is given for a parameter sees what its caller sees.
-/

namespace SampleTypes.Filter

/-- What names stand for, the latest first. -/
inductive Env where
  | empty
  | variable (name : String) (value : Value) (rest : Env)
  /-- A filter given for a parameter, which sees what its caller sees. -/
  | argument (name : String) (body : Filter) (scope rest : Env)
  | definition (definition : Definition) (rest : Env)
  /-- A label; its number is that of no other label that may be left meanwhile. -/
  | label (name : String) (number : Nat) (rest : Env)

/-- What a call leads to, with what is seen from there. -/
inductive Callee where
  | argument (body : Filter) (scope : Env)
  | definition (definition : Definition) (scope : Env)

namespace Env

def value? (name : String) : Env → Option Value
  | .empty => none
  | .variable other value rest => if other == name then some value else value? name rest
  | .argument _ _ _ rest | .definition _ rest | .label _ _ rest => value? name rest

def label? (name : String) : Env → Option Nat
  | .empty => none
  | .label other number rest => if other == name then some number else label? name rest
  | .variable _ _ rest | .argument _ _ _ rest | .definition _ rest => label? name rest

/-- What a name with so many arguments stands for. -/
def callee? (name : String) (arity : Nat) : Env → Option Callee
  | .empty => none
  | .variable _ _ rest | .label _ _ rest => callee? name arity rest
  | .argument other body scope rest =>
    if other == name && arity == 0 then some (.argument body scope) else callee? name arity rest
  | .definition d rest =>
    if d.name == name && d.parameters.length == arity then
      some (.definition d (.definition d rest))
    else
      callee? name arity rest

/-- What is always defined. -/
def known : Env :=
  definitions.foldl (fun env d => .definition d env) .empty

/-- The environments of a definition's body. The caller gives its arguments; `run` finds the values of
those that are bound to variables, of which the first one changes slowest. -/
def frames (run : Filter → Outputs Value) (caller : Env) (arguments : List Filter)
    (d : Definition) (scope : Env) : Outputs Env :=
  (d.parameters.zip arguments).foldlM (fun env (parameter, given) => do
    match parameter with
    | .filter name => return .argument name given caller env
    | .variable name => return .variable name (← run given) env) scope

mutual

/-- The environments in which a pattern's variables are bound to a value's parts. `run` finds the keys,
which belong to the value whose parts they name. -/
def bindings (run : Filter → Value → Outputs Value) : Pattern → Value → Env → Outputs Env
  | .variable name, value, env => pure (.variable name value env)
  | .array patterns, value, env => bindItems run patterns 0 value env
  | .object entries, value, env => bindMembers run entries value env

def bindItems (run : Filter → Value → Outputs Value) :
    List Pattern → (index : Nat) → Value → Env → Outputs Env
  | [], _, _, env => pure env
  | pattern :: patterns, index, value, env => do
    let part ← .ofResult (value.part (.int index))
    let env ← bindings run pattern part env
    bindItems run patterns (index + 1) value env

def bindMembers (run : Filter → Value → Outputs Value) :
    List (Filter × Pattern) → Value → Env → Outputs Env
  | [], _, env => pure env
  | (key, pattern) :: entries, value, env => do
    let key ← run key value
    let part ← .ofResult (value.part key)
    let env ← bindings run pattern part env
    bindMembers run entries value env

end

end Env

end SampleTypes.Filter
