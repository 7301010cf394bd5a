import SampleTypes.Filter.Engine
import SampleTypes.Filter.Native
import SampleTypes.Filter.Prelude

/-!
# Undefined names

A filter may only call filters and use variables that are defined where it stands. `Filter.undefined`
lists the names that are not, in the order in which they are met. What stands after a definition, after a
binding or in the last branch of a condition is looked at before what stands in front of it.
-/

namespace SampleTypes.Filter

namespace Undefined

/-- A filter with so many arguments. -/
def ofFilter (name : String) (arity : Nat) : Undefined :=
  ⟨name, "Filter(" ++ toString arity ++ ")"⟩

def ofVariable (name : String) : Undefined :=
  ⟨name, "Var"⟩

def ofLabel (name : String) : Undefined :=
  ⟨name, "Label"⟩

end Undefined

structure Scope where
  filters : List (String × Nat)
  bound : List String
  labels : List String

namespace Scope

/-- The names that are always defined. -/
def known : Scope where
  filters := definitions.map (fun d => (d.name, d.parameters.length)) ++
    Native.table.map fun native => (native.name, native.arguments.length)
  bound := []
  labels := []

def withVariables (names : List String) (scope : Scope) : Scope :=
  { scope with bound := names ++ scope.bound }

def withLabel (name : String) (scope : Scope) : Scope :=
  { scope with labels := name :: scope.labels }

def withFilter (name : String) (arity : Nat) (scope : Scope) : Scope :=
  { scope with filters := (name, arity) :: scope.filters }

def withParameter (scope : Scope) : Parameter → Scope
  | .filter name => scope.withFilter name 0
  | .variable name => scope.withVariables [name]

end Scope

namespace Pattern

mutual

/-- The variables that are bound. -/
def binds : Pattern → List String
  | .variable name => [name]
  | .array patterns => bindsOfAll patterns
  | .object entries => bindsOfEntries entries

def bindsOfAll : List Pattern → List String
  | [] => []
  | pattern :: patterns => pattern.binds ++ bindsOfAll patterns

def bindsOfEntries : List (Filter × Pattern) → List String
  | [] => []
  | (_, pattern) :: entries => pattern.binds ++ bindsOfEntries entries

end

end Pattern

mutual

/-- The names in a filter that are not defined. -/
def undefined (scope : Scope) : Filter → List Undefined
  | .here | .within | .nothing | .constant _ | .shown => []
  | .collect f | .negate f | .pick f => undefined scope f
  | .entry f g | .pipe f g | .comma f g | .operate _ f g | .compare _ f g | .connect _ f g
  | .orElse f g | .update f g | .assign _ f g | .recover f g =>
    undefined scope f ++ undefined scope g
  | .bind value pattern body =>
    -- Names are told in the order in which they are compiled, which begins with the body.
    undefined (scope.withVariables pattern.binds) body ++ undefined scope value ++
      undefinedInPattern scope pattern
  | .loop kind values pattern arguments =>
    match kind, arguments with
    | _, [init, step] =>
      undefined scope values ++ undefinedInPattern scope pattern ++ undefined scope init ++
        undefined (scope.withVariables pattern.binds) step
    | .foreach, [init, step, view] =>
      undefined scope values ++ undefinedInPattern scope pattern ++ undefined scope init ++
        undefined (scope.withVariables pattern.binds) step ++
        undefined (scope.withVariables pattern.binds) view
    | kind, arguments => [.ofFilter kind.name arguments.length]
  | .choose condition yes no =>
    undefined scope no ++ undefined scope condition ++ undefined scope yes
  | .define name parameters body rest =>
    let scope := scope.withFilter name parameters.length
    undefined scope rest ++ undefined (parameters.foldl Scope.withParameter scope) body
  | .call name arguments =>
    undefinedInAll scope arguments ++
      if scope.filters.contains (name, arguments.length) then []
      else [.ofFilter name arguments.length]
  | .variable name => if scope.bound.contains name then [] else [.ofVariable name]
  | .label name body => undefined (scope.withLabel name) body
  | .leave name => if scope.labels.contains name then [] else [.ofLabel name]
  | .path f steps => undefined scope f ++ undefinedInSteps scope steps

def undefinedInAll (scope : Scope) : List Filter → List Undefined
  | [] => []
  | f :: fs => undefined scope f ++ undefinedInAll scope fs

def undefinedInOption (scope : Scope) : Option Filter → List Undefined
  | none => []
  | some f => undefined scope f

def undefinedInStep (scope : Scope) : Step → List Undefined
  | .index f => undefined scope f
  | .slice first last => undefinedInOption scope first ++ undefinedInOption scope last
  | .each => []

def undefinedInSteps (scope : Scope) : List (Step × Bool) → List Undefined
  | [] => []
  | (step, _) :: steps => undefinedInStep scope step ++ undefinedInSteps scope steps

def undefinedInPattern (scope : Scope) : Pattern → List Undefined
  | .variable _ => []
  | .array patterns => undefinedInPatterns scope patterns
  | .object entries => undefinedInEntries scope entries

def undefinedInPatterns (scope : Scope) : List Pattern → List Undefined
  | [] => []
  | pattern :: patterns => undefinedInPattern scope pattern ++ undefinedInPatterns scope patterns

def undefinedInEntries (scope : Scope) : List (Filter × Pattern) → List Undefined
  | [] => []
  | (key, pattern) :: entries =>
    undefined scope key ++ undefinedInPattern scope pattern ++ undefinedInEntries scope entries

end

end SampleTypes.Filter
