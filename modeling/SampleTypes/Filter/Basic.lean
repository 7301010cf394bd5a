import SampleTypes.Filter.Value

/-!
# Filters

A filter turns a value into a sequence of values. Filters are put together from constants, paths into the
value, operations, and definitions of further filters.

Strings with parts to be filled in, objects of several entries and the like have no form of their own
here: they are sums of simpler filters.
-/

namespace SampleTypes

namespace Filter

inductive Comparison where
  | equal
  | different
  | less
  | lessOrEqual
  | greater
  | greaterOrEqual
deriving DecidableEq, Repr

def Comparison.holds : Comparison → Ordering → Bool
  | .equal, o => o == .eq
  | .different, o => o != .eq
  | .less, o => o == .lt
  | .lessOrEqual, o => o != .gt
  | .greater, o => o == .gt
  | .greaterOrEqual, o => o != .lt

/-- How both sides of `and` and `or` decide: the value at which the left one alone does. -/
inductive Connective where
  | both
  | either
deriving DecidableEq, Repr

/-- The truth value on the left that the right side cannot change. -/
def Connective.decisive : Connective → Bool
  | .both => false
  | .either => true

/-- What an assignment makes of a part and a given value. -/
inductive Assignment where
  /-- The given value. -/
  | replace
  /-- What an operation makes of both. -/
  | calculate (operation : Value.Operation)
  /-- The given value, if the part does not count as true. -/
  | complete
deriving DecidableEq, Repr

/-- The value that an assignment leaves in place of a part. -/
def Assignment.result (assignment : Assignment) (part given : Value) : Value.Result :=
  match assignment with
  | .replace => .ok given
  | .calculate operation => part.apply operation given
  | .complete => .ok (if part.isTrue then part else given)

/-- Loops over values with a state: the state at the end is put out, or what every step makes of it. -/
inductive Loop where
  | reduce
  | foreach
deriving DecidableEq, Repr

def Loop.name : Loop → String
  | .reduce => "reduce"
  | .foreach => "foreach"

/-- A parameter of a definition: a filter, or a value under a variable. -/
inductive Parameter where
  | filter (name : String)
  | variable (name : String)
deriving DecidableEq, Repr

end Filter

mutual

inductive Filter where
  /-- The value itself. -/
  | here
  /-- The value and everything inside it. -/
  | within
  /-- No output. -/
  | nothing
  | constant (value : Filter.Value)
  /-- The value as it is shown in a text. -/
  | shown
  /-- All outputs in one array. -/
  | collect (filter : Filter)
  /-- An object of one entry. -/
  | entry (key value : Filter)
  /-- An object of one entry, with the part of the value under the same key. -/
  | pick (key : Filter)
  | negate (filter : Filter)
  | pipe (first second : Filter)
  /-- Binds variables to every output of the first filter for the second one. -/
  | bind (value : Filter) (pattern : Filter.Pattern) (body : Filter)
  | comma (first second : Filter)
  | operate (operation : Filter.Value.Operation) (left right : Filter)
  | compare (comparison : Filter.Comparison) (left right : Filter)
  | connect (connective : Filter.Connective) (left right : Filter)
  /-- The true outputs of the first filter, or else the outputs of the second one. -/
  | orElse (first second : Filter)
  /-- Changes the parts under a path. -/
  | update (path change : Filter)
  /-- Changes the parts under a path by a given value. -/
  | assign (assignment : Filter.Assignment) (path value : Filter)
  | loop (loop : Filter.Loop) (values : Filter) (pattern : Filter.Pattern) (arguments : List Filter)
  /-- Answers the first error of the first filter by the second one. -/
  | recover (filter handler : Filter)
  | choose (condition yes no : Filter)
  | define (name : String) (parameters : List Filter.Parameter) (body rest : Filter)
  | call (name : String) (arguments : List Filter)
  | variable (name : String)
  /-- Ends its outputs where the label is left. -/
  | label (name : String) (body : Filter)
  | leave (name : String)
  /-- Parts of the outputs; a marked step passes over what has no such part. -/
  | path (filter : Filter) (steps : List (Filter.Step × Bool))

/-- A step from a value to its parts. -/
inductive Filter.Step where
  | index (filter : Filter)
  | slice (first last : Option Filter)
  | each

/-- What variables are bound to, by position or by key. -/
inductive Filter.Pattern where
  | variable (name : String)
  | array (patterns : List Filter.Pattern)
  | object (entries : List (Filter × Filter.Pattern))

end

namespace Filter

instance : Inhabited Filter := ⟨.here⟩

def string (s : String) : Filter :=
  .constant (.string s)

/-- The sum of filters, from left to right. -/
def sum (zero : Filter) : List Filter → Filter
  | [] => zero
  | first :: rest => rest.foldl (.operate .add) first

end Filter

end SampleTypes
