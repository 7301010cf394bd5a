import SampleTypes.Filter.Outputs

/-!
# Native filters

The filters that can be called without being defined and are made of operations on values. Some of their
arguments are given as values, and the others as filters for them to run.
-/

namespace SampleTypes.Filter

/-- How an argument is given. -/
inductive Argument where
  | value
  | filter
deriving DecidableEq, Repr

/-- Filters made of operations on values. -/
inductive Native where
  | empty
  | error
  | length
  | keys
  | keysInOrder
  | typeName
  | has
  | sortBy
  | reverse
  | toText
  | toJson
  | limit
  | first
  | last
  | range
deriving DecidableEq, Repr

namespace Native

def name : Native → String
  | .empty => "empty"
  | .error => "error"
  | .length => "length"
  | .keys => "keys"
  | .keysInOrder => "keys_unsorted"
  | .typeName => "type"
  | .has => "has"
  | .sortBy => "sort_by"
  | .reverse => "reverse"
  | .toText => "tostring"
  | .toJson => "tojson"
  | .limit => "limit"
  | .first => "first"
  | .last => "last"
  | .range => "range"

def arguments : Native → List Argument
  | .has => [.value]
  | .sortBy | .first | .last => [.filter]
  | .limit => [.value, .filter]
  | .range => [.value, .value, .value]
  | _ => []

def table : List Native :=
  [.empty, .error, .length, .keys, .keysInOrder, .typeName, .has, .sortBy, .reverse, .toText, .toJson,
    .limit, .first, .last, .range]

def find? (name : String) (arity : Nat) : Option Native :=
  table.find? fun native => native.name == name && native.arguments.length == arity

/-- The combinations of values for the arguments that are given as values, the first one changing
slowest; `run` finds the values of an argument. -/
def values {α : Type} (run : α → Outputs Value) : List Argument → List α → Outputs (List Value)
  | .value :: arguments, given :: others => do
    let value ← run given
    return value :: (← values run arguments others)
  | .filter :: arguments, _ :: others => values run arguments others
  | _, _ => pure []

/-- The arguments that are given as filters. -/
def filters {α : Type} : List Argument → List α → List α
  | .value :: arguments, _ :: others => filters arguments others
  | .filter :: arguments, given :: others => given :: filters arguments others
  | _, _ => []

/-- The items sorted by their outputs; fewer than two of them need none. -/
def sortedBy (run : Value → Outputs Value) (items : List Value) : Outputs Value := do
  if items.length < 2 then
    return .array items
  else
    let keyed ← items.mapM fun item => .later fun _ => do
      return (.array (← (run item).all), item)
    return .array (Value.sortByKey keyed)

/-- Counts from a number on, as long as the end is not reached; at most `bound` steps. -/
def count (continues : Value → Bool) (step : Value) : (bound : Nat) → Value → Outputs Value
  | 0, _ => .none
  | bound + 1, value =>
    if continues value then
      Outputs.append (pure value) fun _ =>
        match Value.apply .add value step with
        | .ok next => count continues step bound next
        | .error failure => .ofResult (.error failure)
    else
      .none

/-- The numbers from one up or down to another one. -/
def rangeOf (start stop step : Value) : Outputs Value :=
  let continues (value : Value) : Bool :=
    match Value.compare step (.int 0) with
    | .gt => Value.compare value stop == .lt
    | .lt => Value.compare value stop == .gt
    | .eq => Value.compare value stop != .eq
  count continues step (Nat.pow 2 60) start

/-- The outputs of a native filter, with its arguments given as values and as filters. -/
def run (native : Native) (values : List Value) (filters : List (Value → Outputs Value))
    (value : Value) : Outputs Value :=
  match native, values, filters with
  | .empty, _, _ => .none
  | .error, _, _ => .ofResult (.error value)
  | .length, _, _ => .ofResult value.length
  | .keys, _, _ => do
    let keys ← .ofResult value.keysInOrder
    return .array (Value.sortByKey (keys.map fun key => (key, key)))
  | .keysInOrder, _, _ => .ofResult (.array <$> value.keysInOrder)
  | .typeName, _, _ => pure (.string value.typeName)
  | .has, [index], _ => .ofResult (value.has index)
  | .sortBy, _, [f] =>
    match value with
    | .array items => sortedBy f items
    | value => .fail ("cannot use " ++ value.text ++ " as array")
  | .reverse, _, _ =>
    match value with
    | .array items => pure (.array items.reverse)
    | value => .fail ("cannot use " ++ value.text ++ " as array")
  | .toText, _, _ => pure (.string value.shown)
  | .toJson, _, _ => pure (.string value.text)
  | .limit, [count], [f] =>
    match count with
    | .int n => (f value).take n.toNat
    | count => .fail ("cannot use " ++ count.text ++ " as integer")
  | .first, _, [f] => (f value).take 1
  | .last, _, [f] => do
    match ← (f value).last? with
    | some output => return output
    | none => Outputs.none
  | .range, [start, stop, step], _ => rangeOf start stop step
  | _, _, _ => .none

end Native

end SampleTypes.Filter
