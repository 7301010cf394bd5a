import SampleTypes.Filter.Outputs

/-!
# Ways into values

A way leads from a container to a part of it, to a run of its items, or to all its parts. Ways one after
the other lead from a value to what lies deep inside it: `Way.follow` finds the parts there, and
`Way.update` changes them in their places.

A way may be marked. Where a marked way leads nowhere, it has no parts and changes nothing.
-/

namespace SampleTypes.Filter

/-- A way from a value to its parts. -/
inductive Way where
  | index (place : Value)
  | slice (first last : Option Value)
  | each

abbrev Ways := List (Way × Bool)

namespace Way

/-! ## Finding parts -/

def parts (way : Way) (value : Value) : Outputs Value :=
  match way with
  | .index place => .ofResult (value.part place)
  | .slice first last => .ofResult (value.slice first last)
  | .each =>
    match value.parts with
    | .ok parts => .ofList parts
    | .error failure => .ofResult (.error failure)

def follow : Ways → Value → Outputs Value
  | [], value => pure value
  | (way, mark) :: ways, value => do
    let parts := way.parts value
    let part ← if mark then .ofSequence (parts.run.filter (·.isOk)) else parts
    follow ways part

/-! ## Changing parts

Where a change has several outputs the first one counts, except among the items of an array, which all
of them join. A part for which there is no output is removed. -/

/-- Removes a member; the last one takes its place. -/
def removeMember (key : String) (members : List (String × Value)) : List (String × Value) :=
  match members.getLast? with
  | none => []
  | some last =>
    if last.1 == key then members.dropLast
    else members.dropLast.map fun member => if member.1 == key then last else member

/-- A member changed; one that is missing begins as `null`. -/
def changeMember (change : Value → Outputs Value) (key : String) (members : List (String × Value)) :
    Outputs Value := do
  match Entries.find? key members with
  | some value =>
    match ← (change value).first? with
    | some value => return .object (Entries.set key value members)
    | none => return .object (removeMember key members)
  | none =>
    match ← (change .null).first? with
    | some value => return .object (Entries.set key value members)
    | none => return .object members

def changeItem (change : Value → Outputs Value) (index : Int) (items : List Value) :
    Outputs Value :=
  match Value.absolute? index items.length with
  | none => .fail ("index " ++ toString index ++ " is out of bounds")
  | some i => do
    match ← (change (items[i]?.getD .null)).first? with
    | some value => return .array (items.set i value)
    | none => return .array (items.eraseIdx i)

def changeEach (change : Value → Outputs Value) (value : Value) : Outputs Value :=
  match value with
  | .array items => .array <$> Outputs.all (Outputs.ofList items >>= change)
  | .object members => do
    let members ← members.mapM fun (key, value) => .later fun _ => do
      return (← (change value).first?).map fun value => (key, value)
    return .object (members.filterMap id)
  | value => .ofResult value.notIterable

def changeSlice (change : Value → Outputs Value) (first last : Option Value) (value : Value) :
    Outputs Value :=
  match value with
  | .array items => do
    let (skip, take) ← .ofResult (Value.extent first last items.length)
    let around (changed : List Value) : Value :=
      .array (items.take skip ++ changed ++ items.drop (skip + take))
    match ← (change (.array ((items.drop skip).take take))).first? with
    | some (.array changed) => return around changed
    | some other => .fail ("cannot use " ++ other.text ++ " as array")
    -- Without an output the slice is cut out.
    | none => return around []
  | value => .fail ("cannot use " ++ value.text ++ " as array")

def change (way : Way) (change : Value → Outputs Value) (value : Value) : Outputs Value :=
  match way, value with
  | .each, value => changeEach change value
  | .slice first last, value => changeSlice change first last value
  | .index (.string key), .object members => changeMember change key members
  | .index (.int i), .array items => changeItem change i items
  | .index place, .object members => .ofResult (Value.wrongIndex (.object members) place)
  | .index place, .array _ => .fail ("cannot use " ++ place.text ++ " as integer")
  | .index _, value => .ofResult value.notIterable

/-- The way leads somewhere in the value, or to a place where there may be a part. -/
def fits (way : Way) (value : Value) : Bool :=
  match way, value with
  | .each, .array _ => true
  | .each, .object _ => true
  | .slice first last, .array items => (Value.extent first last items.length).isOk
  | .index (.string _), .object _ => true
  | .index (.int i), .array items => (Value.absolute? i items.length).isSome
  | _, _ => false

def update (change : Value → Outputs Value) : Ways → Value → Outputs Value
  | [], value => change value
  | (way, mark) :: ways, value =>
    if mark && !way.fits value then pure value else way.change (update change ways) value

end Way

end SampleTypes.Filter
