import SampleTypes.Decimal.Read
import SampleTypes.Entries
import SampleTypes.Json.Printer

/-!
# Values of filters

Filters work on JSON values whose numbers are whole numbers of 64 bits, doubles, and decimals that are
kept as they were written until they are calculated with.

Values are ordered: `null`, truth values, numbers, strings, arrays, objects. Numbers of different forms
compare by value, objects by their sorted keys first and then by the values under them.
-/

namespace SampleTypes.Filter

/-- A value that filters work on. -/
inductive Value where
  | null
  | bool (b : Bool)
  | int (n : Int)
  | real (x : Float)
  /-- A decimal as it was written. -/
  | numeral (text : String)
  | string (s : String)
  | array (items : List Value)
  | object (members : List (String × Value))

instance : Inhabited Value := ⟨.null⟩

namespace Value

/-- A whole number has 64 bits. -/
def fits (n : Int) : Bool :=
  -(Nat.pow 2 63 : Int) ≤ n && n < (Nat.pow 2 63 : Int)

def ofNumber (number : Json.Number) : Value :=
  match number with
  | .natural n => if fits n then .int n else .numeral (String.ofList number.write)
  | .negative n => .int (-n)
  | .real _ => .numeral (String.ofList number.write)

mutual

def ofJson : Json → Value
  | .null => .null
  | .bool b => .bool b
  | .number n => ofNumber n
  | .string s => .string s
  | .array items => .array (ofItems items)
  | .object members => .object (ofMembers members)

def ofItems : List Json → List Value
  | [] => []
  | item :: items => ofJson item :: ofItems items

def ofMembers : List (String × Json) → List (String × Value)
  | [] => []
  | (key, value) :: members => (key, ofJson value) :: ofMembers members

end

/-! ## Text -/

/-- Doubles are written positionally from `10 ^ -4` up to `10 ^ 16`. -/
def style : Decimal.Style := ⟨-4, 15, false⟩

/-- One character of a string. Of those that take no part in a text only the tab and the line breaks
have a short form. -/
def escape (c : Char) : List Char :=
  if c.toNat == 0x08 then ['\\', 'u', '0', '0', '0', '8']
  else if c.toNat == 0x0C then ['\\', 'u', '0', '0', '0', 'c']
  else Json.escape c

def writeString (s : String) : List Char :=
  '"' :: s.toList.flatMap escape ++ ['"']

mutual

/-- A value as JSON; doubles that are no numbers are `null`. -/
def write : Value → List Char
  | .null => ['n', 'u', 'l', 'l']
  | .bool b => Json.writeBool b
  | .int n => (if n < 0 then ['-'] else []) ++ Decimal.digits n.natAbs
  | .real x => if x.isFinite then style.writeFloat x else ['n', 'u', 'l', 'l']
  | .numeral text => text.toList
  | .string s => writeString s
  | .array items => '[' :: writeItems items
  | .object members => '\x7b' :: writeMembers members

def writeItems : List Value → List Char
  | [] => [']']
  | [item] => item.write ++ [']']
  | item :: items => item.write ++ ',' :: writeItems items

def writeMembers : List (String × Value) → List Char
  | [] => ['\x7d']
  | [(key, value)] => writeString key ++ ':' :: value.write ++ ['\x7d']
  | (key, value) :: members =>
    writeString key ++ ':' :: value.write ++ ',' :: writeMembers members

end

def text (value : Value) : String :=
  String.ofList value.write

/-- A value inside a text: strings stand for themselves. -/
def shown : Value → String
  | .string s => s
  | value => value.text

/-! ## Order -/

mutual

/-- The value with decimals calculated and members in the order of their keys. -/
def canonical : Value → Value
  | .numeral text => .real (Decimal.readFloat text.toList)
  | .array items => .array (canonicalItems items)
  | .object members =>
    .object ((canonicalMembers members).mergeSort fun a b => decide (a.1 ≤ b.1))
  | value => value

def canonicalItems : List Value → List Value
  | [] => []
  | item :: items => item.canonical :: canonicalItems items

def canonicalMembers : List (String × Value) → List (String × Value)
  | [] => []
  | (key, value) :: members => (key, value.canonical) :: canonicalMembers members

end

/-- The place of a value's class in the order. -/
def rank : Value → Nat
  | .null => 0
  | .bool _ => 1
  | .int _ | .real _ | .numeral _ => 2
  | .string _ => 3
  | .array _ => 4
  | .object _ => 5

/-- Doubles by value; what is no number comes first, also before itself. -/
def orderReals (x y : Float) : Ordering :=
  if x.isNaN then .lt
  else if y.isNaN then .gt
  else if x < y then .lt
  else if x == y then .eq
  else .gt

def orderKeys : List String → List String → Ordering
  | [], [] => .eq
  | [], _ :: _ => .lt
  | _ :: _, [] => .gt
  | a :: as, b :: bs => (compare a b).then (orderKeys as bs)

mutual

/-- The order of canonical values. -/
def order : Value → Value → Ordering
  | .bool a, .bool b => compare a b
  | .int a, .int b => compare a b
  | .int a, .real y => orderReals (.ofInt a) y
  | .real x, .int b => orderReals x (.ofInt b)
  | .real x, .real y => orderReals x y
  | .string a, .string b => compare a b
  | .array a, .array b => orderItems a b
  | .object a, .object b => (orderKeys (Entries.keys a) (Entries.keys b)).then (orderMembers a b)
  | a, b => compare a.rank b.rank

def orderItems : List Value → List Value → Ordering
  | [], [] => .eq
  | [], _ :: _ => .lt
  | _ :: _, [] => .gt
  | a :: as, b :: bs => (order a b).then (orderItems as bs)

def orderMembers : List (String × Value) → List (String × Value) → Ordering
  | [], [] => .eq
  | [], _ :: _ => .lt
  | _ :: _, [] => .gt
  | (_, a) :: as, (_, b) :: bs => (order a b).then (orderMembers as bs)

end

def compare (a b : Value) : Ordering :=
  order a.canonical b.canonical

/-- Everything but `null` and `false` counts as true. -/
def isTrue : Value → Bool
  | .null | .bool false => false
  | _ => true

/-! ## Calculating -/

/-- What an operation yields: a value, or the value that describes why there is none. -/
abbrev Result := Except Value Value

def fail {α : Type} (description : String) : Except Value α :=
  .error (.string description)

def toReal? : Value → Option Float
  | .int n => some (.ofInt n)
  | .real x => some x
  | .numeral text => some (Decimal.readFloat text.toList)
  | _ => none

/-- Calculates with two numbers: exactly on whole ones as long as the result fits. -/
def calculate? (exact : Int → Int → Int) (rounded : Float → Float → Float) (a b : Value) :
    Option Value :=
  match a, b with
  | .int m, .int n =>
    if fits (exact m n) then some (.int (exact m n))
    else some (.real (rounded (.ofInt m) (.ofInt n)))
  | a, b => return .real (rounded (← a.toReal?) (← b.toReal?))

inductive Operation where
  | add
  | subtract
  | multiply
  | divide
  | remainder
deriving DecidableEq, Repr

def Operation.sign : Operation → String
  | .add => "+"
  | .subtract => "-"
  | .multiply => "*"
  | .divide => "/"
  | .remainder => "%"

/-- The operation is not defined on the values. -/
def cannotCalculate (a : Value) (operation : Operation) (b : Value) : Result :=
  fail ("cannot calculate " ++ a.text ++ " " ++ operation.sign ++ " " ++ b.text)

/-- The members of the second object put into the first one. -/
def mergeMembers (a b : List (String × Value)) : List (String × Value) :=
  b.foldl (fun members (key, value) => Entries.set key value members) a

/-- Objects merged inside one another, `bound` deep; other values give way to what comes later. -/
def mergeDeep : (bound : Nat) → Value → Value → Value
  | bound + 1, .object a, .object b =>
    .object (b.foldl (fun members (key, value) =>
      match Entries.find? key members with
      | some old => Entries.set key (mergeDeep bound old value) members
      | none => Entries.set key value members) a)
  | _, _, b => b

/-- The text so many times over; none for no times. -/
def times (text : String) (n : Int) : Value :=
  if n ≤ 0 then .null else .string (String.join (List.replicate n.toNat text))

/-- The parts of a text between separators; without a separator, its characters. -/
def split (text separator : String) : List Value :=
  if separator.isEmpty then text.toList.map fun c => .string c.toString
  else (text.splitOn separator).map .string

def apply (operation : Operation) (a b : Value) : Result :=
  match operation, a, b with
  | .add, .null, b => .ok b
  | .add, a, .null => .ok a
  | .add, .string a, .string b => .ok (.string (a ++ b))
  | .add, .array a, .array b => .ok (.array (a ++ b))
  | .add, .object a, .object b => .ok (.object (mergeMembers a b))
  | .subtract, .array a, .array b =>
    .ok (.array (a.filter fun x => !b.any fun y => compare x y == .eq))
  | .multiply, .string s, .int n => .ok (times s n)
  | .multiply, .int n, .string s => .ok (times s n)
  | .multiply, a@(.object _), b@(.object _) => .ok (mergeDeep a.write.length a b)
  | .divide, .string a, .string b => .ok (.array (split a b))
  | .remainder, .int m, .int n =>
    if n == 0 then cannotCalculate a operation b else .ok (.int (Int.tmod m n))
  | operation, a, b =>
    let result := match operation with
      | .add => calculate? (· + ·) (· + ·) a b
      | .subtract => calculate? (· - ·) (· - ·) a b
      | .multiply => calculate? (· * ·) (· * ·) a b
      | .divide => return .real ((← a.toReal?) / (← b.toReal?))
      | .remainder => none
    match result with
    | some value => .ok value
    | none => cannotCalculate a operation b

def negate (value : Value) : Result :=
  match value with
  | .int n => .ok (if fits (-n) then .int (-n) else .real (-.ofInt n))
  | value =>
    match value.toReal? with
    | some x => .ok (.real (-x))
    | none => fail ("cannot use " ++ value.text ++ " as number")

/-! ## Parts -/

/-- An index from the end made one from the beginning, if it is one. -/
def absolute? (index : Int) (length : Nat) : Option Nat :=
  let index := if index < 0 then index + length else index
  if 0 ≤ index && index < length then some index.toNat else none

/-- The value is no container. -/
def notIterable {α : Type} (value : Value) : Except Value α :=
  fail ("cannot use " ++ value.text ++ " as iterable (array or object)")

/-- The container has no such index. -/
def wrongIndex {α : Type} (value index : Value) : Except Value α :=
  fail ("cannot index " ++ value.text ++ " with " ++ index.text)

/-- The part under an index or a key; `null` if there is none. -/
def part (value index : Value) : Result :=
  match value, index with
  | .array items, .int i => .ok (((absolute? i items.length).bind fun i => items[i]?).getD .null)
  | .object members, .string key => .ok ((Entries.find? key members).getD .null)
  | .array _, index => wrongIndex value index
  | .object _, index => wrongIndex value index
  | value, _ => notIterable value

def parts (value : Value) : Except Value (List Value) :=
  match value with
  | .array items => .ok items
  | .object members => .ok (members.map (·.2))
  | value => notIterable value

/-- An end of a slice. -/
def bound? : Option Value → Except Value (Option Int)
  | none => .ok none
  | some (.int n) => .ok (some n)
  | some value => fail ("cannot use " ++ value.text ++ " as integer")

/-- An end of a slice as a place in a list. -/
def place (bound : Option Int) (length default : Nat) : Nat :=
  match bound with
  | none => default
  | some n => min length (if n < 0 then (n + length).toNat else n.toNat)

/-- Where a slice begins and how long it is. -/
def extent (first last : Option Value) (length : Nat) : Except Value (Nat × Nat) := do
  let skip := place (← bound? first) length 0
  let stop := place (← bound? last) length length
  return (skip, stop - skip)

/-- The items or characters from a place up to another one. -/
def slice (value : Value) (first last : Option Value) : Result :=
  match value with
  | .array items => do
    let (skip, take) ← extent first last items.length
    return .array ((items.drop skip).take take)
  | .string s => do
    let (skip, take) ← extent first last s.length
    return .string (String.ofList ((s.toList.drop skip).take take))
  | value => fail ("cannot use " ++ value.text ++ " as rangeable (array or string)")

mutual

/-- The value and everything inside it, from the outside in. -/
def within : Value → List Value
  | .array items => .array items :: withinItems items
  | .object members => .object members :: withinMembers members
  | value => [value]

def withinItems : List Value → List Value
  | [] => []
  | item :: items => item.within ++ withinItems items

def withinMembers : List (String × Value) → List Value
  | [] => []
  | (_, value) :: members => value.within ++ withinMembers members

end

/-! ## Questions -/

def length (value : Value) : Result :=
  match value with
  | .null => .ok (.int 0)
  | .bool _ => fail (value.text ++ " has no length")
  | .int n => .ok (.int n.natAbs)
  | .real x => .ok (.real x.abs)
  | .numeral text => .ok (.real (Decimal.readFloat text.toList).abs)
  | .string s => .ok (.int s.length)
  | .array items => .ok (.int items.length)
  | .object members => .ok (.int members.length)

def typeName : Value → String
  | .null => "null"
  | .bool _ => "boolean"
  | .int _ | .real _ | .numeral _ => "number"
  | .string _ => "string"
  | .array _ => "array"
  | .object _ => "object"

/-- The keys or indices of a container, in order of appearance. -/
def keysInOrder (value : Value) : Except Value (List Value) :=
  match value with
  | .array items => .ok ((List.range items.length).map fun (i : Nat) => .int i)
  | .object members => .ok (members.map fun (key, _) => .string key)
  | value => notIterable value

def has (value index : Value) : Result :=
  match value, index with
  | .array items, .int i =>
    if 0 ≤ i then .ok (.bool (decide (i < items.length))) else wrongIndex value index
  | .object members, .string key => .ok (.bool (Entries.find? key members).isSome)
  | value, index => wrongIndex value index

/-- Values from the least to the greatest, by a key for each. -/
def sortByKey (keyed : List (Value × Value)) : List Value :=
  (keyed.mergeSort fun a b => compare a.1 b.1 != .gt).map (·.2)

end Value

end SampleTypes.Filter
