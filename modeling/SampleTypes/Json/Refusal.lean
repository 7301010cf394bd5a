import SampleTypes.Json.Number
import SampleTypes.Text.Quoted

/-!
# Why a text is refused

A text may fail to be JSON, or be JSON of the wrong form for what is read from it. A `Refusal` says
which fault it is, at which line and column, and in which part of the value.
-/

namespace SampleTypes.Json

/-- A place in a text: lines count from one, columns are the bytes read since the line began. -/
structure Position where
  line : Nat
  column : Nat
deriving DecidableEq, Repr

/-- What stands where something else was expected. -/
inductive Found where
  | null
  | bool (b : Bool)
  | number (n : Number)
  | string (s : String)
  | list
  | map

/-- The ways in which a text fails to be what is read from it. -/
inductive Fault where
  | endInList
  | endInObject
  | endInString
  | endInValue
  | expectedColon
  | expectedCommaOrBracket
  | expectedCommaOrBrace
  | expectedWord
  | expectedValue
  | invalidEscape
  | invalidNumber
  | numberOutOfRange
  | invalidCodePoint
  | controlCharacter
  | keyNotString
  | loneSurrogate
  | unfinishedSurrogate
  | trailingComma
  | trailingCharacters
  | tooDeep
  | wrongType (found : Found) (expected : String)
  | wrongLength (length : Nat) (expected : String)
  | unknownVariant (name : String) (known : List String)
  | missingField (name : String)
  | duplicateField (name : String)

/-- A step from a value to a part of it. -/
inductive Segment where
  | key (name : String)
  | item (index : Nat)
  | unreadable
deriving DecidableEq, Repr

/-- A fault, the place where it was noticed and the part of the value it belongs to. A fault that
concerns a whole container gets its place only when the container has been left. -/
structure Refusal where
  fault : Fault
  place : Option Position
  path : List Segment

def Found.describe : Found → String
  | .null => "null"
  | .bool b => "boolean `" ++ String.ofList (writeBool b) ++ "`"
  | .number (.real x) => "floating point `" ++ String.ofList (Number.real x).write ++ "`"
  | .number n => "integer `" ++ String.ofList n.write ++ "`"
  | .string s => "string " ++ Text.quoted s
  | .list => "sequence"
  | .map => "map"
where
  /-- The truth values. -/
  writeBool : Bool → List Char
    | true => ['t', 'r', 'u', 'e']
    | false => ['f', 'a', 'l', 's', 'e']

/-- The names that would have been accepted. -/
def alternatives (known : List String) : String :=
  match known.map fun name => "`" ++ name ++ "`" with
  | [one] => "expected " ++ one
  | [one, two] => "expected " ++ one ++ " or " ++ two
  | names => "expected one of " ++ ", ".intercalate names

def Fault.describe : Fault → String
  | .endInList => "EOF while parsing a list"
  | .endInObject => "EOF while parsing an object"
  | .endInString => "EOF while parsing a string"
  | .endInValue => "EOF while parsing a value"
  | .expectedColon => "expected `:`"
  | .expectedCommaOrBracket => "expected `,` or `]`"
  | .expectedCommaOrBrace => "expected `,` or `\x7d`"
  | .expectedWord => "expected ident"
  | .expectedValue => "expected value"
  | .invalidEscape => "invalid escape"
  | .invalidNumber => "invalid number"
  | .numberOutOfRange => "number out of range"
  | .invalidCodePoint => "invalid unicode code point"
  | .controlCharacter => "control character (\\u0000-\\u001F) found while parsing a string"
  | .keyNotString => "key must be a string"
  | .loneSurrogate => "lone leading surrogate in hex escape"
  | .unfinishedSurrogate => "unexpected end of hex escape"
  | .trailingComma => "trailing comma"
  | .trailingCharacters => "trailing characters"
  | .tooDeep => "recursion limit exceeded"
  | .wrongType found expected => "invalid type: " ++ found.describe ++ ", expected " ++ expected
  | .wrongLength length expected =>
    "invalid length " ++ toString length ++ ", expected " ++ expected
  | .unknownVariant name known => "unknown variant `" ++ name ++ "`, " ++ alternatives known
  | .missingField name => "missing field `" ++ name ++ "`"
  | .duplicateField name => "duplicate field `" ++ name ++ "`"

def Refusal.message (refusal : Refusal) : String :=
  match refusal.place with
  | none => refusal.fault.describe
  | some place =>
    refusal.fault.describe ++ " at line " ++ toString place.line ++ " column " ++
      toString place.column

def Segment.describe : Segment → String
  | .key name => name
  | .item index => "[" ++ toString index ++ "]"
  | .unreadable => "?"

/-- The segments after the first one: an index follows directly, a name after a point. -/
def describeRest : List Segment → String
  | [] => ""
  | .item index :: rest => (Segment.item index).describe ++ describeRest rest
  | segment :: rest => "." ++ segment.describe ++ describeRest rest

/-- A path as it is reported; the value itself is a single point. -/
def describePath : List Segment → String
  | [] => "."
  | segment :: rest => segment.describe ++ describeRest rest

/-- The part of the value that a refusal belongs to. -/
def Refusal.describePath (refusal : Refusal) : String :=
  Json.describePath refusal.path

end SampleTypes.Json
