import SampleTypes.Json.Basic
import SampleTypes.Entries
import SampleTypes.Path

/-!
# Pointers

A pointer names a part of a value by the keys and indices that lead to it, each after a slash. A tilde
and a slash inside a key are written `~0` and `~1`.
-/

namespace SampleTypes.Json.Pointer

def escapeChar (c : Char) : List Char :=
  if c == '~' then ['~', '0'] else if c == '/' then ['~', '1'] else [c]

def escape (key : String) : String :=
  String.ofList (key.toList.flatMap escapeChar)

/-- Puts one character in the place of every pair `a`, `b`, from left to right. -/
def replacePair (a b c : Char) : List Char → List Char
  | x :: y :: rest =>
    if x == a && y == b then c :: replacePair a b c rest
    else x :: replacePair a b c (y :: rest)
  | rest => rest

def unescape (segment : String) : String :=
  String.ofList (replacePair '~' '0' '~' (replacePair '~' '1' '/' segment.toList))

/-- The pointer along keys. -/
def write (keys : List String) : String :=
  String.join (keys.map fun key => "/" ++ escape key)

/-- The keys of a pointer: none for the empty text, and no pointer if it does not begin with a slash. -/
def keys? (pointer : String) : Option (List String) :=
  match Path.split pointer.toList with
  | [[]] => some []
  | [] :: segments => some (segments.map fun segment => unescape (String.ofList segment))
  | _ => none

/-- The index that a key says: decimal digits without leading zeros. -/
def index? (key : String) : Option Nat :=
  let digits := key.toList
  if digits.isEmpty || !digits.all Char.isDigit then none
  else if digits.length != 1 && digits.head? == some '0' then none
  else some (digits.foldl (fun n c => 10 * n + (c.toNat - '0'.toNat)) 0)

def step? (value : Json) (key : String) : Option Json :=
  match value with
  | .object members => Entries.find? key members
  | .array items => (index? key).bind fun index => items[index]?
  | _ => none

def follow? : Json → List String → Option Json
  | value, [] => some value
  | value, key :: keys => (step? value key).bind fun part => follow? part keys

def resolve? (pointer : String) (value : Json) : Option Json :=
  (keys? pointer).bind (follow? value)

end SampleTypes.Json.Pointer
