import SampleTypes.Json.Number

/-!
# Writing JSON

Two forms of a value: compact, without a blank between its parts, and indented, with one item or
member to a line. Both escape the same characters of a string: the quote, the backslash and what lies
below the space.
-/

namespace SampleTypes.Json

def hexDigit (n : Nat) : Char :=
  Nat.digitChar n

def escape (c : Char) : List Char :=
  if c == '"' then ['\\', '"']
  else if c == '\\' then ['\\', '\\']
  else if c.toNat < 0x20 then
    if c.toNat == 0x08 then ['\\', 'b']
    else if c.toNat == 0x0C then ['\\', 'f']
    else if c == '\n' then ['\\', 'n']
    else if c == '\r' then ['\\', 'r']
    else if c == '\t' then ['\\', 't']
    else ['\\', 'u', '0', '0', hexDigit (c.toNat / 16), hexDigit (c.toNat % 16)]
  else [c]

def writeString (s : String) : List Char :=
  '"' :: s.toList.flatMap escape ++ ['"']

def writeBool : Bool → List Char
  | true => ['t', 'r', 'u', 'e']
  | false => ['f', 'a', 'l', 's', 'e']

mutual

def write : Json → List Char
  | .null => ['n', 'u', 'l', 'l']
  | .bool b => writeBool b
  | .number n => n.write
  | .string s => writeString s
  | .array items => '[' :: writeItems items
  | .object members => '\x7b' :: writeMembers members

def writeItems : List Json → List Char
  | [] => [']']
  | [item] => item.write ++ [']']
  | item :: items => item.write ++ ',' :: writeItems items

def writeMembers : List (String × Json) → List Char
  | [] => ['\x7d']
  | [(key, value)] => writeString key ++ ':' :: value.write ++ ['\x7d']
  | (key, value) :: members => writeString key ++ ':' :: value.write ++ ',' :: writeMembers members

end

def compact (value : Json) : String :=
  String.ofList value.write

/-- A line break followed by the blanks of a level, two for each container around. -/
def newLine (level : Nat) : List Char :=
  '\n' :: List.replicate (2 * level) ' '

mutual

/-- A value in indented form, inside `level` containers. -/
def writeIndented (level : Nat) : Json → List Char
  | .array (item :: items) => '[' :: writeIndentedItems (level + 1) (item :: items)
  | .object (member :: members) => '\x7b' :: writeIndentedMembers (level + 1) (member :: members)
  | .array [] => ['[', ']']
  | .object [] => ['\x7b', '\x7d']
  | .null => ['n', 'u', 'l', 'l']
  | .bool b => writeBool b
  | .number n => n.write
  | .string s => writeString s

def writeIndentedItems (level : Nat) : List Json → List Char
  | [] => newLine (level - 1) ++ [']']
  | [item] => newLine level ++ item.writeIndented level ++ newLine (level - 1) ++ [']']
  | item :: items =>
    newLine level ++ item.writeIndented level ++ ',' :: writeIndentedItems level items

def writeIndentedMembers (level : Nat) : List (String × Json) → List Char
  | [] => newLine (level - 1) ++ ['\x7d']
  | [(key, value)] =>
    newLine level ++ writeString key ++ [':', ' '] ++ value.writeIndented level ++
      newLine (level - 1) ++ ['\x7d']
  | (key, value) :: members =>
    newLine level ++ writeString key ++ [':', ' '] ++ value.writeIndented level ++
      ',' :: writeIndentedMembers level members

end

def indented (value : Json) : String :=
  String.ofList (value.writeIndented 0)

end SampleTypes.Json
