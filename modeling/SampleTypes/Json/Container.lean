import SampleTypes.Json.Literal

/-!
# Containers

Readers for what all lists and maps share: brackets, commas, keys and colons, and the loops over the
parts between them. What the parts hold is left to the caller.
-/

namespace SampleTypes.Json.Reader

variable {α σ : Type}

/-- Whether another item comes, with the comma before it passed. -/
def nextItem (first : Bool) : Reader Bool := do
  match ← token with
  | none => refuseNext .endInList
  | some 0x5D => return false
  | some b =>
    if first then
      return true
    else if b == 0x2C then
      pass
      match ← token with
      | none => refuseNext .endInValue
      | some 0x5D => refuseNext .trailingComma
      | some _ => return true
    else
      refuseNext .expectedCommaOrBracket

/-- The key of another member, if one comes, with the comma before it passed. -/
def nextKey (first : Bool) : Reader (Option String) := do
  match ← token with
  | none => refuseNext .endInObject
  | some 0x7D => return none
  | some b =>
    if first then
      if b == 0x22 then pass; some <$> string else refuseNext .keyNotString
    else if b == 0x2C then
      pass
      match ← token with
      | none => refuseNext .endInValue
      | some 0x22 => pass; some <$> string
      | some 0x7D => refuseNext .trailingComma
      | some _ => refuseNext .keyNotString
    else
      refuseNext .expectedCommaOrBrace

def colon : Reader Unit := do
  match ← token with
  | none => refuseNext .endInObject
  | some b => if b == 0x3A then pass else refuseNext .expectedColon

def endList : Reader Unit := do
  match ← token with
  | none => refuseNext .endInList
  | some 0x5D => pass
  | some 0x2C =>
    pass
    match ← token with
    | some 0x5D => refuseNext .trailingComma
    | _ => refuseNext .trailingCharacters
  | some _ => refuseNext .trailingCharacters

def endMap : Reader Unit := do
  match ← token with
  | none => refuseNext .endInObject
  | some 0x7D => pass
  | some 0x2C => refuseNext .trailingComma
  | some _ => refuseNext .trailingCharacters

/-- The items of a list up to its bracket; those read so far stand back to front. -/
def itemsFrom (item : Reader α) : Bound → (index : Nat) → (reversed : List α) → Reader (List α)
  | [], _, reversed => return reversed.reverse
  | _ :: bound, index, reversed => do
    if ← nextItem (index == 0) then
      let a ← within (.item index) item
      itemsFrom item bound (index + 1) (a :: reversed)
    else
      return reversed.reverse

def items (item : Reader α) : Reader (List α) :=
  withBound fun bound => itemsFrom item bound 0 []

/-- Folds over the members of a map up to its brace. `member` reads what follows a key. -/
def membersFrom (member : σ → String → Reader σ) : Bound → (first : Bool) → σ → Reader σ
  | [], _, s => return s
  | _ :: bound, first, s => do
    match ← within .unreadable (nextKey first) with
    | none => return s
    | some key =>
      let s ← member s key
      membersFrom member bound false s

def members (member : σ → String → Reader σ) (s : σ) : Reader σ :=
  withBound fun bound => membersFrom member bound true s

def memberValue (key : String) (value : Reader α) : Reader α := do
  colon
  within (.key key) value

/-- The entries of a map up to its brace. A repeated key keeps its place and takes the later value. -/
def entries (value : Reader α) : Reader (Entries α) :=
  members (fun sofar key => do return sofar.set key (← memberValue key value)) []

/-- Containers may lie in one another this deep. -/
def depthLimit : Nat :=
  127

/-! ## Passing over values -/

/-- A container that is being passed over. -/
inductive Frame where
  | list
  | map
deriving DecidableEq

/-- Passes a string up to its closing quote. Escapes are only looked at as far as they reach. -/
def passString : Bound → Reader Unit
  | [] => refuse .endInString
  | _ :: bound => do
    match ← peek with
    | none => refuse .endInString
    | some b =>
      if b == 0x22 then
        pass
      else if b == 0x5C then
        pass
        match ← take with
        | none => refuse .endInString
        | some mark =>
          if isNumericMark mark then
            let _ ← hexDigits
            passString bound
          else if (shortEscape? mark).isSome then
            passString bound
          else
            refuse .invalidEscape
      else if b < 0x20 then
        refuse .controlCharacter
      else
        pass
        passString bound

def passExponent : Reader Unit := do
  pass
  if ← nextIs (fun b => b == 0x2B || b == 0x2D) then pass
  match ← take with
  | some b => if isDigit b then discard passDigits else refuse .invalidNumber
  | none => refuse .invalidNumber

def passFraction : Reader Unit := do
  pass
  if (← passDigits) == 0 then refuseNext .invalidNumber
  if ← nextIs isExponentMark then passExponent

/-- Passes a number whose sign has been passed. -/
def passNumber : Reader Unit := do
  match ← take with
  | none => refuse .invalidNumber
  | some b =>
    if b == 0x30 then
      if ← nextIs isDigit then refuseNext .invalidNumber
    else if isDigit b then
      discard passDigits
    else
      refuse .invalidNumber
  if ← nextIs (· == 0x2E) then passFraction
  else if ← nextIs isExponentMark then passExponent

def passKey : Reader Unit := do
  match ← token with
  | none => refuseNext .endInObject
  | some b =>
    if b == 0x22 then
      pass
      withBound passString
      colon
    else
      refuseNext .keyNotString

/-- Passes what comes before a value in an open container. -/
def passBefore : Frame → Reader Unit
  | .list => pure ()
  | .map => passKey

def Frame.closer : Frame → UInt8
  | .list => 0x5D
  | .map => 0x7D

/-- A text that ends inside a container. -/
def Frame.atEnd : Frame → Fault
  | .list => .endInList
  | .map => .endInObject

/-- A part that is followed by neither a comma nor the end of its container. -/
def Frame.unseparated : Frame → Fault
  | .list => .expectedCommaOrBracket
  | .map => .expectedCommaOrBrace

/-- Begins to pass a container, whose bracket has been passed: says whether a part comes, or passes its
other bracket. -/
def passOpening (frame : Frame) : Reader Bool := do
  match ← token with
  | none => refuseNext frame.atEnd
  | some b =>
    if b == frame.closer then
      pass
      return false
    else
      passBefore frame
      return true

/-- Goes on in an open container after a part of it: says whether another part comes, or passes the
container's other bracket. -/
def passSeparator (frame : Frame) : Reader Bool := do
  match ← token with
  | none => refuseNext frame.atEnd
  | some b =>
    if b == frame.closer then
      pass
      return false
    else if b == 0x2C then
      pass
      passBefore frame
      return true
    else
      refuseNext frame.unseparated

/-- Passes a value that has no parts. Says which container begins instead, with its bracket passed. -/
def passLeaf : Reader (Option Frame) := do
  match ← token with
  | none => refuseNext .endInValue
  | some 0x6E => pass; word ['u', 'l', 'l']; return none
  | some 0x74 => pass; word ['r', 'u', 'e']; return none
  | some 0x66 => pass; word ['a', 'l', 's', 'e']; return none
  | some 0x2D => pass; passNumber; return none
  | some 0x22 => pass; withBound passString; return none
  | some 0x5B => pass; return some .list
  | some 0x7B => pass; return some .map
  | some b =>
    if isDigit b then
      passNumber
      return none
    else
      refuseNext .expectedValue

/-- Passes values until the open containers are closed, however many they are. `ahead` says that a value
comes next, and not what stands behind one. -/
def passFrom : Bound → List Frame → (ahead : Bool) → Reader Unit
  | [], _, _ => refuse .endInValue
  | _ :: bound, frames, true => do
    match ← passLeaf with
    | none => passFrom bound frames false
    | some frame =>
      if ← passOpening frame then passFrom bound (frame :: frames) true
      else passFrom bound frames false
  | _, [], false => pure ()
  | _ :: bound, frame :: frames, false => do
    if ← passSeparator frame then passFrom bound (frame :: frames) true
    else passFrom bound frames false

/-- Passes a value, whatever it is and however deep. -/
def passValue : Reader Unit :=
  withBound fun bound => passFrom bound [] true

end SampleTypes.Json.Reader
