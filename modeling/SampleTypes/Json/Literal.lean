import SampleTypes.Json.Reader

/-!
# Literals

Readers for the parts of JSON that hold no other values: the three words, numbers and strings.
-/

namespace SampleTypes.Json.Reader

def isDigit (b : UInt8) : Bool :=
  0x30 ≤ b && b ≤ 0x39

def digitValue (b : UInt8) : Nat :=
  b.toNat - 0x30

/-- The letter `e`, which begins an exponent, in either case. -/
def isExponentMark (b : UInt8) : Bool :=
  b == 0x65 || b == 0x45

/-- The rest of a word whose first letter has been passed. -/
def word : List Char → Reader Unit
  | [] => pure ()
  | letter :: letters => do
    match ← take with
    | none => refuse .endInValue
    | some b => if b.toNat == letter.toNat then word letters else refuse .expectedWord

/-! ## Numbers -/

/-- Reads digits into a number as long as it stays within the bound. Yields the number, how many
digits were read, and what follows them. -/
def digitsWithin (bound : Nat) : (n count : Nat) → List UInt8 → Nat × Nat × List UInt8
  | n, count, [] => (n, count, [])
  | n, count, b :: rest =>
    if isDigit b && n * 10 + digitValue b ≤ bound then
      digitsWithin bound (n * 10 + digitValue b) (count + 1) rest
    else
      (n, count, b :: rest)

/-- Reads digits into the number `n` within the bound: the number and the count of digits read. -/
def boundedDigits (bound n : Nat) : Reader (Nat × Nat) := fun c =>
  let (value, count, rest) := digitsWithin bound n 0 c.rest
  .ok (value, count) ⟨rest, c.line, c.column + count⟩

/-- Passes digits, and counts them. -/
def passDigits : Reader Nat := fun c =>
  let count := (c.rest.takeWhile isDigit).length
  .ok count ⟨c.rest.dropWhile isDigit, c.line, c.column + count⟩

/-- The next byte, if it is there, satisfies the condition. -/
def nextIs (condition : UInt8 → Bool) : Reader Bool := do
  return (← peek).any condition

/-- A finite real, with its sign. -/
def signed (positive : Bool) (x : Float) : Number :=
  .real (if positive then x else -x)

/-- The real with the digits and the power of ten read. -/
def real (positive : Bool) (significand : Nat) (exponent : Int) : Reader Number :=
  match Number.real? significand exponent with
  | some x => pure (signed positive x)
  | none => refuse .numberOutOfRange

/-- The greatest exponent that is followed digit by digit. -/
def exponentLimit : Nat :=
  Nat.pow 2 31 - 1

/-- The exponent of a number, from its mark on. An exponent past the limit makes a number zero, or
puts it out of range. -/
def exponent (positive : Bool) (significand : Nat) (start : Int) : Reader Number := do
  pass
  let sign ← peek
  if sign.any (fun b => b == 0x2B || b == 0x2D) then pass
  let upward := sign != some 0x2D
  match ← take with
  | none => refuse .endInValue
  | some b =>
    if isDigit b then
      let (value, _) ← boundedDigits exponentLimit (digitValue b)
      if ← nextIs isDigit then
        pass
        -- Past the limit a number that is not zero is too large, or so small that it is zero.
        if significand != 0 && upward then
          refuse .numberOutOfRange
        else
          let _ ← passDigits
          return signed positive 0.0
      else
        real positive significand (if upward then start + value else start - value)
    else
      refuse .invalidNumber

/-- The end of a number that is not whole: an exponent, or nothing. -/
def scaled (positive : Bool) (significand : Nat) (start : Int) : Reader Number := do
  if ← nextIs isExponentMark then
    exponent positive significand start
  else
    real positive significand start

/-- The fraction of a number, from its point on. Digits that no longer fit are passed over. -/
def fraction (positive : Bool) (significand : Nat) (start : Int) : Reader Number := do
  pass
  let (value, count) ← boundedDigits Number.significandLimit significand
  let more ← passDigits
  if count + more == 0 then
    match ← peek with
    | some _ => refuseNext .invalidNumber
    | none => refuseNext .endInValue
  else
    scaled positive value (start - count)

/-- What follows the whole part of a number. -/
def afterWhole (positive : Bool) (significand : Nat) : Reader Number := do
  match ← peek with
  | some 0x2E => fraction positive significand 0
  | some b =>
    if isExponentMark b then exponent positive significand 0
    else return .whole positive significand
  | none => return .whole positive significand

/-- A number whose sign has been passed. -/
def unsigned (positive : Bool) : Reader Number := do
  match ← take with
  | none => refuse .endInValue
  | some b =>
    if b == 0x30 then
      if ← nextIs isDigit then refuseNext .invalidNumber
      else afterWhole positive 0
    else if isDigit b then
      let (value, _) ← boundedDigits Number.significandLimit (digitValue b)
      let more ← passDigits
      if more == 0 then
        afterWhole positive value
      else if ← nextIs (· == 0x2E) then
        fraction positive value more
      else
        scaled positive value more
    else
      refuse .invalidNumber

/-- A number; the next byte is its sign or its first digit. -/
def number : Reader Number := do
  if ← nextIs (· == 0x2D) then
    pass
    unsigned false
  else
    unsigned true

/-! ## Strings -/

def hexValue? (b : UInt8) : Option Nat :=
  if isDigit b then some (digitValue b)
  else if 0x61 ≤ b && b ≤ 0x66 then some (b.toNat - 0x61 + 10)
  else if 0x41 ≤ b && b ≤ 0x46 then some (b.toNat - 0x41 + 10)
  else none

def hexValue4? (a b c d : UInt8) : Option Nat := do
  return (((← hexValue? a) * 16 + (← hexValue? b)) * 16 + (← hexValue? c)) * 16 + (← hexValue? d)

def hexDigits : Reader Nat := fun cursor =>
  match cursor.rest with
  | a :: b :: c :: d :: _ =>
    match hexValue4? a b c d with
    | some n => .ok n (cursor.advanceBy 4)
    | none => refuse .invalidEscape (cursor.advanceBy 4)
  | few => refuse .endInString (cursor.advanceBy few.length)

def codePoint (n : Nat) : List UInt8 :=
  String.utf8EncodeChar (Char.ofNat n)

/-- Takes the byte that must follow a leading surrogate. -/
def surrogateMark (mark : UInt8) : Reader Unit := do
  match ← take with
  | none => refuse .endInString
  | some b => if b == mark then pure () else refuse .unfinishedSurrogate

/-- The character of a numeric escape, whose mark has been passed. Characters beyond the first plane
are written as two surrogates. -/
def numericEscape : Reader (List UInt8) := do
  let n ← hexDigits
  if 0xDC00 ≤ n && n ≤ 0xDFFF then
    refuse .loneSurrogate
  else if 0xD800 ≤ n && n ≤ 0xDBFF then
    surrogateMark 0x5C
    surrogateMark 0x75
    let m ← hexDigits
    if 0xDC00 ≤ m && m ≤ 0xDFFF then
      return codePoint (0x10000 + (n - 0xD800) * 0x400 + (m - 0xDC00))
    else
      refuse .loneSurrogate
  else
    return codePoint n

def shortEscape? (b : UInt8) : Option UInt8 :=
  if b == 0x22 || b == 0x5C || b == 0x2F then some b
  else if b == 0x62 then some 0x08
  else if b == 0x66 then some 0x0C
  else if b == 0x6E then some 0x0A
  else if b == 0x72 then some 0x0D
  else if b == 0x74 then some 0x09
  else none

def isNumericMark (b : UInt8) : Bool :=
  b == 0x75

/-- An escape whose backslash has been passed. -/
def escape : Reader (List UInt8) := do
  match ← take with
  | none => refuse .endInString
  | some b =>
    match shortEscape? b with
    | some byte => return [byte]
    | none => if isNumericMark b then numericEscape else refuse .invalidEscape

/-- The bytes of a string up to its closing quote; those read so far stand back to front. -/
def stringBytes : Bound → (reversed : List UInt8) → Reader (List UInt8)
  | [], _ => refuse .endInString
  | _ :: bound, reversed => do
    match ← peek with
    | none => refuse .endInString
    | some b =>
      if b == 0x22 then
        pass
        return reversed.reverse
      else if b == 0x5C then
        pass
        let bytes ← escape
        stringBytes bound (bytes.reverse ++ reversed)
      else if b < 0x20 then
        pass
        refuse .controlCharacter
      else
        pass
        stringBytes bound (b :: reversed)

/-- How many of the bytes, from the first one on, are the UTF-8 form of characters. -/
def validBytes (bytes : ByteArray) : (bound start : Nat) → Nat
  | 0, start => start
  | bound + 1, start =>
    match bytes.utf8DecodeChar? start with
    | some c => validBytes bytes bound (start + c.utf8Size)
    | none => start

/-- The text of a string's bytes. A byte that belongs to no character is refused at its own place,
counted back from the closing quote. -/
def textOf (bytes : List UInt8) : Reader String := fun c =>
  let array := ByteArray.mk bytes.toArray
  match String.fromUTF8? array with
  | some text => .ok text c
  | none =>
    let back := bytes.length - validBytes array bytes.length 0
    .error ⟨.invalidCodePoint, some ⟨c.line, c.column - back⟩, []⟩ c

/-- A string whose opening quote has been passed. -/
def string : Reader String := do
  let bytes ← withBound fun bound => stringBytes bound []
  textOf bytes

end SampleTypes.Json.Reader
