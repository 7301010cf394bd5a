import SampleTypes.Json.Container

/-!
# Documents

A document is a text that holds one JSON value and nothing else but white space around it. Containers
may lie in one another up to `depthLimit` deep.
-/

namespace SampleTypes.Json

namespace Reader

/-- A value. A bracket or brace is left to `container`, which finds it as the next byte. -/
def valueWith (container : UInt8 → Reader Json) : Reader Json := do
  match ← token with
  | none => refuseNext .endInValue
  | some 0x6E => pass; word ['u', 'l', 'l']; return .null
  | some 0x74 => pass; word ['r', 'u', 'e']; return .bool true
  | some 0x66 => pass; word ['a', 'l', 's', 'e']; return .bool false
  | some 0x22 => pass; .string <$> string
  | some b =>
    if b == 0x2D || isDigit b then .number <$> number
    else if b == 0x5B || b == 0x7B then container b
    else refuseNext .expectedValue

/-- A value in which containers lie at most `depth` deep. -/
def value : (depth : Nat) → Reader Json
  | 0 => valueWith fun _ => refuseNext .tooDeep
  | depth + 1 => valueWith fun b => do
    pass
    if b == 0x5B then
      .array <$> closing (items (value depth)) endList
    else
      .object <$> closing (entries (value depth)) endMap

def endOfText : Reader Unit := do
  match ← token with
  | none => pure ()
  | some _ => refuseNext .trailingCharacters

def document : Reader Json := do
  let v ← value depthLimit
  endOfText
  return v

end Reader

def read (text : String) : Except Refusal Json :=
  Reader.document.run text.toUTF8.toList

end SampleTypes.Json
