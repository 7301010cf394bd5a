import SampleTypes.Json.Document

/-!
# Typed values

Readers for values of a known form: truth values, texts, values that may be missing, lists, maps,
names out of a fixed set, and records.

A record is written as a map of its fields or as a list of them in order. In a map the fields come in
any order, each at most once, under its name or an older spelling of it; members that are no fields
are passed over. A field that may be left out keeps the value it has in the blank record.
-/

namespace SampleTypes.Json.Reader

variable {α σ : Type}

/-- Refuses a value of the wrong type. A value without parts is read first, which may fail in its own
way; a container is refused before it is entered. -/
def wrongType (expected : String) : Reader α :=
  placed do
    match ← peek with
    | some 0x6E => pass; word ['u', 'l', 'l']; refuseLater (.wrongType .null expected)
    | some 0x74 => pass; word ['r', 'u', 'e']; refuseLater (.wrongType (.bool true) expected)
    | some 0x66 => pass; word ['a', 'l', 's', 'e']; refuseLater (.wrongType (.bool false) expected)
    | some 0x22 => pass; refuseLater (.wrongType (.string (← string)) expected)
    | some 0x5B => refuseLater (.wrongType .list expected)
    | some 0x7B => refuseLater (.wrongType .map expected)
    | some b =>
      if b == 0x2D || isDigit b then refuseLater (.wrongType (.number (← number)) expected)
      else refuseNext .expectedValue
    | none => refuseNext .expectedValue

def bool : Reader Bool := do
  match ← token with
  | none => refuseNext .endInValue
  | some 0x74 => pass; word ['r', 'u', 'e']; return true
  | some 0x66 => pass; word ['a', 'l', 's', 'e']; return false
  | some _ => wrongType "a boolean"

/-- A text; `expected` names it when something else is found. -/
def text (expected : String) : Reader String := do
  match ← token with
  | none => refuseNext .endInValue
  | some 0x22 => pass; string
  | some _ => wrongType expected

/-- The empty value. -/
def unit : Reader Unit := do
  match ← token with
  | none => refuseNext .endInValue
  | some 0x6E => pass; word ['u', 'l', 'l']
  | some _ => wrongType "unit"

/-- A value, or `null` for none. -/
def nullable (reader : Reader α) : Reader (Option α) := do
  match ← token with
  | some 0x6E => pass; word ['u', 'l', 'l']; return none
  | _ => some <$> reader

/-- Enters a container, if the depth that is left allows one more. -/
def enter (depth : Nat) (body : Nat → Reader α) : Reader α :=
  match depth with
  | 0 => refuseNext .tooDeep
  | depth + 1 => do
    pass
    body depth

def list (depth : Nat) (item : Nat → Reader α) : Reader (List α) := do
  match ← token with
  | none => refuseNext .endInValue
  | some 0x5B => placed (enter depth fun depth => closing (items (item depth)) endList)
  | some _ => wrongType "a sequence"

def map (depth : Nat) (value : Nat → Reader α) : Reader (Entries α) := do
  match ← token with
  | none => refuseNext .endInValue
  | some 0x7B => placed (enter depth fun depth => closing (entries (value depth)) endMap)
  | some _ => wrongType "a map"

/-! ## Names out of a fixed set -/

def variantNamed (variants : List (String × α)) (name : String) : Reader α :=
  match variants.find? (·.1 == name) with
  | some (_, a) => pure a
  | none => refuseLater (.unknownVariant name (variants.map (·.1)))

/-- One of the names, as a text or as a map from the name to `null`. -/
def variant (depth : Nat) (variants : List (String × α)) : Reader α := do
  match ← token with
  | none => refuseNext .endInValue
  | some 0x22 => placed do pass; variantNamed variants (← string)
  | some 0x7B =>
    enter depth fun _ => do
      match ← token with
      | some 0x22 => pass
      | some 0x7D => refuseNext .expectedValue
      | some _ => refuseNext .keyNotString
      | none => refuseNext .endInObject
      let name ← placed string
      let a ← placed (variantNamed variants name)
      colon
      within (.key name) unit
      match ← token with
      | some 0x7D => pass
      | some _ => refuse .expectedValue
      | none => refuse .endInObject
      return a
  | some _ => refuseNext .expectedValue

/-! ## Records -/

/-- A field of a record: its name, its older spellings, whether it may be left out, and how its value
is read into the record. -/
structure Field (σ : Type) where
  name : String
  spellings : List String
  required : Bool
  value : Nat → Reader (σ → σ)

namespace Field

/-- The field goes by the name. -/
def answersTo (name : String) (field : Field σ) : Bool :=
  field.name == name || field.spellings.contains name

/-- A field that may be left out. -/
def free (name : String) (value : Nat → Reader α) (put : α → σ → σ) : Field σ :=
  ⟨name, [], false, fun depth => put <$> value depth⟩

/-- A field that must be there. -/
def needed (name : String) (value : Nat → Reader α) (put : α → σ → σ) : Field σ :=
  ⟨name, [], true, fun depth => put <$> value depth⟩

/-- The field under one more, older name. -/
def orSpelt (name : String) (field : Field σ) : Field σ :=
  { field with spellings := name :: field.spellings }

end Field

/-- A record being read: the fields seen so far, by name, and the values they gave. -/
structure Draft (σ : Type) where
  seen : List String
  value : σ

def fieldMember (fields : List (Field σ)) (depth : Nat) (draft : Draft σ) (key : String) :
    Reader (Draft σ) :=
  match fields.find? (·.answersTo key) with
  | some field =>
    if draft.seen.contains field.name then
      refuseLater (.duplicateField field.name)
    else do
      let put ← memberValue key (field.value depth)
      return ⟨field.name :: draft.seen, put draft.value⟩
  | none => do
    -- A member that no field answers to is passed over.
    memberValue key passValue
    return draft

/-- A record from the members of a map. -/
def recordFromMembers (fields : List (Field σ)) (depth : Nat) (blank : σ) : Reader σ := do
  let draft ← members (fieldMember fields depth) ⟨[], blank⟩
  match fields.find? fun field => field.required && !draft.seen.contains field.name with
  | some field => refuseLater (.missingField field.name)
  | none => return draft.value

/-- A record from the items of a list, of which the first is number `index`. -/
def recordFromItems (expected : String) (depth : Nat) :
    (fields : List (Field σ)) → (index : Nat) → σ → Reader σ
  | [], _, record => return record
  | field :: fields, index, record => do
    if ← nextItem (index == 0) then
      let put ← within (.item index) (field.value depth)
      recordFromItems expected depth fields (index + 1) (put record)
    else
      -- The list should have gone on to the first of the fields that must be there.
      match (field :: fields).findIdx? (·.required) with
      | some missing => refuseLater (.wrongLength (index + missing) expected)
      | none => return record

/-- A record with the fields, read into the blank one. `name` names its type in messages. -/
def record (name : String) (fields : List (Field σ)) (blank : σ) (depth : Nat) : Reader σ := do
  match ← token with
  | none => refuseNext .endInValue
  | some 0x5B =>
    let expected := name ++ " with " ++ toString fields.length ++ " elements"
    placed (enter depth fun depth =>
      closing (recordFromItems expected depth fields 0 blank) endList)
  | some 0x7B =>
    placed (enter depth fun depth => closing (recordFromMembers fields depth blank) endMap)
  | some _ => wrongType name

end SampleTypes.Json.Reader
