import SampleTypes.Filter.Basic
import SampleTypes.Filter.Token

/-!
# The grammar of filters

A filter is a sequence of atoms with infix operators between them. An atom may be followed by question
marks, which pass over its failures, and by steps of a path. Operators bind in levels: on a level all
group to the left, except for pipes and assignments, which group to the right.
-/

namespace SampleTypes.Filter

/-- A way to take a filter off the front of tokens. -/
abbrev Grammar := StateT (List Token) Option

inductive Infix where
  | pipe
  | bind (pattern : Pattern)
  | comma
  | assign (assignment : Assignment)
  | update
  | orElse
  | connect (connective : Connective)
  | compare (comparison : Comparison)
  | operate (operation : Value.Operation)

namespace Infix

/-- How tightly an operator binds. -/
def level : Infix → Nat
  | .pipe | .bind _ => 0
  | .comma => 1
  | .assign _ | .update => 2
  | .orElse => 3
  | .connect .either => 4
  | .connect .both => 5
  | .compare .equal | .compare .different => 6
  | .compare _ => 7
  | .operate .add | .operate .subtract => 8
  | .operate .multiply | .operate .divide => 9
  | .operate .remainder => 10

/-- The filter that an operator makes of its sides. -/
def join : Infix → Filter → Filter → Filter
  | .pipe => .pipe
  | .bind pattern => fun value body => .bind value pattern body
  | .comma => .comma
  | .assign assignment => .assign assignment
  | .update => .update
  | .orElse => .orElse
  | .connect connective => .connect connective
  | .compare comparison => .compare comparison
  | .operate operation => .operate operation

/-- Joins the operators of a level, to the left. -/
def joinLeft (level : Nat) : Filter → List (Infix × Filter) → Filter × List (Infix × Filter)
  | head, [] => (head, [])
  | head, (op, next) :: rest =>
    if op.level == level then
      joinLeft level (op.join head next) rest
    else
      let (next, rest) := joinLeft level next rest
      (head, (op, next) :: rest)

/-- Joins the operators of a level, to the right. -/
def joinRight (level : Nat) : Filter → List (Infix × Filter) → Filter × List (Infix × Filter)
  | head, [] => (head, [])
  | head, (op, next) :: rest =>
    let (next, rest) := joinRight level next rest
    if op.level == level then (op.join head next, rest) else (head, (op, next) :: rest)

/-- Joins all operators, the tightest first. -/
def joinAll (head : Filter) (tail : List (Infix × Filter)) : Filter :=
  let levels := (List.range 11).reverse
  (levels.foldl (fun (head, tail) level =>
    if level == 0 || level == 2 then joinRight level head tail else joinLeft level head tail)
    (head, tail)).1

/-- The operators that are symbols. -/
def ofSymbol? (comma : Bool) : String → Option Infix
  | "|" => some .pipe
  | "," => if comma then some .comma else none
  | "=" => some (.assign .replace)
  | "+=" => some (.assign (.calculate .add))
  | "-=" => some (.assign (.calculate .subtract))
  | "*=" => some (.assign (.calculate .multiply))
  | "/=" => some (.assign (.calculate .divide))
  | "%=" => some (.assign (.calculate .remainder))
  | "//=" => some (.assign .complete)
  | "|=" => some .update
  | "//" => some .orElse
  | "==" => some (.compare .equal)
  | "!=" => some (.compare .different)
  | "<" => some (.compare .less)
  | "<=" => some (.compare .lessOrEqual)
  | ">" => some (.compare .greater)
  | ">=" => some (.compare .greaterOrEqual)
  | "+" => some (.operate .add)
  | "-" => some (.operate .subtract)
  | "*" => some (.operate .multiply)
  | "/" => some (.operate .divide)
  | "%" => some (.operate .remainder)
  | _ => none

end Infix

namespace Grammar

variable {α : Type}

def stuck : Grammar α := fun _ => none

def next : Grammar Token := fun tokens =>
  match tokens with
  | [] => none
  | token :: rest => some (token, rest)

def peek : Grammar (Option Token) := fun tokens =>
  some (tokens.head?, tokens)

/-- The symbol comes next, and is taken. -/
def symbol? (text : String) : Grammar Bool := do
  match ← peek with
  | some (.symbol other) => if other == text then do let _ ← next; return true else return false
  | _ => return false

/-- The word comes next, and is taken. -/
def word? (name : String) : Grammar Bool := do
  match ← peek with
  | some (.word other) => if other == name then do let _ ← next; return true else return false
  | _ => return false

/-- The symbol has to come next. -/
def symbol (text : String) : Grammar Unit := do
  unless ← symbol? text do stuck

/-- The word has to come next. -/
def word (name : String) : Grammar Unit := do
  unless ← word? name do stuck

/-- Reads all of the tokens. -/
def whole (tokens : List Token) (grammar : Grammar α) : Grammar α := fun rest =>
  match grammar tokens with
  | some (a, []) => some (a, rest)
  | _ => none

/-- One or more, with the symbol between them; `bound` is more than their number. -/
def separated (text : String) (grammar : Grammar α) : (bound : Nat) → Grammar (List α)
  | 0 => stuck
  | bound + 1 => do
    let first ← grammar
    if ← symbol? text then
      return first :: (← separated text grammar bound)
    else
      return [first]

/-- Any number up to the end, each but the last one with the symbol after it; `bound` is more than their
number. -/
def terminated (text : String) (grammar : Grammar α) : (bound : Nat) → Grammar (List α)
  | 0 => stuck
  | bound + 1 => do
    if (← peek).isNone then
      return []
    else
      let first ← grammar
      if ← symbol? text then
        return first :: (← terminated text grammar bound)
      else
        return [first]

def name : Grammar String := do
  match ← next with
  | .word name => return name
  | .format name => return name
  | _ => stuck

def variableName : Grammar String := do
  match ← next with
  | .variable name => return name
  | _ => stuck

/-- The question marks that follow: there is one at least. Their number is less than `bound`. -/
def marked : (bound : Nat) → Grammar Bool
  | 0 => return false
  | bound + 1 => do
    if ← symbol? "?" then
      let _ ← marked bound
      return true
    else
      return false

def parameter : Grammar Parameter := do
  match ← next with
  | .word name => return .filter name
  | .variable name => return .variable name
  | _ => stuck

def parameters : Grammar (List Parameter) := do
  match ← peek with
  | some (.block .round inner) =>
    let _ ← next
    whole inner (separated ";" parameter (inner.length + 1))
  | _ => return []

/-- The value of a number: whole if it has digits only and fits. -/
def numeral (text : String) : Value :=
  let n := Decimal.digitsValue text.toList
  if text.all Char.isDigit && Value.fits n then .int n else .numeral text

mutual

/-- A filter; `comma` says whether commas belong to it. -/
def term (comma : Bool) : (bound : Nat) → Grammar Filter
  | 0 => stuck
  | bound + 1 => do
    let head ← atom bound
    let tail ← operands comma bound
    return Infix.joinAll head tail

/-- The operators that follow an atom, each with its right side. -/
def operands (comma : Bool) : (bound : Nat) → Grammar (List (Infix × Filter))
  | 0 => stuck
  | bound + 1 => do
    match ← infix? comma bound with
    | none => return []
    | some op =>
      let right ← atom bound
      return (op, right) :: (← operands comma bound)

/-- An operator, if one comes next. -/
def infix? (comma : Bool) : (bound : Nat) → Grammar (Option Infix)
  | 0 => stuck
  | bound + 1 => do
    if ← word? "and" then
      return some (.connect .both)
    else if ← word? "or" then
      return some (.connect .either)
    else if ← word? "as" then
      let pattern ← pattern bound
      symbol "|"
      return some (.bind pattern)
    else
      match ← peek with
      | some (.symbol text) =>
        match Infix.ofSymbol? comma text with
        | some op =>
          let _ ← next
          return some op
        | none => return none
      | _ => return none

def pattern : (bound : Nat) → Grammar Pattern
  | 0 => stuck
  | bound + 1 => do
    match ← next with
    | .variable name => return .variable name
    | .block .square inner =>
      .array <$> whole inner (separated "," (pattern bound) (inner.length + 1))
    | .block .curly inner =>
      .object <$> whole inner (terminated "," (patternEntry bound) (inner.length + 1))
    | _ => stuck

/-- A key and what is under it. -/
def patternEntry : (bound : Nat) → Grammar (Filter × Pattern)
  | 0 => stuck
  | bound + 1 => do
    let key ← match ← next with
      | .variable name => return (string (String.ofList (name.toList.drop 1)), .variable name)
      | .word name => pure (string name)
      | .string pieces => text .shown pieces bound
      | .block .round inner => whole inner (term true bound)
      | _ => stuck
    symbol ":"
    return (key, ← pattern bound)

/-- The filters of a string's pieces, added up. The outputs of filters are put into their format. -/
def text (format : Filter) (pieces : List (String ⊕ List Token)) : (bound : Nat) → Grammar Filter
  | 0 => stuck
  | bound + 1 => do
    match pieces with
    | [] => return string ""
    | [.inl s] => return string s
    | .inl "" :: rest => text format rest bound
    | .inl s :: rest => return .operate .add (string s) (← text format rest bound)
    | .inr inner :: rest =>
      let piece := Filter.pipe (← whole inner (term true bound)) format
      return .operate .add piece (← text format rest bound)

/-- A filter without operators of its own. -/
def atom : (bound : Nat) → Grammar Filter
  | 0 => stuck
  | bound + 1 => do
    let bare ← bareAtom bound
    let bare := if ← marked bound then .recover bare .nothing else bare
    match ← steps bound with
    | [] => return bare
    | steps => return .path bare steps

/-- An atom without what may follow it. -/
def bareAtom : (bound : Nat) → Grammar Filter
  | 0 => stuck
  | bound + 1 => do
    match ← next with
    | .symbol "-" => .negate <$> atom bound
    | .symbol ".." => return .within
    | .symbol "." =>
      match ← peek with
      | some (.string pieces) =>
        let _ ← next
        let key ← text .shown pieces bound
        keyed key bound
      | _ => return .here
    | .field name => keyed (string name) bound
    | .variable name => return .variable name
    | .format name =>
      match ← peek with
      | some (.string pieces) =>
        let _ ← next
        text (.call name []) pieces bound
      | _ => return .call name []
    | .numeral text => return .constant (numeral text)
    | .string pieces => text .shown pieces bound
    | .block .round inner => whole inner (term true bound)
    | .block .square [] => return .constant (.array [])
    | .block .square inner => .collect <$> whole inner (term true bound)
    | .block .curly inner =>
      sum (.constant (.object [])) <$>
        whole inner (terminated "," (objectEntry bound) (inner.length + 1))
    | .word "def" =>
      let name ← name
      let parameters ← parameters
      symbol ":"
      let body ← term true bound
      symbol ";"
      return .define name parameters body (← term true bound)
    | .word "if" => branches bound
    | .word "try" =>
      let filter ← atom bound
      if ← word? "catch" then
        return .recover filter (← atom bound)
      else
        return .recover filter .nothing
    | .word "reduce" => loop .reduce bound
    | .word "foreach" => loop .foreach bound
    | .word "label" =>
      let name ← variableName
      symbol "|"
      return .label name (← term true bound)
    | .word "break" => .leave <$> variableName
    | .word name => return .call name (← arguments bound)
    | _ => stuck

/-- What follows the word that begins a loop. -/
def loop (loop : Loop) : (bound : Nat) → Grammar Filter
  | 0 => stuck
  | bound + 1 => do
    let values ← atom bound
    word "as"
    let pattern ← pattern bound
    return .loop loop values pattern (← arguments bound)

/-- The part under a key, and the steps from there. -/
def keyed (key : Filter) : (bound : Nat) → Grammar Filter
  | 0 => stuck
  | bound + 1 => do
    let mark ← marked bound
    return .path .here ((.index key, mark) :: (← steps bound))

def arguments : (bound : Nat) → Grammar (List Filter)
  | 0 => stuck
  | bound + 1 => do
    match ← peek with
    | some (.block .round inner) =>
      let _ ← next
      whole inner (separated ";" (term true bound) (inner.length + 1))
    | _ => return []

/-- An entry of an object. Without a value it takes the part or the variable of the same name. -/
def objectEntry : (bound : Nat) → Grammar Filter
  | 0 => stuck
  | bound + 1 => do
    let (key, without) ← match ← next with
      | .variable name =>
        let same := Filter.entry (string (String.ofList (name.toList.drop 1))) (.variable name)
        pure (Filter.variable name, some same)
      | .word name => pure (string name, some (.pick (string name)))
      | .string pieces =>
        let key ← text .shown pieces bound
        pure (key, some (.pick key))
      | .block .round inner => pure (← whole inner (term true bound), none)
      | _ => stuck
    if ← symbol? ":" then
      return .entry key (← term false bound)
    else
      match without with
      | some filter => return filter
      | none => stuck

/-- What follows the word that begins a condition. -/
def branches : (bound : Nat) → Grammar Filter
  | 0 => stuck
  | bound + 1 => do
    let condition ← term true bound
    word "then"
    let yes ← term true bound
    if ← word? "elif" then
      return .choose condition yes (← branches bound)
    else if ← word? "else" then
      let no ← term true bound
      word "end"
      return .choose condition yes no
    else
      word "end"
      return .choose condition yes .here

/-- The steps of a path, each with its mark. -/
def steps : (bound : Nat) → Grammar (List (Step × Bool))
  | 0 => stuck
  | bound + 1 => do
    match ← step? bound with
    | none => return []
    | some step =>
      let mark ← marked bound
      return (step, mark) :: (← steps bound)

/-- A step, if one comes next. -/
def step? : (bound : Nat) → Grammar (Option Step)
  | 0 => stuck
  | bound + 1 => fun tokens =>
    match tokens with
    | .field name :: rest => some (some (.index (string name)), rest)
    | .symbol "." :: .string pieces :: rest =>
      ((fun key => some (.index key)) <$> text .shown pieces bound) rest
    | .symbol "." :: .block .square inner :: rest =>
      (some <$> whole inner (bracketed bound)) rest
    | .block .square inner :: rest => (some <$> whole inner (bracketed bound)) rest
    | _ => some (none, tokens)

def bracketed : (bound : Nat) → Grammar Step
  | 0 => stuck
  | bound + 1 => do
    if (← peek).isNone then
      return .each
    else if ← symbol? ":" then
      return .slice none (some (← term true bound))
    else
      let first ← term true bound
      if ← symbol? ":" then
        if (← peek).isNone then
          return .slice (some first) none
        else
          return .slice (some first) (some (← term true bound))
      else
        return .index first

end

end Grammar

/-- A text may begin with what it takes from elsewhere; there is nowhere to take it from. -/
def borrows : List Token → Bool
  | .word name :: _ => name == "import" || name == "include" || name == "module"
  | _ => false

/-- The filter that a text says, if it says one. -/
def read? (text : String) : Option Filter := do
  let tokens ← Token.read? text
  if borrows tokens then none
  let (filter, _) ← Grammar.whole tokens (Grammar.term true (8 * (text.length + 1))) []
  return filter

end SampleTypes.Filter
