import SampleTypes.Text.Blank

/-!
# Tokens of filters

The text of a filter as a sequence of tokens. Brackets enclose the tokens between them, and a string
holds the tokens of the filters inside it.
-/

namespace SampleTypes.Filter

/-- The three kinds of brackets. -/
inductive Bracket where
  | round
  | square
  | curly
deriving DecidableEq, Repr

inductive Token where
  | word (name : String)
  /-- A variable, with its mark. -/
  | variable (name : String)
  /-- A format, with its mark. -/
  | format (name : String)
  | numeral (text : String)
  | symbol (text : String)
  /-- A name that follows a point. -/
  | field (name : String)
  | string (pieces : List (String ⊕ List Token))
  | block (bracket : Bracket) (inner : List Token)

namespace Token

def opening? : Char → Option Bracket
  | '(' => some .round
  | '[' => some .square
  | '\x7b' => some .curly
  | _ => none

def closer : Bracket → Char
  | .round => ')'
  | .square => ']'
  | .curly => '\x7d'

/-- A name begins with a letter or an underscore. -/
def startsName (c : Char) : Bool :=
  c.isAlpha || c == '_'

/-- A name goes on with letters, digits and underscores. -/
def continuesName (c : Char) : Bool :=
  c.isAlphanum || c == '_'

/-- Characters that begin a symbol of any length. -/
def startsSymbol (c : Char) : Bool :=
  ['|', '=', '!', '<', '>', '+', '-', '*', '/', '%'].contains c

/-- Characters that a symbol goes on with. A minus begins a symbol of its own, because it may be the sign
of what follows. -/
def continuesSymbol (c : Char) : Bool :=
  startsSymbol c && c != '-'

/-- Passes white space and comments. A line of a comment that ends in an odd number of backslashes
continues on the next one. -/
def passBlanks : (comment odd : Bool) → List Char → List Char
  | _, _, [] => []
  | false, _, c :: cs =>
    if c == '#' then passBlanks true false cs
    else if Text.isSpace c then passBlanks false false cs
    else c :: cs
  | true, odd, c :: cs =>
    if c == '\n' then passBlanks odd false cs
    else if c == '\\' then passBlanks true (!odd) cs
    else if c == '\x0d' && cs.head? == some '\n' then passBlanks true odd cs
    else passBlanks true false cs

/-- The characters as long as they satisfy the condition, and the rest. -/
def span (condition : Char → Bool) (cs : List Char) : String × List Char :=
  (String.ofList (cs.takeWhile condition), cs.dropWhile condition)

/-- The rest of a number's digits, if there is one. -/
def digits? (cs : List Char) : Option (String × List Char) :=
  if cs.head?.any Char.isDigit then some (span Char.isDigit cs) else none

def fraction? (cs : List Char) : Option (String × List Char) :=
  match cs with
  | '.' :: rest => (digits? rest).map fun (digits, rest) => ("." ++ digits, rest)
  | rest => some ("", rest)

def power? (cs : List Char) : Option (String × List Char) :=
  let signed (mark : Char) (rest : List Char) : Option (String × List Char) :=
    match rest with
    | '+' :: rest => (digits? rest).map fun (ds, rest) => (mark.toString ++ "+" ++ ds, rest)
    | '-' :: rest => (digits? rest).map fun (ds, rest) => (mark.toString ++ "-" ++ ds, rest)
    | rest => (digits? rest).map fun (ds, rest) => (mark.toString ++ ds, rest)
  match cs with
  | 'e' :: rest => signed 'e' rest
  | 'E' :: rest => signed 'E' rest
  | rest => some ("", rest)

def numeral? (cs : List Char) : Option (String × List Char) := do
  let (whole, rest) := span Char.isDigit cs
  let (fraction, rest) ← fraction? rest
  let (power, rest) ← power? rest
  return (whole ++ fraction ++ power, rest)

def hexValue? (c : Char) : Option Nat :=
  if c.isDigit then some (c.toNat - '0'.toNat)
  else if 'a' ≤ c && c ≤ 'f' then some (c.toNat - 'a'.toNat + 10)
  else if 'A' ≤ c && c ≤ 'F' then some (c.toNat - 'A'.toNat + 10)
  else none

/-- The character of an escape, without its backslash. -/
def escape? : List Char → Option (Char × List Char)
  | 'u' :: a :: b :: c :: d :: rest => do
    let n := (((← hexValue? a) * 16 + (← hexValue? b)) * 16 + (← hexValue? c)) * 16 + (← hexValue? d)
    if n.isValidChar then some (Char.ofNat n, rest) else none
  | 'b' :: rest => some ('\x08', rest)
  | 'f' :: rest => some ('\x0c', rest)
  | 'n' :: rest => some ('\n', rest)
  | 'r' :: rest => some ('\x0d', rest)
  | 't' :: rest => some ('\t', rest)
  | c :: rest => if c == '\\' || c == '/' || c == '"' then some (c, rest) else none
  | [] => none

def name? (cs : List Char) : Option (String × List Char) :=
  if cs.head?.any startsName then some (span continuesName cs) else none

mutual

/-- Tokens up to the closing character, or up to the end if there is none to wait for. -/
def tokensUntil : (bound : Nat) → (closer : Option Char) → List Char →
    Option (List Token × List Char)
  | 0, _, _ => none
  | bound + 1, closer, cs =>
    match passBlanks false false cs with
    | [] => if closer.isNone then some ([], []) else none
    | c :: rest =>
      if closer == some c then
        some ([], rest)
      else do
        let (token, rest) ← token? bound c rest
        let (tokens, rest) ← tokensUntil bound closer rest
        return (token :: tokens, rest)

def token? : (bound : Nat) → Char → List Char → Option (Token × List Char)
  | 0, _, _ => none
  | bound + 1, c, rest =>
    if startsName c then
      let (name, rest) := span continuesName (c :: rest)
      some (.word name, rest)
    else if c == '$' then
      (name? rest).map fun (name, rest) => (.variable ("$" ++ name), rest)
    else if c == '@' then
      (name? rest).map fun (name, rest) => (.format ("@" ++ name), rest)
    else if c.isDigit then
      (numeral? (c :: rest)).map fun (text, rest) => (.numeral text, rest)
    else if startsSymbol c then
      let (text, rest) := span continuesSymbol rest
      some (.symbol (c.toString ++ text), rest)
    else if c == '.' then
      match rest with
      | '.' :: rest => some (.symbol "..", rest)
      | rest =>
        match name? rest with
        | some (name, rest) => some (.field name, rest)
        | none => some (.symbol ".", rest)
    else if c == ':' || c == ';' || c == ',' || c == '?' then
      some (.symbol c.toString, rest)
    else if c == '"' then do
      let (pieces, rest) ← pieces? bound [] rest
      return (.string pieces, rest)
    else do
      let bracket ← opening? c
      let (inner, rest) ← tokensUntil bound (some (closer bracket)) rest
      return (.block bracket inner, rest)

/-- The pieces of a string up to its closing quote; characters read so far stand back to front. -/
def pieces? : (bound : Nat) → (reversed : List Char) → List Char →
    Option (List (String ⊕ List Token) × List Char)
  | 0, _, _ => none
  | _, _, [] => none
  | bound + 1, reversed, c :: rest =>
    let piece (_ : Unit) := Sum.inl (String.ofList reversed.reverse)
    if c == '"' then
      some ([piece ()], rest)
    else if c == '\\' then
      match rest with
      | '(' :: rest => do
        let (inner, rest) ← tokensUntil bound (some ')') rest
        let (pieces, rest) ← pieces? bound [] rest
        return (piece () :: .inr inner :: pieces, rest)
      | rest => do
        let (c, rest) ← escape? rest
        pieces? bound (c :: reversed) rest
    else
      pieces? bound (c :: reversed) rest

end

def read? (text : String) : Option (List Token) :=
  (tokensUntil (2 * text.length + 2) none text.toList).map (·.1)

end Token

end SampleTypes.Filter
