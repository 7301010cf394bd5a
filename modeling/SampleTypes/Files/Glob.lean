import SampleTypes.Files

/-!
# Patterns

A pattern stands for the paths that it matches, name by name: `?` for any character, `*` for any run of
characters, brackets for one character out of a set or, after an exclamation mark, not out of it, and
two asterisks as a name of their own for any number of directories. Names are tried in order.
-/

namespace SampleTypes

/-- A set of characters: ranges, of which a single character is one. -/
abbrev CharSet := List (Char × Char)

namespace Glob

inductive Token where
  | exactly (c : Char)
  | any
  | run
  | within (set : CharSet)
  | outside (set : CharSet)
  /-- Any number of directories. -/
  | descend
deriving DecidableEq, Repr

inductive Flaw where
  | range
  | wildcards
  | notAlone
deriving DecidableEq, Repr

/-- A flaw and the number of the character where it is noticed. -/
structure PatternFault where
  position : Nat
  flaw : Flaw
deriving DecidableEq, Repr

def PatternFault.message (fault : PatternFault) : String :=
  "Pattern syntax error near position " ++ toString fault.position ++ ": " ++
    match fault.flaw with
    | .range => "invalid range pattern"
    | .wildcards => "wildcards are either regular `*` or recursive `**`"
    | .notAlone => "recursive wildcards must form a single path component"

/-! ## Reading a pattern -/

/-- The set that the characters between brackets describe. -/
def charSet : List Char → CharSet
  | low :: '-' :: high :: rest => (low, high) :: charSet rest
  | c :: rest => (c, c) :: charSet rest
  | [] => []

/-- The set after an opening bracket and what follows its closing bracket. A bracket that comes first
belongs to the set. -/
def bracketed (rest : List Char) : Option (Token × List Char) :=
  let (token, body) : (CharSet → Token) × List Char := match rest with
    | '!' :: body => (.outside, body)
    | body => (.within, body)
  match body with
  | [] => none
  | first :: more =>
    if more.contains ']' then
      some (token (charSet (first :: more.takeWhile (· != ']'))), (more.dropWhile (· != ']')).tail)
    else
      none

/-- What two asterisks and the slash behind them leave, if they are a name of their own. `before` is the
character in front of them. -/
def alone (position : Nat) (before : Option Char) (rest : List Char) :
    Except PatternFault (List Char) :=
  if before.all (· == '/') then
    match rest with
    | [] => .ok []
    | '/' :: rest => .ok rest
    | _ => .error ⟨position + 2, .notAlone⟩
  else
    .error ⟨position - 1, .notAlone⟩

/-- Reads the tokens of a pattern from a position on; every step takes a character. -/
def tokensFrom : (bound position : Nat) → (before : Option Char) → List Char →
    Except PatternFault (List Token)
  | 0, _, _, _ => .ok []
  | _ + 1, _, _, [] => .ok []
  | bound + 1, position, before, c :: rest =>
    match c with
    | '?' => (.any :: ·) <$> tokensFrom bound (position + 1) (some c) rest
    | '*' =>
      let stars := (rest.takeWhile (· == '*')).length + 1
      if stars == 1 then
        (.run :: ·) <$> tokensFrom bound (position + 1) (some c) rest
      else if stars == 2 then do
        -- Both asterisks stand between slashes, and the slash behind them belongs to them.
        let left ← alone position before rest.tail
        let taken := rest.length + 1 - left.length
        (.descend :: ·) <$>
          tokensFrom bound (position + taken) (if taken == 3 then some '/' else some c) left
      else
        .error ⟨position + 2, .wildcards⟩
    | '[' =>
      match bracketed rest with
      | some (token, left) =>
        (token :: ·) <$>
          tokensFrom bound (position + (rest.length + 1 - left.length)) (some ']') left
      | none => .error ⟨position, .range⟩
    | c => (.exactly c :: ·) <$> tokensFrom bound (position + 1) (some c) rest

def tokens (pattern : List Char) : Except PatternFault (List Token) :=
  tokensFrom pattern.length 0 none pattern

/-- A pattern for one name. -/
inductive Part where
  | literal (name : String)
  | wild (tokens : List Token)
  | descend
deriving DecidableEq, Repr

/-- The characters of tokens that stand for themselves. -/
def literal? : List Token → Option (List Char)
  | [] => some []
  | .exactly c :: rest => (literal? rest).map (c :: ·)
  | _ => none

def Part.ofTokens (tokens : List Token) : Part :=
  match literal? tokens with
  | some name => .literal (String.ofList name)
  | none => if tokens == [.descend] then .descend else .wild tokens

/-- The parts of a pattern, without an empty one at its end. Two `descend` in a row are one. -/
def parts (names : List (List Char)) : Except PatternFault (List Part) := do
  let names := if names.getLast? == some [] then names.dropLast else names
  return collapse (← names.mapM fun name => Part.ofTokens <$> tokens name)
where
  /-- One `descend` in place of several in a row. -/
  collapse : List Part → List Part
    | .descend :: .descend :: rest => collapse (.descend :: rest)
    | part :: rest => part :: collapse rest
    | [] => []

/-! ## Matching -/

def memSet (set : CharSet) (c : Char) : Bool :=
  set.any fun (low, high) => low ≤ c && c ≤ high

def anySuffix (condition : List Char → Bool) : List Char → Bool
  | [] => condition []
  | c :: cs => condition (c :: cs) || anySuffix condition cs

def matchesName : List Token → List Char → Bool
  | [], cs => cs.isEmpty
  | .run :: rest, cs => anySuffix (matchesName rest) cs
  | .descend :: rest, cs => anySuffix (matchesName rest) cs
  | _ :: _, [] => false
  | .exactly c :: rest, d :: cs => c == d && matchesName rest cs
  | .any :: rest, _ :: cs => matchesName rest cs
  | .within set :: rest, d :: cs => memSet set d && matchesName rest cs
  | .outside set :: rest, d :: cs => !memSet set d && matchesName rest cs

def Part.matchesName : Part → String → Bool
  | .literal name, other => name == other
  | .wild tokens, name => Glob.matchesName tokens name.toList
  | .descend, _ => true

/-! ## Expanding -/

/-- The path of a name in a directory. Paths from the working directory leave it out. -/
def child (path name : String) : String :=
  if Path.isHere path then name else Path.join path name

/-- The paths of what a directory holds, each with its name. -/
def childrenOf (files : Files) (path : String) : List (String × String) :=
  (files.list path).map fun name => (child path name, name)

/-- The paths below a directory, each one before those inside it, with their last names. -/
def below (files : Files) : (bound : Nat) → String → List (String × String)
  | 0, _ => []
  | bound + 1, path =>
    (childrenOf files path).flatMap fun (path, name) => (path, name) :: below files bound path

/-- Two points and one, as far as a wild part that begins with a point matches them. -/
def specials (tokens : List Token) (path : String) : List String :=
  if tokens.head? == some (.exactly '.') then
    ([".."] ++ ["."]).filter (fun name => matchesName tokens name.toList) |>.map (Path.join path)
  else
    []

/-- The path is a result, if it is a directory where one is asked for. -/
def result (files : Files) (onlyDirectories : Bool) (path : String) : List String :=
  if onlyDirectories && !files.hasDirectory path then [] else [path]

/-- The paths that the parts match from a path on. -/
def expandFrom (files : Files) (onlyDirectories : Bool) : List Part → String → List String
  | [], path => result files onlyDirectories path
  | .literal name :: rest, path =>
    let next := child path name
    -- No directory lists these two names, and every directory has them.
    if name == "." || name == ".." then
      if files.hasDirectory path then expandFrom files onlyDirectories rest next else []
    else
      if files.holds next then expandFrom files onlyDirectories rest next else []
  | .wild tokens :: rest, path =>
    if files.hasDirectory path then
      (specials tokens path).flatMap (expandFrom files onlyDirectories rest) ++
        (childrenOf files path).flatMap fun (path, name) =>
          if matchesName tokens name.toList then expandFrom files onlyDirectories rest path else []
    else
      []
  | [.descend], path =>
    ((below files files.nodes.length path).map (·.1)).filter files.hasDirectory
  | .descend :: part :: rest, path =>
    (below files files.nodes.length path).flatMap fun (path, name) =>
      if part.matchesName name then expandFrom files onlyDirectories rest path else []

/-- The paths that a pattern matches, in order. -/
def expand (files : Files) (pattern : String) : Except PatternFault (List String) := do
  let _ ← tokens pattern.toList
  let absolute := Path.isAbsolute pattern
  let body := if absolute then pattern.toList.drop 1 else pattern.toList
  let parts ← parts (Path.split body)
  return expandFrom files (pattern.toList.getLast? == some '/') parts (if absolute then "/" else ".")

/-- The text is a pattern and no path: it has a character that patterns use. -/
def isPattern (text : String) : Bool :=
  -- A brace means nothing in a pattern, and yet it makes one.
  text.any fun c => c == '*' || c == '?' || c == '[' || c == '{'

end Glob

end SampleTypes
