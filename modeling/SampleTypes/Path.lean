/-!
# Paths

A path is a text in which slashes part the names. It leads on from the root if it begins with a slash,
else from the working directory. Empty names and single points between slashes lead nowhere.
-/

namespace SampleTypes.Path

def isAbsolute (path : String) : Bool :=
  path.toList.head? == some '/'

/-- The path with another one behind it. An absolute one takes its place. -/
def join (path other : String) : String :=
  if isAbsolute other || path.isEmpty then other
  else if path.toList.getLast? == some '/' then path ++ other
  else path ++ "/" ++ other

def split : List Char → List (List Char)
  | [] => [[]]
  | c :: cs =>
    if c == '/' then
      [] :: split cs
    else
      match split cs with
      | [] => [[c]]
      | name :: names => (c :: name) :: names

/-- The names between the slashes of a path, the empty ones among them. -/
def names (path : String) : List String :=
  (split path.toList).map String.ofList

/-- Parts a path into where it starts from, if it says so, and the rest. -/
def start : List Char → List Char × List Char
  | '/' :: rest => (['/'], rest)
  | ['.'] => (['.'], [])
  | '.' :: '/' :: rest => (['.'], '/' :: rest)
  | path => ([], path)

/-- Drops the slashes and single points at the end of a path that is held back to front. -/
def dropIdle : List Char → List Char
  | '/' :: rest => dropIdle rest
  | ['.'] => []
  | '.' :: '/' :: rest => dropIdle rest
  | reversed => reversed

/-- The path without its last name; the root and the empty path have none. -/
def parent? (path : String) : Option String :=
  let (origin, rest) := start path.toList
  match dropIdle rest.reverse with
  | [] => if origin == ['.'] then some "" else none
  | c :: cs =>
    let above := dropIdle ((c :: cs).dropWhile (· != '/'))
    some (String.ofList (origin ++ above.reverse))

def isHere (path : String) : Bool :=
  let (origin, rest) := start path.toList
  origin == ['.'] && (dropIdle rest.reverse).isEmpty

end SampleTypes.Path
