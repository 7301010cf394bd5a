import SampleTypes.Path

/-!
# Files

A tree of files and directories, seen from a working directory. A location is the list of names that
lead from the root to a node. A path is followed name by name: every node on the way has to be there and
to be a directory, and two points lead back up.

Changes are `Change`s of the tree. One that fails keeps what it did before it failed.
-/

namespace SampleTypes

/-- Why a file or directory cannot be used as it is meant. -/
inductive FileFault where
  | missing
  | alreadyThere
  | notDirectory
  | isDirectory
  | nameTooLong
  | nulInName
  | notText
deriving DecidableEq, Repr

def FileFault.message : FileFault → String
  | .missing => "No such file or directory (os error 2)"
  | .alreadyThere => "File exists (os error 17)"
  | .notDirectory => "Not a directory (os error 20)"
  | .isDirectory => "Is a directory (os error 21)"
  | .nameTooLong => "File name too long (os error 36)"
  | .nulInName => "file name contained an unexpected NUL byte"
  | .notText => "stream did not contain valid UTF-8"

/-- A file with its bytes, or a directory. -/
inductive Node where
  | file (bytes : List UInt8)
  | directory
deriving DecidableEq, Repr

/-- The names that lead from the root to a node. -/
abbrev Location := List String

/-- A tree of files and directories and the working directory. -/
structure Files where
  here : Location
  nodes : List (Location × Node)

/-- A change of a tree. -/
abbrev Change := EStateM FileFault Files

namespace Files

/-- The tree that has only the working directory and those above it. -/
def empty (here : Location) : Files :=
  ⟨here, (List.range here.length).map fun above => (here.take (above + 1), .directory)⟩

/-- The node at a location. The root is always there. -/
def node? (files : Files) (location : Location) : Option Node :=
  if location.isEmpty then some .directory
  else (files.nodes.find? (·.1 == location)).map (·.2)

/-- Puts a node at a location, in the place of one that is there. -/
def put (location : Location) (node : Node) (files : Files) : Files :=
  if files.nodes.any (·.1 == location) then
    { files with
      nodes := files.nodes.map fun entry => if entry.1 == location then (location, node) else entry }
  else
    { files with nodes := files.nodes ++ [(location, node)] }

def children (files : Files) (location : Location) : List String :=
  (files.nodes.filterMap fun (place, _) =>
    if place.dropLast == location then place.getLast? else none).mergeSort
      fun a b => decide (a ≤ b)

/-! ## Following a path -/

/-- Where a path leads. -/
inductive Target where
  | found (location : Location) (node : Node)
  /-- Only the last name is missing. -/
  | vacant (location : Location)

def nameLimit : Nat := 255

def pathLimit : Nat := 4095

def follow (files : Files) : Location → Node → List String → Except FileFault Target
  | location, node, [] => .ok (.found location node)
  | _, .file _, _ :: _ => .error .notDirectory
  | location, .directory, name :: names =>
    if name.isEmpty || name == "." then
      follow files location .directory names
    else if name == ".." then
      follow files location.dropLast .directory names
    else if name.utf8ByteSize > nameLimit then
      .error .nameTooLong
    else
      match files.node? (location ++ [name]) with
      | some node => follow files (location ++ [name]) node names
      | none =>
        -- Nothing but slashes may follow a name that is missing.
        if names.all (·.isEmpty) then .ok (.vacant (location ++ [name])) else .error .missing

/-- Follows the names of a path that may be used. -/
def followPath (files : Files) (path : String) (names : List String) : Except FileFault Target :=
  if path.isEmpty then .error .missing
  else if path.contains '\x00' then .error .nulInName
  else if path.utf8ByteSize > pathLimit then .error .nameTooLong
  else follow files (if Path.isAbsolute path then [] else files.here) .directory names

/-- Where a path leads. -/
def locate (files : Files) (path : String) : Except FileFault Target :=
  files.followPath path (Path.names path)

def holds (files : Files) (path : String) : Bool :=
  match files.locate path with
  | .ok (.found _ _) => true
  | _ => false

def hasDirectory (files : Files) (path : String) : Bool :=
  match files.locate path with
  | .ok (.found _ .directory) => true
  | _ => false

/-- The names in a directory; none if there is no such directory. -/
def list (files : Files) (path : String) : List String :=
  match files.locate path with
  | .ok (.found location .directory) => files.children location
  | _ => []

/-! ## Reading -/

def read (files : Files) (path : String) : Except FileFault (List UInt8) :=
  match files.locate path with
  | .ok (.found _ (.file bytes)) => .ok bytes
  | .ok (.found _ .directory) => .error .isDirectory
  | .ok (.vacant _) => .error .missing
  | .error fault => .error fault

def readText (files : Files) (path : String) : Except FileFault String := do
  let bytes ← files.read path
  match String.fromUTF8? (ByteArray.mk bytes.toArray) with
  | some text => .ok text
  | none => .error .notText

/-! ## Writing -/

/-- The names of a path up to, and without, the last one that is not empty. -/
def namesAbove (path : String) : List String :=
  ((Path.names path).reverse.dropWhile (·.isEmpty)).tail.reverse

/-- Where a file can be written. A path that ends in a slash names a directory. -/
def writable (files : Files) (path : String) : Except FileFault Location :=
  if path.toList.getLast? == some '/' then
    match files.followPath path (namesAbove path) with
    | .ok (.found _ .directory) => .error .isDirectory
    | .ok (.found _ (.file _)) => .error .notDirectory
    | .ok (.vacant _) => .error .missing
    | .error fault => .error fault
  else
    match files.locate path with
    | .ok (.found location (.file _)) => .ok location
    | .ok (.found _ .directory) => .error .isDirectory
    | .ok (.vacant location) => .ok location
    | .error fault => .error fault

def write (path : String) (bytes : List UInt8) : Change Unit := fun files =>
  match files.writable path with
  | .ok location => .ok () (files.put location (.file bytes))
  | .error fault => .error fault files

def makeDirectory (path : String) : Change Unit := fun files =>
  match files.locate path with
  | .ok (.vacant location) => .ok () (files.put location .directory)
  | .ok (.found _ _) => .error .alreadyThere files
  | .error fault => .error fault files

/-- Makes a directory unless it is there. -/
def ensureDirectory (path : String) : Change Unit := fun files =>
  match makeDirectory path files with
  | .ok _ changed => .ok () changed
  | .error fault same => if same.hasDirectory path then .ok () same else .error fault same

/-- Makes a directory and those above it, unless they are there. The path has at most `bound` names. -/
def ensureWithin : (bound : Nat) → String → Change Unit
  | 0, path => ensureDirectory path
  | bound + 1, path => fun files =>
    if path.isEmpty then
      .ok () files
    else
      match ensureDirectory path files with
      | .error .missing same =>
        -- What lies above it is made first.
        match Path.parent? path with
        | some above =>
          match ensureWithin bound above same with
          | .ok _ changed => ensureDirectory path changed
          | .error fault changed => .error fault changed
        | none => .error .missing same
      | result => result

/-- Makes a directory and those above it, unless they are there. -/
def ensureDirectories (path : String) : Change Unit :=
  ensureWithin path.length path

/-! ## Comparing -/

/-- What is new or different since an earlier state, with the names that lead there from the working
directory. -/
def changesSince (files earlier : Files) : List (List String × Node) :=
  files.nodes.filterMap fun (location, node) =>
    if files.here.isPrefixOf location && earlier.node? location != some node then
      some (location.drop files.here.length, node)
    else
      none

end Files

end SampleTypes
