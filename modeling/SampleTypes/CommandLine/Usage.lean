import SampleTypes.CommandLine.Request

/-!
# Arguments

How a request is read from arguments. A switch stands alone, a setting takes a value: the rest of its
own argument, or the next one. Only inputs take more than one value, up to the next argument that begins
with a dash, and only they may be given again.

A setting that waits for its value is settled by the next switch or setting, and by the end. So of two
faults the one that is noticed first counts.
-/

namespace SampleTypes.CommandLine

/-- Why arguments make up no request. -/
inductive UsageFault where
  | helpRequested
  /-- There is nothing to do, and help is shown instead. -/
  | nothingAsked
  | missingCommand
  | unknownCommand
  | unknownArgument
  | conflict
  | badValue
  | tooManyValues
  | missingInput
deriving DecidableEq, Repr

/-- An argument without a value. -/
inductive Switch where
  | help
  | verbose
  | lineByLine
  | forceOptional
  | typeAlias
  | terminators
  | preserve
  | standardOutput
deriving DecidableEq, Repr

/-- An argument with a value. -/
inductive Setting where
  | pointer
  | filter
  | input
  | optionsFile
  | label (kind : TypeKind)
  | rootName
  | out
deriving DecidableEq, Repr

namespace Setting

/-- The setting takes any number of values and may be given again. -/
def repeats (setting : Setting) : Bool :=
  setting == .input

/-- The value is a path that cannot be empty. -/
def isPath (setting : Setting) : Bool :=
  setting == .optionsFile || setting == .out

end Setting

inductive Argument where
  | switch (switch : Switch)
  | setting (setting : Setting)
deriving DecidableEq, Repr

/-- The arguments that are known in a place: by word, by letter, and the commands. -/
structure Vocabulary where
  words : List (String × Argument)
  letters : List (Char × Argument)
  commands : List String

namespace Vocabulary

def front : Vocabulary where
  words := [("verbose", .switch .verbose), ("help", .switch .help)]
  letters := [('v', .switch .verbose), ('h', .switch .help)]
  commands := ["shape", "types", "help"]

def behind : Vocabulary where
  words := front.words ++ [
    ("ndjson", .switch .lineByLine), ("json-pointer", .setting .pointer),
    ("jq-expr", .setting .filter), ("input", .setting .input), ("options", .setting .optionsFile),
    ("force-optional", .switch .forceOptional), ("string-type", .setting (.label .string)),
    ("number-type", .setting (.label .number)), ("boolean-type", .setting (.label .boolean)),
    ("object-type", .setting (.label .object)), ("unknown-type", .setting (.label .unknown)),
    ("out", .setting .out)]
  letters := front.letters ++ [('i', .setting .input), ('o', .setting .out)]
  commands := []

def behindTypes : Vocabulary where
  words := behind.words ++ [
    ("root-type", .setting .rootName), ("use-types", .switch .typeAlias),
    ("semis", .switch .terminators), ("preserve-collisions", .switch .preserve),
    ("stdout", .switch .standardOutput)]
  letters := behind.letters
  commands := []

def word? (vocabulary : Vocabulary) (word : String) : Option Argument :=
  (vocabulary.words.find? (·.1 == word)).map (·.2)

def letter? (vocabulary : Vocabulary) (letter : Char) : Option Argument :=
  (vocabulary.letters.find? (·.1 == letter)).map (·.2)

/-- The fault of an argument that is neither an option nor a value. -/
def unexpected (vocabulary : Vocabulary) : UsageFault :=
  if vocabulary.commands.isEmpty then .unknownArgument else .unknownCommand

end Vocabulary

structure Given where
  switches : List Switch
  settings : List (Setting × List String)

namespace Given

def has (given : Given) (switch : Switch) : Bool :=
  given.switches.contains switch

def values (given : Given) (setting : Setting) : List String :=
  (given.settings.filter (·.1 == setting)).flatMap (·.2)

/-- The value of a setting that is given once. -/
def value? (given : Given) (setting : Setting) : Option String :=
  (given.values setting).head?

/-- A setting with its values. -/
def add (given : Given) (setting : Setting) (values : List String) : Except UsageFault Given :=
  if values.isEmpty then .error .badValue
  else if !setting.repeats && given.settings.any (·.1 == setting) then .error .conflict
  else if setting.isPath && values.any (·.isEmpty) then .error .badValue
  else .ok { given with settings := given.settings ++ [(setting, values)] }

end Given

structure Scan where
  given : Given
  /-- A setting and the values it has so far. -/
  pending : Option (Setting × List String)
  /-- The next argument may be a value of that setting. -/
  accepting : Bool

namespace Scan

def start : Scan :=
  ⟨⟨[], []⟩, none, false⟩

/-- Settles the setting that waits for values. -/
def settle (scan : Scan) : Except UsageFault Scan :=
  match scan.pending with
  | none => .ok { scan with accepting := false }
  | some (setting, values) => do return ⟨← scan.given.add setting values, none, false⟩

def turn (switch : Switch) (scan : Scan) : Except UsageFault Scan := do
  let scan ← scan.settle
  if switch == .help then .error .helpRequested
  else if scan.given.has switch then .error .conflict
  else return ⟨{ scan.given with switches := scan.given.switches ++ [switch] }, none, false⟩

/-- Takes a setting whose values follow. -/
def await (setting : Setting) (scan : Scan) : Except UsageFault Scan := do
  let scan ← scan.settle
  return ⟨scan.given, some (setting, []), true⟩

def attach (setting : Setting) (value : String) (scan : Scan) : Except UsageFault Scan := do
  let scan ← scan.settle
  return ⟨← scan.given.add setting [value], none, false⟩

/-- Takes an argument by its word, with a value behind an equals sign if there is one. -/
def takeWord (vocabulary : Vocabulary) (text : List Char) (scan : Scan) :
    Except UsageFault Scan :=
  let word := String.ofList (text.takeWhile (· != '='))
  let value? := match text.dropWhile (· != '=') with
    | [] => none
    | _ :: value => some (String.ofList value)
  match vocabulary.word? word, value? with
  | none, _ => .error .unknownArgument
  | some (.setting setting), none => scan.await setting
  | some (.setting setting), some value => scan.attach setting value
  | some (.switch switch), none => scan.turn switch
  | some (.switch _), some _ => .error .tooManyValues

/-- Takes arguments by their letters; what follows the letter of a setting is its value. -/
def takeLetters (vocabulary : Vocabulary) : List Char → Scan → Except UsageFault Scan
  | [], scan => .ok scan
  | letter :: rest, scan =>
    match vocabulary.letter? letter with
    | none => .error .unknownArgument
    | some (.switch switch) => do takeLetters vocabulary rest (← scan.turn switch)
    | some (.setting setting) =>
      match rest with
      | [] => scan.await setting
      | '=' :: value => scan.attach setting (String.ofList value)
      | value => scan.attach setting (String.ofList value)

def takeValue (vocabulary : Vocabulary) (value : String) (scan : Scan) : Except UsageFault Scan :=
  match scan.accepting, scan.pending with
  | true, some (setting, values) =>
    .ok { scan with pending := some (setting, values ++ [value]), accepting := setting.repeats }
  | _, _ => .error vocabulary.unexpected

def take (vocabulary : Vocabulary) (argument : String) (scan : Scan) : Except UsageFault Scan :=
  match argument.toList with
  | '-' :: '-' :: text => scan.takeWord vocabulary text
  | '-' :: c :: letters => scan.takeLetters vocabulary (c :: letters)
  | _ => scan.takeValue vocabulary argument

/-- The fault of what follows two dashes: nothing may stand there. -/
def afterDashes (vocabulary : Vocabulary) (argument : String) : UsageFault :=
  if vocabulary.commands.contains argument then .unknownArgument else vocabulary.unexpected

end Scan

/-- Reads arguments up to a command, if there are commands, or up to the end. -/
def scan (vocabulary : Vocabulary) :
    List String → Scan → Except UsageFault (Given × Option (String × List String))
  | [], s => do return ((← s.settle).given, none)
  | argument :: rest, s =>
    -- A setting that waits for a value takes any word, also the name of a command.
    if !s.accepting && vocabulary.commands.contains argument then
      .ok (s.given, some (argument, rest))
    else if argument == "--" then
      match rest with
      | [] => do return ((← s.settle).given, none)
      | next :: _ => .error (Scan.afterDashes vocabulary next)
    else do
      scan vocabulary rest (← s.take vocabulary argument)

/-- Help on commands: there is help on each of them, but on nothing below. -/
def helpOn (topics : List String) : UsageFault :=
  match topics with
  | [] => .helpRequested
  | [topic] => if Vocabulary.front.commands.contains topic then .helpRequested else .unknownCommand
  | _ => .unknownCommand

def labelsOf (given : Given) : CustomLabels :=
  let label (kind : TypeKind) : Option String := given.value? (.label kind)
  ⟨label .string, label .number, label .boolean, label .object, label .unknown⟩

/-- What is to be done, if the command is known and its arguments do not exclude one another. -/
def commandOf (name : String) (given : Given) : Except UsageFault Command :=
  let out := given.value? .out
  if name == "shape" then
    .ok (.shape out)
  else
    let types := Command.types (given.value? .rootName) (given.has .typeAlias)
      (given.has .terminators) (given.has .preserve)
    match given.has .standardOutput, out with
    | true, some _ => .error .conflict
    | true, none => .ok (types .standardOutput)
    | false, some path => .ok (types (.file path))
    | false, none => .ok (types .usual)

/-- The request of a command with its arguments. -/
def requestOf (front : Given) (name : String) (given : Given) : Except UsageFault Request := do
  let command ← commandOf name given
  let inputs := given.values .input
  if inputs.isEmpty then
    .error .missingInput
  else
    return {
      verbose := front.has .verbose || given.has .verbose
      input := ⟨given.has .lineByLine, given.value? .pointer, given.value? .filter, inputs⟩
      inference := ⟨given.value? .optionsFile, given.has .forceOptional, labelsOf given⟩
      command := command }

def Request.read (arguments : List String) : Except UsageFault Request := do
  let (front, found) ← scan .front arguments .start
  match found with
  | none => .error (if front.switches.isEmpty then .nothingAsked else .missingCommand)
  | some ("help", topics) => .error (helpOn topics)
  | some (name, rest) =>
    let vocabulary := if name == "shape" then Vocabulary.behind else .behindTypes
    let (given, _) ← scan vocabulary rest .start
    requestOf front name given

end SampleTypes.CommandLine
