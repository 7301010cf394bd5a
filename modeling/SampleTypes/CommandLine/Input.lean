import SampleTypes.Build
import SampleTypes.CommandLine.Request
import SampleTypes.Text.Blank
import SampleTypes.Text.Lines

/-!
# Inputs

From inputs to documents: patterns are expanded to paths, files are read and parsed, and each document
gives way to what is selected from it, with an engine for its filter. The selected documents form one list in
order, with the path each one comes from; it ends with what keeps the next one from being had.
-/

namespace SampleTypes.CommandLine

/-- Why a request cannot be answered. -/
inductive RunError where
  | build (error : BuildError)
  | unreadable (path : String) (fault : FileFault)
  | malformed (path : String) (refusal : Json.Refusal)
  | unmatched (pointer : String)
  | notInferred (path : String) (fault : InferenceFault)

namespace RunError

/-- What went wrong and what lies behind it, the cause last. -/
def chain : RunError → List String
  | .build error => error.message :: error.cause?.toList
  | .unreadable path fault => ["failed to read source file (" ++ path ++ ")", fault.message]
  | .malformed path refusal =>
    ["failed to parse JSON source file (" ++ path ++ ")", refusal.message]
  | .unmatched pointer => ["JSON pointer " ++ pointer ++ " matched nothing"]
  | .notInferred path fault => ["failed to infer types for (" ++ path ++ ")", fault.message]

def message (error : RunError) : String :=
  ": ".intercalate error.chain

end RunError

/-- The paths that an input stands for: itself, or what it matches if it is a pattern. -/
def resolve (files : Files) (input : String) : Except PatternError (List String) :=
  if Glob.isPattern input then
    match Glob.expand files input with
    | .error fault => .error (.malformed input fault)
    | .ok [] => .error (.unmatched input)
    | .ok (path :: paths) => .ok (path :: paths)
  else
    .ok [input]

def resolveAll (files : Files) : List String → Except PatternError (List String)
  | [] => .ok []
  | input :: inputs => do
    let paths ← resolve files input
    return paths ++ (← resolveAll files inputs)

/-- The documents of a text: the text itself, or its lines that are not blank. -/
def documentsOf (lineByLine : Bool) (text : String) : Except Json.Refusal (List Json) :=
  if lineByLine then
    ((Text.lines text).filter fun line => !Text.isBlank line).mapM Json.read
  else
    (fun value => [value]) <$> Json.read text

def load (settings : InputSettings) (files : Files) (path : String) :
    Except RunError (List Json) := do
  let text ← (files.readText path).mapError (.unreadable path)
  (documentsOf settings.lineByLine text).mapError (.malformed path)

/-- The part of a document that the pointer leads to. -/
def pointed (settings : InputSettings) (document : Json) : Except RunError Json :=
  match settings.pointer with
  | none => .ok document
  | some pointer =>
    match Json.Pointer.resolve? pointer document with
    | some part => .ok part
    | none => .error (.unmatched pointer)

/-- What is selected from a document: a part of it, and from that what a filter yields. -/
def select (engine : Filter.Engine) (settings : InputSettings) (document : Json) :
    Except RunError (List Json) := do
  let part ← pointed settings document
  match settings.filter with
  | none => return [part]
  | some filter => (engine.select filter part).mapError fun fault => .build (.ofSelection fault)

/-- A selected document with the path it comes from, or what keeps it from being had. -/
abbrev Selected := Except RunError (String × Json)

/-- The outcome of a step that yields several documents of one path. -/
def selectedOf (path : String) (result : Except RunError (List Json)) : List Selected :=
  match result with
  | .ok documents => documents.map fun document => .ok (path, document)
  | .error error => [.error error]

def selectedFrom (engine : Filter.Engine) (settings : InputSettings) (files : Files) (path : String) :
    List Selected :=
  match load settings files path with
  | .error error => [.error error]
  | .ok documents =>
    documents.flatMap fun document => selectedOf path (select engine settings document)

def selected (engine : Filter.Engine) (settings : InputSettings) (files : Files) : List Selected :=
  match resolveAll files settings.inputs with
  | .error error => [.error (.build (.pattern error))]
  | .ok paths => paths.flatMap (selectedFrom engine settings files)

end SampleTypes.CommandLine
