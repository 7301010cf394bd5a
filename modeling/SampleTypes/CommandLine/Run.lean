import SampleTypes.CommandLine.Input

/-!
# Answers

What a request leads to: texts on the two outputs, changed files, and events. All documents are taken in
before anything is delivered, so a request that fails on the way delivers nothing.
-/

namespace SampleTypes.CommandLine

structure Answer where
  success : Bool
  standardOutput : String
  standardError : String
  files : Files
  events : List Event

/-- The options of a request: those of its file, if it names one, with its own ones on top. -/
def InferenceSettings.options (settings : InferenceSettings) (files : Files) :
    Except BuildError Options := do
  let options ← match settings.optionsFile with
    | some path => Options.load path files
    | none => pure {}
  let labels := TypeKind.all.foldl (fun labels kind =>
    match settings.labels.get? kind with
    | some label => labels.set kind label
    | none => labels) options.policy.labels
  return { options with
    policy := ⟨labels, options.policy.forceOptional || settings.forceOptional⟩ }

/-- The options with what a command asks for on top. -/
def Command.refine (command : Command) (options : Options) : Options :=
  match command with
  | .shape _ => options
  | .types rootName typeAlias terminators preserve _ =>
    { options with
      rootWish := rootName <|> options.rootWish
      mode := ⟨options.mode.typeAlias || typeAlias, options.mode.terminators || terminators⟩
      collision := if preserve then .preserve else options.collision }

def Request.options (request : Request) (files : Files) : Except BuildError Options := do
  return request.command.refine (← request.inference.options files)

/-! ## Taking documents in -/

/-- What documents have been turned into so far, and what happened. -/
structure Progress (α : Type) where
  value : α
  events : List Event

/-- A step that may fail; what happened before the failure is kept. -/
abbrev Taking (α : Type) := EStateM RunError (Progress α)

def takeShape (options : Options) (path : String) (document : Json) : Taking (List Shape) Unit :=
  fun progress =>
    match document.inferShape options.policy with
    | .ok shape => .ok () { progress with value := progress.value ++ [shape] }
    | .error fault => .error (.notInferred path fault) progress

def takeDeclarations (options : Options) (path : String) (document : Json) :
    Taking Store Unit := fun progress =>
  match buildInto (.document document) options progress.value with
  | .ok built =>
    .ok () ⟨built.store, progress.events ++ built.events ++ [.documentBuilt path built.root]⟩
  | .error fault => .error (.notInferred path fault) progress

/-- Takes documents in, one after the other. -/
def takeAll {α : Type} (take : String → Json → Taking α Unit) : List Selected → Taking α Unit
  | [] => pure ()
  | .ok (path, document) :: rest => do
    take path document
    takeAll take rest
  | .error error :: _ => throw error

/-! ## Delivering -/

/-- The text of shapes: that of a single one, or of the list of all. -/
def shapesText (shapes : List Shape) : String :=
  match shapes with
  | [shape] => (Shape.toJson shape).indented
  | shapes => (Json.array (shapes.map Shape.toJson)).indented

/-- How many declarations went where. -/
def summary (count : Nat) (path : String) : String :=
  "✓ " ++ toString count ++ (if count == 1 then " declaration → " else " declarations → ") ++ path ++
    "\n"

def failed (error : RunError) (files : Files) (events : List Event) : Answer :=
  ⟨false, "", "Error: " ++ error.message ++ "\n", files, events⟩

/-- Delivers a text to a file and says so. -/
def deliverTo (path text report : String) (files : Files) (events : List Event) : Answer :=
  match Files.deliver path text files with
  | .ok _ files => ⟨true, "", report, files, events⟩
  | .error fault files => failed (.build (.file fault)) files events

def print (text : String) (files : Files) (events : List Event) : Answer :=
  ⟨true, text, "", files, events⟩

def answerShape (options : Options) (documents : List Selected) (out : Option String)
    (files : Files) : Answer :=
  match takeAll (takeShape options) documents ⟨[], []⟩ with
  | .error error progress => failed error files progress.events
  | .ok _ progress =>
    let text := shapesText progress.value
    match out with
    | some path => deliverTo path text "" files progress.events
    | none => print (text ++ "\n") files progress.events

def answerTypes (options : Options) (documents : List Selected) (destination : Destination)
    (files : Files) : Answer :=
  match takeAll (takeDeclarations options) documents ⟨options.start, []⟩ with
  | .error error progress => failed error files progress.events
  | .ok _ progress =>
    let store := progress.value
    let deliver (path : String) : Answer :=
      deliverTo path store.render (summary store.length path) files progress.events
    match destination with
    | .standardOutput => print store.render files progress.events
    | .file path => deliver path
    | .usual => deliver options.delivery.location

/-- Answers a request, with an engine for its filter. -/
def Request.answer (request : Request) (engine : Filter.Engine) (files : Files) : Answer :=
  match request.options files with
  | .error error => failed (.build error) files []
  | .ok options =>
    let documents := selected engine request.input files
    match request.command with
    | .shape out => answerShape options documents out files
    | .types _ _ _ _ destination => answerTypes options documents destination files

/-- The events that a request wants to follow: all of them, or only what went wrong. -/
def Request.log (request : Request) (answer : Answer) : List Event :=
  answer.events.filter fun event => request.verbose || event.level == .error

end SampleTypes.CommandLine
