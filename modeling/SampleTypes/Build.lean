import SampleTypes.Error
import SampleTypes.Graph
import SampleTypes.Json.Document
import SampleTypes.Options.Codec
import SampleTypes.Synthesis

/-!
# Builds

A build infers the shape of a value and declares it in a store. `buildInto` works on any store,
`buildText` starts from the options' own one and yields its text, and `build` also delivers the text to
a file, or yields the store, as the options say. A text that cannot be delivered is an event, not an
error.
-/

namespace SampleTypes

/-- A value to build from: a document, or a node of a graph. -/
inductive Source where
  | document (value : Json)
  | node (graph : Graph) (root : Nat)

namespace Source

def infer (policy : Policy) : Source → Except InferenceFault FieldType
  | .document value => .ok (value.infer policy)
  | .node graph root => graph.infer policy root

/-- The shape of the value, which has to be keyed. -/
def inferShape (policy : Policy) : Source → Except InferenceFault Shape
  | .document value => value.inferShape policy
  | .node graph root => graph.inferShape policy root

end Source

structure Built where
  /-- The name of the declaration of the whole value. -/
  root : String
  store : Store
  events : List Event

def declareInto (shape : Shape) (options : Options) (store : Store) : Built :=
  let (declaration, s) :=
    (Synthesis.start store).declare options.collision shape
      (.root options.rootName options.mode)
  ⟨declaration.name, s.store, s.events⟩

def buildInto (source : Source) (options : Options) (store : Store) :
    Except InferenceFault Built := do
  let shape ← source.inferShape options.policy
  return declareInto shape options store

/-- The text of a value's declarations, with those the options start from. -/
def buildText (source : Source) (options : Options) : Except InferenceFault String := do
  return (← buildInto source options options.start).store.render

namespace Files

/-- Names the path of a fault. -/
def faultAt {α : Type} (path : String) (change : Change α) : EStateM PathFault Files α :=
  fun files =>
    match change files with
    | .ok a files => .ok a files
    | .error fault files => .error ⟨path, fault⟩ files

/-- Writes a text to a file, and makes the directories above it if they are missing. -/
def deliver (path text : String) : EStateM PathFault Files Unit := do
  match Path.parent? path with
  | some above => if !above.isEmpty then faultAt above (ensureDirectories above)
  | none => pure ()
  faultAt path (write path text.toUTF8.toList)

end Files

inductive Product where
  | declarations (store : Store)
  | text (text : String)

def Product.render : Product → String
  | .declarations store => store.render
  | .text written => written

/-- A build that is done: what it yields, what it did to the files, and what happened. -/
structure Done where
  product : Product
  files : Files
  events : List Event

/-- Delivers a text as the options say. -/
def deliverText (delivery : Delivery) (text : String) (files : Files) : Files × List Event :=
  if delivery.writesFile then
    let path := delivery.location
    match Files.deliver path text files with
    | .ok _ files => (files, if delivery.logSuccess then [.written path] else [])
    | .error fault files => (files, [.notWritten path fault.message])
  else
    (files, [])

def build (source : Source) (options : Options) (files : Files) :
    Except InferenceFault Done := do
  let built ← buildInto source options options.start
  if options.delivery.asStore then
    return ⟨.declarations built.store, files, built.events⟩
  else
    let text := built.store.render
    let (files, events) := deliverText options.delivery text files
    return ⟨.text text, files, built.events ++ events⟩

/-! ## Texts of documents and options -/

/-- Reads options from the bytes of their saved form; what follows them is not looked at. -/
def Options.read (bytes : List UInt8) : Except BuildError Options :=
  ((Options.reader Json.Reader.depthLimit).run bytes).mapError .options

def Options.load (path : String) (files : Files) : Except BuildError Options := do
  let bytes ← (files.read path).mapError fun fault => .file ⟨path, fault⟩
  Options.read bytes

def readDocument (text : String) : Except BuildError Json :=
  (Json.read text).mapError .document

end SampleTypes
