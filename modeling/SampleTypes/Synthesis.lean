import SampleTypes.Event
import SampleTypes.Naming
import SampleTypes.Rendering
import SampleTypes.Store

/-!
# Synthesis

Turns a shape into declarations. A shape that the store knows is reused. Any other one claims its name
first, then has its fields written, which declares the shapes nested in them, and is added to the store
last: so a declaration comes after those it refers to, and the given shape comes at the end.

Names are claimed on the way down and added on the way up. `Synthesis.taken` holds both the names in
the store and those of declarations still being written.
-/

namespace SampleTypes

/-- What a shape's declaration is named after and how it is written. -/
structure Context where
  /-- The name wished for. -/
  name : Option String
  /-- The fields that lead to the shape. -/
  chain : List String
  mode : RenderMode

namespace Context

/-- The context of a shape that no field leads to. -/
def root (name : String) (mode : RenderMode) : Context :=
  ⟨some name, [], mode⟩

/-- The context of the shape of a field. -/
def child (context : Context) (key : String) : Context :=
  let chain := context.chain ++ [key]
  ⟨some (Naming.derived chain), chain, context.mode⟩

end Context

/-- Declarations in the making. -/
structure Synthesis where
  store : Store
  taken : List String
  events : List Event

namespace Synthesis

def start (store : Store) : Synthesis :=
  ⟨store, store.names, []⟩

def note (s : Synthesis) (event : Event) : Synthesis :=
  { s with events := s.events ++ [event] }

def claim (policy : Collision) (candidate : String) (s : Synthesis) : String × Synthesis :=
  let name := Naming.claim policy s.taken candidate
  let s := match policy with
    | .preserve => s
    | .disambiguate => { s with taken := name :: s.taken }
  (name, if name == candidate then s else s.note (.renamed candidate name))

def emit (declaration : Declaration) (s : Synthesis) : Synthesis :=
  let s := s.note (.emitted declaration.name declaration.shape.length)
  { s with store := s.store.push declaration }

/-- Declares a shape whose fields are written by `fields`, unless the store knows it. -/
def declareWith (policy : Collision) (shape : Shape) (context : Context)
    (fields : Synthesis → String × Synthesis) (s : Synthesis) : Declaration × Synthesis :=
  match s.store.find? shape with
  | some known => (known, s.note (.reused known.name))
  | none =>
    -- The name is claimed before the fields are written, so no shape in them gets it.
    let (name, s) := s.claim policy (Naming.candidate context.name)
    let (lines, s) := fields s
    let declaration := ⟨name, shape, Rendering.declaration name lines context.mode⟩
    (declaration, s.emit declaration)

mutual

/-- Writes the lines of fields, and declares the shapes nested in them. -/
def writeFields (policy : Collision) (context : Context) :
    List (String × FieldType) → Synthesis → String × Synthesis
  | [], s => ("", s)
  | (key, type) :: rest, s =>
    let (label, s) := labelOf policy (context.child key) type s
    let (lines, s) := writeFields policy context rest s
    (Rendering.fieldLine key label type context.mode ++ lines, s)

/-- The label of a field's type: the name of its shape's declaration, or its own label if there is no
shape to declare. -/
def labelOf (policy : Collision) (context : Context) :
    FieldType → Synthesis → String × Synthesis
  | ⟨_, label, _, _, none⟩, s => (label, s)
  | ⟨kind, label, _, _, some fields⟩, s =>
    if kind == .object && !fields.isEmpty then
      let (declaration, s) :=
        declareWith policy fields context (writeFields policy context fields) s
      (declaration.name, s)
    else
      (label, s)

end

def declare (policy : Collision) (shape : Shape) (context : Context) (s : Synthesis) :
    Declaration × Synthesis :=
  declareWith policy shape context (writeFields policy context shape) s

end Synthesis

end SampleTypes
