import SampleTypes.Naming
import SampleTypes.Path
import SampleTypes.Rendering
import SampleTypes.Store

/-!
# Options

What may be chosen: how values are classified (`Policy`), how declarations are named and written, which
declarations are there from the start, and what becomes of the text (`Delivery`).
-/

namespace SampleTypes

/-- Labels in place of the kinds' own ones. -/
structure CustomLabels where
  string : Option String := none
  number : Option String := none
  boolean : Option String := none
  object : Option String := none
  unknown : Option String := none
deriving DecidableEq, Repr, Inhabited

namespace CustomLabels

def get? (labels : CustomLabels) : TypeKind → Option String
  | .string => labels.string
  | .number => labels.number
  | .boolean => labels.boolean
  | .object => labels.object
  | .unknown => labels.unknown

def set (labels : CustomLabels) (kind : TypeKind) (label : String) : CustomLabels :=
  match kind with
  | .string => { labels with string := some label }
  | .number => { labels with number := some label }
  | .boolean => { labels with boolean := some label }
  | .object => { labels with object := some label }
  | .unknown => { labels with unknown := some label }

/-- The label of a kind: the chosen one, or its own. -/
def label (labels : CustomLabels) (kind : TypeKind) : String :=
  (labels.get? kind).getD kind.label

end CustomLabels

/-- How values are classified. -/
structure Policy where
  labels : CustomLabels := {}
  /-- Every field is optional. -/
  forceOptional : Bool := false
deriving DecidableEq, Repr, Inhabited

/-- What becomes of the text of a build. -/
structure Delivery where
  directory : Option String := none
  filename : Option String := none
  /-- Writing is switched off. -/
  skipWrite : Bool := false
  /-- The text is wanted, and no file. -/
  textOnly : Bool := false
  /-- The declarations are wanted, and neither text nor file. -/
  asStore : Bool := false
  /-- A written file is reported. -/
  logSuccess : Bool := false
deriving DecidableEq, Repr, Inhabited

namespace Delivery

/-- The directory of the text unless another one is chosen. -/
def defaultDirectory : String := "dist"

/-- The name of the text's file unless another one is chosen. -/
def defaultFilename : String := "exported.d.ts"

def location (delivery : Delivery) : String :=
  let filename := match delivery.filename with
    | some name => if name.isEmpty then defaultFilename else name
    | none => defaultFilename
  Path.join (delivery.directory.getD defaultDirectory) filename

def writesFile (delivery : Delivery) : Bool :=
  !delivery.skipWrite && !delivery.textOnly && !delivery.asStore

end Delivery

structure Options where
  policy : Policy := {}
  /-- The name wished for the declaration of the whole value. -/
  rootWish : Option String := none
  mode : RenderMode := ⟨false, false⟩
  /-- Declarations that are there from the start. -/
  seed : Option Store := none
  delivery : Delivery := {}
  collision : Collision := .disambiguate
deriving Inhabited

namespace Options

def rootName (options : Options) : String :=
  match options.rootWish with
  | some name => if name.isEmpty then Naming.fallback else name
  | none => Naming.fallback

def start (options : Options) : Store :=
  options.seed.getD .empty

end Options

end SampleTypes
