import SampleTypes.Options
import SampleTypes.Store.Codec

/-!
# Options as JSON

The saved form of options has thirteen members, three of which also answer to an older name. All of
them may be left out, in any combination; what is left out keeps its default.
-/

namespace SampleTypes

open Json (Reader)

/-- A text or `null`. -/
def Json.ofText? (text : Option String) : Json :=
  match text with
  | some text => .string text
  | none => .null

namespace CustomLabels

open Json.Reader in
def fields : List (Reader.Field CustomLabels) := [
  .free "string" label fun label l => { l with string := label },
  .free "number" label fun label l => { l with number := label },
  .free "boolean" label fun label l => { l with boolean := label },
  .free "object" label fun label l => { l with object := label },
  .free "unknown" label fun label l => { l with unknown := label }]
where
  /-- A label, or none. -/
  label (_ : Nat) : Reader (Option String) := nullable (text "a string")

def reader (depth : Nat) : Reader CustomLabels :=
  Json.Reader.record "struct CustomTypes" fields {} depth

def toJson (labels : CustomLabels) : Json :=
  .object (TypeKind.all.map fun kind => (kind.label, Json.ofText? (labels.get? kind)))

end CustomLabels

namespace Collision

def names : List (String × Collision) :=
  [("disambiguate", .disambiguate), ("preserve", .preserve)]

def reader (depth : Nat) : Reader Collision :=
  Json.Reader.variant depth names

def toJson : Collision → Json
  | .disambiguate => .string "disambiguate"
  | .preserve => .string "preserve"

end Collision

namespace Options

open Json.Reader in
def fields : List (Reader.Field Options) := [
  .free "customTypes" CustomLabels.reader fun labels o =>
    { o with policy := { o.policy with labels := labels } },
  .free "forceOptional" flag fun b o => { o with policy := { o.policy with forceOptional := b } },
  .free "initialInterfaceName" name fun name o => { o with rootWish := name },
  (Reader.Field.free "useTypeAlias" flag fun b o =>
    { o with mode := { o.mode with typeAlias := b } }).orSpelt "useTypes",
  (Reader.Field.free "renderStatementTerminators" flag fun b o =>
    { o with mode := { o.mode with terminators := b } }).orSpelt "renderSemis",
  .free "useStore" (fun depth => nullable (Store.reader depth)) fun store o =>
    { o with seed := store },
  .free "outputPath" (fun _ => nullable (text "path string")) fun path o =>
    { o with delivery := { o.delivery with directory := path } },
  .free "outputFilename" name fun name o =>
    { o with delivery := { o.delivery with filename := name } },
  .free "skipFileWrite" flag fun b o =>
    { o with delivery := { o.delivery with skipWrite := b } },
  (Reader.Field.free "returnTextOnly" flag fun b o =>
    { o with delivery := { o.delivery with textOnly := b } }).orSpelt "returnFileString",
  .free "returnConfigurations" flag fun b o =>
    { o with delivery := { o.delivery with asStore := b } },
  .free "logSuccess" flag fun b o =>
    { o with delivery := { o.delivery with logSuccess := b } },
  .free "nameCollision" Collision.reader fun policy o => { o with collision := policy }]
where
  /-- A switch. -/
  flag (_ : Nat) : Reader Bool := bool
  /-- A text, or none. -/
  name (_ : Nat) : Reader (Option String) := nullable (text "a string")

def reader (depth : Nat) : Reader Options :=
  Json.Reader.record "struct BuildOptions" fields {} depth

def toJson (options : Options) : Json :=
  .object [
    ("customTypes", options.policy.labels.toJson),
    ("forceOptional", .bool options.policy.forceOptional),
    ("initialInterfaceName", Json.ofText? options.rootWish),
    ("useTypeAlias", .bool options.mode.typeAlias),
    ("renderStatementTerminators", .bool options.mode.terminators),
    ("useStore", match options.seed with
      | some store => store.toJson
      | none => .null),
    ("outputPath", Json.ofText? options.delivery.directory),
    ("outputFilename", Json.ofText? options.delivery.filename),
    ("skipFileWrite", .bool options.delivery.skipWrite),
    ("returnTextOnly", .bool options.delivery.textOnly),
    ("returnConfigurations", .bool options.delivery.asStore),
    ("logSuccess", .bool options.delivery.logSuccess),
    ("nameCollision", options.collision.toJson)]

end Options

end SampleTypes
