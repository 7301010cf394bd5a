import SampleTypes.Files.Glob
import SampleTypes.Filter.Selection
import SampleTypes.Inference
import SampleTypes.Json.Pointer

/-!
# Errors

Everything that keeps a build from being done, with its wording.
-/

namespace SampleTypes

/-- A fault of the file or directory at a path. -/
structure PathFault where
  path : String
  fault : FileFault
deriving DecidableEq, Repr

def PathFault.message (fault : PathFault) : String :=
  "I/O error at " ++ fault.path ++ ": " ++ fault.fault.message

namespace InferenceFault

/-- The pointer to the end of a path; the value itself is a single slash. -/
def pointer (path : List String) : String :=
  if path.isEmpty then "/" else Json.Pointer.write path

def message : InferenceFault → String
  | .cycle path => "cycle detected at " ++ pointer path ++ ": a container contains itself"
  | .rootNotKeyed found => "expected a keyed object at the root, found " ++ found

end InferenceFault

/-- What keeps patterns from being expanded. -/
inductive PatternError where
  | malformed (pattern : String) (fault : Glob.PatternFault)
  | unmatched (pattern : String)
deriving DecidableEq, Repr

def PatternError.message : PatternError → String
  | .malformed pattern fault => pattern ++ ": " ++ fault.message
  | .unmatched pattern => "pattern matched no files: " ++ pattern

/-- Everything that keeps a build from being done. -/
inductive BuildError where
  | inference (fault : InferenceFault)
  | file (fault : PathFault)
  | document (refusal : Json.Refusal)
  | options (refusal : Json.Refusal)
  /-- The text is no filter. -/
  | filterUnreadable (faults : List (Filter.Remark String))
  | filterUndefined (faults : List (Filter.Remark (List Filter.Undefined)))
  | filterFailed (description : String)
  | pattern (error : PatternError)

namespace BuildError

def ofSelection : Filter.SelectionFault → BuildError
  | .unreadable faults => .filterUnreadable faults
  | .undefined faults => .filterUndefined faults
  | .failed description => .filterFailed description
  | .notDocument refusal => .document refusal

/-- What is wrong with a text that is no filter. -/
def unreadableLine (fault : Filter.Remark String) : String :=
  "parse error: " ++ fault.content ++ " in `" ++ fault.text ++ "`"

/-- The names that are not defined in a text, one on a line. -/
def undefinedLines (fault : Filter.Remark (List Filter.Undefined)) : List String :=
  fault.content.map fun missing =>
    "undefined `" ++ missing.name ++ "`: " ++ missing.sort ++ " in `" ++ fault.text ++ "`"

def message : BuildError → String
  | .inference fault => fault.message
  | .file fault => fault.message
  | .document refusal => "failed to parse JSON: " ++ refusal.message
  | .options refusal => "invalid options at " ++ refusal.describePath ++ ": " ++ refusal.message
  | .filterUnreadable faults =>
    "jq filter failed: " ++ "\n".intercalate (faults.map unreadableLine)
  | .filterUndefined faults =>
    "jq filter failed: " ++ "\n".intercalate (faults.flatMap undefinedLines)
  | .filterFailed description => "jq filter failed: " ++ description
  | .pattern error => "bad input pattern: " ++ error.message

/-- The wording of what lies behind an error, if anything does. -/
def cause? : BuildError → Option String
  | .file fault => some fault.fault.message
  | .document refusal => some refusal.message
  | _ => none

end BuildError

end SampleTypes
