import SampleTypes.CommandLine.Run
import SampleTypes.CommandLine.Usage
import SampleTypes.Filter.Standard

/-!
# The program

Reads a request from the arguments, answers it on a picture of the files it may touch, and carries the
answer out: prints its texts, makes its directories and writes its files.
-/

namespace SampleTypes.Main

open CommandLine

def usageText : String :=
  "Usage: sample-types [-v] shape|types -i INPUT... [OPTIONS]\n"

/-- What is said about arguments that make up no request. -/
def describe : UsageFault → String
  | .helpRequested | .nothingAsked => usageText
  | .missingCommand => "error: a command is required\n"
  | .unknownCommand => "error: unknown command\n"
  | .unknownArgument => "error: unknown argument\n"
  | .conflict => "error: an argument cannot stand again or beside another one\n"
  | .badValue => "error: a value is required\n"
  | .tooManyValues => "error: an argument takes no value\n"
  | .missingInput => "error: at least one input is required\n"

def workingDirectory : IO Location := do
  let here ← IO.currentDir
  return (Path.names here.toString).filter fun name => !name.isEmpty

/-- Adds the file or directory at a path. What cannot be read is left out, as if it were not there. -/
def observe (files : Files) (path : String) : IO Files := do
  match files.locate path with
  | .ok (.vacant location) =>
    let place := (← IO.currentDir) / path
    if ← place.isDir then
      return files.put location .directory
    else
      try
        return files.put location (.file (← IO.FS.readBinFile place).toList)
      catch _ =>
        return files
  | _ => return files

/-- Adds what is found at a path, with the directories that lead there. -/
def observePath (files : Files) (path : String) : IO Files :=
  let names := Path.names path
  (List.range names.length).foldlM
    (fun files n => observe files ("/".intercalate (names.take (n + 1)))) files

/-- Adds everything below a directory, `bound` levels deep. -/
def observeBelow : (bound : Nat) → Files → String → IO Files
  | 0, files, _ => return files
  | bound + 1, files, path => do
    let place := (← IO.currentDir) / path
    if ← place.isDir then
      (← place.readDir).toList.foldlM (fun files entry => do
        let child := Glob.child path entry.fileName
        observeBelow bound (← observe files child) child) files
    else
      return files

/-- Patterns are expanded this many directories deep. -/
def depthLimit : Nat := 64

/-- The directory in which a pattern's matches lie. -/
def patternRoot (pattern : String) : String :=
  let literal := (Path.split pattern.toList).takeWhile fun name => !Glob.isPattern (String.ofList name)
  match literal.map String.ofList with
  | [] => "."
  | [""] => "/"
  | names => "/".intercalate names

def picture (request : Request) : IO Files := do
  let files ← (request.inference.optionsFile.toList).foldlM observePath
    (.empty (← workingDirectory))
  let files ← request.input.inputs.foldlM (fun files input => do
    if Glob.isPattern input then
      let root := patternRoot input
      observeBelow depthLimit (← observePath files root) root
    else
      observePath files input) files
  let out := match request.command with
    | .shape out => out
    | .types _ _ _ _ (.file path) => some path
    | .types _ _ _ _ .standardOutput => none
    | .types _ _ _ _ .usual =>
      match request.options files with
      | .ok options => some options.delivery.location
      | .error _ => none
  out.toList.foldlM observePath files

/-- Makes and writes what is new or different. -/
def carryOut (earlier files : Files) : IO Unit :=
  (files.nodes.filter fun (location, node) => earlier.node? location != some node).forM
    fun (location, node) => do
      let path := "/" ++ "/".intercalate location
      match node with
      | .directory => IO.FS.createDirAll path
      | .file bytes => IO.FS.writeBinFile path (ByteArray.mk bytes.toArray)

def run (arguments : List String) : IO UInt32 := do
  match Request.read arguments with
  | .error .helpRequested =>
    IO.print usageText
    return 0
  | .error fault =>
    IO.eprint (describe fault)
    return 2
  | .ok request =>
    let files ← picture request
    let answer := request.answer .standard files
    (request.log answer).forM fun event => IO.eprintln event.line
    carryOut files answer.files
    IO.print answer.standardOutput
    IO.eprint answer.standardError
    return if answer.success then 0 else 1

end SampleTypes.Main

def main (arguments : List String) : IO UInt32 :=
  SampleTypes.Main.run arguments
