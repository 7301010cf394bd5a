import SampleTypes.Options

/-!
# Requests

What the arguments of the command line ask for: the shapes of documents, or their declarations.
-/

namespace SampleTypes.CommandLine

/-- Which documents are asked about. -/
structure InputSettings where
  /-- Every line of a file is a document of its own. -/
  lineByLine : Bool
  /-- The part of each document that is meant. -/
  pointer : Option String
  /-- The filter that selects from each document. -/
  filter : Option String
  /-- Paths and patterns. -/
  inputs : List String
deriving DecidableEq, Repr

/-- How documents are to be looked at, apart from what a file of options says. -/
structure InferenceSettings where
  optionsFile : Option String
  forceOptional : Bool
  labels : CustomLabels
deriving DecidableEq, Repr

inductive Destination where
  | standardOutput
  | file (path : String)
  /-- Where the options say. -/
  | usual
deriving DecidableEq, Repr

/-- What is to be done with the documents. -/
inductive Command where
  | shape (out : Option String)
  | types (rootName : Option String) (typeAlias terminators preserve : Bool)
    (destination : Destination)
deriving DecidableEq, Repr

structure Request where
  verbose : Bool
  input : InputSettings
  inference : InferenceSettings
  command : Command
deriving DecidableEq, Repr

end SampleTypes.CommandLine
