import SampleTypes.Filter.Sequence
import SampleTypes.Json.Basic

/-!
# Engines

Filters are run by an engine, which is known only by what it is asked for: it loads a text, compiles what it
has loaded, and runs the program on a document. What is wrong with a text it says in words of its own, and
what a program puts out are texts again, which come to an end.

Whatever is done with filters is done for every `Engine`.
-/

namespace SampleTypes.Filter

/-- What an engine says about a text. -/
structure Remark (α : Type) where
  text : String
  content : α

/-- A name that is not defined, and what it was taken for. -/
structure Undefined where
  name : String
  sort : String
deriving DecidableEq, Repr

structure Engine where
  Loaded : Type
  Program : Type
  load : String → Except (List (Remark String)) Loaded
  compile : Loaded → Except (List (Remark (List Undefined))) Program
  /-- The texts that a program puts out for a document, and in what words it fails. -/
  run : Program → Json → Sequence (Except String String)

end SampleTypes.Filter
