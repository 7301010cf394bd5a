import SampleTypes.Text.Blank
import SampleTypes.Text.Uppercase

/-!
# Names

A declaration is named after the fields that lead to it, each word of them capitalised. A name that
is taken already is kept as it is, or gets the least number from two on that makes it free; which of
the two is a matter of policy.
-/

namespace SampleTypes

/-- What happens when a declaration's name is taken. -/
inductive Collision where
  /-- The name gets a number. -/
  | disambiguate
  /-- The name is used again. -/
  | preserve
deriving DecidableEq, Repr, Inhabited

namespace Naming

/-- The name of a declaration that has no better one. -/
def fallback : String := "Response"

/-- Capitalises the first character of every word; `start` says that a word begins here. -/
def capitalizeFrom : (start : Bool) → List Char → List Char
  | _, [] => []
  | start, c :: rest =>
    if c == ' ' then ' ' :: capitalizeFrom true rest
    else if start then Text.uppercase c ++ capitalizeFrom false rest
    else c :: capitalizeFrom false rest

/-- Capitalises the first character of every word; single spaces part words. -/
def capitalize (text : String) : String :=
  String.ofList (capitalizeFrom true text.toList)

/-- The name that a chain of fields gives: their capitalised names, one after the other. -/
def derived (chain : List String) : String :=
  String.join (chain.map capitalize)

/-- The name to start from: a blank one, or none at all, gives way to the fallback. -/
def candidate (name : Option String) : String :=
  match name with
  | some name => if Text.isBlank name then fallback else name
  | none => fallback

def numbered (name : String) (number : Nat) : String :=
  name ++ toString number

/-- The least number from `number` on that makes the name free, among the next `bound` ones. -/
def firstFree (taken : List String) (name : String) : (bound number : Nat) → Nat
  | 0, number => number
  | bound + 1, number =>
    if taken.contains (numbered name number) then firstFree taken name bound (number + 1)
    else number

/-- A name that is not taken: the given one, or the first of its numbered forms. As many forms as
there are names taken, and one more, contain a free one. -/
def fresh (taken : List String) (name : String) : String :=
  if taken.contains name then
    numbered name (firstFree taken name (taken.length + 1) 2)
  else
    name

def claim (policy : Collision) (taken : List String) (name : String) : String :=
  match policy with
  | .preserve => name
  | .disambiguate => fresh taken name

theorem claim_of_not_mem {taken : List String} {name : String} (h : name ∉ taken)
    (policy : Collision) : claim policy taken name = name := by
  cases policy <;> simp [claim, fresh, h]

end Naming

end SampleTypes
