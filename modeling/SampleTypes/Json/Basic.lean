import SampleTypes.Entries

/-!
# JSON values

A value of JSON. Numbers keep the three forms in which they are read: natural numbers below `2 ^ 64`,
negative whole numbers down to `-2 ^ 63`, and reals. The members of an object stand in the order of
their first appearance; that their keys are distinct is a property of the objects that are read, not
a part of the type.
-/

namespace SampleTypes

inductive Json.Number where
  | natural (n : Nat)
  | negative (n : Nat)
  | real (x : Float)

inductive Json where
  | null
  | bool (b : Bool)
  | number (n : Json.Number)
  | string (s : String)
  | array (items : List Json)
  | object (members : List (String × Json))

namespace Json

instance : Inhabited Json := ⟨.null⟩

def Number.ofInt : Int → Number
  | .ofNat n => .natural n
  | .negSucc n => .negative (n + 1)

mutual

/-- How many containers lie around the innermost value, the value itself included. -/
def depth : Json → Nat
  | .array items => depthOfItems items + 1
  | .object members => depthOfMembers members + 1
  | _ => 0

def depthOfItems : List Json → Nat
  | [] => 0
  | item :: items => max item.depth (depthOfItems items)

def depthOfMembers : List (String × Json) → Nat
  | [] => 0
  | (_, value) :: members => max value.depth (depthOfMembers members)

end

end Json

end SampleTypes
