import SampleTypes.Decimal.Style
import SampleTypes.Json.Basic

/-!
# JSON numbers

What a number literal means, and how a number is written.

A literal with neither point nor exponent is a whole number as long as it fits 64 bits. Every other
literal is a double: its leading digits, at most `2 ^ 64 - 1`, are rounded once and then multiplied
or divided by a power of ten, which rounds again. The result may be off by a last binary place from
the nearest double; a result beyond the doubles is out of range.
-/

namespace SampleTypes.Json.Number

/-- The greatest number that a literal's leading digits may reach. -/
def significandLimit : Nat :=
  Nat.pow 2 64 - 1

def powerOfTen (exponent : Nat) : Float :=
  Float.ofScientific 1 false exponent

/-- The greatest power of ten among the doubles is `10 ^ 308`. -/
def greatestPower : Nat := 308

/-- Divides by `10 ^ exponent`, in steps that the doubles allow. -/
def divideByPower (x : Float) (exponent : Nat) : Float :=
  if exponent ≤ greatestPower then
    x / powerOfTen exponent
  else if x == 0.0 then
    x
  else
    divideByPower (x / powerOfTen greatestPower) (exponent - greatestPower)
termination_by exponent
decreasing_by simp only [greatestPower] at *; omega

/-- The double that `significand · 10 ^ exponent` is read as, unless it is out of range. -/
def real? (significand : Nat) (exponent : Int) : Option Float :=
  let x := (UInt64.ofNat significand).toFloat
  match exponent with
  | .ofNat e =>
    if e ≤ greatestPower then
      let y := x * powerOfTen e
      if y.isInf then none else some y
    -- Zero is in range with any exponent.
    else if x == 0.0 then
      some x
    else
      none
  | .negSucc e => some (divideByPower x (e + 1))

/-- The whole number with the sign and the digits read: minus zero and what is below `-2 ^ 63` are
doubles. -/
def whole (positive : Bool) (significand : Nat) : Number :=
  if positive then .natural significand
  else if significand == 0 || significand > Nat.pow 2 63 then .real (-(UInt64.ofNat significand).toFloat)
  else .negative significand

/-- Doubles are written positionally from `10 ^ -5` up to `10 ^ 16`. -/
def style : Decimal.Style := ⟨-5, 15, true⟩

def write : Number → List Char
  | .natural n => Decimal.digits n
  | .negative n => '-' :: Decimal.digits n
  | .real x => if x.isFinite then style.writeFloat x else ['n', 'u', 'l', 'l']

end SampleTypes.Json.Number
