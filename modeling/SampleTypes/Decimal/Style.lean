import SampleTypes.Decimal.Shortest

/-!
# Written decimals

A number is written either positionally, with a point and at least one digit on each side of it, or
with one digit before the point and a power of ten. A `Style` says which numbers take which form.
-/

namespace SampleTypes.Decimal

/-- A style of writing numbers: positionally when the exponent of the leading digit lies between `least`
and `most`, otherwise with an exponent, whose plus sign is written or left out. -/
structure Style where
  least : Int
  most : Int
  plus : Bool
deriving DecidableEq, Repr

def digits (n : Nat) : List Char :=
  Nat.toDigits 10 n

namespace Style

/-- `digits · 10 ^ exponent` with a point, for digits without trailing zeros. -/
def positional (ds : List Char) (exponent : Int) : List Char :=
  let point : Int := ds.length + exponent
  if 0 ≤ exponent then
    ds ++ List.replicate exponent.toNat '0' ++ ['.', '0']
  else if 0 < point then
    ds.take point.toNat ++ '.' :: ds.drop point.toNat
  else
    ['0', '.'] ++ List.replicate (-point).toNat '0' ++ ds

/-- `digits · 10 ^ exponent` with one digit before the point. -/
def exponential (form : Style) (ds : List Char) (exponent : Int) : List Char :=
  let leading : Int := ds.length - 1 + exponent
  let fraction := if ds.length ≤ 1 then [] else '.' :: ds.drop 1
  let sign := if leading < 0 then ['-'] else if form.plus then ['+'] else []
  ds.take 1 ++ fraction ++ 'e' :: sign ++ digits leading.natAbs

/-- A positive decimal in the style. -/
def write (form : Style) (value : Scientific) : List Char :=
  let ds := digits value.digits
  let leading : Int := ds.length - 1 + value.exponent
  if form.least ≤ leading && leading ≤ form.most then
    positional ds value.exponent
  else
    form.exponential ds value.exponent

/-- A finite double in the style, with the fewest digits that read back; zero keeps its sign. -/
def writeFloat (form : Style) (x : Float) : List Char :=
  let bits := x.toBits.toNat
  let sign := if bits < Nat.pow 2 63 then [] else ['-']
  let size := bits % Nat.pow 2 63
  sign ++ if size == 0 then ['0', '.', '0'] else form.write (shortest (.ofBits size))

end Style

end SampleTypes.Decimal
