/-!
# Reading decimals

The double nearest to a decimal text: digits, a point among them, and a power of ten behind a mark.
-/

namespace SampleTypes.Decimal

def digitsValue (ds : List Char) : Nat :=
  ds.foldl (fun n c => 10 * n + (c.toNat - '0'.toNat)) 0

/-- A whole number with an optional sign. -/
def signedValue : List Char → Int
  | '-' :: ds => -(digitsValue ds : Int)
  | '+' :: ds => digitsValue ds
  | ds => digitsValue ds

/-- Beyond this many places in front of the point everything is infinite, behind it zero. -/
def placeLimit : Int := 400

/-- The double nearest to `significand · 10 ^ exponent`. -/
def nearestFloat (significand : Nat) (exponent : Int) : Float :=
  let leading : Int := (Nat.toDigits 10 significand).length + exponent
  if significand == 0 || leading < -placeLimit then 0.0
  else if leading > placeLimit then 1.0 / 0.0
  else Float.ofScientific significand (decide (exponent < 0)) exponent.natAbs

/-- The double nearest to an unsigned decimal. -/
def readUnsigned (text : List Char) : Float :=
  let isMark (c : Char) : Bool := c == 'e' || c == 'E'
  let number := text.takeWhile (!isMark ·)
  let exponent := signedValue ((text.dropWhile (!isMark ·)).drop 1)
  let whole := number.takeWhile (· != '.')
  let fraction := (number.dropWhile (· != '.')).drop 1
  nearestFloat (digitsValue (whole ++ fraction)) (exponent - fraction.length)

def readFloat : List Char → Float
  | '-' :: text => -readUnsigned text
  | text => readUnsigned text

end SampleTypes.Decimal
