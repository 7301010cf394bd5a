/-!
# Shortest decimals

A binary number `significand · 2 ^ exponent` stands for every real that rounds to it. Of the decimals
in that interval the shortest one is chosen, and of two equally short ones the nearer.

The search is exact: the interval is scaled to natural numbers, and for each count of digits the two
neighbours of the value on that decimal grid are tried.
-/

namespace SampleTypes.Decimal

/-- The decimal `digits · 10 ^ exponent`. -/
structure Scientific where
  digits : Nat
  exponent : Int
deriving DecidableEq, Repr

/-- A positive binary number `significand · 2 ^ exponent`. `narrow` says that the next number below is
half as far away as the next one above. -/
structure Binary where
  significand : Nat
  exponent : Int
  narrow : Bool
deriving DecidableEq, Repr

namespace Binary

/-- The binary number that the bits of a positive finite double say. -/
def ofBits (bits : Nat) : Binary :=
  let fraction : Nat := bits % Nat.pow 2 52
  let field : Nat := bits / Nat.pow 2 52 % Nat.pow 2 11
  if field == 0 then
    ⟨fraction, -1074, false⟩
  else
    ⟨Nat.pow 2 52 + fraction, (field : Int) - 1075, fraction == 0 && field != 1⟩

/-- The value in quarters of its last binary place. -/
def quarters (b : Binary) : Nat :=
  4 * b.significand

/-- The least real that rounds to the number, in quarters. -/
def lowest (b : Binary) : Nat :=
  b.quarters - (if b.narrow then 1 else 2)

/-- The greatest real that rounds to the number, in quarters. -/
def highest (b : Binary) : Nat :=
  b.quarters + 2

/-- The ends of the interval belong to it when the significand is even. -/
def closed (b : Binary) : Bool :=
  b.significand % 2 == 0

/-- A quarter, measured in units of `10 ^ grid`, as a fraction. -/
def scale (b : Binary) (grid : Int) : Nat × Nat :=
  let place := b.exponent - 2
  (Nat.pow 2 place.toNat * Nat.pow 10 (-grid).toNat,
    Nat.pow 2 (-place).toNat * Nat.pow 10 grid.toNat)

/-- The real `digits · 10 ^ grid` rounds to the number. -/
def admits (b : Binary) (grid : Int) (digits : Nat) : Bool :=
  let (num, den) := b.scale grid
  if b.closed then
    b.lowest * num ≤ digits * den && digits * den ≤ b.highest * num
  else
    b.lowest * num < digits * den && digits * den < b.highest * num

def nearest (b : Binary) (grid : Int) : Nat :=
  let (num, den) := b.scale grid
  let below := b.quarters * num / den
  let past := 2 * (b.quarters * num % den)
  if past < den then below
  else if past > den then below + 1
  else if below % 2 == 0 then below
  else below + 1

/-- A multiple of `10 ^ grid` that rounds to the number, the nearest one if it does. -/
def onGrid? (b : Binary) (grid : Int) : Option Nat :=
  let (num, den) := b.scale grid
  let below := b.quarters * num / den
  [b.nearest grid, below, below + 1].find? (b.admits grid)

def magnitude (b : Binary) : Int :=
  let (num, den) := b.scale 0
  let value := b.quarters * num
  if den ≤ value then
    (Nat.toDigits 10 (value / den)).length - 1
  else
    match (List.range 330).find? fun places => den ≤ value * Nat.pow 10 places with
    | some places => -places
    | none => -330

end Binary

/-- Moves trailing zeros of the digits into the exponent. -/
def Scientific.normalize (digits : Nat) (exponent : Int) : Scientific :=
  if h : digits ≠ 0 ∧ digits % 10 = 0 then
    normalize (digits / 10) (exponent + 1)
  else
    ⟨digits, exponent⟩
termination_by digits
decreasing_by omega

/-- The shortest decimal that rounds to the number; seventeen digits always suffice. -/
def shortest (b : Binary) : Scientific :=
  let top := b.magnitude
  let found := (List.range 17).findSome? fun (places : Nat) =>
    (b.onGrid? (top - places)).map fun digits => (digits, top - (places : Int))
  match found with
  | some (digits, grid) => .normalize digits grid
  | none => .normalize (b.nearest (top - 16)) (top - 16)

end SampleTypes.Decimal
