import GoalDirected.Decimal.Binary

/-!
# The fewest digits that read back

**Input.** A positive magnitude `mantissa * 2 ^ exponent`.

**Algorithm.** The reals that round to the magnitude form an interval, whose ends belong to it
exactly when the mantissa is even. For one digit, two digits and so on up to seventeen, the two
neighbours of the magnitude on the decimal grid of that many digits are compared with the ends.
The first grid with a neighbour inside wins; of two neighbours the nearer is taken, and of two
equally near ones the larger. All comparisons are between natural numbers.

**Results.** `shortest` gives the digits as one natural number with a power of ten, without
trailing zeros.
-/

namespace GoalDirected
namespace Decimal

section Defs

/-- A decimal magnitude `digits * 10 ^ exponent`. -/
structure Digits where
  digits : Nat
  exponent : Int
deriving DecidableEq, Repr

/-- The number of decimal digits of a natural number; none for zero. -/
def digitCount (n : Nat) : Nat :=
  if n = 0 then 0 else (Nat.toDigits 10 n).length

/-- The exponent of the largest power of ten that is at most `num / den`. -/
def leadingExponent (num den : Nat) : Int :=
  if den ≤ num then (digitCount (num / den) : Int) - 1
  else -(digitCount ((den + num - 1) / num - 1) : Int)

/-- The rounding interval of a magnitude, in quarters of its unit `2 ^ exponent`. Below a power of
two the neighbouring double is half as far away. -/
structure Interval where
  lower : Nat
  value : Nat
  upper : Nat
  closed : Bool

def Interval.of (mantissa : Nat) (exponent : Int) : Interval where
  lower :=
    if mantissa = hiddenBit ∧ leastExponent < exponent then 4 * mantissa - 1
    else 4 * mantissa - 2
  value := 4 * mantissa
  upper := 4 * mantissa + 2
  closed := mantissa % 2 == 0

def Interval.contains (i : Interval) (lower x upper : Nat) : Bool :=
  if i.closed then lower ≤ x && x ≤ upper else lower < x && x < upper

/-- The neighbours of the magnitude on the grid of multiples of `10 ^ grid`, when one of them lies
in the interval. Both sides are scaled so that the comparison is between natural numbers. -/
def onGrid? (i : Interval) (exponent grid : Int) : Option Digits :=
  let unit := exponent - 2
  let scale := Nat.pow 2 unit.toNat * Nat.pow 10 (-grid).toNat
  let step := Nat.pow 10 grid.toNat * Nat.pow 2 (-unit).toNat
  let value := i.value * scale
  let below := value / step
  let above := below + 1
  let inside (k : Nat) : Bool := i.contains (i.lower * scale) (k * step) (i.upper * scale)
  let nearerBelow := value - below * step < above * step - value
  match inside below, inside above with
  | true, true => some ⟨if nearerBelow then below else above, grid⟩
  | true, false => some ⟨below, grid⟩
  | false, true => some ⟨above, grid⟩
  | false, false => none

/-- The first grid with a point in the interval, from `leading` down through `fuel` further
digits. -/
def firstGrid (i : Interval) (exponent leading : Int) : Nat → Digits
  | 0 => (onGrid? i exponent leading).getD ⟨0, 0⟩
  | fuel + 1 =>
      match onGrid? i exponent leading with
      | some d => d
      | none => firstGrid i exponent (leading - 1) fuel

/-- Moves trailing zeros of the digits into the exponent, at most `fuel` of them. -/
def dropZeros : Nat → Digits → Digits
  | 0, d => d
  | fuel + 1, d =>
      if d.digits ≠ 0 ∧ d.digits % 10 = 0 then dropZeros fuel ⟨d.digits / 10, d.exponent + 1⟩
      else d

/-- The shortest decimal that reads back as `mantissa * 2 ^ exponent`. -/
def shortest (mantissa : Nat) (exponent : Int) : Digits :=
  let leading := leadingExponent (mantissa * Nat.pow 2 exponent.toNat) (Nat.pow 2 (-exponent).toNat)
  dropZeros 18 (firstGrid (.of mantissa exponent) exponent leading 17)

end Defs

end Decimal
end GoalDirected
