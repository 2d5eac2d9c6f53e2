import GoalDirected.Decimal.Reading

/-!
# Significands of sixty-four bits

**Input.** The digits of a decimal, and a power of ten.

**Algorithm.** Digits are taken into a natural number as long as it stays below `2 ^ 64`; digits that
find no room count only as places. The number is rounded to a double, and the double is multiplied or
divided by a power of ten that is a double itself. There is one rounding for each of these steps, so
the result may differ from the nearest double in its last bits.

**Results.** `accept` takes digits in, and `scaled?` is the double of a significand and a power of ten;
a magnitude above all doubles has none.
-/

namespace GoalDirected
namespace Decimal

section Defs

/-- The first natural number that a significand cannot be. -/
def significandBound : Nat := 0x10000000000000000

/-- Takes digits into a significand up to the first one that finds no room; also counts them. -/
def accept : Nat → List Char → Nat × Nat
  | significand, [] => (significand, 0)
  | significand, c :: rest =>
      let next := 10 * significand + (c.toNat - '0'.toNat)
      if next < significandBound then
        let (significand, taken) := accept next rest
        (significand, taken + 1)
      else (significand, 0)

/-- The largest power of ten below all of whose successors a double is infinite. -/
def largestPower : Nat := 308

/-- A power of ten as a double. -/
def powerOfTen (n : Nat) : Float :=
  nearest 1 n

/-- Divides by `10 ^ places`, in steps that a double can hold, until nothing is left. -/
def divided (x : Float) (places : Nat) : Float :=
  if places ≤ largestPower then x / powerOfTen places
  else if x == 0.0 then x
  else divided (x / powerOfTen largestPower) (places - largestPower)
termination_by places
decreasing_by simp only [largestPower] at *; omega

/-- The double of `significand * 10 ^ exponent`, for a significand of sixty-four bits. -/
def scaled? (significand : Nat) (exponent : Int) : Option Float :=
  let x := nearest significand 0
  if exponent < 0 then some (divided x (-exponent).toNat)
  else if exponent.toNat ≤ largestPower then
    let y := x * powerOfTen exponent.toNat
    if y.isFinite then some y else none
  else if significand = 0 then some x
  else none

/-- The largest exponent that is looked at. -/
def exponentBound : Nat := 0x7fffffff

/-- The double of a significand with `shift` more places and a written exponent. An exponent out of
bounds leaves nothing of the magnitude, or more than a double can hold. -/
def withExponent? (significand : Nat) (shift : Int) (negative : Bool) (exponent : Nat) :
    Option Float :=
  if exponentBound < exponent then
    if significand = 0 ∨ negative then some 0.0 else none
  else scaled? significand (if negative then shift - exponent else shift + exponent)

end Defs

end Decimal
end GoalDirected
