import GoalDirected.Decimal.Positional
import GoalDirected.Decimal.Reading
import GoalDirected.Text.Blank

/-!
# Numbers of the language

**Input.** Doubles and texts.

**Results.** `Number.text` is the language's own text of a number, `Number.ofText?` reads one between
blanks, `Number.remainder` is the exact remainder with the sign of the dividend, and
`Number.truncated` is the 64-bit integer that a subscript stands for.
-/

namespace GoalDirected
namespace Number

section Defs

/-- The text of a number: positional, and a zero has no sign. -/
def text (x : Float) : String :=
  if x == 0.0 then "0" else Decimal.positional x

/-- The number that a text stands for, blanks around it apart. -/
def ofText? (s : String) : Option Float :=
  Decimal.read? (Text.trim s.toList)

/-- The integer part of a finite double, towards zero. -/
def integerPart (f : Decimal.Finite) : Int :=
  let magnitude : Nat :=
    if 0 ≤ f.exponent then f.mantissa * Nat.pow 2 f.exponent.toNat
    else f.mantissa / Nat.pow 2 (-f.exponent).toNat
  if f.negative then -magnitude else magnitude

/-- The integer part of a number as a 64-bit integer; numbers outside its range go to its ends, and
a double that is not a number goes to zero. -/
def truncated (x : Float) : Int :=
  match Decimal.Binary.ofFloat x with
  | .notANumber => 0
  | .infinite negative => if negative then -0x8000000000000000 else 0x7FFFFFFFFFFFFFFF
  | .finite f => max (-0x8000000000000000) (min 0x7FFFFFFFFFFFFFFF (integerPart f))

theorem truncated_bounds (x : Float) :
    -0x8000000000000000 ≤ truncated x ∧ truncated x ≤ 0x7FFFFFFFFFFFFFFF := by
  unfold truncated
  split
  · decide
  · split <;> decide
  · omega

/-- The natural number below or at a number, at most the largest 64-bit one; negative numbers and
doubles that are not numbers give zero. -/
def count (x : Float) : Nat :=
  x.toUInt64.toNat

/-- The remainder of two finite magnitudes, an exact multiple of the smaller unit. -/
def finiteRemainder (a b : Decimal.Finite) : Decimal.Finite :=
  let unit := min a.exponent b.exponent
  let x := a.mantissa * Nat.pow 2 (a.exponent - unit).toNat
  let y := b.mantissa * Nat.pow 2 (b.exponent - unit).toNat
  ⟨a.negative, x % y, unit⟩

/-- The remainder of a division towards zero. -/
def remainder (a b : Float) : Float :=
  match Decimal.Binary.ofFloat a, Decimal.Binary.ofFloat b with
  | .finite x, .finite y =>
      if y.mantissa = 0 then 0.0 / 0.0 else (finiteRemainder x y).toFloat
  | .finite _, .infinite _ => a
  | _, _ => 0.0 / 0.0

/-- The larger of two numbers; a double that is not a number yields to the other one. -/
def larger (a b : Float) : Float :=
  if a.isNaN then b else if b.isNaN then a else if a < b then b else a

/-- The smaller of two numbers; a double that is not a number yields to the other one. -/
def smaller (a b : Float) : Float :=
  if a.isNaN then b else if b.isNaN then a else if b < a then b else a

end Defs

end Number
end GoalDirected
