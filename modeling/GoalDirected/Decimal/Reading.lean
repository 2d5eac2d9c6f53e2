import GoalDirected.Decimal.Binary

/-!
# Reading decimals

**Input.** A list of characters.

**Algorithm.** A number is an optional sign, digits with at most one point among or around them (at
least one digit in all), and an optional exponent. The words `inf`, `infinity` and `nan` stand for
themselves in any case. The value is the double nearest to the decimal.

**Results.** `read?` accepts exactly these texts.
-/

namespace GoalDirected
namespace Decimal

section Defs

/-- The value of a list of decimal digits. -/
def digitsValue (cs : List Char) : Nat :=
  cs.foldl (fun n c => 10 * n + (c.toNat - '0'.toNat)) 0

/-- The double nearest to `mantissa * 10 ^ exponent`. Magnitudes far outside the range of doubles are
decided by their number of digits alone. -/
def nearest (mantissa : Nat) (exponent : Int) : Float :=
  let leading := ((Nat.toDigits 10 mantissa).length : Int) + exponent
  if mantissa = 0 ∨ leading < -330 then 0.0
  else if 320 < leading then 1.0 / 0.0
  else if 0 ≤ exponent then Float.ofScientific (mantissa * Nat.pow 10 exponent.toNat) false 0
  else Float.ofScientific mantissa true (-exponent).toNat

/-- Splits an optional sign off; `true` stands for a minus. -/
def splitSign : List Char → Bool × List Char
  | '-' :: rest => (true, rest)
  | '+' :: rest => (false, rest)
  | rest => (false, rest)

/-- The exponent after its mark, which has to be all that is left. -/
def readExponent? (cs : List Char) : Option Int :=
  match splitSign cs with
  | (negative, ds) =>
      if ds.isEmpty || !ds.all Char.isDigit then none
      else if negative then some (-(digitsValue ds : Int)) else some (digitsValue ds)

/-- An unsigned decimal as its digits and a power of ten. -/
def readMagnitude? (cs : List Char) : Option (Nat × Int) :=
  let whole := cs.takeWhile Char.isDigit
  let rest := cs.dropWhile Char.isDigit
  let (fraction, tail) :=
    match rest with
    | '.' :: more => (more.takeWhile Char.isDigit, more.dropWhile Char.isDigit)
    | _ => ([], rest)
  if whole.isEmpty && fraction.isEmpty then none
  else
    let digits := digitsValue (whole ++ fraction)
    match tail with
    | [] => some (digits, -(fraction.length : Int))
    | c :: more =>
        if c = 'e' ∨ c = 'E' then
          (readExponent? more).map fun e => (digits, e - fraction.length)
        else none

/-- The words for the doubles that are not finite. -/
def readWord? (cs : List Char) : Option Float :=
  match String.ofList (cs.map Char.toLower) with
  | "inf" => some (1.0 / 0.0)
  | "infinity" => some (1.0 / 0.0)
  | "nan" => some (0.0 / 0.0)
  | _ => none

/-- The double that a whole text stands for. -/
def read? (cs : List Char) : Option Float :=
  let (negative, rest) := splitSign cs
  let magnitude :=
    match readWord? rest with
    | some x => some x
    | none => (readMagnitude? rest).map fun (m, e) => nearest m e
  magnitude.map fun x => if negative then -x else x

end Defs

end Decimal
end GoalDirected
