import GoalDirected.Decimal.Shortest

/-!
# Positional notation

**Input.** A double.

**Algorithm.** The shortest digits are written without an exponent: zeros fill the places between
the digits and the point, and no point is written after a whole number.

**Results.** `positional` is the text of every double; a negative zero keeps its sign.
-/

namespace GoalDirected
namespace Decimal

section Defs

def zeros (n : Nat) : List Char :=
  List.replicate n '0'

/-- The digits of a magnitude with its point in place. -/
def Digits.layout (d : Digits) : List Char :=
  let cs := Nat.toDigits 10 d.digits
  if 0 ≤ d.exponent then
    if d.digits = 0 then ['0'] else cs ++ zeros d.exponent.toNat
  else
    let places := (-d.exponent).toNat
    if places < cs.length then
      cs.take (cs.length - places) ++ '.' :: cs.drop (cs.length - places)
    else
      '0' :: '.' :: zeros (places - cs.length) ++ cs

def signed (negative : Bool) (cs : List Char) : List Char :=
  if negative then '-' :: cs else cs

/-- The shortest text of a double that reads back as the same double, without an exponent. -/
def positional (x : Float) : String :=
  match Binary.ofFloat x with
  | .notANumber => "NaN"
  | .infinite negative => .ofList (signed negative "inf".toList)
  | .finite f =>
      if f.mantissa = 0 then .ofList (signed f.negative ['0'])
      else .ofList (signed f.negative (shortest f.mantissa f.exponent).layout)

end Defs

end Decimal
end GoalDirected
