/-!
# Doubles as exact binary fractions

**Input.** A double, seen through its sixty-four bits.

**Algorithm.** The bits split into a sign, an exponent field and a fraction field. A finite double
is `mantissa * 2 ^ exponent` with a sign, exactly; the two other kinds are the infinities and the
numbers that are not numbers.

**Results.** `Binary.ofFloat` reads the fields, `Binary.toFloat` puts an exact fraction back
together. Everything else that needs exact arithmetic on doubles is stated on `Binary.Finite`.
-/

namespace GoalDirected
namespace Decimal

section Defs

/-- A finite double: `mantissa * 2 ^ exponent`, negated when `negative` holds. -/
structure Finite where
  negative : Bool
  mantissa : Nat
  exponent : Int
deriving DecidableEq, Repr

/-- A double by its kind. -/
inductive Binary where
  | notANumber
  | infinite (negative : Bool)
  | finite (value : Finite)
deriving DecidableEq, Repr

/-- The exponent of the smallest positive double. -/
def leastExponent : Int := -1074

/-- The first mantissa that has all fifty-three bits. -/
def hiddenBit : Nat := 0x10000000000000

/-- The kind and the exact value that the bits of a double stand for. -/
def Binary.ofBits (bits : Nat) : Binary :=
  let negative := bits / 0x8000000000000000 % 2 == 1
  let field := bits / hiddenBit % 2048
  let fraction := bits % hiddenBit
  if field = 2047 then
    if fraction = 0 then .infinite negative else .notANumber
  else if field = 0 then
    .finite ⟨negative, fraction, leastExponent⟩
  else
    .finite ⟨negative, hiddenBit + fraction, leastExponent + (field - 1 : Nat)⟩

/-- The kind and the exact value of a double. -/
def Binary.ofFloat (x : Float) : Binary :=
  .ofBits x.toBits.toNat

/-- The double with the given sign and magnitude, for a magnitude that some double has. -/
def Finite.toFloat (f : Finite) : Float :=
  let magnitude := (Float.ofNat f.mantissa).scaleB f.exponent
  if f.negative then -magnitude else magnitude

end Defs

end Decimal
end GoalDirected
