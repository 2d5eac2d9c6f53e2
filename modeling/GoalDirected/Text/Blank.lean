/-!
# Blank characters

**Input.** A character, or a text.

**Results.** `isBlank` is the property of being white space in the Unicode standard, twenty-five
characters in all; `trim` removes blanks from both ends of a text.
-/

namespace GoalDirected
namespace Text

section Defs

/-- The ranges of the white-space characters. -/
def blankRanges : List (Nat × Nat) :=
  [(0x9, 0xd), (0x20, 0x20), (0x85, 0x85), (0xa0, 0xa0), (0x1680, 0x1680), (0x2000, 0x200a),
    (0x2028, 0x2029), (0x202f, 0x202f), (0x205f, 0x205f), (0x3000, 0x3000)]

def isBlank (c : Char) : Bool :=
  blankRanges.any fun r => r.1 ≤ c.toNat && c.toNat ≤ r.2

/-- A text without the blanks at its two ends. -/
def trim (cs : List Char) : List Char :=
  ((cs.dropWhile isBlank).reverse.dropWhile isBlank).reverse

end Defs

end Text
end GoalDirected
