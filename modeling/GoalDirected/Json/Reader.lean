import GoalDirected.Decimal.Scaled
import GoalDirected.Json.Basic

/-!
# Reading JSON

**Input.** A text.

**Algorithm.** Recursive descent over the characters. Each call that opens a value has read at least
one character of it, so the number of characters bounds the depth; that bound is the fuel, and the
public functions hide it.

**Results.** `Json.parse?` accepts exactly one value with blanks around it. A part that stands for
nothing is kept as such, so that it does no harm where nobody looks; `Json.parseMeaningful?` refuses
it wherever it is.
-/

namespace GoalDirected
namespace Json

section Defs

def isSpace (c : Char) : Bool :=
  c = ' ' || c = '\t' || c = '\n' || c = '\r'

def skipSpace (cs : List Char) : List Char :=
  cs.dropWhile isSpace

def hexValue? (c : Char) : Option Nat :=
  if c.isDigit then some (c.toNat - '0'.toNat)
  else if 'a' ≤ c ∧ c ≤ 'f' then some (c.toNat - 'a'.toNat + 10)
  else if 'A' ≤ c ∧ c ≤ 'F' then some (c.toNat - 'A'.toNat + 10)
  else none

/-- The code unit of four hexadecimal digits. -/
def unit? (a b c d : Char) : Option Nat := do
  let a ← hexValue? a
  let b ← hexValue? b
  let c ← hexValue? c
  let d ← hexValue? d
  return ((a * 16 + b) * 16 + c) * 16 + d

/-- The character of an escape with one letter. -/
def shortEscape? : Char → Option Char
  | '"' => some '"'
  | '\\' => some '\\'
  | '/' => some '/'
  | 'b' => some '\x08'
  | 'f' => some '\x0c'
  | 'n' => some '\n'
  | 'r' => some '\r'
  | 't' => some '\t'
  | _ => none

/-- The character of a pair of surrogate code units. -/
def pairChar? (high low : Nat) : Option Char :=
  if 0xdc00 ≤ low ∧ low ≤ 0xdfff then
    some (Char.ofNat (0x10000 + (high - 0xd800) * 0x400 + (low - 0xdc00)))
  else none

/-- A text that is being read: its characters in reverse, and whether all of them stand for
something. -/
structure Reading where
  chars : List Char := []
  meaningful : Bool := true

namespace Reading

def push (r : Reading) (c : Char) : Reading :=
  { r with chars := c :: r.chars }

/-- Notes half of a surrogate pair that stands alone. -/
def spoil (r : Reading) : Reading :=
  { r with meaningful := false }

def text? (r : Reading) : Option String :=
  if r.meaningful then some (.ofList r.chars.reverse) else none

end Reading

/-- The rest of a string after its opening quote. The text is none if half of a surrogate pair stands
alone in it. -/
def string? (fuel : Nat) (r : Reading) (cs : List Char) : Option (Option String × List Char) :=
  match fuel, cs with
  | 0, _ => none
  | _, [] => none
  | _, '"' :: rest => some (r.text?, rest)
  | fuel + 1, '\\' :: 'u' :: a :: b :: c :: d :: rest =>
      match unit? a b c d with
      | none => none
      | some u =>
          if 0xd800 ≤ u ∧ u ≤ 0xdbff then
            match rest with
            | '\\' :: 'u' :: a :: b :: c :: d :: more =>
                match (unit? a b c d).bind (pairChar? u) with
                | some ch => string? fuel (r.push ch) more
                | none => string? fuel r.spoil rest
            | _ => string? fuel r.spoil rest
          else if 0xdc00 ≤ u ∧ u ≤ 0xdfff then string? fuel r.spoil rest
          else string? fuel (r.push (Char.ofNat u)) rest
  | fuel + 1, '\\' :: c :: rest =>
      match shortEscape? c with
      | some ch => string? fuel (r.push ch) rest
      | none => none
  | fuel + 1, c :: rest =>
      if c.toNat < 0x20 ∨ c = '\\' then none else string? fuel (r.push c) rest

/-- The class of a number without a fraction and an exponent, which finds room in a significand. -/
def integer (negative : Bool) (n : Nat) : Number :=
  if negative then
    if n = 0 ∨ 0x8000000000000000 < n then .real (-(Decimal.nearest n 0)) else .negative n
  else .natural n

/-- The parts of the text of a number. -/
structure Numeral where
  negative : Bool
  whole : List Char
  /-- The digits after a point, if there is one. -/
  fraction : Option (List Char)
  /-- The digits after an exponent mark, if there is one, and whether a minus stands before them. -/
  power : Option (Bool × List Char)

/-- A number at the front, which starts with an optional minus, has no superfluous zero in front, and
has digits after its point and after its exponent mark. -/
def numeral? (cs : List Char) : Option (Numeral × List Char) :=
  let (negative, cs) := match cs with
    | '-' :: rest => (true, rest)
    | _ => (false, cs)
  let whole := cs.takeWhile Char.isDigit
  let rest := cs.dropWhile Char.isDigit
  let point := rest.head? == some '.'
  let fraction := if point then (rest.drop 1).takeWhile Char.isDigit else []
  let rest := if point then (rest.drop 1).dropWhile Char.isDigit else rest
  let mark := rest.head? == some 'e' || rest.head? == some 'E'
  let (minus, power) := if mark then Decimal.splitSign (rest.drop 1) else (false, [])
  let digits := power.takeWhile Char.isDigit
  let rest := if mark then power.dropWhile Char.isDigit else rest
  if whole.isEmpty || (whole.head? == some '0' && whole.length != 1) then none
  else if (point && fraction.isEmpty) || (mark && digits.isEmpty) then none
  else
    some
      ({ negative, whole
         fraction := if point then some fraction else none
         power := if mark then some (minus, digits) else none }, rest)

/-- The number of a text; none if it is above all doubles. -/
def Numeral.value? (n : Numeral) : Option Number :=
  let (significand, taken) := Decimal.accept 0 n.whole
  let left := n.whole.length - taken
  let real (x : Float) : Number := .real (if n.negative then -x else x)
  match n.fraction, n.power, left with
  | none, none, 0 => some (integer n.negative significand)
  | fraction, power, left =>
      let (significand, places) := Decimal.accept significand (fraction.getD [])
      let (minus, digits) := power.getD (false, [])
      let shift := (left : Int) - places
      (Decimal.withExponent? significand shift minus (Decimal.digitsValue digits)).map real

def number? (cs : List Char) : Option (Json × List Char) :=
  (numeral? cs).map fun (n, rest) =>
    (match n.value? with
      | some x => .number x
      | none => .meaningless, rest)

/-- A literal word. -/
def word? (word : String) (value : Json) (cs : List Char) : Option (Json × List Char) :=
  if word.toList.isPrefixOf cs then some (value, cs.drop word.length) else none

/-- The number of arrays and objects that a part may stand in. -/
def depthLimit : Nat := 127

/-- An array or an object with `room` for more of them inside. -/
def collection (room : Nat) (j : Json) : Json :=
  if room = 0 then .meaningless else j

/-- An object, unless one of its keys stands for nothing. -/
def objectOf (members : List (Option String × Json)) : Json :=
  match members.mapM fun (key, item) => key.map fun key => (key, item) with
  | some members => .object members
  | none => .meaningless

mutual

/-- One value, blanks before it apart, with `room` for nested arrays and objects. -/
def value? (fuel room : Nat) (cs : List Char) : Option (Json × List Char) :=
  match fuel with
  | 0 => none
  | fuel + 1 =>
      match skipSpace cs with
      | '"' :: rest =>
          (string? fuel {} rest).map fun (s, rest) => ((s.map .text).getD .meaningless, rest)
      | '[' :: rest =>
          match skipSpace rest with
          | ']' :: rest => some (collection room (.array []), rest)
          | rest =>
              (items? fuel (room - 1) [] rest).map fun (items, rest) =>
                (collection room (.array items), rest)
      | '\x7b' :: rest =>
          match skipSpace rest with
          | '\x7d' :: rest => some (collection room (.object []), rest)
          | rest =>
              (members? fuel (room - 1) [] rest).map fun (members, rest) =>
                (collection room (objectOf members), rest)
      | 't' :: rest => word? "true" (.bool true) ('t' :: rest)
      | 'f' :: rest => word? "false" (.bool false) ('f' :: rest)
      | 'n' :: rest => word? "null" .null ('n' :: rest)
      | rest => number? rest

/-- The items of an array after its opening bracket, at least one. -/
def items? (fuel room : Nat) (read : List Json) (cs : List Char) :
    Option (List Json × List Char) :=
  match fuel with
  | 0 => none
  | fuel + 1 =>
      match value? fuel room cs with
      | none => none
      | some (item, rest) =>
          match skipSpace rest with
          | ',' :: rest => items? fuel room (item :: read) rest
          | ']' :: rest => some ((item :: read).reverse, rest)
          | _ => none

/-- The members of an object after its opening brace, at least one. -/
def members? (fuel room : Nat) (read : List (Option String × Json)) (cs : List Char) :
    Option (List (Option String × Json) × List Char) :=
  match fuel with
  | 0 => none
  | fuel + 1 =>
      match skipSpace cs with
      | '"' :: rest =>
          match string? fuel {} rest with
          | none => none
          | some (key, rest) =>
              match skipSpace rest with
              | ':' :: rest =>
                  match value? fuel room rest with
                  | none => none
                  | some (item, rest) =>
                      match skipSpace rest with
                      | ',' :: rest => members? fuel room ((key, item) :: read) rest
                      | '\x7d' :: rest => some (((key, item) :: read).reverse, rest)
                      | _ => none
              | _ => none
      | _ => none

end

/-- The tree of a whole text, in which parts may stand for nothing. -/
def parse? (s : String) : Option Json :=
  let cs := s.toList
  match value? (2 * cs.length + 2) depthLimit cs with
  | some (value, rest) => if (skipSpace rest).isEmpty then some value else none
  | none => none

/-- The tree of a whole text, each part of which stands for something. -/
def parseMeaningful? (s : String) : Option Json :=
  (parse? s).filter isMeaningful

end Defs

end Json
end GoalDirected
