import GoalDirected.Config.Toml
import GoalDirected.Config.Tree
import GoalDirected.Decimal.Positional
import GoalDirected.Json.Basic

/-!
# Settings

**Input.** Settings by name, each from a configuration file or from a variable of the environment.

**Algorithm.** A later assignment hides an earlier one. Names do not depend on case. A setting is
converted when it is looked at, and not when it is given: numbers and truth values have a text, and
texts and truth values may stand for numbers.

**Results.** `Setting.toText?` and `Setting.toCount?` are the two conversions; `Settings.assign` is
the assignment.
-/

namespace GoalDirected

section Defs

/-- A setting as it was given. -/
inductive Setting where
  | nothing
  | bool (b : Bool)
  | integer (n : Int)
  | real (x : Float)
  | text (s : String)
  /-- A list or a table, which no option takes. -/
  | composite

/-- Reads a whole number below `2 ^ 64`, with an optional plus sign. -/
def readCount? (s : String) : Option Nat :=
  let digits := match s.toList with
    | '+' :: rest => rest
    | cs => cs
  let n := Decimal.digitsValue digits
  if digits.isEmpty || !digits.all Char.isDigit || 0x10000000000000000 ≤ n then none else some n

namespace Setting

/-- The text that a setting stands for. -/
def toText? : Setting → Option String
  | .text s => some s
  | .bool b => some (if b then "true" else "false")
  | .integer n => some (toString n)
  | .real x => some (Decimal.positional x)
  | .nothing => none
  | .composite => none

/-- The number that a word stands for. -/
def wordCount? (s : String) : Option Nat :=
  if ["true", "on", "yes"].contains s then some 1
  else if ["false", "off", "no"].contains s then some 0
  else none

/-- The natural number that a setting stands for. A double is rounded, a half away from zero, and
brought into the range of 64 bits. -/
def toCount? : Setting → Option Nat
  | .integer n => if 0 ≤ n then some n.toNat else none
  | .bool b => some (if b then 1 else 0)
  | .real x => some x.round.toUInt64.toNat
  | .text s => (wordCount? s.toLower).or (readCount? s)
  | .nothing => none
  | .composite => none

/-! ## Sources -/

/-- A part of a TOML document; a table without entries sets nothing. -/
def ofToml? : Toml.Value → Option Setting
  | .text s => some (.text s)
  | .integer n => some (.integer n)
  | .real x => some (.real x)
  | .bool b => some (.bool b)
  | .moment s => some (.text s)
  | .array _ => some .composite
  | .table [] => none
  | .table _ => some .composite

/-- A part of a JSON document; an object without members sets nothing. -/
def ofJson? : Json → Option Setting
  | .meaningless => none
  | .null => some .nothing
  | .bool b => some (.bool b)
  | .number (.natural n) =>
      some (if n < 0x8000000000000000 then .integer n else .real (Decimal.nearest n 0))
  | .number (.negative n) => some (.integer (-n))
  | .number (.real x) => some (.real x)
  | .text s => some (.text s)
  | .array _ => some .composite
  | .object [] => none
  | .object _ => some .composite

/-- A part of a document of another format; a table without entries sets nothing. -/
def ofTree? : Tree → Option Setting
  | .nothing => some .nothing
  | .bool b => some (.bool b)
  | .integer n => some (.integer n)
  | .real x => some (.real x)
  | .text s => some (.text s)
  | .list _ => some .composite
  | .table [] => none
  | .table _ => some .composite

/-- Reads an integer of 64 bits. -/
def readInteger? (s : String) : Option Int :=
  let (negative, digits) := Decimal.splitSign s.toList
  let n : Int := Decimal.digitsValue digits
  let n := if negative then -n else n
  if digits.isEmpty || !digits.all Char.isDigit then none
  else if n < -0x8000000000000000 || 0x8000000000000000 ≤ n then none
  else some n

/-- The value of a variable: a truth value, an integer, a double, or else a text. -/
def ofVariable (s : String) : Setting :=
  if s.toLower = "true" then .bool true
  else if s.toLower = "false" then .bool false
  else
    match readInteger? s with
    | some n => .integer n
    | none =>
        match Decimal.read? s.toList with
        | some x => .real x
        | none => .text s

end Setting

/-! ## Names -/

/-- Settings by name, the last assignment first. -/
abbrev Settings := List (String × Setting)

namespace Settings

/-- The lower case of a character of a name. The Kelvin sign is the only character outside ASCII with
an ASCII letter as its lower case; every other one stays outside the names of options. -/
def lowerChar (c : Char) : Char :=
  if c = '\u212a' then 'k' else c.toLower

def lower (name : String) : String :=
  .ofList (name.toList.map lowerChar)

/-- A character of a part of a name. -/
def isNameChar (c : Char) : Bool :=
  c.isAlphanum || c = ' ' || c = '_' || c = '-'

/-- The rest after an index of 64 bits with blanks around it and its closing bracket. -/
def afterIndex? (cs : List Char) : Option (List Char) :=
  let isBlank (c : Char) : Bool := c = ' ' || c = '\t'
  let cs := cs.dropWhile isBlank
  let (negative, digits) := match cs with
    | '-' :: rest => (true, rest)
    | _ => (false, cs)
  let index := digits.takeWhile Char.isDigit
  let bound := if negative then 0x8000000000000001 else 0x8000000000000000
  match (digits.drop index.length).dropWhile isBlank with
  | ']' :: rest => if index.isEmpty || bound ≤ Decimal.digitsValue index then none else some rest
  | _ => none

/-- Whether a text is a sequence of parts: `.name` or `[index]`. -/
def isPath : Nat → List Char → Bool
  | _, [] => true
  | 0, _ => false
  | fuel + 1, '.' :: rest =>
      (rest.head?.any isNameChar) && isPath fuel (rest.dropWhile isNameChar)
  | fuel + 1, '[' :: rest => (afterIndex? rest).any (isPath fuel)
  | _, _ => false

/-- The setting that a name in lower case speaks of a part of. -/
def whole? (name : String) : Option String :=
  let cs := name.toList
  let head := cs.takeWhile isNameChar
  let rest := cs.drop head.length
  if head.isEmpty || rest.isEmpty || !isPath rest.length rest then none else some (.ofList head)

/-- Assigns a setting, or a part of one: what has parts is composite. -/
def assign (settings : Settings) (name : String) (given : Option Setting) : Settings :=
  let name := lower name
  match whole? name, given with
  | some name, _ => (name, .composite) :: settings
  | none, some v => (name, v) :: settings
  | none, none => settings

/-- Assigns settings one after the other. -/
def assignAll (settings : Settings) : List (String × Option Setting) → Settings
  | [] => settings
  | (name, v) :: rest => assignAll (settings.assign name v) rest

end Settings

end Defs

end GoalDirected
