import GoalDirected.Config.Tree
import GoalDirected.Decimal.Reading
import GoalDirected.Json.Reader
import GoalDirected.Text.Blank

/-!
# Relaxed JSON

**Input.** The text of a configuration file.

**Algorithm.** Recursive descent over the characters, with the number of characters as fuel. Beyond
JSON there are comments, keys without quotes, single quotes, a comma after the last item, and more
ways to write a number.

**Results.** `Json5.parse?` is the table of a document.
-/

namespace GoalDirected
namespace Json5

section Defs

/-! ## Blanks -/

def isBreak (c : Char) : Bool :=
  c = '\n' || c = '\r' || c = '\u2028' || c = '\u2029'

def isSpace (c : Char) : Bool :=
  (Text.isBlank c && c != '\u0085') || c = '\ufeff'

/-- The rest after a comment between marks. -/
def afterComment? : List Char → Option (List Char)
  | [] => none
  | '*' :: '/' :: rest => some rest
  | _ :: rest => afterComment? rest

/-- Skips blanks and comments. -/
def skip? : Nat → List Char → Option (List Char)
  | 0, cs => some cs
  | fuel + 1, cs =>
      match cs.dropWhile isSpace with
      | '/' :: '/' :: rest => skip? fuel (rest.dropWhile fun c => !isBreak c)
      | '/' :: '*' :: rest => (afterComment? rest).bind (skip? fuel)
      | cs => some cs

/-! ## Texts -/

/-- The character of an escape that stands for one character. -/
def escaped : Char → Char
  | 'b' => '\x08'
  | 'f' => '\x0c'
  | 'n' => '\n'
  | 'r' => '\r'
  | 't' => '\t'
  | 'v' => '\x0b'
  | '0' => '\x00'
  | c => c

/-- The character of one or two escapes with four hexadecimal digits, after the first backslash and
its letter. -/
def numbered? : List Char → Option (Char × List Char)
  | a :: b :: c :: d :: rest => do
      let u ← Json.unit? a b c d
      if 0xdc00 ≤ u ∧ u ≤ 0xdfff then none
      else if 0xd800 ≤ u ∧ u ≤ 0xdbff then
        match rest with
        | '\\' :: 'u' :: a :: b :: c :: d :: rest =>
            let ch ← (Json.unit? a b c d).bind (Json.pairChar? u)
            return (ch, rest)
        | _ => none
      else return (Char.ofNat u, rest)
  | _ => none

/-- What an escape stands for, after its backslash; a line break stands for nothing. -/
def escape? : List Char → Option (Option Char × List Char)
  | [] => none
  | '\r' :: '\n' :: rest => some (none, rest)
  | 'x' :: a :: b :: rest => (Json.unit? '0' '0' a b).map fun n => (some (Char.ofNat n), rest)
  | 'u' :: rest => (numbered? rest).map fun (c, rest) => (some c, rest)
  | c :: rest =>
      if isBreak c then some (none, rest)
      else if c = 'x' || (c.isDigit && c != '0') then none
      else some (some (escaped c), rest)

/-- The rest of a text after its opening quote. -/
def string? (quote : Char) : Nat → List Char → List Char → Option (String × List Char)
  | 0, _, _ => none
  | _, _, [] => none
  | fuel + 1, read, c :: rest =>
      if c = quote then some (.ofList read.reverse, rest)
      else if c = '\\' then
        match escape? rest with
        | some (some c, rest) => string? quote fuel (c :: read) rest
        | some (none, rest) => string? quote fuel read rest
        | none => none
      else if isBreak c then none
      else string? quote fuel (c :: read) rest

/-- A character of a key without quotes. Every letter outside ASCII will do. -/
def isKeyStart (c : Char) : Bool :=
  c.isAlpha || c = '$' || c = '_' || (0x80 ≤ c.toNat && !isSpace c)

/-- The rest of a key without quotes. -/
def bareKey? : Nat → List Char → List Char → Option (String × List Char)
  | 0, _, _ => none
  | fuel + 1, read, '\\' :: 'u' :: rest =>
      match numbered? rest with
      | some (c, rest) => bareKey? fuel (c :: read) rest
      | none => none
  | fuel + 1, read, cs =>
      match cs with
      | c :: rest =>
          if isKeyStart c || (c.isDigit && !read.isEmpty) then bareKey? fuel (c :: read) rest
          else if read.isEmpty then none
          else some (.ofList read.reverse, cs)
      | [] => if read.isEmpty then none else some (.ofList read.reverse, [])

def key? (fuel : Nat) : List Char → Option (String × List Char)
  | '"' :: rest => string? '"' fuel [] rest
  | '\'' :: rest => string? '\'' fuel [] rest
  | cs => bareKey? fuel [] cs

/-! ## Numbers -/

/-- The digits of a decimal at the front: the whole part, and what follows it. -/
def decimal? (cs : List Char) : Option (List Char × List Char × List Char) :=
  let whole := match cs with
    | '0' :: _ => ['0']
    | _ => cs.takeWhile Char.isDigit
  let rest := cs.drop whole.length
  let fraction := match rest with
    | '.' :: more => '.' :: more.takeWhile Char.isDigit
    | _ => []
  let rest := rest.drop fraction.length
  if whole.isEmpty && fraction.length < 2 then none
  else
    let power := match rest with
      | c :: more =>
          if c = 'e' || c = 'E' then
            let sign := more.takeWhile fun c => c = '+' || c = '-'
            let digits := (more.drop sign.length).takeWhile Char.isDigit
            if 1 < sign.length || digits.isEmpty then [] else c :: sign ++ digits
          else []
      | [] => []
    some (whole, fraction ++ power, rest.drop power.length)

/-- An integer of 64 bits. -/
def integer? (negative : Bool) (digits : List Char) : Option Tree :=
  let n : Int := Decimal.digitsValue digits
  let n := if negative then -n else n
  if -0x8000000000000000 ≤ n ∧ n < 0x8000000000000000 then some (.integer n) else none

/-- A number at the front. In base sixteen it has no sign and thirty-two bits at most. -/
def number? (cs : List Char) : Option (Tree × List Char) :=
  let (negative, digits) := Decimal.splitSign cs
  let signed := digits.length < cs.length
  let signedReal (x : Float) : Tree := .real (if negative then -x else x)
  if "Infinity".toList.isPrefixOf digits then some (signedReal (1.0 / 0.0), digits.drop 8)
  else if "NaN".toList.isPrefixOf digits then some (signedReal (0.0 / 0.0), digits.drop 3)
  else
    let places := match digits with
      | '0' :: 'x' :: rest => rest.takeWhile fun c => (Json.hexValue? c).isSome
      | '0' :: 'X' :: rest => rest.takeWhile fun c => (Json.hexValue? c).isSome
      | _ => []
    if !places.isEmpty then
      let n := places.foldl (fun n c => 16 * n + (Json.hexValue? c).getD 0) 0
      if signed || 0x100000000 ≤ n then none
      else some (.integer n, digits.drop (places.length + 2))
    else do
      let (whole, more, rest) ← decimal? digits
      if more.isEmpty then return (← integer? negative whole, rest)
      else
        let x ← Decimal.read? (whole ++ more)
        if x.isFinite then return (signedReal x, rest) else none

/-! ## Values -/

/-- The rest after a word. -/
def word? (word : String) (value : Tree) (cs : List Char) : Option (Tree × List Char) :=
  if word.toList.isPrefixOf cs then some (value, cs.drop word.length) else none

mutual

/-- A value, blanks before it apart. -/
def value? (fuel : Nat) (cs : List Char) : Option (Tree × List Char) :=
  match fuel with
  | 0 => none
  | fuel + 1 =>
      match cs with
      | '"' :: rest => (string? '"' fuel [] rest).map fun (s, rest) => (.text s, rest)
      | '\'' :: rest => (string? '\'' fuel [] rest).map fun (s, rest) => (.text s, rest)
      | '[' :: rest => (items? fuel [] rest).map fun (vs, rest) => (.list vs, rest)
      | '\x7b' :: rest => (pairs? fuel [] rest).map fun (es, rest) => (.table es, rest)
      | 'n' :: _ => word? "null" .nothing cs
      | 't' :: _ => word? "true" (.bool true) cs
      | 'f' :: _ => word? "false" (.bool false) cs
      | _ => number? cs

/-- The items of an array after its opening bracket, or after a comma. -/
def items? (fuel : Nat) (read : List Tree) (cs : List Char) : Option (List Tree × List Char) :=
  match fuel with
  | 0 => none
  | fuel + 1 =>
      match skip? fuel cs with
      | none => none
      | some (']' :: rest) => some (read.reverse, rest)
      | some cs => do
          let (v, rest) ← value? fuel cs
          match ← skip? fuel rest with
          | ',' :: rest => items? fuel (v :: read) rest
          | ']' :: rest => return ((v :: read).reverse, rest)
          | _ => none

/-- The pairs of an object after its opening brace, or after a comma. -/
def pairs? (fuel : Nat) (read : List (String × Tree)) (cs : List Char) :
    Option (List (String × Tree) × List Char) :=
  match fuel with
  | 0 => none
  | fuel + 1 =>
      match skip? fuel cs with
      | none => none
      | some ('\x7d' :: rest) => some (read.reverse, rest)
      | some cs => do
          let (key, rest) ← key? fuel cs
          match ← skip? fuel rest with
          | ':' :: rest =>
              let (v, rest) ← value? fuel (← skip? fuel rest)
              match ← skip? fuel rest with
              | ',' :: rest => pairs? fuel ((key, v) :: read) rest
              | '\x7d' :: rest => return (((key, v) :: read).reverse, rest)
              | _ => none
          | _ => none

end

/-- The entries of a document. -/
def parse? (s : String) : Option (List (String × Tree)) := do
  let cs := s.toList
  let fuel := 2 * cs.length + 2
  let (v, rest) ← value? fuel (← skip? fuel cs)
  guard (← skip? fuel rest).isEmpty
  return Tree.lastEntries (← v.entries?)

end Defs

end Json5
end GoalDirected
