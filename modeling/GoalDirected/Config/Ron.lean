import GoalDirected.Config.Tree
import GoalDirected.Decimal.Reading
import GoalDirected.Json.Reader

/-!
# Object notation with named structures

**Input.** The text of a configuration file.

**Algorithm.** Recursive descent over the characters, with the number of characters as fuel. A value
is a word, a number, a text, a character, a list in brackets, a map in braces, or a structure: an
optional name with fields in parentheses. Fields with names make a table, fields without names a
list, and a name alone stands for nothing.

**Results.** `Ron.parse?` is the table of a document.
-/

namespace GoalDirected
namespace Ron

section Defs

/-! ## Blanks and names -/

def isSpace (c : Char) : Bool :=
  c = ' ' || c = '\t' || c = '\n' || c = '\r'

/-- The rest after a comment between marks, which may hold others; `depth` of them are open. -/
def afterComment? : Nat → List Char → Option (List Char)
  | _, [] => none
  | depth, '/' :: '*' :: rest => afterComment? (depth + 1) rest
  | depth, '*' :: '/' :: rest => if depth = 0 then some rest else afterComment? (depth - 1) rest
  | depth, _ :: rest => afterComment? depth rest

/-- Skips blanks and comments. -/
def skip? : Nat → List Char → Option (List Char)
  | 0, cs => some cs
  | fuel + 1, cs =>
      match cs.dropWhile isSpace with
      | '/' :: '/' :: rest => skip? fuel (rest.dropWhile (· != '\n'))
      | '/' :: '*' :: rest => (afterComment? 0 rest).bind (skip? fuel)
      | '/' :: _ => none
      | cs => some cs

def isNameStart (c : Char) : Bool :=
  c.isAlpha || c = '_'

def isNameChar (c : Char) : Bool :=
  c.isAlphanum || c = '_'

def isRawNameChar (c : Char) : Bool :=
  isNameChar c || c = '.' || c = '+' || c = '-'

/-- A name at the front; a raw text is none. -/
def name? (cs : List Char) : Option (String × List Char) :=
  match cs with
  | 'r' :: '"' :: _ => none
  | 'r' :: '#' :: rest =>
      let name := rest.takeWhile isRawNameChar
      if name.isEmpty then none else some (.ofList name, rest.drop name.length)
  | c :: _ =>
      if isNameStart c then
        let name := cs.takeWhile isNameChar
        some (.ofList name, cs.drop name.length)
      else none
  | [] => none

/-- The rest after a word, if no longer name begins with it. -/
def word? (word : String) (cs : List Char) : Option (List Char) :=
  let rest := cs.drop word.length
  if word.toList.isPrefixOf cs && !rest.head?.any isNameChar then some rest else none

/-! ## Texts -/

/-- The character of an escape, after its backslash. -/
def escape? : List Char → Option (Char × List Char)
  | '\'' :: rest => some ('\'', rest)
  | '"' :: rest => some ('"', rest)
  | '\\' :: rest => some ('\\', rest)
  | 'n' :: rest => some ('\n', rest)
  | 'r' :: rest => some ('\r', rest)
  | 't' :: rest => some ('\t', rest)
  | '0' :: rest => some ('\x00', rest)
  | 'x' :: a :: b :: rest => (Json.unit? '0' '0' a b).map fun n => (Char.ofNat n, rest)
  | 'u' :: '\x7b' :: rest =>
      let digits := rest.takeWhile fun c => (Json.hexValue? c).isSome
      let n := digits.foldl (fun n c => 16 * n + (Json.hexValue? c).getD 0) 0
      match rest.drop digits.length with
      | '\x7d' :: rest =>
          if digits.isEmpty || 6 < digits.length || !n.isValidChar then none
          else some (Char.ofNat n, rest)
      | _ => none
  | _ => none

/-- The rest of a text after its opening quote. -/
def string? : Nat → List Char → List Char → Option (String × List Char)
  | 0, _, _ => none
  | _, _, [] => none
  | fuel + 1, read, c :: rest =>
      if c = '"' then some (.ofList read.reverse, rest)
      else if c = '\\' then
        match escape? rest with
        | some (c, rest) => string? fuel (c :: read) rest
        | none => none
      else string? fuel (c :: read) rest

/-- The rest of a raw text, which a quote with `marks` number signs ends. -/
def raw? (marks : List Char) : List Char → List Char → Option (String × List Char)
  | _, [] => none
  | read, c :: rest =>
      if c = '"' && marks.isPrefixOf rest then
        some (.ofList read.reverse, rest.drop marks.length)
      else raw? marks (c :: read) rest

/-- A character between single quotes, after the first of them. -/
def character? (cs : List Char) : Option (String × List Char) := do
  let (c, rest) ← match cs with
    | '\\' :: rest => escape? rest
    | c :: rest => some (c, rest)
    | [] => none
  match rest with
  | '\'' :: rest => return (.singleton c, rest)
  | _ => none

/-! ## Numbers -/

def isIntegerChar (c : Char) : Bool :=
  (Json.hexValue? c).isSome || c = 'x' || c = 'o' || c = '_'

def isRealChar (c : Char) : Bool :=
  c.isDigit || c = 'e' || c = 'E' || c = '.' || c = '+' || c = '-' || c = '_'

/-- A natural number in a base, with underscores after its first digit. -/
def natural? (base : Nat) (cs : List Char) : Option Nat :=
  if cs.isEmpty || cs.head? == some '_' then none
  else
    cs.foldl
      (fun n c =>
        if c = '_' then n
        else n.bind fun n => ((Json.hexValue? c).filter (· < base)).map fun d => base * n + d)
      (some 0)

/-- A natural number, whose first two characters may name its base. -/
def magnitude? (cs : List Char) : Option Nat :=
  match cs with
  | '0' :: 'x' :: rest => natural? 16 rest
  | '0' :: 'b' :: rest => natural? 2 rest
  | '0' :: 'o' :: rest => natural? 8 rest
  | _ => natural? 10 cs

/-- An integer of 64 bits. Without a sign it may also be as large as the bits allow, and then stands
for the integer that has the same bits. -/
def integer? (cs : List Char) : Option Int :=
  match cs with
  | '-' :: rest => (magnitude? rest).bind fun n =>
      if n ≤ 0x8000000000000000 then some (-n) else none
  | '+' :: rest => (magnitude? rest).bind fun n =>
      if n < 0x8000000000000000 then some n else none
  | _ => (magnitude? cs).bind fun n =>
      if n < 0x8000000000000000 then some n
      else if n < 0x10000000000000000 then some (n - 0x10000000000000000)
      else none

/-- A number at the front: an integer, or else a double. -/
def number? (cs : List Char) : Option (Tree × List Char) :=
  let (sign, digits) : List Char × List Char := match cs with
    | '+' :: rest => (['+'], rest)
    | '-' :: rest => (['-'], rest)
    | _ => ([], cs)
  let integral := digits.takeWhile isIntegerChar
  let fractional := digits.takeWhile isRealChar
  let integer : Option (Tree × List Char) :=
    if integral.length < fractional.length then none
    else (integer? (sign ++ integral)).map fun n => (.integer n, digits.drop integral.length)
  integer.or
    (if fractional.isEmpty || fractional.contains '_' then none
      else (Decimal.read? (sign ++ fractional)).map fun x =>
        (.real x, digits.drop fractional.length))

/-! ## Values -/

/-- The words that are values. -/
def wordValue? (cs : List Char) : Option (Tree × List Char) :=
  let infinity : Float := 1.0 / 0.0
  let values : List (String × Tree) :=
    [("true", .bool true), ("false", .bool false), ("None", .nothing), ("inf", .real infinity),
      ("-inf", .real (-infinity)), ("NaN", .real (0.0 / 0.0))]
  values.findSome? fun (word, value) => (word? word cs).map fun rest => (value, rest)

/-- Whether the fields after an opening parenthesis have names. -/
def isNamed (cs : List Char) : Bool :=
  match ((skip? cs.length cs).bind name?).bind fun (_, rest) => skip? rest.length rest with
  | some (':' :: _) => true
  | _ => false

/-- The key that a value of a map stands for. -/
def key? : Tree → Option String
  | .text s => some s
  | _ => none

mutual

/-- A value, blanks before it apart. -/
def value? (fuel : Nat) (cs : List Char) : Option (Tree × List Char) :=
  match fuel with
  | 0 => none
  | fuel + 1 =>
      match wordValue? cs with
      | some found => some found
      | none =>
          match word? "Some" cs, cs with
          | some rest, _ => some? fuel rest
          | none, '(' :: ')' :: rest => some (.nothing, rest)
          | none, '(' :: rest => structure? fuel rest
          | none, '[' :: rest => (items? fuel ']' [] rest).map fun (vs, rest) => (.list vs, rest)
          | none, '\x7b' :: rest =>
              (pairs? fuel false '\x7d' [] rest).map fun (es, rest) => (.table es, rest)
          | none, '"' :: rest => (string? fuel [] rest).map fun (s, rest) => (.text s, rest)
          | none, '\'' :: rest => (character? rest).map fun (s, rest) => (.text s, rest)
          | none, cs =>
              match name? cs, cs with
              | some (_, rest), _ =>
                  match skip? fuel rest with
                  | some ('(' :: rest) => structure? fuel rest
                  | some rest => some (.nothing, rest)
                  | none => none
              | none, 'r' :: rest =>
                  let marks := rest.takeWhile (· = '#')
                  match rest.drop marks.length with
                  | '"' :: rest => (raw? marks [] rest).map fun (s, rest) => (.text s, rest)
                  | _ => none
              | none, cs => number? cs

/-- An optional value that is there, after its word. -/
def some? (fuel : Nat) (cs : List Char) : Option (Tree × List Char) :=
  match fuel with
  | 0 => none
  | fuel + 1 =>
      match skip? fuel cs with
      | some ('(' :: rest) => do
          let (v, rest) ← value? fuel (← skip? fuel rest)
          match ← skip? fuel rest with
          | ',' :: rest =>
              match ← skip? fuel rest with
              | ')' :: rest => return (v, rest)
              | _ => none
          | ')' :: rest => return (v, rest)
          | _ => none
      | _ => none

/-- The fields of a structure after its opening parenthesis. -/
def structure? (fuel : Nat) (cs : List Char) : Option (Tree × List Char) :=
  match fuel with
  | 0 => none
  | fuel + 1 =>
      if isNamed cs then (pairs? fuel true ')' [] cs).map fun (es, rest) => (.table es, rest)
      else (items? fuel ')' [] cs).map fun (vs, rest) => (.list vs, rest)

/-- Items up to a closing character. -/
def items? (fuel : Nat) (close : Char) (read : List Tree) (cs : List Char) :
    Option (List Tree × List Char) :=
  match fuel with
  | 0 => none
  | fuel + 1 =>
      match skip? fuel cs with
      | none => none
      | some [] => none
      | some (c :: rest) =>
          if c = close then some (read.reverse, rest)
          else do
            let (v, rest) ← value? fuel (c :: rest)
            match ← skip? fuel rest with
            | ',' :: rest => items? fuel close (v :: read) rest
            | c :: rest => if c = close then return ((v :: read).reverse, rest) else none
            | [] => none

/-- Pairs up to a closing character; their keys are names or values. -/
def pairs? (fuel : Nat) (named : Bool) (close : Char) (read : List (String × Tree))
    (cs : List Char) : Option (List (String × Tree) × List Char) :=
  match fuel with
  | 0 => none
  | fuel + 1 =>
      match skip? fuel cs with
      | none => none
      | some [] => none
      | some (c :: rest) =>
          if c = close then some (read.reverse, rest)
          else do
            let (key, rest) ←
              if named then name? (c :: rest)
              else (value? fuel (c :: rest)).bind fun (k, rest) => (key? k).map fun k => (k, rest)
            match ← skip? fuel rest with
            | ':' :: rest =>
                let (v, rest) ← value? fuel (← skip? fuel rest)
                match ← skip? fuel rest with
                | ',' :: rest => pairs? fuel named close ((key, v) :: read) rest
                | c :: rest =>
                    if c = close then return (((key, v) :: read).reverse, rest) else none
                | [] => none
            | _ => none

end

/-- The entries of a document. -/
def parse? (s : String) : Option (List (String × Tree)) := do
  let cs := s.toList
  let fuel := 2 * cs.length + 2
  let (v, rest) ← value? fuel (← skip? fuel cs)
  guard (← skip? fuel rest).isEmpty
  return Tree.lastEntries (← v.entries?)

end Defs

end Ron
end GoalDirected
