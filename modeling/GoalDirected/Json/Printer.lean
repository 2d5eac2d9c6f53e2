import GoalDirected.Decimal.Positional
import GoalDirected.Json.Basic

/-!
# Writing JSON

**Input.** A JSON tree.

**Algorithm.** No blanks are written. In a string the quote, the backslash and the controls are
escaped; numbers are positional, and a number that no JSON text can stand for is written as null.

**Results.** `Json.render` is the text of a tree.
-/

namespace GoalDirected
namespace Json

section Defs

/-- The four hexadecimal digits of a code unit. -/
def unitDigits (n : Nat) : List Char :=
  let cs := Nat.toDigits 16 n
  List.replicate (4 - cs.length) '0' ++ cs

def renderChar (c : Char) : List Char :=
  match c with
  | '"' => ['\\', '"']
  | '\\' => ['\\', '\\']
  | '\n' => ['\\', 'n']
  | '\r' => ['\\', 'r']
  | '\t' => ['\\', 't']
  | c => if c.toNat < 0x20 then '\\' :: 'u' :: unitDigits c.toNat else [c]

def renderString (s : String) : String :=
  .ofList ('"' :: s.toList.flatMap renderChar ++ ['"'])

def Number.render : Number → String
  | .natural n => .ofList (Nat.toDigits 10 n)
  | .negative n => .ofList ('-' :: Nat.toDigits 10 n)
  | .real x => if x.isFinite then Decimal.positional x else "null"

mutual

def render : Json → String
  | .meaningless => "null"
  | .null => "null"
  | .bool true => "true"
  | .bool false => "false"
  | .number n => n.render
  | .text s => renderString s
  | .array items => "[" ++ ",".intercalate (renderItems items) ++ "]"
  | .object members => "\x7b" ++ ",".intercalate (renderMembers members) ++ "\x7d"

def renderItems : List Json → List String
  | [] => []
  | j :: rest => j.render :: renderItems rest

def renderMembers : List (String × Json) → List String
  | [] => []
  | (key, j) :: rest => (renderString key ++ ":" ++ j.render) :: renderMembers rest

end

end Defs

end Json
end GoalDirected
