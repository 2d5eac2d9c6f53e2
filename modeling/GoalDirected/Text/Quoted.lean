import GoalDirected.Text.Hidden

/-!
# Quoted texts

**Input.** A text.

**Algorithm.** The text stands between double quotes. A double quote, a backslash and five control
characters have short escapes; every other hidden character is written by its number in braces; all
else stands for itself.

**Results.** `quote` is the printable image of a text.
-/

namespace GoalDirected
namespace Text

section Defs

/-- The lower-case hexadecimal digits of a number. -/
def hexDigits (n : Nat) : List Char :=
  Nat.toDigits 16 n

/-- One character as it appears between quotes. -/
def quoteChar (c : Char) : List Char :=
  match c with
  | '\x00' => ['\\', '0']
  | '\t' => ['\\', 't']
  | '\n' => ['\\', 'n']
  | '\r' => ['\\', 'r']
  | '\\' => ['\\', '\\']
  | '"' => ['\\', '"']
  | c =>
      if isHidden c then '\\' :: 'u' :: '\x7b' :: hexDigits c.toNat ++ ['\x7d']
      else [c]

/-- The text between double quotes, with escapes. -/
def quote (s : String) : String :=
  .ofList ('"' :: s.toList.flatMap quoteChar ++ ['"'])

end Defs

end Text
end GoalDirected
