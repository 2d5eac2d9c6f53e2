import GoalDirected.Config.Tree
import GoalDirected.Json.Reader
import GoalDirected.Text.Blank

/-!
# Sections of assignments

**Input.** The text of a configuration file.

**Algorithm.** A document is a list of assignments, comments and headers of sections. A comment starts
at the very beginning of a line. A key goes up to an equals sign or a colon, and a value up to the end
of its line; a quoted part at the start of a value may go over several lines. A backslash starts an
escape everywhere but in a comment.

**Results.** `Ini.parse?` gives the assignments before the first header as entries, and each section
as a table. All values are texts.
-/

namespace GoalDirected
namespace Ini

section Defs

/-- The character of an escape that is neither a number nor a line break. -/
def escaped : Char → Char
  | '0' => '\x00'
  | 'a' => '\x07'
  | 'b' => '\x08'
  | 't' => '\t'
  | 'r' => '\r'
  | 'n' => '\n'
  | c => c

/-- The character with a number of four places, the first of which may be a plus sign. -/
def numbered? (a b c d : Char) : Option Char := do
  let n ← Json.unit? (if a = '+' then '0' else a) b c d
  if 0xd800 ≤ n ∧ n ≤ 0xdfff then none else some (Char.ofNat n)

/-- The characters up to one of `stops`, which has to come unless `atEnd` holds. -/
def until? (stops : List Char) (atEnd : Bool) :
    List Char → List Char → Option (List Char × List Char)
  | read, [] => if atEnd then some (read.reverse, []) else none
  | read, '\\' :: 'x' :: a :: b :: c :: d :: rest =>
      match numbered? a b c d with
      | some ch => until? stops atEnd (ch :: read) rest
      | none => none
  | read, '\\' :: '\n' :: rest => until? stops atEnd read rest
  | read, '\\' :: c :: rest =>
      if c = 'x' then none else until? stops atEnd (escaped c :: read) rest
  | read, c :: rest =>
      if stops.contains c then some (read.reverse, c :: rest)
      else if c = '\\' then none
      else until? stops atEnd (c :: read) rest

/-- The rest of a value up to the end of its line. -/
def lineRest? (cs : List Char) : Option (List Char × List Char) :=
  until? ['\n', '\r'] true [] cs

/-- A value that may start with a quoted part. -/
def value? (cs : List Char) : Option (String × List Char) := do
  let cs := cs.dropWhile fun c => Text.isBlank c && c != '\n' && c != '\r'
  match cs with
  | [] => return ("", [])
  | c :: rest =>
      let (quoted, rest) ←
        if c = '"' || c = '\'' then (until? [c] false [] rest).map fun (q, rest) => (q, rest.drop 1)
        else some ([], cs)
      let (plain, rest) ← lineRest? rest
      return (.ofList (Text.trim (quoted ++ plain)), rest)

/-- A document under construction, each list with its last item first. -/
structure Document where
  entries : List (String × Tree) := []
  sections : List (String × List (String × Tree)) := []

namespace Document

/-- Adds an assignment to the open section. -/
def assign (d : Document) (key value : String) : Document :=
  match d.sections with
  | [] => { d with entries := (key, .text value) :: d.entries }
  | (name, entries) :: rest => { d with sections := (name, (key, .text value) :: entries) :: rest }

def openSection (d : Document) (name : String) : Document :=
  { d with sections := (name, []) :: d.sections }

/-- All entries; of two with the same key the later one counts. -/
def all (d : Document) : List (String × Tree) :=
  Tree.lastEntries
    (d.entries.reverse ++
      d.sections.reverse.map fun (name, entries) => (name, .table (Tree.lastEntries entries.reverse)))

end Document

/-- Skips blanks; also says whether a line starts where they end. -/
def skip : Bool → List Char → Bool × List Char
  | start, [] => (start, [])
  | start, c :: rest => if Text.isBlank c then skip (c == '\n') rest else (start, c :: rest)

/-- Reads the items of a document; `start` says whether a line starts here. -/
def items? : Nat → Document → Bool → List Char → Option Document
  | 0, _, _, _ => none
  | fuel + 1, d, start, cs =>
      match skip start cs with
      | (_, []) => some d
      | (_, '[' :: rest) => do
          let (name, rest) ← until? [']'] false [] rest
          items? fuel (d.openSection (.ofList (Text.trim name))) false (rest.drop 1)
      | (start, c :: rest) =>
          if c = ';' || c = '#' then
            if start then items? fuel d true ((rest.dropWhile (· != '\n')).drop 1) else none
          else do
            let (key, rest) ← until? ['=', ':'] false [] (c :: rest)
            let key := Text.trim key
            guard !key.isEmpty
            let (value, rest) ← value? (rest.drop 1)
            items? fuel (d.assign (.ofList key) value) false rest

/-- The entries of a document. -/
def parse? (s : String) : Option (List (String × Tree)) :=
  let cs := s.toList
  (items? (cs.length + 1) {} true cs).map Document.all

end Defs

end Ini
end GoalDirected
