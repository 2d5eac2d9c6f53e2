import GoalDirected.Text.Blank

/-!
# Environment files

**Input.** The text of a file with one assignment to a line, and the variables that are set already.

**Algorithm.** A logical line goes on as long as a quote is open. It holds a name, an equals sign and
a value; the word `export` may stand in front. In a value, single quotes keep everything, double
quotes allow escapes, and a dollar sign stands in front of the name of another variable. Nothing but
a comment may follow a blank.

**Results.** `EnvironmentFile.load` adds the variables that are not set yet, up to the first malformed line.
-/

namespace GoalDirected

section Defs

/-- Variables of an environment with their values. -/
abbrev Variables := List (String × String)

namespace EnvironmentFile

/-! ## Logical lines -/

/-- What a character of a line is part of. -/
inductive Mode where
  | plain
  | escaped
  | blank
  | double
  | doubleEscaped
  | single
  | singleEscaped
deriving DecidableEq

/-- The mode after a character; none at the start of a comment. -/
def Mode.after (m : Mode) (c : Char) : Option Mode :=
  let opened : Mode :=
    if c = '\\' then .escaped else if c = '"' then .double else if c = '\'' then .single else .plain
  match m with
  | .blank => if c = '#' then none else some opened
  | .escaped => some .plain
  | .plain => some (if Text.isBlank c && c != '\n' && c != '\r' then .blank else opened)
  | .double =>
      some (if c = '\\' then .doubleEscaped else if c = '"' then .plain else .double)
  | .doubleEscaped => some .double
  | .single =>
      some (if c = '\\' then .singleEscaped else if c = '\'' then .plain else .single)
  | .singleEscaped => some .single

/-- The end of a physical line: its mode, or the part of it before a comment. -/
def scan : Mode → List Char → List Char → Except (List Char) Mode
  | m, _, [] => .ok m
  | m, read, c :: rest =>
      match m.after c with
      | none => .error read.reverse
      | some m => scan m (c :: read) rest

/-- The physical lines of a text, each with its line break. -/
def physicalLines : List Char → List Char → List (List Char)
  | read, [] => if read.isEmpty then [] else [read.reverse]
  | read, c :: rest =>
      if c = '\n' then (c :: read).reverse :: physicalLines [] rest
      else physicalLines (c :: read) rest

/-- A line without its line break. -/
def chomp (cs : List Char) : List Char :=
  match cs.reverse with
  | '\n' :: '\r' :: rest => rest.reverse
  | '\n' :: rest => rest.reverse
  | _ => cs

/-- The logical lines of a text; the last one is none if the text ends inside a quote. -/
def logicalLines (begun : List Char) (m : Mode) : List (List Char) → List (Option (List Char))
  | [] => if m = .plain then [] else [none]
  | line :: rest =>
      let whole := begun ++ line
      if ((whole.dropWhile Text.isBlank).head?) = some '#' then
        some [] :: logicalLines [] .plain rest
      else
        match scan m [] line with
        | .error before => some (begun ++ before) :: logicalLines [] .plain rest
        | .ok .plain => some (chomp whole) :: logicalLines [] .plain rest
        | .ok m => logicalLines whole m rest

/-! ## Values -/

/-- The value of a variable: from the environment, or else from earlier lines. -/
def substitute (environment earlier : Variables) (name : List Char) : List Char :=
  let name := String.ofList name
  (((environment.lookup name).or (earlier.lookup name)).getD "").toList

/-- The state of reading a value. -/
inductive State where
  | plain
  | escaped (quoted : Bool)
  | single
  | double
  /-- A name after a dollar sign, in reverse. -/
  | name (quoted : Bool) (read : List Char)
  /-- A name between braces, in reverse. -/
  | braced (quoted : Bool) (read : List Char)
  /-- Only blanks and a comment may follow. -/
  | finished

def unquoted (quoted : Bool) : State :=
  if quoted then .double else .plain

def escapeChar? (c : Char) : Option Char :=
  if c = 'n' then some '\n'
  else if ['\\', '\'', '"', '$', ' '].contains c then some c
  else none

/-- The value of a line, with the characters read so far in reverse. -/
def value? (env earlier : Variables) : State → List Char → List Char → Option (List Char)
  | .plain, out, [] => some out.reverse
  | .escaped false, out, [] => some out.reverse
  | .finished, out, [] => some out.reverse
  | .name false read, out, [] => some (out.reverse ++ substitute env earlier read.reverse)
  | _, _, [] => none
  | .finished, out, c :: rest =>
      if c = ' ' ∨ c = '\t' then value? env earlier .finished out rest
      else if c = '#' then some out.reverse
      else none
  | .escaped quoted, out, c :: rest =>
      match escapeChar? c with
      | some c => value? env earlier (unquoted quoted) (c :: out) rest
      | none => none
  | .single, out, c :: rest =>
      if c = '\'' then value? env earlier .plain out rest
      else value? env earlier .single (c :: out) rest
  | .name quoted read, out, c :: rest =>
      if c.isAlphanum then value? env earlier (.name quoted (c :: read)) out rest
      else if c = '\x7b' ∧ read.isEmpty then value? env earlier (.braced quoted []) out rest
      else
        let out := (substitute env earlier read.reverse).reverse ++ out
        if c = '$' then value? env earlier (.name quoted []) out rest
        else value? env earlier (unquoted quoted) (c :: out) rest
  | .braced quoted read, out, c :: rest =>
      if c = '\x7d' then
        let out := (substitute env earlier read.reverse).reverse ++ out
        value? env earlier (unquoted quoted) out rest
      else value? env earlier (.braced quoted (c :: read)) out rest
  | .double, out, c :: rest =>
      if c = '$' then value? env earlier (.name true []) out rest
      else if c = '"' then value? env earlier .plain out rest
      else if c = '\\' then value? env earlier (.escaped true) out rest
      else value? env earlier .double (c :: out) rest
  | .plain, out, c :: rest =>
      if c = '$' then value? env earlier (.name false []) out rest
      else if c = '\'' then value? env earlier .single out rest
      else if c = '"' then value? env earlier .double out rest
      else if c = '\\' then value? env earlier (.escaped false) out rest
      else if c = ' ' ∨ c = '\t' then value? env earlier .finished out rest
      else value? env earlier .plain (c :: out) rest

/-! ## Assignments -/

def key? (cs : List Char) : Option (String × List Char) :=
  match cs with
  | [] => none
  | c :: _ =>
      if c.isAlpha || c = '_' then
        let key := cs.takeWhile fun c => c.isAlphanum || c = '_' || c = '.'
        some (.ofList key, (cs.drop key.length).dropWhile Text.isBlank)
      else none

/-- The name and the text of an assignment. -/
def assignment? (cs : List Char) : Option (String × List Char) := do
  match ← key? cs with
  | (key, '=' :: rest) => return (key, rest.dropWhile Text.isBlank)
  | ("export", rest) =>
      match ← key? rest with
      | (key, '=' :: rest) => return (key, rest.dropWhile Text.isBlank)
      | _ => none
  | _ => none

/-- Reads logical lines up to the first malformed one. Variables that are set keep their values. -/
def loadLines (env earlier : Variables) : List (Option (List Char)) → Variables
  | [] => env
  | none :: _ => env
  | some line :: rest =>
      match Text.trim line with
      | [] => loadLines env earlier rest
      | '#' :: _ => loadLines env earlier rest
      | cs =>
          match assignment? cs with
          | none => env
          | some (key, text) =>
              let value :=
                if text.isEmpty || text.head? = some '#' then some []
                else value? env earlier .plain [] text
              match value with
              | none => env
              | some value =>
                  let v := String.ofList value
                  let env := if (env.lookup key).isSome then env else env ++ [(key, v)]
                  loadLines env ((key, v) :: earlier) rest

/-- The environment with the variables of a file. -/
def load (env : Variables) (file : String) : Variables :=
  let cs := match file.toList with
    | '\ufeff' :: rest => rest
    | cs => cs
  loadLines env [] (logicalLines [] .plain (physicalLines [] cs))

end EnvironmentFile

end Defs

end GoalDirected
