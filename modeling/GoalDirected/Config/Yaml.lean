import GoalDirected.Config.Tree
import GoalDirected.Decimal.Reading
import GoalDirected.Json.Reader

/-!
# Indented documents

**Input.** The text of a configuration file.

**Algorithm.** The text is cut into documents at its marker lines. A document is read by recursive
descent over its characters, with their number as fuel; the cursor knows its column, because the
column of the first character decides what a line belongs to. A block is a mapping or a sequence
whose items start in one column; inside brackets and braces columns do not matter.

**Results.** `Yaml.parse?` is the table of a text that holds one document at most. A key is a text or
an integer, and no key may be given twice.
-/

namespace GoalDirected
namespace Yaml

section Defs

/-! ## Cursors -/

/-- What is left of a text, and the column that it starts in. -/
structure Cursor where
  rest : List Char
  column : Nat := 0

/-- Passes characters of one line. -/
def Cursor.drop (k : Cursor) (n : Nat) : Cursor :=
  ⟨k.rest.drop n, k.column + n⟩

/-- The cursor at the end of the line before, if only blanks stand left of this one. -/
def Cursor.lineBefore (k : Cursor) : Cursor :=
  ⟨if k.rest.isEmpty then [] else '\n' :: List.replicate k.column ' ' ++ k.rest, 0⟩

def isBlank (c : Char) : Bool :=
  c = ' ' || c = '\t'

/-- Whether a blank, a line break or nothing is at the front. -/
def endsWord (cs : List Char) : Bool :=
  cs.head?.all fun c => isBlank c || c = '\n'

def isFlowMark (c : Char) : Bool :=
  c = ',' || c = '[' || c = ']' || c = '\x7b' || c = '\x7d'

/-- What has been passed of the gap before the next item. -/
structure Gap where
  /-- A line break. -/
  crossed : Bool := false
  /-- A blank or a line break just before, so that a comment may start. -/
  blank : Bool := false
  /-- A tab left of the column of the open block, so that no content may follow. -/
  tabbed : Bool := false
  /-- The start of a comment that has not ended. -/
  comment : Bool := false

/-- Skips blanks, comments and line breaks in a block that starts in column `indent`; also says
whether a line break was passed. -/
def skipFrom? (indent : Int) : Gap → List Char → Nat → Option (Bool × Cursor)
  | g, [], column => some (g.crossed, ⟨[], column⟩)
  | g, c :: rest, column =>
      if c = '\n' then skipFrom? indent { crossed := true, blank := true } rest 0
      else if g.comment then skipFrom? indent g rest (column + 1)
      else if c = ' ' then skipFrom? indent { g with blank := true } rest (column + 1)
      else if c = '\t' then
        let tabbed := g.tabbed || (g.crossed && column < indent)
        skipFrom? indent { g with blank := true, tabbed } rest (column + 1)
      else if c = '#' && g.blank then skipFrom? indent { g with comment := true } rest (column + 1)
      else if g.tabbed then none
      else some (g.crossed, ⟨c :: rest, column⟩)

def skip? (indent : Int) (k : Cursor) : Option (Bool × Cursor) :=
  skipFrom? indent { blank := k.column == 0 } k.rest k.column

/-- Skips blanks on one line. -/
def skipBlanks (k : Cursor) : Cursor :=
  k.drop (k.rest.takeWhile isBlank).length

/-! ## Scalars -/

/-- What a number of line breaks inside a scalar stands for. -/
def folded (breaks : Nat) : List Char :=
  if breaks = 1 then [' '] else List.replicate (breaks - 1) '\n'

/-- Whether a colon before `rest` ends a key. -/
def endsKey (flow : Bool) (rest : List Char) : Bool :=
  endsWord rest || (flow && rest.head?.any isFlowMark)

/-- The characters of a plain scalar on one line in reverse, with trailing blanks. -/
def plainLine (flow : Bool) (read : List Char) : List Char → List Char
  | [] => read
  | c :: rest =>
      if c = '\n' || (c = ':' && endsKey flow rest) || (flow && isFlowMark c) then read
      else if c = '#' && read.head?.any isBlank then read
      else plainLine flow (c :: read) rest

/-- Whether a plain scalar may start with these characters. -/
def startsPlain (flow : Bool) : List Char → Bool
  | [] => false
  | c :: rest =>
      if c = '-' || c = '?' || c = ':' then !endsKey flow rest
      else !endsWord [c] && !isFlowMark c && !"#&*!|>'\"%@\x60".toList.contains c

/-- One line of a plain scalar, without trailing blanks. -/
def plainPart (flow : Bool) (k : Cursor) : List Char × Cursor :=
  let part := (plainLine flow [] k.rest).dropWhile isBlank
  (part.reverse, k.drop part.length)

/-- The line breaks and blanks up to the next content: the number of breaks, and the cursor there. -/
def gap (breaks : Nat) : List Char → Nat → Nat × Cursor
  | [], column => (breaks, ⟨[], column⟩)
  | c :: rest, column =>
      if c = '\n' then gap (breaks + 1) rest 0
      else if isBlank c then gap breaks rest (column + 1)
      else (breaks, ⟨c :: rest, column⟩)

/-- Further lines of a plain scalar, each right of the column `parent`. -/
def plainMore (flow : Bool) (parent : Int) : Nat → List Char → Cursor → List Char × Cursor
  | 0, text, k => (text, k)
  | fuel + 1, text, k =>
      match gap 0 k.rest k.column with
      | (0, _) => (text, k)
      | (breaks, start) =>
          let (part, k') := plainPart flow start
          if part.isEmpty || start.rest.head? == some '#' || (!flow && start.column ≤ parent) then
            (text, k)
          else plainMore flow parent fuel (text ++ folded breaks ++ part) k'

/-- A plain scalar, which may go over several lines. -/
def plain? (flow : Bool) (parent : Int) (k : Cursor) : Option (List Char × Cursor) :=
  if startsPlain flow k.rest then
    let (part, k') := plainPart flow k
    some (plainMore flow parent k.rest.length part k')
  else none

/-- The character of an escape in double quotes, after its backslash. -/
def escape? : List Char → Option (Char × List Char)
  | '0' :: rest => some ('\x00', rest)
  | 'a' :: rest => some ('\x07', rest)
  | 'b' :: rest => some ('\x08', rest)
  | 't' :: rest => some ('\t', rest)
  | '\t' :: rest => some ('\t', rest)
  | 'n' :: rest => some ('\n', rest)
  | 'v' :: rest => some ('\x0b', rest)
  | 'f' :: rest => some ('\x0c', rest)
  | 'r' :: rest => some ('\r', rest)
  | 'e' :: rest => some ('\x1b', rest)
  | ' ' :: rest => some (' ', rest)
  | '"' :: rest => some ('"', rest)
  | '/' :: rest => some ('/', rest)
  | '\\' :: rest => some ('\\', rest)
  | 'N' :: rest => some ('\u0085', rest)
  | '_' :: rest => some ('\u00a0', rest)
  | 'L' :: rest => some ('\u2028', rest)
  | 'P' :: rest => some ('\u2029', rest)
  | c :: rest =>
      let width := if c = 'x' then 2 else if c = 'u' then 4 else if c = 'U' then 8 else 0
      let digits := rest.take width
      let n := digits.foldl (fun n d => 16 * n + (Json.hexValue? d).getD 0) 0
      if width = 0 || digits.length < width || !digits.all (fun d => (Json.hexValue? d).isSome) ||
          !n.isValidChar then none
      else some (Char.ofNat n, rest.drop width)
  | [] => none

/-- The rest of a quoted scalar after its opening quote. Blanks wait in `blanks` until it is known
that no line break follows them. -/
def quoted? (quote : Char) : Nat → List Char → List Char → Cursor → Option (List Char × Cursor)
  | 0, _, _, _ => none
  | fuel + 1, read, blanks, k =>
      match k.rest with
      | [] => none
      | c :: rest =>
          if c = quote then
            if quote = '\'' && rest.head? == some '\'' then
              quoted? quote fuel ('\'' :: blanks ++ read) [] (k.drop 2)
            else some ((blanks ++ read).reverse, k.drop 1)
          else if c = '\n' then
            let (breaks, k) := gap 0 k.rest k.column
            quoted? quote fuel ((folded breaks).reverse ++ read) [] k
          else if isBlank c then quoted? quote fuel read (c :: blanks) (k.drop 1)
          else if quote = '"' && c = '\\' then
            match rest with
            | '\n' :: more =>
                let (breaks, k) := gap 1 more 0
                quoted? quote fuel (List.replicate (breaks - 1) '\n' ++ blanks ++ read) [] k
            | _ =>
                match escape? rest with
                | some (ch, more) =>
                    quoted? quote fuel (ch :: blanks ++ read) [] (k.drop (k.rest.length - more.length))
                | none => none
          else quoted? quote fuel (c :: blanks ++ read) [] (k.drop 1)

/-- An integer of 64 bits in a base, with an optional sign. -/
def integer? (base : Nat) (cs : List Char) : Option Tree :=
  let (negative, digits) := Decimal.splitSign cs
  let value : Option Nat := digits.foldl
    (fun n c => n.bind fun n => ((Json.hexValue? c).filter (· < base)).map fun d => base * n + d)
    (some 0)
  value.bind fun (n : Nat) =>
    let m : Int := if negative then -(n : Int) else n
    if digits.isEmpty || m < -0x8000000000000000 || 0x8000000000000000 ≤ m then none
    else some (.integer m)

/-- The infinities and what is not a number, which no option can take. -/
def specials : List String :=
  [".inf", ".Inf", ".INF", "+.inf", "+.Inf", "+.INF", "-.inf", "-.Inf", "-.INF", ".nan", ".NaN", ".NAN"]

/-- The value of a plain scalar by its form. -/
def resolve? (cs : List Char) : Option Tree :=
  let marked : Option Tree := match cs with
    | '0' :: 'x' :: digits => integer? 16 digits
    | '0' :: 'o' :: digits => integer? 8 digits
    | '+' :: digits => integer? 10 digits
    | _ => none
  match marked, String.ofList cs with
  | some n, _ => some n
  | none, "" => some .nothing
  | none, "~" => some .nothing
  | none, "null" => some .nothing
  | none, "true" => some (.bool true)
  | none, "false" => some (.bool false)
  | none, s =>
      if specials.contains s then none
      else
        match integer? 10 cs with
        | some n => some n
        | none =>
            match if cs.any Char.isDigit then Decimal.read? cs else none with
            | some x => some (.real x)
            | none => some (.text s)

/-- The value of a plain scalar with a tag; a scalar that does not fit its tag stands for nothing. -/
def resolveTagged? (tag : Option String) (cs : List Char) : Option Tree :=
  match tag with
  | none => resolve? cs
  | some "!!bool" =>
      some (match String.ofList cs with
        | "true" => .bool true
        | "false" => .bool false
        | _ => .nothing)
  | some "!!int" => some ((integer? 10 cs).getD .nothing)
  | some "!!float" =>
      match resolve? cs with
      | some (.integer _) => (Decimal.read? cs).map .real
      | some (.real x) => some (.real x)
      | some _ => some .nothing
      | none => none
  | some "!!null" => some .nothing
  | some _ => some (.text (.ofList cs))

/-! ## Block scalars -/

/-- The lines of a text. -/
def linesOf : List Char → List Char → List (List Char)
  | read, [] => [read.reverse]
  | read, c :: rest => if c = '\n' then read.reverse :: linesOf [] rest else linesOf (c :: read) rest

/-- What happens to the line breaks at the end of a block scalar. -/
inductive Chomping where
  | clip
  | strip
  | keep
deriving DecidableEq

/-- The header of a block scalar: the indentation that it states, and what happens at its end. -/
def header? : List Char → Option (Option Nat × Chomping)
  | [] => some (none, .clip)
  | cs =>
      let digits := cs.filter Char.isDigit
      let marks := cs.filter fun c => c = '+' || c = '-'
      if digits.length + marks.length ≠ cs.length || 1 < digits.length || 1 < marks.length ||
          digits == ['0'] then none
      else
        some (if digits.isEmpty then none else some (Decimal.digitsValue digits),
          match marks with
          | ['+'] => .keep
          | ['-'] => .strip
          | _ => .clip)

/-- Joins the lines of a folded scalar. A line break between two lines that do not start with a blank
is a blank. -/
def foldLines : List (List Char) → List Char
  | [] => []
  | [line] => line
  | line :: next :: rest =>
      let tail := foldLines (next :: rest)
      if line.isEmpty then '\n' :: tail
      else if next.isEmpty then line ++ tail
      else if line.head?.any isBlank || next.head?.any isBlank then line ++ '\n' :: tail
      else line ++ ' ' :: tail

/-- A block scalar after its mark, in a block that starts in column `parent`. -/
def blockScalar? (fold : Bool) (parent : Int) (k : Cursor) : Option (List Char × Cursor) := do
  let line := k.rest.takeWhile (· != '\n')
  let head := line.takeWhile fun c => !isBlank c
  let after := (line.drop head.length).dropWhile isBlank
  guard (after.isEmpty || after.head? == some '#')
  let (stated, chomping) ← header? head
  let body := linesOf [] (k.rest.drop (line.length + 1))
  let indentOf (l : List Char) : Nat := (l.takeWhile (· = ' ')).length
  let isEmpty (l : List Char) : Bool := l.all isBlank
  let first := ((body.find? fun l => !isEmpty l).map indentOf).getD 0
  let indent : Nat := match stated with
    | some n => (max parent 0).toNat + n
    | none => first
  let content :=
    if (indent : Int) ≤ parent then body.takeWhile isEmpty
    else body.takeWhile fun l => isEmpty l || indent ≤ indentOf l
  let used := content.foldl (fun n l => n + l.length + 1) 0
  let lines := content.map fun l => l.drop indent
  let trailing := (lines.reverse.takeWhile List.isEmpty).length
  let lines := lines.take (lines.length - trailing)
  let text := if fold then foldLines lines else List.intercalate ['\n'] lines
  let ending := match chomping with
    | .strip => []
    | .clip => if lines.isEmpty then [] else ['\n']
    | .keep => List.replicate (if lines.isEmpty then trailing else trailing + 1) '\n'
  let rest := (k.rest.drop (line.length + 1)).drop used
  return (text ++ ending, Cursor.lineBefore ⟨rest, 0⟩)

/-! ## Nodes -/

/-- The parts of a document that later parts may refer to. -/
abbrev Anchors := List (String × Tree)

/-- What stands before a node: a name for it, and a tag. -/
structure Properties where
  anchor : Option String := none
  tag : Option String := none

/-- The properties of a node; also says whether a line break follows them. -/
def properties? (indent : Int) : Nat → Properties → Cursor → Option (Properties × Bool × Cursor)
  | 0, p, k => some (p, false, k)
  | fuel + 1, p, k =>
      match k.rest with
      | c :: rest =>
          if c = '&' || c = '!' then do
            let word := rest.takeWhile fun c => !endsWord [c] && !isFlowMark c
            let (crossed, k) ← skip? indent (k.drop (word.length + 1))
            let p : Properties :=
              if c = '&' then { p with anchor := some (.ofList word) }
              else { p with tag := some (.ofList (c :: word)) }
            if crossed then return (p, true, k) else properties? indent fuel p k
          else some (p, false, k)
      | [] => some (p, false, k)

/-- Notes a node under the name that it has. -/
def note (p : Properties) (t : Tree) (anchors : Anchors) : Anchors :=
  match p.anchor with
  | some name => (name, t) :: anchors
  | none => anchors

/-- A quoted or plain scalar, or a reference to an earlier node. -/
def scalar? (flow : Bool) (parent : Int) (p : Properties) (anchors : Anchors) (k : Cursor) :
    Option (Tree × Cursor) :=
  match k.rest with
  | '*' :: rest => do
      let name := rest.takeWhile fun c => !endsWord [c] && !isFlowMark c
      let t ← anchors.lookup (.ofList name)
      return (t, k.drop (name.length + 1))
  | c :: _ =>
      if c = '"' || c = '\'' then
        (quoted? c k.rest.length [] [] (k.drop 1)).map fun (cs, k) => (.text (.ofList cs), k)
      else do
        let (cs, k) ← plain? flow parent k
        return (← resolveTagged? p.tag cs, k)
  | [] => none

/-- The key that a node stands for. -/
def keyOf? : Tree → Option String
  | .text s => some s
  | .integer n => some (toString n)
  | _ => none

/-- The key of an entry of a block on one line, with the cursor after its colon. -/
def key? (anchors : Anchors) (k : Cursor) : Option (Tree × Anchors × Cursor) := do
  let line : Cursor := ⟨k.rest.takeWhile (· != '\n'), k.column⟩
  let (p, _, start) ← properties? (-1) k.rest.length {} line
  let (t, after) ← scalar? false (-1) p anchors start
  let colon := skipBlanks after
  match colon.rest with
  | ':' :: rest =>
      if endsWord rest then
        return (t, note p t anchors, k.drop (line.rest.length - rest.length))
      else none
  | _ => none

/-- Whether a word follows tabs alone, which do not divide it from a colon. -/
def isUndivided (cs : List Char) : Bool :=
  let blanks := cs.takeWhile isBlank
  !blanks.isEmpty && blanks.all (· = '\t') &&
    (cs.drop blanks.length).head?.any fun c => c.isAlphanum || c = '_' || c = '-'

/-- Whether a mark that stands alone is at the front. -/
def startsWith (mark : Char) (k : Cursor) : Bool :=
  match k.rest with
  | c :: rest => c == mark && endsWord rest
  | [] => false

/-- An item of a sequence is at the front. -/
def startsItem (k : Cursor) : Bool :=
  startsWith '-' k

/-- Adds an entry to a mapping, unless its key is there. -/
def insert? (entries : List (String × Tree)) (key : Tree) (t : Tree) :
    Option (List (String × Tree)) := do
  let key ← keyOf? key
  if entries.any fun e => e.1 == key then none else return entries ++ [(key, t)]

mutual

/-- A node of a block right of the column `parent`; a mapping or a sequence may start here only if
`compact` holds. -/
def node? (fuel : Nat) (parent : Int) (compact : Bool) (anchors : Anchors) (k : Cursor) :
    Option (Tree × Anchors × Cursor) :=
  match fuel with
  | 0 => none
  | fuel + 1 =>
      if startsItem k then if compact then sequence? fuel k.column [] anchors k else none
      else if startsWith '?' k || (key? anchors k).isSome then
        if compact then mapping? fuel k.column [] anchors k else none
      else do
        let (p, crossed, start) ← properties? parent k.rest.length {} k
        if start.rest.isEmpty || (crossed && start.column ≤ parent) then
          let t ← resolveTagged? p.tag []
          return (t, note p t anchors, start.lineBefore)
        else if crossed then
          let (t, anchors, k) ← node? fuel parent true anchors start
          return (t, note p t anchors, k)
        else
          match start.rest with
          | '[' :: _ => do
              let (items, anchors, k) ← flowItems? fuel [] anchors (start.drop 1)
              return (.list items, note p (.list items) anchors, k)
          | '\x7b' :: _ => do
              let (entries, anchors, k) ← flowEntries? fuel [] anchors (start.drop 1)
              return (.table entries, note p (.table entries) anchors, k)
          | '|' :: _ => do
              let (cs, k) ← blockScalar? false parent (start.drop 1)
              return (.text (.ofList cs), note p (.text (.ofList cs)) anchors, k)
          | '>' :: _ => do
              let (cs, k) ← blockScalar? true parent (start.drop 1)
              return (.text (.ofList cs), note p (.text (.ofList cs)) anchors, k)
          | _ => do
              let (t, k) ← scalar? false parent p anchors start
              return (t, note p t anchors, k)

/-- A key after a question mark in a column. The cursor is after the colon of the value, or, if there
is no value, after the key. -/
def markedKey? (fuel : Nat) (column : Nat) (anchors : Anchors) (k : Cursor) :
    Option (Tree × Anchors × Cursor × Bool) :=
  match fuel with
  | 0 => none
  | fuel + 1 => do
      let after := k.drop 1
      let (crossed, start) ← skip? column after
      let (key, anchors, k) ←
        if start.rest.isEmpty || (crossed && start.column ≤ column) then
          some (.nothing, anchors, after)
        else node? fuel column true anchors start
      let (crossed, next) ← skip? column k
      if crossed && next.column = column && startsWith ':' next then
        return (key, anchors, next.drop 1, true)
      else return (key, anchors, k, false)

/-- The entries of a mapping in a column. -/
def mapping? (fuel : Nat) (column : Nat) (entries : List (String × Tree)) (anchors : Anchors)
    (k : Cursor) : Option (Tree × Anchors × Cursor) :=
  match fuel with
  | 0 => none
  | fuel + 1 => do
      let marked := startsWith '?' k
      let (key, anchors, after, hasValue) ←
        if marked then markedKey? fuel column anchors k
        else (key? anchors k).map fun (key, anchors, after) => (key, anchors, after, true)
      guard !(hasValue && isUndivided after.rest)
      let (crossed, start) ← skip? column after
      let (t, anchors, k) ←
        if !hasValue || start.rest.isEmpty then some (.nothing, anchors, after)
        else if !crossed then node? fuel column marked anchors start
        else if column < start.column then node? fuel column true anchors start
        else if start.column = column && startsItem start then
          sequence? fuel column [] anchors start
        else some (.nothing, anchors, after)
      let entries ← insert? entries key t
      let (crossed, next) ← skip? column k
      if next.rest.isEmpty || (crossed && next.column < column) then
        return (.table entries, anchors, k)
      else if crossed && next.column = column then mapping? fuel column entries anchors next
      else none

/-- The items of a sequence in a column, the last one first. -/
def sequence? (fuel : Nat) (column : Nat) (items : List Tree) (anchors : Anchors) (k : Cursor) :
    Option (Tree × Anchors × Cursor) :=
  match fuel with
  | 0 => none
  | fuel + 1 => do
      let after := k.drop 1
      let (crossed, start) ← skip? column after
      let (t, anchors, k) ←
        if start.rest.isEmpty || (crossed && start.column ≤ column) then
          some (.nothing, anchors, after)
        else node? fuel column true anchors start
      let items := t :: items
      let (crossed, next) ← skip? column k
      if next.rest.isEmpty || (crossed && next.column < column) then
        return (.list items.reverse, anchors, k)
      else if crossed && next.column = column then
        if startsItem next then sequence? fuel column items anchors next
        else return (.list items.reverse, anchors, k)
      else none

/-- A node between brackets or braces. -/
def flowNode? (fuel : Nat) (anchors : Anchors) (k : Cursor) : Option (Tree × Anchors × Cursor) :=
  match fuel with
  | 0 => none
  | fuel + 1 => do
      let (p, _, start) ← properties? (-1) k.rest.length {} k
      match start.rest with
      | '[' :: _ => do
          let (items, anchors, k) ← flowItems? fuel [] anchors (start.drop 1)
          return (.list items, note p (.list items) anchors, k)
      | '\x7b' :: _ => do
          let (entries, anchors, k) ← flowEntries? fuel [] anchors (start.drop 1)
          return (.table entries, note p (.table entries) anchors, k)
      | _ => do
          let (t, k) ← scalar? true (-1) p anchors start
          return (t, note p t anchors, k)

/-- The value after a colon between brackets or braces, which may be missing. -/
def flowValue? (fuel : Nat) (anchors : Anchors) (k : Cursor) : Option (Tree × Anchors × Cursor) :=
  match fuel with
  | 0 => none
  | fuel + 1 => do
      let (_, start) ← skip? (-1) k
      match start.rest with
      | ',' :: _ => return (.nothing, anchors, start)
      | ']' :: _ => return (.nothing, anchors, start)
      | '\x7d' :: _ => return (.nothing, anchors, start)
      | _ => flowNode? fuel anchors start

/-- The items of a list after its opening bracket or a comma, the last one first. -/
def flowItems? (fuel : Nat) (items : List Tree) (anchors : Anchors) (k : Cursor) :
    Option (List Tree × Anchors × Cursor) :=
  match fuel with
  | 0 => none
  | fuel + 1 => do
      let (_, start) ← skip? (-1) k
      match start.rest with
      | ']' :: _ => return (items.reverse, anchors, start.drop 1)
      | _ =>
          let (t, anchors, k) ← flowNode? fuel anchors start
          let (_, k) ← skip? (-1) k
          let (t, anchors, k) ← match k.rest with
            | ':' :: _ =>
                (flowValue? fuel anchors (k.drop 1)).bind fun (v, anchors, k) =>
                  (insert? [] t v).map fun entries => (Tree.table entries, anchors, k)
            | _ => some (t, anchors, k)
          let (_, k) ← skip? (-1) k
          match k.rest with
          | ',' :: _ => flowItems? fuel (t :: items) anchors (k.drop 1)
          | ']' :: _ => return ((t :: items).reverse, anchors, k.drop 1)
          | _ => none

/-- The entries of a mapping after its opening brace or a comma. -/
def flowEntries? (fuel : Nat) (entries : List (String × Tree)) (anchors : Anchors) (k : Cursor) :
    Option (List (String × Tree) × Anchors × Cursor) :=
  match fuel with
  | 0 => none
  | fuel + 1 => do
      let (_, start) ← skip? (-1) k
      match start.rest with
      | '\x7d' :: _ => return (entries, anchors, start.drop 1)
      | _ =>
          let (key, anchors, k) ← flowNode? fuel anchors start
          let (_, k) ← skip? (-1) k
          let (t, anchors, k) ← match k.rest with
            | ':' :: _ => flowValue? fuel anchors (k.drop 1)
            | _ => some (Tree.nothing, anchors, k)
          let entries ← insert? entries key t
          let (_, k) ← skip? (-1) k
          match k.rest with
          | ',' :: _ => flowEntries? fuel entries anchors (k.drop 1)
          | '\x7d' :: _ => return (entries, anchors, k.drop 1)
          | _ => none

end

/-! ## Documents -/

/-- Line breaks are written in one way. -/
def normalized : List Char → List Char
  | [] => []
  | '\r' :: '\n' :: rest => '\n' :: normalized rest
  | c :: rest => (if c = '\r' then '\n' else c) :: normalized rest

/-- A document: its lines in reverse, and whether the first one starts after a marker. -/
structure Document where
  marked : Bool
  lines : List (List Char)

/-- Documents under construction, the last one first. -/
structure Documents where
  finished : List Document := []
  current : Option Document := none
  /-- A directive waits for its document. -/
  directive : Bool := false

namespace Documents

def close (d : Documents) : Documents :=
  { d with finished := d.current.toList ++ d.finished, current := none }

def startsMarker (mark : String) (line : List Char) : Bool :=
  mark.toList.isPrefixOf line && endsWord (line.drop 3)

/-- A line without content. -/
def isVoid (line : List Char) : Bool :=
  (line.dropWhile isBlank).head?.all (· = '#')

/-- Adds a line. -/
def add? (d : Documents) (line : List Char) : Option Documents :=
  if startsMarker "---" line then
    let first := ' ' :: ' ' :: ' ' :: line.drop 3
    some { d.close with current := some ⟨true, [first]⟩, directive := false }
  else if startsMarker "..." line then
    if d.directive || !isVoid (line.drop 3) then none else some d.close
  else
    match d.current with
    | some doc => some { d with current := some { doc with lines := line :: doc.lines } }
    | none =>
        if isVoid line then some d
        else if line.head? == some '%' then some { d with directive := true }
        else if d.directive then none
        else some { d with current := some ⟨false, [line]⟩ }

/-- The documents of lines. -/
def ofLines? (d : Documents) : List (List Char) → Option (List Document)
  | [] => if d.directive then none else some d.close.finished
  | line :: rest => (d.add? line).bind fun d => ofLines? d rest

end Documents

/-- The tree of a document. -/
def Document.tree? (d : Document) : Option Tree := do
  let cs := List.intercalate ['\n'] d.lines.reverse
  let (crossed, start) ← skip? (-1) ⟨cs, 0⟩
  if start.rest.isEmpty then return .nothing
  else
    let (t, _, k) ← node? (4 * cs.length + 4) (-1) (crossed || !d.marked) [] start
    let (_, k) ← skip? (-1) k
    guard k.rest.isEmpty
    return t

/-- The entries of a text; a text without a document has none. -/
def parse? (s : String) : Option (List (String × Tree)) := do
  match ← Documents.ofLines? {} (linesOf [] (normalized s.toList)) with
  | [] => return []
  | [d] => (← d.tree?).entries?
  | _ => none

end Defs

end Yaml
end GoalDirected
