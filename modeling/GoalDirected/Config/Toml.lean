import GoalDirected.Decimal.Reading
import GoalDirected.Json.Reader

/-!
# TOML documents

**Input.** The text of a configuration file.

**Algorithm.** A document is a list of lines: a key with a value, the header of a table, the header of
an element of an array of tables, or nothing, each with an optional comment. The table under
construction remembers how each of its parts came about, because a part may be extended only in the
way in which it was begun, and no key may be given twice.

**Results.** `Toml.parse?` is the top-level table of a document.
-/

namespace GoalDirected
namespace Toml

section Defs

inductive Value where
  | text (s : String)
  | integer (n : Int)
  | real (x : Float)
  | bool (b : Bool)
  /-- A date, a time, or both. -/
  | moment (s : String)
  | array (items : List Value)
  | table (entries : List (String × Value))

/-- How a table came about. -/
inductive Origin where
  /-- It was named inside a longer header. -/
  | implied
  | header
  /-- It was named inside a dotted key. -/
  | dotted
deriving DecidableEq

/-- A part of a document under construction. -/
inductive Node where
  | value (v : Value)
  | table (origin : Origin) (entries : List (String × Node))
  /-- An array of tables, the last one first. -/
  | tables (last : List (String × Node)) (earlier : List (List (String × Node)))

abbrev Entries := List (String × Node)

/-! ## Tables -/

/-- Replaces the entry of a key, which is there. -/
def replace : Entries → String → Node → Entries
  | [], key, n => [(key, n)]
  | (k, m) :: rest, key, n => if k = key then (k, n) :: rest else (k, m) :: replace rest key n

/-- Adds a value under a dotted key. A table that a header or an array has begun takes no value
directly from a dotted key, so `takes` says whether the last key may be added where it stands. -/
def insert? (takes : Bool) : Entries → List String → Value → Option Entries
  | _, [], _ => none
  | entries, [key], v =>
      match takes, entries.lookup key with
      | true, none => some (entries ++ [(key, .value v)])
      | _, _ => none
  | entries, key :: path, v =>
      match entries.lookup key with
      | none => (insert? true [] path v).map fun inner => entries ++ [(key, .table .dotted inner)]
      | some (.table .dotted inner) =>
          (insert? true inner path v).map fun inner => replace entries key (.table .dotted inner)
      | some (.table .implied inner) =>
          (insert? false inner path v).map fun inner => replace entries key (.table .implied inner)
      | some (.tables last earlier) =>
          (insert? false last path v).map fun last => replace entries key (.tables last earlier)
      | some _ => none

/-- Applies a change to the table under a path; `open?` is applied to its last key. -/
def descend? (open? : Entries → String → Option Entries) : Entries → List String → Option Entries
  | _, [] => none
  | entries, [key] => open? entries key
  | entries, key :: path =>
      match entries.lookup key with
      | none => (descend? open? [] path).map fun inner => entries ++ [(key, .table .implied inner)]
      | some (.table origin inner) =>
          (descend? open? inner path).map fun inner => replace entries key (.table origin inner)
      | some (.tables last earlier) =>
          (descend? open? last path).map fun last => replace entries key (.tables last earlier)
      | some (.value _) => none

/-- Opens a table by its header. It comes after all tables before it, even if it was implied by one of
them. -/
def openTable? (entries : Entries) (key : String) : Option Entries :=
  match entries.lookup key with
  | none => some (entries ++ [(key, .table .header [])])
  | some (.table .implied inner) =>
      some ((entries.filter fun e => e.1 != key) ++ [(key, .table .header inner)])
  | some _ => none

/-- Opens a new element of an array of tables. -/
def openElement? (entries : Entries) (key : String) : Option Entries :=
  match entries.lookup key with
  | none => some (entries ++ [(key, .tables [] [])])
  | some (.tables last earlier) => some (replace entries key (.tables [] (last :: earlier)))
  | some _ => none

/-- Applies a change to the entries of the open table under a path. -/
def inside? (change : Entries → Option Entries) : Entries → List String → Option Entries
  | entries, [] => change entries
  | entries, key :: path =>
      match entries.lookup key with
      | some (.table origin inner) =>
          (inside? change inner path).map fun inner => replace entries key (.table origin inner)
      | some (.tables last earlier) =>
          (inside? change last path).map fun last => replace entries key (.tables last earlier)
      | _ => none

/-! ## Blanks -/

def isBlank (c : Char) : Bool :=
  c = ' ' || c = '\t'

def skipBlanks (cs : List Char) : List Char :=
  cs.dropWhile isBlank

/-- A control character that may not stand in a string or a comment. -/
def isControl (c : Char) : Bool :=
  (c.toNat < 0x20 && c != '\t') || c.toNat = 0x7f

/-- The line break at the front, or the end of the text. -/
def lineEnd? : List Char → Option (List Char)
  | [] => some []
  | '\n' :: rest => some rest
  | '\r' :: '\n' :: rest => some rest
  | _ => none

/-- Skips a comment at the front, if there is one. -/
def skipComment (cs : List Char) : List Char :=
  match cs with
  | '#' :: rest => rest.dropWhile fun c => !isControl c
  | _ => cs

/-- The rest after blanks, a comment and a line break. -/
def finishLine? (cs : List Char) : Option (List Char) :=
  lineEnd? (skipComment (skipBlanks cs))

/-- Skips blanks, comments and line breaks. -/
def skipLines : Nat → List Char → List Char
  | 0, cs => cs
  | fuel + 1, cs =>
      match skipComment (skipBlanks cs) with
      | '\n' :: rest => skipLines fuel rest
      | '\r' :: '\n' :: rest => skipLines fuel rest
      | rest => rest

/-! ## Strings -/

/-- The value of hexadecimal digits. -/
def hexNumber? (cs : List Char) : Option Nat :=
  cs.foldl (fun n c => n.bind fun n => (Json.hexValue? c).map fun d => 16 * n + d) (some 0)

/-- The character of a number that is not a surrogate. -/
def scalar? (n : Nat) : Option Char :=
  if n < 0xd800 ∨ (0xdfff < n ∧ n < 0x110000) then some (Char.ofNat n) else none

/-- The character of an escape, after its backslash. -/
def escape? : List Char → Option (Char × List Char)
  | 'b' :: rest => some ('\x08', rest)
  | 't' :: rest => some ('\t', rest)
  | 'n' :: rest => some ('\n', rest)
  | 'f' :: rest => some ('\x0c', rest)
  | 'r' :: rest => some ('\r', rest)
  | '"' :: rest => some ('"', rest)
  | '\\' :: rest => some ('\\', rest)
  | 'u' :: rest =>
      if rest.length < 4 then none
      else ((hexNumber? (rest.take 4)).bind scalar?).map fun c => (c, rest.drop 4)
  | 'U' :: rest =>
      if rest.length < 8 then none
      else ((hexNumber? (rest.take 8)).bind scalar?).map fun c => (c, rest.drop 8)
  | _ => none

/-- The rest of a string on one line, after its opening quote. -/
def basic? : Nat → List Char → List Char → Option (String × List Char)
  | 0, _, _ => none
  | _, _, [] => none
  | fuel + 1, read, c :: rest =>
      if c = '"' then some (.ofList read.reverse, rest)
      else if c = '\\' then
        match escape? rest with
        | some (c, rest) => basic? fuel (c :: read) rest
        | none => none
      else if isControl c then none
      else basic? fuel (c :: read) rest

/-- The rest of a string without escapes on one line. -/
def literal? (cs : List Char) : Option (String × List Char) :=
  let content := cs.takeWhile fun c => c != '\'' && !isControl c
  match cs.drop content.length with
  | '\'' :: rest => some (.ofList content, rest)
  | _ => none

/-- Drops the line break that may follow the opening quotes of a string on several lines. -/
def dropBreak (cs : List Char) : List Char :=
  match cs with
  | '\n' :: rest => rest
  | '\r' :: '\n' :: rest => rest
  | _ => cs

/-- Skips blanks and line breaks after a backslash at the end of a line. -/
def skipBreaks : List Char → List Char
  | '\r' :: '\n' :: rest => skipBreaks rest
  | c :: rest => if isBlank c || c = '\n' then skipBreaks rest else c :: rest
  | [] => []

/-- The rest of a string on several lines, closed by three of the given quotes; up to two more may
stand before them. -/
def long? (quote : Char) (escapes : Bool) : Nat → List Char → List Char → Option (String × List Char)
  | 0, _, _ => none
  | _, _, [] => none
  | fuel + 1, read, c :: rest =>
      if c = quote then
        let quotes := (c :: rest).takeWhile (· = quote)
        if quotes.length < 3 then long? quote escapes fuel (c :: read) rest
        else if 5 < quotes.length then none
        else
          some (.ofList (read.reverse ++ quotes.drop 3), (c :: rest).drop quotes.length)
      else if escapes && c = '\\' then
        match skipBlanks rest with
        | '\n' :: more => long? quote escapes fuel read (skipBreaks more)
        | '\r' :: '\n' :: more => long? quote escapes fuel read (skipBreaks more)
        | _ =>
            match escape? rest with
            | some (c, rest) => long? quote escapes fuel (c :: read) rest
            | none => none
      else if c = '\n' then long? quote escapes fuel (c :: read) rest
      else if c = '\r' then
        match rest with
        | '\n' :: more => long? quote escapes fuel ('\n' :: read) more
        | _ => none
      else if isControl c then none
      else long? quote escapes fuel (c :: read) rest

/-! ## Scalars -/

/-- Digits without the underscores between them. -/
def ungroup? (isDigit : Char → Bool) : List Char → Option (List Char)
  | [] => none
  | [c] => if isDigit c then some [c] else none
  | c :: '_' :: rest => if isDigit c then (ungroup? isDigit rest).map (c :: ·) else none
  | c :: rest => if isDigit c then (ungroup? isDigit rest).map (c :: ·) else none

/-- Decimal digits of a whole number, without a superfluous zero in front. -/
def whole? (cs : List Char) : Option (List Char) :=
  match ungroup? Char.isDigit cs with
  | some ['0'] => some ['0']
  | some ('0' :: _) => none
  | other => other

def inRange? (n : Int) : Option Value :=
  if -0x8000000000000000 ≤ n ∧ n < 0x8000000000000000 then some (.integer n) else none

/-- Digits in a base below seventeen. -/
def based? (base : Nat) (cs : List Char) : Option Value := do
  let digits ← ungroup? (fun c => (Json.hexValue? c).any (· < base)) cs
  inRange? (digits.foldl (fun (n : Nat) c => base * n + (Json.hexValue? c).getD 0) 0 : Nat)

def integer? (cs : List Char) : Option Value :=
  match cs with
  | '0' :: 'x' :: rest => based? 16 rest
  | '0' :: 'o' :: rest => based? 8 rest
  | '0' :: 'b' :: rest => based? 2 rest
  | _ =>
      let (negative, digits) := Decimal.splitSign cs
      (whole? digits).bind fun ds =>
        let n : Int := Decimal.digitsValue ds
        inRange? (if negative then -n else n)

/-- A double. A decimal above all doubles is refused; one below them is negative infinity. -/
def real? (cs : List Char) : Option Value :=
  let (negative, rest) := Decimal.splitSign cs
  let signed (x : Float) : Value := .real (if negative then -x else x)
  if rest = "inf".toList then some (signed (1.0 / 0.0))
  else if rest = "nan".toList then some (signed (0.0 / 0.0))
  else
    let isMark (c : Char) : Bool := c = 'e' || c = 'E'
    let mantissa := rest.takeWhile fun c => !isMark c
    let power := rest.drop mantissa.length
    let whole := mantissa.takeWhile (· != '.')
    let fraction := mantissa.drop whole.length
    if power.isEmpty && fraction.isEmpty then none
    else do
      let digits ← whole? whole
      let places ← if fraction.isEmpty then some [] else ungroup? Char.isDigit (fraction.drop 1)
      let exponent ←
        if power.isEmpty then some 0
        else
          let (minus, ds) := Decimal.splitSign (power.drop 1)
          (ungroup? Char.isDigit ds).map fun ds =>
            let n : Int := Decimal.digitsValue ds
            if minus then -n else n
      let x := Decimal.nearest (Decimal.digitsValue (digits ++ places)) (exponent - places.length)
      if x.isInf && !negative then none else return signed x

/-- A number of exactly `width` digits, not above `limit`. -/
def field? (width low limit : Nat) (cs : List Char) : Option (List Char) :=
  let ds := cs.take width
  let n := Decimal.digitsValue ds
  if ds.length = width && ds.all Char.isDigit && low ≤ n && n ≤ limit then some (cs.drop width)
  else none

def exactly? (c : Char) : List Char → Option (List Char)
  | d :: rest => if d = c then some rest else none
  | [] => none

def daysIn (year month : Nat) : Nat :=
  if month = 2 then
    if year % 4 = 0 && (year % 100 != 0 || year % 400 = 0) then 29 else 28
  else if [4, 6, 9, 11].contains month then 30 else 31

/-- A date at the front. -/
def date? (cs : List Char) : Option (List Char) := do
  let year := Decimal.digitsValue (cs.take 4)
  let month := Decimal.digitsValue ((cs.drop 5).take 2)
  let cs ← field? 4 0 9999 cs
  let cs ← exactly? '-' cs
  let cs ← field? 2 1 12 cs
  let cs ← exactly? '-' cs
  field? 2 1 (daysIn year month) cs

/-- A time at the front, with an hour not above `lastHour`. -/
def time? (lastHour : Nat) (cs : List Char) : Option (List Char) := do
  let cs ← field? 2 0 lastHour cs
  let cs ← exactly? ':' cs
  let cs ← field? 2 0 59 cs
  let cs ← exactly? ':' cs
  let cs ← field? 2 0 60 cs
  match cs with
  | '.' :: rest =>
      let places := rest.takeWhile Char.isDigit
      if places.isEmpty then none else some (rest.drop places.length)
  | _ => some cs

/-- The text of a time: nine places of a second at most, and none that are zero at the end. -/
def timeText (cs : List Char) : List Char :=
  let places := (((cs.drop 9).take 9).reverse.dropWhile (· = '0')).reverse
  if places.isEmpty then cs.take 8 else cs.take 8 ++ '.' :: places

/-- The text of an offset, which has to be all that is left after a time. -/
def offset? (cs : List Char) : Option (List Char) :=
  match cs with
  | [] => some []
  | ['Z'] => some ['Z']
  | ['z'] => some ['Z']
  | c :: rest =>
      if (c = '+' || c = '-') &&
          (((field? 2 0 23 rest).bind (exactly? ':')).bind (field? 2 0 59)).any List.isEmpty then
        some ((if rest = "00:00".toList then '+' else c) :: rest)
      else none

/-- A date, a time, or a date with a time and an offset. -/
def momentWith? (lastHour : Nat) (offset? : List Char → Option (List Char)) (cs : List Char) :
    Option Value :=
  match date? cs with
  | some [] => some (.moment (.ofList cs))
  | some (c :: rest) =>
      if c = 'T' || c = 't' || c = ' ' then do
        let zone ← time? lastHour rest
        let offset ← offset? zone
        let time := timeText (rest.take (rest.length - zone.length))
        return .moment (.ofList (cs.take 10 ++ 'T' :: time ++ offset))
      else none
  | none =>
      match time? lastHour cs with
      | some [] => some (.moment (.ofList (timeText cs)))
      | _ => none

/-- A moment that is written where a value may stand. -/
def moment? (cs : List Char) : Option Value :=
  momentWith? 23 offset? cs

/-- Two digits. -/
def twoDigits (n : Nat) : List Char :=
  [Nat.digitChar (n / 10), Nat.digitChar (n % 10)]

/-- The text of an offset that is stated in a text: it may be as long as a day, and its minutes may be
more than an hour. -/
def statedOffset? (cs : List Char) : Option (List Char) :=
  match cs with
  | [] => some []
  | ['Z'] => some ['Z']
  | ['z'] => some ['Z']
  | [sign, a, b, ':', c, d] =>
      let minutes := 60 * Decimal.digitsValue [a, b] + Decimal.digitsValue [c, d]
      if (sign = '+' || sign = '-') && [a, b, c, d].all Char.isDigit && minutes ≤ 24 * 60 then
        some ((if minutes = 0 then '+' else sign) ::
          twoDigits (minutes / 60) ++ ':' :: twoDigits (minutes % 60))
      else none
  | _ => none

/-- A moment that is stated in a text. -/
def statedMoment? (cs : List Char) : Option Value :=
  momentWith? 24 statedOffset? cs

def isTokenChar (c : Char) : Bool :=
  c.isAlphanum || c = '+' || c = '-' || c = '_' || c = '.' || c = ':'

/-- The characters of a scalar: up to two words, if the first is a date and the second a time. -/
def token (cs : List Char) : List Char × List Char :=
  let first := cs.takeWhile isTokenChar
  let rest := cs.drop first.length
  match rest with
  | ' ' :: more =>
      if date? first == some [] && (time? 23 more).isSome then
        let second := more.takeWhile isTokenChar
        (first ++ ' ' :: second, more.drop second.length)
      else (first, rest)
  | _ => (first, rest)

def scalarValue? (cs : List Char) : Option (Value × List Char) :=
  let (word, rest) := token cs
  let value : Option Value :=
    if word = "true".toList then some (.bool true)
    else if word = "false".toList then some (.bool false)
    else ((integer? word).or (real? word)).or (moment? word)
  value.map fun v => (v, rest)

/-! ## Keys -/

def isBareKeyChar (c : Char) : Bool :=
  c.isAlphanum || c = '_' || c = '-'

/-- One part of a key. -/
def keyPart? (cs : List Char) : Option (String × List Char) :=
  match cs with
  | '"' :: rest => basic? (rest.length + 1) [] rest
  | '\'' :: rest => literal? rest
  | _ =>
      let bare := cs.takeWhile isBareKeyChar
      if bare.isEmpty then none else some (.ofList bare, cs.drop bare.length)

/-- A key with its parts, blanks around them apart. -/
def keyParts? : Nat → List Char → Option (List String × List Char)
  | 0, _ => none
  | fuel + 1, cs =>
      match keyPart? (skipBlanks cs) with
      | none => none
      | some (part, rest) =>
          match skipBlanks rest with
          | '.' :: rest => (keyParts? fuel rest).map fun (parts, rest) => (part :: parts, rest)
          | rest => some ([part], rest)

/-- The largest number of parts of a key, and of arrays and inline tables inside one another. -/
def depthLimit : Nat := 79

/-- A key that has not too many parts. -/
def key? (fuel : Nat) (cs : List Char) : Option (List String × List Char) :=
  (keyParts? fuel cs).filter fun (parts, _) => parts.length ≤ depthLimit

/-! ## Values -/

/-- The key of a table that stands for a moment. -/
def momentKey : String := "$__toml_private_datetime"

/-- The value of finished entries: a table, or the moment that the first of them states. -/
def valueOf? (entries : List (String × Value)) : Option Value :=
  match entries with
  | (key, v) :: _ =>
      if key = momentKey then
        match v with
        | .text s => statedMoment? s.toList
        | _ => none
      else some (.table entries)
  | [] => some (.table [])

mutual

/-- The value of a finished part. -/
def Node.toValue? : Node → Option Value
  | .value v => some v
  | .table _ entries => (toEntries? entries).bind valueOf?
  | .tables last earlier => do
      let last ← (toEntries? last).bind valueOf?
      return .array (← toTables? earlier [last])

def toEntries? : Entries → Option (List (String × Value))
  | [] => some []
  | (key, n) :: rest => do
      let v ← n.toValue?
      return (key, v) :: (← toEntries? rest)

def toTables? : List Entries → List Value → Option (List Value)
  | [], read => some read
  | t :: rest, read => do
      let v ← (toEntries? t).bind valueOf?
      toTables? rest (v :: read)

end

mutual

/-- A value, with `room` for nested arrays and inline tables. -/
def value? (fuel room : Nat) (cs : List Char) : Option (Value × List Char) :=
  match fuel with
  | 0 => none
  | fuel + 1 =>
      match cs with
      | '"' :: '"' :: '"' :: rest =>
          (long? '"' true fuel [] (dropBreak rest)).map fun (s, rest) => (.text s, rest)
      | '"' :: rest => (basic? fuel [] rest).map fun (s, rest) => (.text s, rest)
      | '\'' :: '\'' :: '\'' :: rest =>
          (long? '\'' false fuel [] (dropBreak rest)).map fun (s, rest) => (.text s, rest)
      | '\'' :: rest => (literal? rest).map fun (s, rest) => (.text s, rest)
      | '[' :: rest =>
          if room = 0 then none
          else (items? fuel (room - 1) [] rest).map fun (vs, rest) => (.array vs, rest)
      | '\x7b' :: rest =>
          if room = 0 then none
          else
            match skipBlanks rest with
            | '\x7d' :: rest => some (.table [], rest)
            | rest =>
                (pairs? fuel (room - 1) [] rest).bind fun (es, rest) =>
                  ((toEntries? es).bind valueOf?).map fun v => (v, rest)
      | _ => scalarValue? cs

/-- The items of an array after its opening bracket. -/
def items? (fuel room : Nat) (read : List Value) (cs : List Char) :
    Option (List Value × List Char) :=
  match fuel with
  | 0 => none
  | fuel + 1 =>
      match skipLines fuel cs with
      | ']' :: rest => some (read.reverse, rest)
      | cs =>
          match value? fuel room cs with
          | none => none
          | some (v, rest) =>
              match skipLines fuel rest with
              | ',' :: rest => items? fuel room (v :: read) rest
              | ']' :: rest => some ((v :: read).reverse, rest)
              | _ => none

/-- The pairs of an inline table after its opening brace, at least one. -/
def pairs? (fuel room : Nat) (entries : Entries) (cs : List Char) : Option (Entries × List Char) :=
  match fuel with
  | 0 => none
  | fuel + 1 =>
      match key? fuel cs with
      | some (key, '=' :: rest) =>
          match value? fuel room (skipBlanks rest) with
          | none => none
          | some (v, rest) =>
              match insert? true entries key v, skipBlanks rest with
              | some entries, ',' :: rest => pairs? fuel room entries rest
              | some entries, '\x7d' :: rest => some (entries, rest)
              | _, _ => none
      | _ => none

end

/-! ## Documents -/

/-- A document under construction: its entries and the path of the open table. -/
structure Document where
  entries : Entries := []
  current : List String := []

/-- Reads one line. -/
def line? (fuel : Nat) (d : Document) (cs : List Char) : Option (Document × List Char) :=
  match skipBlanks cs with
  | '[' :: '[' :: rest => do
      let (path, rest) ← key? fuel rest
      match rest with
      | ']' :: ']' :: rest =>
          let entries ← descend? openElement? d.entries path
          let rest ← finishLine? rest
          return (⟨entries, path⟩, rest)
      | _ => none
  | '[' :: rest => do
      let (path, rest) ← key? fuel rest
      match rest with
      | ']' :: rest =>
          let entries ← descend? openTable? d.entries path
          let rest ← finishLine? rest
          return (⟨entries, path⟩, rest)
      | _ => none
  | cs =>
      match finishLine? cs with
      | some rest => some (d, rest)
      | none => do
          let (path, rest) ← key? fuel cs
          match rest with
          | '=' :: rest =>
              let (v, rest) ← value? fuel depthLimit (skipBlanks rest)
              let entries ← inside? (insert? true · path v) d.entries d.current
              let rest ← finishLine? rest
              return (⟨entries, d.current⟩, rest)
          | _ => none

def lines? : Nat → Document → List Char → Option Document
  | _, d, [] => some d
  | 0, _, _ => none
  | fuel + 1, d, cs =>
      match line? (2 * cs.length + 2) d cs with
      | some (d, rest) => lines? fuel d rest
      | none => none

/-- The top-level table of a document. -/
def parse? (s : String) : Option (List (String × Value)) :=
  let cs := match s.toList with
    | '\ufeff' :: rest => rest
    | cs => cs
  match (lines? (cs.length + 1) {} cs).bind fun d => (toEntries? d.entries).bind valueOf? with
  | some (.table entries) => some entries
  | _ => none

end Defs

end Toml
end GoalDirected
