import GoalDirected.CommandLine.Usage
import GoalDirected.Config.Setting

/-!
# Reading a command line

**Input.** The words of a command line, without the name of the program.

**Algorithm.** Words are read from left to right, first those of the program and then those of a
command. A word that has been read stays pending until the next option, flag or positional word
begins, and is checked only then; a word that nothing can be made of is refused before what is
pending is looked at. After the double hyphen, and after the first argument of a program that is run,
all words are positional.

**Results.** `read` is the invocation that a command line stands for, or why there is none.
-/

namespace GoalDirected
namespace CommandLine

section Defs

/-- The options that every command takes. -/
structure Options where
  configFile : Option String := none
  queueCapacity : Option Nat := none
deriving DecidableEq

inductive Command where
  | run (program : String) (args : List String)
  | order (program : String)
deriving DecidableEq

/-- A command with its options. -/
structure Invocation where
  command : Command
  options : Options
deriving DecidableEq

/-! ## Words -/

/-- The names of options. -/
inductive Flag where
  | configFile
  | queueCapacity
deriving DecidableEq

def Flag.ofName? (name : String) : Option Flag :=
  if name = "config" then some .configFile
  else if name = "queue-capacity" then some .queueCapacity
  else none

/-- A word by its hyphens. -/
inductive Word where
  /-- Two hyphens and nothing else. -/
  | double
  /-- A name after two hyphens, with the value after an equals sign. -/
  | long (name : String) (value : Option String)
  /-- Letters after one hyphen. -/
  | short (letters : List Char)
  | plain
deriving DecidableEq

def Word.ofString (w : String) : Word :=
  match w.toList with
  | ['-', '-'] => .double
  | '-' :: '-' :: cs =>
      let name := cs.takeWhile (· != '=')
      match cs.drop name.length with
      | _ :: value => .long (.ofList name) (some (.ofList value))
      | [] => .long (.ofList name) none
  | '-' :: c :: cs => .short (c :: cs)
  | _ => .plain

/-! ## Pending words -/

/-- What has been read and not been checked yet. -/
inductive Pending where
  | nothing
  | flag (f : Flag) (value : Option String)
  | program (path : String)
  | arguments (words : List String)

/-- What has been read of the words of a command. -/
structure Progress where
  options : Options := {}
  program : Option String := none
  arguments : List String := []
  pending : Pending := .nothing
  /-- A program has been read, and may be pending. -/
  hasProgram : Bool := false
  /-- All further words are positional. -/
  positional : Bool := false

/-- Gives an option its value, at most once. -/
def Options.set (o : Options) (f : Flag) (value : String) : Except Usage Options :=
  match f with
  | .configFile =>
      if o.configFile.isSome then .error .repeatedOption
      else if value = "" then .error .missingValue
      else .ok { o with configFile := some value }
  | .queueCapacity =>
      if o.queueCapacity.isSome then .error .repeatedOption
      else
        match readCount? value with
        | some n => .ok { o with queueCapacity := some n }
        | none => .error .malformedNumber

/-- The options of a command hide those in front of it. -/
def Options.or (inner outer : Options) : Options where
  configFile := inner.configFile.or outer.configFile
  queueCapacity := inner.queueCapacity.or outer.queueCapacity

namespace Progress

/-- Checks what is pending. -/
def settle (p : Progress) : Except Usage Progress :=
  match p.pending with
  | .nothing => .ok p
  | .flag _ none => .error .missingValue
  | .flag f (some value) =>
      (p.options.set f value).map fun options => { p with options, pending := .nothing }
  | .program path =>
      if path = "" then .error .missingValue
      else .ok { p with program := some path, pending := .nothing }
  | .arguments words => .ok { p with arguments := words, pending := .nothing }

/-- The option that waits for its value. -/
def awaiting? (p : Progress) : Option Flag :=
  match p.pending with
  | .flag f none => some f
  | _ => none

/-- Reads a word with hyphens; none if it has none or may be an argument of a program. -/
def hyphenated (p : Progress) (topic : Topic) (lenient : Bool) :
    Word → Except Usage (Option Progress)
  | .long name value =>
      if name = "help" then
        if value.isSome then .error .unexpectedValue
        else
          match p.settle with
          | .ok _ => .error (.help topic)
          | .error e => .error e
      else
        match Flag.ofName? name, value with
        | some f, some v => do
            let p ← p.settle
            let options ← p.options.set f v
            return some { p with options }
        | some f, none => do
            let p ← p.settle
            return some { p with pending := .flag f none }
        | none, _ => if lenient then .ok none else .error .unknownArgument
  | .short letters =>
      if lenient && letters.any (· != 'h') then .ok none
      else if letters.head? = some 'h' then
        match p.settle with
        | .ok _ => .error (.help topic)
        | .error e => .error e
      else .error .unknownArgument
  | _ => .ok none

/-- Reads a positional word of a command; only a program that is run takes arguments. -/
def place (p : Progress) (topic : Topic) (w : String) : Except Usage Progress :=
  if !p.hasProgram then do
    let p ← p.settle
    return { p with pending := .program w, hasProgram := true }
  else if topic = .run then
    match p.pending with
    | .arguments words => .ok { p with pending := .arguments (words ++ [w]) }
    | _ => do
        let p ← p.settle
        return { p with pending := .arguments [w], positional := true }
  else .error .unknownArgument

/-- Reads a word of a command. -/
def word (topic : Topic) (p : Progress) (w : String) : Except Usage Progress :=
  if p.positional then p.place topic w
  else
    match Word.ofString w with
    | .double => .ok { p with positional := true }
    | word =>
        match p.hyphenated topic (topic = .run && p.hasProgram) word with
        | .error e => .error e
        | .ok (some p) => .ok p
        | .ok none =>
            match p.awaiting? with
            | some f => .ok { p with pending := .flag f (some w) }
            | none => p.place topic w

end Progress

/-! ## Commands -/

/-- The command of a name. -/
def Topic.ofName? (name : String) : Option Topic :=
  if name = "run" then some .run
  else if name = "order" then some .order
  else if name = "help" then some .help
  else none

/-- The help that is asked for by the words after the command `help`. -/
def helpOn : List String → Usage
  | [] => .help .overview
  | [name] =>
      match Topic.ofName? name with
      | some t => .help t
      | none => .unknownCommand
  | _ => .unknownCommand

/-- Reads the words of a command that has a program. -/
def readCommand (topic : Topic) (words : List String) : Except Usage Invocation := do
  let p ← words.foldlM (Progress.word topic) {}
  let p ← p.settle
  match p.program with
  | none => .error .missingProgram
  | some program =>
      let command := if topic = .run then .run program p.arguments else .order program
      return ⟨command, p.options⟩

/-- Reads words up to the name of a command, and then the words of the command. -/
def readFrom (p : Progress) : List String → Except Usage Invocation
  | [] =>
      match p.settle with
      | .error e => .error e
      | .ok p => .error (if p.options = {} then .nothingGiven else .missingCommand)
  | w :: rest =>
      if p.positional then
        .error (if (Topic.ofName? w).isSome then .unknownArgument else .unknownCommand)
      else
        match p.awaiting?, Topic.ofName? w with
        | none, some .help => .error (helpOn rest)
        | none, some topic =>
            match readCommand topic rest, p.settle with
            | .error e, _ => .error e
            | .ok _, .error e => .error e
            | .ok i, .ok p => .ok { i with options := i.options.or p.options }
        | awaiting, _ =>
            match Word.ofString w with
            | .double => readFrom { p with positional := true } rest
            | word =>
                match p.hyphenated .overview false word, awaiting with
                | .error e, _ => .error e
                | .ok (some p), _ => readFrom p rest
                | .ok none, some f => readFrom { p with pending := .flag f (some w) } rest
                | .ok none, none => .error .unknownCommand

/-- The invocation that a command line stands for. -/
def read (words : List String) : Except Usage Invocation :=
  readFrom {} words

end Defs

end CommandLine
end GoalDirected
