import GoalDirected.Ir.Program
import GoalDirected.Json.Reader

/-!
# Programs from JSON

**Input.** A JSON tree.

**Algorithm.** The members of a part may be given by name, in an object, or by position, in an array.
Unknown members are passed over, a repeated known member is refused. A missing member takes its
default if it has one; null stands only for an optional member that is left out. An instruction is
looked at as a whole before its kind is known, so each part of it has to stand for something, even
one that is passed over.

**Results.** `Program.ofJson?` and its parts; every program reads back from its own JSON.
`Program.parse?` reads the text of a program.
-/

namespace GoalDirected
namespace Ir

section Defs

/-- The known members of a part, by name. -/
abbrev Members := List (String × Json)

/-- The members called `names` of an object, or the items of an array under these names. -/
def members? (names : List String) : Json → Option Members
  | .object members =>
      let known := members.filter fun m => names.contains m.1
      if (known.map (·.1)).Nodup then some known else none
  | .array items => if items.length ≤ names.length then some (names.zip items) else none
  | _ => none

/-- The kind of a part and what is left of it without its kind. -/
def untag? (key : String) : Json → Option (Json × Json)
  | .object members =>
      match members.filter fun m => m.1 == key with
      | [(_, kind)] => some (kind, .object (members.filter fun m => m.1 != key))
      | _ => none
  | .array (kind :: rest) => some (kind, .array rest)
  | _ => none

/-- The content of a part that has none: an object with anything in it, or an empty array. -/
def nothing? {α : Type} (a : α) : Json → Option α
  | .object _ => some a
  | .array [] => some a
  | _ => none

def text? : Json → Option String
  | .text s => some s
  | _ => none

def bool? : Json → Option Bool
  | .bool b => some b
  | _ => none

/-- A slot or a count: a natural number, written without a fraction. -/
def nat? : Json → Option Nat
  | .number (.natural n) => some n
  | _ => none

def real? : Json → Option Float
  | .number n => some n.toFloat
  | _ => none

def list? {α : Type} (read : Json → Option α) : Json → Option (List α)
  | .array items => items.mapM read
  | _ => none

/-- An optional item, where null means that there is none. -/
def option? {α : Type} (read : Json → Option α) : Json → Option (Option α)
  | .null => some none
  | j => (read j).map some

namespace Members

/-- A member that has to be there. -/
def required {α : Type} (ms : Members) (name : String) (read : Json → Option α) : Option α :=
  (ms.lookup name).bind read

/-- A member with a default. -/
def defaulted {α : Type} (ms : Members) (name : String) (read : Json → Option α) (otherwise : α) :
    Option α :=
  match ms.lookup name with
  | some j => read j
  | none => some otherwise

def texts (ms : Members) (name : String) : Option (List String) :=
  ms.defaulted name (list? text?) []

def optional {α : Type} (ms : Members) (name : String) (read : Json → Option α) :
    Option (Option α) :=
  ms.defaulted name (option? read) none

def destination (ms : Members) : Option Destination := do
  let value ← ms.optional "lhs" nat?
  let next ← ms.optional "lhs_next" nat?
  let onFail ← ms.optional "fail_label" text?
  return ⟨value, next, onFail⟩

end Members

/-- The kinds of a constant. -/
def Literal.kinds : List String := ["Nil", "Num", "Str"]

/-- The kind of a constant that is given by name: a text, or an object whose only member has the kind
as its key and nothing as its value. -/
def Literal.namedKind? : Json → Option String
  | .text s => some s
  | .object [(s, .null)] => some s
  | .object [(s, .object [])] => some s
  | _ => none

/-- The kind of a constant that is given as a pair: a text, or the number of the kind. -/
def Literal.pairedKind? : Json → Option String
  | .text s => some s
  | .number (.natural n) => Literal.kinds[n]?
  | _ => none

/-- The kind and the content of a constant, given by name or as a pair. -/
def Literal.parts? : Json → Option (String × Option Json)
  | .array [kind, content] => (Literal.pairedKind? kind).map fun kind => (kind, some content)
  | .object members => do
      let ms ← members? ["k", "v"] (.object members)
      let kind ← ms.required "k" Literal.namedKind?
      return (kind, ms.lookup "v")
  | _ => none

def Literal.ofJson? (j : Json) : Option Literal := do
  match ← Literal.parts? j with
  | ("Nil", none) => some .nil
  | ("Nil", some .null) => some .nil
  | ("Num", some v) => (real? v).map .number
  | ("Str", some v) => (text? v).map .text
  | _ => none

/-- The kinds of an arm by name; the kind may also be given by its number. -/
def Case.kind? : Json → Option String
  | .text s => some s
  | .number (.natural n) => ["Send", "Receive", "Default"][n]?
  | _ => none

def Case.ofJson? (j : Json) : Option Case := do
  let (kind, rest) ← untag? "kind" j
  match ← Case.kind? kind with
  | "Send" => do
      let ms ← members? ["channel", "value", "body"] rest
      let channel ← ms.required "channel" nat?
      let value ← ms.required "value" nat?
      let body ← ms.required "body" text?
      return .send channel value body
  | "Receive" => do
      let ms ← members? ["channel", "lhs", "body"] rest
      let channel ← ms.required "channel" nat?
      let target ← ms.required "lhs" nat?
      let body ← ms.required "body" text?
      return .receive channel target body
  | "Default" => do
      let ms ← members? ["body"] rest
      let body ← ms.required "body" text?
      return .default body
  | _ => none

/-- An instruction of a given kind from its other members. -/
def Instruction.ofMembers? (kind : String) (rest : Json) : Option Instruction :=
  match kind with
  | "Literal" => do
      let ms ← members? ["lhs", "value"] rest
      let target ← ms.required "lhs" nat?
      let value ← ms.required "value" Literal.ofJson?
      return .literal target value
  | "Var" => do
      let ms ← members? ["lhs", "name"] rest
      let target ← ms.required "lhs" nat?
      let name ← ms.required "name" text?
      return .name target name
  | "DynVar" => do
      let ms ← members? ["lhs", "name", "lvalue"] rest
      let target ← ms.required "lhs" nat?
      let name ← ms.required "name" text?
      let assignable ← ms.defaulted "lvalue" bool? false
      return .dynamic target name assignable
  | "Field" => do
      let ms ← members? ["lhs", "expr", "field", "lvalue", "fail_label"] rest
      let target ← ms.required "lhs" nat?
      let record ← ms.required "expr" nat?
      let field ← ms.required "field" text?
      let assignable ← ms.defaulted "lvalue" bool? false
      let onFail ← ms.optional "fail_label" text?
      return .field target record field assignable onFail
  | "Call" => do
      let ms ← members? ["lhs", "lhs_next", "callee", "args", "names", "fail_label"] rest
      let destination ← ms.destination
      let callee ← ms.required "callee" nat?
      let args ← ms.defaulted "args" (list? nat?) []
      let names ← ms.texts "names"
      return .call destination callee args names
  | "Operator" => do
      let ms ← members? ["lhs", "lhs_next", "op", "args", "fail_label"] rest
      let destination ← ms.destination
      let op ← ms.required "op" text?
      let args ← ms.defaulted "args" (list? nat?) []
      return .operator destination op args
  | "Resume" => do
      let ms ← members? ["lhs", "lhs_next", "next", "fail_label"] rest
      let destination ← ms.destination
      let source ← ms.required "next" nat?
      return .resume destination source
  | "Move" => do
      let ms ← members? ["lhs", "rhs"] rest
      let target ← ms.required "lhs" nat?
      let source ← ms.required "rhs" nat?
      return .move target source
  | "Deref" => do
      let ms ← members? ["lhs", "value"] rest
      let target ← ms.required "lhs" nat?
      let source ← ms.required "value" nat?
      return .deref target source
  | "MoveLabel" => do
      let ms ← members? ["lhs", "label"] rest
      let target ← ms.required "lhs" nat?
      let label ← ms.required "label" text?
      return .moveLabel target label
  | "Goto" => do
      let ms ← members? ["target"] rest
      let target ← ms.required "target" text?
      return .goto target
  | "IndirectGoto" => do
      let ms ← members? ["target", "targets"] rest
      let source ← ms.required "target" nat?
      let targets ← ms.required "targets" (list? text?)
      return .indirect source targets
  | "Succeed" => do
      let ms ← members? ["expr", "resume"] rest
      let value ← ms.optional "expr" nat?
      let resume ← ms.optional "resume" text?
      return .succeed value resume
  | "Fail" => nothing? .fail rest
  | "EnterScope" => do
      let ms ← members? ["scope", "names", "dynamics"] rest
      let scope ← ms.required "scope" text?
      let names ← ms.texts "names"
      let dynamics ← ms.texts "dynamics"
      return .enter scope names dynamics
  | "ExitScope" => do
      let ms ← members? ["scope"] rest
      let scope ← ms.required "scope" text?
      return .leave scope
  | "Create" => do
      let ms ← members? ["lhs", "entry"] rest
      let target ← ms.required "lhs" nat?
      let entry ← ms.required "entry" text?
      return .create target entry
  | "CoReturn" => do
      let ms ← members? ["value", "resume"] rest
      let value ← ms.required "value" nat?
      let resume ← ms.required "resume" text?
      return .produce value resume
  | "CoFail" => nothing? .exhaust rest
  | "Select" => do
      let ms ← members? ["cases", "fail_label"] rest
      let cases ← ms.required "cases" (list? Case.ofJson?)
      let onFail ← ms.optional "fail_label" text?
      return .select cases onFail
  | "Catch" => do
      let ms ← members? ["handler"] rest
      let handler ← ms.required "handler" nat?
      return .recover handler
  | "Coord" => do
      let ms ← members? ["coord"] rest
      let coord ← ms.required "coord" text?
      return .coordinate coord
  | _ => none

def Instruction.ofJson? (j : Json) : Option Instruction := do
  guard j.isMeaningful
  let (kind, rest) ← untag? "t" j
  let kind ← text? kind
  Instruction.ofMembers? kind rest

def Chunk.ofJson? (j : Json) : Option Chunk := do
  let ms ← members? ["label", "body"] j
  let label ← ms.required "label" text?
  let body ← ms.required "body" (list? Instruction.ofJson?)
  return ⟨label, body⟩

def Procedure.ofJson? (j : Json) : Option Procedure := do
  let ms ← members?
    ["name", "namespace", "params", "locals", "statics", "variadic", "temps", "entry", "chunks",
      "deps"] j
  let name ← ms.required "name" text?
  let namespaceName ← ms.defaulted "namespace" text? ""
  let params ← ms.texts "params"
  let locals ← ms.texts "locals"
  let statics ← ms.texts "statics"
  let variadic ← ms.defaulted "variadic" bool? false
  let temps ← ms.defaulted "temps" nat? 0
  let entry ← ms.required "entry" text?
  let chunks ← ms.required "chunks" (list? Chunk.ofJson?)
  let deps ← ms.texts "deps"
  return ⟨name, namespaceName, params, locals, statics, variadic, temps, entry, chunks, deps⟩

def Global.ofJson? (j : Json) : Option Global := do
  let ms ← members? ["name", "namespace", "init", "deps"] j
  let name ← ms.required "name" text?
  let namespaceName ← ms.defaulted "namespace" text? ""
  let init ← ms.optional "init" Procedure.ofJson?
  let deps ← ms.texts "deps"
  return ⟨name, namespaceName, init, deps⟩

def Record.ofJson? (j : Json) : Option Record := do
  let ms ← members? ["name", "namespace", "fields"] j
  let name ← ms.required "name" text?
  let namespaceName ← ms.defaulted "namespace" text? ""
  let fields ← ms.texts "fields"
  return ⟨name, namespaceName, fields⟩

def Program.ofJson? (j : Json) : Option Program := do
  let ms ← members? ["procedures", "globals", "records"] j
  let procedures ← ms.defaulted "procedures" (list? Procedure.ofJson?) []
  let globals ← ms.defaulted "globals" (list? Global.ofJson?) []
  let records ← ms.defaulted "records" (list? Record.ofJson?) []
  return ⟨procedures, globals, records⟩

/-- The program of a text. -/
def Program.parse? (s : String) : Option Program :=
  (Json.parse? s).bind Program.ofJson?

end Defs

end Ir
end GoalDirected
