import GoalDirected.Ir.Program
import GoalDirected.Json.Basic

/-!
# Programs as JSON

**Input.** A program in intermediate form.

**Algorithm.** Every part becomes an object with all its members, defaults included. An instruction
names its kind in the member `t`, an arm of a select in `kind`, a constant in `k` with its content in
`v`.

**Results.** `Program.toJson` and its parts.
-/

namespace GoalDirected
namespace Ir

section Defs

/-- A slot or a count. -/
def natJson (n : Nat) : Json :=
  .number (.natural n)

def optionJson {α : Type} (f : α → Json) : Option α → Json
  | none => .null
  | some a => f a

def listJson {α : Type} (f : α → Json) (xs : List α) : Json :=
  .array (xs.map f)

def textsJson : List String → Json :=
  listJson .text

/-- An object whose first member names its kind. -/
def tagged (key kind : String) (members : List (String × Json)) : Json :=
  .object ((key, .text kind) :: members)

def Literal.toJson : Literal → Json
  | .nil => tagged "k" "Nil" []
  | .number x => tagged "k" "Num" [("v", .number (.real x))]
  | .text s => tagged "k" "Str" [("v", .text s)]

def Case.toJson : Case → Json
  | .send channel value body =>
      tagged "kind" "Send"
        [("channel", natJson channel), ("value", natJson value), ("body", .text body)]
  | .receive channel target body =>
      tagged "kind" "Receive"
        [("channel", natJson channel), ("lhs", natJson target), ("body", .text body)]
  | .default body => tagged "kind" "Default" [("body", .text body)]

def Instruction.toJson : Instruction → Json
  | .literal target value =>
      tagged "t" "Literal" [("lhs", natJson target), ("value", value.toJson)]
  | .name target id => tagged "t" "Var" [("lhs", natJson target), ("name", .text id)]
  | .dynamic target id assignable =>
      tagged "t" "DynVar"
        [("lhs", natJson target), ("name", .text id), ("lvalue", .bool assignable)]
  | .field target record key assignable onFail =>
      tagged "t" "Field"
        [("lhs", natJson target), ("expr", natJson record), ("field", .text key),
          ("lvalue", .bool assignable), ("fail_label", optionJson .text onFail)]
  | .call d callee args names =>
      tagged "t" "Call"
        [("lhs", optionJson natJson d.value), ("lhs_next", optionJson natJson d.next),
          ("callee", natJson callee), ("args", listJson natJson args), ("names", textsJson names),
          ("fail_label", optionJson .text d.onFail)]
  | .operator d op args =>
      tagged "t" "Operator"
        [("lhs", optionJson natJson d.value), ("lhs_next", optionJson natJson d.next),
          ("op", .text op), ("args", listJson natJson args),
          ("fail_label", optionJson .text d.onFail)]
  | .resume d source =>
      tagged "t" "Resume"
        [("lhs", optionJson natJson d.value), ("lhs_next", optionJson natJson d.next),
          ("next", natJson source), ("fail_label", optionJson .text d.onFail)]
  | .move target source => tagged "t" "Move" [("lhs", natJson target), ("rhs", natJson source)]
  | .deref target source => tagged "t" "Deref" [("lhs", natJson target), ("value", natJson source)]
  | .moveLabel target label =>
      tagged "t" "MoveLabel" [("lhs", natJson target), ("label", .text label)]
  | .goto target => tagged "t" "Goto" [("target", .text target)]
  | .indirect source targets =>
      tagged "t" "IndirectGoto" [("target", natJson source), ("targets", textsJson targets)]
  | .succeed value again =>
      tagged "t" "Succeed"
        [("expr", optionJson natJson value), ("resume", optionJson .text again)]
  | .fail => tagged "t" "Fail" []
  | .enter scope names dynamics =>
      tagged "t" "EnterScope"
        [("scope", .text scope), ("names", textsJson names), ("dynamics", textsJson dynamics)]
  | .leave scope => tagged "t" "ExitScope" [("scope", .text scope)]
  | .create target entry => tagged "t" "Create" [("lhs", natJson target), ("entry", .text entry)]
  | .produce value again =>
      tagged "t" "CoReturn" [("value", natJson value), ("resume", .text again)]
  | .exhaust => tagged "t" "CoFail" []
  | .select cases onFail =>
      tagged "t" "Select"
        [("cases", listJson Case.toJson cases), ("fail_label", optionJson .text onFail)]
  | .recover handler => tagged "t" "Catch" [("handler", natJson handler)]
  | .coordinate coord => tagged "t" "Coord" [("coord", .text coord)]

def Chunk.toJson (c : Chunk) : Json :=
  .object [("label", .text c.label), ("body", listJson Instruction.toJson c.body)]

def Procedure.toJson (p : Procedure) : Json :=
  .object
    [("name", .text p.name), ("namespace", .text p.namespaceName), ("params", textsJson p.params),
      ("locals", textsJson p.locals), ("statics", textsJson p.statics),
      ("variadic", .bool p.variadic), ("temps", natJson p.temps), ("entry", .text p.entry),
      ("chunks", listJson Chunk.toJson p.chunks), ("deps", textsJson p.deps)]

def Global.toJson (g : Global) : Json :=
  .object
    [("name", .text g.name), ("namespace", .text g.namespaceName),
      ("init", optionJson Procedure.toJson g.init), ("deps", textsJson g.deps)]

def Record.toJson (r : Record) : Json :=
  .object
    [("name", .text r.name), ("namespace", .text r.namespaceName), ("fields", textsJson r.fields)]

def Program.toJson (p : Program) : Json :=
  .object
    [("procedures", listJson Procedure.toJson p.procedures),
      ("globals", listJson Global.toJson p.globals),
      ("records", listJson Record.toJson p.records)]

end Defs

end Ir
end GoalDirected
