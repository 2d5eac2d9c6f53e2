import GoalDirected.Ir.Instruction

/-!
# Programs in intermediate form

**Results.** `Ir.Program` is all that a front end hands over for one program: procedures, globals with
or without an initializer, and record declarations.
-/

namespace GoalDirected
namespace Ir

section Defs

/-- A labelled list of instructions. -/
structure Chunk where
  label : Label
  body : List Instruction

structure Procedure where
  name : String
  namespaceName : String
  params : List String
  locals : List String
  statics : List String
  /-- The last parameter takes all arguments from its place on. -/
  variadic : Bool
  /-- The number of temporaries of an activation. -/
  temps : Nat
  entry : Label
  chunks : List Chunk
  /-- The global names that the procedure refers to. -/
  deps : List String

/-- A global variable; its initializer is a procedure whose first result it takes. -/
structure Global where
  name : String
  namespaceName : String
  init : Option Procedure
  deps : List String

structure Record where
  name : String
  namespaceName : String
  fields : List String

structure Program where
  procedures : List Procedure
  globals : List Global
  records : List Record

/-- All instructions: those of the procedures, then those of the initializers. -/
def Program.instructions (p : Program) : List Instruction :=
  (p.procedures ++ p.globals.filterMap (·.init)).flatMap fun q => q.chunks.flatMap (·.body)

end Defs

end Ir
end GoalDirected
