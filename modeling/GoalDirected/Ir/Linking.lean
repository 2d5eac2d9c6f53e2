import GoalDirected.Fault
import GoalDirected.Ir.Program

/-!
# Linking

**Input.** A procedure in intermediate form.

**Algorithm.** Linking checks that chunk labels are distinct, that the entry chunk exists, and that
no instruction names a label that is not declared or a slot beyond the temporaries.

**Results.** `Ir.Procedure.link` gives the checked `Code`, or the malfunction that names the first
defect.
-/

namespace GoalDirected

section Defs

/-- The name of an entry of a namespace as seen from everywhere; the root namespace has no name. -/
def qualify (namespaceName name : String) : String :=
  if namespaceName = "" then name else namespaceName ++ "::" ++ name

/-- The code of a procedure after linking. -/
structure Code where
  name : String
  qualified : String
  namespaceName : String
  params : List String
  locals : List String
  statics : List String
  variadic : Bool
  temps : Nat
  entry : Ir.Label
  deps : List String
  chunks : List Ir.Chunk

namespace Code

/-- The body of a chunk. -/
def chunk? (code : Code) (label : Ir.Label) : Option (List Ir.Instruction) :=
  (code.chunks.find? fun c => c.label == label).map (·.body)

end Code

namespace Ir

/-- The first label that occurs a second time. -/
def firstRepeated? : List Label → List Label → Option Label
  | _, [] => none
  | seen, label :: rest =>
      if seen.contains label then some label else firstRepeated? (label :: seen) rest

/-- The first defect of an instruction: a label that is not declared, then a slot that is too
large. -/
def Instruction.defect? (declared : List Label) (temps : Nat) (chunk place : String)
    (i : Instruction) : Option Malfunction :=
  match i.labels.find? fun l => !declared.contains l with
  | some label => some (.undeclaredLabel chunk place label)
  | none => (i.slots.find? fun s => temps ≤ s).map fun slot => .slotBeyondTemps chunk place slot temps

namespace Procedure

def qualified (p : Procedure) : String :=
  qualify p.namespaceName p.name

def labels (p : Procedure) : List Label :=
  p.chunks.map (·.label)

/-- The first defect of the instructions, in the order of the chunks. -/
def defect? (p : Procedure) : Option Malfunction :=
  p.chunks.findSome? fun c => c.body.findSome? (·.defect? p.labels p.temps c.label p.qualified)

/-- Checks a procedure and makes its code. -/
def link (p : Procedure) : Except Malfunction Code :=
  match firstRepeated? [] p.labels with
  | some label => .error (.duplicateLabel label p.qualified)
  | none =>
      if p.labels.contains p.entry then
        match p.defect? with
        | some defect => .error defect
        | none =>
            .ok
              { name := p.name
                qualified := p.qualified
                namespaceName := p.namespaceName
                params := p.params
                locals := p.locals
                statics := p.statics
                variadic := p.variadic
                temps := p.temps
                entry := p.entry
                deps := p.deps
                chunks := p.chunks }
      else .error (.noEntry p.entry p.qualified)

end Procedure

end Ir

end Defs

end GoalDirected
