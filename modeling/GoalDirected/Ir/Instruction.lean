/-!
# Instructions

**Input.** A procedure body is a list of labelled chunks, and a chunk is a list of instructions. An
instruction names temporaries by slot number and chunks by label.

**Results.** `Instruction` is the closed set of operations. `Instruction.labels` lists every label an
instruction may hand on, and `Instruction.slots` every slot it reads or writes; the check made when a
procedure is linked rests on these two lists alone.
-/

namespace GoalDirected
namespace Ir

section Defs

/-- The name of a chunk. -/
abbrev Label := String

/-- The number of a temporary. -/
abbrev Slot := Nat

/-- A constant operand. -/
inductive Literal where
  | nil
  | number (x : Float)
  | text (s : String)

/-- Where the outcome of a call, an operator or a resumption goes: the slot of its value, the slot of
its continuation, and the chunk to go on with when it fails. -/
structure Destination where
  value : Option Slot
  next : Option Slot
  onFail : Option Label

/-- One arm of a select. -/
inductive Case where
  | send (channel value : Slot) (body : Label)
  | receive (channel target : Slot) (body : Label)
  | default (body : Label)

inductive Instruction where
  /-- Copies a constant into a slot. -/
  | literal (target : Slot) (value : Literal)
  /-- Resolves a name to its storage cell. -/
  | name (target : Slot) (name : String)
  /-- Resolves a dynamic variable, to its cell when `assignable` holds and to its value otherwise. -/
  | dynamic (target : Slot) (name : String) (assignable : Bool)
  /-- Selects a field of a record. -/
  | field (target record : Slot) (field : String) (assignable : Bool) (onFail : Option Label)
  | call (destination : Destination) (callee : Slot) (args : List Slot) (names : List String)
  | operator (destination : Destination) (op : String) (args : List Slot)
  /-- Resumes the continuation in slot `source`. -/
  | resume (destination : Destination) (source : Slot)
  /-- Copies a slot as it stands. -/
  | move (target source : Slot)
  /-- Copies a slot, following a reference. -/
  | deref (target source : Slot)
  /-- Stores a label for an indirect jump. -/
  | moveLabel (target : Slot) (label : Label)
  | goto (target : Label)
  /-- Jumps to the label in slot `source`, which has to be one of `targets`. -/
  | indirect (source : Slot) (targets : List Label)
  /-- Produces a value; with a label the activation can be resumed there. -/
  | succeed (value : Option Slot) (resume : Option Label)
  | fail
  /-- Opens a block with fresh locals, and with fresh dynamic variables if there are any. -/
  | enter (scope : String) (names dynamics : List String)
  | leave (scope : String)
  /-- Makes a co-expression that starts at `entry`. -/
  | create (target : Slot) (entry : Label)
  /-- Hands a value to the consumer of the running co-expression. -/
  | produce (value : Slot) (resume : Label)
  /-- Ends the running co-expression. -/
  | exhaust
  | select (cases : List Case) (onFail : Option Label)
  /-- Installs a recovery procedure. -/
  | recover (handler : Slot)
  /-- Notes the position in the program text. -/
  | coordinate (coord : String)

namespace Case

def body : Case → Label
  | .send _ _ body => body
  | .receive _ _ body => body
  | .default body => body

def slots : Case → List Slot
  | .send channel value _ => [channel, value]
  | .receive channel target _ => [channel, target]
  | .default _ => []

end Case

namespace Destination

def slots (d : Destination) : List Slot :=
  d.value.toList ++ d.next.toList

end Destination

namespace Instruction

/-- Every label that the instruction may transfer control to, now or later. -/
def labels : Instruction → List Label
  | .field _ _ _ _ onFail => onFail.toList
  | .call d _ _ _ => d.onFail.toList
  | .operator d _ _ => d.onFail.toList
  | .resume d _ => d.onFail.toList
  | .moveLabel _ label => [label]
  | .goto target => [target]
  | .indirect _ targets => targets
  | .succeed _ again => again.toList
  | .create _ entry => [entry]
  | .produce _ again => [again]
  | .select cases onFail => cases.map Case.body ++ onFail.toList
  | _ => []

/-- Every slot that the instruction reads or writes. -/
def slots : Instruction → List Slot
  | .literal target _ => [target]
  | .name target _ => [target]
  | .dynamic target _ _ => [target]
  | .field target record _ _ _ => [target, record]
  | .call d callee args _ => d.slots ++ callee :: args
  | .operator d _ args => d.slots ++ args
  | .resume d source => d.slots ++ [source]
  | .move target source => [target, source]
  | .deref target source => [target, source]
  | .moveLabel target _ => [target]
  | .indirect source _ => [source]
  | .succeed value _ => value.toList
  | .create target _ => [target]
  | .produce value _ => [value]
  | .select cases _ => cases.flatMap Case.slots
  | .recover handler => [handler]
  | .goto _ => []
  | .fail => []
  | .enter _ _ _ => []
  | .leave _ => []
  | .exhaust => []
  | .coordinate _ => []

end Instruction

end Defs

end Ir
end GoalDirected
