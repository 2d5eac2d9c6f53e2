import GoalDirected.Callable
import GoalDirected.Outcome

/-!
# Frames

**Results.** A frame is the state of one activation: its environment, its variables, the scopes it has
open, and its temporaries. The operations here look at temporaries; those that need the store are in
`GoalDirected.Machine.Activation`.
-/

namespace GoalDirected

section Defs

/-- The nodes of an environment, innermost first. -/
abbrev Environment := List Nat

/-- The content of a temporary. -/
inductive Temp where
  | empty
  | value (v : Value)
  | next (k : Continuation)
  | label (l : Ir.Label)

/-- What a scope has displaced: the cells of the names that it binds anew, in the order in which it
bound them, and the environment if it has one of its own. -/
structure Scope where
  name : String
  shadowed : List (String × Option CellId)
  outer : Option Environment

structure Frame where
  environment : Environment
  procedure : Procedure
  args : List Value
  vars : Bindings
  /-- The open scopes, innermost first. -/
  scopes : List Scope := []
  temps : Array Temp
  coord : String := ""
  /-- The first offending value of the first exception seen. -/
  offender : Option Value := none
  /-- The recovery procedure, until it is used. -/
  recovery : Option Value := none

namespace Frame

/-- A frame at the start of an activation, with empty temporaries. -/
def new (environment : Environment) (procedure : Procedure) (args : List Value) (vars : Bindings) :
    Frame where
  environment := environment
  procedure := procedure
  args := args
  vars := vars
  temps := Array.replicate procedure.code.temps .empty

/-- The qualified name of the procedure. -/
def place (f : Frame) : String :=
  f.procedure.code.qualified

/-- The values that a traceback shows of a frame. -/
def shown (f : Frame) : List Value :=
  f.args ++ f.offender.toList

/-- The value in a slot, as it stands. -/
def value (f : Frame) (slot : Nat) : Except Malfunction Value :=
  match f.temps[slot]? with
  | some (.value v) => .ok v
  | _ => .error (.noValueInSlot slot f.place)

/-- Replaces the content of a slot. -/
def put (f : Frame) (slot : Nat) (t : Temp) : Except Malfunction Frame :=
  if slot < f.temps.size then .ok { f with temps := f.temps.setIfInBounds slot t }
  else .error (.slotOutOfRange slot f.temps.size f.place)

def set (f : Frame) (slot : Nat) (v : Value) : Except Malfunction Frame :=
  f.put slot (.value v)

/-- Stores a continuation, or empties the slot. -/
def setNext (f : Frame) (slot : Nat) : Option Continuation → Except Malfunction Frame
  | some k => f.put slot (.next k)
  | none => f.put slot .empty

/-- Takes the continuation out of a slot. -/
def takeNext (f : Frame) (slot : Nat) : Except Malfunction (Option Continuation × Frame) :=
  match f.temps[slot]? with
  | some (.next k) => .ok (some k, { f with temps := f.temps.setIfInBounds slot .empty })
  | some .empty => .ok (none, f)
  | some _ => .error (.noContinuationInSlot slot f.place)
  | none => .error (.slotOutOfRange slot f.temps.size f.place)

def setLabel (f : Frame) (slot : Nat) (label : Ir.Label) : Except Malfunction Frame :=
  f.put slot (.label label)

def label (f : Frame) (slot : Nat) : Except Malfunction Ir.Label :=
  match f.temps[slot]? with
  | some (.label l) => .ok l
  | _ => .error (.noLabelInSlot slot f.place)

/-- The values in several slots. -/
def values (f : Frame) : List Nat → Except Malfunction (List Value)
  | [] => .ok []
  | slot :: rest => do
      let v ← f.value slot
      let vs ← f.values rest
      return v :: vs

end Frame

end Defs

end GoalDirected
