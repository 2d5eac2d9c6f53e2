import GoalDirected.Ir.Instruction
import GoalDirected.Value

/-!
# Outcomes

**Results.** Every call, operator and resumption has an outcome: it fails, it gives one value, or it
gives a value together with a continuation that has the next outcome. Continuations are data, so a
suspended computation can be kept in a slot and looked at.
-/

namespace GoalDirected

section Defs

/-- What is left to do of a suspended computation. -/
inductive Continuation where
  /-- An activation that goes on at a chunk. -/
  | activation (frame : Nat) (label : Ir.Label)
  /-- The elements of a list from a position on, as they are then. -/
  | elements (list : Nat) (position : Nat)
  /-- Values that are fixed already. -/
  | values (rest : List Value)
  /-- The numbers from one bound to another. -/
  | count (low high : Float)

inductive Outcome where
  | fail
  | result (value : Value)
  | suspended (value : Value) (next : Continuation)

namespace Outcome

def value? : Outcome → Option Value
  | .fail => none
  | .result v => some v
  | .suspended v _ => some v

def next? : Outcome → Option Continuation
  | .suspended _ k => some k
  | _ => none

/-- The outcome with a given value and continuation; a continuation without a value is dropped. -/
def ofParts : Option Value → Option Continuation → Outcome
  | some v, some k => .suspended v k
  | some v, none => .result v
  | none, _ => .fail

end Outcome

end Defs

end GoalDirected
