import GoalDirected.Machine.Basic

/-!
# Draining generators

**Results.** A register for a continuation is emptied by a resumption and takes the continuation of
the outcome, if there is one. `resumeSlot` does this once, `take` several times, and `collect` until
the generator fails.
-/

namespace GoalDirected
namespace Drain

section Defs

/-- Resumes the continuation in a register. An empty register fails. After a fault it is empty. -/
def resumeSlot (s : Store) :
    Option Continuation → Except Machine.Stop (Option Value) × Option Continuation × Store
  | none => (.ok none, none, s)
  | some k =>
      match (Machine.resume s [] k).finish with
      | (.ok o, s) => (.ok o.value?, o.next?, s)
      | (.error e, s) => (.error e, none, s)

/-- At most `n` values from a register, up to the first failure; the values are in reverse. -/
def takeOnto (s : Store) (taken : List Value) (slot : Option Continuation) :
    Nat → Except Machine.Stop (List Value) × Option Continuation × Store
  | 0 => (.ok taken, slot, s)
  | n + 1 =>
      match resumeSlot s slot with
      | (.ok (some v), slot, s) => takeOnto s (v :: taken) slot n
      | (.ok none, slot, s) => (.ok taken, slot, s)
      | (.error e, slot, s) => (.error e, slot, s)

/-- At most `n` values from a register, up to the first failure. -/
def take (s : Store) (slot : Option Continuation) (n : Nat) :
    Except Machine.Stop (List Value) × Option Continuation × Store :=
  let (values, slot, s) := takeOnto s [] slot n
  (values.map List.reverse, slot, s)

/-- All values of an outcome, in reverse, through at most `fuel` resumptions. -/
def collectOnto (s : Store) (collected : List Value) :
    Nat → Outcome → Except Machine.Stop (List Value) × Store
  | _, .fail => (.ok collected, s)
  | _, .result v => (.ok (v :: collected), s)
  | 0, .suspended _ _ => (.error (.halted .blocked), s)
  | fuel + 1, .suspended v k =>
      match (Machine.resume s [] k).finish with
      | (.ok o, s) => collectOnto s (v :: collected) fuel o
      | (.error e, s) => (.error e, s)

/-- All values of an outcome. -/
def collect (s : Store) (o : Outcome) : Except Machine.Stop (List Value) × Store :=
  let (values, s) := collectOnto s [] Machine.stepLimit o
  (values.map List.reverse, s)

end Defs

end Drain
end GoalDirected
