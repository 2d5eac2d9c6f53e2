import GoalDirected.Store.Basic

/-!
# Select

**Input.** A list of cases: sends, receives and defaults.

**Algorithm.** The cases are tried in cyclic order, starting one place further at each select of the
program. The first one that can happen at once is chosen; if there is none, the first default. If
every case is refused for good, the select fails; otherwise it would have to wait.

**Left out.** A case that can happen at once is never passed over: the scheduler's budget for polls within one
pass over the cases has no counterpart here.  The number of selects is a natural number, and does not come back to
zero after 64 bits.

**Results.** `Store.choose`.
-/

namespace GoalDirected

section Defs

/-- A case with its operands. -/
inductive WaitCase where
  | send (channel : Nat) (v : Value)
  | receive (channel : Nat)
  | default

/-- The result of a select. -/
inductive Choice where
  /-- A chosen case with the value that it received, if it is a receive. -/
  | chosen (index : Nat) (received : Option Value)
  | fail
  | blocked

namespace Store

/-- Tries one case. -/
def attempt (s : Store) : WaitCase → Channel.Attempt (Option Value × Store)
  | .send id v =>
      match (s.channel? id).map (Channel.send · v) with
      | some (.done c) => .done (none, s.setChannel id c)
      | some .waits => .waits
      | _ => .refused
  | .receive id =>
      match (s.channel? id).map Channel.receive with
      | some (.done (v, c)) => .done (some v, s.setChannel id c)
      | some .waits => .waits
      | _ => .refused
  | .default => .waits

/-- The first of the given cases that can happen at once. -/
def firstReady (s : Store) : List (Nat × WaitCase) → Option (Nat × Option Value × Store)
  | [] => none
  | (i, c) :: rest =>
      match s.attempt c with
      | .done (received, s) => some (i, received, s)
      | _ => s.firstReady rest

/-- The case can never happen any more. -/
def isRefused (s : Store) (c : WaitCase) : Bool :=
  match s.attempt c with
  | .refused => true
  | _ => false

end Store

/-- The first default. -/
def defaultIndex? (cases : List WaitCase) : Option Nat :=
  cases.findIdx? fun
    | .default => true
    | _ => false

/-- The cases with their indices, from a given index around to the one before it. -/
def rotated (cases : List WaitCase) (start : Nat) : List (Nat × WaitCase) :=
  let indexed := cases.mapIdx fun i c => (i, c)
  let offset := start % cases.length
  indexed.drop offset ++ indexed.take offset

/-- Chooses a case. -/
def Store.choose (s : Store) (cases : List WaitCase) : Choice × Store :=
  let start := s.rotation
  let s := { s with rotation := s.rotation + 1 }
  match s.firstReady (rotated cases start) with
  | some (i, received, s) => (.chosen i received, s)
  | none =>
      match defaultIndex? cases with
      | some i => (.chosen i none, s)
      | none => if cases.all s.isRefused then (.fail, s) else (.blocked, s)

end Defs

end GoalDirected
