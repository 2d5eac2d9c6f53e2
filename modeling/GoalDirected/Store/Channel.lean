import GoalDirected.Value

/-!
# Channels

**Results.** A channel is a bounded queue that can be closed. Sending and receiving either happen,
are refused for good, or would have to wait; a select looks at the same three cases.
-/

namespace GoalDirected

section Defs

structure Channel where
  capacity : Nat
  queue : List Value := []
  closed : Bool := false

namespace Channel

/-- An open channel with room for `capacity` values, at least one. -/
def new (capacity : Nat) : Channel where
  capacity := max 1 capacity

/-- The answer to an operation on a channel. -/
inductive Attempt (α : Type) where
  | done (a : α)
  /-- The operation can never succeed any more. -/
  | refused
  | waits

/-- Puts a value at the end of the queue. -/
def send (c : Channel) (v : Value) : Attempt Channel :=
  if c.closed then .refused
  else if c.queue.length < c.capacity then .done { c with queue := c.queue ++ [v] }
  else .waits

/-- Takes the value at the head of the queue. -/
def receive (c : Channel) : Attempt (Value × Channel) :=
  match c.queue with
  | v :: rest => .done (v, { c with queue := rest })
  | [] => if c.closed then .refused else .waits

/-- Refuses all later sends; the queue can still be emptied. -/
def close (c : Channel) : Channel :=
  { c with closed := true }

theorem send_eq_refused_iff (c : Channel) (v : Value) : c.send v = .refused ↔ c.closed = true := by
  unfold send
  by_cases h : c.closed = true
  · simp [h]
  · by_cases hq : c.queue.length < c.capacity <;> simp [h, hq]

theorem queue_of_send {c d : Channel} {v : Value} (h : c.send v = .done d) :
    d.queue = c.queue ++ [v] := by
  unfold send at h
  split at h
  · cases h
  · split at h
    · cases h
      rfl
    · cases h

theorem queue_of_receive {c d : Channel} {v : Value} (h : c.receive = .done (v, d)) :
    c.queue = v :: d.queue := by
  unfold receive at h
  split at h
  · rename_i w rest hq
    cases h
    exact hq
  · split at h <;> cases h

theorem receive_eq_refused_iff (c : Channel) :
    c.receive = .refused ↔ c.queue = [] ∧ c.closed = true := by
  unfold receive
  cases hq : c.queue with
  | nil => by_cases h : c.closed = true <;> simp [h]
  | cons v rest => simp

end Channel

end Defs

end GoalDirected
