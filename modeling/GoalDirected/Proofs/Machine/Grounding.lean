import GoalDirected.Proofs.Machine.Unwinding

/-!
# What a body knows of its consumer

**Input.** A machine whose stack ends in the consumer of a co-expression, and the same machine with further contexts
below that consumer.

**Argument.** No step looks below the consumer.  So both machines make the same step, up to the one that leaves
the body: that one hands over a value, or ends the co-expression.

**Results.**
* `Exits`: all ways in which a step leaves the body.
* `rises_step`: one step of the body, whatever is below its consumer.
-/

namespace GoalDirected

section Grounding

/-- The stack of a body: at its end is the consumer of the co-expression. -/
def Grounded (c : Nat) (stack : List Context) : Prop :=
  ∃ above, stack = above ++ [.consuming c]

variable {c : Nat} {stack : List Context}

theorem grounded_consuming (c : Nat) : Grounded c [.consuming c] :=
  ⟨[], rfl⟩

theorem Grounded.push
    (h : Grounded c stack)
    (x : Context) :
    Grounded c (x :: stack) := by
  obtain ⟨above, rfl⟩ := h
  exact ⟨x :: above, rfl⟩

/-- The innermost context of a body is the consumer itself, or a context above it. -/
theorem Grounded.cons
    {x : Context}
    (h : Grounded c (x :: stack)) :
    x = .consuming c ∧ stack = [] ∨ Grounded c stack := by
  obtain ⟨above, h⟩ := h
  cases above with
  | nil =>
      cases h
      exact Or.inl ⟨rfl, rfl⟩
  | cons y above =>
      cases h
      exact Or.inr ⟨above, rfl⟩

theorem Grounded.exists_cons
    (h : Grounded c stack) :
    ∃ x rest, stack = x :: rest := by
  obtain ⟨above, rfl⟩ := h
  cases above with
  | nil => exact ⟨_, _, rfl⟩
  | cons y above => exact ⟨_, _, rfl⟩

/-- The innermost consumer is that of the body or above it. -/
theorem Grounded.innermostConsumer?
    (h : Grounded c stack)
    (below : List Context) :
    ∃ id rest, Machine.innermostConsumer? stack = some (id, rest) ∧
      Machine.innermostConsumer? (stack ++ below) = some (id, rest ++ below) ∧
      (id = c ∧ rest = [] ∨ Grounded c rest) := by
  obtain ⟨above, rfl⟩ := h
  induction above with
  | nil => exact ⟨c, [], rfl, rfl, Or.inl ⟨rfl, rfl⟩⟩
  | cons x above ih =>
      cases x with
      | consuming id => exact ⟨id, above ++ [.consuming c], rfl, rfl, Or.inr ⟨above, rfl⟩⟩
      | awaiting frame label rest d => exact ih
      | recovering frame => exact ih
      | bare => exact ih

namespace Machine

/-- The machine with further contexts below its own. -/
def onto (m : Machine) (below : List Context) : Machine :=
  { m with stack := m.stack ++ below }

/-- The ways in which a step leaves the body of a co-expression. -/
inductive Exits (c : Nat) : Machine → Prop
  | hand (s : Store) (v : Value) (frame : Nat) (label : Ir.Label) :
      Exits c ⟨s.setProducer c (.waiting frame label), [], .returning (.result v)⟩
  | finish (s : Store) (o : Outcome) : Exits c ⟨s.endProducer c, [], .returning o⟩
  | raise (s : Store) (r : Raised) : Exits c ⟨s.endProducer c, [], .raising r⟩
  /-- The co-expression has asked for an impossible queue. -/
  | lose (s : Store) : Exits c ⟨s.setProducer c .ended, [], .returning .fail⟩

/-- The same step with and without contexts below, within the body or out of it. -/
structure Rises (c : Nat) (below : List Context) (m m' : Machine) : Prop where
  eq : m' = m.onto below
  stack : Grounded c m.stack ∨ Exits c m

theorem rises_of_grounded
    (h : Grounded c stack)
    (below : List Context) (s : Store) (control : Control) :
    Rises c below ⟨s, stack, control⟩ ⟨s, stack ++ below, control⟩ :=
  ⟨rfl, Or.inl h⟩

/-! ## Calls -/

theorem rises_raise
    (h : Grounded c stack)
    (below : List Context) (s : Store) (f : Fault) :
    Rises c below (raise s stack f) (raise s (stack ++ below) f) :=
  rises_of_grounded h below s _

theorem rises_halt
    (h : Grounded c stack)
    (below : List Context) (s : Store) (reason : Halt) :
    Rises c below (halt s stack reason) (halt s (stack ++ below) reason) := by
  obtain ⟨id, rest, hinner, hinner', hrest⟩ := h.innermostConsumer? below
  unfold halt
  rw [hinner, hinner']
  cases reason with
  | blocked => exact rises_of_grounded h below s _
  | exit code => exact rises_of_grounded h below s _
  | impossibleQueue =>
      rcases hrest with ⟨rfl, rfl⟩ | hrest
      · exact ⟨rfl, Or.inr (.lose s)⟩
      · exact rises_of_grounded hrest below _ _

theorem rises_leave
    (h : Grounded c stack)
    (below : List Context) (s : Store) (frame : Nat) (r : Raised) :
    Rises c below (leave s stack frame r) (leave s (stack ++ below) frame r) := by
  unfold leave
  split
  · split <;> exact rises_of_grounded h below s _
  · exact rises_of_grounded h below s _

theorem rises_enter
    (h : Grounded c stack)
    (below : List Context) (s : Store) (environment : Environment) (p : Procedure)
    (args : List Value) (names : List String) :
    Rises c below (enter s stack environment p args names) (enter s (stack ++ below) environment p args names) := by
  unfold enter
  split
  · exact rises_raise h below s _
  · dsimp only
    split
    · exact rises_of_grounded h below _ _
    · exact rises_leave h below _ _ _

theorem rises_reply
    (h : Grounded c stack)
    (below : List Context) (s : Store) (r : Reply) :
    Rises c below (reply s stack r) (reply s (stack ++ below) r) := by
  cases r with
  | outcome o => exact rises_of_grounded h below s _
  | fault f => exact rises_raise h below s f
  | halt reason => exact rises_halt h below s reason

theorem rises_callCallable
    (h : Grounded c stack)
    (below : List Context) (s : Store) (environment : Environment) (callable : Callable)
    (args : List Value) (names : List String) :
    Rises c below (callCallable s stack environment callable args names)
      (callCallable s (stack ++ below) environment callable args names) := by
  cases callable with
  | procedure p => exact rises_enter h below s environment p args names
  | constructor record fields =>
      simp only [callCallable]
      split
      · exact rises_raise h below s _
      · exact rises_of_grounded h below _ _
  | builtin b =>
      simp only [callCallable]
      split
      · exact rises_reply h below _ _
      · exact rises_raise h below s _

theorem rises_call
    (h : Grounded c stack)
    (below : List Context) (s : Store) (environment : Environment) (callee : Value)
    (args : List Value) (names : List String) :
    Rises c below (call s stack environment callee args names)
      (call s (stack ++ below) environment callee args names) := by
  unfold call
  split
  · split
    · exact rises_callCallable h below s environment _ args names
    · exact rises_raise h below s _
  · exact rises_raise h below s _

/-! ## Faults and jumps -/

theorem rises_fault
    (h : Grounded c stack)
    (below : List Context) (s : Store) (frame : Nat) (r : Raised) :
    Rises c below (fault s stack frame r) (fault s (stack ++ below) frame r) := by
  have hhead : stack.head? ≠ some .bare → (stack ++ below).head? ≠ some .bare := by
    obtain ⟨x, rest, rfl⟩ := h.exists_cons
    exact id
  have hfaulted := faulted_fault s stack frame r
  generalize fault s stack frame r = m at hfaulted ⊢
  cases hfaulted with
  | bare hstack =>
      subst hstack
      rcases h.cons with ⟨hx, -⟩ | hrest
      · cases hx
      · exact rises_of_grounded hrest below s _
  | absent hbare hf =>
      rw [fault_absent (hhead hbare) hf]
      exact rises_of_grounded h below s _
  | passed hbare hf hquiet =>
      rw [fault_pass (hhead hbare) hf hquiet]
      exact rises_leave h below _ frame r
  | caught hbare hf hfault hrecovery =>
      rw [fault_catch (hhead hbare) hf hfault hrecovery]
      exact rises_call (h.push (.recovering frame)) below _ _ _ _ _

theorem rises_jump
    (h : Grounded c stack)
    (below : List Context) (s : Store) (frame : Nat) (label : Ir.Label) :
    Rises c below (jump s stack frame label) (jump s (stack ++ below) frame label) := by
  unfold jump
  split
  · exact rises_of_grounded h below s _
  · split
    · exact rises_of_grounded h below s _
    · exact rises_fault h below s frame _

theorem rises_failed
    (h : Grounded c stack)
    (below : List Context) (s : Store) (frame : Nat) (onFail : Option Ir.Label) :
    Rises c below (failed s stack frame onFail) (failed s (stack ++ below) frame onFail) := by
  cases onFail with
  | none => exact rises_of_grounded h below s _
  | some label => exact rises_jump h below s frame label

theorem rises_deliver
    (h : Grounded c stack)
    (below : List Context) (s : Store) (frame : Nat) (label : Ir.Label) (rest : List Ir.Instruction)
    (d : Ir.Destination) (o : Outcome) :
    Rises c below (deliver s stack frame label rest d o) (deliver s (stack ++ below) frame label rest d o) := by
  unfold deliver
  split
  · exact rises_of_grounded h below s _
  · split
    · exact rises_fault h below s frame _
    · exact rises_failed h below _ frame _
    · exact rises_of_grounded h below _ _

theorem rises_resume
    (h : Grounded c stack)
    (below : List Context) (s : Store) (k : Continuation) :
    Rises c below (resume s stack k) (resume s (stack ++ below) k) := by
  cases k with
  | activation frame label => exact rises_jump h below s frame label
  | elements list position => exact rises_of_grounded h below s _
  | values rest => exact rises_of_grounded h below s _
  | count low high => exact rises_of_grounded h below s _

theorem rises_activate
    (h : Grounded c stack)
    (below : List Context) (s : Store) (id : Nat) :
    Rises c below (activate s stack id) (activate s (stack ++ below) id) := by
  unfold activate
  split
  · exact rises_jump (h.push (.consuming id)) below _ _ _
  · exact rises_jump (h.push (.consuming id)) below _ _ _
  · exact rises_halt h below s .blocked
  · exact rises_of_grounded h below s _

theorem rises_invoke
    (h : Grounded c stack)
    (below : List Context) (s : Store) (op : String) (args : List Value) :
    Rises c below (invoke s stack op args) (invoke s (stack ++ below) op args) := by
  unfold invoke
  split
  · exact rises_reply h below _ _
  · exact rises_activate h below _ _

/-! ## Steps -/

theorem rises_perform
    (h : Grounded c stack)
    (below : List Context) (s : Store) (frame : Nat) (label : Ir.Label) (rest : List Ir.Instruction)
    (environment : Environment) (e : Effect) :
    Rises c below (perform s stack frame label rest environment e)
      (perform s (stack ++ below) frame label rest environment e) := by
  cases e with
  | next => exact rises_of_grounded h below s _
  | goto target => exact rises_jump h below s frame target
  | failed onFail => exact rises_failed h below s frame onFail
  | succeed v again => cases again <;> exact rises_of_grounded h below s _
  | call d callee args names => exact rises_call (h.push (.awaiting frame label rest d)) below s _ _ _ _
  | operator d op args => exact rises_invoke (h.push (.awaiting frame label rest d)) below s op args
  | resume d k =>
      cases k with
      | none => exact rises_of_grounded (h.push (.awaiting frame label rest d)) below s _
      | some k => exact rises_resume (h.push (.awaiting frame label rest d)) below s k
  | produce v again =>
      obtain ⟨x, tail, rfl⟩ := h.exists_cons
      cases x with
      | consuming id =>
          rcases h.cons with ⟨hx, rfl⟩ | htail
          · cases hx
            exact ⟨rfl, Or.inr (.hand s v frame again)⟩
          · exact rises_of_grounded htail below _ _
      | awaiting n l is d => exact rises_fault h below s frame _
      | recovering n => exact rises_fault h below s frame _
      | bare => exact rises_fault h below s frame _
  | exhaust =>
      obtain ⟨x, tail, rfl⟩ := h.exists_cons
      cases x with
      | consuming id => exact rises_of_grounded h below s _
      | awaiting n l is d => exact rises_fault h below s frame _
      | recovering n => exact rises_fault h below s frame _
      | bare => exact rises_fault h below s frame _
  | halt reason => exact rises_halt h below s reason
  | fault f => exact rises_fault h below s frame _

theorem rises_advance
    (h : Grounded c stack)
    (below : List Context) (s : Store) (frame : Nat) (label : Ir.Label) (rest : List Ir.Instruction) :
    Rises c below (advance s stack frame label rest) (advance s (stack ++ below) frame label rest) := by
  unfold advance
  split
  · exact rises_of_grounded h below s _
  · exact rises_fault h below s frame _
  · exact rises_perform h below _ frame label _ _ _

/-- A step of a body does not look below its consumer, and leaves the body in one of the ways of `Exits`. -/
theorem rises_step
    (h : Grounded c stack)
    (below : List Context) (s : Store) (control : Control) :
    Rises c below (step ⟨s, stack, control⟩) (step ⟨s, stack ++ below, control⟩) := by
  obtain ⟨x, rest, rfl⟩ := h.exists_cons
  cases control with
  | running frame label is => exact rises_advance h below s frame label is
  | halted reason => exact rises_of_grounded h below s _
  | aborted r => exact rises_of_grounded h below s _
  | returning o =>
      rcases h.cons with ⟨rfl, rfl⟩ | hrest
      · exact ⟨rfl, Or.inr (.finish s _)⟩
      · cases x with
        | awaiting frame label is d => exact rises_deliver hrest below s frame label is d o
        | recovering frame => exact rises_of_grounded hrest below s _
        | bare => exact rises_of_grounded hrest below s _
        | consuming id => exact rises_of_grounded hrest below _ _
  | raising r =>
      rcases h.cons with ⟨rfl, rfl⟩ | hrest
      · exact ⟨rfl, Or.inr (.raise s _)⟩
      · cases x with
        | awaiting frame label is d => exact rises_fault hrest below s frame r
        | recovering frame => exact rises_leave hrest below s frame r
        | bare => exact rises_of_grounded hrest below s _
        | consuming id => exact rises_of_grounded hrest below _ _

end Machine

end Grounding

end GoalDirected
