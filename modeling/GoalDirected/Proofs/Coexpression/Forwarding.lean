import GoalDirected.Proofs.Coexpression.Interleaving

/-!
# What a body forwards to its consumer

**Input.** A machine whose stack ends in the consumer of a co-expression.

**Argument.** Nothing that happens above the consumer takes it off the stack, but for a request of an impossible
queue, after which the consumer gets a failure.  So a body is left in one of three ways: the consumer gets a value, it
gets a failure, or a fault has come down to it.

**Results.**
* `Machine.settles_step`: one step of a body, unless a fault has come down to its consumer.
* `Rendezvous.left_of_iterate`: how a run comes out of a body.
* `Store.activate_raises_iff`: an activation raises what the body forwards, and notes the co-expression in its trace.
-/

namespace GoalDirected

section Forwarding

variable {c : Nat} {stack : List Context}

namespace Machine

/-- If nothing is left of a body, its consumer gets an outcome that cannot be resumed. -/
def Settles (m : Machine) : Prop :=
  m.stack = [] → ∃ o, m.control = .returning o ∧ o.next? = none

theorem settles_of_grounded
    (h : Grounded c stack)
    (s : Store) (control : Control) :
    Settles ⟨s, stack, control⟩ :=
  fun hstack => absurd hstack (Rendezvous.Grounded.ne_nil h)

theorem settles_of_next?_eq_none
    {o : Outcome}
    (s : Store) (stack : List Context)
    (ho : o.next? = none) :
    Settles ⟨s, stack, .returning o⟩ :=
  fun _ => ⟨o, rfl, ho⟩

/-! ## Calls -/

theorem settles_halt
    (h : Grounded c stack)
    (s : Store) (reason : Halt) :
    Settles (halt s stack reason) := by
  unfold halt
  split
  · exact settles_of_next?_eq_none _ _ rfl
  · exact settles_of_grounded h s _

theorem settles_leave
    (h : Grounded c stack)
    (s : Store) (frame : Nat) (r : Raised) :
    Settles (leave s stack frame r) := by
  rcases leave_cases s stack frame r with ⟨trace, heq⟩ | heq <;> rw [heq] <;> exact settles_of_grounded h s _

theorem settles_reply
    (h : Grounded c stack)
    (s : Store) (r : Reply) :
    Settles (reply s stack r) := by
  cases r with
  | outcome o => exact settles_of_grounded h s _
  | fault f => exact settles_of_grounded h s _
  | halt reason => exact settles_halt h s reason

theorem settles_enter
    (h : Grounded c stack)
    (s : Store) (environment : Environment) (p : Procedure) (args : List Value) (names : List String) :
    Settles (enter s stack environment p args names) := by
  unfold enter
  split
  · exact settles_of_grounded h s _
  · dsimp only
    split
    · exact settles_of_grounded h _ _
    · exact settles_leave h _ _ _

theorem settles_call
    (h : Grounded c stack)
    (s : Store) (environment : Environment) (callee : Value) (args : List Value) (names : List String) :
    Settles (call s stack environment callee args names) := by
  have hcalled := called_call s stack environment callee args names
  generalize call s stack environment callee args names = m at hcalled ⊢
  cases hcalled with
  | procedure => exact settles_enter h s environment _ args names
  | builtin => exact settles_reply h _ _
  | _ => exact settles_of_grounded h _ _

/-! ## Faults and jumps -/

theorem settles_fault
    (h : Grounded c stack)
    (s : Store) (frame : Nat) (r : Raised) :
    Settles (fault s stack frame r) := by
  have hfaulted := faulted_fault s stack frame r
  generalize fault s stack frame r = m at hfaulted ⊢
  cases hfaulted with
  | bare hstack =>
      subst hstack
      rcases h.cons with ⟨hbare, -⟩ | hrest
      · cases hbare
      · exact settles_of_grounded hrest s _
  | passed => exact settles_leave h _ frame r
  | caught => exact settles_call (h.push (.recovering frame)) _ _ _ _ _
  | _ => exact settles_of_grounded h _ _

theorem settles_jump
    (h : Grounded c stack)
    (s : Store) (frame : Nat) (label : Ir.Label) :
    Settles (jump s stack frame label) := by
  unfold jump
  split
  · exact settles_of_grounded h s _
  · split
    · exact settles_of_grounded h s _
    · exact settles_fault h s frame _

theorem settles_failed
    (h : Grounded c stack)
    (s : Store) (frame : Nat) (onFail : Option Ir.Label) :
    Settles (failed s stack frame onFail) := by
  cases onFail with
  | none => exact settles_of_grounded h s _
  | some label => exact settles_jump h s frame label

theorem settles_deliver
    (h : Grounded c stack)
    (s : Store) (frame : Nat) (label : Ir.Label) (rest : List Ir.Instruction) (d : Ir.Destination) (o : Outcome) :
    Settles (deliver s stack frame label rest d o) := by
  unfold deliver
  split
  · exact settles_of_grounded h s _
  · split
    · exact settles_fault h s frame _
    · exact settles_failed h _ frame _
    · exact settles_of_grounded h _ _

theorem settles_resume
    (h : Grounded c stack)
    (s : Store) (k : Continuation) :
    Settles (resume s stack k) := by
  cases k with
  | activation frame label => exact settles_jump h s frame label
  | _ => exact settles_of_grounded h s _

theorem settles_activate
    (h : Grounded c stack)
    (s : Store) (id : Nat) :
    Settles (activate s stack id) := by
  unfold activate
  split
  · exact settles_jump (h.push (.consuming id)) _ _ _
  · exact settles_jump (h.push (.consuming id)) _ _ _
  · exact settles_halt h s .blocked
  · exact settles_of_grounded h s _

theorem settles_invoke
    (h : Grounded c stack)
    (s : Store) (op : String) (args : List Value) :
    Settles (invoke s stack op args) := by
  unfold invoke
  split
  · exact settles_reply h _ _
  · exact settles_activate h _ _

/-! ## Steps -/

theorem settles_perform
    (h : Grounded c stack)
    (s : Store) (frame : Nat) (label : Ir.Label) (rest : List Ir.Instruction) (environment : Environment)
    (e : Effect) :
    Settles (perform s stack frame label rest environment e) := by
  cases e with
  | next => exact settles_of_grounded h s _
  | goto target => exact settles_jump h s frame target
  | failed onFail => exact settles_failed h s frame onFail
  | succeed v again => cases again <;> exact settles_of_grounded h s _
  | call d callee args names => exact settles_call (h.push (.awaiting frame label rest d)) s _ _ _ _
  | operator d op args => exact settles_invoke (h.push (.awaiting frame label rest d)) s op args
  | resume d k =>
      cases k with
      | none => exact settles_of_grounded (h.push (.awaiting frame label rest d)) s _
      | some k => exact settles_resume (h.push (.awaiting frame label rest d)) s k
  | produce v again =>
      simp only [perform]
      split
      · exact settles_of_next?_eq_none _ _ rfl
      · exact settles_fault h s frame _
  | exhaust =>
      simp only [perform]
      split
      · exact settles_of_grounded h s _
      · exact settles_fault h s frame _
  | halt reason => exact settles_halt h s reason
  | fault f => exact settles_fault h s frame _

theorem settles_advance
    (h : Grounded c stack)
    (s : Store) (frame : Nat) (label : Ir.Label) (rest : List Ir.Instruction) :
    Settles (advance s stack frame label rest) := by
  unfold advance
  split
  · exact settles_of_grounded h s _
  · exact settles_fault h s frame _
  · exact settles_perform h _ frame label _ _ _

/-- Only a fault that has come down to the consumer leaves the body as a fault. -/
theorem settles_step
    (h : Grounded c stack)
    (s : Store) (control : Control) :
    Settles (step ⟨s, stack, control⟩) ∨ stack = [.consuming c] ∧ ∃ r, control = .raising r := by
  obtain ⟨x, rest, rfl⟩ := h.exists_cons
  cases control with
  | running frame label is => exact Or.inl (settles_advance h s frame label is)
  | halted reason => exact Or.inl (settles_of_grounded h s _)
  | aborted r => exact Or.inl (settles_of_grounded h s _)
  | returning o =>
      refine Or.inl ?_
      rcases h.cons with ⟨rfl, rfl⟩ | hrest
      · exact settles_of_next?_eq_none _ _ (by cases o <;> rfl)
      · cases x with
        | awaiting frame label is d => exact settles_deliver hrest s frame label is d o
        | recovering frame => exact settles_of_grounded hrest s _
        | bare => exact settles_of_grounded hrest s _
        | consuming id => exact settles_of_grounded hrest _ _
  | raising r =>
      rcases h.cons with ⟨rfl, rfl⟩ | hrest
      · exact Or.inr ⟨rfl, r, rfl⟩
      · refine Or.inl ?_
        cases x with
        | awaiting frame label is d => exact settles_fault hrest s frame r
        | recovering frame => exact settles_leave hrest s frame r
        | bare => exact settles_of_grounded hrest s _
        | consuming id => exact settles_of_grounded hrest _ _

theorem isFinished_of_exits
    {m : Machine}
    (h : m.Exits c) :
    m.isFinished = true := by
  cases h <;> rfl

end Machine

/-! ## Runs -/

namespace Rendezvous

/-- A run that comes out of a body gives the consumer an outcome that cannot be resumed, or a fault that came down to
the consumer. -/
theorem left_of_iterate
    {m m' : Machine} {j : Nat}
    (hm : Grounded c m.stack)
    (hlast : Machine.step^[j] m = m')
    (hstack : m'.stack = []) :
    (∃ o, m'.control = .returning o ∧ o.next? = none) ∨
      ∃ i s r, Machine.step^[i] m = ⟨s, [.consuming c], .raising r⟩ ∧
        m' = ⟨s.endProducer c, [], .raising (r.leave (Store.producerEntry c))⟩ := by
  induction j generalizing m with
  | zero =>
      cases hlast
      exact absurd hstack (Grounded.ne_nil hm)
  | succ j ih =>
      rw [Function.iterate_succ_apply] at hlast
      rcases (Machine.rises_step hm [] m.store m.control).stack with hwithin | hexits
      · refine (ih hwithin hlast).imp_right ?_
        rintro ⟨i, s, r, hi, hm'⟩
        exact ⟨i + 1, s, r, hi, hm'⟩
      · rw [Function.iterate_fixed (Machine.step_of_isFinished (Machine.isFinished_of_exits hexits))] at hlast
        subst hlast
        obtain ⟨s, stack, control⟩ := m
        rcases Machine.settles_step hm s control with hsettles | ⟨rfl, r, rfl⟩
        · exact Or.inl (hsettles hstack)
        · exact Or.inr ⟨0, s, r, rfl, rfl⟩

theorem grounded_begin (c : Nat) (s : Store) (b : Place) : Grounded c (begin c s b).stack := by
  obtain ⟨r, control, hbegin, -⟩ := begin_eq c s b
  rw [hbegin]
  exact grounded_consuming c

end Rendezvous

namespace Store

open Rendezvous

variable {s t : Store} {r : Raised} {o : Outcome} {j : Nat}

/-- The producer of a co-expression is taken up where it rests, and lets a fault come down to its consumer. -/
def Forwards (s : Store) (c : Nat) (r : Raised) : Prop :=
  ∃ b j t, place? s c = some b ∧ Machine.step^[j] (begin c s b) = ⟨t, [.consuming c], .raising r⟩

/-- A co-expression that is not at rest runs no body: it stops the machine, or fails. -/
theorem activate_of_place?_eq_none
    (h : place? s c = none) :
    Machine.activate s [] c = ⟨s, [], .halted .blocked⟩ ∨ Machine.activate s [] c = ⟨s, [], .returning .fail⟩ := by
  cases hproducer : s.producer c with
  | fresh frame label => simp [place?, hproducer] at h
  | waiting frame label => simp [place?, hproducer] at h
  | running => exact Or.inl (by simp only [Machine.activate, hproducer, Machine.halt])
  | ended => exact Or.inr (by simp only [Machine.activate, hproducer])

theorem activate_of_place?
    {b : Place}
    (h : place? s c = some b) :
    Machine.activate s [] c = begin c s b := by
  rw [activate_eq h []]
  simp only [Machine.onto, List.append_nil]

/-- An activation that comes to an end gives an outcome that cannot be resumed, or a fault that the body forwards. -/
theorem activate_ends
    {m : Machine}
    (hrun : Machine.step^[j] (Machine.activate s [] c) = m)
    (hstack : m.stack = []) :
    (∃ reason, m.control = .halted reason) ∨ (∃ o, m.control = .returning o ∧ o.next? = none) ∨
      ∃ r, s.Forwards c r ∧ m.control = .raising (r.leave (producerEntry c)) := by
  cases hplace : place? s c with
  | none =>
      rcases activate_of_place?_eq_none hplace with hactivate | hactivate
      · rw [hactivate, Function.iterate_fixed (Machine.step_of_isFinished rfl)] at hrun
        exact Or.inl ⟨.blocked, hrun ▸ rfl⟩
      · rw [hactivate, Function.iterate_fixed (Machine.step_of_isFinished rfl)] at hrun
        exact Or.inr (Or.inl ⟨.fail, hrun ▸ rfl, rfl⟩)
  | some b =>
      rw [activate_of_place? hplace] at hrun
      refine Or.inr ((left_of_iterate (grounded_begin c s b) hrun hstack).imp_right ?_)
      rintro ⟨i, t, r, hi, rfl⟩
      exact ⟨r, ⟨b, i, t, hplace, hi⟩, rfl⟩

/-- An activation raises what the body forwards, with the co-expression in its trace. -/
theorem activate_raises_iff :
    (∃ j t, Machine.step^[j] (Machine.activate s [] c) = ⟨t, [], .raising r⟩) ↔
      ∃ r', s.Forwards c r' ∧ r = r'.leave (producerEntry c) := by
  constructor
  · rintro ⟨j, t, hrun⟩
    rcases activate_ends hrun rfl with ⟨reason, hcontrol⟩ | ⟨o, hcontrol, -⟩ | ⟨r', hforwards, hcontrol⟩
    · cases hcontrol
    · cases hcontrol
    · cases hcontrol
      exact ⟨r', hforwards, rfl⟩
  · rintro ⟨r', ⟨b, j, t, hplace, hrun⟩, rfl⟩
    refine ⟨j + 1, t.endProducer c, ?_⟩
    rw [activate_of_place? hplace, Function.iterate_succ_apply', hrun]
    rfl

end Store

end Forwarding

end GoalDirected
