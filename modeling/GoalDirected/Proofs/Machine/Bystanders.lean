import GoalDirected.Proofs.Coexpression.Separation
import GoalDirected.Proofs.Machine.Lockstep
import GoalDirected.Proofs.Program.Custody
import GoalDirected.Proofs.Store.Frames

/-!
# Runs above a frame that waits

**Input.** A machine, and a frame that it does not go on with.

**Argument.** Put the machine above contexts the innermost of which waits, and give the frame another content.
Nothing that the machine does reads or changes the frame, and it does not look below its own contexts, unless it
stops everything.  So it makes the same steps.

**Results.**
* `Machine.atop`: the machine above other contexts, with another content of the frame.
* `echoes_step`: one step; `iterate_atop`: a run that is not stopped.
-/

namespace GoalDirected

section Bystanders

namespace Machine

/-- The machine above other contexts, with another content of a frame. -/
def atop (m : Machine) (n : Nat) (g : Frame) (below : List Context) : Machine :=
  ⟨m.store.setFrame n g, m.stack ++ below, m.control⟩

/-- The other machine is the one atop of the contexts, unless everything has been stopped. -/
def Echoes (n : Nat) (g : Frame) (below : List Context) (m m' : Machine) : Prop :=
  (∀ reason, m.control ≠ .halted reason) → m' = m.atop n g below

/-- The innermost context waits for an outcome. -/
def IsWaiting (below : List Context) : Prop :=
  ∃ frame label rest d base, below = .awaiting frame label rest d :: base

variable {s : Store} {stack below : List Context} {n frame : Nat} {g : Frame}

theorem echoes_of_eq (s : Store) (stack : List Context) (control : Control) :
    Echoes n g below ⟨s, stack, control⟩ ⟨s.setFrame n g, stack ++ below, control⟩ :=
  fun _ => rfl

theorem echoes_raise (s : Store) (stack : List Context) (f : Fault) :
    Echoes n g below (raise s stack f) (raise (s.setFrame n g) (stack ++ below) f) :=
  echoes_of_eq s stack _

/-- Only the innermost consumer of the machine itself is told that it has asked for an impossible queue. -/
theorem echoes_halt (s : Store) (stack : List Context) (reason : Halt) :
    Echoes n g below (halt s stack reason) (halt (s.setFrame n g) (stack ++ below) reason) := by
  unfold halt
  split
  · rename_i id rest hconsumer
    simp only [Coexpression.innermostConsumer?_append, hconsumer, Store.setProducer_setFrame]
    exact echoes_of_eq _ rest _
  · intro hhalted
    exact absurd rfl (hhalted _)

/-! ## Calls -/

theorem echoes_leave
    (h : frame ≠ n)
    (s : Store) (stack : List Context) (r : Raised) :
    Echoes n g below (leave s stack frame r) (leave (s.setFrame n g) (stack ++ below) frame r) := by
  unfold leave
  rw [Store.getElem?_frames_setFrame_of_ne h]
  split
  · rw [Store.areShown_setFrame, Store.traceEntry_setFrame]
    split <;> exact echoes_of_eq s stack _
  · exact echoes_of_eq s stack _

theorem echoes_enter
    (h : n < s.frames.size)
    (stack : List Context) (environment : Environment) (p : Procedure) (args : List Value) (names : List String) :
    Echoes n g below (enter s stack environment p args names)
      (enter (s.setFrame n g) (stack ++ below) environment p args names) := by
  have hframes := Store.frames_eq_of_activity (s.activity_bindArguments p.code args names)
  have hsize : n < (s.bindArguments p.code args names).2.frames.size := hframes ▸ h
  unfold enter
  split
  · exact echoes_raise s stack _
  · simp only [Store.bindArguments_setFrame, Store.newFrame_setFrame hsize]
    split
    · exact echoes_of_eq _ stack _
    · exact echoes_leave (Nat.ne_of_gt hsize) _ stack _

theorem echoes_reply (s : Store) (stack : List Context) (r : Reply) :
    Echoes n g below (reply s stack r) (reply (s.setFrame n g) (stack ++ below) r) := by
  cases r with
  | outcome o => exact echoes_of_eq s stack _
  | fault f => exact echoes_raise s stack f
  | halt reason => exact echoes_halt s stack reason

theorem echoes_callCallable
    (h : n < s.frames.size)
    (stack : List Context) (environment : Environment) (callable : Callable) (args : List Value)
    (names : List String) :
    Echoes n g below (callCallable s stack environment callable args names)
      (callCallable (s.setFrame n g) (stack ++ below) environment callable args names) := by
  cases callable with
  | procedure p => exact echoes_enter h stack environment p args names
  | constructor record fields =>
      simp only [callCallable, Store.construct_setFrame]
      cases s.construct record fields args names with
      | error f => exact echoes_raise s stack f
      | ok r => exact echoes_of_eq r.2 stack _
  | builtin b =>
      simp only [callCallable, Store.deref_setFrame, Store.builtin_setFrame]
      split
      · exact echoes_reply _ stack _
      · exact echoes_raise s stack _

theorem echoes_call
    (h : n < s.frames.size)
    (stack : List Context) (environment : Environment) (callee : Value) (args : List Value)
    (names : List String) :
    Echoes n g below (call s stack environment callee args names)
      (call (s.setFrame n g) (stack ++ below) environment callee args names) := by
  have hcallables : (s.setFrame n g).callables = s.callables := rfl
  simp only [call, Store.deref_setFrame, hcallables]
  split
  · split
    · exact echoes_callCallable h stack environment _ args names
    · exact echoes_raise s stack _
  · exact echoes_raise s stack _

/-! ## Faults and jumps -/

theorem echoes_fault
    (hbelow : IsWaiting below)
    (hn : n < s.frames.size)
    (h : frame ≠ n)
    (stack : List Context) (r : Raised) :
    Echoes n g below (fault s stack frame r) (fault (s.setFrame n g) (stack ++ below) frame r) := by
  have hlook := Store.getElem?_frames_setFrame_of_ne (s := s) h g
  have hhead : stack.head? ≠ some .bare → (stack ++ below).head? ≠ some .bare := by
    obtain ⟨k, label, is, d, base, rfl⟩ := hbelow
    cases stack with
    | nil => exact fun _ => nofun
    | cons x stack => exact id
  have hfaulted := faulted_fault s stack frame r
  generalize fault s stack frame r = m at hfaulted ⊢
  cases hfaulted with
  | bare hstack =>
      subst hstack
      exact echoes_of_eq s _ _
  | absent hbare hf =>
      rw [fault_absent (hhead hbare) (hlook.trans hf)]
      exact echoes_of_eq s stack _
  | passed hbare hf hquiet =>
      rw [fault_pass (hhead hbare) (hlook.trans hf) hquiet, Store.setFrame_comm h]
      exact echoes_leave h _ stack r
  | caught hbare hf hfault hrecovery =>
      rw [fault_catch (hhead hbare) (hlook.trans hf) hfault hrecovery, Store.setFrame_comm h]
      exact echoes_call (by rwa [Store.size_frames_setFrame]) (.recovering frame :: stack) _ _ _ _

theorem echoes_jump
    (hbelow : IsWaiting below)
    (hn : n < s.frames.size)
    (h : frame ≠ n)
    (stack : List Context) (label : Ir.Label) :
    Echoes n g below (jump s stack frame label) (jump (s.setFrame n g) (stack ++ below) frame label) := by
  unfold jump
  rw [Store.getElem?_frames_setFrame_of_ne h]
  split
  · exact echoes_of_eq s stack _
  · split
    · exact echoes_of_eq s stack _
    · exact echoes_fault hbelow hn h stack _

theorem echoes_failed
    (hbelow : IsWaiting below)
    (hn : n < s.frames.size)
    (h : frame ≠ n)
    (stack : List Context) (onFail : Option Ir.Label) :
    Echoes n g below (failed s stack frame onFail) (failed (s.setFrame n g) (stack ++ below) frame onFail) := by
  cases onFail with
  | none => exact echoes_of_eq s stack _
  | some label => exact echoes_jump hbelow hn h stack label

theorem echoes_deliver
    (hbelow : IsWaiting below)
    (hn : n < s.frames.size)
    (h : frame ≠ n)
    (stack : List Context) (label : Ir.Label) (rest : List Ir.Instruction) (d : Ir.Destination) (o : Outcome) :
    Echoes n g below (deliver s stack frame label rest d o)
      (deliver (s.setFrame n g) (stack ++ below) frame label rest d o) := by
  unfold deliver
  rw [Store.getElem?_frames_setFrame_of_ne h]
  split
  · exact echoes_of_eq s stack _
  · simp only [Store.setFrame_comm h]
    split
    · exact echoes_fault hbelow hn h stack _
    · exact echoes_failed hbelow (by rwa [Store.size_frames_setFrame]) h stack d.onFail
    · exact echoes_of_eq _ stack _

theorem echoes_resume
    (hbelow : IsWaiting below)
    (hn : n < s.frames.size)
    {k : Continuation}
    (h : k.uses n = 0)
    (stack : List Context) :
    Echoes n g below (resume s stack k) (resume (s.setFrame n g) (stack ++ below) k) := by
  cases k with
  | activation frame label => exact echoes_jump hbelow hn (by simpa [Continuation.uses, mark] using h) stack label
  | elements list position => exact echoes_of_eq s stack _
  | values rest => exact echoes_of_eq s stack _
  | count low high => exact echoes_of_eq s stack _

theorem echoes_activate
    (hbelow : IsWaiting below)
    (hn : n < s.frames.size)
    (hs : s.uses n = 0)
    (stack : List Context) (id : Nat) :
    Echoes n g below (activate s stack id) (activate (s.setFrame n g) (stack ++ below) id) := by
  have huses : (s.producer id).uses n = 0 := by
    have hset := s.uses_setProducer id .running n
    simp only [Producer.uses] at hset ⊢
    omega
  have hjump : ∀ frame label, frame ≠ n →
      Echoes n g below (jump (s.setProducer id .running) (.consuming id :: stack) frame label)
        (jump ((s.setProducer id .running).setFrame n g) (.consuming id :: stack ++ below) frame label) :=
    fun frame label h => echoes_jump hbelow (by rwa [size_frames_setProducer]) h _ label
  simp only [activate, Store.producer_setFrame, Store.setProducer_setFrame]
  split
  · rename_i frame label hproducer
    rw [hproducer] at huses
    exact hjump frame label (by simpa [Producer.uses, mark] using huses)
  · rename_i frame label hproducer
    rw [hproducer] at huses
    exact hjump frame label (by simpa [Producer.uses, mark] using huses)
  · exact echoes_halt s stack .blocked
  · exact echoes_of_eq s stack _

theorem echoes_invoke
    (hbelow : IsWaiting below)
    (hn : n < s.frames.size)
    (hs : s.uses n = 0)
    (stack : List Context) (op : String) (args : List Value) :
    Echoes n g below (invoke s stack op args) (invoke (s.setFrame n g) (stack ++ below) op args) := by
  have hactivity := s.activity_invoke op args
  have hsize : n < (s.invoke op args).2.frames.size := Store.frames_eq_of_activity hactivity ▸ hn
  have huses : (s.invoke op args).2.uses n = 0 := (Store.uses_eq_of_activity hactivity n).trans hs
  simp only [invoke, Store.invoke_setFrame]
  generalize s.invoke op args = x at hsize huses
  obtain ⟨answer, t⟩ := x
  cases answer with
  | reply r => exact echoes_reply t stack r
  | activate id => exact echoes_activate hbelow hsize huses stack id

/-! ## Steps -/

theorem echoes_perform
    (hbelow : IsWaiting below)
    (hn : n < s.frames.size)
    (hs : s.uses n = 0)
    (h : frame ≠ n)
    {x : Effect}
    (hx : x.uses n = 0)
    (stack : List Context) (label : Ir.Label) (rest : List Ir.Instruction) (environment : Environment) :
    Echoes n g below (perform s stack frame label rest environment x)
      (perform (s.setFrame n g) (stack ++ below) frame label rest environment x) := by
  cases x with
  | next => exact echoes_of_eq s stack _
  | goto target => exact echoes_jump hbelow hn h stack target
  | failed onFail => exact echoes_failed hbelow hn h stack onFail
  | succeed v again => cases again <;> exact echoes_of_eq s stack _
  | call d callee args names => exact echoes_call hn (.awaiting frame label rest d :: stack) _ _ _ _
  | operator d op args => exact echoes_invoke hbelow hn hs (.awaiting frame label rest d :: stack) op args
  | resume d k =>
      cases k with
      | none => exact echoes_of_eq s (.awaiting frame label rest d :: stack) _
      | some k => exact echoes_resume hbelow hn hx (.awaiting frame label rest d :: stack)
  | produce v again =>
      cases stack with
      | nil =>
          obtain ⟨k, label', is, d, base, rfl⟩ := hbelow
          exact echoes_fault ⟨k, label', is, d, base, rfl⟩ hn h [] _
      | cons c stack =>
          cases c with
          | consuming id =>
              simp only [perform, List.cons_append, Store.setProducer_setFrame]
              exact echoes_of_eq _ stack _
          | _ => exact echoes_fault hbelow hn h (_ :: stack) _
  | exhaust =>
      cases stack with
      | nil =>
          obtain ⟨k, label', is, d, base, rfl⟩ := hbelow
          exact echoes_fault ⟨k, label', is, d, base, rfl⟩ hn h [] _
      | cons c stack =>
          cases c with
          | consuming id => exact echoes_of_eq s (.consuming id :: stack) _
          | _ => exact echoes_fault hbelow hn h (_ :: stack) _
  | halt reason => exact echoes_halt s stack reason
  | fault f => exact echoes_fault hbelow hn h stack _

theorem echoes_advance
    (hbelow : IsWaiting below)
    (hn : n < s.frames.size)
    (hs : s.uses n = 0)
    (h : frame ≠ n)
    (stack : List Context) (label : Ir.Label) (rest : List Ir.Instruction) :
    Echoes n g below (advance s stack frame label rest)
      (advance (s.setFrame n g) (stack ++ below) frame label rest) := by
  unfold advance
  rw [Store.getElem?_frames_setFrame_of_ne h]
  split
  · exact echoes_of_eq s stack _
  · exact echoes_fault hbelow hn h stack _
  · rename_i f i rest hf
    obtain ⟨hsize, huses⟩ := Store.uses_execute hf i n
    have hadded : added n s.frames.size (s.execute f i).2.2.frames.size = 0 := if_neg fun hnew => by omega
    rw [hs, hadded] at huses
    obtain ⟨hstore, heffect⟩ := Nat.add_eq_zero_iff.mp (Nat.le_zero.mp huses)
    simp only [Store.execute_setFrame hn, Store.setFrame_comm h]
    refine echoes_perform hbelow ?_ hstore h heffect stack label rest _
    rw [Store.size_frames_setFrame]
    exact Nat.lt_of_lt_of_le hn hsize

/-- A frame that is there already gets no way to go on. -/
theorem Within.unused
    {m : Machine} {size : Nat}
    (h : Within 1 n 0 size m)
    (hn : n < size) :
    n < m.store.frames.size ∧ m.uses 1 n = 0 := by
  obtain ⟨hsize, huses⟩ := h
  have hadded : added n size m.store.frames.size = 0 := if_neg fun hnew => by omega
  rw [hadded] at huses
  exact ⟨Nat.lt_of_lt_of_le hn hsize, Nat.le_zero.mp huses⟩

/-- A machine that does not go on with the frame makes the same step atop of what waits. -/
theorem echoes_step
    (hbelow : IsWaiting below)
    {m : Machine}
    (hn : n < m.store.frames.size)
    (hm : m.uses 1 n = 0)
    (hgoes : m.isFinished = false) :
    Echoes n g below m.step (m.atop n g below).step := by
  obtain ⟨s, stack, control⟩ := m
  simp only [Machine.uses, Nat.add_eq_zero_iff] at hm
  obtain ⟨⟨hs, hstack⟩, hcontrol⟩ := hm
  have hne : ∀ {frame}, mark frame n = 0 → frame ≠ n := by
    rintro frame hmark rfl
    simp [mark] at hmark
  cases control with
  | running frame label rest => exact echoes_advance hbelow hn hs (hne hcontrol) stack label rest
  | halted reason => cases hgoes
  | aborted r => cases hgoes
  | returning o =>
      cases stack with
      | nil => cases hgoes
      | cons c stack =>
          obtain ⟨hc, -⟩ : c.uses 1 n = 0 ∧ _ := Nat.add_eq_zero_iff.mp hstack
          cases c with
          | awaiting frame label rest d => exact echoes_deliver hbelow hn (hne hc) stack label rest d o
          | recovering frame => exact echoes_of_eq s stack _
          | bare => exact echoes_of_eq s stack _
          | consuming id =>
              simp only [step, atop, List.cons_append, returnTo, Store.endProducer_setFrame, Store.deref_setFrame]
              exact echoes_of_eq _ stack _
  | raising r =>
      cases stack with
      | nil => cases hgoes
      | cons c stack =>
          obtain ⟨hc, -⟩ : c.uses 1 n = 0 ∧ _ := Nat.add_eq_zero_iff.mp hstack
          cases c with
          | awaiting frame label rest d => exact echoes_fault hbelow hn (hne hc) stack r
          | recovering frame =>
              exact echoes_leave (hne (by simpa [Context.uses] using hc)) s stack r
          | bare => exact echoes_of_eq s stack _
          | consuming id =>
              simp only [step, atop, List.cons_append, raiseTo, Store.endProducer_setFrame]
              exact echoes_of_eq _ stack _

/-- A machine that does not go on with the frame never does. -/
theorem uses_run
    {m : Machine}
    (hn : n < m.store.frames.size)
    (hm : m.uses 1 n = 0)
    (fuel : Nat) :
    n < (m.run fuel).store.frames.size ∧ (m.run fuel).uses 1 n = 0 := by
  induction fuel with
  | zero => exact ⟨hn, hm⟩
  | succ fuel ih =>
      rw [run_succ]
      have hstep := within_step (Nat.le_refl 1) n (m.run fuel)
      rw [ih.2] at hstep
      exact hstep.unused ih.1

theorem isFinished_of_halted
    {m : Machine} {reason : Halt}
    (h : m.control = .halted reason) :
    m.isFinished = true := by
  obtain ⟨s, stack, control⟩ := m
  cases h
  rfl

/-- A run that does not go on with the frame, and is not stopped, takes place atop of what waits as well. -/
theorem iterate_atop
    (hbelow : IsWaiting below)
    {m : Machine}
    (hn : n < m.store.frames.size)
    (hm : m.uses 1 n = 0)
    (fuel : Nat)
    (hgoes : ∀ reason, (m.run fuel).control ≠ .halted reason) :
    ∃ j, step^[j] (m.atop n g below) = (m.run fuel).atop n g below := by
  induction fuel with
  | zero => exact ⟨0, rfl⟩
  | succ fuel ih =>
      rw [run_succ] at hgoes ⊢
      by_cases hfinished : (m.run fuel).isFinished = true
      · rw [step_of_isFinished hfinished] at hgoes ⊢
        exact ih hgoes
      · obtain ⟨hn', hm'⟩ := uses_run hn hm fuel
        obtain ⟨j, hj⟩ := ih fun reason hhalted => hfinished (isFinished_of_halted hhalted)
        refine ⟨j + 1, ?_⟩
        rw [Function.iterate_succ_apply', hj]
        exact echoes_step hbelow hn' hm' (by simpa using hfinished) hgoes

end Machine

end Bystanders

end GoalDirected
