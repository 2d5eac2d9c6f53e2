import GoalDirected.Proofs.Machine.Growth

/-!
# What a run does to cells, global names and the offset of selects

Cells are never taken back, and no instruction declares a global name.  The offset from which the cases of a
select are tried goes up by one with each select, whichever it is, and with nothing else.

* `Onward`: cells are only added, the global names stay as they are, and a given number of selects has been made.
* `Machine.selects`: the number of selects that the next step makes, which is one or none.
* `onward_step`, `onward_finish`: one step, and a run to the end.
-/

namespace GoalDirected

section Rotation

namespace Store

/-- Cells are only added, the global names stay as they are, and `k` selects have been made. -/
structure Onward (s : Store) (k : Nat) (t : Store) : Prop where
  cells : s.cells.size ≤ t.cells.size
  namespaces : t.namespaces = s.namespaces
  rotation : t.rotation = s.rotation + k

variable {s t u : Store} {k l : Nat}

theorem Onward.refl (s : Store) : s.Onward 0 s :=
  ⟨Nat.le_refl _, rfl, rfl⟩

theorem Onward.trans
    (h : s.Onward k t)
    (h' : t.Onward l u) :
    s.Onward (k + l) u :=
  ⟨Nat.le_trans h.cells h'.cells, h'.namespaces.trans h.namespaces,
    by rw [h'.rotation, h.rotation, Nat.add_assoc]⟩

/-- Something follows that makes no select. -/
theorem Onward.widen
    (h : s.Onward k t)
    (h' : t.Onward 0 u) :
    s.Onward k u :=
  h.trans h'

/-! ## Data -/

theorem Update.onward
    (h : s.Update t) :
    s.Onward 0 t := by
  cases h with
  | write cell v => exact ⟨Nat.le_of_eq (s.size_write cell v).symm, rfl, rfl⟩
  | allocate v => exact ⟨by simp, rfl, rfl⟩
  | newList values => exact ⟨by simp [Store.newList], rfl, rfl⟩
  | _ => exact ⟨Nat.le_refl _, rfl, rfl⟩

theorem Updates.onward
    (h : s.Updates t) :
    s.Onward 0 t := by
  induction h with
  | refl => exact .refl s
  | tail _ hlast ih => exact ih.widen hlast.onward

/-! ## Co-expressions, frames -/

theorem onward_setProducer (s : Store) (id : Nat) (p : Producer) : s.Onward 0 (s.setProducer id p) := by
  cases id <;> exact ⟨Nat.le_refl _, rfl, rfl⟩

theorem onward_endProducer (s : Store) (id : Nat) : s.Onward 0 (s.endProducer id) := by
  have h := s.onward_setProducer id .ended
  exact ⟨h.cells, h.namespaces, h.rotation⟩

theorem onward_setFrame (s : Store) (n : Nat) (f : Frame) : s.Onward 0 (s.setFrame n f) :=
  ⟨Nat.le_refl _, rfl, rfl⟩

/-! ## Environments and names -/

theorem onward_declareAt (s : Store) (id : Nat) (name : String) (v : Value) :
    s.Onward 0 (s.declareAt id name v).2 := by
  have h := (s.updates_allocate v).onward
  exact ⟨h.cells, h.namespaces, h.rotation⟩

theorem onward_resolve
    {e : Environment} {name : String} {assignable : Bool} {v : Value}
    (h : s.resolve e name assignable = .ok (v, t)) :
    s.Onward 0 t := by
  unfold resolve at h
  split at h <;> cases h
  · exact .refl s
  · exact .refl s
  · exact s.onward_declareAt _ _ _
  · exact s.onward_declareAt _ _ _

/-! ## Scopes and copies of frames -/

theorem onward_enterScope (s : Store) (f : Frame) (name : String) (names dynamics : List String) :
    s.Onward 0 (s.enterScope f name names dynamics).2 := by
  have h := (s.updates_shadow f.vars names).onward
  simp only [enterScope]
  split
  · exact h
  · exact ⟨h.cells, h.namespaces, h.rotation⟩

theorem onward_createProducer
    {f : Frame} {entry : Ir.Label} {v : Value}
    (h : s.createProducer f entry = .ok (v, t)) :
    s.Onward 0 t := by
  simp only [createProducer] at h
  split at h
  · cases h
    have hcopy := (updates_duplicateFrame (s.taskEnvironment f.environment (s.producers.size + 1)).2 f
      (s.taskEnvironment f.environment (s.producers.size + 1)).1).onward
    exact ⟨hcopy.cells, hcopy.namespaces, hcopy.rotation⟩
  · cases h

/-! ## The library -/

theorem onward_builtin (s : Store) (b : Builtin) (args : List Value) :
    s.Onward 0 (s.builtin b args).2 := by
  rcases s.updates_builtin b args with hupdates | ⟨-, id, -, -, hended⟩
  · exact hupdates.onward
  · rw [hended]
    exact s.onward_endProducer id

/-! ## Selects -/

/-- Every choice moves the offset on by one, whatever it comes to. -/
theorem onward_choose (s : Store) (waits : List WaitCase) : s.Onward 1 (s.choose waits).2 := by
  have hturned : s.Onward 1 { s with rotation := s.rotation + 1 } := ⟨Nat.le_refl _, rfl, rfl⟩
  exact hturned.widen (s.updates_choose waits).onward

theorem onward_storeReceived (s : Store) (f : Frame) (slot : Nat) (v : Value) (body : Ir.Label) :
    s.Onward 0 (s.storeReceived f slot v body).2.2 := by
  unfold storeReceived
  split
  · exact (s.updates_write _ v).onward
  · split <;> exact .refl s

/-- The cases of the select that an instruction makes, and the same cases with their operands. -/
def selecting? (s : Store) (f : Frame) : Ir.Instruction → Option (List Ir.Case × List WaitCase)
  | .select cases _ => (s.waitCases f cases).toOption.map fun waits => (cases, waits)
  | _ => none

/-- The number of selects that an instruction makes: one or none. -/
def selects (s : Store) (f : Frame) (i : Ir.Instruction) : Nat :=
  if (s.selecting? f i).isSome then 1 else 0

theorem onward_executeSelect (s : Store) (f : Frame) (cases : List Ir.Case) (onFail : Option Ir.Label) :
    s.Onward (s.selects f (.select cases onFail)) (s.executeSelect f cases onFail).2.2 := by
  unfold executeSelect
  split
  · rename_i e hwaits
    have hnone : s.selects f (.select cases onFail) = 0 := by
      simp [selects, selecting?, hwaits, Except.toOption]
    exact hnone ▸ .refl s
  · rename_i waits hwaits
    have hone : s.selects f (.select cases onFail) = 1 := by
      simp [selects, selecting?, hwaits, Except.toOption]
    have hchoose := s.onward_choose waits
    rw [hone]
    split <;> rename_i heq <;> rw [heq] at hchoose
    · exact hchoose
    · exact hchoose
    · split
      · exact hchoose.widen (onward_storeReceived _ f _ _ _)
      · exact hchoose
      · exact hchoose

/-! ## Instructions -/

theorem onward_changed
    (h : s.Onward k t)
    (f : Frame) (r : Except Malfunction Frame) :
    s.Onward k (t.changed f r).2.2 := by
  cases r <;> exact h

theorem onward_executeField (s : Store) (f : Frame) (target record : Nat) (field : String)
    (assignable : Bool) (onFail : Option Ir.Label) :
    s.Onward 0 (s.executeField f target record field assignable onFail).2.2 := by
  unfold executeField
  split
  · exact .refl s
  · split
    · split
      · exact onward_changed (.refl s) f _
      · exact .refl s
    · exact .refl s

/-- An instruction makes at most one select. -/
theorem onward_execute (s : Store) (f : Frame) (i : Ir.Instruction) :
    s.Onward (s.selects f i) (s.execute f i).2.2 := by
  cases i with
  | literal target value => exact onward_changed (.refl s) f _
  | name target name => exact onward_changed (.refl s) f _
  | dynamic target name assignable =>
      simp only [execute]
      split
      · rename_i hresolve
        exact onward_changed (onward_resolve hresolve) f _
      · exact .refl s
  | field target record field assignable onFail => exact s.onward_executeField f _ _ _ _ _
  | call d callee args names =>
      simp only [execute]
      split <;> exact .refl s
  | operator d op args =>
      simp only [execute]
      split <;> exact .refl s
  | resume d source =>
      simp only [execute]
      split <;> exact .refl s
  | move target source => exact onward_changed (.refl s) f _
  | deref target source => exact onward_changed (.refl s) f _
  | moveLabel target label => exact onward_changed (.refl s) f _
  | goto target => exact .refl s
  | indirect source targets =>
      simp only [execute]
      split
      · exact .refl s
      · split <;> exact .refl s
  | succeed expr again =>
      cases expr with
      | none => exact .refl s
      | some slot =>
          simp only [execute]
          split <;> exact .refl s
  | fail => exact .refl s
  | enter scope names dynamics => exact s.onward_enterScope f scope names dynamics
  | leave scope =>
      simp only [execute]
      split <;> exact .refl s
  | create target entry =>
      simp only [execute]
      split
      · rename_i hcreate
        exact onward_changed (onward_createProducer hcreate) f _
      · exact .refl s
  | produce value again =>
      simp only [execute]
      split <;> exact .refl s
  | exhaust => exact .refl s
  | select cases onFail => exact s.onward_executeSelect f cases onFail
  | recover handler =>
      simp only [execute]
      split <;> exact .refl s
  | coordinate coord => exact .refl s

end Store

/-! ## Steps -/

namespace Machine

open Store

variable {s : Store} {stack : List Context}

theorem onward_halt (s : Store) (stack : List Context) (reason : Halt) :
    s.Onward 0 (halt s stack reason).store := by
  unfold halt
  split
  · exact s.onward_setProducer _ _
  · exact .refl s

theorem onward_enter (s : Store) (stack : List Context) (environment : Environment) (p : Procedure)
    (args : List Value) (names : List String) :
    s.Onward 0 (enter s stack environment p args names).store := by
  have hbind := (s.updates_bindArguments p.code args names).onward
  have hframe := hbind.widen (u := ((s.bindArguments p.code args names).2.newFrame
    (.new environment p args (s.bindArguments p.code args names).1)).2) ⟨Nat.le_refl _, rfl, rfl⟩
  unfold enter
  split
  · exact .refl s
  · dsimp only
    split
    · exact hframe
    · rw [store_leave]
      exact hframe

theorem onward_reply (s : Store) (stack : List Context) (r : Reply) :
    s.Onward 0 (reply s stack r).store := by
  cases r with
  | outcome o => exact .refl s
  | fault f => exact .refl s
  | halt reason => exact onward_halt s stack reason

theorem onward_call (s : Store) (stack : List Context) (environment : Environment) (callee : Value)
    (args : List Value) (names : List String) :
    s.Onward 0 (call s stack environment callee args names).store := by
  have hcalled := called_call s stack environment callee args names
  generalize call s stack environment callee args names = m at hcalled ⊢
  cases hcalled with
  | procedure => exact onward_enter s stack environment _ args names
  | record hconstruct => exact (updates_construct hconstruct).onward
  | @builtin _ b => exact (s.onward_builtin b _).widen (onward_reply _ stack _)
  | _ => exact .refl s

theorem onward_fault (s : Store) (stack : List Context) (frame : Nat) (r : Raised) :
    s.Onward 0 (fault s stack frame r).store := by
  unfold fault
  split
  · exact .refl s
  · dsimp only
    split
    · exact (s.onward_setFrame frame _).widen (onward_call _ _ _ _ _ _)
    · rw [store_leave]
      exact s.onward_setFrame frame _
  · rw [store_leave]
    exact .refl s

theorem onward_deliver (s : Store) (stack : List Context) (frame : Nat) (label : Ir.Label)
    (rest : List Ir.Instruction) (d : Ir.Destination) (o : Outcome) :
    s.Onward 0 (deliver s stack frame label rest d o).store := by
  unfold deliver
  split
  · exact .refl s
  · split
    · rw [store_malfunction]
      exact .refl s
    · rw [store_failed]
      exact s.onward_setFrame frame _
    · exact s.onward_setFrame frame _

theorem onward_activate (s : Store) (stack : List Context) (id : Nat) :
    s.Onward 0 (activate s stack id).store := by
  unfold activate
  split
  · rw [store_jump]
    exact s.onward_setProducer id _
  · rw [store_jump]
    exact s.onward_setProducer id _
  · exact onward_halt s stack _
  · exact .refl s

theorem onward_machineInvoke (s : Store) (stack : List Context) (op : String) (args : List Value) :
    s.Onward 0 (invoke s stack op args).store := by
  have h := (s.updates_invoke op args).onward
  unfold invoke
  split <;> rename_i heq <;> rw [heq] at h
  · exact h.widen (onward_reply _ stack _)
  · exact h.widen (onward_activate _ stack _)

theorem onward_perform (s : Store) (stack : List Context) (frame : Nat) (label : Ir.Label)
    (rest : List Ir.Instruction) (environment : Environment) (e : Effect) :
    s.Onward 0 (perform s stack frame label rest environment e).store := by
  cases e with
  | next => exact .refl s
  | goto target =>
      simp only [perform, store_jump]
      exact .refl s
  | failed onFail =>
      simp only [perform, store_failed]
      exact .refl s
  | succeed v again => cases again <;> exact .refl s
  | call d callee args names => exact onward_call s _ environment callee args names
  | operator d op args => exact onward_machineInvoke s _ op args
  | resume d k =>
      cases k with
      | none => exact .refl s
      | some k =>
          simp only [perform, store_resume]
          exact .refl s
  | produce v again =>
      simp only [perform]
      split
      · exact s.onward_setProducer _ _
      · rw [store_malfunction]
        exact .refl s
  | exhaust =>
      simp only [perform]
      split
      · exact .refl s
      · rw [store_malfunction]
        exact .refl s
  | halt reason => exact onward_halt s stack reason
  | fault f => exact onward_fault s stack frame _

/-- The cases of the select that the next step makes, and the same cases with their operands. -/
def selecting? (m : Machine) : Option (List Ir.Case × List WaitCase) :=
  match m.control with
  | .running frame _ (i :: _) => m.store.frames[frame]?.bind fun f => m.store.selecting? f i
  | _ => none

/-- The number of selects that the next step makes: one or none. -/
def selects (m : Machine) : Nat :=
  if m.selecting?.isSome then 1 else 0

/-- A step makes at most one select, and moves the offset on by exactly the selects that it makes. -/
theorem onward_step (m : Machine) : m.store.Onward m.selects m.step.store := by
  obtain ⟨s, stack, control⟩ := m
  cases control with
  | running frame label rest =>
      simp only [step, advance]
      cases hf : s.frames[frame]? with
      | none => cases rest <;> simpa [selects, selecting?, hf] using Onward.refl s
      | some f =>
          cases rest with
          | nil =>
              simp only [store_malfunction]
              exact .refl s
          | cons i rest =>
              have hexecute := s.onward_execute f i
              simp only [selects, selecting?, hf, Option.bind_some]
              exact (hexecute.widen (onward_setFrame _ frame _)).widen
                (onward_perform _ stack frame label rest _ _)
  | returning o =>
      cases stack with
      | nil => exact .refl s
      | cons x stack =>
          cases x with
          | awaiting frame label rest d => exact onward_deliver s stack frame label rest d o
          | recovering frame => exact .refl s
          | bare => exact .refl s
          | consuming id => exact s.onward_endProducer id
  | raising r =>
      cases stack with
      | nil => exact .refl s
      | cons x stack =>
          cases x with
          | awaiting frame label rest d => exact onward_fault s stack frame r
          | recovering frame =>
              simp only [step, raiseTo, store_leave]
              exact .refl s
          | bare => exact .refl s
          | consuming id => exact s.onward_endProducer id
  | halted reason => exact .refl s
  | aborted r => exact .refl s

/-- A run makes some number of selects. -/
theorem onward_run (m : Machine) (fuel : Nat) : ∃ k, m.store.Onward k (m.run fuel).store := by
  induction fuel generalizing m with
  | zero => exact ⟨0, .refl _⟩
  | succ fuel ih =>
      simp only [run]
      split
      · exact ⟨0, .refl _⟩
      · obtain ⟨k, hk⟩ := ih m.step
        exact ⟨m.selects + k, m.onward_step.trans hk⟩

theorem onward_finish (m : Machine) : ∃ k, m.store.Onward k m.finish.2 :=
  m.onward_run stepLimit

end Machine

end Rotation

end GoalDirected
