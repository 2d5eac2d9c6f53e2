import GoalDirected.Proofs.Machine.Handling
import GoalDirected.Proofs.Program.Linking
import Mathlib.Logic.Function.Iterate

/-!
# The store stays flat

References live in slots only.  They are followed before a value is stored in a cell, sent on a channel, passed
to a call or returned from one, so the content of a cell is never a reference, and following one reference
is enough.

* `Machine.IsFlat`: no reference is stored, raised or returned.
* `Machine.IsFlatAbove base`: the same, but what is returned may be a reference while it is on its way to a
  frame above the base: an operator has handed it out.
* `IsFlatAbove.step`, `IsFlatAbove.iterate`: steps above the base keep this.
* `flat_of_reachable`: so it holds in all courses whose host passes no references, and no value that a call or
  the activation of a co-expression returns is a reference.
-/

namespace GoalDirected

section Flatness

namespace Machine

/-- No reference is stored, raised or returned. -/
structure IsFlat (m : Machine) : Prop where
  store : m.store.IsFlat
  raising : ∀ r, m.control = .raising r → r.fault.IsFlat
  returning : ∀ o, m.control = .returning o → o.IsFlat

/-- No reference is stored, raised or returned, except to a frame that waits above the base. -/
structure IsFlatAbove (base : List Context) (m : Machine) : Prop where
  store : m.store.IsFlat
  raising : ∀ r, m.control = .raising r → r.fault.IsFlat
  returning : ∀ o, m.control = .returning o → o.IsFlat ∨
    ∃ frame label rest d below, m.stack = .awaiting frame label rest d :: below ∧ base <:+ below

theorem IsFlat.above
    {m : Machine}
    (h : m.IsFlat)
    (base : List Context) :
    m.IsFlatAbove base :=
  ⟨h.store, h.raising, fun o ho => Or.inl (h.returning o ho)⟩

variable {s : Store} {stack base : List Context}

/-! ## Components of a step -/

theorem isFlat_running
    (hs : s.IsFlat)
    (stack : List Context) (frame : Nat) (label : Ir.Label) (rest : List Ir.Instruction) :
    IsFlat ⟨s, stack, .running frame label rest⟩ :=
  ⟨hs, nofun, nofun⟩

theorem isFlat_returning
    {o : Outcome}
    (hs : s.IsFlat)
    (stack : List Context)
    (ho : o.IsFlat) :
    IsFlat ⟨s, stack, .returning o⟩ := by
  refine ⟨hs, nofun, ?_⟩
  intro o' ho'
  cases ho'
  exact ho

theorem isFlat_raising
    {r : Raised}
    (hs : s.IsFlat)
    (stack : List Context)
    (hr : r.fault.IsFlat) :
    IsFlat ⟨s, stack, .raising r⟩ := by
  refine ⟨hs, ?_, nofun⟩
  intro r' hr'
  cases hr'
  exact hr

theorem isFlat_setProducer
    (hs : s.IsFlat)
    (id : Nat) (p : Producer) :
    (s.setProducer id p).IsFlat := by
  cases id <;> exact ⟨hs.cells, hs.queues⟩

theorem isFlat_endProducer
    (hs : s.IsFlat)
    (id : Nat) :
    (s.endProducer id).IsFlat :=
  ⟨(isFlat_setProducer hs id .ended).cells, (isFlat_setProducer hs id .ended).queues⟩

theorem isFlat_setFrame
    (hs : s.IsFlat)
    (n : Nat) (f : Frame) :
    (s.setFrame n f).IsFlat :=
  ⟨hs.cells, hs.queues⟩

theorem isFlat_newFrame
    (hs : s.IsFlat)
    (f : Frame) :
    (s.newFrame f).2.IsFlat :=
  ⟨hs.cells, hs.queues⟩

theorem isFlat_halt
    (hs : s.IsFlat)
    (stack : List Context) (reason : Halt) :
    (halt s stack reason).IsFlat := by
  unfold halt
  split
  · exact isFlat_returning (isFlat_setProducer hs _ _) _ Outcome.isFlat_fail
  · exact ⟨hs, nofun, nofun⟩

theorem isFlat_leave
    {r : Raised}
    (hs : s.IsFlat)
    (stack : List Context) (frame : Nat)
    (hr : r.fault.IsFlat) :
    (leave s stack frame r).IsFlat := by
  rcases leave_cases s stack frame r with ⟨trace, heq⟩ | heq
  · rw [heq]
    exact isFlat_raising hs stack hr
  · rw [heq]
    exact ⟨hs, nofun, nofun⟩

theorem isFlat_argumentFault?
    {code : Code} {args : List Value} {names : List String} {f : Fault}
    (hargs : ∀ v ∈ args, v.isRef = false)
    (h : code.argumentFault? args names = some f) :
    f.IsFlat := by
  unfold Code.argumentFault? at h
  split at h
  · cases h
    trivial
  · obtain ⟨k, hk, rfl⟩ := Option.map_eq_some_iff.mp h
    have hmem := List.mem_of_find?_eq_some hk
    refine Fault.isFlat_exception nofun ?_
    intro v hv
    cases List.mem_singleton.mp hv
    exact hargs k.2 (List.mem_of_mem_drop (List.of_mem_zip hmem).2)

theorem isFlat_enter
    {args : List Value}
    (hs : s.IsFlat)
    (stack : List Context) (environment : Environment) (p : Procedure) (names : List String)
    (hargs : ∀ v ∈ args, v.isRef = false) :
    (enter s stack environment p args names).IsFlat := by
  unfold enter
  split
  · rename_i f hfault
    exact isFlat_raising hs stack (isFlat_argumentFault? hargs hfault)
  · obtain ⟨hbind, -⟩ := Store.changes_bindArguments (W := Store.Nowhere) hs p.code names hargs
    have hnew := isFlat_newFrame hbind.flat
      (.new environment p args (s.bindArguments p.code args names).1)
    dsimp only
    split
    · exact isFlat_running hnew _ _ _ _
    · refine isFlat_leave hnew stack _ ?_
      trivial

theorem isFlat_reply
    {r : Reply}
    (hs : s.IsFlat)
    (stack : List Context)
    (hr : r.Gives Outcome.IsFlat) :
    (reply s stack r).IsFlat := by
  cases r with
  | outcome o => exact isFlat_returning hs stack hr
  | fault f => exact isFlat_raising hs stack hr
  | halt reason => exact isFlat_halt hs stack reason

theorem isFlat_fillFields
    {record : String} {fields : List String} {values : List Value}
    {keyword : List (String × Value)} {f : Fault}
    (hkeyword : ∀ x ∈ keyword, x.2.isRef = false)
    (h : Store.fillFields record fields values keyword = .error f) :
    f.IsFlat := by
  induction keyword generalizing values with
  | nil => cases h
  | cons entry rest ih =>
      simp only [Store.fillFields] at h
      split at h
      · exact ih (fun x hx => hkeyword x (List.mem_cons_of_mem _ hx)) h
      · cases h
        exact Fault.isFlat_exception (by simp) (by simpa using hkeyword _ List.mem_cons_self)

/-- A constructor that refuses its arguments complains about some of them. -/
theorem isFlat_of_misfit
    {record : String} {fields : List String} {args : List Value} {names : List String} {f : Fault}
    (hargs : ∀ v ∈ args, v.isRef = false)
    (h : s.construct record fields args names = .error f) :
    f.IsFlat := by
  simp only [Store.construct] at h
  split at h
  · rename_i hfill
    cases h
    exact isFlat_fillFields (fun x hx => hargs x.2 (List.mem_of_mem_drop (List.of_mem_zip hx).2)) hfill
  · cases h

theorem isFlat_call
    {args : List Value}
    (hs : s.IsFlat)
    (stack : List Context) (environment : Environment) (callee : Value) (names : List String)
    (hargs : ∀ v ∈ args, v.isRef = false) :
    (call s stack environment callee args names).IsFlat := by
  have hcalled := called_call s stack environment callee args names
  generalize call s stack environment callee args names = m at hcalled ⊢
  cases hcalled with
  | unknown => exact isFlat_raising hs stack (Fault.isFlat_exception (by simp) (by simpa using hs.deref callee))
  | procedure => exact isFlat_enter hs stack environment _ names hargs
  | misfit hconstruct => exact isFlat_raising hs stack (isFlat_of_misfit hargs hconstruct)
  | record hconstruct =>
      obtain ⟨hchanges, hv⟩ := Store.changes_construct (W := Store.Nowhere) hs hargs hconstruct
      exact isFlat_returning hchanges.flat stack (Outcome.isFlat_result hv)
  | keywords => exact isFlat_raising hs stack (Fault.isFlat_exception (by simp) (by simp))
  | @builtin _ b =>
      obtain ⟨hchanges, hgives⟩ := Store.builtin_gives (W := Store.Nowhere) hs b (hs.map_deref args)
      exact isFlat_reply hchanges.flat stack hgives

/-- The arguments of a recovery procedure are no references. -/
theorem recovery?_eq_some
    {frame : Nat} {r : Raised} {t : Store} {q : Request}
    (hs : s.IsFlat)
    (hr : r.fault.IsFlat)
    (h : recovery? s stack frame r = some (t, q)) :
    t.IsFlat ∧ ∃ handler args, q = .call handler args [] ∧ ∀ v ∈ args, v.isRef = false := by
  unfold recovery? at h
  split at h
  · cases h
  · rename_i hfault
    rw [hfault] at hr
    obtain ⟨handler, -, heq⟩ := Option.map_eq_some_iff.mp h
    cases heq
    refine ⟨isFlat_setFrame hs _ _, handler, _, rfl, ?_⟩
    intro v hv
    rcases List.mem_cons.mp hv with rfl | hv
    · exact hr.1
    · exact hr.2 v hv
  · cases h

theorem isFlat_fault
    {r : Raised}
    (hs : s.IsFlat)
    (stack : List Context) (frame : Nat)
    (hr : r.fault.IsFlat) :
    (fault s stack frame r).IsFlat := by
  rcases fault_cases s stack frame r with
    ⟨rest, -, -, heq⟩ | ⟨f, g, q, environment, -, -, hrecovery, heq⟩ |
    ⟨-, heq⟩ | ⟨f, g, -, -, -, heq⟩ <;> rw [heq]
  · exact isFlat_raising hs rest hr
  · obtain ⟨ht, handler, args, rfl, hargs⟩ := recovery?_eq_some hs hr hrecovery
    exact isFlat_call ht _ environment handler [] hargs
  · exact isFlat_leave hs stack frame hr
  · exact isFlat_leave (isFlat_setFrame hs _ _) stack frame hr

theorem isFlat_jump
    (hs : s.IsFlat)
    (stack : List Context) (frame : Nat) (label : Ir.Label) :
    (jump s stack frame label).IsFlat := by
  unfold jump
  split
  · exact isFlat_returning hs stack Outcome.isFlat_fail
  · split
    · exact isFlat_running hs _ _ _ _
    · exact isFlat_fault hs stack frame trivial

theorem isFlat_failed
    (hs : s.IsFlat)
    (stack : List Context) (frame : Nat) (onFail : Option Ir.Label) :
    (failed s stack frame onFail).IsFlat := by
  cases onFail with
  | none => exact isFlat_returning hs stack Outcome.isFlat_fail
  | some label => exact isFlat_jump hs stack frame label

/-- Whatever is delivered ends up in slots. -/
theorem isFlat_deliver
    (hs : s.IsFlat)
    (stack : List Context) (frame : Nat) (label : Ir.Label) (rest : List Ir.Instruction)
    (d : Ir.Destination) (o : Outcome) :
    (deliver s stack frame label rest d o).IsFlat := by
  unfold deliver
  split
  · exact isFlat_returning hs stack Outcome.isFlat_fail
  · split
    · exact isFlat_fault hs stack frame trivial
    · exact isFlat_failed (isFlat_setFrame hs _ _) stack frame d.onFail
    · exact isFlat_running (isFlat_setFrame hs _ _) _ _ _ _

theorem isFlat_activate
    (hs : s.IsFlat)
    (stack : List Context) (id : Nat) :
    (activate s stack id).IsFlat := by
  unfold activate
  split
  · exact isFlat_jump (isFlat_setProducer hs _ _) _ _ _
  · exact isFlat_jump (isFlat_setProducer hs _ _) _ _ _
  · exact isFlat_halt hs stack .blocked
  · exact isFlat_returning hs stack Outcome.isFlat_fail

/-! ## Steps -/

/-- What an operator hands out is on its way to the frame that has applied it. -/
theorem isFlatAbove_invoke
    {below : List Context}
    (hs : s.IsFlat)
    (hbase : base <:+ below)
    (frame : Nat) (label : Ir.Label) (rest : List Ir.Instruction) (d : Ir.Destination)
    (op : String) (args : List Value) :
    (invoke s (.awaiting frame label rest d :: below) op args).IsFlatAbove base := by
  obtain ⟨hchanges, hgives⟩ := Store.invoke_gives hs op args
  unfold invoke
  split
  · rename_i r t heq
    rw [heq] at hchanges hgives
    cases r with
    | outcome o => exact ⟨hchanges.flat, nofun, fun _ _ => Or.inr ⟨_, _, _, _, _, rfl, hbase⟩⟩
    | fault f => exact (isFlat_raising (r := ⟨f, []⟩) hchanges.flat _ hgives).above base
    | halt reason => exact (isFlat_halt hchanges.flat _ reason).above base
  · rename_i id t heq
    rw [heq] at hchanges
    exact (isFlat_activate hchanges.flat _ id).above base

theorem isFlatAbove_resume
    {below : List Context}
    (hs : s.IsFlat)
    (hbase : base <:+ below)
    (frame : Nat) (label : Ir.Label) (rest : List Ir.Instruction) (d : Ir.Destination)
    (k : Continuation) :
    (resume s (.awaiting frame label rest d :: below) k).IsFlatAbove base := by
  have hreturning : ∀ o, IsFlatAbove base ⟨s, .awaiting frame label rest d :: below, .returning o⟩ :=
    fun o => ⟨hs, nofun, fun _ _ => Or.inr ⟨_, _, _, _, _, rfl, hbase⟩⟩
  cases k with
  | activation n again => exact (isFlat_jump hs _ n again).above base
  | elements list position => exact hreturning _
  | values values => exact hreturning _
  | count low high => exact hreturning _

theorem isFlatAbove_perform
    {e : Effect}
    (hs : s.IsFlat)
    (hbase : base <:+ stack)
    (he : e.IsFlat)
    (frame : Nat) (label : Ir.Label) (rest : List Ir.Instruction) (environment : Environment) :
    (perform s stack frame label rest environment e).IsFlatAbove base := by
  cases e with
  | next => exact (isFlat_running hs _ _ _ _).above base
  | goto target => exact (isFlat_jump hs stack frame target).above base
  | failed onFail => exact (isFlat_failed hs stack frame onFail).above base
  | succeed v again =>
      refine IsFlat.above ?_ base
      cases again with
      | none => exact isFlat_returning hs stack (Outcome.isFlat_result he)
      | some again =>
          refine isFlat_returning hs stack ⟨?_, ?_⟩
          · intro w hw
            cases hw
            exact he
          · intro k hk
            cases hk
            exact ⟨frame, again, rfl⟩
  | call d callee args names => exact (isFlat_call hs _ environment callee names he).above base
  | operator d op args => exact isFlatAbove_invoke hs hbase frame label rest d op args
  | resume d k =>
      cases k with
      | none => exact (isFlat_returning hs _ Outcome.isFlat_fail).above base
      | some k => exact isFlatAbove_resume hs hbase frame label rest d k
  | produce v again =>
      refine IsFlat.above ?_ base
      simp only [perform]
      split
      · exact isFlat_returning (isFlat_setProducer hs _ _) _ (Outcome.isFlat_result he)
      · refine isFlat_fault hs stack frame ?_
        trivial
  | exhaust =>
      refine IsFlat.above ?_ base
      simp only [perform]
      split
      · exact isFlat_returning hs _ Outcome.isFlat_fail
      · refine isFlat_fault hs stack frame ?_
        trivial
  | halt reason => exact (isFlat_halt hs stack reason).above base
  | fault f => exact (isFlat_fault (r := ⟨f, []⟩) hs stack frame he).above base

theorem isFlatAbove_advance
    (hs : s.IsFlat)
    (hbase : base <:+ stack)
    (frame : Nat) (label : Ir.Label) (rest : List Ir.Instruction) :
    (advance s stack frame label rest).IsFlatAbove base := by
  unfold advance
  split
  · exact (isFlat_returning hs stack Outcome.isFlat_fail).above base
  · refine (isFlat_fault hs stack frame ?_).above base
    trivial
  · rename_i f i rest hf
    have hhandles := Store.handles_execute hs hf i
    exact isFlatAbove_perform (isFlat_setFrame hhandles.changes.flat _ _) hbase hhandles.flat _ _ _ _

/-- A step above the base. -/
theorem IsFlatAbove.step
    {m : Machine}
    (h : m.IsFlatAbove base)
    (hbase : base <:+ m.stack) :
    m.step.IsFlatAbove base := by
  obtain ⟨s, stack, control⟩ := m
  cases control with
  | running frame label rest => exact isFlatAbove_advance h.store hbase frame label rest
  | halted reason => exact h
  | aborted r => exact h
  | raising r =>
      have hr := h.raising r rfl
      cases stack with
      | nil => exact h
      | cons x stack =>
          refine IsFlat.above ?_ base
          cases x with
          | awaiting frame label rest d => exact isFlat_fault h.store stack frame hr
          | recovering frame => exact isFlat_leave h.store stack frame hr
          | bare => exact isFlat_raising h.store stack hr
          | consuming id => exact isFlat_raising (isFlat_endProducer h.store id) stack hr
  | returning o =>
      cases stack with
      | nil => exact h
      | cons x stack =>
          refine IsFlat.above ?_ base
          cases x with
          | awaiting frame label rest d => exact isFlat_deliver h.store stack frame label rest d o
          | recovering frame =>
              refine isFlat_returning h.store stack ((h.returning o rfl).resolve_right ?_)
              rintro ⟨_, _, _, _, _, hstack, -⟩
              cases hstack
          | bare =>
              refine isFlat_returning h.store stack ((h.returning o rfl).resolve_right ?_)
              rintro ⟨_, _, _, _, _, hstack, -⟩
              cases hstack
          | consuming id =>
              refine isFlat_returning (isFlat_endProducer h.store id) stack ?_
              cases o with
              | fail => exact Outcome.isFlat_fail
              | result v => exact Outcome.isFlat_result (h.store.deref v)
              | suspended v k => exact Outcome.isFlat_result (h.store.deref v)

/-- Any number of steps, as long as they stay above the base. -/
theorem IsFlatAbove.iterate
    {m : Machine} {k : Nat}
    (h : m.IsFlatAbove base)
    (hbase : ∀ j < k, base <:+ (Machine.step^[j] m).stack) :
    (Machine.step^[k] m).IsFlatAbove base := by
  induction k with
  | zero => exact h
  | succ k ih =>
      rw [Function.iterate_succ_apply']
      exact (ih fun j hj => hbase j (Nat.lt_succ_of_lt hj)).step (hbase k (Nat.lt_succ_self k))

/-- The next step calls a value, resumes a call that has been suspended, or activates a co-expression, above a
given stack. -/
inductive Starts (m : Machine) (base : List Context) : Prop
  | call
      {t : Store} {callee : Value} {args : List Value} {names : List String}
      {environment : Environment}
      (hrequest : m.request? = some (t, .call callee args names))
      (hstep : m.step = Machine.call t base environment callee args names)
  | resumption
      {s t : Store} {stack : List Context} {frame n : Nat} {label again : Ir.Label} {i : Ir.Instruction}
      {rest : List Ir.Instruction} {f g : Frame} {d : Ir.Destination}
      (hm : m = ⟨s, stack, .running frame label (i :: rest)⟩)
      (hframe : s.frames[frame]? = some f)
      (hexecute : s.execute f i = (.resume d (some (.activation n again)), g, t))
      (hbase : base = .awaiting frame label rest d :: stack)
  | activation
      {t : Store} {op : String} {args : List Value} {id : Nat}
      (hrequest : m.request? = some (t, .operator op args))
      (hactivated : t.activated? (.operator op args) = some id)
      (hstep : m.step = Machine.invoke t base op args)

/-- The request of a flat machine is made of a flat store, and the arguments of a call are no references. -/
theorem IsFlatAbove.request?
    {m : Machine} {t : Store} {q : Request}
    (h : m.IsFlatAbove base)
    (hrequest : m.request? = some (t, q)) :
    t.IsFlat ∧ ∀ callee args names, q = .call callee args names → ∀ v ∈ args, v.isRef = false := by
  have hrecovery : ∀ {s stack frame r}, s.IsFlat → r.fault.IsFlat →
      recovery? s stack frame r = some (t, q) →
      t.IsFlat ∧ ∀ callee args names, q = .call callee args names → ∀ v ∈ args, v.isRef = false := by
    intro s stack frame r hs hr hq
    obtain ⟨ht, handler, args, rfl, hargs⟩ := recovery?_eq_some hs hr hq
    refine ⟨ht, ?_⟩
    intro callee args' names heq
    cases heq
    exact hargs
  obtain ⟨s, stack, control⟩ := m
  unfold Machine.request? at hrequest
  split at hrequest
  · rename_i s stack frame label i rest heq
    cases heq
    split at hrequest
    · cases hrequest
    · rename_i f hf
      have hhandles := Store.handles_execute h.store hf i
      generalize s.execute f i = x at hrequest hhandles
      obtain ⟨e, g, u⟩ := x
      have hu : (u.setFrame frame g).IsFlat := isFlat_setFrame hhandles.changes.flat _ _
      cases e with
      | call d callee args names =>
          cases hrequest
          refine ⟨hu, ?_⟩
          intro callee' args' names' heq
          cases heq
          exact hhandles.flat
      | operator d op args =>
          cases hrequest
          exact ⟨hu, nofun⟩
      | fault f => exact hrecovery (r := ⟨f, []⟩) hu hhandles.flat hrequest
      | _ => cases hrequest
  · rename_i heq
    cases heq
    exact hrecovery h.store (h.raising _ rfl) hrequest
  · cases hrequest

/-- What a call, a resumption or an activation starts with is flat on its own. -/
theorem Starts.isFlat
    {m : Machine}
    (hstarts : m.Starts base)
    (h : m.IsFlatAbove []) :
    m.step.IsFlat := by
  cases hstarts with
  | call hrequest hstep =>
      obtain ⟨ht, hargs⟩ := h.request? hrequest
      rw [hstep]
      exact isFlat_call ht base _ _ _ (hargs _ _ _ rfl)
  | resumption hm hframe hexecute hbase =>
      rename_i i rest f g d
      subst hm hbase
      have hhandles := Store.handles_execute h.store hframe i
      rw [hexecute] at hhandles
      rw [step_running hframe hexecute]
      exact isFlat_jump (isFlat_setFrame hhandles.changes.flat _ _) _ _ _
  | activation hrequest hactivated hstep =>
      rename_i t op args id
      obtain ⟨ht, -⟩ := h.request? hrequest
      obtain ⟨hchanges, -⟩ := Store.invoke_gives ht op args
      rw [hstep]
      simp only [Store.activated?] at hactivated
      unfold invoke
      split
      · rename_i heq
        simp [heq] at hactivated
      · rename_i heq
        rw [heq] at hchanges
        exact isFlat_activate hchanges.flat base _

end Machine

/-! ## Courses -/

namespace Course

/-- The host passes no references. -/
def Plain (v : Value) : Prop :=
  v.isRef = false

/-- No reference is stored or on its way to the host, and what the host has kept are activations. -/
structure IsFlat (σ : Course) : Prop where
  machine : σ.machine.IsFlatAbove []
  held : ∀ k ∈ σ.held, ∃ frame label, k = .activation frame label

theorem isFlat_initial (maxTasks : Nat) : (Course.new maxTasks).IsFlat :=
  ⟨(Machine.isFlat_returning (Program.isFlat_new maxTasks) [] Outcome.isFlat_fail).above [], nofun⟩

/-- What is returned to the host is flat. -/
theorem IsFlat.outcome
    {s : Store} {o : Outcome} {held : List Continuation} {pending : List (Item Initializer)}
    (h : IsFlat ⟨⟨s, [], .returning o⟩, held, pending⟩) :
    o.IsFlat := by
  refine (h.machine.returning o rfl).resolve_right ?_
  rintro ⟨_, _, _, _, _, hstack, -⟩
  cases hstack

/-- The store changes while the host has the control. -/
theorem IsFlat.of_store
    {s t : Store} {control : Control} {held : List Continuation}
    {pending pending' : List (Item Initializer)}
    (h : IsFlat ⟨⟨s, [], control⟩, held, pending⟩)
    (ht : t.IsFlat) :
    IsFlat ⟨⟨t, [], control⟩, held, pending'⟩ :=
  ⟨⟨ht, h.machine.raising, h.machine.returning⟩, h.held⟩

/-- Every move keeps a course flat. -/
theorem IsFlat.move
    {σ τ : Course}
    (h : σ.IsFlat)
    (hmove : Move Plain σ τ) :
    τ.IsFlat := by
  cases hmove with
  | step m held pending => exact ⟨h.machine.step List.nil_suffix, h.held⟩
  | link hidle ir => exact h.of_store (Program.extends_link h.machine.store ir).changes.flat
  | call hidle hargs environment callee names =>
      exact ⟨(Machine.isFlat_call h.machine.store [] environment callee names hargs).above [], h.held⟩
  | main hidle callee args =>
      rename_i s control held pending
      have hlist := Store.changes_newList (W := Store.Nowhere) h.machine.store
        (args.map Value.text).toArray (by simp [Value.isRef])
      have hargs : ∀ v ∈ [(s.newList (args.map Value.text).toArray).1], v.isRef = false := by
        intro v hv
        cases List.mem_singleton.mp hv
        rfl
      exact ⟨(Machine.isFlat_call hlist.flat [] _ callee [] hargs).above [], h.held⟩
  | keep s v k held pending =>
      obtain ⟨hvalue, hnext⟩ := h.outcome
      refine ⟨(Machine.isFlat_returning h.machine.store []
        (Outcome.isFlat_result (hvalue v rfl))).above [], ?_⟩
      intro k' hk'
      rcases List.mem_cons.mp hk' with rfl | hk'
      · exact hnext k' rfl
      · exact h.held k' hk'
  | resume hidle before k after =>
      obtain ⟨frame, label, rfl⟩ := h.held k (by simp)
      refine ⟨(Machine.isFlat_jump h.machine.store [] frame label).above [], ?_⟩
      intro k' hk'
      refine h.held k' ?_
      rcases List.mem_append.mp hk' with hk' | hk'
      · exact List.mem_append_left _ hk'
      · exact List.mem_append_right _ (List.mem_cons_of_mem _ hk')
  | prepare hidle hitem hinit =>
      exact ⟨(Machine.isFlat_enter h.machine.store [] _ _ [] (by simp)).above [], h.held⟩
  | assign hitem hinit hvalue =>
      exact h.of_store (Store.changes_write h.machine.store _ (h.machine.store.deref _)).flat
  | settle m held pending => exact ⟨h.machine, h.held⟩

/-- A new program that is linked with some procedures, the first of which its host calls without arguments. -/
def called (procedures : List Ir.Procedure) : Course :=
  ⟨Machine.call ((Program.new 1).link ⟨procedures, [], []⟩).2.store [] Program.rootEnvironment
      (.procedure Builtin.all.length) [] [], [], ((Program.new 1).link ⟨procedures, [], []⟩).2.pending⟩

theorem reachable_called (procedures : List Ir.Procedure) : Reachable Plain (called procedures) := by
  have hlink : Leads Plain (new 1) _ := .single (.link rfl ⟨procedures, [], []⟩)
  have hargs : ∀ v ∈ ([] : List Value), Plain v := nofun
  exact ⟨1, hlink.tail (.call rfl hargs Program.rootEnvironment (.procedure Builtin.all.length) [])⟩

/-- Every reachable course is flat. -/
theorem Reachable.isFlat
    {σ : Course}
    (h : Reachable Plain σ) :
    σ.IsFlat :=
  h.invariant isFlat_initial fun _ _ hσ hmove => hσ.move hmove

/-- In every course whose host passes no references: no cell and no queue holds a reference; what is returned to
the host is none, and neither is what a call, its resumption or the activation of a co-expression returns to
the frame that has asked for it; and one reference leads to a value that is none. -/
theorem flat_of_reachable
    {σ : Course}
    (h : Reachable Plain σ) :
    (∀ (c : CellId) (v : Value), σ.machine.store.cells[c]? = some v → v.isRef = false) ∧
    (∀ (n : Nat) (c : Channel), σ.machine.store.channels[n]? = some c →
      ∀ v ∈ c.queue, v.isRef = false) ∧
    (∀ o v, σ.machine.stack = [] → σ.machine.control = .returning o → o.value? = some v →
      v.isRef = false) ∧
    (∀ (base : List Context) (k : Nat) (t : Store) (o : Outcome) (v : Value),
      σ.machine.Starts base →
      (∀ j < k, base <:+ (Machine.step^[j] σ.machine.step).stack) →
      Machine.step^[k] σ.machine.step = ⟨t, base, .returning o⟩ →
      o.value? = some v →
      v.isRef = false) ∧
    ∀ v : Value,
      (∀ fuel, σ.machine.store.derefWithin (fuel + 1) v = σ.machine.store.derefWithin 1 v) ∧
      (σ.machine.store.deref v).isRef = false ∧
      σ.machine.store.toNumber v = σ.machine.store.toNumber (σ.machine.store.derefWithin 1 v) ∧
      σ.machine.store.toText v = σ.machine.store.toText (σ.machine.store.derefWithin 1 v) := by
  have hflat := h.isFlat
  have hstore := hflat.machine.store
  refine ⟨hstore.cells, hstore.queues, ?_, ?_, ?_⟩
  · intro o v hstack hcontrol hv
    refine ((hflat.machine.returning o hcontrol).resolve_right ?_).1 v hv
    rintro ⟨_, _, _, _, _, hstack', -⟩
    rw [hstack] at hstack'
    cases hstack'
  · intro base k t o v hstarts hbase heq hv
    have hend := ((hstarts.isFlat hflat.machine).above base).iterate hbase
    rw [heq] at hend
    refine ((hend.returning o rfl).resolve_right ?_).1 v hv
    -- A frame that waits above the base is not part of the base.
    rintro ⟨_, _, _, _, below, hstack, hsuffix⟩
    have hlength := hsuffix.length_le
    have hlong := congrArg List.length hstack
    simp only [List.length_cons] at hlong
    omega
  · intro v
    have hone : ∀ w, σ.machine.store.deref w = σ.machine.store.derefWithin 1 w :=
      fun w => hstore.derefWithin_succ _ w
    have hderef := hstore.deref v
    have hagain : σ.machine.store.deref (σ.machine.store.derefWithin 1 v) = σ.machine.store.deref v := by
      rw [← hone v]
      exact σ.machine.store.derefWithin_of_not_isRef _ hderef
    refine ⟨fun fuel => hstore.derefWithin_succ fuel v, hderef, ?_, ?_⟩
    · simp only [Store.toNumber, hagain]
    · simp only [Store.toText, hagain]

/-- A procedure that assigns to a local, and returns what the assignment has handed out. -/
def keeper : Ir.Procedure where
  name := "keeper"
  namespaceName := ""
  params := []
  locals := ["x"]
  statics := []
  variadic := false
  temps := 3
  entry := "start"
  chunks :=
    [⟨"start", [.name 0 "x", .literal 1 (.text "a"), .operator ⟨some 2, none, none⟩ ":=" [0, 1],
      .succeed (some 2) none]⟩]
  deps := []

/-- The call of a linked procedure, up to its end. -/
theorem flat_of_reachable_keeper :
    ∃ σ : Course, Reachable Plain σ ∧ σ.machine.isFinished = true ∧ σ.machine.store.frames.size = 1 ∧
      ∀ (c : CellId) (v : Value), σ.machine.store.cells[c]? = some v → v.isRef = false := by
  have hrun := (reachable_called [keeper]).leads (leads_run Plain _ _ _ 8)
  exact ⟨_, hrun, by decide +kernel, by decide +kernel, (flat_of_reachable hrun).1⟩

end Course

end Flatness

end GoalDirected
