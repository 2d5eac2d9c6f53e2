import GoalDirected.Proofs.Machine.Growth
import GoalDirected.Proofs.Machine.Unwinding

/-!
# What a step leaves alone

A step takes contexts from the top of the stack and puts others there, and it works on one frame: the one that
runs, or the one that what is carried arrives at.  A recovery procedure stays with its frame until the frame
installs another one, or until it is called.

* `Store.Retains A X`: frames stay; only those in `A` may change, and only those in `X` their recovery procedures.
* `Machine.Stays A X`: what a machine has left of a store and a stack.
* `stays_step`: what a step leaves alone.
-/

namespace GoalDirected

section Discipline

/-! ## Stores -/

/-- Frames stay.  Those outside of `A` stay as they are, and those outside of `X` keep their recovery
procedures. -/
structure Store.Retains (A X : Nat → Prop) (s t : Store) : Prop where
  kept : ∀ (n : Nat) (f : Frame), s.frames[n]? = some f → ¬ A n → t.frames[n]? = some f
  recovery : ∀ (n : Nat) (f : Frame), s.frames[n]? = some f → ¬ X n →
    ∃ g, t.frames[n]? = some g ∧ g.recovery = f.recovery

namespace Store

variable {A X : Nat → Prop} {s t u : Store} {n : Nat} {f g : Frame}

theorem retains_of_frames
    (h : ∀ (n : Nat) (f : Frame), s.frames[n]? = some f → t.frames[n]? = some f) :
    Retains A X s t :=
  ⟨fun n f hf _ => h n f hf, fun n f hf _ => ⟨f, h n f hf, rfl⟩⟩

theorem retains_of_frames_eq
    (h : t.frames = s.frames) :
    Retains A X s t :=
  retains_of_frames fun n f hf => by rw [h]; exact hf

theorem Retains.trans
    (hst : Retains A X s t)
    (htu : Retains A X t u) :
    Retains A X s u := by
  refine ⟨?_, ?_⟩
  · intro n f hf hn
    exact htu.kept n f (hst.kept n f hf hn) hn
  · intro n f hf hn
    obtain ⟨g, hg, hfg⟩ := hst.recovery n f hf hn
    obtain ⟨h, hh, hgh⟩ := htu.recovery n g hg hn
    exact ⟨h, hh, hgh.trans hfg⟩

theorem retains_setFrame
    (hn : A n)
    (hf : s.frames[n]? = some f)
    (hg : ¬ X n → g.recovery = f.recovery) :
    Retains A X s (s.setFrame n g) := by
  refine ⟨?_, ?_⟩
  · intro k h hh hk
    rw [getElem?_frames_setFrame_of_ne (by rintro rfl; exact hk hn)]
    exact hh
  · intro k h hh hk
    by_cases heq : k = n
    · subst heq
      cases hf.symm.trans hh
      exact ⟨g, getElem?_frames_setFrame_self hf g, hg hk⟩
    · exact ⟨h, by rw [getElem?_frames_setFrame_of_ne heq]; exact hh, rfl⟩

theorem retains_newFrame (s : Store) (f : Frame) : Retains A X s (s.newFrame f).2 := by
  refine retains_of_frames fun n g hg => ?_
  obtain ⟨hlt, -⟩ := Array.getElem?_eq_some_iff.mp hg
  simp only [newFrame, Array.getElem?_push, if_neg (Nat.ne_of_lt hlt)]
  exact hg

end Store

/-! ## Instructions -/

namespace Frame

theorem recovery_put
    {f g : Frame} {slot : Nat} {t : Temp}
    (h : f.put slot t = .ok g) :
    g.recovery = f.recovery := by
  obtain ⟨-, rfl⟩ := getElem?_put h
  rfl

theorem recovery_setNext
    {f g : Frame} {slot : Nat} {k : Option Continuation}
    (h : f.setNext slot k = .ok g) :
    g.recovery = f.recovery := by
  cases k with
  | none => exact recovery_put h
  | some k => exact recovery_put h

theorem recovery_takeNext
    {f g : Frame} {slot : Nat} {k : Option Continuation}
    (h : f.takeNext slot = .ok (k, g)) :
    g.recovery = f.recovery := by
  unfold takeNext at h
  split at h <;> cases h <;> rfl

theorem recovery_leaveScope (f : Frame) (name : String) :
    (f.leaveScope name).2.recovery = f.recovery := by
  unfold leaveScope
  split
  · rfl
  · dsimp only
    split <;> rfl

end Frame

namespace Store

variable {s : Store} {f : Frame}

theorem recovery_changed
    {e : Except Malfunction Frame}
    (h : ∀ g, e = .ok g → g.recovery = f.recovery) :
    (s.changed f e).2.1.recovery = f.recovery := by
  cases e with
  | error m => rfl
  | ok g => exact h g rfl

theorem recovery_changed_bind
    {α : Type} {e : Except Malfunction α} {put : α → Except Malfunction Frame}
    (h : ∀ a g, put a = .ok g → g.recovery = f.recovery) :
    (s.changed f (e.bind put)).2.1.recovery = f.recovery := by
  cases e with
  | error m => rfl
  | ok a => exact recovery_changed (h a)

theorem recovery_executeSelect (s : Store) (f : Frame) (cases : List Ir.Case) (onFail : Option Ir.Label) :
    (s.executeSelect f cases onFail).2.1.recovery = f.recovery := by
  unfold executeSelect
  split
  · rfl
  · split
    · rfl
    · rfl
    · split
      · unfold storeReceived
        split
        · rfl
        · split
          · rename_i hset
            exact Frame.recovery_put hset
          · rfl
      · rfl
      · rfl

/-- Only one instruction installs a recovery procedure. -/
theorem recovery_execute
    {i : Ir.Instruction}
    (h : ∀ slot, i ≠ .recover slot) :
    (s.execute f i).2.1.recovery = f.recovery := by
  have hset : ∀ (target : Nat) (v : Value) (g : Frame), f.set target v = .ok g → g.recovery = f.recovery :=
    fun target v g => Frame.recovery_put
  cases i with
  | recover slot => exact absurd rfl (h slot)
  | literal target value => exact recovery_changed (hset target _)
  | name target name => exact recovery_changed_bind (hset target)
  | dynamic target name assignable =>
      simp only [execute]
      split
      · exact recovery_changed (hset target _)
      · rfl
  | field target record field assignable onFail =>
      simp only [execute, executeField]
      split
      · rfl
      · split
        · split
          · exact recovery_changed (hset target _)
          · rfl
        · rfl
  | resume d source =>
      simp only [execute]
      split
      · rename_i htake
        exact Frame.recovery_takeNext htake
      · rfl
  | move target source => exact recovery_changed_bind (hset target)
  | deref target source => exact recovery_changed_bind fun v => hset target _
  | moveLabel target label => exact recovery_changed fun g => Frame.recovery_put
  | succeed value resume =>
      cases value with
      | none => rfl
      | some slot =>
          simp only [execute]
          split <;> rfl
  | enter scope names dynamics =>
      simp only [execute, enterScope]
      split <;> rfl
  | leave scope =>
      have hleave := f.recovery_leaveScope scope
      simp only [execute]
      split <;> rename_i heq <;> rw [heq] at hleave <;> exact hleave
  | create target entry =>
      simp only [execute]
      split
      · exact recovery_changed (hset target _)
      · rfl
  | select cases onFail => exact recovery_executeSelect s f cases onFail
  | indirect source targets =>
      simp only [execute]
      split
      · rfl
      · split <;> rfl
  | call d callee args names =>
      simp only [execute]
      split <;> rfl
  | operator d op args =>
      simp only [execute]
      split <;> rfl
  | produce value resume =>
      simp only [execute]
      split <;> rfl
  | _ => rfl

/-- An instruction that raises a fault installs none. -/
theorem recovery_execute_fault
    {i : Ir.Instruction} {e : Fault} {g : Frame} {t : Store}
    (h : s.execute f i = (.fault e, g, t)) :
    g.recovery = f.recovery := by
  by_cases hi : ∃ slot, i = .recover slot
  · obtain ⟨slot, rfl⟩ := hi
    simp only [execute] at h
    split at h <;> cases h
    rfl
  · have hrecovery := recovery_execute (s := s) (f := f) fun slot heq => hi ⟨slot, heq⟩
    rw [h] at hrecovery
    exact hrecovery

end Store

/-! ## Machines -/

/-- The context may be put on the stack when the frames in `A` are worked on. -/
def Context.MayRise (A : Nat → Prop) : Context → Prop
  | .bare => False
  | .consuming _ => True
  | .awaiting n _ _ _ => A n
  | .recovering n => A n

namespace Machine

variable {A X : Nat → Prop} {s t : Store} {stack below : List Context} {m : Machine} {n : Nat}

/-- The recovery procedure of a frame is called. -/
def Spends (n : Nat) (handler : Value) (m : Machine) : Prop :=
  ∃ t below environment args, m = call t (.recovering n :: below) environment handler args []

/-- The next instruction of the frame installs a recovery procedure. -/
def Installs (m : Machine) (n : Nat) : Prop :=
  ∃ label slot rest, m.control = .running n label (.recover slot :: rest)

/-- The next step works on the frame: it runs, or what is carried arrives at it. -/
def Engages (m : Machine) (n : Nat) : Prop :=
  m.running? = some n ∨ ∃ label rest d, m.stack.head? = some (.awaiting n label rest d)

/-- No frame is worked on, and nothing is put on the stack. -/
structure Quiet (s : Store) (stack : List Context) (m : Machine) : Prop where
  frames : ∀ (n : Nat) (f : Frame), s.frames[n]? = some f → m.store.frames[n]? = some f
  stack : m.stack <:+ stack

/-- What a machine has left of a store and a stack.  Frames outside of `A` stay as they are, and those outside
of `X` keep their recovery procedures unless these are called. -/
structure Stays (A X : Nat → Prop) (s : Store) (stack : List Context) (m : Machine) : Prop where
  stack : ∃ pushed kept, m.stack = pushed ++ kept ∧ kept <:+ stack ∧ ∀ c ∈ pushed, c.MayRise A
  kept : ∀ (n : Nat) (f : Frame), s.frames[n]? = some f → ¬ A n → m.store.frames[n]? = some f
  recovery : ∀ (n : Nat) (f : Frame), s.frames[n]? = some f → ¬ X n → ∃ g, m.store.frames[n]? = some g ∧
    (g.recovery = f.recovery ∨ ∃ handler, f.recovery = some handler ∧ m.Spends n handler)

theorem Quiet.after
    (h : Quiet t stack m)
    (hframes : t.frames = s.frames) :
    Quiet s stack m :=
  ⟨fun n f hf => h.frames n f (by rw [hframes]; exact hf), h.stack⟩

theorem Quiet.stays
    (h : Quiet s stack m) :
    Stays A X s stack m where
  stack := ⟨[], m.stack, rfl, h.stack, nofun⟩
  kept := fun n f hf _ => h.frames n f hf
  recovery := fun n f hf _ => ⟨f, h.frames n f hf, Or.inl rfl⟩

theorem quiet_of_store
    (hstore : m.store = s)
    (hstack : m.stack <:+ stack) :
    Quiet s stack m :=
  ⟨fun n f hf => by rw [hstore]; exact hf, hstack⟩

theorem stays_of_retains
    {control : Control}
    (h : s.Retains A X t)
    (hstack : below <:+ stack) :
    Stays A X s stack ⟨t, below, control⟩ where
  stack := ⟨[], below, rfl, hstack, nofun⟩
  kept := h.kept
  recovery := fun n f hf hn => (h.recovery n f hf hn).imp fun _ hg => ⟨hg.1, Or.inl hg.2⟩

/-- The store has changed first. -/
theorem Stays.after
    (h : Stays A X t stack m)
    (hst : s.Retains A X t) :
    Stays A X s stack m := by
  refine ⟨h.stack, ?_, ?_⟩
  · intro n f hf hn
    exact h.kept n f (hst.kept n f hf hn) hn
  · intro n f hf hn
    obtain ⟨g, hg, hfg⟩ := hst.recovery n f hf hn
    rw [← hfg]
    exact h.recovery n g hg hn

/-- A context has been put on the stack first. -/
theorem Stays.push
    {c : Context}
    (h : Stays A X s (c :: stack) m)
    (hc : c.MayRise A) :
    Stays A X s stack m := by
  refine ⟨?_, h.kept, h.recovery⟩
  obtain ⟨pushed, kept, heq, hkept, hpushed⟩ := h.stack
  rcases List.suffix_cons_iff.mp hkept with rfl | hkept
  · refine ⟨pushed ++ [c], stack, by simp [heq], List.suffix_rfl, ?_⟩
    intro c' hc'
    rcases List.mem_append.mp hc' with hc' | hc'
    · exact hpushed c' hc'
    · rw [List.mem_singleton.mp hc']
      exact hc
  · exact ⟨pushed, kept, heq, hkept, hpushed⟩

/-- A context has been taken from the stack first. -/
theorem Stays.pop
    (h : Stays A X s stack m)
    (c : Context) :
    Stays A X s (c :: stack) m := by
  refine ⟨?_, h.kept, h.recovery⟩
  obtain ⟨pushed, kept, heq, hkept, hpushed⟩ := h.stack
  exact ⟨pushed, kept, heq, hkept.trans (List.suffix_cons c stack), hpushed⟩

/-! ### Components of a step -/

theorem quiet_leave (s : Store) (stack : List Context) (n : Nat) (r : Raised) :
    Quiet s stack (leave s stack n r) := by
  rcases leave_cases s stack n r with ⟨trace, heq⟩ | heq <;> rw [heq] <;> exact quiet_of_store rfl List.suffix_rfl

theorem quiet_halt (s : Store) (stack : List Context) (reason : Halt) :
    Quiet s stack (halt s stack reason) := by
  unfold halt
  split
  · rename_i id rest hinner
    obtain ⟨before, rfl⟩ := exists_of_innermostConsumer? hinner
    refine ⟨fun n f hf => ?_, ?_⟩
    · rw [s.frames_setProducer]
      exact hf
    · exact (List.suffix_cons _ rest).trans (List.suffix_append before _)
  · exact quiet_of_store rfl List.suffix_rfl

theorem quiet_reply (s : Store) (stack : List Context) (r : Reply) :
    Quiet s stack (reply s stack r) := by
  cases r with
  | outcome o => exact quiet_of_store rfl List.suffix_rfl
  | fault e => exact quiet_of_store rfl List.suffix_rfl
  | halt reason => exact quiet_halt s stack reason

theorem quiet_enter
    (s : Store) (stack : List Context) (environment : Environment) (p : Procedure) (args : List Value)
    (names : List String) :
    Quiet s stack (enter s stack environment p args names) := by
  unfold enter
  split
  · exact quiet_of_store rfl List.suffix_rfl
  · have hframes := Store.frames_eq_of_activity (s.activity_bindArguments p.code args names)
    have hnew : ∀ (n : Nat) (f : Frame), s.frames[n]? = some f → ((s.bindArguments p.code args names).2.newFrame
        (.new environment p args (s.bindArguments p.code args names).1)).2.frames[n]? = some f := by
      intro n f hf
      have hretains := Store.retains_newFrame (A := fun _ => False) (X := fun _ => False)
        (s.bindArguments p.code args names).2 (.new environment p args (s.bindArguments p.code args names).1)
      exact hretains.kept n f (by rw [hframes]; exact hf) id
    dsimp only
    split
    · exact ⟨hnew, List.suffix_rfl⟩
    · have hleave := quiet_leave ((s.bindArguments p.code args names).2.newFrame
        (.new environment p args (s.bindArguments p.code args names).1)).2 stack
        ((s.bindArguments p.code args names).2.newFrame
          (.new environment p args (s.bindArguments p.code args names).1)).1
        ⟨.malfunction (.noChunk p.code.entry p.code.qualified), []⟩
      exact ⟨fun n f hf => hleave.frames n f (hnew n f hf), hleave.stack⟩

theorem quiet_call
    (s : Store) (stack : List Context) (environment : Environment) (callee : Value) (args : List Value)
    (names : List String) :
    Quiet s stack (call s stack environment callee args names) := by
  have hcalled := called_call s stack environment callee args names
  generalize call s stack environment callee args names = m at hcalled ⊢
  cases hcalled with
  | procedure => exact quiet_enter s stack environment _ args names
  | record hconstruct =>
      have hframes := Store.frames_eq_of_activity (Store.activity_construct hconstruct)
      exact ⟨fun n f hf => by rw [hframes]; exact hf, List.suffix_rfl⟩
  | @builtin _ b => exact (quiet_reply _ stack _).after (frames_builtin s b (args.map s.deref))
  | _ => exact quiet_of_store rfl List.suffix_rfl

/-- A malfunction has no recovery procedure. -/
theorem quiet_malfunction (s : Store) (stack : List Context) (n : Nat) (e : Malfunction) :
    Quiet s stack (malfunction s stack n e) := by
  refine quiet_of_store (store_malfunction s stack n e) ?_
  unfold malfunction fault
  split
  · exact List.suffix_cons _ _
  · rename_i hfault
    cases hfault
  · exact (quiet_leave _ _ _ _).stack

theorem quiet_jump (s : Store) (stack : List Context) (n : Nat) (label : Ir.Label) :
    Quiet s stack (jump s stack n label) := by
  unfold jump
  split
  · exact quiet_of_store rfl List.suffix_rfl
  · split
    · exact quiet_of_store rfl List.suffix_rfl
    · exact quiet_malfunction s stack n _

theorem quiet_failed (s : Store) (stack : List Context) (n : Nat) (onFail : Option Ir.Label) :
    Quiet s stack (failed s stack n onFail) := by
  cases onFail with
  | none => exact quiet_of_store rfl List.suffix_rfl
  | some label => exact quiet_jump s stack n label

theorem quiet_resume (s : Store) (stack : List Context) (k : Continuation) :
    Quiet s stack (resume s stack k) := by
  cases k with
  | activation frame label => exact quiet_jump s stack frame label
  | _ => exact quiet_of_store rfl List.suffix_rfl

/-- A recovery procedure that is called is not the frame's any more. -/
theorem stays_fault
    (hn : A n)
    (s : Store) (stack : List Context) (r : Raised) :
    Stays A X s stack (fault s stack n r) := by
  have hfaulted := faulted_fault s stack n r
  generalize fault s stack n r = m at hfaulted ⊢
  cases hfaulted with
  | @bare rest hstack =>
      subst hstack
      exact (quiet_of_store rfl (List.suffix_cons _ rest) : Quiet s _ ⟨s, rest, .raising r⟩).stays
  | absent => exact stays_of_retains (Store.retains_of_frames_eq rfl) List.suffix_rfl
  | @passed f hbare hf =>
      rcases leave_cases (s.setFrame n (f.noting r.fault)) stack n r with ⟨trace, heq⟩ | heq <;> rw [heq] <;>
        exact stays_of_retains (Store.retains_setFrame hn hf fun _ => rfl) List.suffix_rfl
  | @caught f cause offending handler hbare hf hfault hrecovery =>
      have hcall := quiet_call (s.setFrame n { f.noting r.fault with recovery := none })
        (.recovering n :: stack) f.environment handler (cause.value :: offending) []
      -- the frame gives its recovery procedure to the call; every other frame stays as it is
      have hstack := (Stays.push (A := A) (X := X) hcall.stays hn).stack
      refine ⟨hstack, ?_, ?_⟩
      · intro k g hg hk
        refine hcall.frames k g ?_
        rw [Store.getElem?_frames_setFrame_of_ne (by rintro rfl; exact hk hn)]
        exact hg
      · intro k g hg _
        by_cases hk : k = n
        · subst hk
          cases hf.symm.trans hg
          refine ⟨_, hcall.frames k _ (Store.getElem?_frames_setFrame_self hf _), Or.inr ?_⟩
          exact ⟨handler, hrecovery, _, stack, _, _, rfl⟩
        · refine ⟨g, hcall.frames k g ?_, Or.inl rfl⟩
          rw [Store.getElem?_frames_setFrame_of_ne hk]
          exact hg

theorem recovery_storeOutcome
    {f g : Frame} {d : Ir.Destination} {o : Outcome}
    (h : storeOutcome f d o = .ok g) :
    g.recovery = f.recovery := by
  obtain ⟨stored, hstored, heq⟩ := storeOutcome_eq f d o
  rw [heq] at h
  cases stored with
  | error e => cases h
  | ok f' =>
      have hvalue : f'.recovery = f.recovery := by
        rcases hstored with hsame | ⟨slot, v, -, hset⟩
        · cases hsame
          rfl
        · exact Frame.recovery_put hset.symm
      simp only [Except.bind] at h
      split at h
      · exact (Frame.recovery_setNext h).trans hvalue
      · cases h
        exact hvalue

theorem stays_deliver
    (hn : A n)
    (s : Store) (stack : List Context) (label : Ir.Label) (rest : List Ir.Instruction) (d : Ir.Destination)
    (o : Outcome) :
    Stays A X s stack (deliver s stack n label rest d o) := by
  unfold deliver
  split
  · exact stays_of_retains (Store.retains_of_frames_eq rfl) List.suffix_rfl
  · rename_i f hf
    have hset : ∀ g, storeOutcome f d o = .ok g → s.Retains A X (s.setFrame n g) :=
      fun g hg => Store.retains_setFrame hn hf fun _ => recovery_storeOutcome hg
    split
    · exact (quiet_malfunction s stack n _).stays
    · rename_i g hg
      exact (quiet_failed (s.setFrame n g) stack n d.onFail).stays.after (hset g hg)
    · rename_i g _ hg
      exact stays_of_retains (hset g hg) List.suffix_rfl

theorem stays_activate (s : Store) (stack : List Context) (id : Nat) :
    Stays A X s stack (activate s stack id) := by
  have hjump : ∀ frame label,
      Stays A X s stack (jump (s.setProducer id .running) (.consuming id :: stack) frame label) := by
    intro frame label
    refine Stays.push (c := .consuming id) ?_ trivial
    exact ((quiet_jump _ _ frame label).after (s.frames_setProducer id .running)).stays
  unfold activate
  split
  · exact hjump _ _
  · exact hjump _ _
  · exact (quiet_halt s stack .blocked).stays
  · exact stays_of_retains (Store.retains_of_frames_eq rfl) List.suffix_rfl

theorem stays_invoke (s : Store) (stack : List Context) (op : String) (args : List Value) :
    Stays A X s stack (invoke s stack op args) := by
  have hframes := Store.frames_eq_of_activity (s.activity_invoke op args)
  unfold invoke
  split
  · rename_i r t heq
    rw [heq] at hframes
    exact ((quiet_reply t stack r).after hframes).stays
  · rename_i id t heq
    rw [heq] at hframes
    exact (stays_activate t stack id).after (Store.retains_of_frames_eq hframes)

theorem stays_perform
    (hn : A n)
    (s : Store) (stack : List Context) (label : Ir.Label) (rest : List Ir.Instruction)
    (environment : Environment) (x : Effect) :
    Stays A X s stack (perform s stack n label rest environment x) := by
  have hsame : ∀ control, Stays A X s stack ⟨s, stack, control⟩ :=
    fun control => stays_of_retains (Store.retains_of_frames_eq rfl) List.suffix_rfl
  cases x with
  | next => exact hsame _
  | goto target => exact (quiet_jump s stack n target).stays
  | failed onFail => exact (quiet_failed s stack n onFail).stays
  | succeed v again => cases again <;> exact hsame _
  | call d callee args names => exact (quiet_call s _ environment callee args names).stays.push hn
  | operator d op args => exact (stays_invoke s _ op args).push hn
  | resume d k =>
      cases k with
      | none => exact (stays_of_retains (Store.retains_of_frames_eq rfl) List.suffix_rfl).push hn
      | some k => exact (quiet_resume s _ k).stays.push hn
  | produce v again =>
      simp only [perform]
      split
      · rename_i id below
        exact stays_of_retains (Store.retains_of_frames_eq (s.frames_setProducer id _)) (List.suffix_cons _ _)
      · exact (quiet_malfunction s stack n _).stays
  | exhaust =>
      simp only [perform]
      split
      · exact hsame _
      · exact (quiet_malfunction s stack n _).stays
  | halt reason => exact (quiet_halt s stack reason).stays
  | fault e => exact stays_fault hn s stack ⟨e, []⟩

theorem stays_advance
    (hn : A n)
    (s : Store) (stack : List Context) (label : Ir.Label) (rest : List Ir.Instruction)
    (hinstalls : ∀ slot rest', rest = .recover slot :: rest' → X n) :
    Stays A X s stack (advance s stack n label rest) := by
  unfold advance
  split
  · exact stays_of_retains (Store.retains_of_frames_eq rfl) List.suffix_rfl
  · exact (quiet_malfunction s stack n _).stays
  · rename_i f i rest hf
    have hretains : s.Retains A X (s.execute f i).2.2 :=
      Store.retains_of_frames fun k g hg => s.getElem?_frames_execute f i hg
    have hset : (s.execute f i).2.2.Retains A X ((s.execute f i).2.2.setFrame n (s.execute f i).2.1) := by
      refine Store.retains_setFrame hn (s.getElem?_frames_execute f i hf) fun hX => ?_
      exact Store.recovery_execute fun slot hi => hX (hinstalls slot rest (by rw [hi]))
    exact (stays_perform hn _ stack label rest _ _).after (hretains.trans hset)

/-- A step changes the frame that it works on, and a recovery procedure goes only when the frame installs another
one or when it is called. -/
theorem stays_step (m : Machine) :
    Stays m.Engages m.Installs m.store m.stack m.step := by
  obtain ⟨s, stack, control⟩ := m
  have hrefl : Stays (Engages ⟨s, stack, control⟩) (Installs ⟨s, stack, control⟩) s stack ⟨s, stack, control⟩ :=
    stays_of_retains (Store.retains_of_frames_eq rfl) List.suffix_rfl
  cases control with
  | running n label rest =>
      refine stays_advance (Or.inl rfl) s stack label rest ?_
      rintro slot rest' rfl
      exact ⟨label, slot, rest', rfl⟩
  | halted reason => exact hrefl
  | aborted r => exact hrefl
  | raising r =>
      cases stack with
      | nil => exact hrefl
      | cons c stack =>
          refine Stays.pop ?_ c
          cases c with
          | awaiting n label rest d => exact stays_fault (Or.inr ⟨label, rest, d, rfl⟩) s stack r
          | recovering n => exact (quiet_leave s stack n r).stays
          | bare => exact stays_of_retains (Store.retains_of_frames_eq rfl) List.suffix_rfl
          | consuming id =>
              exact stays_of_retains (Store.retains_of_frames_eq (s.frames_setProducer id .ended)) List.suffix_rfl
  | returning o =>
      cases stack with
      | nil => exact hrefl
      | cons c stack =>
          refine Stays.pop ?_ c
          cases c with
          | awaiting n label rest d => exact stays_deliver (Or.inr ⟨label, rest, d, rfl⟩) s stack label rest d o
          | recovering n => exact stays_of_retains (Store.retains_of_frames_eq rfl) List.suffix_rfl
          | bare => exact stays_of_retains (Store.retains_of_frames_eq rfl) List.suffix_rfl
          | consuming id =>
              exact stays_of_retains (Store.retains_of_frames_eq (s.frames_setProducer id .ended)) List.suffix_rfl

/-- Frames have the same recovery procedures when an exception is on its way as when it was raised. -/
theorem Raises.retains
    {r : Raised}
    (h : Raises s r stack m)
    (hfault : r.fault.isMalfunction = false) :
    m.store.Retains (fun _ => True) (fun _ => False) s := by
  cases h with
  | carried => exact Store.retains_of_frames_eq rfl
  | @instruction s t stack n label i rest f g e d hframe hexecute =>
      have hkept : ∀ (k : Nat) (h : Frame), s.frames[k]? = some h → t.frames[k]? = some h := by
        intro k h hh
        have hkept := s.getElem?_frames_execute f i hh
        rw [hexecute] at hkept
        exact hkept
      refine (Store.retains_of_frames hkept).trans ?_
      exact Store.retains_setFrame trivial (hkept n f hframe) fun _ => Store.recovery_execute_fault hexecute
  | malfunction label rest d hframe hbare hstep => cases hfault

end Machine

end Discipline

end GoalDirected
