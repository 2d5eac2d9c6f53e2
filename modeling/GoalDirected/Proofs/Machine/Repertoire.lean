import GoalDirected.Proofs.Machine.Growth

/-!
# What code a machine runs

**Input.** A step of the machine.

**Argument.** A component of a step leaves the procedures and the slots of frames as they are, or enters a
procedure that is declared, whose frame has nothing in its slots.  What it goes on with is a chunk of a frame.

**Results.**
* `Ensues`: all that a component of a step does to frames, to what waits, and to what runs.
* `WrittenIn.step`: if all declared procedures are written in certain instructions, nothing else is ever executed.
-/

namespace GoalDirected

section Repertoire

/-! ## Frames -/

/-- A frame that comes from a store: one that was there, with the same procedure and the same contents of slots,
or a new one with empty slots for a procedure in `Q`. -/
inductive Store.Hosts (Q : Procedure → Prop) (s : Store) (n : Nat) (g : Frame) : Prop
  | kept
      {f : Frame}
      (hf : s.frames[n]? = some f)
      (hprocedure : g.procedure = f.procedure)
      (htemps : g.temps = f.temps)
  | entered
      (hprocedure : Q g.procedure)
      (hholds : ∀ c, ¬ g.Holds c)

/-- All frames of the second store come from the first. -/
def Store.Continues (Q : Procedure → Prop) (s t : Store) : Prop :=
  ∀ n g, t.frames[n]? = some g → s.Hosts Q n g

/-- The declared procedures are in `Q`. -/
def Store.Offers (Q : Procedure → Prop) (s : Store) : Prop :=
  ∀ (id : Nat) (p : Procedure), s.callables[id]? = some (.procedure p) → Q p

namespace Store

variable {Q : Procedure → Prop} {s t u : Store} {f g : Frame} {n : Nat}

theorem Continues.of_frames
    (h : t.frames = s.frames) :
    s.Continues Q t := by
  intro n g hg
  exact .kept (h ▸ hg) rfl rfl

theorem Continues.trans
    (h : s.Continues Q t)
    (h' : t.Continues Q u) :
    s.Continues Q u := by
  intro n g hg
  cases h' n g hg with
  | entered hprocedure hholds => exact .entered hprocedure hholds
  | kept hf hprocedure htemps =>
      cases h n _ hf with
      | kept hf' hprocedure' htemps' => exact .kept hf' (hprocedure.trans hprocedure') (htemps.trans htemps')
      | entered hprocedure' hholds =>
          exact .entered (hprocedure ▸ hprocedure') fun c hc => hholds c (hc.of_temps_eq htemps)

theorem continues_setFrame
    (hf : s.frames[n]? = some f)
    (hprocedure : g.procedure = f.procedure)
    (htemps : g.temps = f.temps) :
    s.Continues Q (s.setFrame n g) := by
  intro w h hh
  rcases getElem?_frames_setFrame hh with ⟨rfl, rfl⟩ | hh
  · exact .kept hf hprocedure htemps
  · exact .kept hh rfl rfl

theorem continues_newFrame
    (hprocedure : Q f.procedure)
    (hholds : ∀ c, ¬ f.Holds c) :
    s.Continues Q (s.newFrame f).2 := by
  intro w h hh
  rcases getElem?_frames_newFrame hh with ⟨rfl, rfl⟩ | hh
  · exact .entered hprocedure hholds
  · exact .kept hh rfl rfl

/-- A slot with a reference had it before. -/
theorem Continues.holds
    {c : CellId}
    (h : s.Continues Q t)
    (hg : t.frames[n]? = some g)
    (hc : g.Holds c) :
    ∃ f, s.frames[n]? = some f ∧ f.Holds c := by
  cases h n g hg with
  | kept hf hprocedure htemps => exact ⟨_, hf, hc.of_temps_eq htemps⟩
  | entered hprocedure hholds => exact absurd hc (hholds c)

theorem Offers.of_callables
    (h : s.Offers Q)
    (hcallables : t.callables = s.callables) :
    t.Offers Q := by
  intro id p hp
  exact h id p (hcallables ▸ hp)

end Store

/-! ## Components of a step -/

/-- What a component of a step leaves of a store and a stack: frames continue, nothing new waits for an outcome,
and what runs is a chunk of a frame. -/
structure Machine.Ensues (Q : Procedure → Prop) (s : Store) (stack : List Context) (m : Machine) : Prop where
  store : s.Continues Q m.store
  stack : ∀ n label rest d, .awaiting n label rest d ∈ m.stack → .awaiting n label rest d ∈ stack
  control : ∀ n label rest, m.control = .running n label rest →
    ∃ f target, m.store.frames[n]? = some f ∧ f.procedure.code.chunk? target = some rest

namespace Machine

variable {Q : Procedure → Prop} {s t : Store} {stack : List Context} {m : Machine} {n : Nat}

/-- Something is carried to the innermost context, or everything stops. -/
theorem ensues_idle
    {control : Control}
    (hframes : t.frames = s.frames)
    (hcontrol : running? ⟨t, stack, control⟩ = none) :
    Ensues Q s stack ⟨t, stack, control⟩ := by
  refine ⟨.of_frames hframes, fun _ _ _ _ hc => hc, ?_⟩
  rintro n label rest rfl
  cases hcontrol

theorem Ensues.after
    (h : Ensues Q t stack m)
    (hst : s.Continues Q t) :
    Ensues Q s stack m :=
  ⟨hst.trans h.store, h.stack, h.control⟩

/-- The stack may have had more contexts. -/
theorem Ensues.widen
    {below : List Context}
    (h : Ensues Q s below m)
    (hstack : ∀ c ∈ below, c ∈ stack) :
    Ensues Q s stack m :=
  ⟨h.store, fun n label rest d hc => hstack _ (h.stack n label rest d hc), h.control⟩

/-- A context that waits for no outcome has been put on the stack first. -/
theorem Ensues.push
    {c : Context}
    (h : Ensues Q s (c :: stack) m)
    (hc : ∀ n label rest d, c ≠ .awaiting n label rest d) :
    Ensues Q s stack m := by
  refine ⟨h.store, ?_, h.control⟩
  intro n label rest d hmem
  exact (List.mem_cons.mp (h.stack n label rest d hmem)).resolve_left fun heq => hc n label rest d heq.symm

theorem ensues_halt (s : Store) (stack : List Context) (reason : Halt) :
    Ensues Q s stack (halt s stack reason) := by
  unfold halt
  split
  · rename_i id rest hinner
    obtain ⟨before, rfl⟩ := exists_of_innermostConsumer? hinner
    refine (ensues_idle (s.frames_setProducer id .ended) rfl).widen ?_
    exact fun c hc => List.mem_append_right before (List.mem_cons_of_mem _ hc)
  · exact ensues_idle rfl rfl

theorem ensues_leave (s : Store) (stack : List Context) (n : Nat) (r : Raised) :
    Ensues Q s stack (leave s stack n r) := by
  rcases leave_cases s stack n r with ⟨trace, heq⟩ | heq <;> rw [heq] <;> exact ensues_idle rfl rfl

theorem ensues_reply (s : Store) (stack : List Context) (r : Reply) :
    Ensues Q s stack (reply s stack r) := by
  cases r with
  | outcome o => exact ensues_idle rfl rfl
  | fault e => exact ensues_idle rfl rfl
  | halt reason => exact ensues_halt s stack reason

theorem ensues_enter
    {p : Procedure}
    (hp : Q p)
    (s : Store) (stack : List Context) (environment : Environment) (args : List Value) (names : List String) :
    Ensues Q s stack (enter s stack environment p args names) := by
  unfold enter
  split
  · exact ensues_idle rfl rfl
  · have hframes := Store.frames_eq_of_activity (s.activity_bindArguments p.code args names)
    dsimp only
    generalize s.bindArguments p.code args names = bound at hframes ⊢
    have hnew : s.Continues Q (bound.2.newFrame (.new environment p args bound.1)).2 :=
      (Store.Continues.of_frames hframes).trans
        (Store.continues_newFrame hp (not_holds_new environment p args bound.1))
    split
    · rename_i body hbody
      refine ⟨hnew, fun _ _ _ _ hc => hc, ?_⟩
      intro n label rest hcontrol
      cases hcontrol
      exact ⟨.new environment p args bound.1, p.code.entry, by simp [Store.newFrame], hbody⟩
    · exact (ensues_leave _ stack _ _).after hnew

theorem ensues_call
    (hoffers : s.Offers Q)
    (stack : List Context) (environment : Environment) (callee : Value) (args : List Value)
    (names : List String) :
    Ensues Q s stack (call s stack environment callee args names) := by
  have hcalled := called_call s stack environment callee args names
  generalize call s stack environment callee args names = m at hcalled ⊢
  cases hcalled with
  | procedure hcallee hcallable => exact ensues_enter (hoffers _ _ hcallable) s stack environment args names
  | record hconstruct => exact ensues_idle (Store.frames_eq_of_activity (Store.activity_construct hconstruct)) rfl
  | @builtin _ b => exact (ensues_reply _ stack _).after (.of_frames (frames_builtin s b _))
  | _ => exact ensues_idle rfl rfl

theorem ensues_fault
    (hoffers : s.Offers Q)
    (stack : List Context) (n : Nat) (r : Raised) :
    Ensues Q s stack (fault s stack n r) := by
  unfold fault
  split
  · exact (ensues_idle rfl rfl).widen fun c hc => List.mem_cons_of_mem _ hc
  · rename_i f cause offending _ hf _
    have hset : ∀ recovery, s.Continues Q (s.setFrame n
        { f with offender := f.offender.or offending.head?, recovery := recovery }) :=
      fun recovery => Store.continues_setFrame hf rfl rfl
    dsimp only
    split
    · refine Ensues.push (c := .recovering n) (Ensues.after ?_ (hset none)) nofun
      exact ensues_call (s := s.setFrame n _) (hoffers.of_callables rfl) _ _ _ _ _
    · exact (ensues_leave _ _ n r).after (hset f.recovery)
  · exact ensues_leave s _ n r

theorem ensues_malfunction (s : Store) (stack : List Context) (n : Nat) (e : Malfunction) :
    Ensues Q s stack (malfunction s stack n e) := by
  unfold malfunction fault
  split
  · exact (ensues_idle rfl rfl).widen fun c hc => List.mem_cons_of_mem _ hc
  · rename_i hfault
    cases hfault
  · exact ensues_leave s _ n _

theorem ensues_jump (s : Store) (stack : List Context) (n : Nat) (label : Ir.Label) :
    Ensues Q s stack (jump s stack n label) := by
  unfold jump
  split
  · exact ensues_idle rfl rfl
  · rename_i f hf
    split
    · rename_i body hbody
      refine ⟨.of_frames rfl, fun _ _ _ _ hc => hc, ?_⟩
      intro n label rest hcontrol
      cases hcontrol
      exact ⟨f, _, hf, hbody⟩
    · exact ensues_malfunction s stack n _

theorem ensues_failed (s : Store) (stack : List Context) (n : Nat) (onFail : Option Ir.Label) :
    Ensues Q s stack (failed s stack n onFail) := by
  cases onFail with
  | none => exact ensues_idle rfl rfl
  | some label => exact ensues_jump s stack n label

theorem ensues_resume (s : Store) (stack : List Context) (k : Continuation) :
    Ensues Q s stack (resume s stack k) := by
  cases k with
  | activation n label => exact ensues_jump s stack n label
  | _ => exact ensues_idle rfl rfl

theorem ensues_activate (s : Store) (stack : List Context) (id : Nat) :
    Ensues Q s stack (activate s stack id) := by
  have hjump : ∀ n label, Ensues Q s stack (jump (s.setProducer id .running) (.consuming id :: stack) n label) :=
    fun n label => ((ensues_jump _ _ n label).after (.of_frames (s.frames_setProducer id .running))).push nofun
  unfold activate
  split
  · exact hjump _ _
  · exact hjump _ _
  · exact ensues_halt s stack .blocked
  · exact ensues_idle rfl rfl

theorem ensues_invoke (s : Store) (stack : List Context) (op : String) (args : List Value) :
    Ensues Q s stack (invoke s stack op args) := by
  have hframes := Store.frames_eq_of_activity (s.activity_invoke op args)
  unfold invoke
  split
  · rename_i r t heq
    rw [heq] at hframes
    exact (ensues_reply t stack r).after (.of_frames hframes)
  · rename_i id t heq
    rw [heq] at hframes
    exact (ensues_activate t stack id).after (.of_frames hframes)

/-- The frame goes on with the rest of its chunk, or waits, or does something else. -/
theorem ensues_perform
    (hoffers : s.Offers Q)
    (stack : List Context) (n : Nat) (label : Ir.Label) (rest : List Ir.Instruction)
    (environment : Environment) (e : Effect) :
    perform s stack n label rest environment e = ⟨s, stack, .running n label rest⟩ ∨
      ∃ d, Ensues Q s (.awaiting n label rest d :: stack) (perform s stack n label rest environment e) := by
  have hquiet : ∀ m, Ensues Q s stack m → m = ⟨s, stack, .running n label rest⟩ ∨
      ∃ d, Ensues Q s (.awaiting n label rest d :: stack) m :=
    fun m hm => Or.inr ⟨⟨none, none, none⟩, hm.widen fun c hc => List.mem_cons_of_mem _ hc⟩
  cases e with
  | next => exact Or.inl rfl
  | goto target => exact hquiet _ (ensues_jump s stack n target)
  | failed onFail => exact hquiet _ (ensues_failed s stack n onFail)
  | succeed v again =>
      cases again with
      | none => exact hquiet _ (ensues_idle rfl rfl)
      | some again => exact hquiet _ (ensues_idle rfl rfl)
  | call d callee args names => exact Or.inr ⟨d, ensues_call hoffers _ environment callee args names⟩
  | operator d op args => exact Or.inr ⟨d, ensues_invoke s _ op args⟩
  | resume d k =>
      cases k with
      | none => exact Or.inr ⟨d, ensues_idle rfl rfl⟩
      | some k => exact Or.inr ⟨d, ensues_resume s _ k⟩
  | produce v again =>
      simp only [perform]
      split
      · rename_i id below
        refine hquiet _ ((ensues_idle (s.frames_setProducer id _) rfl).widen ?_)
        exact fun c hc => List.mem_cons_of_mem _ hc
      · exact hquiet _ (ensues_malfunction s stack n _)
  | exhaust =>
      simp only [perform]
      split
      · exact hquiet _ (ensues_idle rfl rfl)
      · exact hquiet _ (ensues_malfunction s stack n _)
  | halt reason => exact hquiet _ (ensues_halt s stack reason)
  | fault e => exact hquiet _ (ensues_fault hoffers stack n _)

theorem continues_perform
    (hoffers : s.Offers Q)
    (stack : List Context) (n : Nat) (label : Ir.Label) (rest : List Ir.Instruction)
    (environment : Environment) (e : Effect) :
    s.Continues Q (perform s stack n label rest environment e).store := by
  rcases ensues_perform hoffers stack n label rest environment e with heq | ⟨d, h⟩
  · rw [heq]
    exact .of_frames rfl
  · exact h.store

end Machine

/-! ## Code -/

/-- All instructions of the procedure are in `P`. -/
def Procedure.WrittenIn (P : Ir.Instruction → Prop) (p : Procedure) : Prop :=
  ∀ chunk ∈ p.code.chunks, ∀ i ∈ chunk.body, P i

instance (P : Ir.Instruction → Prop) [DecidablePred P] (p : Procedure) : Decidable (p.WrittenIn P) :=
  inferInstanceAs (Decidable (∀ chunk ∈ p.code.chunks, ∀ i ∈ chunk.body, P i))

/-- All that a machine may come to execute is in `P`: the code of its frames, and the rests of chunks that wait or
run. -/
structure Machine.WrittenIn (P : Ir.Instruction → Prop) (m : Machine) : Prop where
  frames : ∀ (n : Nat) (f : Frame), m.store.frames[n]? = some f → f.procedure.WrittenIn P
  stack : ∀ n label rest d, .awaiting n label rest d ∈ m.stack → ∀ i ∈ rest, P i
  control : ∀ n label rest, m.control = .running n label rest → ∀ i ∈ rest, P i

theorem Procedure.WrittenIn.chunk?
    {P : Ir.Instruction → Prop} {p : Procedure} {label : Ir.Label} {body : List Ir.Instruction}
    (h : p.WrittenIn P)
    (hbody : p.code.chunk? label = some body) :
    ∀ i ∈ body, P i := by
  obtain ⟨chunk, hchunk, rfl⟩ := Option.map_eq_some_iff.mp hbody
  exact h chunk (List.mem_of_find?_eq_some hchunk)

/-- The frames after an instruction run procedures of frames that were there. -/
theorem Store.procedure_execute
    {s : Store} {f g : Frame} {n w : Nat} {i : Ir.Instruction}
    (hf : s.frames[n]? = some f)
    (hg : ((s.execute f i).2.2.setFrame n (s.execute f i).2.1).frames[w]? = some g) :
    ∃ (v : Nat) (h : Frame), s.frames[v]? = some h ∧ g.procedure = h.procedure := by
  have hexecutes := s.executes_execute f i
  rcases getElem?_frames_setFrame hg with ⟨rfl, rfl⟩ | hg
  · exact ⟨w, f, hf, hexecutes.follows.procedure⟩
  · rcases hexecutes.activity with hsame | ⟨entry, v, -, hcreate⟩
    · exact ⟨w, g, frames_eq_of_activity hsame ▸ hg, rfl⟩
    · obtain ⟨copy, hcopy, -, hframes, -⟩ := createProducer_eq_ok hcreate
      rw [hframes, Array.getElem?_push] at hg
      split at hg
      · cases hg
        exact ⟨n, f, hf, hcopy.procedure⟩
      · exact ⟨w, g, hg, rfl⟩

theorem Store.callables_execute (s : Store) (f : Frame) (i : Ir.Instruction) :
    (s.execute f i).2.2.callables = s.callables := by
  rcases (s.executes_execute f i).activity with hsame | ⟨entry, v, -, hcreate⟩
  · exact callables_eq_of_activity hsame
  · obtain ⟨-, -, -, -, -, hcallables, -⟩ := createProducer_eq_ok hcreate
    exact hcallables

namespace Machine.WrittenIn

variable {P : Ir.Instruction → Prop} {s : Store} {stack : List Context} {control : Control} {m : Machine}
  {n : Nat}

theorem of_ensues
    (h : WrittenIn P ⟨s, stack, control⟩)
    (hm : Ensues (·.WrittenIn P) s stack m) :
    m.WrittenIn P := by
  have hframes : ∀ (n : Nat) (f : Frame), m.store.frames[n]? = some f → f.procedure.WrittenIn P := by
    intro n f hf
    cases hm.store n f hf with
    | kept hf hprocedure htemps => exact hprocedure ▸ h.frames n _ hf
    | entered hprocedure hholds => exact hprocedure
  refine ⟨hframes, fun n label rest d hc => h.stack n label rest d (hm.stack n label rest d hc), ?_⟩
  intro n label rest hcontrol
  obtain ⟨f, target, hf, hbody⟩ := hm.control n label rest hcontrol
  exact (hframes n f hf).chunk? hbody

theorem beneath
    {c : Context}
    (h : WrittenIn P ⟨s, c :: stack, control⟩) :
    WrittenIn P ⟨s, stack, control⟩ :=
  ⟨h.frames, fun n label rest d hc => h.stack n label rest d (List.mem_cons_of_mem c hc), h.control⟩

/-- A frame comes to wait with the rest of its chunk. -/
theorem await
    {label : Ir.Label} {rest : List Ir.Instruction} {d : Ir.Destination}
    (h : WrittenIn P ⟨s, stack, control⟩)
    (hrest : ∀ i ∈ rest, P i) :
    WrittenIn P ⟨s, .awaiting n label rest d :: stack, control⟩ := by
  refine ⟨h.frames, ?_, h.control⟩
  intro w label' rest' d' hc
  rcases List.mem_cons.mp hc with heq | hc
  · cases heq
    exact hrest
  · exact h.stack w label' rest' d' hc

/-- The procedures of frames stay the same. -/
theorem of_frames
    {t : Store}
    (h : WrittenIn P ⟨s, stack, control⟩)
    (hframes : ∀ (w : Nat) (g : Frame), t.frames[w]? = some g →
      ∃ (v : Nat) (f : Frame), s.frames[v]? = some f ∧ g.procedure = f.procedure) :
    WrittenIn P ⟨t, stack, control⟩ := by
  refine ⟨?_, h.stack, h.control⟩
  intro w g hg
  obtain ⟨v, f, hf, hprocedure⟩ := hframes w g hg
  exact hprocedure ▸ h.frames v f hf

theorem advance
    {label : Ir.Label} {rest : List Ir.Instruction}
    (h : WrittenIn P ⟨s, stack, .running n label rest⟩)
    (hoffers : s.Offers (·.WrittenIn P)) :
    (advance s stack n label rest).WrittenIn P := by
  unfold Machine.advance
  split
  · exact h.of_ensues (ensues_idle rfl rfl)
  · exact h.of_ensues (ensues_malfunction s stack n _)
  · rename_i f i rest hf
    have hrest : ∀ j ∈ rest, P j := fun j hj => h.control n label _ rfl j (List.mem_cons_of_mem i hj)
    have hexecuted := h.of_frames fun w g hg => Store.procedure_execute (i := i) hf hg
    rcases ensues_perform (s := (s.execute f i).2.2.setFrame n (s.execute f i).2.1)
      (hoffers.of_callables (s.callables_execute f i)) stack n label rest (s.execute f i).2.1.environment
      (s.execute f i).1 with heq | ⟨d, hensues⟩
    · simp only [heq]
      refine ⟨hexecuted.frames, hexecuted.stack, ?_⟩
      intro n label rest hcontrol
      cases hcontrol
      exact hrest
    · exact (hexecuted.await hrest).of_ensues hensues

theorem deliver
    {label : Ir.Label} {rest : List Ir.Instruction} {d : Ir.Destination}
    (h : WrittenIn P ⟨s, .awaiting n label rest d :: stack, control⟩)
    (o : Outcome) :
    (deliver s stack n label rest d o).WrittenIn P := by
  unfold Machine.deliver
  split
  · exact h.beneath.of_ensues (ensues_idle rfl rfl)
  · rename_i f hf
    have hset : ∀ g, storeOutcome f d o = .ok g → WrittenIn P ⟨s.setFrame n g, stack, control⟩ := by
      intro g hg
      refine h.beneath.of_frames fun w k hk => ?_
      rcases Store.getElem?_frames_setFrame hk with ⟨rfl, rfl⟩ | hk
      · exact ⟨w, f, hf, (holds_storeOutcome hg).1.procedure⟩
      · exact ⟨w, k, hk, rfl⟩
    split
    · exact h.beneath.of_ensues (ensues_malfunction s stack n _)
    · rename_i g hg
      exact (hset g hg).of_ensues (ensues_failed _ stack n d.onFail)
    · rename_i g _ hg
      refine ⟨(hset g hg).frames, (hset g hg).stack, ?_⟩
      intro w label' rest' hcontrol
      cases hcontrol
      exact h.stack n label rest d List.mem_cons_self

/-- A step executes nothing but what frames, contexts and declared procedures are written in. -/
theorem step
    (h : m.WrittenIn P)
    (hoffers : m.store.Offers (·.WrittenIn P)) :
    m.step.WrittenIn P := by
  obtain ⟨s, stack, control⟩ := m
  cases control with
  | running n label rest => exact h.advance hoffers
  | halted reason => exact h
  | aborted r => exact h
  | raising r =>
      cases stack with
      | nil => exact h
      | cons x stack =>
          cases x with
          | awaiting n label rest d => exact h.beneath.of_ensues (ensues_fault hoffers stack n r)
          | recovering n => exact h.beneath.of_ensues (ensues_leave s stack n r)
          | bare => exact h.beneath
          | consuming id => exact h.beneath.of_ensues (ensues_idle (s.frames_setProducer id .ended) rfl)
  | returning o =>
      cases stack with
      | nil => exact h
      | cons x stack =>
          cases x with
          | awaiting n label rest d => exact h.deliver o
          | recovering n => exact h.beneath
          | bare => exact h.beneath
          | consuming id => exact h.beneath.of_ensues (ensues_idle (s.frames_setProducer id .ended) rfl)

end Machine.WrittenIn

end Repertoire

end GoalDirected
