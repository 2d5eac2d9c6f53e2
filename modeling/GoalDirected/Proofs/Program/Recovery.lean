import GoalDirected.Proofs.Machine.Discipline
import GoalDirected.Proofs.Program.Custody

/-!
# Recovery from faults

A fault leaves activations until one of them has a recovery procedure for it.  That procedure is called in the
stead of the activation, which does not go on after it: what the procedure comes to is what the activation comes to.

* `Installed.recovery`: a recovery procedure that has been installed is there until it is replaced or called,
  however often the activation is suspended in the meantime.
* `Spent`: what is left of an activation whose recovery procedure has been called.
* `fault_routed`: the ways of malfunctions and of exceptions through chains of activations.
-/

namespace GoalDirected

section Recovery

/-! ## Contexts of a course -/

theorem Context.uses_of_activation?
    {c : Context} {n : Nat}
    (h : c.activation? = some n) :
    c.uses 1 n = 1 := by
  cases c with
  | awaiting k label rest d =>
      cases h
      exact if_pos rfl
  | recovering k =>
      cases h
      simp [Context.uses, mark]
  | _ => cases h

theorem Context.uses_zero_le (n : Nat) (c : Context) : c.uses 0 n ≤ c.uses 1 n := by
  cases c with
  | recovering k => simp [Context.uses]
  | _ => exact Nat.le_refl _

namespace Course

variable {admits : Value → Prop} {σ τ : Course} {s : Store} {r : Raised} {chain below : List Context} {n : Nat}

theorem Sound.exists_frame
    {c : Context}
    (h : σ.Sound)
    (hc : c ∈ σ.machine.stack)
    (hn : c.activation? = some n) :
    ∃ f, σ.machine.store.frames[n]? = some f := by
  by_contra hnone
  have hsize : σ.size ≤ n := by
    by_contra hlt
    exact hnone ⟨_, Array.getElem?_eq_getElem (Nat.lt_of_not_le hlt)⟩
  have habsent := h.absent n hsize
  have hpos := le_weigh (w := Context.uses 1 n) hc
  rw [Context.uses_of_activation? hn] at hpos
  simp only [uses, Machine.uses] at habsent
  omega

/-- What a move leaves alone. -/
theorem stays_move
    (hmove : Move admits σ τ) :
    Machine.Stays σ.machine.Engages σ.machine.Installs σ.machine.store σ.machine.stack τ.machine := by
  cases hmove with
  | step m held pending => exact m.stays_step
  | link hidle ir =>
      rename_i s control held pending
      exact Machine.stays_of_retains (Store.retains_of_frames_eq (Program.prepares_link ⟨s, pending⟩ ir).frames)
        List.suffix_rfl
  | call hidle hargs environment callee names => exact (Machine.quiet_call ..).stays
  | main hidle callee args =>
      rename_i s control held pending
      have hcall := Machine.quiet_call (s.newList (args.map Value.text).toArray).2 [] Program.rootEnvironment
        callee [(s.newList (args.map Value.text).toArray).1] []
      exact (hcall.after (s := s) rfl).stays
  | keep s v k held pending => exact Machine.stays_of_retains (Store.retains_of_frames_eq rfl) List.suffix_rfl
  | resume hidle before k after => exact (Machine.quiet_resume ..).stays
  | prepare hidle hitem hinit =>
      exact (Machine.quiet_enter _ [] Program.rootEnvironment _ [] []).stays
  | assign hitem hinit hvalue => exact Machine.stays_of_retains (Store.retains_of_frames_eq rfl) List.suffix_rfl
  | settle m held pending => exact (Machine.quiet_of_store rfl List.suffix_rfl).stays

theorem leads_iterate (admits : Value → Prop) (σ : Course) (j : Nat) :
    Leads admits σ ⟨Machine.step^[j] σ.machine, σ.held, σ.pending⟩ := by
  induction j with
  | zero => exact .refl
  | succ j ih =>
      rw [Function.iterate_succ_apply']
      exact ih.tail (.step _ σ.held σ.pending)

/-! ## Installed recovery procedures -/

/-- The activation has installed a recovery procedure.  Since then it has not installed another one, and the
procedure has not been called. -/
inductive Installed (admits : Value → Prop) (n : Nat) : Value → Course → Prop
  | recover
      {s : Store} {stack : List Context} {label : Ir.Label} {slot : Nat} {rest : List Ir.Instruction} {f : Frame}
      {v : Value}
      (hframe : s.frames[n]? = some f)
      (hvalue : f.value slot = .ok v)
      (held : List Continuation) (pending : List (Item Initializer)) :
      Installed admits n (s.deref v)
        ⟨Machine.step ⟨s, stack, .running n label (.recover slot :: rest)⟩, held, pending⟩
  | move
      {σ τ : Course} {handler : Value}
      (h : Installed admits n handler σ)
      (hmove : Move admits σ τ)
      (hinstalls : ¬ σ.machine.Installs n)
      (hspends : ¬ τ.machine.Spends n handler) :
      Installed admits n handler τ

/-- The frame has the recovery procedure that has been installed. -/
theorem Installed.recovery
    {handler : Value}
    (h : Installed admits n handler σ) :
    ∃ f, σ.machine.store.frames[n]? = some f ∧ f.recovery = some handler := by
  induction h with
  | @recover s stack label slot rest f v hframe hvalue held pending =>
      have hexecute : s.execute f (.recover slot) = (.next, { f with recovery := some (s.deref v) }, s) := by
        simp only [Store.execute, hvalue]
      refine ⟨{ f with recovery := some (s.deref v) }, ?_, rfl⟩
      rw [Machine.step_running hframe hexecute]
      exact Store.getElem?_frames_setFrame_self hframe _
  | move h hmove hinstalls hspends ih =>
      obtain ⟨f, hf, hrecovery⟩ := ih
      obtain ⟨g, hg, hsame | ⟨handler', hhandler, hspent⟩⟩ := (stays_move hmove).recovery n f hf hinstalls
      · exact ⟨g, hg, hsame.trans hrecovery⟩
      · cases hrecovery.symm.trans hhandler
        exact absurd hspent hspends

theorem Installed.handler?
    {stack : List Context} {handler : Value}
    (h : Installed admits n handler σ)
    (hraises : Machine.Raises s r stack σ.machine)
    (hfault : r.fault.isMalfunction = false)
    (label : Ir.Label) (rest : List Ir.Instruction) (d : Ir.Destination) :
    s.handler? (.awaiting n label rest d) = some handler := by
  obtain ⟨f, hf, hrecovery⟩ := h.recovery
  obtain ⟨g, hg, hsame⟩ := (hraises.retains hfault).recovery n f hf id
  simp only [Store.handler?, hg, Option.bind_some, hsame, hrecovery]

/-! ## Spent activations -/

/-- The recovery procedure of an activation has been called, in the stead of the activation and for its caller. -/
structure Spent (n : Nat) (f : Frame) (caller : List Context) (σ : Course) : Prop where
  idle : σ.uses 0 n = 0
  frame : σ.machine.store.frames[n]? = some f
  place : ∀ above below, σ.machine.stack = above ++ .recovering n :: below → below = caller

theorem Spent.not_running
    {f : Frame} {caller : List Context}
    (h : Spent n f caller σ) :
    σ.machine.running? ≠ some n := by
  intro hrunning
  have hidle := h.idle
  have hpos : σ.machine.control.uses n = 1 := by
    unfold Machine.running? at hrunning
    split at hrunning
    · rename_i hcontrol
      cases hrunning
      rw [hcontrol]
      exact if_pos rfl
    · cases hrunning
  simp only [uses, Machine.uses] at hidle
  omega

theorem Spent.not_awaiting
    {f : Frame} {caller : List Context}
    (h : Spent n f caller σ)
    (label : Ir.Label) (rest : List Ir.Instruction) (d : Ir.Destination) :
    .awaiting n label rest d ∉ σ.machine.stack := by
  intro hmem
  have hidle := h.idle
  have hpos := le_weigh (w := Context.uses 0 n) hmem
  have hone : Context.uses 0 n (.awaiting n label rest d) = 1 := if_pos rfl
  simp only [uses, Machine.uses] at hidle
  omega

theorem Spent.not_engages
    {f : Frame} {caller : List Context}
    (h : Spent n f caller σ) :
    ¬ σ.machine.Engages n := by
  rintro (hrunning | ⟨label, rest, d, hhead⟩)
  · exact h.not_running hrunning
  · exact h.not_awaiting label rest d (List.mem_of_mem_head? (Option.mem_def.mpr hhead))

/-- The contexts of recovery procedures that a move puts on the stack are not those of a spent activation. -/
theorem Spent.recovering_mem
    {f : Frame} {caller : List Context}
    (h : Spent n f caller σ)
    (hmove : Move admits σ τ)
    {above below : List Context}
    (hstack : τ.machine.stack = above ++ .recovering n :: below) :
    ∃ above', σ.machine.stack = above' ++ .recovering n :: below := by
  obtain ⟨pushed, kept, heq, ⟨lost, hkept⟩, hpushed⟩ := (stays_move hmove).stack
  rw [heq] at hstack
  -- the context is one of those that are kept, or else it has been put on the stack by the move
  rcases List.append_eq_append_iff.mp hstack with ⟨middle, rfl, hmiddle⟩ | ⟨middle, hmiddle, hbelow⟩
  · exact ⟨lost ++ middle, by rw [← hkept, hmiddle, List.append_assoc]⟩
  · cases middle with
    | nil =>
        refine ⟨lost, ?_⟩
        rw [← hkept]
        exact congrArg (lost ++ ·) hbelow.symm
    | cons c middle =>
        cases hbelow
        have hmem : .recovering n ∈ pushed := by simp [hmiddle]
        exact absurd (hpushed _ hmem) h.not_engages

theorem Spent.move
    {f : Frame} {caller : List Context}
    (h : Spent n f caller σ)
    (hmove : Move admits σ τ) :
    Spent n f caller τ where
  idle := by
    have hsize : n < σ.size := (Array.getElem?_eq_some_iff.mp h.frame).1
    exact (uses_eq_zero h.idle hsize (.single hmove)).1
  frame := (stays_move hmove).kept n f h.frame h.not_engages
  place := by
    intro above below hstack
    obtain ⟨above', hσ⟩ := h.recovering_mem hmove hstack
    exact h.place above' below hσ

theorem Spent.leads
    {f : Frame} {caller : List Context}
    (h : Spent n f caller σ)
    (hleads : Leads admits σ τ) :
    Spent n f caller τ :=
  hleads.keeps (fun _ _ hσ hmove => hσ.move hmove) h

/-- There is no other way to go on with the activation that an exception reaches. -/
theorem Sound.load_of_raises
    {label : Ir.Label} {rest : List Ir.Instruction} {d : Ir.Destination} {caller : List Context}
    (h : σ.Sound)
    (hraises : Machine.Raises s r (.awaiting n label rest d :: caller) σ.machine)
    (hfault : r.fault.isMalfunction = false) :
    Machine.load 1 n s caller = 0 ∧ weigh (Continuation.uses n) σ.held = 0 := by
  have hsingle := h.single n
  obtain ⟨m, held, pending⟩ := σ
  have hmark : mark n n = 1 := if_pos rfl
  simp only [uses, Machine.uses] at hsingle
  cases hraises with
  | carried s r stack =>
      simp only [weigh_cons, Context.uses, hmark] at hsingle
      simp only [Machine.load]
      omega
  | @instruction s t stack n label i rest f g e d hframe hexecute =>
      obtain ⟨hsize, huses⟩ := Store.uses_execute hframe i n
      have hlt := (Array.getElem?_eq_some_iff.mp hframe).1
      rw [added, if_neg (by omega), hexecute] at huses
      simp only [Control.uses, hmark] at hsingle
      simp only [Machine.load]
      dsimp only at huses
      omega
  | malfunction label rest d hframe hbare hstep => cases hfault

theorem Reachable.step
    (h : Reachable admits σ) :
    Reachable admits ⟨σ.machine.step, σ.held, σ.pending⟩ :=
  h.leads (.single (.step σ.machine σ.held σ.pending))

/-- The call of a recovery procedure leaves no way to go on with the activation. -/
theorem spent_call
    {f g : Frame} {caller : List Context} {held : List Continuation}
    (hf : s.frames[n]? = some f)
    (htemps : g.temps = f.temps)
    (hload : Machine.load 1 n s caller = 0)
    (hheld : weigh (Continuation.uses n) held = 0)
    (environment : Environment) (handler : Value) (args : List Value) (pending : List (Item Initializer)) :
    Spent n g caller
      ⟨Machine.call (s.setFrame n g) (.recovering n :: caller) environment handler args [], held, pending⟩ := by
  have hg := Store.getElem?_frames_setFrame_self hf g
  have hquiet := Machine.quiet_call (s.setFrame n g) (.recovering n :: caller) environment handler args []
  have hcontexts : weigh (Context.uses 1 n) caller = 0 := by
    simp only [Machine.load] at hload
    omega
  refine ⟨?_, hquiet.frames n g hg, ?_⟩
  · have hcall := (Machine.within_call (e := 0) (n := n) (s.setFrame n g) (.recovering n :: caller) environment
      handler args []).uses
    have hlt := (Array.getElem?_eq_some_iff.mp hg).1
    have hle := weigh_mono caller (Context.uses_zero_le n)
    rw [added, if_neg (by omega)] at hcall
    simp only [Machine.load, Machine.uses_setFrame_of_temps hf htemps, weigh_cons, Context.uses] at hcall hload
    simp only [uses]
    omega
  · intro above below hstack
    have habsent : .recovering n ∉ caller := by
      intro hmem
      have hpos := le_weigh (w := Context.uses 1 n) hmem
      rw [Context.uses_of_activation? rfl] at hpos
      omega
    -- the call may have ended the co-expression that it was made in, and its contexts with it
    rcases List.suffix_cons_iff.mp hquiet.stack with hwhole | hpart
    · rw [hwhole] at hstack
      cases above with
      | nil =>
          cases hstack
          rfl
      | cons c above =>
          cases hstack
          exact absurd (List.mem_append_right above List.mem_cons_self) habsent
    · have hmem : .recovering n ∈ caller := hpart.mem (by rw [hstack]; simp)
      exact absurd hmem habsent

/-- An activation whose recovery procedure is called for an exception is spent. -/
theorem Reachable.spent
    {passed caller : List Context} {label : Ir.Label} {rest : List Ir.Instruction} {d : Ir.Destination}
    {f g : Frame}
    (h : Reachable admits σ)
    (hraises : Machine.Raises s r (passed ++ .awaiting n label rest d :: caller) σ.machine)
    (hfault : r.fault.isMalfunction = false)
    (hpassed : Machine.Passable r.fault s passed)
    (hshown : ∀ c ∈ passed, (s.passAll r.fault passed).Showable c)
    (hf : (s.passAll r.fault passed).frames[n]? = some f)
    (htemps : g.temps = f.temps)
    (environment : Environment) (handler : Value) (args : List Value) :
    Spent n g caller
      ⟨Machine.call ((s.passAll r.fault passed).setFrame n g) (.recovering n :: caller) environment handler args
          [], σ.held, σ.pending⟩ := by
  have hload : Machine.load 1 n (s.passAll r.fault passed) caller = 0 ∧
      weigh (Continuation.uses n) σ.held = 0 := by
    cases hcases : passed with
    | nil =>
        rw [hcases] at hraises
        exact h.sound.load_of_raises hraises hfault
    | cons c others =>
        -- the exception is on its way to the activation
        have hsome : passed ≠ [] := by
          rw [hcases]
          nofun
        obtain ⟨entries, -, hstate⟩ :=
          (hraises.passes hpassed nofun passed [] (List.append_nil passed).symm hsome).1 hshown
        have hsound := (h.leads (leads_iterate admits σ passed.length)).sound
        rw [hstate] at hsound
        rw [← hcases]
        exact hsound.load_of_raises (.carried _ _ _) hfault
  exact spent_call hf htemps hload.1 hload.2 environment handler args σ.pending

/-- A procedure that has `write` as its recovery procedure when it calls another one. -/
def guard : Ir.Procedure where
  name := "guard"
  namespaceName := ""
  params := []
  locals := []
  statics := []
  variadic := false
  temps := 2
  entry := "start"
  chunks :=
    [⟨"start", [.name 0 "write", .recover 0, .name 1 "thrower", .call ⟨none, none, none⟩ 1 [] [], .fail]⟩]
  deps := []

end Course

end Recovery

end GoalDirected
