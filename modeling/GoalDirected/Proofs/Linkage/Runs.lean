import GoalDirected.Proofs.Linkage.Fits
import GoalDirected.Proofs.Machine.Slots

/-!
# Linked code runs within its labels and slots

**Input.** A session that moves have led to: procedures have been linked, frames made, runs started from
declared labels, and continuations kept and resumed, in any order.

**Invariant.** `Machine.Linked`, from `GoalDirected.Proofs.Linkage.Fits`.

**Argument.** Every component of a step (`jump`, `call`, `fault`, `deliver` and so on) leads from a linked
store and contexts that fit it to a linked state; so does a step (`Machine.Linked.step`), and so does
every move of a session (`Session.Linked.move`).

**Results.** `reachable_within_link`: in every reachable session each label that is looked up is declared,
each slot that is used is a slot of its frame, frames keep their code and the number of their
temporaries, and neither of the two malfunctions is raised.
-/

namespace GoalDirected

section Runs

namespace Machine

/-! ## Components of a step -/

/-- A linked store, below contexts that fit it. -/
structure Ready (s : Store) (stack : List Context) : Prop where
  store : s.Linked
  stack : ∀ c ∈ stack, c.Fits s

/-- A linked state in which the frames of an earlier store have kept their code. -/
structure Continues (s : Store) (m : Machine) : Prop where
  linked : m.Linked
  keeps : s.Keeps m.store

variable {s t : Store} {stack : List Context} {m : Machine}

theorem Ready.mono
    (h : Ready s stack)
    (ht : t.Linked ∧ s.Keeps t) :
    Ready t stack :=
  ⟨ht.1, fun c hc => (h.stack c hc).mono ht.2⟩

theorem Ready.push
    {c : Context}
    (h : Ready s stack)
    (hc : c.Fits s) :
    Ready s (c :: stack) := by
  refine ⟨h.store, ?_⟩
  intro other hother
  rcases List.mem_cons.mp hother with rfl | hother
  · exact hc
  · exact h.stack other hother

theorem Ready.continues
    {control : Control}
    (h : Ready s stack)
    (hcontrol : control.Fits s) :
    Continues s ⟨s, stack, control⟩ :=
  ⟨⟨h.store, h.stack, hcontrol⟩, Store.Keeps.refl s⟩

theorem Continues.of_keeps
    (hkeeps : s.Keeps t)
    (h : Continues t m) :
    Continues s m :=
  ⟨h.linked, hkeeps.trans h.keeps⟩

theorem Ready.fail
    (h : Ready s stack) :
    Continues s ⟨s, stack, .returning .fail⟩ :=
  h.continues (Outcome.fits_of_isDetached (Outcome.isDetached_of_next?_eq_none rfl))

theorem Ready.raise
    {f : Fault}
    (h : Ready s stack)
    (hf : ¬ f.IsLinkage) :
    Continues s (Machine.raise s stack f) :=
  h.continues hf

theorem Ready.halt
    (h : Ready s stack)
    (reason : Halt) :
    Continues s (Machine.halt s stack reason) := by
  unfold Machine.halt
  split
  · rename_i id rest hconsumer
    have hset := h.store.setProducer id (p := .ended) trivial
    obtain ⟨before, rfl⟩ := exists_of_innermostConsumer? hconsumer
    have hrest : Ready s rest := ⟨h.store, fun c hc => h.stack c (by simp [hc])⟩
    exact (hrest.mono hset).fail.of_keeps hset.2
  · exact h.continues trivial

theorem Ready.leave
    {r : Raised}
    (h : Ready s stack)
    (frame : Nat)
    (hr : ¬ r.fault.IsLinkage) :
    Continues s (Machine.leave s stack frame r) := by
  rcases Machine.leave_cases s stack frame r with ⟨trace, heq⟩ | heq <;> rw [heq] <;> exact h.continues hr

theorem argumentFault?_eq_some
    {code : Code} {args : List Value} {names : List String} {f : Fault}
    (h : code.argumentFault? args names = some f) :
    ¬ f.IsLinkage := by
  unfold Code.argumentFault? at h
  split at h
  · cases h
    exact id
  · obtain ⟨entry, -, rfl⟩ := Option.map_eq_some_iff.mp h
    exact id

theorem Ready.enter
    {p : Procedure}
    (h : Ready s stack)
    (hp : p.IsLinked)
    (environment : Environment) (args : List Value) (names : List String) :
    Continues s (Machine.enter s stack environment p args names) := by
  unfold Machine.enter
  split
  · rename_i hfault
    exact h.raise (argumentFault?_eq_some hfault)
  · obtain ⟨body, hbody, hfits⟩ := hp.isChecked.chunk? hp.isChecked.entry
    have hbind := h.store.of_activity (s.activity_bindArguments p.code args names)
    have hframe := hbind.1.newFrame
      (Frame.fits_new hp environment args (s.bindArguments p.code args names).1)
    simp only [hbody]
    refine (((h.mono hbind).mono hframe).continues ?_).of_keeps (hbind.2.trans hframe.2)
    exact ⟨p.code, by simp [Store.code?, Store.newFrame, Frame.new], hfits⟩

theorem Ready.reply
    {r : Reply}
    (h : Ready s stack)
    (hr : r.IsPlain) :
    Continues s (Machine.reply s stack r) := by
  cases r with
  | outcome o => exact h.continues (Outcome.fits_of_isDetached hr)
  | fault f => exact h.raise hr
  | halt reason => exact h.halt reason

theorem Ready.call
    (h : Ready s stack)
    (environment : Environment) (callee : Value) (args : List Value) (names : List String) :
    Continues s (Machine.call s stack environment callee args names) := by
  have hcalled := Machine.called_call s stack environment callee args names
  generalize Machine.call s stack environment callee args names = m at hcalled ⊢
  cases hcalled with
  | procedure hcallee hcallable =>
      exact h.enter (h.store.callables _ (Array.mem_of_getElem? hcallable)) environment args names
  | misfit hconstruct => exact h.raise (Store.construct_eq_error hconstruct)
  | record hconstruct =>
      have hactivity := h.store.of_activity (Store.activity_construct hconstruct)
      refine ((h.mono hactivity).continues ?_).of_keeps hactivity.2
      exact Outcome.fits_of_isDetached (Outcome.isDetached_of_next?_eq_none rfl)
  | @builtin _ b =>
      have hstore : (s.builtin b (args.map s.deref)).2.Linked ∧ s.Keeps (s.builtin b (args.map s.deref)).2 := by
        rcases s.activity_builtin b (args.map s.deref) with hactivity | ⟨-, id, -, -, hended⟩
        · exact h.store.of_activity hactivity
        · rw [hended]
          exact h.store.endProducer id
      exact ((h.mono hstore).reply (s.isPlain_builtin b _)).of_keeps hstore.2
  | _ => exact h.raise id

/-- A fault that is none of linking's goes to a recovery procedure or out of the activation. -/
theorem Ready.fault
    {r : Raised}
    (h : Ready s stack)
    (frame : Nat)
    (hr : ¬ r.fault.IsLinkage) :
    Continues s (Machine.fault s stack frame r) := by
  unfold Machine.fault
  split
  · exact Ready.continues ⟨h.store, fun c hc => h.stack c (List.mem_cons_of_mem _ hc)⟩ hr
  · rename_i f cause offending _ hframe _
    have hfits := h.store.frames frame f hframe
    dsimp only
    split
    · rename_i handler _
      have hset := h.store.setFrame (g := { f with
          offender := f.offender.or offending.head?, recovery := none }) hframe rfl
        (hfits.of_temps_eq rfl rfl)
      have hrecovering : (Context.recovering frame).Fits s :=
        ⟨f.procedure.code, by simp [Store.code?, hframe]⟩
      exact (((h.mono hset).push (hrecovering.mono hset.2)).call f.environment handler
        (cause.value :: offending) []).of_keeps hset.2
    · have hset := h.store.setFrame (g := { f with
          offender := f.offender.or offending.head? }) hframe rfl
        (hfits.of_temps_eq rfl rfl)
      exact ((h.mono hset).leave frame hr).of_keeps hset.2
  · exact h.leave frame hr

theorem Ready.jump
    {frame : Nat} {label : Ir.Label}
    (h : Ready s stack)
    (hlabel : s.Declares frame label) :
    Continues s (Machine.jump s stack frame label) := by
  unfold Machine.jump
  split
  · exact h.fail
  · rename_i f hframe
    obtain ⟨code, hcode, hdeclared⟩ := hlabel
    simp only [Store.code?, hframe, Option.map_some, Option.some.injEq] at hcode
    subst hcode
    obtain ⟨body, hbody, hfits⟩ := (h.store.frames frame f hframe).checked.chunk? hdeclared
    simp only [hbody]
    exact h.continues ⟨f.procedure.code, by simp [Store.code?, hframe], hfits⟩

theorem Ready.failed
    {frame : Nat} {onFail : Option Ir.Label}
    (h : Ready s stack)
    (hlabel : ∀ label ∈ onFail, s.Declares frame label) :
    Continues s (Machine.failed s stack frame onFail) := by
  cases onFail with
  | none => exact h.fail
  | some label => exact h.jump (hlabel label rfl)

/-- Storing the parts of an outcome that fits leaves the frame fitting. -/
theorem fits_storeOutcome
    {f g : Frame} {d : Ir.Destination} {o : Outcome}
    (hf : f.Fits s)
    (ho : o.Fits s)
    (h : storeOutcome f d o = .ok g) :
    g.Fits s := by
  have hreceives := receives_storeOutcome h
  refine ⟨by rw [hreceives.procedure]; exact hf.checked, ?_, ?_⟩
  · rw [hreceives.size, hreceives.procedure]
    exact hf.size
  · intro slot t ht
    rw [hreceives.procedure]
    rcases hreceives.temps slot t ht with hold | hputs | ⟨k, hk, rfl⟩
    · exact hf.temps slot t hold
    · cases t with
      | label l => cases hputs
      | next k => exact absurd hputs id
      | value v => trivial
      | empty => trivial
    · exact ho k hk

theorem Ready.deliver
    {frame : Nat} {label : Ir.Label} {rest : List Ir.Instruction} {d : Ir.Destination} {o : Outcome}
    (h : Ready s stack)
    (hcontext : (Context.awaiting frame label rest d).Fits s)
    (ho : o.Fits s) :
    Continues s (Machine.deliver s stack frame label rest d o) := by
  obtain ⟨code, hcode, hrest, hd⟩ := hcontext
  unfold Machine.deliver
  split
  · exact h.fail
  · rename_i f hframe
    have hfits := h.store.frames frame f hframe
    obtain rfl : f.procedure.code = code := by simpa [Store.code?, hframe] using hcode
    cases hstored : storeOutcome f d o with
    | error m =>
        obtain ⟨slot, hslot, hsize⟩ := storeOutcome_eq_error hstored
        have hlt := hd.slots slot hslot
        rw [← hfits.size] at hlt
        exact absurd hlt (Nat.not_lt.mpr hsize)
    | ok g =>
        have hreceives := receives_storeOutcome hstored
        have hset := h.store.setFrame hframe hreceives.procedure (fits_storeOutcome hfits ho hstored)
        have hcode' := hset.2.code frame _ hcode
        have hruns : (Control.running frame label rest).Fits (s.setFrame frame g) :=
          ⟨_, hcode', hrest⟩
        cases o with
        | fail =>
            refine ((h.mono hset).failed ?_).of_keeps hset.2
            exact fun label hlabel => ⟨_, hcode', hd.onFail (by simpa using hlabel)⟩
        | result v => exact ((h.mono hset).continues hruns).of_keeps hset.2
        | suspended v k => exact ((h.mono hset).continues hruns).of_keeps hset.2

theorem Ready.resume
    {k : Continuation}
    (h : Ready s stack)
    (hk : k.Fits s) :
    Continues s (Machine.resume s stack k) := by
  cases k with
  | activation frame label => exact h.jump hk
  | elements list position =>
      exact h.continues (Outcome.fits_of_isDetached (isDetached_elementsFrom s list position))
  | values rest => exact h.continues (Outcome.fits_of_isDetached (isDetached_valuesFrom rest))
  | count low high => exact h.continues (Outcome.fits_of_isDetached (isDetached_countFrom low high))

theorem Ready.activate
    (h : Ready s stack)
    (id : Nat) :
    Continues s (Machine.activate s stack id) := by
  have hproducer := h.store.producer id
  have hset := h.store.setProducer id (p := .running) trivial
  have hready : s.producer id ≠ .ended →
      Ready (s.setProducer id .running) (.consuming id :: stack) := by
    intro hne
    have hid : id ≤ (s.setProducer id .running).producers.size := by
      rw [Store.size_producers_setProducer]
      exact Nat.le_of_not_lt fun hlt => hne (Store.producer_eq_ended hlt)
    exact (h.mono hset).push (c := .consuming id) hid
  unfold Machine.activate
  split
  · rename_i hfresh
    rw [hfresh] at hproducer
    exact ((hready (by simp [hfresh])).jump (Store.Declares.mono hset.2 hproducer)).of_keeps hset.2
  · rename_i hwaiting
    rw [hwaiting] at hproducer
    exact ((hready (by simp [hwaiting])).jump (Store.Declares.mono hset.2 hproducer)).of_keeps hset.2
  · exact h.halt .blocked
  · exact h.fail

theorem Ready.invoke
    (h : Ready s stack)
    (op : String) (args : List Value) :
    Continues s (Machine.invoke s stack op args) := by
  have hactivity := h.store.of_activity (s.activity_invoke op args)
  unfold Machine.invoke
  split
  · rename_i r t hreply
    rw [hreply] at hactivity
    exact ((h.mono hactivity).reply (Store.isPlain_invoke (by rw [hreply]))).of_keeps hactivity.2
  · rename_i id t hactivate
    rw [hactivate] at hactivity
    exact ((h.mono hactivity).activate id).of_keeps hactivity.2

theorem Ready.start
    (h : Ready s stack)
    (environment : Environment) (q : Request) :
    Continues s (q.start s stack environment) := by
  cases q with
  | call callee args names => exact h.call environment callee args names
  | operator op args => exact h.invoke op args

/-- An effect whose labels and slots fit the code of the frame, and that raises no fault of linking. -/
theorem Ready.perform
    {frame : Nat} {code : Code} {label : Ir.Label} {rest : List Ir.Instruction}
    {environment : Environment} {e : Effect}
    (h : Ready s stack)
    (hcode : s.code? frame = some code)
    (hrest : ∀ i ∈ rest, i.Fits code)
    (hlabels : e.labels ⊆ code.labels)
    (hslots : ∀ slot ∈ e.slots, slot < code.temps)
    (hresumes : ∀ d k, e = .resume d (some k) → k.Fits s)
    (hfaults : ∀ f, e = .fault f → ¬ f.IsLinkage) :
    Continues s (Machine.perform s stack frame label rest environment e) := by
  have hawaiting : ∀ d : Ir.Destination, d.onFail.toList ⊆ code.labels →
      (∀ slot ∈ d.slots, slot < code.temps) →
      Ready s (.awaiting frame label rest d :: stack) := fun d honFail hd =>
    h.push (c := .awaiting frame label rest d) ⟨code, hcode, hrest, honFail, hd⟩
  cases e with
  | next =>
      have hruns : (Control.running frame label rest).Fits s := ⟨code, hcode, hrest⟩
      exact h.continues hruns
  | goto target => exact h.jump ⟨code, hcode, hlabels List.mem_cons_self⟩
  | failed onFail =>
      exact h.failed fun label hlabel => ⟨code, hcode, hlabels (by simpa [Effect.labels] using hlabel)⟩
  | succeed v again =>
      cases again with
      | none =>
          exact h.continues (Outcome.fits_of_isDetached (Outcome.isDetached_of_next?_eq_none rfl))
      | some again =>
          have hfits : (Outcome.suspended v (.activation frame again)).Fits s := by
            intro k hk
            cases hk
            exact ⟨code, hcode, hlabels List.mem_cons_self⟩
          exact h.continues hfits
  | call d callee args names => exact (hawaiting d hlabels hslots).call environment callee args names
  | operator d op args => exact (hawaiting d hlabels hslots).invoke op args
  | resume d k =>
      cases k with
      | none => exact (hawaiting d hlabels hslots).fail
      | some k => exact (hawaiting d hlabels hslots).resume (hresumes d k rfl)
  | produce v again =>
      simp only [Machine.perform]
      split
      · rename_i id below
        have hset := h.store.setProducer id (p := .waiting frame again)
          ⟨code, hcode, hlabels List.mem_cons_self⟩
        have hbelow : Ready s below := ⟨h.store, fun c hc => h.stack c (List.mem_cons_of_mem _ hc)⟩
        refine ((hbelow.mono hset).continues ?_).of_keeps hset.2
        exact Outcome.fits_of_isDetached (Outcome.isDetached_of_next?_eq_none rfl)
      · exact h.fault frame id
  | exhaust =>
      simp only [Machine.perform]
      split
      · exact h.fail
      · exact h.fault frame id
  | halt reason => exact h.halt reason
  | fault f => exact h.fault frame (hfaults f rfl)

theorem Ready.advance
    {frame : Nat} {label : Ir.Label} {rest : List Ir.Instruction}
    (h : Ready s stack)
    (hruns : s.Runs frame rest) :
    Continues s (Machine.advance s stack frame label rest) := by
  obtain ⟨code, hcode, hrest⟩ := hruns
  unfold Machine.advance
  split
  · exact h.fail
  · exact h.fault frame id
  · rename_i f i rest' hframe
    have hfits := h.store.frames frame f hframe
    obtain rfl : f.procedure.code = code := by simpa [Store.code?, hframe] using hcode
    have hi := hrest i List.mem_cons_self
    have hexecutes := s.executes_execute f i
    obtain ⟨hlinked, hkeeps, hfits'⟩ := h.store.execute hfits hi
    have hset := hlinked.setFrame (Store.getElem?_frames_execute s f i hframe)
      hexecutes.follows.procedure hfits'
    have hstore := hkeeps.trans hset.2
    refine (((h.mono ⟨hlinked, hkeeps⟩).mono hset).perform (hstore.code frame _ hcode) ?_ ?_ ?_ ?_
      ?_).of_keeps hstore
    · exact fun i hi => hrest i (List.mem_cons_of_mem _ hi)
    · exact fun label hlabel => hi.labels (hexecutes.labels hlabel)
    · exact fun slot hslot => hi.slots slot (hexecutes.slots hslot)
    · intro d k hk
      obtain ⟨slot, hslot⟩ := hexecutes.resumes d k hk
      exact Continuation.Fits.mono hstore (hfits.temps slot _ hslot)
    · intro fault hfault hlinkage
      cases fault with
      | exception cause offending => exact hlinkage
      | malfunction m =>
          obtain ⟨slot, hslot, hsize⟩ := hexecutes.faults m hfault hlinkage
          have hlt := hi.slots slot hslot
          rw [← hfits.size] at hlt
          exact absurd hlt (Nat.not_lt.mpr hsize)

theorem Ready.returnTo
    {c : Context} {o : Outcome}
    (h : Ready s (c :: stack))
    (ho : o.Fits s) :
    Continues s (Machine.returnTo s o stack c) := by
  have hbelow : Ready s stack := ⟨h.store, fun d hd => h.stack d (List.mem_cons_of_mem _ hd)⟩
  cases c with
  | awaiting frame label rest d => exact hbelow.deliver (h.stack _ List.mem_cons_self) ho
  | recovering frame => exact hbelow.continues ho
  | bare => exact hbelow.continues ho
  | consuming id =>
      have hend := h.store.endProducer id
      refine ((hbelow.mono hend).continues ?_).of_keeps hend.2
      refine Outcome.fits_of_isDetached (Outcome.isDetached_of_next?_eq_none ?_)
      cases o <;> rfl

theorem Ready.raiseTo
    {c : Context} {r : Raised}
    (h : Ready s (c :: stack))
    (hr : ¬ r.fault.IsLinkage) :
    Continues s (Machine.raiseTo s r stack c) := by
  have hbelow : Ready s stack := ⟨h.store, fun d hd => h.stack d (List.mem_cons_of_mem _ hd)⟩
  cases c with
  | awaiting frame label rest d => exact hbelow.fault frame hr
  | recovering frame => exact hbelow.leave frame hr
  | bare => exact hbelow.continues hr
  | consuming id =>
      have hend := h.store.endProducer id
      have hraising : (Control.raising (r.leave (Store.producerEntry id))).Fits (s.endProducer id) :=
        hr
      exact ((hbelow.mono hend).continues hraising).of_keeps hend.2

/-- A step leads from a linked state to a linked state. -/
theorem Linked.step
    (h : m.Linked) :
    Continues m.store m.step := by
  obtain ⟨s, stack, control⟩ := m
  have hready : Ready s stack := ⟨h.store, h.stack⟩
  cases control with
  | running frame label rest => exact hready.advance h.control
  | returning o =>
      cases stack with
      | nil => exact hready.continues h.control
      | cons c stack => exact hready.returnTo h.control
  | raising r =>
      cases stack with
      | nil => exact hready.continues h.control
      | cons c stack => exact hready.raiseTo h.control
  | halted reason => exact hready.continues trivial
  | aborted r => exact hready.continues h.control

/-- Slots that fit the code of a frame are slots of the frame. -/
theorem lt_of_within
    {α : Type} {x : Noted α} {f : Frame} {slots : List Ir.Slot}
    (hf : f.Fits s)
    (hslots : ∀ slot ∈ slots, slot < f.procedure.code.temps)
    (hx : x.Within slots f.temps.size) :
    ∀ a ∈ x.accesses, a.slot < a.size := by
  intro a ha
  obtain ⟨hslot, hsize⟩ := hx a ha
  rw [hsize, hf.size]
  exact hslots a.slot hslot

/-- The slots that the next step of a linked state uses are slots of the frames they are used of. -/
theorem Linked.stepNoted
    (h : m.Linked) :
    ∀ a ∈ m.stepNoted.accesses, a.slot < a.size := by
  obtain ⟨s, stack, control⟩ := m
  cases control with
  | running frame label rest =>
      obtain ⟨code, hcode, hrest⟩ := h.control
      simp only [Machine.stepNoted, advanceNoted]
      split
      · rintro a ⟨⟩
      · rintro a ⟨⟩
      · rename_i f i rest' hframe
        obtain rfl : f.procedure.code = code := by simpa [Store.code?, hframe] using hcode
        refine lt_of_within (h.store.frames frame f hframe) (hrest i List.mem_cons_self).slots ?_
        exact Noted.within_bind (s.within_executeNoted f i) (Noted.within_pure _ _ _)
  | returning o =>
      cases stack with
      | nil => rintro a ⟨⟩
      | cons c stack =>
          cases c with
          | awaiting frame label rest d =>
              obtain ⟨code, hcode, -, hd⟩ := h.stack _ List.mem_cons_self
              simp only [Machine.stepNoted, deliverNoted]
              split
              · rintro a ⟨⟩
              · rename_i f hframe
                obtain rfl : f.procedure.code = code := by simpa [Store.code?, hframe] using hcode
                refine lt_of_within (h.store.frames frame f hframe) hd.slots ?_
                refine Noted.within_bind (within_storeOutcomeNoted f d o) ?_
                split <;> exact Noted.within_pure _ _ _
          | recovering frame => rintro a ⟨⟩
          | consuming id => rintro a ⟨⟩
          | bare => rintro a ⟨⟩
  | raising r => cases stack <;> rintro a ⟨⟩
  | halted reason => rintro a ⟨⟩
  | aborted r => rintro a ⟨⟩

/-! ## Lookups -/

/-- The state has come out of looking up a label in code: by a jump, or by entering a procedure. These
are the two places where a label is handed to `Code.chunk?`. -/
inductive Looks : Code → Ir.Label → Machine → Prop
  | jump
      {s : Store} {frame : Nat} {f : Frame}
      (hframe : s.frames[frame]? = some f)
      (stack : List Context) (label : Ir.Label) :
      Looks f.procedure.code label (Machine.jump s stack frame label)
  | enter
      {p : Procedure} {args : List Value} {names : List String}
      (hargs : p.code.argumentFault? args names = none)
      (s : Store) (stack : List Context) (environment : Environment) :
      Looks p.code p.code.entry (Machine.enter s stack environment p args names)

/-- Looking up a label that is not declared ends in a malfunction of linking. -/
theorem Looks.not_fits
    {code : Code} {label : Ir.Label}
    (h : Looks code label m)
    (hlabel : code.chunk? label = none) :
    ¬ m.control.Fits m.store := by
  have hleave : ∀ (s : Store) (stack : List Context) (frame : Nat) {r : Raised}, r.fault.IsLinkage →
      ¬ (Machine.leave s stack frame r).control.Fits (Machine.leave s stack frame r).store := by
    intro s stack frame r hr
    rcases Machine.leave_cases s stack frame r with ⟨trace, heq⟩ | heq <;> rw [heq] <;> exact not_not_intro hr
  cases h with
  | jump hframe stack label =>
      simp only [Machine.jump, hframe, hlabel, Machine.malfunction, Machine.fault]
      split
      · exact not_not_intro trivial
      · rename_i heq
        cases heq
      · exact hleave _ _ _ trivial
  | enter hargs s stack environment =>
      simp only [Machine.enter, hargs, hlabel]
      exact hleave _ _ _ trivial

end Machine

/-! ## Sessions -/

namespace Session

/-- The machine is linked, and what the host holds fits its store. -/
structure Linked (σ : Session) : Prop where
  machine : σ.machine.Linked
  held : ∀ k ∈ σ.held, k.Fits σ.machine.store
  own : ∀ n ∈ σ.own, ∃ code, σ.machine.store.code? n = some code

theorem linked_new (maxTasks : Nat) : (Session.new maxTasks).Linked := by
  have hprepares := prepares_new maxTasks
  have hempty : Store.Linked
      { nodes := #[⟨0, []⟩], namespaces := #[⟨"", []⟩], limit := max 1 maxTasks } :=
    ⟨by simp, by simp, by simp⟩
  refine ⟨⟨(hempty.prepare hprepares).1, by simp [Session.new], ?_⟩, by simp [Session.new],
    by simp [Session.new]⟩
  exact Outcome.fits_of_isDetached (Outcome.isDetached_of_next?_eq_none rfl)

/-- What the host holds still fits after a component of a step. -/
theorem Linked.of_continues
    {σ : Session} {m : Machine} {held : List Continuation} {own : List Nat}
    (h : σ.Linked)
    (hm : Machine.Continues σ.machine.store m)
    (hheld : held ⊆ σ.held)
    (hown : own ⊆ σ.own) :
    Linked ⟨m, held, own⟩ ∧ σ.machine.store.Keeps m.store := by
  refine ⟨⟨hm.linked, fun k hk => (h.held k (hheld hk)).mono hm.keeps, ?_⟩, hm.keeps⟩
  intro n hn
  obtain ⟨code, hcode⟩ := h.own n (hown hn)
  exact ⟨code, hm.keeps.code n code hcode⟩

/-- While nothing runs the host may replace the store by one that keeps the code of frames. -/
theorem Linked.of_store
    {s t : Store} {control : Control} {held : List Continuation} {own : List Nat}
    (h : Linked ⟨⟨s, [], control⟩, held, own⟩)
    (ht : t.Linked ∧ s.Keeps t) :
    Linked ⟨⟨t, [], control⟩, held, own⟩ ∧ s.Keeps t := by
  refine ⟨⟨⟨ht.1, by simp, h.machine.control.mono ht.2⟩, ?_, ?_⟩, ht.2⟩
  · exact fun k hk => (h.held k hk).mono ht.2
  · intro n hn
    obtain ⟨code, hcode⟩ := h.own n hn
    exact ⟨code, ht.2.code n code hcode⟩

/-- The host may add a frame of its own. -/
theorem Linked.of_newFrame
    {s t : Store} {control : Control} {held : List Continuation} {own : List Nat} {f : Frame}
    (h : Linked ⟨⟨s, [], control⟩, held, own⟩)
    (ht : t.Linked ∧ s.Keeps t)
    (hsize : t.frames.size = s.frames.size)
    (hf : f.Fits t) :
    Linked ⟨⟨(t.newFrame f).2, [], control⟩, held, s.frames.size :: own⟩ ∧
      s.Keeps (t.newFrame f).2 := by
  have hnew := ht.1.newFrame hf
  obtain ⟨hlinked, hkeeps⟩ := h.of_store ⟨hnew.1, ht.2.trans hnew.2⟩
  refine ⟨⟨hlinked.machine, hlinked.held, ?_⟩, hkeeps⟩
  intro n hn
  rcases List.mem_cons.mp hn with rfl | hn
  · exact ⟨f.procedure.code, by simp [Store.code?, Store.newFrame, ← hsize]⟩
  · exact hlinked.own n hn

/-- Every move keeps sessions linked, and leaves the frames their code. -/
theorem Linked.move
    {σ τ : Session} {q : Option (Store × Request)}
    (h : σ.Linked)
    (hmove : Move σ q τ) :
    τ.Linked ∧ σ.machine.store.Keeps τ.machine.store := by
  have hready : Machine.Ready σ.machine.store [] := ⟨h.machine.store, by simp⟩
  cases hmove with
  | step m held own =>
      exact h.of_continues h.machine.step (List.Subset.refl held) (List.Subset.refl own)
  | prepare hidle hprepares => exact h.of_store (h.machine.store.prepare hprepares)
  | keep s v k held own =>
      have hk : k.Fits s := h.machine.control k rfl
      refine ⟨⟨⟨h.machine.store, by simp, ?_⟩, ?_, h.own⟩, Store.Keeps.refl s⟩
      · exact Outcome.fits_of_isDetached (Outcome.isDetached_of_next?_eq_none rfl)
      · intro k' hk'
        rcases List.mem_cons.mp hk' with rfl | hk'
        · exact hk
        · exact h.held k' hk'
  | request hidle environment q =>
      exact h.of_continues (hready.start environment q) (List.Subset.refl _) (List.Subset.refl _)
  | resume hidle before k after =>
      exact h.of_continues (hready.resume (h.held k (by simp))) (by simp) (List.Subset.refl _)
  | enter hidle hlinked environment args names =>
      exact h.of_continues (hready.enter hlinked environment args names)
        (List.Subset.refl _) (List.Subset.refl _)
  | make hidle hlinked environment args vars =>
      exact h.of_newFrame ⟨h.machine.store, Store.Keeps.refl _⟩ rfl
        (Frame.fits_new hlinked environment args vars)
  | @copy s control held own n f hidle hown hframe environment =>
      have hactivity := h.machine.store.of_activity (s.activity_duplicateFrame f environment)
      have hcopy := ((h.machine.store.frames n f hframe).of_follows (List.nil_subset _)
        (Store.follows_duplicateFrame s f environment).1).mono hactivity.2
      have hframes := Store.frames_eq_of_activity (s.activity_duplicateFrame f environment)
      exact h.of_newFrame hactivity (congrArg Array.size hframes) hcopy
  | @run s control held own n f label hidle hown hframe hlabel =>
      have hdeclares : s.Declares n label :=
        ⟨f.procedure.code, by simp [Store.code?, hframe], hlabel⟩
      exact h.of_continues ((hready.push (c := .bare) trivial).jump hdeclares)
        (List.Subset.refl _) (List.Subset.refl _)
  | @activate s control held n f label hidle before after hframe hlabel =>
      have hdeclares : s.Declares n label :=
        ⟨f.procedure.code, by simp [Store.code?, hframe], hlabel⟩
      exact h.of_continues (hready.jump hdeclares) (List.Subset.refl _) (by simp)

theorem Reachable.linked
    {σ : Session}
    (h : Reachable σ) :
    σ.Linked :=
  h.invariant linked_new fun _ _ _ hσ hmove => (hσ.move hmove).1

/-- Along any sequence of moves frames keep their code. -/
theorem Linked.keeps
    {σ τ : Session}
    (h : σ.Linked)
    (hmoves : Relation.ReflTransGen Leads σ τ) :
    τ.Linked ∧ σ.machine.store.Keeps τ.machine.store := by
  induction hmoves with
  | refl => exact ⟨h, Store.Keeps.refl _⟩
  | tail _ hlast ih =>
      obtain ⟨q, hmove⟩ := hlast
      obtain ⟨hlinked, hkeeps⟩ := ih.1.move hmove
      exact ⟨hlinked, ih.2.trans hkeeps⟩

/-- Linking is sound for execution. From every reachable session, along any further moves: frames keep
their code and the number of temporaries that it asks for, every label that is looked up is declared,
every slot that the next step uses is a slot of the frame it is used of, and no malfunction of linking is
raised. -/
theorem reachable_within_link
    {σ τ : Session}
    (h : Reachable σ)
    (hmoves : Relation.ReflTransGen Leads σ τ) :
    (∀ (n : Nat) (f : Frame), σ.machine.store.frames[n]? = some f →
      ∃ g, τ.machine.store.frames[n]? = some g ∧ g.procedure.code = f.procedure.code ∧
        f.temps.size = f.procedure.code.temps ∧ g.temps.size = f.temps.size) ∧
    (∀ code label, Machine.Looks code label τ.machine → (code.chunk? label).isSome = true) ∧
    (∀ a ∈ τ.machine.stepNoted.accesses, a.slot < a.size) ∧
    (∀ r, τ.machine.control = .raising r → ¬ r.fault.IsLinkage) := by
  obtain ⟨hlinked, hkeeps⟩ := h.linked.keeps hmoves
  have hraising : ∀ r, τ.machine.control = .raising r → ¬ r.fault.IsLinkage := by
    intro r hr
    have hfits := hlinked.machine.control
    rw [hr] at hfits
    exact hfits
  refine ⟨?_, ?_, hlinked.machine.stepNoted, hraising⟩
  · intro n f hf
    have hsize := (h.linked.machine.store.frames n f hf).size
    obtain ⟨g, hg, hcode⟩ := Option.map_eq_some_iff.mp
      (hkeeps.code n f.procedure.code (by simp [Store.code?, hf]))
    refine ⟨g, hg, hcode, hsize, ?_⟩
    rw [(hlinked.machine.store.frames n g hg).size, hcode, hsize]
  · intro code label hlooks
    cases hchunk : code.chunk? label with
    | some body => rfl
    | none => exact absurd hlinked.machine.control (hlooks.not_fits hchunk)

/-- A procedure that creates a co-expression, stores a label and jumps to it, and then hands on what
the co-expression produces, one value at a time. -/
def relay : Ir.Procedure where
  name := "relay"
  namespaceName := ""
  params := []
  locals := []
  statics := []
  variadic := false
  temps := 3
  entry := "start"
  chunks :=
    [⟨"start", [.moveLabel 0 "next", .create 1 "body", .indirect 0 ["next"]]⟩,
      ⟨"next", [.operator ⟨some 2, none, some "done"⟩ "@" [1], .succeed (some 2) (some "next")]⟩,
      ⟨"body", [.literal 0 (.text "a"), .produce 0 "body"]⟩,
      ⟨"done", [.fail]⟩]
  deps := []

/-- A new program at the start of a procedure without parameters. -/
def started (code : Code) : Machine :=
  Machine.enter (Program.new 1).store [] Program.rootEnvironment ⟨code, [], 0⟩ [] []

theorem reachable_started
    {ir : Ir.Procedure} {code : Code}
    (h : ir.link = .ok code) :
    Reachable ⟨started code, [], []⟩ :=
  (Reachable.new 1).move (.enter rfl ⟨ir, h⟩ Program.rootEnvironment [] [])

/-- The first steps of `relay`, up to the point where its co-expression is about to produce. -/
theorem reachable_within_link_relay :
    ∃ code, relay.link = .ok code ∧ Reachable ⟨started code, [], []⟩ ∧
      ((started code).run 5).store.producers.size = 1 ∧
      ∀ a ∈ ((started code).run 5).stepNoted.accesses, a.slot < a.size := by
  have hreachable := fun code (hcode : relay.link = .ok code) => reachable_started hcode
  refine ⟨_, rfl, hreachable _ rfl, by decide +kernel, ?_⟩
  exact (reachable_within_link (hreachable _ rfl) (leads_run _ [] [] 5)).2.2.1

end Session

end Runs

end GoalDirected
