import GoalDirected.Proofs.Coexpression.Coupling
import GoalDirected.Proofs.Linkage.Runs

/-!
# Delivery by co-expressions

**Input.** A co-expression `c` with frame `p`, from the step that creates it on, along any sequence of
moves: activations and closes through any handle, and everything else that programs and hosts do.

**Argument.** Every step from a coupled state shows events that the automaton of the law can follow, to a
phase that the new state is coupled to (`Coupled.step`).  What the host holds does not refer to the frame
either, so the same is true of its acts (`Attends.move`).  When the co-expression is created its frame is
new, and in a linked session nothing refers to a frame that does not exist yet (`attends_of_creates`).

**Results.** `lawful_of_run`: the events of every run are lawful.
-/

namespace GoalDirected

section Delivery

/-! ## Frames that do not exist yet -/

theorem Store.ne_size_of_code?
    {s : Store} {frame : Nat} {code : Code}
    (h : s.code? frame = some code) :
    frame ≠ s.frames.size := by
  rintro rfl
  simp [Store.code?] at h

theorem Store.Declares.ne_size
    {s : Store} {frame : Nat} {label : Ir.Label}
    (h : s.Declares frame label) :
    frame ≠ s.frames.size := by
  obtain ⟨code, hcode, -⟩ := h
  exact ne_size_of_code? hcode

theorem Continuation.Fits.avoids
    {s : Store} {k : Continuation}
    (h : k.Fits s) :
    k.Avoids s.frames.size := by
  cases k with
  | activation frame label => exact Store.Declares.ne_size h
  | elements list position => trivial
  | values rest => trivial
  | count low high => trivial

theorem Frame.Fits.avoids
    {s : Store} {f : Frame}
    (h : f.Fits s) :
    f.Avoids s.frames.size := by
  intro slot x hx
  have hfits := h.temps slot x hx
  cases x with
  | next k => exact Continuation.Fits.avoids hfits
  | label l => trivial
  | value v => trivial
  | empty => trivial

theorem Producer.Fits.avoids
    {s : Store} {p : Producer}
    (h : p.Fits s) :
    p.Avoids s.frames.size := by
  cases p with
  | fresh frame label => exact Store.Declares.ne_size h
  | waiting frame label => exact Store.Declares.ne_size h
  | running => trivial
  | ended => trivial

/-- A context that fits refers neither to the next frame nor to the next co-expression. -/
theorem Context.Fits.avoids
    {s : Store} {x : Context}
    (h : x.Fits s) :
    x.Avoids (s.producers.size + 1) s.frames.size := by
  cases x with
  | awaiting frame label rest d =>
      obtain ⟨code, hcode, -⟩ := h
      exact Store.ne_size_of_code? hcode
  | recovering frame =>
      obtain ⟨code, hcode⟩ := h
      exact Store.ne_size_of_code? hcode
  | consuming id => exact Nat.ne_of_lt (Nat.lt_succ_of_le h)
  | bare => trivial

namespace Coexpression

variable {c p : Nat} {P : Producer} {s t : Store} {above base below : List Context} {m m' : Machine}
variable {q : Option (Store × Request)} {φ : Phase}

/-- What a move shows leads from a phase to one that the new state is coupled to. -/
def Accounts (c p : Nat) (φ : Phase) (m : Machine) (q : Option (Store × Request)) (m' : Machine) :
    Prop :=
  ∃ ψ, Path c φ (seen c p m q m') ψ ∧ Coupled c p ψ m'

theorem Explains.accounts
    (h : Explains c p φ q (waits c m.stack) m')
    (hacts : acts p m m'.store = []) :
    Accounts c p φ m q m' := by
  unfold Accounts seen
  rw [hacts]
  exact h

/-! ## Steps above the base -/

/-- The frame does nothing while the control is clear of it, unless its recovery procedure returns. -/
theorem acts_eq_nil
    {control : Control} {stack : List Context}
    (hcontrol : control.Avoids p)
    (hstack : ∀ rest o, stack = .recovering p :: rest → control ≠ .returning o)
    (t : Store) :
    acts p ⟨s, stack, control⟩ t = [] := by
  unfold acts
  split
  · rename_i frame label i rest heq
    cases heq
    split
    · exact if_neg hcontrol
    · rfl
  · rename_i frame rest o heq
    cases heq
    refine if_neg ?_
    rintro rfl
    exact hstack rest o rfl rfl
  · rfl

theorem acts_of_isStopped
    {control : Control} {stack : List Context}
    (hstopped : control.isStopped = true)
    (t : Store) :
    acts p ⟨s, stack, control⟩ t = [] := by
  cases control with
  | halted reason => rfl
  | aborted r => rfl
  | running frame label rest => cases hstopped
  | returning o => cases hstopped
  | raising r => cases hstopped

theorem Zone.acts
    (h : Zone c p P base m)
    (hat : ¬ AtBase base m)
    (t : Store) :
    acts p m t = [] := by
  obtain ⟨s, stack, control⟩ := m
  obtain ⟨⟨above, hstack, hclear⟩, hcontrol⟩ := h
  dsimp only at hstack hclear hcontrol
  subst hstack
  refine acts_eq_nil hcontrol ?_ t
  rintro rest o hrecovering rfl
  cases above with
  | nil =>
      have hbase : base = .recovering p :: rest := hrecovering
      exact hat ⟨rfl, by simp [hbase], rfl⟩
  | cons x above =>
      cases hrecovering
      exact hclear.above (.recovering p) List.mem_cons_self rfl

theorem accounts_inside
    (hbase : IsBase c p base)
    (hne : base ≠ [])
    (hzone : Zone c p .running base m)
    (hat : ¬ AtBase base m) :
    Accounts c p .busy m m.request? m.step := by
  refine Explains.accounts ?_ (hzone.acts hat _)
  have hproceeds := hzone.step hbase hat
  rw [hzone.waits, hbase.waits hne]
  cases hrequest : m.request? with
  | none =>
      rw [hrequest] at hproceeds
      exact hproceeds.explains_busy hbase hne rfl rfl
  | some q =>
      rw [hrequest] at hproceeds
      obtain ⟨above, environment, hstep, hclear⟩ := hproceeds
      rw [hstep]
      exact explains_start_busy hclear hbase hne environment

theorem accounts_resting
    (hresting : Resting p φ P)
    (hzone : Zone c p P [] m) :
    Accounts c p φ m m.request? m.step := by
  have hat : ¬ AtBase [] m := fun hat => hat.2.1 rfl
  refine Explains.accounts ?_ (hzone.acts hat _)
  have hproceeds := hzone.step .nil hat
  rw [hzone.waits, waits_nil]
  cases hrequest : m.request? with
  | none =>
      rw [hrequest] at hproceeds
      exact hproceeds.explains_resting hresting rfl rfl
  | some q =>
      rw [hrequest] at hproceeds
      obtain ⟨above, environment, hstep, hclear⟩ := hproceeds
      rw [hstep, List.append_nil]
      exact explains_start_resting hresting hclear environment

/-! ## Steps at the frame -/

/-- The frame executes its next instruction. -/
theorem accounts_body
    (h : Clear c p .running s below)
    (label : Ir.Label) (rest : List Ir.Instruction) :
    Accounts c p .busy ⟨s, .consuming c :: below, .running p label rest⟩
      (Machine.request? ⟨s, .consuming c :: below, .running p label rest⟩)
      (Machine.advance s (.consuming c :: below) p label rest) := by
  obtain ⟨f, hf⟩ : ∃ f, s.frames[p]? = some f :=
    ⟨_, Array.getElem?_eq_getElem h.apart.frame⟩
  cases rest with
  | nil =>
      have hlands : Lands c p (Machine.advance s (.consuming c :: below) p label []) := by
        simp only [Machine.advance, hf]
        exact Lands.malfunction h p _
      exact (hlands.explains rfl rfl _).accounts rfl
  | cons i rest =>
      obtain ⟨hset, hresumes⟩ := h.execute hf i
      obtain ⟨ψ, hpath, hcoupled⟩ :=
        explains_perform hset hresumes label rest (s.execute f i).2.1.environment
      simp only [Machine.advance, Machine.request?, hf]
      refine ⟨ψ, ?_, hcoupled⟩
      simp only [seen, acts, hf, if_true, waits_consuming]
      exact .cons (.execute i) hpath

/-- What the frame has called has an outcome. -/
theorem Lands.deliver
    {o : Outcome}
    (h : Clear c p .running s below)
    (ho : o.Avoids p)
    (label : Ir.Label) (rest : List Ir.Instruction) (d : Ir.Destination) :
    Lands c p (Machine.deliver s (.consuming c :: below) p label rest d o) := by
  unfold Machine.deliver
  split
  · exact Lands.fail h
  · rename_i f hf
    cases hstored : Machine.storeOutcome f d o with
    | error m => exact Lands.malfunction h p m
    | ok g =>
        have hset := h.storeOutcome hf ho hstored
        cases o with
        | fail => exact Lands.failed hset d.onFail
        | result v => exact Lands.body hset label rest
        | suspended v k => exact Lands.body hset label rest

/-- The recovery procedure of the frame has an outcome, which is that of the body. -/
theorem accounts_recovered
    (h : Clear c p .running s below)
    (o : Outcome) :
    Accounts c p .busy ⟨s, .recovering p :: .consuming c :: below, .returning o⟩ none
      ⟨s, .consuming c :: below, .returning o⟩ := by
  have hanswers : answers c none true ⟨s, .consuming c :: below, .returning o⟩ = [] :=
    answers_of_waits (waits_consuming c below) true
  have hwaits : waits c (.recovering p :: .consuming c :: below) = true := by simp [waits]
  cases ho : o.value? with
  | none =>
      refine ⟨.busy, ?_, .failing h ho⟩
      simp only [seen, acts, if_true, ho, hwaits, hanswers]
      exact .nil _
  | some v =>
      refine ⟨.finishing (s.deref v), ?_, .finishing h ho⟩
      simp only [seen, acts, if_true, ho, hwaits, hanswers]
      exact .single (.finish _)

/-- Something is handed to the frame, or to its recovery. -/
theorem accounts_at_base
    (hbase : IsBase c p base)
    (hzone : Zone c p .running base m)
    (hat : AtBase base m) :
    Accounts c p .busy m m.request? m.step := by
  obtain ⟨s, stack, control⟩ := m
  obtain ⟨hstack, hne, hidle⟩ := hat
  obtain ⟨⟨above, -, hclear⟩, hcontrol⟩ := hzone
  dsimp only at hstack hidle hcontrol hclear
  subst hstack
  have hwaits := hbase.waits hne
  cases hbase with
  | nil => exact absurd rfl hne
  | awaiting label rest d hbelow =>
      have hbody := hclear.beneath hbelow
      cases control with
      | returning o =>
          exact ((Lands.deliver hbody hcontrol label rest d).explains rfl rfl _).accounts rfl
      | raising r =>
          refine Explains.accounts ?_ rfl
          rw [hwaits]
          exact explains_fault hbody r
      | running frame label rest => cases hidle
      | halted reason => cases hidle
      | aborted r => cases hidle
  | recovering hbelow =>
      have hbody := hclear.beneath hbelow
      cases control with
      | returning o => exact accounts_recovered hbody o
      | raising r => exact ((Lands.leave hbody p r).explains rfl rfl _).accounts rfl
      | running frame label rest => cases hidle
      | halted reason => cases hidle
      | aborted r => cases hidle

/-! ## Steps at the consumer -/

/-- The consumer gets what the body has ended with. -/
theorem accounts_consumer
    {control control' : Control} {d : Delivery}
    (h : Clear c p .running s below)
    (hnext : Next c φ (.answered d) .over)
    (hacts : acts p ⟨s, .consuming c :: below, control⟩ (s.endProducer c) = [])
    (hd : delivery? control' = some d)
    (hcontrol : control'.Avoids p) :
    Accounts c p φ ⟨s, .consuming c :: below, control⟩ none
      ⟨s.endProducer c, below, control'⟩ := by
  refine Explains.accounts ⟨.over, ?_, h.endProducer_self.coupled_over hcontrol⟩ hacts
  rw [waits_consuming, answers_of_not_waits rfl rfl h.above hd]
  exact .single hnext

/-- A step from a coupled state shows what the law allows, and leads to a coupled state. -/
theorem Coupled.step
    (h : Coupled c p φ m) :
    Accounts c p φ m m.request? m.step := by
  cases h with
  | resting hresting hzone => exact accounts_resting hresting hzone
  | @inside base m hbase hne hzone =>
      by_cases hat : AtBase base m
      · exact accounts_at_base hbase hzone hat
      · exact accounts_inside hbase hne hzone hat
  | body hclear label rest => exact accounts_body hclear label rest
  | @failing s below o hclear ho =>
      have hstep : Machine.step ⟨s, .consuming c :: below, .returning o⟩ =
          ⟨s.endProducer c, below, .returning .fail⟩ := by
        simp only [Machine.step, Machine.returnTo, ho, Option.map_none, Outcome.ofParts]
      rw [hstep]
      exact accounts_consumer hclear .fail rfl rfl (Outcome.avoids_of_next?_eq_none rfl)
  | @finishing s below o v hclear ho =>
      have hstep : Machine.step ⟨s, .consuming c :: below, .returning o⟩ =
          ⟨s.endProducer c, below, .returning (.result (s.deref v))⟩ := by
        simp only [Machine.step, Machine.returnTo, ho, Option.map_some, Outcome.ofParts]
      rw [hstep]
      exact accounts_consumer hclear (.handLast (s.deref v)) rfl rfl
        (Outcome.avoids_of_next?_eq_none rfl)
  | breaking hclear r => exact accounts_consumer hclear (.raise r) rfl rfl trivial
  | @stopped _ control hφ hstopped s stack =>
      have hfinished := Machine.isFinished_of_isStopped hstopped s stack
      rw [Machine.request?_of_isStopped hstopped, Machine.step_of_isFinished hfinished]
      refine Explains.accounts ⟨φ, ?_, .stopped hφ hstopped s stack⟩ (acts_of_isStopped hstopped s)
      rw [answers_stopped hstopped]
      exact .nil φ

/-! ## Acts of the host -/

/-- The machine is coupled to a phase, and what the host holds does not refer to the frame. -/
structure Attends (c p : Nat) (φ : Phase) (σ : Session) : Prop where
  coupled : Coupled c p φ σ.machine
  held : ∀ k ∈ σ.held, k.Avoids p
  own : p ∉ σ.own

/-- While nothing runs no activation waits. -/
theorem Coupled.exists_resting
    {control : Control}
    (h : Coupled c p φ ⟨s, [], control⟩)
    (hidle : control.isIdle = true) :
    ∃ P, Resting p φ P ∧ Clear c p P s [] ∧ control.Avoids p := by
  cases h with
  | resting hresting hzone =>
      obtain ⟨⟨above, hstack, hclear⟩, hcontrol⟩ := hzone
      exact ⟨_, hresting, hclear.beneath (List.forall_mem_nil _), hcontrol⟩
  | inside hbase hne hzone =>
      obtain ⟨⟨above, hstack, hclear⟩, hcontrol⟩ := hzone
      exact absurd (List.append_eq_nil_iff.mp hstack.symm).2 hne
  | stopped hφ hstopped s stack =>
      cases control with
      | returning o => cases hstopped
      | raising r => cases hstopped
      | _ => cases hidle

theorem acts_of_isIdle
    {control : Control}
    (hidle : control.isIdle = true)
    (t : Store) :
    acts p ⟨s, [], control⟩ t = [] := by
  cases control with
  | returning o => rfl
  | raising r => rfl
  | running frame label rest => cases hidle
  | halted reason => cases hidle
  | aborted r => cases hidle

/-- An act of the host that asks for nothing. -/
theorem accounts_host
    {control : Control}
    (hresting : Resting p φ P)
    (hidle : control.isIdle = true)
    (h : Stays c p P [] m') :
    Accounts c p φ ⟨s, [], control⟩ none m' :=
  (h.explains_resting hresting rfl rfl).accounts (acts_of_isIdle hidle _)

/-- The host adds a frame of its own. -/
theorem Attends.newFrame
    {control : Control} {held : List Continuation} {own : List Nat} {f : Frame}
    (h : Attends c p φ ⟨⟨s, [], control⟩, held, own⟩)
    (hidle : control.isIdle = true)
    (ht : t.activity = s.activity)
    (hf : f.Avoids p) :
    ∃ ψ, Path c φ (seen c p ⟨s, [], control⟩ none ⟨(t.newFrame f).2, [], control⟩) ψ ∧
      Attends c p ψ ⟨⟨(t.newFrame f).2, [], control⟩, held, s.frames.size :: own⟩ := by
  obtain ⟨P, hresting, hclear, hcontrol⟩ := h.coupled.exists_resting hidle
  have hnew := (hclear.of_activity ht).newFrame hf
  obtain ⟨ψ, hpath, hcoupled⟩ :=
    accounts_host (s := s) hresting hidle (hnew.stays hcontrol)
  refine ⟨ψ, hpath, hcoupled, h.held, ?_⟩
  intro hp
  rcases List.mem_cons.mp hp with hsize | hp
  · exact Nat.ne_of_lt hclear.apart.frame hsize
  · exact h.own hp

/-- Every move shows what the law allows. -/
theorem Attends.move
    {σ τ : Session}
    (h : Attends c p φ σ)
    (hmove : Session.Move σ q τ) :
    ∃ ψ, Path c φ (seen c p σ.machine q τ.machine) ψ ∧ Attends c p ψ τ := by
  -- the host holds what it held, or less
  have hattends : Accounts c p φ σ.machine q τ.machine → τ.held ⊆ σ.held → τ.own ⊆ σ.own →
      ∃ ψ, Path c φ (seen c p σ.machine q τ.machine) ψ ∧ Attends c p ψ τ := by
    rintro ⟨ψ, hpath, hcoupled⟩ hheld hown
    exact ⟨ψ, hpath, hcoupled, fun k hk => h.held k (hheld hk), fun hp => h.own (hown hp)⟩
  cases hmove with
  | step m held own =>
      exact hattends h.coupled.step (List.Subset.refl held) (List.Subset.refl own)
  | prepare hidle hprepares =>
      obtain ⟨P, hresting, hclear, hcontrol⟩ := h.coupled.exists_resting hidle
      have hstore := hclear.of_store
        (hclear.apart.of_eq hprepares.frames hprepares.producers)
      exact hattends (accounts_host hresting hidle (hstore.stays hcontrol))
        (List.Subset.refl _) (List.Subset.refl _)
  | keep s v k held own =>
      obtain ⟨P, hresting, hclear, hcontrol⟩ := h.coupled.exists_resting rfl
      have hstays : Stays c p P [] ⟨s, [], .returning (.result v)⟩ :=
        hclear.stays (Outcome.avoids_of_next?_eq_none rfl)
      have haccounts : Accounts c p φ ⟨s, [], .returning (.suspended v k)⟩ none
          ⟨s, [], .returning (.result v)⟩ := accounts_host hresting rfl hstays
      obtain ⟨ψ, hpath, hcoupled⟩ := haccounts
      refine ⟨ψ, hpath, hcoupled, ?_, h.own⟩
      intro k' hk'
      rcases List.mem_cons.mp hk' with rfl | hk'
      · exact hcontrol k' rfl
      · exact h.held k' hk'
  | request hidle environment q =>
      obtain ⟨P, hresting, hclear, -⟩ := h.coupled.exists_resting hidle
      have hexplains := explains_start_resting (r := q) hresting hclear environment
      exact hattends (hexplains.accounts (acts_of_isIdle hidle _)) (List.Subset.refl _)
        (List.Subset.refl _)
  | resume hidle before k after =>
      obtain ⟨P, hresting, hclear, -⟩ := h.coupled.exists_resting hidle
      have hk : k.Avoids p := h.held k (by simp)
      exact hattends (accounts_host hresting hidle (hclear.resume .nil hk)) (by simp)
        (List.Subset.refl _)
  | enter hidle hlinked environment args names =>
      obtain ⟨P, hresting, hclear, -⟩ := h.coupled.exists_resting hidle
      exact hattends (accounts_host hresting hidle (hclear.enter environment _ args names))
        (List.Subset.refl _) (List.Subset.refl _)
  | @make s control held own procedure hidle hlinked environment args vars =>
      exact h.newFrame hidle rfl (Frame.avoids_new p environment procedure args vars)
  | @copy s control held own n f hidle hown hframe environment =>
      exact h.newFrame hidle (s.activity_duplicateFrame f environment)
        (Frame.avoids_of_no_next (Store.follows_duplicateFrame s f environment).2 p)
  | @run s control held own n f label hidle hown hframe hlabel =>
      obtain ⟨P, hresting, hclear, -⟩ := h.coupled.exists_resting hidle
      have hn : n ≠ p := by
        rintro rfl
        exact h.own hown
      have hbare : Clear c p P s [.bare] := hclear.push trivial
      exact hattends (accounts_host hresting hidle (hbare.jump .nil hn label))
        (List.Subset.refl _) (List.Subset.refl _)
  | @activate s control held n f label hidle before after hframe hlabel =>
      obtain ⟨P, hresting, hclear, -⟩ := h.coupled.exists_resting hidle
      have hn : n ≠ p := by
        rintro rfl
        exact h.own (by simp)
      exact hattends (accounts_host hresting hidle (hclear.jump .nil hn label))
        (List.Subset.refl _) (by simp)

/-! ## Creation -/

theorem producer_createProducer
    {f : Frame} {entry : Ir.Label} {v : Value}
    (hcreate : s.createProducer f entry = .ok (v, t)) :
    v = .coexpression (s.producers.size + 1) ∧
      t.producer (s.producers.size + 1) = .fresh s.frames.size entry := by
  obtain ⟨copy, -, -, -, hproducers, -, hvalue⟩ := Store.createProducer_eq_ok hcreate
  exact ⟨hvalue, by simp [Store.producer, hproducers]⟩

/-- A new co-expression has a frame that nothing else refers to. -/
theorem clear_createProducer
    {f : Frame} {entry : Ir.Label} {v : Value} {stack : List Context}
    (hs : s.Linked)
    (hstack : ∀ x ∈ stack, x.Fits s)
    (hcreate : s.createProducer f entry = .ok (v, t)) :
    Clear (s.producers.size + 1) s.frames.size (.fresh s.frames.size entry) t stack := by
  obtain ⟨copy, -, hnext, hframes, hproducers, -⟩ := Store.createProducer_eq_ok hcreate
  refine ⟨⟨?_, ?_, ?_, ?_⟩, (producer_createProducer hcreate).2, fun x hx => (hstack x hx).avoids⟩
  · simp [hframes]
  · simp [hproducers]
  · intro n g hg
    rw [hframes, Array.getElem?_push] at hg
    split at hg
    · cases hg
      exact Frame.avoids_of_no_next hnext _
    · exact (hs.frames n g hg).avoids
  · intro id hid
    by_cases hle : id ≤ s.producers.size
    · rw [Store.producer_push_of_le hproducers hle]
      exact (hs.producer id).avoids
    · have hlt : t.producers.size < id := by
        simp only [hproducers, Array.size_push]
        omega
      rw [Store.producer_eq_ended hlt]
      trivial

/-- The creating frame goes on, or its slot for the co-expression is out of range. -/
theorem stays_create
    {frame : Nat} {f : Frame} {entry : Ir.Label} {v : Value} {stack : List Context}
    (hs : s.Linked)
    (hstack : ∀ x ∈ stack, x.Fits s)
    (hframe : s.frames[frame]? = some f)
    (hcreate : s.createProducer f entry = .ok (v, t))
    (label : Ir.Label) (target : Ir.Slot) (rest : List Ir.Instruction) :
    Stays (s.producers.size + 1) s.frames.size (.fresh s.frames.size entry) []
      (Machine.advance s (stack ++ []) frame label (.create target entry :: rest)) := by
  have hclear := clear_createProducer hs hstack hcreate
  have hne : frame ≠ s.frames.size :=
    Nat.ne_of_lt (Array.getElem?_eq_some_iff.mp hframe).choose
  have hexecute : s.execute f (.create target entry) = t.changed f (f.set target v) := by
    simp only [Store.execute, hcreate]
  have hfollows := (s.executes_execute f (.create target entry)).follows
  have hset : ∀ {g : Frame}, f.Follows (Ir.Instruction.create target entry).labels g →
      Clear (s.producers.size + 1) s.frames.size (.fresh s.frames.size entry)
        (t.setFrame frame g) stack := by
    intro g hg
    exact hclear.setFrame frame ((hs.frames frame f hframe).avoids.of_follows hg)
  rw [hexecute] at hfollows
  simp only [Machine.advance, hframe, hexecute]
  cases hput : f.set target v with
  | ok g =>
      rw [hput] at hfollows
      exact (hset hfollows).stays hne
  | error m =>
      rw [hput] at hfollows
      exact (hset hfollows).malfunction .nil hne m

/-- The step that creates a co-expression leaves it idle. -/
theorem attends_of_creates
    {σ τ : Session}
    (h : σ.Linked)
    (hcreates : Creates c p σ τ) :
    Attends c p .idle τ := by
  cases hcreates with
  | @step m t frame label entry target rest f hcontrol hframe hcreate hproducer held own =>
      obtain ⟨s, stack, control⟩ := m
      dsimp only at hcontrol hframe hcreate
      subst hcontrol
      obtain ⟨hc, hfresh⟩ := producer_createProducer hcreate
      obtain rfl : c = s.producers.size + 1 := by simpa using hc
      obtain rfl : s.frames.size = p := by simpa [hproducer] using hfresh.symm
      have hstays := stays_create h.machine.store h.machine.stack hframe hcreate label target rest
      rw [List.append_nil] at hstays
      refine ⟨.resting (P := .fresh s.frames.size entry) rfl hstays.zone_of_nil, ?_, ?_⟩
      · exact fun k hk => (h.held k hk).avoids
      · intro hown
        obtain ⟨code, hcode⟩ := h.own _ hown
        exact Store.ne_size_of_code? hcode rfl

/-- A place in the pool is all that `create` needs. -/
theorem creates_of_active_lt
    {frame : Nat} {label entry : Ir.Label} {target : Ir.Slot} {rest : List Ir.Instruction}
    (hcontrol : m.control = .running frame label (.create target entry :: rest))
    (hframe : frame < m.store.frames.size)
    (hactive : m.store.active < m.store.limit)
    (hc : m.store.producers.size + 1 = c)
    (hp : m.store.frames.size = p)
    (held : List Continuation) (own : List Nat) :
    Creates c p ⟨m, held, own⟩ ⟨m.step, held, own⟩ := by
  subst hc hp
  have hf := Array.getElem?_eq_getElem hframe
  cases hcreate : m.store.createProducer m.store.frames[frame] entry with
  | error e =>
      rw [Store.createProducer, if_pos hactive] at hcreate
      cases hcreate
  | ok created =>
      obtain ⟨v, t⟩ := created
      obtain ⟨rfl, hfresh⟩ := producer_createProducer hcreate
      exact .step hcontrol hf hcreate hfresh held own

/-! ## Runs -/

/-- What a run shows leads from the phase at its start to one that its end is coupled to. -/
theorem Attends.run
    {σ τ : Session} {es : List Event}
    (h : Attends c p φ σ)
    (hrun : Run c p σ es τ) :
    ∃ ψ, Path c φ es ψ ∧ Attends c p ψ τ := by
  induction hrun with
  | refl => exact ⟨φ, .nil φ, h⟩
  | move hrun hmove ih =>
      obtain ⟨χ, hpath, hattends⟩ := ih
      obtain ⟨ψ, hlast, hattends'⟩ := hattends.move hmove
      exact ⟨ψ, hpath.append hlast, hattends'⟩

theorem Coupled.isSettled
    (h : Coupled c p φ m) :
    φ.isSettled = true := by
  cases h with
  | resting hresting hzone =>
      cases φ with
      | handing v => exact absurd hresting id
      | refusing => exact absurd hresting id
      | _ => rfl
  | inside => rfl
  | body => rfl
  | failing => rfl
  | finishing => rfl
  | breaking => rfl
  | stopped hφ =>
      rcases hφ with rfl | ⟨n, rfl⟩ <;> rfl

/-- The law of delivery holds along every run from the creation of a co-expression on, whatever
programs and hosts do, and through whichever handles they activate and close it. -/
theorem lawful_of_run
    {σ τ υ : Session} {es : List Event}
    (h : σ.Reachable)
    (hcreates : Creates c p σ τ)
    (hrun : Run c p τ es υ) :
    Lawful c es := by
  have hattends := attends_of_creates h.linked hcreates
  obtain ⟨ψ, hpath, hend⟩ := hattends.run hrun
  exact lawful_of_path hpath hend.coupled.isSettled

/-- The second instruction of `relay` creates the first co-expression, with the second frame. -/
theorem creates_relay
    {code : Code}
    (h : Session.relay.link = .ok code) :
    Creates 1 1 ⟨(Session.started code).step, [], []⟩
      ⟨(Session.started code).step.step, [], []⟩ := by
  have hcontrol : (Session.started code).step.control = .running (Program.new 1).store.frames.size
      "start" [.create 1 "body", .indirect 0 ["next"]] := by
    cases h
    simp [Session.started, Session.relay, Machine.enter, Code.argumentFault?, Arguments.split,
      Store.bindArguments, Store.bindParameters, Store.parameters, Store.bindAll,
      Store.bindKeywords, Store.newFrame, Code.chunk?, Machine.step, Machine.advance,
      Store.execute, Frame.new, Frame.setLabel, Frame.put, Store.changed, Machine.perform]
  cases h
  refine creates_of_active_lt hcontrol ?_ ?_ ?_ ?_ [] [] <;> decide +kernel

/-- The procedure `relay` creates a co-expression and takes its first value. -/
theorem lawful_of_run_relay :
    ∃ code, Session.relay.link = .ok code ∧ ∃ m, m = (Session.started code).step ∧
      Session.Reachable ⟨m, [], []⟩ ∧ Creates 1 1 ⟨m, [], []⟩ ⟨m.step, [], []⟩ ∧
      ∃ es, Run 1 1 ⟨m.step, [], []⟩ es ⟨m.step.step.step.step.step, [], []⟩ ∧
        (es.filterMap Event.taken?).length = 1 ∧ Lawful 1 es := by
  have hreachable : ∀ code, Session.relay.link = .ok code →
      Session.Reachable ⟨(Session.started code).step, [], []⟩ :=
    fun code hcode => (Session.reachable_started hcode).move (.step _ [] [])
  have hcreates := fun code hcode => @creates_relay code hcode
  have hrun := fun m : Machine => Run.move (c := 1) (p := 1) (.move (.move (.move (.refl ⟨m, [], []⟩)
    (.step m [] [])) (.step _ [] [])) (.step _ [] [])) (.step _ [] [])
  refine ⟨_, rfl, _, rfl, hreachable _ rfl, hcreates _ rfl, _, hrun _, by decide +kernel, ?_⟩
  exact lawful_of_run (hreachable _ rfl) (hcreates _ rfl) (hrun _)

end Coexpression

end Delivery

end GoalDirected
