import GoalDirected.Proofs.Coexpression.Observation
import GoalDirected.Proofs.Coexpression.Separation

/-!
# Phases of a co-expression and states of the machine

**Input.** A co-expression `c` with frame `p`, and a state of the machine.

**Invariant.** `Coupled` relates the phases of the law of delivery to states of the machine.  While no
activation waits, nothing in the state refers to the frame.  While one waits, its consumer stands in the
stack exactly once; above it runs the frame itself, or the frame waits there for what it has called.

**Results.** What the rest of the program does is in `GoalDirected.Proofs.Coexpression.Separation`; here
are the requests that are meant for the co-expression (`explains_start_busy`, `explains_start_resting`)
and the effects of its own frame (`explains_perform`).  Each shows events that the automaton of the law
can follow, to a phase that the new state is coupled to.
-/

namespace GoalDirected
namespace Coexpression

section Coupling

variable {c p : Nat} {P : Producer} {s t : Store} {above base below : List Context} {m : Machine}
variable {q : Option (Store × Request)} {φ : Phase}

/-! ## Coupling -/

/-- The state of a co-expression in a phase in which no activation waits. -/
def Resting (p : Nat) : Phase → Producer → Prop
  | .idle, .fresh frame _ => frame = p
  | .idle, .waiting frame _ => frame = p
  | .over, .ended => True
  | _, _ => False

/-- The states that a phase of the law fits. -/
inductive Coupled (c p : Nat) : Phase → Machine → Prop
  /-- No activation waits. -/
  | resting
      {φ : Phase} {P : Producer} {m : Machine}
      (hresting : Resting p φ P)
      (hzone : Zone c p P [] m) :
      Coupled c p φ m
  /-- The frame waits for what it has called. -/
  | inside
      {base : List Context} {m : Machine}
      (hbase : IsBase c p base)
      (hne : base ≠ [])
      (hzone : Zone c p .running base m) :
      Coupled c p .busy m
  /-- The frame runs. -/
  | body
      {s : Store} {below : List Context}
      (hclear : Clear c p .running s below)
      (label : Ir.Label) (rest : List Ir.Instruction) :
      Coupled c p .busy ⟨s, .consuming c :: below, .running p label rest⟩
  /-- The body has failed. -/
  | failing
      {s : Store} {below : List Context} {o : Outcome}
      (hclear : Clear c p .running s below)
      (ho : o.value? = none) :
      Coupled c p .busy ⟨s, .consuming c :: below, .returning o⟩
  /-- The body has ended with a value. -/
  | finishing
      {s : Store} {below : List Context} {o : Outcome} {v : Value}
      (hclear : Clear c p .running s below)
      (ho : o.value? = some v) :
      Coupled c p (.finishing (s.deref v)) ⟨s, .consuming c :: below, .returning o⟩
  /-- A fault has left the body. -/
  | breaking
      {s : Store} {below : List Context}
      (hclear : Clear c p .running s below)
      (r : Raised) :
      Coupled c p (.breaking r) ⟨s, .consuming c :: below, .raising r⟩
  /-- The machine has been stopped while an activation waited. -/
  | stopped
      {φ : Phase} {control : Control}
      (hφ : φ = .busy ∨ ∃ n, φ = .stuck n)
      (hcontrol : control.isStopped = true)
      (s : Store) (stack : List Context) :
      Coupled c p φ ⟨s, stack, control⟩

/-- What a move shows, apart from what the frame does, leads from a phase to one that the new state is
coupled to. -/
def Explains (c p : Nat) (φ : Phase) (q : Option (Store × Request)) (waited : Bool) (m : Machine) :
    Prop :=
  ∃ ψ, Path c φ (answers c q waited m) ψ ∧ Coupled c p ψ m

/-! ## What is seen of states -/

theorem waits_append
    (h : ∀ x ∈ above, x.Avoids c p) :
    waits c (above ++ base) = waits c base := by
  induction above with
  | nil => rfl
  | cons x above ih =>
      have hrest := ih fun y hy => h y (List.mem_cons_of_mem x hy)
      have hx := h x List.mem_cons_self
      cases x with
      | consuming id =>
          have hne : (id == c) = false := beq_eq_false_iff_ne.mpr hx
          simpa [waits, hne] using hrest
      | awaiting frame label rest d => simpa [waits] using hrest
      | recovering frame => simpa [waits] using hrest
      | bare => simpa [waits] using hrest

theorem waits_of_avoids
    (h : ∀ x ∈ above, x.Avoids c p) :
    waits c above = false := by
  have happend : waits c (above ++ []) = waits c [] := waits_append h
  rwa [List.append_nil] at happend

theorem IsBase.waits
    (hbase : IsBase c p base)
    (hne : base ≠ []) :
    waits c base = true := by
  cases hbase with
  | nil => exact absurd rfl hne
  | awaiting label rest d hbelow => simp [Coexpression.waits]
  | recovering hbelow => simp [Coexpression.waits]

theorem Zone.waits
    (h : Zone c p P base m) :
    waits c m.stack = waits c base := by
  obtain ⟨above, hstack, hclear⟩ := h.clear
  rw [hstack]
  exact waits_append hclear.above

theorem breaks_append
    {control : Control}
    (h : ∀ x ∈ above, x.Avoids c p)
    (hbase : breaks c ⟨s, base, control⟩ = []) :
    breaks c ⟨s, above ++ base, control⟩ = [] := by
  cases above with
  | nil => exact hbase
  | cons x above =>
      have hx := h x List.mem_cons_self
      cases x with
      | consuming id =>
          cases control with
          | raising r => exact if_neg hx
          | _ => rfl
      | _ => rfl

theorem breaks_of_avoids
    (h : ∀ x ∈ above, x.Avoids c p)
    (s : Store) (control : Control) :
    breaks c ⟨s, above, control⟩ = [] := by
  have happend : breaks c ⟨s, above ++ [], control⟩ = [] := breaks_append h rfl
  rwa [List.append_nil] at happend

/-- No fault stands right above the consumer while the frame waits. -/
theorem Zone.breaks
    (hbase : IsBase c p base)
    (h : Zone c p P base m) :
    breaks c m = [] := by
  obtain ⟨above, hstack, hclear⟩ := h.clear
  obtain ⟨s, stack, control⟩ := m
  dsimp only at hstack
  subst hstack
  exact breaks_append hclear.above (by cases hbase <;> rfl)

theorem requests_eq_nil
    (hask : isAsked c q = false)
    (hclose : isClosed c q = false) :
    requests c q = [] := by
  simp [requests, hask, hclose]

/-- While an activation goes on waiting, it is not answered. -/
theorem answers_of_waits
    (hwaits : waits c m.stack = true)
    (waited : Bool) :
    answers c q waited m = requests c q ++ breaks c m := by
  simp [answers, hwaits]

/-- Nothing is answered when nothing has been asked. -/
theorem answers_of_not_waited
    (hask : isAsked c q = false) :
    answers c q false m = requests c q ++ breaks c m := by
  simp [answers, hask]

/-- An activation that waited is answered once its consumer is gone. -/
theorem answers_of_not_waits
    {control : Control} {d : Delivery}
    (hask : isAsked c q = false)
    (hclose : isClosed c q = false)
    (hbelow : ∀ x ∈ below, x.Avoids c p)
    (hd : delivery? control = some d) :
    answers c q true ⟨t, below, control⟩ = [.answered d] := by
  simp [answers, requests_eq_nil hask hclose, breaks_of_avoids hbelow, waits_of_avoids hbelow, hd]

/-- A machine that has been stopped answers nothing. -/
theorem answers_stopped
    {control : Control}
    (hcontrol : control.isStopped = true)
    (q : Option (Store × Request)) (waited : Bool) (s : Store) (stack : List Context) :
    answers c q waited ⟨s, stack, control⟩ = requests c q := by
  have hbreaks : breaks c ⟨s, stack, control⟩ = [] := by
    unfold breaks
    split
    · rename_i heq
      cases heq
      cases hcontrol
    · rfl
  have hdelivery : delivery? control = none := by
    cases control with
    | halted reason => rfl
    | aborted r => rfl
    | _ => cases hcontrol
  simp [answers, hbreaks, hdelivery]

/-! ## Everything else -/

/-- A state of the zone without a base, in which no activation waits. -/
theorem Clear.coupled_over
    {control : Control}
    (h : Clear c p .ended s above)
    (hcontrol : control.Avoids p) :
    Coupled c p .over ⟨s, above, control⟩ :=
  .resting (P := .ended) trivial ⟨⟨above, (List.append_nil above).symm, h⟩, hcontrol⟩

/-- While the frame waits, what is not meant for the co-expression keeps it waiting, or drops it. -/
theorem Stays.explains_busy
    (hbase : IsBase c p base)
    (hne : base ≠ [])
    (hask : isAsked c q = false)
    (hclose : isClosed c q = false)
    (h : Stays c p .running base m) :
    Explains c p .busy q true m := by
  cases h with
  | zone hzone =>
      refine ⟨.busy, ?_, .inside hbase hne hzone⟩
      rw [answers_of_waits (hzone.waits.trans (hbase.waits hne)), requests_eq_nil hask hclose,
        hzone.breaks hbase]
      exact .nil _
  | dropped hconsumer hclear =>
      refine ⟨.over, ?_, hclear.coupled_over (Outcome.avoids_of_next?_eq_none rfl)⟩
      rw [answers_of_not_waits hask hclose hclear.above rfl]
      exact .single .fail

/-- While no activation waits, what is not meant for the co-expression shows nothing. -/
theorem Stays.explains_resting
    (hresting : Resting p φ P)
    (hask : isAsked c q = false)
    (hclose : isClosed c q = false)
    (h : Stays c p P [] m) :
    Explains c p φ q false m := by
  have hzone := h.zone_of_nil
  refine ⟨φ, ?_, .resting hresting hzone⟩
  rw [answers_of_not_waited hask, requests_eq_nil hask hclose, hzone.breaks .nil]
  exact .nil φ

/-! ## Arrivals right above the consumer -/

/-- The state stands right above the consumer, and is coupled by what it shows of a fault. -/
structure Lands (c p : Nat) (m : Machine) : Prop where
  coupled : ∃ ψ, Path c .busy (breaks c m) ψ ∧ Coupled c p ψ m
  waits : waits c m.stack = true

theorem Lands.body
    (h : Clear c p .running s below)
    (label : Ir.Label) (rest : List Ir.Instruction) :
    Lands c p ⟨s, .consuming c :: below, .running p label rest⟩ :=
  ⟨⟨.busy, .nil _, .body h label rest⟩, waits_consuming c below⟩

theorem Lands.fail
    (h : Clear c p .running s below) :
    Lands c p ⟨s, .consuming c :: below, .returning .fail⟩ :=
  ⟨⟨.busy, .nil _, .failing h rfl⟩, waits_consuming c below⟩

theorem Lands.raising
    (h : Clear c p .running s below)
    (r : Raised) :
    Lands c p ⟨s, .consuming c :: below, .raising r⟩ := by
  refine ⟨⟨.breaking r, ?_, .breaking h r⟩, waits_consuming c below⟩
  simp only [breaks, if_true]
  exact .single (.broke r)

theorem Lands.leave
    (h : Clear c p .running s below)
    (frame : Nat) (r : Raised) :
    Lands c p (Machine.leave s (.consuming c :: below) frame r) := by
  rcases Machine.leave_cases s (.consuming c :: below) frame r with ⟨trace, heq⟩ | heq <;> rw [heq]
  · exact Lands.raising h _
  · exact ⟨⟨.busy, .nil _, .stopped (Or.inl rfl) rfl s _⟩, waits_consuming c below⟩

theorem Lands.malfunction
    (h : Clear c p .running s below)
    (frame : Nat) (m : Malfunction) :
    Lands c p (Machine.malfunction s (.consuming c :: below) frame m) := by
  unfold Machine.malfunction Machine.fault
  split
  · rename_i hbare
    cases hbare
  · rename_i hexception _
    cases hexception
  · exact Lands.leave h frame _

theorem Lands.jump
    (h : Clear c p .running s below)
    (label : Ir.Label) :
    Lands c p (Machine.jump s (.consuming c :: below) p label) := by
  unfold Machine.jump
  split
  · exact Lands.fail h
  · split
    · exact Lands.body h label _
    · exact Lands.malfunction h p _

theorem Lands.failed
    (h : Clear c p .running s below)
    (onFail : Option Ir.Label) :
    Lands c p (Machine.failed s (.consuming c :: below) p onFail) := by
  cases onFail with
  | none => exact Lands.fail h
  | some label => exact Lands.jump h label

/-- An arrival that no request has led to. -/
theorem Lands.explains
    (h : Lands c p m)
    (hask : isAsked c q = false)
    (hclose : isClosed c q = false)
    (waited : Bool) :
    Explains c p .busy q waited m := by
  obtain ⟨ψ, hpath, hcoupled⟩ := h.coupled
  refine ⟨ψ, ?_, hcoupled⟩
  rw [answers_of_waits h.waits, requests_eq_nil hask hclose]
  exact hpath

/-! ## Requests for the co-expression -/

theorem start_eq_activate
    {r : Request}
    (hask : s.activated? r = some c)
    (stack : List Context) (environment : Environment) :
    ∃ t, t.activity = s.activity ∧ r.start s stack environment = Machine.activate t stack c := by
  cases r with
  | call callee args names => cases hask
  | operator op args =>
      have hactivity := s.activity_invoke op args
      cases hinvoke : s.invoke op args with
      | mk answer t =>
          rw [hinvoke] at hactivity
          simp only [Store.activated?, hinvoke] at hask
          cases answer with
          | reply r => cases hask
          | activate id =>
              cases hask
              exact ⟨t, hactivity, by simp [Request.start, Machine.invoke, hinvoke]⟩

theorem start_eq_close
    {r : Request}
    (hclose : s.closed? r = some c)
    (stack : List Context) (environment : Environment) :
    r.start s stack environment =
      Machine.reply (s.closeValue (.coexpression c)).2 stack (s.closeValue (.coexpression c)).1 := by
  cases r with
  | operator op args => cases hclose
  | call callee args names =>
      simp only [Store.closed?] at hclose
      split at hclose
      · rename_i id hcallee
        split at hclose
        · rename_i hcallable hnames hfirst
          cases hclose
          simp only [Request.start, Machine.call, hcallee, hcallable, Machine.callCallable, hnames,
            if_true, Store.builtin, hfirst]
        · cases hclose
      · cases hclose

/-- A request is for the co-expression in at most one way. -/
theorem closed?_eq_none_of_activated?
    {r : Request}
    (hask : s.activated? r = some c) :
    s.closed? r = none := by
  cases r with
  | call callee args names => cases hask
  | operator op args => rfl

/-- The machine is stopped while an activation waits. -/
theorem explains_halted
    {ψ : Phase}
    (hψ : ψ = .busy ∨ ∃ n, ψ = .stuck n)
    (hpath : Path c .busy (requests c q) ψ)
    (s : Store) (stack : List Context) (reason : Halt) (waited : Bool) :
    Explains c p .busy q waited ⟨s, stack, .halted reason⟩ := by
  refine ⟨ψ, ?_, .stopped hψ rfl s stack⟩
  rw [answers_stopped rfl]
  exact hpath

/-- A request while the frame waits. One that is meant for the co-expression waits for itself. -/
theorem explains_start_busy
    {r : Request}
    (h : Clear c p .running s above)
    (hbase : IsBase c p base)
    (hne : base ≠ [])
    (environment : Environment) :
    Explains c p .busy (some (s, r)) true (r.start s (above ++ base) environment) := by
  by_cases hask : s.activated? r = some c
  · obtain ⟨t, ht, heq⟩ := start_eq_activate hask (above ++ base) environment
    have hproducer : t.producer c = .running := (h.of_activity ht).producer
    have hrequests : requests c (some (s, r)) = [.asked] := by
      simp [requests, isAsked, isClosed, hask, closed?_eq_none_of_activated? hask]
    rw [heq, Machine.activate, hproducer]
    refine explains_halted (Or.inr ⟨2, rfl⟩) ?_ t (above ++ base) .blocked true
    rw [hrequests]
    exact .single .askSelf
  · by_cases hclose : s.closed? r = some c
    · have hrequests : requests c (some (s, r)) = [.closed] := by
        simp [requests, isAsked, isClosed, hask, hclose]
      rw [start_eq_close hclose, Store.closeValue, h.producer]
      refine explains_halted (Or.inr ⟨1, rfl⟩) ?_ s (above ++ base) .blocked true
      rw [hrequests]
      exact .single .closeSelf
    · exact (start_stays h hbase environment hask hclose).explains_busy hbase hne
        (beq_eq_false_iff_ne.mpr hask) (beq_eq_false_iff_ne.mpr hclose)

/-- An activation while the co-expression can run starts its frame. -/
theorem explains_activate_idle
    {r : Request} {label : Ir.Label}
    (hask : s.activated? r = some c)
    (h : Clear c p P t above)
    (hproducer : P = .fresh p label ∨ P = .waiting p label) :
    Explains c p .idle (some (s, r)) false (Machine.activate t above c) := by
  have hrequests : requests c (some (s, r)) = [.asked] := by
    simp [requests, isAsked, isClosed, hask, closed?_eq_none_of_activated? hask]
  have hlands : Lands c p
      (Machine.jump (t.setProducer c .running) (.consuming c :: above) p label) :=
    Lands.jump (h.setProducer_self .running) label
  have hactivate : Machine.activate t above c =
      Machine.jump (t.setProducer c .running) (.consuming c :: above) p label := by
    rcases hproducer with hP | hP <;> rw [Machine.activate, h.producer, hP]
  obtain ⟨ψ, hpath, hcoupled⟩ := hlands.coupled
  rw [hactivate]
  refine ⟨ψ, ?_, hcoupled⟩
  rw [answers_of_waits hlands.waits, hrequests]
  exact .cons .ask hpath

/-- An activation of an ended co-expression fails at once. -/
theorem explains_activate_over
    {r : Request}
    (hask : s.activated? r = some c)
    (h : Clear c p .ended t above) :
    Explains c p .over (some (s, r)) false (Machine.activate t above c) := by
  rw [Machine.activate, h.producer]
  refine ⟨.over, ?_, h.coupled_over (Outcome.avoids_of_next?_eq_none rfl)⟩
  have hanswers : answers c (some (s, r)) false ⟨t, above, .returning .fail⟩ =
      [.asked, .answered .failure] := by
    simp [answers, requests, isAsked, isClosed, hask, closed?_eq_none_of_activated? hask,
      breaks_of_avoids h.above, waits_of_avoids h.above, delivery?, Outcome.value?]
  rw [hanswers]
  exact .cons .askEnded (.single .refuse)

/-- A close while no activation waits ends the co-expression. -/
theorem explains_close
    {r : Request} {control : Control}
    (hask : s.activated? r ≠ some c)
    (hclose : s.closed? r = some c)
    (hnext : Next c φ .closed .over)
    (h : Clear c p .ended t above)
    (hcontrol : control.Avoids p) :
    Explains c p φ (some (s, r)) false ⟨t, above, control⟩ := by
  refine ⟨.over, ?_, h.coupled_over hcontrol⟩
  have hanswers : answers c (some (s, r)) false ⟨t, above, control⟩ = [.closed] := by
    simp [answers, requests, isAsked, isClosed, hask, hclose, breaks_of_avoids h.above]
  rw [hanswers]
  exact .single hnext

/-- A request while no activation waits. -/
theorem explains_start_resting
    {r : Request}
    (hresting : Resting p φ P)
    (h : Clear c p P s above)
    (environment : Environment) :
    Explains c p φ (some (s, r)) false (r.start s above environment) := by
  by_cases hask : s.activated? r = some c
  · obtain ⟨t, ht, heq⟩ := start_eq_activate hask above environment
    have hclear := h.of_activity ht
    rw [heq]
    cases P with
    | fresh frame label =>
        cases φ <;> cases hresting
        exact explains_activate_idle hask hclear (Or.inl rfl)
    | waiting frame label =>
        cases φ <;> cases hresting
        exact explains_activate_idle hask hclear (Or.inr rfl)
    | ended =>
        cases φ <;> cases hresting
        exact explains_activate_over hask hclear
    | running => cases φ <;> cases hresting
  · by_cases hclose : s.closed? r = some c
    · rw [start_eq_close hclose, Store.closeValue, Store.abandon, h.producer]
      have hended := h.endProducer_self
      have hresult : (Control.returning (.result (.coexpression c))).Avoids p :=
        Outcome.avoids_of_next?_eq_none rfl
      cases P with
      | fresh frame label =>
          cases φ <;> cases hresting
          exact explains_close hask hclose .abandon hended hresult
      | waiting frame label =>
          cases φ <;> cases hresting
          exact explains_close hask hclose .abandon hended hresult
      | ended =>
          cases φ <;> cases hresting
          exact explains_close hask hclose .closeEnded h hresult
      | running => cases φ <;> cases hresting
    · have hstays := start_stays h .nil environment hask hclose
      rw [List.append_nil] at hstays
      exact hstays.explains_resting hresting (beq_eq_false_iff_ne.mpr hask)
        (beq_eq_false_iff_ne.mpr hclose)

/-! ## Steps of the frame -/

/-- A fault in the frame goes to its recovery procedure, or leaves the body. -/
theorem explains_fault
    (h : Clear c p .running s below)
    (r : Raised) :
    Explains c p .busy (Machine.recovery? s (.consuming c :: below) p r) true
      (Machine.fault s (.consuming c :: below) p r) := by
  rcases Machine.fault_cases s (.consuming c :: below) p r with
    ⟨rest, hbare, -, -⟩ | ⟨f, g, q, environment, hf, hg, hrecovery, heq⟩ |
    ⟨hrecovery, heq⟩ | ⟨f, g, hf, hg, hrecovery, heq⟩
  · cases hbare
  · rw [hrecovery, heq]
    have hclear := (h.setFrame_of_temps hf hg).beneath (List.forall_mem_nil _)
    have hexplains := explains_start_busy (r := q) hclear (.recovering h.above) (by simp) environment
    exact hexplains
  · rw [hrecovery, heq]
    exact (Lands.leave h p r).explains rfl rfl true
  · rw [hrecovery, heq]
    exact (Lands.leave (h.setFrame_of_temps hf hg) p r).explains rfl rfl true

/-- Something that the frame has started, above the place where it waits. -/
theorem explains_stays
    {label : Ir.Label} {rest : List Ir.Instruction} {d : Ir.Destination}
    (h : Clear c p .running s below)
    (hstays : Stays c p .running (.awaiting p label rest d :: .consuming c :: below) m) :
    Explains c p .busy none true m :=
  hstays.explains_busy (.awaiting label rest d h.above) (by simp) rfl rfl

/-- What an effect of the frame shows: the value that it gives, and what follows from it. -/
theorem explains_perform
    {e : Effect}
    (h : Clear c p .running s below)
    (hresumes : ∀ d k, e = .resume d (some k) → k.Avoids p)
    (label : Ir.Label) (rest : List Ir.Instruction) (environment : Environment) :
    ∃ ψ, Path c .busy
      (gives (Machine.perform s (.consuming c :: below) p label rest environment e).store e ++
        answers c (Machine.effectRequest? s (.consuming c :: below) p e) true
          (Machine.perform s (.consuming c :: below) p label rest environment e)) ψ ∧
      Coupled c p ψ (Machine.perform s (.consuming c :: below) p label rest environment e) := by
  have halone : Clear c p .running s [] := h.beneath (List.forall_mem_nil _)
  cases e with
  | next => exact (Lands.body h label rest).explains rfl rfl true
  | goto target => exact (Lands.jump h target).explains rfl rfl true
  | failed onFail => exact (Lands.failed h onFail).explains rfl rfl true
  | succeed v again =>
      have hfinishing : ∀ o : Outcome, o.value? = some v →
          ∃ ψ, Path c .busy ([.finished (s.deref v)] ++ answers c none true
            ⟨s, .consuming c :: below, .returning o⟩) ψ ∧
            Coupled c p ψ ⟨s, .consuming c :: below, .returning o⟩ := by
        intro o ho
        refine ⟨.finishing (s.deref v), ?_, .finishing h ho⟩
        rw [answers_of_waits (waits_consuming c below)]
        exact .single (.finish _)
      cases again with
      | none => exact hfinishing (.result v) rfl
      | some again => exact hfinishing (.suspended v (.activation p again)) rfl
  | call d callee args names =>
      have hexplains := explains_start_busy (r := .call callee args names) halone
        (.awaiting label rest d h.above) (by simp) environment
      exact hexplains
  | operator d op args =>
      have hexplains := explains_start_busy (r := .operator op args) halone
        (.awaiting label rest d h.above) (by simp) environment
      exact hexplains
  | resume d k =>
      have hawaiting : IsBase c p (.awaiting p label rest d :: .consuming c :: below) :=
        .awaiting label rest d h.above
      cases k with
      | none => exact explains_stays h halone.fail
      | some k => exact explains_stays h (halone.resume hawaiting (hresumes d k rfl))
  | produce v again =>
      have hzone : Zone c p (.waiting p again) []
          ⟨s.setProducer c (.waiting p again), below, .returning (.result v)⟩ :=
        ⟨⟨below, (List.append_nil below).symm, h.setProducer_self (.waiting p again)⟩,
          Outcome.avoids_of_next?_eq_none rfl⟩
      refine ⟨.idle, ?_, .resting (P := .waiting p again) rfl hzone⟩
      have hanswers : answers c none true
          ⟨s.setProducer c (.waiting p again), below, .returning (.result v)⟩ =
          [.answered (.value v)] := answers_of_not_waits rfl rfl h.above rfl
      simp only [Machine.perform, Machine.effectRequest?, hanswers]
      exact .cons (.produce v) (.single (.hand v))
  | exhaust => exact (Lands.fail h).explains rfl rfl true
  | halt reason =>
      have hhalted : Explains c p .busy none true ⟨s, .consuming c :: below, .halted reason⟩ :=
        explains_halted (Or.inl rfl) (.nil _) s (.consuming c :: below) reason true
      cases reason with
      | blocked => exact hhalted
      | exit code => exact hhalted
      | impossibleQueue =>
          have hclear := h.setProducer_self .ended
          have hdropped : Explains c p .busy none true
              ⟨s.setProducer c .ended, below, .returning .fail⟩ := by
            refine ⟨.over, ?_, hclear.coupled_over (Outcome.avoids_of_next?_eq_none rfl)⟩
            rw [answers_of_not_waits rfl rfl h.above rfl]
            exact .single .fail
          exact hdropped
  | fault f => exact explains_fault h ⟨f, []⟩

end Coupling

end Coexpression
end GoalDirected
