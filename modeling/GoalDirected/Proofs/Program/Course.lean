import GoalDirected.Proofs.Machine.Session

/-!
# Courses of a program

A program is made, linked, initialized and called.  While nothing of it runs, its host may link more, run the
initializer of a global and store what it has produced, call `main` or any other value, and resume a call
that has been suspended.  A course is a machine together with the continuations that its host has kept and
with what is still to be initialized.

* `Move`: one step of the machine, or one act of the host.  The values that the host passes on are those that
  it `admits`.
* `Reachable`: the courses that moves lead to from a new program.
* `leads_call`, `leads_runMain`, `leads_runInitializers`: calls, `main` and initialization are sequences of
  moves, as long as they come to an end.
-/

namespace GoalDirected

section Course

/-- A machine with what its host holds. -/
structure Course where
  machine : Machine
  /-- Continuations that the host has kept, each for one resumption. -/
  held : List Continuation
  /-- What is still to be initialized. -/
  pending : List (Item Initializer)

namespace Course

/-- A new program, of which nothing has run. -/
def new (maxTasks : Nat) : Course :=
  ⟨⟨(Program.new maxTasks).store, [], .returning .fail⟩, [], []⟩

/-- One step of the machine, or one act of the host while nothing runs. -/
inductive Move (admits : Value → Prop) : Course → Course → Prop
  | step
      (m : Machine) (held : List Continuation) (pending : List (Item Initializer)) :
      Move admits ⟨m, held, pending⟩ ⟨m.step, held, pending⟩
  | link
      {s : Store} {control : Control} {held : List Continuation} {pending : List (Item Initializer)}
      (hidle : control.isIdle = true)
      (ir : Ir.Program) :
      Move admits ⟨⟨s, [], control⟩, held, pending⟩
        ⟨⟨(Program.link ⟨s, pending⟩ ir).2.store, [], control⟩, held,
          (Program.link ⟨s, pending⟩ ir).2.pending⟩
  | call
      {s : Store} {control : Control} {held : List Continuation} {pending : List (Item Initializer)}
      {args : List Value}
      (hidle : control.isIdle = true)
      (hargs : ∀ v ∈ args, admits v)
      (environment : Environment) (callee : Value) (names : List String) :
      Move admits ⟨⟨s, [], control⟩, held, pending⟩
        ⟨Machine.call s [] environment callee args names, held, pending⟩
  /-- The host calls a value with the list of some texts. -/
  | main
      {s : Store} {control : Control} {held : List Continuation} {pending : List (Item Initializer)}
      (hidle : control.isIdle = true)
      (callee : Value) (args : List String) :
      Move admits ⟨⟨s, [], control⟩, held, pending⟩
        ⟨Machine.call (s.newList (args.map Value.text).toArray).2 [] Program.rootEnvironment callee
          [(s.newList (args.map Value.text).toArray).1] [], held, pending⟩
  /-- The host keeps the continuation of an outcome. -/
  | keep
      (s : Store) (v : Value) (k : Continuation) (held : List Continuation)
      (pending : List (Item Initializer)) :
      Move admits ⟨⟨s, [], .returning (.suspended v k)⟩, held, pending⟩
        ⟨⟨s, [], .returning (.result v)⟩, k :: held, pending⟩
  /-- A continuation is used up by its resumption. -/
  | resume
      {s : Store} {control : Control} {pending : List (Item Initializer)}
      (hidle : control.isIdle = true)
      (before : List Continuation) (k : Continuation) (after : List Continuation) :
      Move admits ⟨⟨s, [], control⟩, before ++ k :: after, pending⟩
        ⟨Machine.resume s [] k, before ++ after, pending⟩
  /-- The host starts the initializer of a global. -/
  | prepare
      {s : Store} {control : Control} {held : List Continuation} {pending : List (Item Initializer)}
      {item : Item Initializer} {init : Initializer}
      (hidle : control.isIdle = true)
      (hitem : item ∈ pending)
      (hinit : item.init = some init) :
      Move admits ⟨⟨s, [], control⟩, held, pending⟩
        ⟨Machine.enter s [] Program.rootEnvironment init.procedure [] [], held, pending⟩
  /-- The host stores the value of an outcome in a global. -/
  | assign
      {s : Store} {o : Outcome} {v : Value} {held : List Continuation}
      {pending : List (Item Initializer)} {item : Item Initializer} {init : Initializer}
      (hitem : item ∈ pending)
      (hinit : item.init = some init)
      (hvalue : o.value? = some v) :
      Move admits ⟨⟨s, [], .returning o⟩, held, pending⟩
        ⟨⟨s.write init.cell (s.deref v), [], .returning o⟩, held, pending⟩
  /-- Nothing is pending any more. -/
  | settle
      (m : Machine) (held : List Continuation) (pending : List (Item Initializer)) :
      Move admits ⟨m, held, pending⟩ ⟨m, held, []⟩

/-- Some sequence of moves leads from one course to the other. -/
abbrev Leads (admits : Value → Prop) : Course → Course → Prop :=
  Relation.ReflTransGen (Move admits)

/-- Some sequence of moves leads from a new program to the course. -/
def Reachable (admits : Value → Prop) (σ : Course) : Prop :=
  ∃ maxTasks, Leads admits (new maxTasks) σ

variable {admits : Value → Prop}

theorem Reachable.leads
    {σ τ : Course}
    (h : Reachable admits σ)
    (hleads : Leads admits σ τ) :
    Reachable admits τ := by
  obtain ⟨maxTasks, h⟩ := h
  exact ⟨maxTasks, h.trans hleads⟩

/-- What every move keeps is kept by every sequence of moves. -/
theorem Leads.keeps
    {I : Course → Prop}
    (hmove : ∀ σ τ, I σ → Move admits σ τ → I τ)
    {σ τ : Course}
    (h : Leads admits σ τ)
    (hσ : I σ) :
    I τ := by
  induction h with
  | refl => exact hσ
  | tail _ hlast ih => exact hmove _ _ ih hlast

/-- What holds of new programs and is kept by every move holds of every reachable course. -/
theorem Reachable.invariant
    {I : Course → Prop}
    (hnew : ∀ maxTasks, I (Course.new maxTasks))
    (hmove : ∀ σ τ, I σ → Move admits σ τ → I τ)
    {σ : Course}
    (h : Reachable admits σ) :
    I σ := by
  obtain ⟨maxTasks, h⟩ := h
  exact h.keeps hmove (hnew maxTasks)

/-! ## What programs do -/

/-- Letting a machine run is a sequence of moves. -/
theorem leads_run
    (admits : Value → Prop) (m : Machine) (held : List Continuation) (pending : List (Item Initializer))
    (fuel : Nat) :
    Leads admits ⟨m, held, pending⟩ ⟨m.run fuel, held, pending⟩ := by
  induction fuel generalizing m with
  | zero => exact Relation.ReflTransGen.refl
  | succ fuel ih =>
      simp only [Machine.run]
      split
      · exact Relation.ReflTransGen.refl
      · exact Relation.ReflTransGen.head (.step m held pending) (ih m.step)

/-- A result that is not a halt leaves nothing on the stack. -/
theorem exists_of_result
    {m : Machine}
    (h : ∀ reason, m.result ≠ .error (.halted reason)) :
    m.stack = [] ∧ m.control.isIdle = true ∧ ∀ o, m.result = .ok o → m.control = .returning o := by
  obtain ⟨s, stack, control⟩ := m
  unfold Machine.result at h
  split at h
  · rename_i heq
    cases heq
    refine ⟨rfl, rfl, ?_⟩
    intro o ho
    cases ho
    rfl
  · rename_i heq
    cases heq
    refine ⟨rfl, rfl, ?_⟩
    intro o ho
    cases ho
  · rename_i reason heq
    exact absurd rfl (h reason)
  · exact absurd rfl (h .overflow)
  · exact absurd rfl (h .blocked)

/-- A machine that comes to an end leads to a course whose host has the store again. -/
theorem leads_finish
    (admits : Value → Prop) {m : Machine} (held : List Continuation) (pending : List (Item Initializer))
    (h : ∀ reason, m.finish.1 ≠ .error (.halted reason)) :
    ∃ control : Control, control.isIdle = true ∧
      (∀ o, m.finish.1 = .ok o → control = .returning o) ∧
      Leads admits ⟨m, held, pending⟩ ⟨⟨m.finish.2, [], control⟩, held, pending⟩ := by
  obtain ⟨hstack, hidle, hok⟩ := exists_of_result h
  refine ⟨_, hidle, hok, ?_⟩
  have hrun := leads_run admits m held pending Machine.stepLimit
  have heq : m.run Machine.stepLimit = ⟨m.finish.2, [], (m.run Machine.stepLimit).control⟩ := by
    rw [← hstack]
    rfl
  rwa [heq] at hrun

/-- A call that comes to an end is a sequence of moves. -/
theorem leads_call
    (p : Program) {control : Control} (held : List Continuation)
    (environment : Environment) (callee : Value) {args : List Value} (names : List String)
    (hidle : control.isIdle = true)
    (hargs : ∀ v ∈ args, admits v)
    (h : ∀ reason, (p.call environment callee args names).1 ≠ .error (.halted reason)) :
    ∃ control' : Control, control'.isIdle = true ∧
      (∀ o, (p.call environment callee args names).1 = .ok o → control' = .returning o) ∧
      Leads admits ⟨⟨p.store, [], control⟩, held, p.pending⟩
        ⟨⟨(p.call environment callee args names).2.store, [], control'⟩, held, p.pending⟩ := by
  obtain ⟨control', hidle', hok, hleads⟩ :=
    leads_finish admits held p.pending h
  exact ⟨control', hidle', hok, .head (.call hidle hargs environment callee names) hleads⟩

/-- A run of `main` that comes to an end is a sequence of moves. -/
theorem leads_runMain
    (p : Program) {control : Control} (held : List Continuation) (args : List String)
    (hidle : control.isIdle = true)
    (h : ∀ reason, (p.runMain args).1 ≠ .error (.halted reason)) :
    ∃ control' : Control, control'.isIdle = true ∧
      Leads admits ⟨⟨p.store, [], control⟩, held, p.pending⟩
        ⟨⟨(p.runMain args).2.store, [], control'⟩, held, p.pending⟩ := by
  unfold Program.runMain at h ⊢
  dsimp only at h ⊢
  split at h
  · exact ⟨control, hidle, .refl⟩
  · rename_i id hmain
    have hfinish : ∀ reason, (Machine.call (p.store.newList (args.map Value.text).toArray).2 []
        Program.rootEnvironment (.procedure id) [(p.store.newList (args.map Value.text).toArray).1]
        []).finish.1 ≠ .error (.halted reason) := by
      intro reason heq
      split at h
      · rename_i hok
        rw [hok] at heq
        cases heq
      · rename_i herror
        rw [herror] at heq
        cases heq
        exact h reason rfl
    obtain ⟨control', hidle', -, hleads⟩ := leads_finish admits held p.pending hfinish
    refine ⟨control', hidle', .head (.main hidle (.procedure id) args) ?_⟩
    split
    · rename_i hok
      rw [hok] at hleads
      exact hleads
    · rename_i herror
      rw [herror] at hleads
      exact hleads
  · exact ⟨control, hidle, .refl⟩

theorem mem_of_mem_order
    {α : Type} {items ordered : List (Item α)} {item : Item α}
    (h : Schedule.order items = .ok ordered)
    (hitem : item ∈ ordered) :
    item ∈ items := by
  unfold Schedule.order at h
  split at h
  · cases h
    obtain ⟨i, -, hi⟩ := List.mem_filterMap.mp hitem
    exact List.mem_of_getElem? hi
  · cases h

/-- One initializer, with its result stored. -/
theorem leads_runInitializer
    (admits : Value → Prop) (s : Store) {control : Control} (held : List Continuation)
    {pending : List (Item Initializer)}
    {item : Item Initializer} {init : Initializer}
    (hidle : control.isIdle = true)
    (hitem : item ∈ pending)
    (hinit : item.init = some init)
    (h : ∀ reason, (Program.runInitializer s item.name init).1 ≠ some (.halted reason)) :
    ∃ control' : Control, control'.isIdle = true ∧
      Leads admits ⟨⟨s, [], control⟩, held, pending⟩
        ⟨⟨(Program.runInitializer s item.name init).2, [], control'⟩, held, pending⟩ := by
  unfold Program.runInitializer at h ⊢
  have hstart : Move admits ⟨⟨s, [], control⟩, held, pending⟩ _ := .prepare hidle hitem hinit
  have hfinish : ∀ reason, (Machine.enter s [] Program.rootEnvironment init.procedure [] []).finish.1 ≠
      .error (.halted reason) := by
    intro reason heq
    split at h
    · rename_i herror
      rw [herror] at heq
      cases heq
      exact h reason rfl
    · rename_i hok
      rw [hok] at heq
      cases heq
  obtain ⟨control', hidle', hok, hleads⟩ := leads_finish admits held pending hfinish
  split
  · rename_i herror
    rw [herror] at hleads
    exact ⟨control', hidle', .head hstart hleads⟩
  · rename_i o t hfinished
    rw [hfinished] at hleads hok
    cases hok o rfl
    split
    · rename_i v hvalue
      refine ⟨.returning o, rfl, .head hstart (hleads.tail ?_)⟩
      exact .assign hitem hinit hvalue
    · exact ⟨.returning o, rfl, .head hstart hleads⟩

/-- Several initializers, one after the other. -/
theorem leads_run_items
    (admits : Value → Prop) (held : List Continuation) {pending : List (Item Initializer)}
    (items : List (Item Initializer)) (s : Store) {control : Control}
    (hidle : control.isIdle = true)
    (hitems : ∀ item ∈ items, item ∈ pending)
    (h : ∀ reason, (Schedule.run Program.runInitializer s items).1 ≠ some (.halted reason)) :
    ∃ control' : Control, control'.isIdle = true ∧
      Leads admits ⟨⟨s, [], control⟩, held, pending⟩
        ⟨⟨(Schedule.run Program.runInitializer s items).2, [], control'⟩, held, pending⟩ := by
  induction items generalizing s control with
  | nil => exact ⟨control, hidle, .refl⟩
  | cons item rest ih =>
      have hrest : ∀ item ∈ rest, item ∈ pending :=
        fun x hx => hitems x (List.mem_cons_of_mem item hx)
      simp only [Schedule.run] at h ⊢
      cases hinit : item.init with
      | none =>
          simp only [hinit] at h
          exact ih s hidle hrest h
      | some init =>
          simp only [hinit] at h
          have hone := leads_runInitializer admits s held hidle (hitems item List.mem_cons_self) hinit
          cases hresult : Program.runInitializer s item.name init with
          | mk stop t =>
              rw [hresult] at hone
              cases stop with
              | none =>
                  simp only [hresult] at h ⊢
                  obtain ⟨c, hc, hleads⟩ := hone (by simp)
                  obtain ⟨c', hc', hleads'⟩ := ih t hc hrest h
                  exact ⟨c', hc', hleads.trans hleads'⟩
              | some stop =>
                  simp only [hresult] at h ⊢
                  exact hone h

/-- Initialization that comes to an end is a sequence of moves, after which nothing is pending. -/
theorem leads_runInitializers
    (p : Program) {control : Control} (held : List Continuation)
    (hidle : control.isIdle = true)
    (h : ∀ reason, p.runInitializers.1 ≠ .error (.halted reason)) :
    ∃ control' : Control, control'.isIdle = true ∧
      Leads admits ⟨⟨p.store, [], control⟩, held, p.pending⟩
        ⟨⟨p.runInitializers.2.store, [], control'⟩, held, []⟩ := by
  unfold Program.runInitializers at h ⊢
  split at h
  · exact ⟨control, hidle, .single (.settle _ held p.pending)⟩
  · rename_i items horder
    have hitems : ∀ item ∈ items, item ∈ p.pending := fun item => mem_of_mem_order horder
    have hreason : ∀ reason,
        (Schedule.run Program.runInitializer p.store items).1 ≠ some (.halted reason) := by
      intro reason heq
      split at h
      · rename_i hnone
        rw [hnone] at heq
        cases heq
      · rename_i hsome
        rw [hsome] at heq
        cases heq
        exact h reason rfl
    obtain ⟨c, hc, hleads⟩ := leads_run_items admits held items p.store hidle hitems hreason
    refine ⟨c, hc, ?_⟩
    split
    · rename_i hnone
      rw [hnone] at hleads
      exact hleads.tail (.settle _ held p.pending)
    · rename_i hsome
      rw [hsome] at hleads
      exact hleads.tail (.settle _ held p.pending)

end Course

end Course

end GoalDirected
