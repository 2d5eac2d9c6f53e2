import GoalDirected.Proofs.Machine.Activity
import Mathlib.Logic.Relation

/-!
# Sessions

A machine does not run alone.  A host makes a program and links procedures into it; between two runs it
calls values, applies operators, keeps the continuation of a suspended outcome and resumes it later, and
makes frames of its own and runs them.  A session is a machine together with what its host holds.

* `Move`: one step of the machine, or one act of the host while nothing runs.  A move is labelled with
  the call or the operator that it asks for.
* `Reachable`: the sessions that moves lead to from a new program.
* `prepares_link`: linking a program is an act that hosts have.
-/

namespace GoalDirected

section Session

/-! ## Linked procedures -/

/-- The declared labels. -/
def Code.labels (code : Code) : List Ir.Label :=
  code.chunks.map (·.label)

/-- The code of the procedure has passed linking. -/
def Procedure.IsLinked (p : Procedure) : Prop :=
  ∃ ir : Ir.Procedure, ir.link = .ok p.code

def Callable.IsLinked : Callable → Prop
  | .procedure p => p.IsLinked
  | _ => True

/-- A host has changed a store while nothing ran: data in any way, and callables by declaring linked
ones. -/
structure Store.Prepares (s t : Store) : Prop where
  frames : t.frames = s.frames
  producers : t.producers = s.producers
  callables : ∃ added : Array Callable,
    t.callables = s.callables ++ added ∧ ∀ c ∈ added, c.IsLinked

namespace Store.Prepares

theorem of_activity
    {s t : Store}
    (h : t.activity = s.activity) :
    s.Prepares t where
  frames := frames_eq_of_activity h
  producers := producers_eq_of_activity h
  callables := ⟨#[], by simpa using callables_eq_of_activity h, by simp⟩

theorem refl (s : Store) : s.Prepares s :=
  of_activity rfl

theorem trans
    {s t u : Store}
    (h : s.Prepares t)
    (h' : t.Prepares u) :
    s.Prepares u := by
  obtain ⟨added, hadded, hlinked⟩ := h.callables
  obtain ⟨added', hadded', hlinked'⟩ := h'.callables
  refine ⟨h'.frames.trans h.frames, h'.producers.trans h.producers, added ++ added', ?_, ?_⟩
  · rw [hadded', hadded, Array.append_assoc]
  · intro c hc
    rcases Array.mem_append.mp hc with hc | hc
    · exact hlinked c hc
    · exact hlinked' c hc

theorem newCallable
    (s : Store) {c : Callable}
    (hc : c.IsLinked) :
    s.Prepares (s.newCallable c).2 where
  frames := rfl
  producers := rfl
  callables := ⟨#[c], by simp [Store.newCallable], by simpa using hc⟩

/-- Declares a new callable. -/
theorem newCallable_declare
    (s : Store) {c : Callable} (namespaceName name : String) (v : Value)
    (hc : c.IsLinked) :
    s.Prepares ((s.newCallable c).2.declare namespaceName name v).2 :=
  (newCallable s hc).trans (of_activity (activity_declare _ namespaceName name v))

end Store.Prepares

namespace Program

theorem prepares_install (s : Store) (builtins : List Builtin) :
    s.Prepares (install s builtins) := by
  induction builtins generalizing s with
  | nil => exact Store.Prepares.refl s
  | cons b rest ih =>
      exact (Store.Prepares.newCallable_declare s (c := .builtin b) "" b.name _ trivial).trans (ih _)

theorem prepares_linkProcedure (s : Store) (ir : Ir.Procedure) :
    s.Prepares (linkProcedure s ir).2 ∧
      ∀ p, (linkProcedure s ir).1 = .ok p → p.IsLinked := by
  simp only [linkProcedure]
  cases hlink : ir.link with
  | error m =>
      exact ⟨Store.Prepares.of_activity (s.activity_namespaceIndex ir.namespaceName), by simp⟩
  | ok code =>
      refine ⟨Store.Prepares.of_activity (by simp), ?_⟩
      intro p hp
      cases hp
      exact ⟨ir, hlink⟩

theorem prepares_linkRecord (p : Program) (r : Ir.Record) :
    p.store.Prepares (linkRecord p r).2.store :=
  Store.Prepares.newCallable_declare p.store
    (c := .constructor (qualify r.namespaceName r.name) r.fields) r.namespaceName r.name _ trivial

theorem prepares_linkDeclaration (p : Program) (ir : Ir.Procedure) :
    p.store.Prepares (linkDeclaration p ir).2.store := by
  obtain ⟨hprepares, hlinked⟩ := prepares_linkProcedure p.store ir
  unfold linkDeclaration
  split
  · rename_i hlink
    rw [hlink] at hprepares
    exact hprepares
  · rename_i procedure s hlink
    rw [hlink] at hprepares hlinked
    have hdeclare := hprepares.trans (Store.Prepares.newCallable_declare s
      (c := .procedure procedure) procedure.code.namespaceName procedure.code.name
      (s.newCallable (.procedure procedure)).1 (hlinked procedure rfl))
    dsimp only
    split <;> rename_i hdeclared <;> rw [hdeclared] at hdeclare <;> exact hdeclare

theorem prepares_linkGlobal (p : Program) (g : Ir.Global) :
    p.store.Prepares (linkGlobal p g).2.store := by
  have hdeclare := Store.Prepares.of_activity
    (p.store.activity_declare g.namespaceName g.name .nil)
  unfold linkGlobal
  dsimp only
  split
  · rename_i hdeclared
    rw [hdeclared] at hdeclare
    exact hdeclare
  · rename_i hdeclared _
    rw [hdeclared] at hdeclare
    exact hdeclare
  · rename_i s ir hdeclared _
    rw [hdeclared] at hdeclare
    obtain ⟨hprepares, -⟩ := prepares_linkProcedure s ir
    split <;> rename_i hlink <;> rw [hlink] at hprepares <;> exact hdeclare.trans hprepares

theorem prepares_linkAll
    {α : Type} {link : Program → α → Except Malfunction Unit × Program}
    (hlink : ∀ (p : Program) (a : α), p.store.Prepares (link p a).2.store)
    (p : Program) (parts : List α) :
    p.store.Prepares (linkAll link p parts).2.store := by
  induction parts generalizing p with
  | nil => exact Store.Prepares.refl p.store
  | cons a rest ih =>
      have ha := hlink p a
      simp only [linkAll]
      split
      · rename_i hok
        rw [hok] at ha
        exact ha.trans (ih _)
      · rename_i herror
        rw [herror] at ha
        exact ha

/-- Linking declares linked callables, and leaves everything that can run alone. -/
theorem prepares_link (p : Program) (ir : Ir.Program) :
    p.store.Prepares (p.link ir).2.store := by
  have hrecords := prepares_linkAll prepares_linkRecord p ir.records
  unfold link
  split
  · rename_i herror
    rw [herror] at hrecords
    exact hrecords
  · rename_i p' hok
    rw [hok] at hrecords
    have hprocedures := prepares_linkAll prepares_linkDeclaration p' ir.procedures
    split
    · rename_i herror
      rw [herror] at hprocedures
      exact hrecords.trans hprocedures
    · rename_i p'' hok'
      rw [hok'] at hprocedures
      exact (hrecords.trans hprocedures).trans (prepares_linkAll prepares_linkGlobal p'' ir.globals)

end Program

/-! ## Requests -/

/-- What a frame or the host asks for: a call, or an operator. -/
inductive Request where
  | call (callee : Value) (args : List Value) (names : List String)
  | operator (op : String) (args : List Value)

/-- Does what is asked for, above a stack. -/
def Request.start (s : Store) (stack : List Context) (environment : Environment) :
    Request → Machine
  | .call callee args names => Machine.call s stack environment callee args names
  | .operator op args => Machine.invoke s stack op args

namespace Store

/-- The co-expression that a request activates. -/
def activated? (s : Store) : Request → Option Nat
  | .call _ _ _ => none
  | .operator op args =>
      match (s.invoke op args).1 with
      | .activate id => some id
      | .reply _ => none

/-- The co-expression that a request closes. -/
def closed? (s : Store) : Request → Option Nat
  | .operator _ _ => none
  | .call callee args names =>
      match s.deref callee with
      | .procedure id =>
          match s.callables[id]?, names.isEmpty, (args.map s.deref).getD 0 .nil with
          | some (.builtin .close), true, .coexpression c => some c
          | _, _, _ => none
      | _ => none

end Store

namespace Machine

/-- The call of the recovery procedure that a fault in a frame leads to. -/
def recovery? (s : Store) (stack : List Context) (frame : Nat) (r : Raised) :
    Option (Store × Request) :=
  match stack, s.frames[frame]?, r.fault with
  | .bare :: _, _, _ => none
  | _, some f, .exception cause offending =>
      f.recovery.map fun handler =>
        (s.setFrame frame { f with offender := f.offender.or offending.head?, recovery := none },
          .call handler (cause.value :: offending) [])
  | _, _, _ => none

/-- The request that an effect of a frame makes. -/
def effectRequest? (s : Store) (stack : List Context) (frame : Nat) :
    Effect → Option (Store × Request)
  | .call _ callee args names => some (s, .call callee args names)
  | .operator _ op args => some (s, .operator op args)
  | .fault e => recovery? s stack frame ⟨e, []⟩
  | _ => none

/-- The call or the operator that the next step asks for, with the store that it is asked of. -/
def request? : Machine → Option (Store × Request)
  | ⟨s, stack, .running frame _ (i :: _)⟩ =>
      match s.frames[frame]? with
      | none => none
      | some f =>
          let (effect, f, s) := s.execute f i
          effectRequest? (s.setFrame frame f) stack frame effect
  | ⟨s, .awaiting frame _ _ _ :: stack, .raising r⟩ => recovery? s stack frame r
  | _ => none

/-- The contexts from the innermost consumer on. -/
theorem exists_of_innermostConsumer?
    {id : Nat} {stack rest : List Context}
    (h : innermostConsumer? stack = some (id, rest)) :
    ∃ before, stack = before ++ .consuming id :: rest := by
  induction stack with
  | nil => cases h
  | cons x stack ih =>
      cases x with
      | consuming other =>
          cases h
          exact ⟨[], rfl⟩
      | awaiting frame label rest' d =>
          obtain ⟨before, rfl⟩ := ih h
          exact ⟨_ :: before, rfl⟩
      | recovering frame =>
          obtain ⟨before, rfl⟩ := ih h
          exact ⟨_ :: before, rfl⟩
      | bare =>
          obtain ⟨before, rfl⟩ := ih h
          exact ⟨_ :: before, rfl⟩

/-- No recovery procedure is called for a malfunction. -/
theorem recovery?_malfunction
    (s : Store) (stack : List Context) (frame : Nat) (m : Malfunction) (trace : List TraceEntry) :
    recovery? s stack frame ⟨.malfunction m, trace⟩ = none := by
  unfold recovery?
  split
  · rfl
  · rename_i hexception
    cases hexception
  · rfl

/-- The ways of a fault: a frame that runs on its own is left without a trace, a recovery procedure is
called, or the activation is left. -/
theorem fault_cases (s : Store) (stack : List Context) (frame : Nat) (r : Raised) :
    (∃ rest, stack = .bare :: rest ∧ recovery? s stack frame r = none ∧
      fault s stack frame r = ⟨s, rest, .raising r⟩) ∨
    (∃ f g q environment, s.frames[frame]? = some f ∧ g.temps = f.temps ∧
      recovery? s stack frame r = some (s.setFrame frame g, q) ∧
      fault s stack frame r = q.start (s.setFrame frame g) (.recovering frame :: stack) environment) ∨
    (recovery? s stack frame r = none ∧ fault s stack frame r = leave s stack frame r) ∨
    (∃ f g, s.frames[frame]? = some f ∧ g.temps = f.temps ∧ recovery? s stack frame r = none ∧
      fault s stack frame r = leave (s.setFrame frame g) stack frame r) := by
  unfold recovery?
  split
  · exact Or.inl ⟨_, rfl, rfl, rfl⟩
  · rename_i stack f cause offending hbare hframe hexception
    right
    cases hrecovery : f.recovery with
    | none =>
        refine Or.inr (Or.inr ⟨f, { f with offender := f.offender.or offending.head? }, hframe, rfl,
          rfl, ?_⟩)
        unfold fault
        split
        · exact absurd rfl (hbare _)
        · simp_all
        · simp_all
    | some handler =>
        refine Or.inl ⟨f, { f with offender := f.offender.or offending.head?, recovery := none },
          .call handler (cause.value :: offending) [], f.environment, hframe, rfl, rfl, ?_⟩
        unfold fault
        split
        · exact absurd rfl (hbare _)
        · simp_all [Request.start]
        · simp_all
  · rename_i stack hbare hexception
    refine Or.inr (Or.inr (Or.inl ⟨rfl, ?_⟩))
    unfold fault
    split
    · exact absurd rfl (hbare _)
    · simp_all
    · rfl

end Machine

/-! ## Moves -/

/-- Nothing runs above, and the machine has not been stopped. -/
def Control.isIdle : Control → Bool
  | .returning _ => true
  | .raising _ => true
  | _ => false

/-- The machine has been stopped, whatever waits. -/
def Control.isStopped : Control → Bool
  | .halted _ => true
  | .aborted _ => true
  | _ => false

theorem Machine.isFinished_of_isIdle
    {control : Control}
    (hidle : control.isIdle = true)
    (s : Store) :
    Machine.isFinished ⟨s, [], control⟩ = true := by
  cases control with
  | returning o => rfl
  | raising r => rfl
  | running frame label rest => cases hidle
  | halted reason => cases hidle
  | aborted r => cases hidle

theorem Machine.isFinished_of_isStopped
    {control : Control}
    (hstopped : control.isStopped = true)
    (s : Store) (stack : List Context) :
    Machine.isFinished ⟨s, stack, control⟩ = true := by
  cases control with
  | halted reason => rfl
  | aborted r => rfl
  | running frame label rest => cases hstopped
  | returning o => cases hstopped
  | raising r => cases hstopped

/-- A machine that has been stopped asks for nothing. -/
theorem Machine.request?_of_isStopped
    {control : Control}
    (hstopped : control.isStopped = true)
    (s : Store) (stack : List Context) :
    Machine.request? ⟨s, stack, control⟩ = none := by
  unfold Machine.request?
  split
  · rename_i heq
    cases heq
    cases hstopped
  · rename_i heq
    cases heq
    cases hstopped
  · rfl

/-- A machine with what its host holds. -/
structure Session where
  machine : Machine
  /-- Continuations that the host has kept, each for one resumption. -/
  held : List Continuation
  /-- Frames that the host has made for itself. -/
  own : List Nat

namespace Session

/-- A new program, of which nothing has run. -/
def new (maxTasks : Nat) : Session :=
  ⟨⟨(Program.new maxTasks).store, [], .returning .fail⟩, [], []⟩

/-- One step of the machine, or one act of the host while nothing runs, with what it asks for. -/
inductive Move : Session → Option (Store × Request) → Session → Prop
  | step
      (m : Machine) (held : List Continuation) (own : List Nat) :
      Move ⟨m, held, own⟩ m.request? ⟨m.step, held, own⟩
  /-- The host links, or changes data. -/
  | prepare
      {s t : Store} {control : Control} {held : List Continuation} {own : List Nat}
      (hidle : control.isIdle = true)
      (hprepares : s.Prepares t) :
      Move ⟨⟨s, [], control⟩, held, own⟩ none ⟨⟨t, [], control⟩, held, own⟩
  /-- The host keeps the continuation of an outcome. -/
  | keep
      (s : Store) (v : Value) (k : Continuation) (held : List Continuation) (own : List Nat) :
      Move ⟨⟨s, [], .returning (.suspended v k)⟩, held, own⟩ none
        ⟨⟨s, [], .returning (.result v)⟩, k :: held, own⟩
  /-- The host calls a value, or applies an operator. -/
  | request
      {s : Store} {control : Control} {held : List Continuation} {own : List Nat}
      (hidle : control.isIdle = true)
      (environment : Environment) (q : Request) :
      Move ⟨⟨s, [], control⟩, held, own⟩ (some (s, q)) ⟨q.start s [] environment, held, own⟩
  /-- A continuation is used up by its resumption. -/
  | resume
      {s : Store} {control : Control} {own : List Nat}
      (hidle : control.isIdle = true)
      (before : List Continuation) (k : Continuation) (after : List Continuation) :
      Move ⟨⟨s, [], control⟩, before ++ k :: after, own⟩ none
        ⟨Machine.resume s [] k, before ++ after, own⟩
  /-- The host enters a procedure that need not be declared, such as an initializer. -/
  | enter
      {s : Store} {control : Control} {held : List Continuation} {own : List Nat} {p : Procedure}
      (hidle : control.isIdle = true)
      (hlinked : p.IsLinked)
      (environment : Environment) (args : List Value) (names : List String) :
      Move ⟨⟨s, [], control⟩, held, own⟩ none
        ⟨Machine.enter s [] environment p args names, held, own⟩
  /-- The host makes a frame. -/
  | make
      {s : Store} {control : Control} {held : List Continuation} {own : List Nat} {p : Procedure}
      (hidle : control.isIdle = true)
      (hlinked : p.IsLinked)
      (environment : Environment) (args : List Value) (vars : Bindings) :
      Move ⟨⟨s, [], control⟩, held, own⟩ none
        ⟨⟨(s.newFrame (.new environment p args vars)).2, [], control⟩, held, s.frames.size :: own⟩
  /-- The host copies a frame of its own. -/
  | copy
      {s : Store} {control : Control} {held : List Continuation} {own : List Nat} {n : Nat}
      {f : Frame}
      (hidle : control.isIdle = true)
      (hown : n ∈ own)
      (hframe : s.frames[n]? = some f)
      (environment : Environment) :
      Move ⟨⟨s, [], control⟩, held, own⟩ none
        ⟨⟨((s.duplicateFrame f environment).2.newFrame (s.duplicateFrame f environment).1).2, [],
          control⟩, held, s.frames.size :: own⟩
  /-- The host runs a frame of its own from a declared label, and keeps the frame. -/
  | run
      {s : Store} {control : Control} {held : List Continuation} {own : List Nat} {n : Nat}
      {f : Frame} {label : Ir.Label}
      (hidle : control.isIdle = true)
      (hown : n ∈ own)
      (hframe : s.frames[n]? = some f)
      (hlabel : label ∈ f.procedure.code.labels) :
      Move ⟨⟨s, [], control⟩, held, own⟩ none ⟨Machine.bareRun s n label, held, own⟩
  /-- The host turns a frame of its own into an activation. -/
  | activate
      {s : Store} {control : Control} {held : List Continuation} {n : Nat} {f : Frame}
      {label : Ir.Label}
      (hidle : control.isIdle = true)
      (before after : List Nat)
      (hframe : s.frames[n]? = some f)
      (hlabel : label ∈ f.procedure.code.labels) :
      Move ⟨⟨s, [], control⟩, held, before ++ n :: after⟩ none
        ⟨Machine.jump s [] n label, held, before ++ after⟩

/-- Some move leads from one session to the other. -/
def Leads (σ τ : Session) : Prop :=
  ∃ q, Move σ q τ

/-- Some sequence of moves leads from a new program to the session. -/
def Reachable (σ : Session) : Prop :=
  ∃ maxTasks, Relation.ReflTransGen Leads (new maxTasks) σ

theorem Reachable.move
    {σ τ : Session} {q : Option (Store × Request)}
    (h : Reachable σ)
    (hmove : Move σ q τ) :
    Reachable τ := by
  obtain ⟨maxTasks, h⟩ := h
  exact ⟨maxTasks, h.tail ⟨q, hmove⟩⟩

theorem Reachable.new (maxTasks : Nat) : Reachable (new maxTasks) :=
  ⟨maxTasks, Relation.ReflTransGen.refl⟩

/-- Letting a machine run is a sequence of moves. -/
theorem leads_run (m : Machine) (held : List Continuation) (own : List Nat) (fuel : Nat) :
    Relation.ReflTransGen Leads ⟨m, held, own⟩ ⟨m.run fuel, held, own⟩ := by
  induction fuel generalizing m with
  | zero => exact Relation.ReflTransGen.refl
  | succ fuel ih =>
      simp only [Machine.run]
      split
      · exact Relation.ReflTransGen.refl
      · exact Relation.ReflTransGen.head ⟨_, Move.step m held own⟩ (ih m.step)

/-- What holds of new programs and is kept by every move holds of every reachable session. -/
theorem Reachable.invariant
    {I : Session → Prop}
    (hnew : ∀ maxTasks, I (Session.new maxTasks))
    (hmove : ∀ σ q τ, I σ → Move σ q τ → I τ)
    {σ : Session}
    (h : Reachable σ) :
    I σ := by
  obtain ⟨maxTasks, h⟩ := h
  induction h with
  | refl => exact hnew maxTasks
  | tail _ hlast ih =>
      obtain ⟨q, hlast⟩ := hlast
      exact hmove _ q _ ih hlast

theorem prepares_new (maxTasks : Nat) :
    Store.Prepares { nodes := #[⟨0, []⟩], namespaces := #[⟨"", []⟩], limit := max 1 maxTasks }
      (Session.new maxTasks).machine.store :=
  Program.prepares_install _ Builtin.all

end Session

end Session

end GoalDirected
