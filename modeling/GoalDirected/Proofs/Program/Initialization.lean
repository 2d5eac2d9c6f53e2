import GoalDirected.Proofs.Machine.Rotation
import GoalDirected.Proofs.Program.Dependencies

/-!
# Which initializers run

**Input.** A new program, and any sequence of calls that link more of it, ask for the order of initialization, or
initialize it.  Linking may end with a malfunction, and initialization with whatever an initializer raises.

**Argument.** What is pending waits for the cells of its own globals (`Listed`): linking adds globals with new cells,
and neither linking nor a run takes a cell or a name of the root away (`Sustains`).  Initialization leaves nothing
pending, so what has been executed, and what is still to be, never have a cell in common.  To speak of
executions, the loop over initializers is run with a note of each one (`run_noteInitializer`).

**Results.**
* `Performed`: what one initialization executes, in which order, and what it stores.
* `initializers_run_once`: all initializations together execute no initializer twice, and each one executes the
  initializers of its order, up to the one that stops it.
-/

namespace GoalDirected

section Initialization

/-! ## Stores that grow -/

/-- No cell and no name of the root is taken away. -/
structure Store.Sustains (s t : Store) : Prop where
  cells : s.cells.size ≤ t.cells.size
  rooted : s.IsRooted → t.IsRooted
  root : s.IsRooted → ∀ name c, s.rootGlobal? name = some c → t.rootGlobal? name = some c

namespace Store

variable {s t u : Store}

theorem Sustains.refl (s : Store) : s.Sustains s :=
  ⟨Nat.le_refl _, id, fun _ _ _ h => h⟩

theorem Sustains.trans
    (h : s.Sustains t)
    (h' : t.Sustains u) :
    s.Sustains u :=
  ⟨Nat.le_trans h.cells h'.cells, fun hs => h'.rooted (h.rooted hs),
    fun hs name c hc => h'.root (h.rooted hs) name c (h.root hs name c hc)⟩

theorem Onward.sustains
    {k : Nat}
    (h : s.Onward k t) :
    s.Sustains t := by
  have hhome : t.home? = s.home? := by
    funext ns
    rw [home?, home?, h.namespaces]
  refine ⟨h.cells, fun hs => ?_, fun _ name c hc => ?_⟩
  · rwa [IsRooted, hhome]
  · rwa [rootGlobal?, global?, entries, h.namespaces]

theorem sustains_newCallable (s : Store) (c : Callable) : s.Sustains (s.newCallable c).2 :=
  ⟨Nat.le_refl _, id, fun _ _ _ h => h⟩

theorem sustains_namespaceIndex (s : Store) (ns : String) : s.Sustains (s.namespaceIndex ns).2 := by
  obtain ⟨htable, -, hcells, hkeep⟩ := s.namespaceIndex_spec ns
  refine ⟨Nat.le_of_eq (congrArg Array.size hcells).symm, fun hs => hkeep _ _ hs, fun hs name c hc => ?_⟩
  rw [rootGlobal?_eq (hkeep _ _ hs), htable, ← rootGlobal?_eq hs]
  exact hc

theorem sustains_declare (s : Store) (ns name : String) (v : Value) : s.Sustains (s.declare ns name v).2 := by
  have hcells : s.cells.size ≤ (s.declare ns name v).2.cells.size := by
    have hindex := (s.sustains_namespaceIndex ns).cells
    simp only [declare]
    split
    · exact hindex
    · split
      · simp only [cells_addEntry, size_allocate]
        omega
      · split <;> simp only [cells_addEntry, size_allocate] <;> omega
  refine ⟨hcells, fun hs => home?_declare hs ns name v, fun hs other c hc => ?_⟩
  rw [rootGlobal?_eq (home?_declare hs ns name v)]
  exact (declares_declare hs ns name v).get?_eq_some ((rootGlobal?_eq hs other) ▸ hc)

end Store

namespace Program

variable {p : Program}

theorem sustains_linkProcedure (s : Store) (ir : Ir.Procedure) : s.Sustains (linkProcedure s ir).2 := by
  have hindex := s.sustains_namespaceIndex ir.namespaceName
  simp only [linkProcedure]
  cases ir.link with
  | error m => exact hindex
  | ok code => exact hindex.trans (Store.updates_bindAll _ [] _).onward.sustains

/-- What every part of linking keeps is kept by linking, whether or not it succeeds. -/
theorem link_keeps
    {P : Program → Prop}
    (hrecord : ∀ p r, P p → P (linkRecord p r).2)
    (hdeclaration : ∀ p ir, P p → P (linkDeclaration p ir).2)
    (hglobal : ∀ p g, P p → P (linkGlobal p g).2)
    (hp : P p)
    (ir : Ir.Program) :
    P (p.link ir).2 := by
  have hall : ∀ {α : Type} (link : Program → α → Except Malfunction Unit × Program),
      (∀ p a, P p → P (link p a).2) → ∀ (parts : List α) (p : Program), P p → P (linkAll link p parts).2 := by
    intro α link hlink parts
    induction parts with
    | nil => exact fun p hp => hp
    | cons a rest ih =>
        intro p hp
        have ha := hlink p a hp
        simp only [linkAll]
        split <;> rename_i heq <;> rw [heq] at ha
        · exact ih _ ha
        · exact ha
  have hrecords := hall linkRecord hrecord ir.records p hp
  unfold link
  split <;> rename_i heq <;> rw [heq] at hrecords
  · exact hrecords
  · have hprocedures := hall linkDeclaration hdeclaration ir.procedures _ hrecords
    split <;> rename_i heq' <;> rw [heq'] at hprocedures
    · exact hprocedures
    · exact hall linkGlobal hglobal ir.globals _ hprocedures

end Program

/-! ## What is pending -/

/-- The initializers of items with the names of their globals, in order. -/
def Schedule.initializers {α : Type} (items : List (Item α)) : List (String × α) :=
  items.filterMap fun item => item.init.map fun init => (item.name, init)

namespace Program

variable {p : Program} {done : List CellId}

/-- The cells of the globals that wait for their initializers. -/
def targets (p : Program) : List CellId :=
  (Schedule.initializers p.pending).map (·.2.cell)

theorem targets_append (t : Store) (pending : List (Item Initializer)) (item : Item Initializer) :
    targets ⟨t, pending ++ [item]⟩ = targets ⟨t, pending⟩ ++ (item.init.map (·.cell)).toList := by
  simp only [targets, Schedule.initializers, List.filterMap_append, List.map_append]
  cases hinit : item.init <;> simp [hinit]

/-- Every pending item has a name of its own in the root, which stands for the cell that its initializer is for;
and these cells are different from each other and from the given ones. -/
structure Listed (p : Program) (done : List CellId) : Prop where
  rooted : p.store.IsRooted
  names : (p.pending.map (·.name)).Nodup
  declared : ∀ item ∈ p.pending, ∃ c, p.store.rootGlobal? item.name = some c ∧
    ∀ init, item.init = some init → init.cell = c
  cells : (done ++ p.targets).Nodup
  bounded : ∀ c : Nat, c ∈ done ++ p.targets → c < p.store.cells.size

namespace Listed

variable {s t : Store}

theorem of_sustains
    (h : p.Listed done)
    (ht : p.store.Sustains t) :
    Listed { p with store := t } done := by
  refine ⟨ht.rooted h.rooted, h.names, fun item hitem => ?_, h.cells, fun c hc => ?_⟩
  · obtain ⟨c, hc, hinit⟩ := h.declared item hitem
    exact ⟨c, ht.root h.rooted _ c hc, hinit⟩
  · exact Nat.lt_of_lt_of_le (h.bounded c hc) ht.cells

/-- One more item, with the name and the cell of a new declaration. -/
theorem add
    (h : p.Listed done)
    (hs : p.store.Sustains s)
    {ns name : String} {v : Value} {c : CellId} {init : Option Initializer}
    (hdeclare : s.declare ns name v = (.ok c, t))
    (hinit : ∀ i, init = some i → i.cell = c)
    (deps : List String) :
    Listed ⟨t, p.pending ++ [⟨qualify ns name, init, deps⟩]⟩ done := by
  have hrooted := hs.rooted h.rooted
  have hdeclares := Store.declares_declare hrooted ns name v
  have ht := s.sustains_declare ns name v
  have hnew := Store.isNew_declare hdeclare
  rw [hdeclare] at hdeclares ht
  obtain ⟨hnone, hsome⟩ := hdeclares.fresh
  have hlisted := h.of_sustains (hs.trans ht)
  have hcell : ∀ a ∈ (init.map (·.cell)).toList, a = c := by
    intro a ha
    obtain ⟨i, hi, rfl⟩ := Option.map_eq_some_iff.mp (Option.mem_toList.mp ha)
    exact hinit i hi
  refine ⟨hlisted.rooted, ?_, ?_, ?_, ?_⟩
  · rw [List.map_append, List.nodup_append]
    refine ⟨h.names, by simp, ?_⟩
    intro m hm n hn
    simp only [List.map_cons, List.map_nil, List.mem_singleton] at hn
    obtain ⟨item, hitem, rfl⟩ := List.mem_map.mp hm
    rintro rfl
    obtain ⟨d, hd, -⟩ := h.declared item hitem
    have hd' := hs.root h.rooted _ d hd
    rw [Store.rootGlobal?_eq hrooted, hn, hnone] at hd'
    cases hd'
  · intro item hitem
    rcases List.mem_append.mp hitem with hold | hnew
    · exact hlisted.declared item hold
    · rw [List.mem_singleton.mp hnew]
      exact ⟨c, (Store.rootGlobal?_eq hlisted.rooted _).trans hsome, hinit⟩
  · rw [targets_append, ← List.append_assoc]
    refine List.nodup_append.mpr ⟨h.cells, by cases init <;> simp, ?_⟩
    intro a ha b hb
    have hlt := Nat.lt_of_lt_of_le (h.bounded a ha) hs.cells
    rw [hcell b hb]
    exact Nat.ne_of_lt (Nat.lt_of_lt_of_le hlt hnew.1)
  · intro a ha
    rw [targets_append, ← List.append_assoc] at ha
    rcases List.mem_append.mp ha with ha | ha
    · exact hlisted.bounded a ha
    · rw [hcell a ha]
      exact hnew.2

end Listed

theorem listed_linkRecord
    (h : p.Listed done)
    (r : Ir.Record) :
    (linkRecord p r).2.Listed done :=
  h.of_sustains ((p.store.sustains_newCallable _).trans (Store.sustains_declare _ _ _ _))

theorem listed_linkDeclaration
    (h : p.Listed done)
    (ir : Ir.Procedure) :
    (linkDeclaration p ir).2.Listed done := by
  have hlink := sustains_linkProcedure p.store ir
  unfold linkDeclaration
  split <;> rename_i heq <;> rw [heq] at hlink
  · exact h.of_sustains hlink
  · rename_i procedure s
    have hcallable := hlink.trans (s.sustains_newCallable (.procedure procedure))
    have hdeclare := hcallable.trans (Store.sustains_declare _ procedure.code.namespaceName procedure.code.name
      (s.newCallable (.procedure procedure)).1)
    dsimp only
    split <;> rename_i heq' <;> rw [heq'] at hdeclare
    · exact h.of_sustains hdeclare
    · rw [qualified_linkProcedure heq]
      exact h.add hcallable heq' (fun _ hi => by cases hi) procedure.code.deps

theorem listed_linkGlobal
    (h : p.Listed done)
    (g : Ir.Global) :
    (linkGlobal p g).2.Listed done := by
  have hdeclare := p.store.sustains_declare g.namespaceName g.name .nil
  unfold linkGlobal
  dsimp only
  split
  · rename_i heq
    rw [heq] at hdeclare
    exact h.of_sustains hdeclare
  · rename_i heq _
    exact h.add (.refl _) heq (fun _ hi => by cases hi) g.deps
  · rename_i cell s ir heq _
    have hlink := sustains_linkProcedure s ir
    split <;> rename_i heq' <;> rw [heq'] at hlink
    · rw [heq] at hdeclare
      exact h.of_sustains (hdeclare.trans hlink)
    · rename_i procedure t
      have hcell : ∀ i, some (⟨cell, procedure⟩ : Initializer) = some i → i.cell = cell := by
        rintro i ⟨⟩
        rfl
      exact (h.add (.refl _) heq hcell g.deps).of_sustains hlink

/-- Linking adds globals with cells of their own. -/
theorem listed_link
    (h : p.Listed done)
    (ir : Ir.Program) :
    (p.link ir).2.Listed done :=
  link_keeps (P := fun q => q.Listed done) (fun _ r h => listed_linkRecord h r)
    (fun _ ir h => listed_linkDeclaration h ir) (fun _ g h => listed_linkGlobal h g) h ir

theorem listed_new (maxTasks : Nat) : (new maxTasks).Listed [] := by
  have hrooted : ∀ (builtins : List Builtin) (s : Store), s.IsRooted → (install s builtins).IsRooted := by
    intro builtins
    induction builtins with
    | nil => exact fun s hs => hs
    | cons b rest ih =>
        exact fun s hs => ih _ ((Store.sustains_declare _ "" b.name _).rooted ((s.sustains_newCallable _).rooted hs))
  let s : Store := { nodes := #[⟨0, []⟩], limit := max 1 maxTasks }
  exact ⟨hrooted _ _ s.isRooted_undeclared, List.nodup_nil, nofun, List.nodup_nil, nofun⟩

/-! ## Executions -/

/-- One execution of an initializer, with the stores before and after it. -/
structure Execution where
  name : String
  init : Initializer
  before : Store
  after : Store

namespace Execution

/-- The name of the global, and its initializer. -/
def entry (e : Execution) : String × Initializer :=
  (e.name, e.init)

/-- The run of the initializer's procedure. -/
def finish (e : Execution) : Except Machine.Stop Outcome × Store :=
  (Machine.enter e.before [] rootEnvironment e.init.procedure [] []).finish

/-- The cell of the global gets the value that the procedure has produced, dereferenced after the run; without a
value nothing but the run happens to the store. -/
structure Stores (e : Execution) : Prop where
  value : ∀ o v, e.finish.1 = .ok o → o.value? = some v →
    e.after = e.finish.2.write e.init.cell (e.finish.2.deref v)
  failure : ∀ o, e.finish.1 = .ok o → o.value? = none → e.after = e.finish.2
  stop : ∀ reason, e.finish.1 = .error reason → e.after = e.finish.2

end Execution

/-- Runs one initializer, and notes its execution. -/
def noteInitializer (state : Store × List Execution) (name : String) (init : Initializer) :
    Option Machine.Stop × Store × List Execution :=
  let (stop, after) := runInitializer state.1 name init
  (stop, after, state.2 ++ [⟨name, init, state.1, after⟩])

/-- The executions of initializers by `runInitializers`, in order. -/
def executions (p : Program) : List Execution :=
  match Schedule.order p.pending with
  | .error _ => []
  | .ok items => (Schedule.run noteInitializer (p.store, []) items).2.2

/-- Each execution starts with the store that the one before it has left. -/
inductive Follows : Store → List Execution → Store → Prop
  | nil (s : Store) : Follows s [] s
  | cons
      {e : Execution} {rest : List Execution} {t : Store}
      (h : Follows e.after rest t) :
      Follows e.before (e :: rest) t

/-- What the initialization of items executes and stores, from one store to another. -/
structure Performed (s : Store) (items : List (Item Initializer)) (done : List Execution)
    (stop : Option Machine.Stop) (t : Store) : Prop where
  follows : Follows s done t
  stores : ∀ e ∈ done, e.Stores
  /-- If nothing stops it, it executes all initializers. -/
  all : stop = none →
    done.map Execution.entry = Schedule.initializers items ∧ ∀ e ∈ done, ∃ o, e.finish.1 = .ok o
  /-- Otherwise it executes them up to the one that stops it. -/
  stopped : ∀ reason, stop = some reason →
    ∃ front last rest, done = front ++ [last] ∧
      Schedule.initializers items = done.map Execution.entry ++ rest ∧
      last.finish.1 = .error reason ∧ ∀ e ∈ front, ∃ o, e.finish.1 = .ok o

theorem stores_runInitializer (s : Store) (name : String) (init : Initializer) :
    (Execution.mk name init s (runInitializer s name init).2).Stores := by
  unfold runInitializer
  constructor
  · intro o v ho hv
    simp only [Execution.finish] at ho ⊢
    split
    · rename_i heq
      rw [heq] at ho
      cases ho
    · rename_i heq
      rw [heq] at ho ⊢
      cases ho
      simp only [hv]
  · intro o ho hv
    simp only [Execution.finish] at ho ⊢
    split
    · rename_i heq
      rw [heq] at ho
      cases ho
    · rename_i heq
      rw [heq] at ho ⊢
      cases ho
      simp only [hv]
  · intro reason hreason
    simp only [Execution.finish] at hreason ⊢
    split
    · rename_i heq
      rw [heq]
    · rename_i heq
      rw [heq] at hreason
      cases hreason

/-- An initializer stops the initialization exactly if its procedure has no outcome. -/
theorem stop_runInitializer (s : Store) (name : String) (init : Initializer) :
    match (runInitializer s name init).1 with
    | none => ∃ o, (Machine.enter s [] rootEnvironment init.procedure [] []).finish.1 = .ok o
    | some reason => (Machine.enter s [] rootEnvironment init.procedure [] []).finish.1 = .error reason := by
  unfold runInitializer
  split
  · rename_i heq
    split at heq
    · cases heq
    · rename_i hok
      exact ⟨_, congrArg Prod.fst hok⟩
  · rename_i heq
    split at heq
    · rename_i herror
      cases heq
      exact congrArg Prod.fst herror
    · split at heq <;> cases heq

/-- With notes, the loop over initializers does what it does without them; and the notes say what it has done. -/
theorem run_noteInitializer
    (items : List (Item Initializer)) (s : Store) (log : List Execution) :
    ∃ done,
      Schedule.run noteInitializer (s, log) items =
        ((Schedule.run runInitializer s items).1, (Schedule.run runInitializer s items).2, log ++ done) ∧
      Performed s items done (Schedule.run runInitializer s items).1 (Schedule.run runInitializer s items).2 := by
  induction items generalizing s log with
  | nil =>
      refine ⟨[], by simp [Schedule.run], .nil s, ?_, fun _ => ⟨rfl, ?_⟩, ?_⟩
      · intro _ h
        cases h
      · intro _ h
        cases h
      · intro reason hreason
        cases hreason
  | cons item rest ih =>
      cases hinit : item.init with
      | none =>
          have hrun : ∀ {σ : Type} (execute : σ → String → Initializer → Option Machine.Stop × σ) (state : σ),
              Schedule.run execute state (item :: rest) = Schedule.run execute state rest := by
            intro σ execute state
            simp only [Schedule.run, hinit]
          have hsame : Schedule.initializers (item :: rest) = Schedule.initializers rest := by
            simp [Schedule.initializers, hinit]
          obtain ⟨done, heq, hperformed⟩ := ih s log
          refine ⟨done, by rw [hrun, hrun, heq], ?_⟩
          rw [hrun]
          exact ⟨hperformed.follows, hperformed.stores, hsame ▸ hperformed.all, hsame ▸ hperformed.stopped⟩
      | some init =>
          have hcons : Schedule.initializers (item :: rest) = (item.name, init) :: Schedule.initializers rest := by
            simp [Schedule.initializers, hinit]
          have hstores := stores_runInitializer s item.name init
          have hstop := stop_runInitializer s item.name init
          simp only [Schedule.run, hinit, noteInitializer]
          generalize runInitializer s item.name init = result at hstores hstop
          obtain ⟨stop, after⟩ := result
          cases stop with
          | some reason =>
              refine ⟨[⟨item.name, init, s, after⟩], rfl, .cons (e := ⟨_, _, s, after⟩) (.nil after), ?_, ?_, ?_⟩
              · intro e he
                cases List.mem_singleton.mp he
                exact hstores
              · intro hnone
                cases hnone
              · rintro _ ⟨⟩
                refine ⟨[], _, Schedule.initializers rest, rfl, hcons, hstop, ?_⟩
                intro e he
                cases he
          | none =>
              obtain ⟨done, heq, hperformed⟩ := ih after (log ++ [⟨item.name, init, s, after⟩])
              refine ⟨⟨item.name, init, s, after⟩ :: done, ?_,
                .cons (e := ⟨_, _, s, after⟩) hperformed.follows, ?_, ?_, ?_⟩
              · simp only [heq, List.append_assoc, List.singleton_append]
              · intro e he
                rcases List.mem_cons.mp he with rfl | he
                · exact hstores
                · exact hperformed.stores e he
              · intro hnone
                obtain ⟨hentries, hok⟩ := hperformed.all hnone
                refine ⟨by rw [hcons, List.map_cons, hentries]; rfl, ?_⟩
                intro e he
                rcases List.mem_cons.mp he with rfl | he
                · exact hstop
                · exact hok e he
              · intro reason hreason
                obtain ⟨front, last, rest', rfl, hentries, hlast, hok⟩ := hperformed.stopped reason hreason
                refine ⟨_ :: front, last, rest', rfl, by rw [hcons, hentries]; rfl, hlast, ?_⟩
                intro e he
                rcases List.mem_cons.mp he with rfl | he
                · exact hstop
                · exact hok e he

/-! ## One initialization -/

variable {s t : Store} {items : List (Item Initializer)} {log : List Execution} {stop : Option Machine.Stop}

/-- The initializers that are executed come first among all of them. -/
theorem Performed.exists_rest
    (h : Performed s items log stop t) :
    ∃ rest, Schedule.initializers items = log.map Execution.entry ++ rest := by
  cases stop with
  | none => exact ⟨[], by rw [List.append_nil, (h.all rfl).1]⟩
  | some reason =>
      obtain ⟨_, _, rest, -, hentries, -⟩ := h.stopped reason rfl
      exact ⟨rest, hentries⟩

theorem Execution.Stores.sustains
    {e : Execution}
    (h : e.Stores) :
    e.finish.2.Sustains e.after := by
  cases hfinish : e.finish.1 with
  | error reason =>
      rw [h.stop reason hfinish]
      exact .refl _
  | ok o =>
      cases hv : o.value? with
      | none =>
          rw [h.failure o hfinish hv]
          exact .refl _
      | some v =>
          rw [h.value o v hfinish hv]
          exact (Store.updates_write _ _ _).onward.sustains

theorem Execution.sustains_finish (e : Execution) : e.before.Sustains e.finish.2 := by
  have henter := Machine.onward_enter e.before [] rootEnvironment e.init.procedure [] []
  obtain ⟨k, hrun⟩ := Machine.onward_finish (Machine.enter e.before [] rootEnvironment e.init.procedure [] [])
  exact henter.sustains.trans hrun.sustains

theorem Follows.sustains
    (h : Follows s log t)
    (hlog : ∀ e ∈ log, e.Stores) :
    s.Sustains t ∧ ∀ e ∈ log, s.Sustains e.before := by
  induction h with
  | nil s => exact ⟨.refl s, nofun⟩
  | @cons e rest t hrest ih =>
      have hone := e.sustains_finish.trans (hlog e List.mem_cons_self).sustains
      obtain ⟨hlast, hbefore⟩ := ih fun x hx => hlog x (List.mem_cons_of_mem e hx)
      refine ⟨hone.trans hlast, fun x hx => ?_⟩
      rcases List.mem_cons.mp hx with rfl | hx
      · exact .refl _
      · exact hone.trans (hbefore x hx)

/-- Initialization performs the initializers of the order that it asks for. -/
theorem performed_executions
    (horder : Schedule.order p.pending = .ok items) :
    ∃ stop : Option Machine.Stop,
      p.runInitializers.1 = stop.elim (.ok ()) .error ∧ p.runInitializers.2.pending = [] ∧
      Performed p.store items p.executions stop p.runInitializers.2.store := by
  obtain ⟨done, heq, hperformed⟩ := run_noteInitializer items p.store []
  have hdone : p.executions = done := by
    simp only [executions, horder, heq, List.nil_append]
  refine ⟨(Schedule.run runInitializer p.store items).1, ?_⟩
  rw [hdone]
  generalize hrun : Schedule.run runInitializer p.store items = result at hperformed
  obtain ⟨stop, t⟩ := result
  cases stop <;> simp only [runInitializers, horder, hrun, true_and] <;> exact ⟨rfl, hperformed⟩

theorem runInitializers_of_circular
    {f : Fault}
    (horder : Schedule.order p.pending = .error f) :
    p.runInitializers = (.error (.raised ⟨f, []⟩), { p with pending := [] }) ∧ p.executions = [] := by
  simp only [runInitializers, executions, horder, and_self]

/-- The initializers that are executed are pending ones. -/
theorem perm_targets
    (horder : Schedule.order p.pending = .ok items)
    (h : Performed s items log stop t) :
    ∃ rest, (log.map (·.init.cell) ++ rest).Perm p.targets := by
  obtain ⟨rest, hrest⟩ := h.exists_rest
  have hperm := ((Schedule.order_eq_ok_sound horder).1.filterMap
    fun item => item.init.map fun init => (item.name, init)).map (·.2.cell)
  refine ⟨rest.map (·.2.cell), ?_⟩
  have hcells := congrArg (List.map (·.2.cell)) hrest
  rw [List.map_append, List.map_map] at hcells
  exact hcells ▸ hperm

/-- After an initialization nothing is pending, and what it has executed counts as done. -/
theorem listed_runInitializers
    (h : p.Listed done) :
    p.runInitializers.2.Listed (done ++ p.executions.map (·.init.cell)) := by
  cases horder : Schedule.order p.pending with
  | error f =>
      obtain ⟨hrun, hexecutions⟩ := runInitializers_of_circular horder
      rw [hrun, hexecutions]
      refine ⟨h.rooted, List.nodup_nil, nofun, ?_, fun c hc => h.bounded c ?_⟩
      · simpa [targets, Schedule.initializers] using (List.nodup_append.mp h.cells).1
      · simp only [targets, Schedule.initializers, List.filterMap_nil, List.map_nil, List.append_nil] at hc
        exact List.mem_append_left _ hc
  | ok items =>
      obtain ⟨stop, -, hpending, hperformed⟩ := performed_executions horder
      obtain ⟨hsustains, -⟩ := hperformed.follows.sustains hperformed.stores
      obtain ⟨rest, hperm⟩ := perm_targets horder hperformed
      have hnone : p.runInitializers.2.targets = [] := by
        simp [targets, Schedule.initializers, hpending]
      refine ⟨hsustains.rooted h.rooted, by simp [hpending], by simp [hpending], ?_, ?_⟩
      · have hnodup := ((hperm.append_left done).nodup_iff).mpr h.cells
        rw [← List.append_assoc] at hnodup
        rw [hnone, List.append_nil]
        exact (List.nodup_append.mp hnodup).1
      · intro c hc
        rw [hnone, List.append_nil] at hc
        refine Nat.lt_of_lt_of_le (h.bounded c ?_) hsustains.cells
        rcases List.mem_append.mp hc with hc | hc
        · exact List.mem_append_left _ hc
        · exact List.mem_append_right _ (hperm.mem_iff.mp (List.mem_append_left _ hc))

/-- An initializer is executed for the global of its name, and what is stored stands in the cell of that global. -/
theorem Listed.stored
    (h : p.Listed done)
    {e : Execution}
    (he : e ∈ p.executions) :
    e.before.rootGlobal? e.name = some e.init.cell ∧
      ∀ o v, e.finish.1 = .ok o → o.value? = some v → e.after.read e.init.cell = e.finish.2.deref v := by
  cases horder : Schedule.order p.pending with
  | error f =>
      rw [(runInitializers_of_circular horder).2] at he
      cases he
  | ok items =>
      obtain ⟨stop, -, -, hperformed⟩ := performed_executions horder
      have hsustains := (hperformed.follows.sustains hperformed.stores).2 e he
      obtain ⟨rest, hrest⟩ := hperformed.exists_rest
      obtain ⟨rest', hperm⟩ := perm_targets horder hperformed
      have hentry : e.entry ∈ Schedule.initializers items := by
        rw [hrest]
        exact List.mem_append_left _ (List.mem_map_of_mem he)
      obtain ⟨item, hitem, hinit⟩ := List.mem_filterMap.mp hentry
      obtain ⟨init, hinit, heq⟩ := Option.map_eq_some_iff.mp hinit
      obtain ⟨hname, rfl⟩ : item.name = e.name ∧ init = e.init := Prod.mk.inj heq
      obtain ⟨c, hc, hcell⟩ := h.declared item (Course.mem_of_mem_order horder hitem)
      have htarget : e.init.cell ∈ p.targets :=
        hperm.mem_iff.mp (List.mem_append_left _ (List.mem_map_of_mem he))
      have hbound := h.bounded e.init.cell (List.mem_append_right _ htarget)
      refine ⟨?_, fun o v ho hv => ?_⟩
      · rw [← hname, hcell _ hinit]
        exact hsustains.root h.rooted _ c hc
      · rw [(hperformed.stores e he).value o v ho hv]
        exact Store.read_write_self _ _
          (Nat.lt_of_lt_of_le hbound (hsustains.trans e.sustains_finish).cells)

/-! ## Histories -/

/-- A call of the host that builds a program. -/
inductive Act where
  | link (ir : Ir.Program)
  | order
  | start

/-- The program after a call. The order of initialization is only looked at. -/
def Act.apply (p : Program) : Act → Program
  | .link ir => (p.link ir).2
  | .order => p
  | .start => p.runInitializers.2

/-- The executions of initializers by a call. -/
def Act.executions (p : Program) : Act → List Execution
  | .link _ => []
  | .order => []
  | .start => p.executions

/-- The program after some calls. -/
def after (p : Program) : List Act → Program
  | [] => p
  | act :: rest => after (act.apply p) rest

/-- All executions of initializers by some calls, in order. -/
def executed (p : Program) : List Act → List Execution
  | [] => []
  | act :: rest => act.executions p ++ executed (act.apply p) rest

theorem listed_apply
    (h : p.Listed done)
    (act : Act) :
    (act.apply p).Listed (done ++ (act.executions p).map (·.init.cell)) := by
  cases act with
  | link ir =>
      simpa [Act.executions, Act.apply] using listed_link h ir
  | order => simpa [Act.executions, Act.apply] using h
  | start => exact listed_runInitializers h

/-- All calls together keep apart what has been executed and what is pending. -/
theorem listed_after
    (h : p.Listed done)
    (acts : List Act) :
    (p.after acts).Listed (done ++ (p.executed acts).map (·.init.cell)) := by
  induction acts generalizing p done with
  | nil => simpa [after, executed] using h
  | cons act rest ih =>
      have hrest := ih (listed_apply h act)
      rwa [List.append_assoc, ← List.map_append] at hrest

/-- Whatever calls have linked, ordered and initialized a program, no initializer has been executed twice.  The next
initialization raises the fault that the order of initialization raises, and executes nothing; or it executes
the initializers of that order, all of them or up to the one that stops it, and stores the value of each one
that has produced a value in the cell of its global.  In any case nothing is pending after it. -/
theorem initializers_run_once (maxTasks : Nat) (acts : List Act) :
    let p := (new maxTasks).after acts
    (((new maxTasks).executed acts).map (·.init.cell)).Nodup ∧
    p.runInitializers.2.pending = [] ∧
    (∀ f, p.initializationOrder = .error f →
      p.runInitializers.1 = .error (.raised ⟨f, []⟩) ∧ p.runInitializers.2.store = p.store ∧ p.executions = []) ∧
    (∀ names, p.initializationOrder = .ok names →
      names.Nodup ∧
      ∃ (items : List (Item Initializer)) (stop : Option Machine.Stop),
        items.Perm p.pending ∧ items.map (·.name) = names ∧
        p.runInitializers.1 = stop.elim (.ok ()) .error ∧
        Performed p.store items p.executions stop p.runInitializers.2.store) ∧
    ∀ e ∈ p.executions,
      e.before.rootGlobal? e.name = some e.init.cell ∧
      ∀ o v, e.finish.1 = .ok o → o.value? = some v → e.after.read e.init.cell = e.finish.2.deref v := by
  intro p
  have hlisted : p.Listed _ := listed_after (listed_new maxTasks) acts
  rw [List.nil_append] at hlisted
  have hnodup := (List.nodup_append.mp hlisted.cells).1
  refine ⟨hnodup, ?_, ?_, ?_, fun e he => hlisted.stored he⟩
  · cases horder : Schedule.order p.pending with
    | error f => rw [(runInitializers_of_circular horder).1]
    | ok items =>
        obtain ⟨-, -, hpending, -⟩ := performed_executions horder
        exact hpending
  · intro f hf
    cases horder : Schedule.order p.pending with
    | error g =>
        rw [initializationOrder, horder] at hf
        cases hf
        obtain ⟨hrun, hexecutions⟩ := runInitializers_of_circular horder
        rw [hrun]
        exact ⟨rfl, rfl, hexecutions⟩
    | ok items =>
        rw [initializationOrder, horder] at hf
        cases hf
  · intro names hnames
    cases horder : Schedule.order p.pending with
    | error f =>
        rw [initializationOrder, horder] at hnames
        cases hnames
    | ok items =>
        rw [initializationOrder, horder] at hnames
        cases hnames
        have hperm := (Schedule.order_eq_ok_sound horder).1
        obtain ⟨stop, hresult, -, hperformed⟩ := performed_executions horder
        exact ⟨((hperm.map (·.name)).nodup_iff).mpr hlisted.names, items, stop, hperm, rfl, hresult, hperformed⟩

/-- Two globals, the first of which depends on the second: a second initialization executes nothing. -/
theorem initializers_run_once_linked :
    let acts : List Act := [.link (pair ""), .order, .start, .start]
    ((new 1).executed acts).map (·.name) = ["b", "m::a"] ∧
      (((new 1).executed acts).map (·.init.cell)).Nodup := by
  intro acts
  refine ⟨?_, (initializers_run_once 1 acts).1⟩
  have horder : Schedule.order (linked "").pending = .ok (Schedule.pick (linked "").pending [1, 0]) :=
    Schedule.order_of_graph [(true, [1]), (true, [])] (by decide +kernel) (by cbv)
  have hfirst : (linked "").executions.map (·.name) = ["b", "m::a"] := by
    simp only [executions, horder]
    decide +kernel
  have hsecond : (linked "").runInitializers.2.executions = [] := by
    obtain ⟨-, -, hpending, -⟩ := performed_executions horder
    rw [executions, hpending]
    rfl
  change ((linked "").executions ++ ((linked "").runInitializers.2.executions ++ [])).map Execution.name = _
  rw [hsecond, List.append_nil, List.append_nil]
  exact hfirst

end Program

end Initialization

end GoalDirected
