import GoalDirected.Proofs.Machine.Growth

/-!
# Storage of a co-expression and of its creator

A co-expression starts with a copy of the frame that creates it.  The variables of the copy have cells of their
own, but its slots have the same values, references included.  So the creator never gets at the cells of
the co-expression, and the co-expression gets at those cells of its creator that a slot referred to when it was
created, and at no others.

* `Orderly`: in a reachable course all cells that frames reach are there, and no frame owns what is shared.
* `Grows` holds of every move, so what a frame does not reach stays out of its reach.
* `independent_storage`: neither of the two changes a cell that the other owns, with that exception.
* `shared_through_slot`: the exception occurs.
-/

namespace GoalDirected

section Storage

namespace Course

open Layout

/-- The layout of a course.  The statics of pending initializers are shared as well. -/
def layout (σ : Course) : Layout :=
  σ.machine.layout (HasStatic σ.pending)

/-- The cell is that of a parameter, local or scope variable of a frame. -/
def Owns (m : Machine) (n : Nat) (c : CellId) : Prop :=
  ∃ f, m.store.frames[n]? = some f ∧ f.Owns c

/-- Flat, with all cells in place, and with variables apart from what is shared. -/
structure Orderly (σ : Course) : Prop where
  flat : σ.IsFlat
  bounded : σ.layout.Bounded
  separate : σ.layout.Separate

/-! ## Moves -/

/-- While the host has the control, nothing is on its way. -/
theorem grows_idle
    {t : Store} {P W X : CellId → Prop} {l : Layout}
    (h : Grows W X l (t.layout P Nobody))
    (control : Control) :
    Grows W X l (Machine.layout P ⟨t, [], control⟩) := by
  refine Machine.grows_of_carries h ?_
  rintro n c ⟨_, _, _, _, _, hstack, -⟩
  cases hstack

/-- Less is shared. -/
theorem extends_settle
    {P Q : CellId → Prop}
    (hQ : ∀ c, Q c → P c)
    (m : Machine) :
    (m.layout P).Extends (m.layout Q) := by
  refine ⟨Nat.le_refl _, Nat.le_refl _, fun _ _ _ => rfl, ?_, fun _ _ => Or.inl, ?_⟩
  · exact fun c hc => Or.inl (hc.imp_right (hQ c))
  · exact fun n c hn => Or.inl (hn.imp_right (Or.imp_right (Or.imp_right (hQ c))))

theorem extends_link
    {s : Store} {pending : List (Item Initializer)}
    (hs : s.IsFlat)
    (hbounded : (s.layout (HasStatic pending) Nobody).Bounded)
    (ir : Ir.Program) :
    (s.layout (HasStatic pending) Nobody).Extends
      ((Program.link ⟨s, pending⟩ ir).2.store.layout
        (HasStatic (Program.link ⟨s, pending⟩ ir).2.pending) Nobody) := by
  have hextends := Program.extends_link (p := ⟨s, pending⟩) hs ir
  have hframes := (Program.prepares_link ⟨s, pending⟩ ir).frames
  generalize (Program.link ⟨s, pending⟩ ir).2 = q at hextends hframes
  refine .of_owner hbounded 0 hextends.changes.size ?_ hextends.changes.read ?_ ?_ ?_
  · exact Nat.le_of_eq (congrArg Array.size hframes.symm)
  · rintro c (hc | hc)
    · exact (hextends.changes.shares c hc).imp_left Or.inl
    · exact (hextends.statics c hc).imp_left Or.inr
  · rintro w c ⟨f, hf, hc⟩
    exact Or.inl ⟨f, hframes ▸ hf, hc⟩
  · rintro w c (⟨f, hf, hc⟩ | hc)
    · exact Or.inl (Or.inl (Or.inl ⟨f, hframes ▸ hf, hc⟩))
    · exact hc.elim

/-- What the running frame exposes, it holds. -/
theorem holds_of_exposes
    {m : Machine} {P : CellId → Prop} {c : CellId}
    (h : m.Exposes c) :
    ∃ n, (m.layout P).holds n c := by
  obtain ⟨n, f, slot, -, hf, hslot⟩ := h
  exact ⟨n, Or.inl ⟨f, hf, Frame.holds_of_value hslot⟩⟩

/-- Every move makes the layout grow, as a step of the machine does.  The host changes no cells but those of globals
that are to be initialized. -/
theorem Orderly.grows_targets
    {σ τ : Course} {X : CellId → Prop}
    (h : σ.Orderly)
    (hmove : Move Plain σ τ)
    (hstep : Grows σ.machine.Grasps X σ.layout (σ.machine.step.layout (HasStatic σ.pending))) :
    Grows (fun c => σ.machine.Grasps c ∨ IsTarget σ.pending c) X σ.layout τ.layout := by
  obtain ⟨hflat, hbounded, -⟩ := h
  have hstore := hflat.machine.store
  have hforget := Store.extends_forget (HasStatic σ.pending) σ.machine.Carries σ.machine.store
  have hs : (σ.machine.store.layout (HasStatic σ.pending) Nobody).Bounded := hforget.bounded hbounded
  -- A host starts something: nothing is on its way before and after.
  have hstart : ∀ m : Machine, m.IsFlat →
      (σ.machine.store.layout (HasStatic σ.pending) Nobody).Extends
        (m.store.layout (HasStatic σ.pending) Nobody) →
      Grows (fun c => σ.machine.Grasps c ∨ IsTarget σ.pending c) X σ.layout (m.layout (HasStatic σ.pending)) :=
    fun m hm hextends => hm.grows (Extends.grows (hforget.trans hextends) _ X)
  cases hmove with
  | step m held pending => exact hstep.mono (fun _ => Or.inl) fun _ hc => hc
  | link hidle ir => exact grows_idle (Extends.grows (hforget.trans (extends_link hstore hs ir)) _ X) _
  | call hidle hargs environment callee names =>
      exact hstart _ (Machine.isFlat_call hstore [] environment callee names hargs)
        (Machine.extends_call hstore hs [] environment callee names hargs)
  | main hidle callee args =>
      rename_i s control held pending
      have hlist := Store.changes_newList (W := Store.Nowhere) hstore
        (args.map Value.text).toArray (by simp [Value.isRef])
      have hextends := Store.grows_of_changes hs hlist rfl
      have hargs : ∀ v ∈ [(s.newList (args.map Value.text).toArray).1], v.isRef = false := by
        intro v hv
        cases List.mem_singleton.mp hv
        rfl
      exact hstart _ (Machine.isFlat_call hlist.flat [] _ callee [] hargs)
        (hextends.trans (Machine.extends_call hlist.flat (Extends.bounded hextends hs) [] _ callee [] hargs))
  | keep s v k held pending => exact grows_idle (Extends.grows hforget _ X) _
  | resume hidle before k after =>
      obtain ⟨frame, label, rfl⟩ := hflat.held k (by simp)
      exact hstart _ (Machine.isFlat_jump hstore [] frame label) (Store.extends_of_eq (Machine.store_jump ..))
  | prepare hidle hitem hinit =>
      refine hstart _ (Machine.isFlat_enter hstore [] _ _ [] (by rintro _ ⟨⟩))
        (Machine.extends_enter hstore hs ?_ [] _ [] (by rintro _ ⟨⟩))
      exact fun name c hc => Or.inr ⟨_, hitem, _, hinit, name, hc⟩
  | assign hitem hinit hvalue =>
      rename_i o v held pending item init
      have hwrite := Store.grows_of_changes hs (Store.changes_write hstore init.cell (hstore.deref v)) rfl
      refine grows_idle ((hforget.grows _ X).trans (hwrite.mono ?_ fun _ hc => hc.elim)) _
      rintro c rfl
      exact Or.inr ⟨item, hitem, init, hinit, rfl⟩
  | settle m held pending =>
      refine Extends.grows (extends_settle ?_ m) _ X
      rintro c ⟨item, hitem, -⟩
      cases hitem

theorem Orderly.grows_of
    {σ τ : Course} {X : CellId → Prop}
    (h : σ.Orderly)
    (hmove : Move Plain σ τ)
    (hstep : Grows σ.machine.Grasps X σ.layout (σ.machine.step.layout (HasStatic σ.pending))) :
    ∃ W, Grows W X σ.layout τ.layout :=
  ⟨_, h.grows_targets hmove hstep⟩

/-- Every move makes the layout grow, and a new frame gets nothing but what some frame held. -/
theorem Orderly.grows
    {σ τ : Course}
    (h : σ.Orderly)
    (hmove : Move Plain σ τ) :
    ∃ W X, (∀ c, X c → ∃ n, σ.layout.holds n c) ∧ Grows W X σ.layout τ.layout := by
  obtain ⟨W, hgrows⟩ := h.grows_of hmove (Machine.grows_step h.flat.machine h.bounded)
  exact ⟨W, σ.machine.Exposes, fun c hc => holds_of_exposes hc, hgrows⟩

/-! ## Reachable courses -/

theorem Orderly.exposed_lt
    {σ : Course} {X : CellId → Prop}
    (h : σ.Orderly)
    (hX : ∀ c, X c → ∃ n, σ.layout.holds n c)
    (c : Nat)
    (hc : X c) :
    c < σ.layout.cells := by
  obtain ⟨n, hn⟩ := hX c hc
  exact h.bounded n c (Or.inl hn)

theorem Orderly.move
    {σ τ : Course}
    (h : σ.Orderly)
    (hmove : Move Plain σ τ) :
    τ.Orderly := by
  obtain ⟨W, X, hX, hgrows⟩ := h.grows hmove
  have hlt := h.exposed_lt hX
  exact ⟨h.flat.move hmove, hgrows.bounded h.bounded hlt, hgrows.separate h.bounded hlt h.separate⟩

/-- In a new program nothing has been entered. -/
theorem getElem?_frames_new (maxTasks n : Nat) : (new maxTasks).machine.store.frames[n]? = none := by
  have hframes : (new maxTasks).machine.store.frames = #[] := (Session.prepares_new maxTasks).frames
  simp [hframes]

theorem orderly_new (maxTasks : Nat) : (Course.new maxTasks).Orderly := by
  have hinstall := Program.changes_install
    (s := { nodes := #[⟨0, []⟩], namespaces := #[⟨"", []⟩], limit := max 1 maxTasks })
    ⟨by simp, by simp⟩ Builtin.all
  have hnone : ∀ (n : Nat) (f : Frame), (Program.new maxTasks).store.frames[n]? ≠ some f :=
    fun n f hf => nomatch (getElem?_frames_new maxTasks n).symm.trans hf
  refine ⟨isFlat_initial maxTasks, ?_, ?_⟩
  · rintro n c ((⟨f, hf, -⟩ | ⟨_, _, _, _, _, hstack, -⟩) | ⟨f, hf, -⟩ | hc | ⟨item, hitem, -⟩)
    · exact absurd hf (hnone n f)
    · cases hstack
    · exact absurd hf (hnone n f)
    · rcases hinstall.shares c hc with hc | hc
      · cases hc with
        | element hlist hc => simp at hlist
        | field hrecord hc => simp at hrecord
        | dynamic hnode hc =>
            cases List.mem_singleton.mp (Array.mem_toList_iff.mpr (Array.mem_of_getElem? hnode))
            cases hc
        | global hnamespace hc =>
            cases List.mem_singleton.mp (Array.mem_toList_iff.mpr (Array.mem_of_getElem? hnamespace))
            cases hc
        | static hcallable hc => simp at hcallable
        | running hframe hc => simp at hframe
      · exact hc.2
    · cases hitem
  · rintro n c ⟨f, hf, -⟩
    exact absurd hf (hnone n f)

theorem Reachable.orderly
    {σ : Course}
    (h : Reachable Plain σ) :
    σ.Orderly :=
  h.invariant orderly_new fun _ _ hσ hmove => hσ.move hmove

/-- The cells of every variable of every frame are there. -/
theorem Reachable.owns_lt
    {σ : Course} {n : Nat} {f : Frame} {c : CellId}
    (h : Reachable Plain σ)
    (hf : σ.machine.store.frames[n]? = some f)
    (hc : f.Owns c) :
    c < σ.machine.store.cells.size :=
  h.orderly.bounded n c (Or.inr (Or.inl ⟨f, hf, hc⟩))

/-- The cells of every list are there. -/
theorem Reachable.listCells_lt
    {σ : Course} {id : Nat} {c : CellId}
    (h : Reachable Plain σ)
    (hc : c ∈ σ.machine.store.listCells id) :
    c < σ.machine.store.cells.size := by
  rw [Store.listCells, Array.getD_eq_getD_getElem?] at hc
  cases hlist : σ.machine.store.lists[id]? with
  | none =>
      rw [hlist] at hc
      simp at hc
  | some cells =>
      rw [hlist] at hc
      exact h.orderly.bounded 0 c (Or.inr (Or.inr (Or.inl (.element hlist hc))))

/-- What a frame does not reach stays out of its reach. -/
theorem Orderly.not_reaches
    {σ τ : Course} {n c : Nat}
    (h : σ.Orderly)
    (hleads : Leads Plain σ τ)
    (hn : n < σ.layout.frames)
    (hc : c < σ.layout.cells)
    (hnot : ¬ σ.layout.Reaches n c) :
    τ.Orderly ∧ n < τ.layout.frames ∧ c < τ.layout.cells ∧ ¬ τ.layout.Reaches n c := by
  refine hleads.keeps (I := fun τ => τ.Orderly ∧ n < τ.layout.frames ∧ c < τ.layout.cells ∧
    ¬ τ.layout.Reaches n c) ?_ ⟨h, hn, hc, hnot⟩
  rintro σ τ ⟨h, hn, hc, hnot⟩ hmove
  obtain ⟨W, X, -, hgrows⟩ := h.grows hmove
  exact ⟨h.move hmove, Nat.lt_of_lt_of_le hn hgrows.frames, Nat.lt_of_lt_of_le hc hgrows.cells,
    hgrows.not_reaches hn hc hnot⟩

/-- Two frames that are apart stay apart. -/
theorem Orderly.apart
    {σ τ : Course} {E : CellId → Prop} {n m : Nat}
    (h : σ.Orderly)
    (hleads : Leads Plain σ τ)
    (hn : n < σ.layout.frames)
    (hne : m ≠ n)
    (hapart : σ.layout.Apart E n m) :
    τ.Orderly ∧ n < τ.layout.frames ∧ τ.layout.Apart E n m := by
  refine hleads.keeps (I := fun τ => τ.Orderly ∧ n < τ.layout.frames ∧ τ.layout.Apart E n m) ?_
    ⟨h, hn, hapart⟩
  rintro σ τ ⟨h, hn, hapart⟩ hmove
  obtain ⟨W, X, hX, hgrows⟩ := h.grows hmove
  exact ⟨h.move hmove, Nat.lt_of_lt_of_le hn hgrows.frames,
    hgrows.apart h.bounded (h.exposed_lt hX) hn hne hapart⟩

/-! ## Creation -/

/-- The frame that is about to create a co-expression, and the chunk that it is to start with. -/
def creating? (m : Machine) : Option (Nat × Ir.Label) :=
  match m.control with
  | .running n _ (.create _ entry :: _) => some (n, entry)
  | _ => none

/-- The next instruction creates a co-expression, for which there is room. -/
structure Creates (a : Nat) (f : Frame) (entry : Ir.Label) (m : Machine) : Prop where
  instruction : creating? m = some (a, entry)
  frame : m.store.frames[a]? = some f
  room : m.store.active < m.store.limit

theorem Creates.control
    {a : Nat} {f : Frame} {entry : Ir.Label} {m : Machine}
    (h : Creates a f entry m) :
    ∃ label target rest, m.control = .running a label (.create target entry :: rest) := by
  have hinstruction := h.instruction
  unfold creating? at hinstruction
  split at hinstruction
  · rename_i hcontrol
    cases hinstruction
    exact ⟨_, _, _, hcontrol⟩
  · cases hinstruction

/-- The step makes the co-expression, and stores its value in the frame if there is a slot for it. -/
theorem Creates.store
    {a : Nat} {f : Frame} {entry : Ir.Label} {m : Machine}
    (h : Creates a f entry m) :
    ∃ v t g, m.store.createProducer f entry = .ok (v, t) ∧ m.step.store = t.setFrame a g ∧
      (g = f ∨ ∃ target, f.set target v = .ok g) := by
  obtain ⟨label, target, rest, hcontrol⟩ := h.control
  obtain ⟨-, hf, hroom⟩ := h
  obtain ⟨s, stack, control⟩ := m
  subst hcontrol
  cases hcreate : s.createProducer f entry with
  | error e =>
      rw [Store.createProducer, if_pos hroom] at hcreate
      cases hcreate
  | ok created =>
      obtain ⟨v, t⟩ := created
      have hexecute : s.execute f (.create target entry) = t.changed f (f.set target v) := by
        simp only [Store.execute, hcreate]
      cases hset : f.set target v with
      | ok g =>
          rw [hset] at hexecute
          exact ⟨v, t, g, rfl, by rw [Machine.step_running hf hexecute]; rfl, Or.inr ⟨target, hset⟩⟩
      | error e =>
          rw [hset] at hexecute
          refine ⟨v, t, f, rfl, ?_, Or.inl rfl⟩
          rw [Machine.step_running hf hexecute]
          exact Machine.store_malfunction ..

/-- The new co-expression starts with a new frame. -/
theorem Creates.fresh
    {a : Nat} {f : Frame} {entry : Ir.Label} {m : Machine}
    (h : Creates a f entry m) :
    m.step.store.producer (m.store.producers.size + 1) = .fresh m.store.frames.size entry ∧
      m.store.frames.size < m.step.store.frames.size := by
  obtain ⟨v, t, g, hcreate, hstore, -⟩ := h.store
  obtain ⟨copy, -, -, hframes, hproducers, -⟩ := Store.createProducer_eq_ok hcreate
  rw [hstore]
  refine ⟨?_, ?_⟩
  · simp [Store.producer, Store.setFrame, hproducers]
  · simp [Store.setFrame, hframes]

/-- An instruction does not change a cell that its frame does not reach. -/
theorem Orderly.read_step
    {τ : Course} {n c : Nat}
    (h : τ.Orderly)
    (hrunning : τ.machine.running? = some n)
    (hc : c < τ.layout.cells)
    (hnot : ¬ τ.layout.Reaches n c) :
    τ.machine.step.store.read c = τ.machine.store.read c := by
  refine (Machine.grows_step h.flat.machine h.bounded).content c hc ?_
  rintro ⟨n', f, hn', hf, hholds⟩
  cases hrunning.symm.trans hn'
  exact hnot (Or.inl (Or.inl ⟨f, hf, hholds⟩))

/-- The new frame and the frame that it is a copy of are apart, as far as its slots allow. -/
theorem apart_of_creates
    {σ : Course} {a : Nat} {f : Frame} {entry : Ir.Label}
    (h : σ.Orderly)
    (hcreates : Creates a f entry σ.machine) :
    (layout ⟨σ.machine.step, σ.held, σ.pending⟩).Apart (fun _ => False) a σ.machine.store.frames.size ∧
      (layout ⟨σ.machine.step, σ.held, σ.pending⟩).Apart
        (fun c => ∃ slot, f.value slot = .ok (.ref c)) σ.machine.store.frames.size a := by
  have hgrows := Machine.grows_step h.flat.machine h.bounded
  have hlt := h.exposed_lt (X := σ.machine.Exposes) fun c hc => holds_of_exposes hc
  obtain ⟨ha, -⟩ := Array.getElem?_eq_some_iff.mp hcreates.frame
  have hnone : ∀ g, σ.machine.store.frames[σ.machine.store.frames.size]? ≠ some g := by simp
  have hne := Nat.ne_of_lt ha
  refine ⟨?_, ?_⟩
  · intro c hc
    refine Or.inr (hgrows.not_reaches_new h.bounded hlt hne.symm hc ?_)
    refine (hgrows.owns _ c hc).resolve_left ?_
    rintro ⟨g, hg, -⟩
    exact hnone g hg
  · intro c hc
    rcases hgrows.owns a c hc with hold | hnew
    · by_cases hexposed : ∃ slot, f.value slot = .ok (.ref c)
      · exact Or.inl hexposed
      · refine Or.inr fun hreaches => ?_
        obtain ⟨label, target, rest, hcontrol⟩ := hcreates.control
        rcases hgrows.reaches _ c hreaches with hreaches | ⟨-, n, g, slot, hn, hg, hslot⟩ | ⟨hnew, -⟩
        · rcases hreaches with (⟨g, hg, -⟩ | ⟨_, _, _, _, _, -, hreturning, -⟩) | ⟨g, hg, -⟩ | hshared
          · exact hnone g hg
          · rw [hcontrol] at hreturning
            cases hreturning
          · exact hnone g hg
          · exact h.separate a c hold hshared
        · rw [Machine.running?, hcontrol] at hn
          cases hn
          cases hcreates.frame.symm.trans hg
          exact hexposed ⟨slot, hslot⟩
        · exact h.bounded.not_reaches hnew a (Or.inr (Or.inl hold))
    · exact Or.inr (hgrows.not_reaches_new h.bounded hlt hne hc hnew)

/-- Along any sequence of moves, a frame changes no cell that a frame apart from it has come to own. -/
theorem Orderly.read_of_apart
    {σ υ τ : Course} {E : CellId → Prop} {n m c : Nat}
    (h : σ.Orderly)
    (hn : n < σ.layout.frames)
    (hne : m ≠ n)
    (hapart : σ.layout.Apart E n m)
    (hυ : Leads Plain σ υ)
    (howns : Owns υ.machine m c)
    (hE : ¬ E c)
    (hτ : Leads Plain υ τ)
    (hrunning : τ.machine.running? = some n) :
    τ.machine.step.store.read c = τ.machine.store.read c := by
  obtain ⟨hυ', hnυ, hapartυ⟩ := h.apart hυ hn hne hapart
  have hnot := (hapartυ c howns).resolve_left hE
  have hc := hυ'.bounded m c (Or.inr (Or.inl howns))
  obtain ⟨hτ', -, hcτ, hnotτ⟩ := hυ'.not_reaches hτ hnυ hc hnot
  exact hτ'.read_step hrunning hcτ hnotτ

/-- Neither of a co-expression and the activation that has created it changes a cell that the other owns,
except for cells of the creator that a slot referred to when the co-expression was created. -/
theorem independent_storage
    {σ υ τ : Course} {a : Nat} {f : Frame} {entry : Ir.Label}
    (h : Reachable Plain σ)
    (hcreates : Creates a f entry σ.machine)
    (hυ : Leads Plain ⟨σ.machine.step, σ.held, σ.pending⟩ υ)
    (hτ : Leads Plain υ τ) :
    σ.machine.step.store.producer (σ.machine.store.producers.size + 1) =
      .fresh σ.machine.store.frames.size entry ∧
    (∀ c, Owns υ.machine σ.machine.store.frames.size c → τ.machine.running? = some a →
      τ.machine.step.store.read c = τ.machine.store.read c) ∧
    ∀ c, Owns υ.machine a c → (∀ slot, f.value slot ≠ .ok (.ref c)) →
      τ.machine.running? = some σ.machine.store.frames.size →
      τ.machine.step.store.read c = τ.machine.store.read c := by
  have hσ := h.orderly
  have hnext : Orderly ⟨σ.machine.step, σ.held, σ.pending⟩ := hσ.move (.step σ.machine σ.held σ.pending)
  obtain ⟨hfresh, hsize⟩ := hcreates.fresh
  obtain ⟨ha, -⟩ := Array.getElem?_eq_some_iff.mp hcreates.frame
  obtain ⟨hcreator, hcopy⟩ := apart_of_creates hσ hcreates
  refine ⟨hfresh, ?_, ?_⟩
  · intro c howns hrunning
    exact hnext.read_of_apart (Nat.lt_trans ha hsize) (Nat.ne_of_gt ha) hcreator hυ howns id hτ hrunning
  · intro c howns hslots hrunning
    refine hnext.read_of_apart hsize (Nat.ne_of_lt ha) hcopy hυ howns ?_ hτ hrunning
    rintro ⟨slot, hslot⟩
    exact hslots slot hslot

theorem owns_of_vars
    {m : Machine} {n : Nat} {v : Bindings} {name : String} {c : CellId}
    (h : m.store.frames[n]?.map (·.vars) = some v)
    (hc : (name, c) ∈ v) :
    Owns m n c := by
  obtain ⟨f, hf, rfl⟩ := Option.map_eq_some_iff.mp h
  exact ⟨f, hf, Or.inl ⟨name, hc⟩⟩

/-- A procedure whose co-expression assigns to a variable of its own. -/
def partner : Ir.Procedure where
  name := "partner"
  namespaceName := ""
  params := []
  locals := ["x"]
  statics := []
  variadic := false
  temps := 3
  entry := "start"
  chunks :=
    [⟨"start", [.create 0 "body", .operator ⟨none, none, none⟩ "@" [0], .fail]⟩,
      ⟨"body", [.name 1 "x", .literal 2 (.text "b"), .operator ⟨none, none, none⟩ ":=" [1, 2], .exhaust]⟩]
  deps := []

/-- The assignment changes the copy of the variable, and leaves the variable as it is. -/
theorem independent_storage_partner :
    ∃ (f : Frame) (τ : Course), Creates 0 f "body" (called [partner]).machine ∧
      Leads Plain ⟨(called [partner]).machine.step, (called [partner]).held, (called [partner]).pending⟩ τ ∧
      τ.machine.running? = some 1 ∧ Owns τ.machine 0 17 ∧ Owns τ.machine 1 18 ∧
      (τ.machine.store.read 18).isNil = true ∧ (τ.machine.step.store.read 18).isNil = false ∧
      τ.machine.step.store.read 17 = τ.machine.store.read 17 := by
  have hframe : ((called [partner]).machine.store.frames[0]?.map fun f =>
      f.temps.all fun t => t matches .empty) = some true := by decide +kernel
  obtain ⟨f, hf, htemps⟩ := Option.map_eq_some_iff.mp hframe
  have hcreates : Creates 0 f "body" (called [partner]).machine := ⟨by decide +kernel, hf, by decide +kernel⟩
  have hslots : ∀ slot, f.value slot ≠ .ok (.ref 17) := by
    intro slot hslot
    have hmem := Array.mem_of_getElem? (Frame.value_eq_ok_iff.mp hslot)
    simpa using Array.all_eq_true_iff_forall_mem.mp htemps _ hmem
  have hleads := leads_run Plain (called [partner]).machine.step (called [partner]).held
    (called [partner]).pending 3
  have hcreator : Owns ((called [partner]).machine.step.run 3) 0 17 :=
    owns_of_vars (v := [("x", 17)]) (by decide +kernel) List.mem_cons_self
  have hcopy : Owns ((called [partner]).machine.step.run 3) 1 18 :=
    owns_of_vars (v := [("x", 18)]) (by decide +kernel) List.mem_cons_self
  refine ⟨f, _, hcreates, hleads, by decide +kernel, hcreator, hcopy, by decide +kernel, by decide +kernel, ?_⟩
  exact (independent_storage (reachable_called [partner]) hcreates hleads .refl).2.2 17 hcreator hslots
    (by decide +kernel)

/-- A procedure that has a reference to a variable in a slot when it creates a co-expression. -/
def sharer : Ir.Procedure where
  name := "sharer"
  namespaceName := ""
  params := []
  locals := ["x"]
  statics := []
  variadic := false
  temps := 3
  entry := "start"
  chunks :=
    [⟨"start", [.name 0 "x", .create 2 "body", .operator ⟨none, none, none⟩ "@" [2], .fail]⟩,
      ⟨"body", [.literal 1 (.text "b"), .operator ⟨none, none, none⟩ ":=" [0, 1], .exhaust]⟩]
  deps := []

/-- The co-expression assigns to the variable of its creator through that slot. -/
theorem shared_through_slot :
    ∃ (σ τ : Course) (f : Frame), Reachable Plain σ ∧ Creates 0 f "body" σ.machine ∧
      Leads Plain ⟨σ.machine.step, σ.held, σ.pending⟩ τ ∧ Owns σ.machine 0 17 ∧ Owns τ.machine 0 17 ∧
      τ.machine.running? = some σ.machine.store.frames.size ∧
      τ.machine.step.store.read 17 ≠ τ.machine.store.read 17 := by
  have hleads := leads_run Plain (called [sharer]).machine (called [sharer]).held (called [sharer]).pending 1
  have hlater := leads_run Plain ((called [sharer]).machine.run 1).step (called [sharer]).held
    (called [sharer]).pending 2
  have hsize : 0 < ((called [sharer]).machine.run 1).store.frames.size := by decide +kernel
  have hcreates : Creates 0 _ "body" ((called [sharer]).machine.run 1) :=
    ⟨by decide +kernel, Array.getElem?_eq_getElem hsize, by decide +kernel⟩
  refine ⟨_, _, _, (reachable_called [sharer]).leads hleads, hcreates, hlater, ?_, ?_, by decide +kernel, ?_⟩
  · exact owns_of_vars (v := [("x", 17)]) (by decide +kernel) List.mem_cons_self
  · exact owns_of_vars (v := [("x", 17)]) (by decide +kernel) List.mem_cons_self
  · intro heq
    have hnil := congrArg Value.isNil heq
    revert hnil
    decide +kernel

end Course

end Storage

end GoalDirected
