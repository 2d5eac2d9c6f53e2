import GoalDirected.Proofs.Coexpression.Storage
import GoalDirected.Proofs.Machine.Lockstep
import GoalDirected.Proofs.Machine.References
import GoalDirected.Proofs.Program.Recovery

/-!
# Secluded activations

**Input.** A course in which an activation is called with scalars and then executes allowed instructions only, while
the rest of the program does whatever it does.

**Argument.** The activation gets at cells that it has made itself, and puts scalars there.  No other activation has a
reference to one of them: what the activation hands out are scalars, and it is never copied.  Whatever others do
leaves its frame and its cells alone.

**Results.**
* `Course.Lives`: the activation has been called with scalars, and all its instructions have been allowed.
* `Course.Secluded`: the cells that it gets at hold scalars, and nobody else gets at them.
* `Lives.secluded`: the one gives the other, by induction over the moves since the call.
* `exists_territories`: several such activations get at different cells.
-/

namespace GoalDirected

section Seclusion

/-! ## The diagonal -/

/-- Each cell of a set corresponds to itself. -/
def Same (D : CellId → Prop) (c d : CellId) : Prop :=
  D c ∧ d = c

/-- The cells that correspond to themselves. -/
def Fixed (S : CellId → CellId → Prop) (c : CellId) : Prop :=
  S c c

section Diagonal

variable {S : CellId → CellId → Prop} {D : CellId → Prop} {n : Nat}

theorem Value.Alike.same
    {v : Value}
    (h : v.Alike S v)
    (hD : ∀ c, v = .ref c → S c c → D c) :
    v.Alike (Same D) v := by
  cases h with
  | scalar h => exact .scalar h
  | ref h => exact .ref ⟨hD _ rfl h, rfl⟩

theorem Bindings.Alike.same
    {b : Bindings}
    (h : b.Alike S b)
    (hD : ∀ name c, (name, c) ∈ b → S c c → D c) :
    b.Alike (Same D) b := by
  refine List.forall₂_same.mpr fun x hx => ⟨rfl, ?_, rfl⟩
  exact hD x.1 x.2 hx (List.forall₂_same.mp h x hx).2

theorem Displaced.same
    {l : List (String × Option CellId)}
    (h : Displaced S l l)
    (hD : ∀ name c, (name, some c) ∈ l → S c c → D c) :
    Displaced (Same D) l l := by
  refine List.forall₂_same.mpr fun x hx => ⟨rfl, ?_⟩
  obtain ⟨name, cell⟩ := x
  have hcell := (List.forall₂_same.mp h _ hx).2
  cases hcell with
  | none => exact .none
  | some hc => exact .some ⟨hD name _ hx hc, rfl⟩

theorem Temp.Alike.same
    {x : Temp}
    (h : x.Alike S x)
    (hD : ∀ c, x.Holds c → S c c → D c) :
    x.Alike (Same D) x := by
  cases h with
  | empty => exact .empty
  | value h => exact .value (h.same hD)
  | next hk => exact .next hk
  | label l => exact .label l

/-- Only the cells that the frame gets at matter. -/
theorem Frame.Alike.same
    {f : Frame}
    (h : f.Alike S f)
    (hD : ∀ c, f.Owns c ∨ f.Holds c → S c c → D c) :
    f.Alike (Same D) f where
  procedure := rfl
  args := rfl
  vars := h.vars.same fun name c hc => hD c (Or.inl (Or.inl ⟨name, hc⟩))
  scopes := by
    refine List.forall₂_same.mpr fun scope hscope => ?_
    have halike := List.forall₂_same.mp h.scopes scope hscope
    refine ⟨rfl, halike.shadowed.same ?_, halike.left, halike.right⟩
    exact fun name c hc => hD c (Or.inl (Or.inr ⟨scope, hscope, name, hc⟩))
  size := rfl
  temps := by
    intro slot
    have hslot := h.temps slot
    cases htemp : f.temps[slot]? with
    | none => exact .none
    | some x =>
        rw [htemp] at hslot
        cases hslot with
        | some hx => exact .some (hx.same fun c hc => hD c (Or.inr ⟨slot, x, htemp, hc⟩))
  coord := rfl
  offender := rfl
  plainArgs := h.plainArgs
  plainOffender := h.plainOffender
  left := h.left
  right := h.right

/-- The cells of a frame's variables are among those that matter. -/
theorem Frame.Alike.owned
    {f : Frame} {c : CellId}
    (h : f.Alike (Same D) f)
    (hc : f.Owns c) :
    D c := by
  rcases hc with ⟨name, hc⟩ | ⟨scope, hscope, name, hc⟩
  · exact (List.forall₂_same.mp h.vars _ hc).2.1
  · have hcell := (List.forall₂_same.mp (List.forall₂_same.mp h.scopes scope hscope).shadowed _ hc).2
    cases hcell with
    | some hc => exact hc.1

/-- A store looks like itself in cells with scalars. -/
theorem Store.alike_same
    {s : Store}
    (hbounded : ∀ c : Nat, D c → c < s.cells.size)
    (hscalars : ∀ c, D c → (s.read c).isScalar = true) :
    s.Alike (Same D) s := by
  refine ⟨?_, ?_, ?_, ?_⟩
  · rintro c d d' ⟨-, rfl⟩ ⟨-, rfl⟩
    rfl
  · rintro c c' d ⟨-, rfl⟩ ⟨-, heq⟩
    exact heq
  · rintro c d ⟨hc, rfl⟩
    exact ⟨hbounded _ hc, hbounded _ hc⟩
  · rintro c d ⟨hc, rfl⟩
    exact ⟨rfl, hscalars _ hc⟩

/-- Only the cells that the frame gets at matter. -/
theorem Store.Twin.same
    {s : Store}
    (h : s.Twin n S s)
    (hsub : ∀ c, D c → S c c)
    (hD : ∀ f c, s.frames[n]? = some f → f.Owns c ∨ f.Holds c → S c c → D c) :
    s.Twin n (Same D) s := by
  obtain ⟨f, g, hf, hg, hfg⟩ := h.frame
  cases hf.symm.trans hg
  refine ⟨Store.alike_same ?_ ?_, rfl, f, f, hf, hf, hfg.same (hD f · hf)⟩
  · exact fun c hc => (h.alike.bounded c c (hsub c hc)).1
  · exact fun c hc => (h.alike.content c c (hsub c hc)).2

theorem Store.Twin.fixed
    {s : Store}
    (h : s.Twin n S s) :
    s.Twin n (Same (Fixed S)) s :=
  h.same (fun _ hc => hc) fun _ _ _ _ hc => hc

theorem Outcome.Alike.fixed
    {o : Outcome}
    (h : o.Alike S o) :
    o.Alike (Same (Fixed S)) o := by
  cases h with
  | fail => exact .fail
  | result h => exact .result (h.same fun _ _ hc => hc)
  | suspended h hk => exact .suspended (h.same fun _ _ hc => hc) hk

theorem Abreast.fixed
    {base : List Context} {m : Machine}
    (h : Abreast n S base m m) :
    Abreast n (Same (Fixed S)) base m m := by
  cases h with
  | running h label rest => exact .running h.fixed label rest
  | returning h ho label rest d => exact .returning h.fixed ho.fixed label rest d
  | raising h hr label rest d => exact .raising h.fixed hr label rest d

/-- The cells that matter are there. -/
theorem Store.Twin.lt
    {s : Store} {c : Nat}
    (h : s.Twin n (Same D) s)
    (hc : D c) :
    c < s.cells.size :=
  (h.alike.bounded c c ⟨hc, rfl⟩).1

end Diagonal

/-! ## Machines -/

namespace Machine

variable {S : CellId → CellId → Prop} {base : List Context} {m m' : Machine} {n : Nat}

/-- The frame runs, or waits for an outcome. -/
def Involves (m : Machine) (n : Nat) : Prop :=
  m.running? = some n ∨ ∃ label rest d, .awaiting n label rest d ∈ m.stack

theorem Engages.involves
    (h : m.Engages n) :
    m.Involves n := by
  rcases h with hrunning | ⟨label, rest, d, hhead⟩
  · exact Or.inl hrunning
  · exact Or.inr ⟨label, rest, d, List.mem_of_mem_head? (Option.mem_def.mpr hhead)⟩

theorem not_involves_of_idle
    {control : Control}
    (hidle : control.isIdle = true)
    (s : Store) :
    ¬ Involves ⟨s, [], control⟩ n := by
  rintro (hrunning | ⟨_, _, _, hmem⟩)
  · cases control with
    | running k label rest => cases hidle
    | _ => cases hrunning
  · cases hmem

/-- No allowed instruction creates a co-expression. -/
theorem isCreate_of_abreast
    (h : Abreast n S base m m')
    (hallows : m.Allows n)
    (k : Nat) (label : Ir.Label) (i : Ir.Instruction) (rest : List Ir.Instruction)
    (hcontrol : m.control = .running k label (i :: rest)) :
    i.isCreate = false := by
  cases h with
  | running h label' rest' =>
      cases hcontrol
      obtain ⟨f, -, hf, -⟩ := h.frame
      have hi := hallows f hf i (if_pos rfl)
      cases i with
      | create target entry => exact hi.elim
      | _ => rfl
  | returning => cases hcontrol
  | raising => cases hcontrol

/-- A frame that there is one way to go on with does not wait further below. -/
theorem absent_of_abreast
    (h : Abreast n S base m m')
    (hsingle : weigh (Context.uses 1 n) m.stack + m.control.uses n ≤ 1)
    (label : Ir.Label) (rest : List Ir.Instruction) (d : Ir.Destination) :
    .awaiting n label rest d ∉ base := by
  intro hmem
  have hone : mark n n = 1 := if_pos rfl
  have hpos := le_weigh (w := Context.uses 1 n) hmem
  rw [Context.uses_of_activation? rfl] at hpos
  cases h with
  | running =>
      simp only [Control.uses, hone] at hsingle
      omega
  | returning =>
      simp only [weigh_cons, Context.uses, hone] at hsingle
      omega
  | raising =>
      simp only [weigh_cons, Context.uses, hone] at hsingle
      omega

end Machine

/-! ## Arguments -/

namespace Store

variable {s : Store} {b : Bindings} {v : Value} {entries : List (String × Value)}

/-- The names are bound to cells with scalars. -/
def HoldsScalars (s : Store) (b : Bindings) : Prop :=
  ∀ name c, (name, c) ∈ b → (s.read c).isScalar = true

theorem isScalar_read_allocate
    {c : Nat}
    (hv : v.isScalar = true)
    (hc : (s.read c).isScalar = true) :
    ((s.allocate v).2.read c).isScalar = true := by
  rcases Nat.lt_trichotomy c s.cells.size with hlt | rfl | hgt
  · rw [s.read_allocate_of_lt v hlt]
    exact hc
  · have hself : (s.allocate v).2.read s.cells.size = v := s.read_allocate_self v
    rw [hself]
    exact hv
  · have hsize : (s.allocate v).2.cells.size ≤ c := by
      rw [size_allocate]
      exact hgt
    rw [read, Array.getD_eq_getD_getElem?, Array.getElem?_eq_none hsize]
    rfl

theorem isScalar_read_write
    {c : Nat}
    (hv : v.isScalar = true)
    (hc : (s.read c).isScalar = true)
    (cell : Nat) :
    ((s.write cell v).read c).isScalar = true := by
  by_cases hne : c = cell
  · subst hne
    by_cases hlt : c < s.cells.size
    · rw [s.read_write_self v hlt]
      exact hv
    · rw [write, Array.setIfInBounds_eq_of_size_le (Nat.le_of_not_lt hlt)]
      exact hc
  · rw [s.read_write_of_ne v hne]
    exact hc

theorem holdsScalars_bindAll
    (h : s.HoldsScalars b)
    (hentries : ∀ x ∈ entries, x.2.isScalar = true) :
    (s.bindAll b entries).2.HoldsScalars (s.bindAll b entries).1 := by
  induction entries generalizing s b with
  | nil => exact h
  | cons entry rest ih =>
      obtain ⟨name, v⟩ := entry
      have hv : v.isScalar = true := hentries (name, v) List.mem_cons_self
      refine ih ?_ fun x hx => hentries x (List.mem_cons_of_mem _ hx)
      intro other c hc
      rcases Bindings.mem_bind hc with hc | rfl
      · exact isScalar_read_allocate hv (h other c hc)
      · exact (congrArg Value.isScalar (s.read_allocate_self v)).trans hv

theorem holdsScalars_bindKeywords
    (h : s.HoldsScalars b)
    (hentries : ∀ x ∈ entries, x.2.isScalar = true) :
    (s.bindKeywords b entries).HoldsScalars b := by
  induction entries generalizing s with
  | nil => exact h
  | cons entry rest ih =>
      obtain ⟨name, v⟩ := entry
      have hv : v.isScalar = true := hentries (name, v) List.mem_cons_self
      have hrest : ∀ x ∈ rest, x.2.isScalar = true := fun x hx => hentries x (List.mem_cons_of_mem _ hx)
      simp only [bindKeywords]
      split
      · rename_i cell _
        exact ih (fun other c hc => isScalar_read_write hv (h other c hc) cell) hrest
      · exact ih h hrest

/-- The variables of a procedure that is called with scalars hold scalars, unless it is variadic. -/
theorem holdsScalars_bindArguments
    {code : Code} {args : List Value}
    (hvariadic : code.variadic = false)
    (hargs : ∀ v ∈ args, v.isScalar = true)
    (s : Store) (names : List String) :
    (s.bindArguments code args names).2.HoldsScalars (s.bindArguments code args names).1 := by
  have hpositional : ∀ v ∈ (Arguments.split args names).positional, v.isScalar = true :=
    fun v hv => hargs v (List.mem_of_mem_take hv)
  have hkeyword : ∀ x ∈ (Arguments.split args names).keyword, x.2.isScalar = true :=
    fun x hx => hargs x.2 (List.mem_of_mem_drop (List.of_mem_zip hx).2)
  simp only [bindArguments]
  generalize Arguments.split args names = arguments at hpositional hkeyword
  have hparameters : (s.bindParameters code arguments.positional).2.HoldsScalars
      (s.bindParameters code arguments.positional).1 := by
    simp only [bindParameters, hvariadic]
    refine holdsScalars_bindAll ?_ fun x hx => ?_
    · rintro name c ⟨⟩
    · rcases mem_parameters hx with hnil | hmem
      · rw [hnil]
        rfl
      · exact hpositional x.2 (List.mem_of_mem_take hmem)
  refine holdsScalars_bindAll (holdsScalars_bindKeywords hparameters hkeyword) fun x hx => ?_
  obtain ⟨name, -, rfl⟩ := List.mem_map.mp hx
  rfl

end Store

/-- A new frame with scalars as its arguments looks like itself. -/
theorem Frame.alike_new
    {D : CellId → Prop} {p : Procedure} {args : List Value} {vars : Bindings}
    (hargs : ∀ v ∈ args, v.isScalar = true)
    (hvars : ∀ name c, (name, c) ∈ vars → D c)
    (environment : Environment) :
    (Frame.new environment p args vars).Alike (Same D) (Frame.new environment p args vars) where
  procedure := rfl
  args := rfl
  vars := List.forall₂_same.mpr fun x hx => ⟨rfl, hvars x.1 x.2 hx, rfl⟩
  scopes := .nil
  size := rfl
  temps := by
    intro slot
    simp only [Frame.new, Array.getElem?_replicate]
    split
    · exact .some .empty
    · exact .none
  coord := rfl
  offender := rfl
  plainArgs := hargs
  plainOffender := nofun
  left := rfl
  right := rfl

namespace Course

open Layout

variable {admits : Value → Prop} {σ τ : Course} {D : CellId → Prop} {n : Nat}

/-! ## Moves -/

/-- A frame that waits after a move has waited before it, or has run. -/
theorem involves_of_awaiting
    {label : Ir.Label} {rest : List Ir.Instruction} {d : Ir.Destination}
    (hmove : Move admits σ τ)
    (hmem : .awaiting n label rest d ∈ τ.machine.stack) :
    σ.machine.Involves n := by
  obtain ⟨pushed, kept, heq, hkept, hpushed⟩ := (stays_move hmove).stack
  rw [heq] at hmem
  rcases List.mem_append.mp hmem with hmem | hmem
  · have hrises : Context.MayRise σ.machine.Engages (.awaiting n label rest d) := hpushed _ hmem
    exact Machine.Engages.involves hrises
  · exact Or.inr ⟨label, rest, d, hkept.mem hmem⟩

theorem Sound.not_involves
    (h : σ.Sound)
    (hn : σ.size ≤ n) :
    ¬ σ.machine.Involves n := by
  have habsent := h.absent n hn
  have hone : mark n n = 1 := if_pos rfl
  rintro (hrunning | ⟨label, rest, d, hmem⟩)
  · unfold Machine.running? at hrunning
    split at hrunning
    · rename_i hcontrol
      cases hrunning
      simp only [uses, Machine.uses, hcontrol, Control.uses, hone] at habsent
      omega
    · cases hrunning
  · have hpos := le_weigh (w := Context.uses 1 n) hmem
    rw [Context.uses_of_activation? rfl] at hpos
    simp only [uses, Machine.uses] at habsent
    omega

/-- Only linking makes more globals pending, in new cells, and it leaves frames as they are. -/
theorem target_move
    {c : Nat}
    (hflat : σ.machine.store.IsFlat)
    (hmove : Move admits σ τ)
    (hc : IsTarget τ.pending c) :
    IsTarget σ.pending c ∨ (σ.machine.store.IsNew τ.machine.store c ∧
      τ.machine.store.frames = σ.machine.store.frames) := by
  cases hmove with
  | link hidle ir =>
      rename_i s control held pending
      have hframes := (Program.prepares_link ⟨s, pending⟩ ir).frames
      exact ((Program.extends_link (p := ⟨s, pending⟩) hflat ir).targets c hc).imp_right fun hnew => ⟨hnew, hframes⟩
  | settle m held pending =>
      obtain ⟨item, hitem, -⟩ := hc
      cases hitem
  | _ => exact Or.inl hc

theorem Reachable.target_lt
    {c : Nat}
    (h : Reachable Plain σ)
    (hc : IsTarget σ.pending c) :
    c < σ.machine.store.cells.size := by
  have hinvariant := h.invariant (I := fun σ => σ.Orderly ∧ ∀ c : Nat, IsTarget σ.pending c →
    c < σ.machine.store.cells.size) ?_ ?_
  · exact hinvariant.2 c hc
  · refine fun maxTasks => ⟨orderly_new maxTasks, ?_⟩
    rintro c ⟨item, hitem, -⟩
    cases hitem
  · rintro σ τ ⟨horderly, hlt⟩ hmove
    refine ⟨horderly.move hmove, fun c hc => ?_⟩
    rcases target_move horderly.flat.machine.store hmove hc with hc | ⟨hnew, -⟩
    · obtain ⟨W, X, -, hgrows⟩ := horderly.grows hmove
      exact Nat.lt_of_lt_of_le (hlt c hc) hgrows.cells
    · exact hnew.2

/-! ## Seclusion -/

/-- An activation and the cells that it gets at.  They hold scalars, no other frame reaches them, and the host will
not initialize them. -/
structure Secluded (D : CellId → Prop) (n : Nat) (σ : Course) : Prop where
  twin : σ.machine.store.Twin n (Same D) σ.machine.store
  waits : ∀ label rest d, .awaiting n label rest d ∈ σ.machine.stack →
    ∃ base, Abreast n (Same D) base σ.machine σ.machine
  apart : ∀ m c, D c → m ≠ n → ¬ σ.layout.Reaches m c
  pending : ∀ c, IsTarget σ.pending c → ¬ D c

theorem Secluded.abreast
    (h : σ.Secluded D n)
    (hinvolves : σ.machine.Involves n) :
    ∃ base, Abreast n (Same D) base σ.machine σ.machine := by
  rcases hinvolves with hrunning | ⟨label, rest, d, hmem⟩
  · have htwin := h.twin
    obtain ⟨⟨s, stack, control⟩, held, pending⟩ := σ
    cases control with
    | running k label rest =>
        cases hrunning
        exact ⟨stack, .running htwin label rest⟩
    | _ => cases hrunning
  · exact h.waits label rest d hmem

/-- The activation makes a step: it gets at what it got at before, and at new cells that it owns. -/
theorem Secluded.step
    (hσ : Reachable Plain σ)
    (h : σ.Secluded D n)
    (hinvolves : σ.machine.Involves n)
    (hallows : σ.machine.Allows n) :
    ∃ D', Secluded D' n ⟨σ.machine.step, σ.held, σ.pending⟩ := by
  have horderly := hσ.orderly
  obtain ⟨base, habreast⟩ := h.abreast hinvolves
  obtain ⟨S, hbeside⟩ := habreast.step hallows
  have hgrows : Grows σ.machine.Grasps Store.Nowhere σ.layout
      (layout ⟨σ.machine.step, σ.held, σ.pending⟩) :=
    Machine.grows_step_alone horderly.flat.machine horderly.bounded
      (Machine.isCreate_of_abreast habreast hallows)
  have hsource : ∀ c, S c c → D c ∨ ((layout ⟨σ.machine.step, σ.held, σ.pending⟩).owns n c ∧
      σ.layout.IsNew (layout ⟨σ.machine.step, σ.held, σ.pending⟩) c) := by
    intro c hc
    rcases hbeside.owned c c hc with hold | howns
    · exact Or.inl hold.1
    · rcases hgrows.owns n c howns with ⟨f, hf, hc⟩ | hnew
      · obtain ⟨g, g', hg, hg', halike⟩ := h.twin.frame
        cases hf.symm.trans hg
        cases hf.symm.trans hg'
        exact Or.inl (halike.owned hc)
      · exact Or.inr ⟨howns, hnew⟩
  refine ⟨Fixed S, (twin_of_beside hbeside.control).fixed, ?_, ?_, ?_⟩
  · intro label rest d hmem
    rcases hbeside.control with hgoes | hends
    · exact ⟨base, hgoes.fixed⟩
    · -- What has ended has left the contexts below, or some of them.
      have hsuffix : σ.machine.step.stack <:+ base := by
        generalize σ.machine.step = m at hends
        cases hends with
        | returning => exact List.suffix_rfl
        | raising _ hbelow => exact hbelow
      have hsingle := hσ.sound.single n
      simp only [uses, Machine.uses] at hsingle
      exact absurd (hsuffix.mem hmem) (Machine.absent_of_abreast habreast (by omega) label rest d)
  · intro m c hc hne hreaches
    rcases hsource c hc with hold | ⟨howns, hnew⟩
    · exact h.apart m c hold hne (hgrows.reaches_of_lt (h.twin.lt hold) hreaches)
    · exact hgrows.not_reaches_new horderly.bounded (fun _ hc => hc.elim) hne.symm howns hnew hreaches
  · intro c htarget hc
    rcases hsource c hc with hold | ⟨-, hnew⟩
    · exact h.pending c htarget hold
    · exact Nat.not_lt_of_le hnew.1 (hσ.target_lt htarget)

/-- Others make a move, and leave the activation alone. -/
theorem Secluded.rest
    (hσ : Reachable Plain σ)
    (h : σ.Secluded D n)
    (hmove : Move Plain σ τ)
    (hinvolves : ¬ σ.machine.Involves n) :
    τ.Secluded D n := by
  have horderly := hσ.orderly
  have hgrows := horderly.grows_targets hmove (Machine.grows_step horderly.flat.machine horderly.bounded)
  -- The frame that runs is another one.
  have hgrasps : ∀ c, D c → ¬ σ.machine.Grasps c := by
    rintro c hc ⟨m, f, hrunning, hf, hholds⟩
    refine h.apart m c hc ?_ (Or.inl (Or.inl ⟨f, hf, hholds⟩))
    rintro rfl
    exact hinvolves (Or.inl hrunning)
  have hleaves : σ.machine.store.Leaves n D τ.machine.store := by
    refine ⟨hgrows.cells, ?_, ?_⟩
    · intro c hc
      refine hgrows.content c (h.twin.lt hc) ?_
      rintro (hgrasped | htarget)
      · exact hgrasps c hc hgrasped
      · exact h.pending c htarget hc
    · obtain ⟨f, -, hf, -⟩ := h.twin.frame
      rw [hf, (stays_move hmove).kept n f hf fun hengages => hinvolves hengages.involves]
  refine ⟨h.twin.of_leaves ?_ ?_ rfl, ?_, ?_, ?_⟩
  · exact ⟨hleaves.size, fun c ⟨_, hc, _⟩ => hleaves.content c hc, hleaves.frame⟩
  · refine ⟨hleaves.size, ?_, hleaves.frame⟩
    rintro c ⟨_, hc, rfl⟩
    exact hleaves.content c hc
  · intro label rest d hmem
    exact absurd (involves_of_awaiting hmove hmem) hinvolves
  · intro m c hc hne hreaches
    rcases hgrows.reaches m c hreaches with hold | ⟨-, k, f, slot, hrunning, hf, hslot⟩ | ⟨hnew, -⟩
    · exact h.apart m c hc hne hold
    · exact hgrasps c hc ⟨k, f, hrunning, hf, Frame.holds_of_value hslot⟩
    · exact Nat.not_lt_of_le hnew.1 (h.twin.lt hc)
  · intro c htarget hc
    rcases target_move horderly.flat.machine.store hmove htarget with htarget | ⟨hnew, -⟩
    · exact h.pending c htarget hc
    · exact Nat.not_lt_of_le hnew.1 (h.twin.lt hc)

theorem Secluded.settle
    (h : σ.Secluded D n) :
    Secluded D n ⟨σ.machine, σ.held, []⟩ := by
  refine ⟨h.twin, h.waits, ?_, ?_⟩
  · intro m c hc hne hreaches
    have hextends := extends_settle (P := HasStatic σ.pending) (Q := HasStatic []) (by
      rintro c ⟨item, hitem, -⟩
      cases hitem) σ.machine
    exact h.apart m c hc hne (hextends.reaches_of_lt (h.twin.lt hc) hreaches)
  · rintro c ⟨item, hitem, -⟩
    cases hitem

/-- The activation stays secluded, whoever makes the move. -/
theorem Secluded.move
    (hσ : Reachable Plain σ)
    (h : σ.Secluded D n)
    (hmove : Move Plain σ τ)
    (hallows : σ.machine.Allows n) :
    ∃ D', τ.Secluded D' n := by
  by_cases hinvolves : σ.machine.Involves n
  · cases hmove with
    | step m held pending => exact h.step hσ hinvolves hallows
    | settle m held pending => exact ⟨D, h.settle⟩
    | link hidle => exact absurd hinvolves (Machine.not_involves_of_idle hidle _)
    | call hidle => exact absurd hinvolves (Machine.not_involves_of_idle hidle _)
    | main hidle => exact absurd hinvolves (Machine.not_involves_of_idle hidle _)
    | keep => exact absurd hinvolves (Machine.not_involves_of_idle rfl _)
    | resume hidle => exact absurd hinvolves (Machine.not_involves_of_idle hidle _)
    | prepare hidle => exact absurd hinvolves (Machine.not_involves_of_idle hidle _)
    | assign => exact absurd hinvolves (Machine.not_involves_of_idle rfl _)
  · exact ⟨D, h.rest hσ hmove hinvolves⟩

/-! ## Lives -/

/-- A procedure is entered with scalars as its arguments, and `n` is its activation. -/
inductive Calls (n : Nat) : Course → Course → Prop
  | enter
      {σ : Course} {s : Store} {p : Procedure} {args : List Value} {names : List String}
      (hn : σ.size = n)
      (hs : s.frames.size = n)
      (hvariadic : p.code.variadic = false)
      (hargs : ∀ v ∈ args, v.isScalar = true)
      (hfault : p.code.argumentFault? args names = none)
      (stack : List Context) (environment : Environment) (held : List Continuation)
      (pending : List (Item Initializer)) :
      Calls n σ ⟨Machine.enter s stack environment p args names, held, pending⟩

/-- The new frame looks like itself, and its variables hold scalars. -/
theorem Calls.exists_frame
    (h : Calls n σ τ) :
    ∃ f, τ.machine.store.frames[n]? = some f ∧ f.Alike (Same f.Owns) f ∧
      ∀ c, f.Owns c → (τ.machine.store.read c).isScalar = true := by
  cases h with
  | @enter s p args names hn hs hvariadic hargs hfault stack environment held pending =>
      have hframes := Store.frames_eq_of_activity (s.activity_bindArguments p.code args names)
      have hscalars := s.holdsScalars_bindArguments hvariadic hargs names
      have hstore : (Machine.enter s stack environment p args names).store =
          ((s.bindArguments p.code args names).2.newFrame
            (.new environment p args (s.bindArguments p.code args names).1)).2 := by
        unfold Machine.enter
        rw [hfault]
        dsimp only
        split
        · rfl
        · exact Machine.store_leave ..
      dsimp only
      rw [hstore]
      generalize s.bindArguments p.code args names = bound at hframes hscalars
      refine ⟨.new environment p args bound.1, ?_, Frame.alike_new hargs ?_ environment, ?_⟩
      · simp only [Store.newFrame, hframes, ← hs, Array.getElem?_push_size]
      · exact fun name c hc => Or.inl ⟨name, hc⟩
      · rintro c (⟨name, hc⟩ | ⟨scope, hscope, -⟩)
        · exact hscalars name c hc
        · cases hscope

/-- An activation that has been called with scalars, and has executed allowed instructions only. -/
inductive Lives (n : Nat) : Course → Prop
  | called
      {σ τ : Course}
      (hσ : Reachable Plain σ)
      (hmove : Move Plain σ τ)
      (hcalls : Calls n σ τ) :
      Lives n τ
  | move
      {σ τ : Course}
      (h : Lives n σ)
      (hallows : σ.machine.Allows n)
      (hmove : Move Plain σ τ) :
      Lives n τ

theorem Lives.reachable
    (h : Lives n σ) :
    Reachable Plain σ := by
  induction h with
  | called hσ hmove _ => exact hσ.leads (.single hmove)
  | move _ _ hmove ih => exact ih.leads (.single hmove)

/-- The activation that a call makes has the cells of its variables for itself. -/
theorem secluded_of_calls
    (hσ : Reachable Plain σ)
    (hmove : Move Plain σ τ)
    (hcalls : Calls n σ τ) :
    τ.Secluded (Owns τ.machine n) n := by
  have hτ : Reachable Plain τ := hσ.leads (.single hmove)
  obtain ⟨W, X, hX, hgrows⟩ := hσ.orderly.grows hmove
  have hn : σ.size = n := by
    cases hcalls
    assumption
  -- The frame is new, and so are the cells that it owns.
  have hnew : ∀ c, Owns τ.machine n c → σ.layout.IsNew τ.layout c := by
    intro c hc
    refine (hgrows.owns n c hc).resolve_left ?_
    rintro ⟨f, hf, -⟩
    obtain ⟨hlt, -⟩ := Array.getElem?_eq_some_iff.mp hf
    exact Nat.lt_irrefl _ (hn ▸ hlt)
  refine ⟨?_, ?_, ?_, ?_⟩
  · obtain ⟨f, hf, hself, hscalars⟩ := hcalls.exists_frame
    have howns : ∀ c, Owns τ.machine n c → f.Owns c := by
      rintro c ⟨g, hg, hc⟩
      cases hf.symm.trans hg
      exact hc
    have halike := Store.alike_same (D := Owns τ.machine n) (fun c hc => (hnew c hc).2)
      fun c hc => hscalars c (howns c hc)
    exact ⟨halike, rfl, f, f, hf, hf, hself.mono fun c d hcd => ⟨⟨f, hf, hcd.1⟩, hcd.2⟩⟩
  · intro label rest d hmem
    exact absurd (involves_of_awaiting hmove hmem) (hσ.sound.not_involves (Nat.le_of_eq hn))
  · intro m c hc hne
    exact hgrows.not_reaches_new hσ.orderly.bounded (hσ.orderly.exposed_lt hX) hne.symm hc (hnew c hc)
  · intro c htarget hc
    rcases target_move hσ.orderly.flat.machine.store hmove htarget with hold | ⟨-, hframes⟩
    · exact Nat.not_lt_of_le (hnew c hc).1 (hσ.target_lt hold)
    · obtain ⟨f, hf, -⟩ := hc
      obtain ⟨hlt, -⟩ := Array.getElem?_eq_some_iff.mp hf
      rw [hframes] at hlt
      exact Nat.lt_irrefl _ (hn ▸ hlt)

/-- Every move since the call has kept the activation secluded. -/
theorem Lives.secluded
    (h : Lives n σ) :
    ∃ D, σ.Secluded D n := by
  induction h with
  | called hσ hmove hcalls => exact ⟨_, secluded_of_calls hσ hmove hcalls⟩
  | move h hallows hmove ih =>
      obtain ⟨D, hD⟩ := ih
      exact hD.move h.reachable hmove hallows

/-- Different activations get at different cells. -/
theorem exists_territories
    {ι : Type} {n : ι → Nat}
    (hn : n.Injective)
    (h : ∀ i, Lives (n i) σ) :
    ∃ D : ι → CellId → Prop, (∀ i, σ.machine.store.Twin (n i) (Same (D i)) σ.machine.store) ∧
      ∀ i j c, D i c → D j c → i = j := by
  choose D hD using fun i => (h i).secluded
  -- The cells that the activation might have got at, as far as it still does.
  refine ⟨fun i c => D i c ∧ ∃ f, σ.machine.store.frames[n i]? = some f ∧ (f.Owns c ∨ f.Holds c), ?_, ?_⟩
  · intro i
    refine (hD i).twin.same (fun c hc => ⟨hc.1, rfl⟩) ?_
    exact fun f c hf hc hsame => ⟨hsame.1, f, hf, hc⟩
  · rintro i j c ⟨hc, -⟩ ⟨-, f, hf, hgets⟩
    by_contra hne
    refine (hD i).apart (n j) c hc (fun heq => hne (hn heq).symm) ?_
    rcases hgets with howns | hholds
    · exact Or.inr (Or.inl ⟨f, hf, howns⟩)
    · exact Or.inl (Or.inl ⟨f, hf, hholds⟩)

end Course

end Seclusion

end GoalDirected
