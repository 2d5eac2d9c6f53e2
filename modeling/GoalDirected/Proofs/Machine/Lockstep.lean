import GoalDirected.Proofs.Machine.Discipline
import GoalDirected.Proofs.Machine.Twins

/-!
# Activations in lockstep

**Input.** Two machines that are about to work on the same frame, in stores in which that frame looks alike, with the
same contexts below.

**Argument.** As long as the frame executes allowed instructions only, each step does the same in both machines: the
frame goes on, or it waits for an operator or for a generator of its own, which answer at once, or it ends with the
same scalar, failure or fault.  So both machines make the same number of steps.

**Results.**
* `Abreast`, `Parted`: machines that work on the frame, and machines in which it has just ended.
* `Abreast.step`: one step of both machines.
* `run_beside`: any number of steps, as long as nothing waits below.
* `Machine.result_of_beside`: such runs have the same result.
-/

namespace GoalDirected

section Lockstep

/-- The frame looks alike in two stores that are alike and have the same global names. -/
structure Store.Twin (n : Nat) (R : CellId → CellId → Prop) (s t : Store) : Prop where
  alike : s.Alike R t
  namespaces : t.namespaces = s.namespaces
  frame : ∃ f g, s.frames[n]? = some f ∧ t.frames[n]? = some g ∧ f.Alike R g

/-- What an activation ends with: no value, a scalar, or a scalar with its own continuation. -/
def Outcome.Ends (n : Nat) : Outcome → Prop
  | .fail => True
  | .result v => v.isScalar = true
  | .suspended v k => v.isScalar = true ∧ ∃ label, k = .activation n label

/-- The instruction that the frame is about to execute. -/
def Machine.upcoming? (n : Nat) (m : Machine) : Option Ir.Instruction :=
  match m.control with
  | .running k _ (i :: _) => if k = n then some i else none
  | _ => none

/-- If the frame is about to execute an instruction, it is an allowed one. -/
def Machine.Allows (n : Nat) (m : Machine) : Prop :=
  ∀ f ∈ m.store.frames[n]?, ∀ i ∈ m.upcoming? n, m.store.Allows f i

instance (n : Nat) (m : Machine) : Decidable (m.Allows n) :=
  inferInstanceAs (Decidable (∀ f ∈ m.store.frames[n]?, ∀ i ∈ m.upcoming? n, m.store.Allows f i))

/-- Two machines work on the frame, with the same contexts below. -/
inductive Abreast (n : Nat) (R : CellId → CellId → Prop) (base : List Context) : Machine → Machine → Prop
  | running
      {s t : Store}
      (h : s.Twin n R t)
      (label : Ir.Label) (rest : List Ir.Instruction) :
      Abreast n R base ⟨s, base, .running n label rest⟩ ⟨t, base, .running n label rest⟩
  | returning
      {s t : Store} {o o' : Outcome}
      (h : s.Twin n R t)
      (ho : o.Alike R o')
      (label : Ir.Label) (rest : List Ir.Instruction) (d : Ir.Destination) :
      Abreast n R base ⟨s, .awaiting n label rest d :: base, .returning o⟩
        ⟨t, .awaiting n label rest d :: base, .returning o'⟩
  | raising
      {s t : Store} {r : Raised}
      (h : s.Twin n R t)
      (hr : r.fault.IsScalar)
      (label : Ir.Label) (rest : List Ir.Instruction) (d : Ir.Destination) :
      Abreast n R base ⟨s, .awaiting n label rest d :: base, .raising r⟩
        ⟨t, .awaiting n label rest d :: base, .raising r⟩

/-- The activation has ended with the same in two machines. -/
inductive Parted (n : Nat) (R : CellId → CellId → Prop) (base : List Context) : Machine → Machine → Prop
  | returning
      {s t : Store} {o : Outcome}
      (h : s.Twin n R t)
      (ho : o.Ends n) :
      Parted n R base ⟨s, base, .returning o⟩ ⟨t, base, .returning o⟩
  | raising
      {s t : Store} {below : List Context}
      (h : s.Twin n R t)
      (hbelow : below <:+ base)
      (r : Raised) :
      Parted n R base ⟨s, below, .raising r⟩ ⟨t, below, .raising r⟩

/-- Two machines that have come from stores in tandem work on the frame, or it has ended in them. -/
structure Beside (n : Nat) (R S : CellId → CellId → Prop) (base : List Context) (s t : Store) (m m' : Machine) :
    Prop where
  control : Abreast n S base m m' ∨ Parted n S base m m'
  tandem : Store.Tandem n R S s t m.store m'.store
  owned : ∀ c d, S c d → R c d ∨ ∃ f, m.store.frames[n]? = some f ∧ f.Owns c

/-- What a frame notes are scalars. -/
theorem Frame.Alike.noting
    {R : CellId → CellId → Prop} {f g : Frame} {e : Fault}
    (h : f.Alike R g)
    (he : e.IsScalar) :
    (f.noting e).Alike R (g.noting e) where
  procedure := h.procedure
  args := h.args
  vars := h.vars
  scopes := h.scopes
  size := h.size
  temps := h.temps
  coord := h.coord
  offender := by simp only [Frame.noting, h.offender]
  plainArgs := h.plainArgs
  plainOffender := by
    intro v hv
    rcases Option.or_eq_some_iff.mp hv with hv | ⟨-, hv⟩
    · exact h.plainOffender v hv
    · cases e with
      | exception cause offending => exact he v (List.mem_of_head? hv)
      | malfunction reason => cases hv
  left := h.left
  right := h.right

theorem Store.Twin.setFrame
    {R : CellId → CellId → Prop} {s t : Store} {f g : Frame} {n : Nat}
    (h : s.Twin n R t)
    (hfg : f.Alike R g) :
    (s.setFrame n f).Twin n R (t.setFrame n g) := by
  obtain ⟨f', g', hf, hg, -⟩ := h.frame
  exact ⟨(Store.Tandem.setFrame h.alike n f g).alike, h.namespaces, f, g, Store.getElem?_frames_setFrame_self hf f,
    Store.getElem?_frames_setFrame_self hg g, hfg⟩

/-- The frame and the cells in a set have been left alone. -/
structure Store.Leaves (n : Nat) (D : CellId → Prop) (s t : Store) : Prop where
  size : s.cells.size ≤ t.cells.size
  content : ∀ c, D c → t.read c = s.read c
  frame : t.frames[n]? = s.frames[n]?

/-- What happens to another frame and to other cells makes no difference. -/
theorem Store.Twin.of_leaves
    {R : CellId → CellId → Prop} {s t s' t' : Store} {n : Nat}
    (h : s.Twin n R t)
    (hs : s.Leaves n (Left R) s')
    (ht : t.Leaves n (Right R) t')
    (hnamespaces : t'.namespaces = s'.namespaces) :
    s'.Twin n R t' := by
  obtain ⟨f, g, hf, hg, hfg⟩ := h.frame
  refine ⟨⟨h.alike.functional, h.alike.injective, ?_, ?_⟩, hnamespaces, f, g, hs.frame.trans hf, ht.frame.trans hg,
    hfg⟩
  · intro c d hcd
    obtain ⟨hc, hd⟩ := h.alike.bounded c d hcd
    exact ⟨Nat.lt_of_lt_of_le hc hs.size, Nat.lt_of_lt_of_le hd ht.size⟩
  · intro c d hcd
    rw [hs.content c ⟨d, hcd⟩, ht.content d ⟨c, hcd⟩]
    exact h.alike.content c d hcd

/-- A frame has been replaced in both stores first. -/
theorem Beside.of_setFrame
    {n : Nat} {R : CellId → CellId → Prop} {base : List Context} {s t : Store} {f g : Frame} {m m' : Machine}
    (h : Beside n R R base (s.setFrame n f) (t.setFrame n g) m m')
    (halike : s.Alike R t) :
    Beside n R R base s t m m' :=
  ⟨h.control, (Store.Tandem.setFrame halike n f g).trans h.tandem, h.owned⟩

namespace Machine

variable {R S : CellId → CellId → Prop} {s t : Store} {n : Nat} {base : List Context}

/-! ## Components of a step -/

/-- The frame goes on, with stores that have stayed as they were. -/
theorem beside_running
    (h : s.Twin n R t)
    (base : List Context) (label : Ir.Label) (rest : List Ir.Instruction) :
    Beside n R R base s t ⟨s, base, .running n label rest⟩ ⟨t, base, .running n label rest⟩ :=
  ⟨Or.inl (.running h label rest), .refl h.alike n, fun _ _ => Or.inl⟩

theorem beside_ended
    {o : Outcome}
    (h : s.Twin n R t)
    (ho : o.Ends n)
    (base : List Context) :
    Beside n R R base s t ⟨s, base, .returning o⟩ ⟨t, base, .returning o⟩ :=
  ⟨Or.inr (.returning h ho), .refl h.alike n, fun _ _ => Or.inl⟩

/-- A fault leaves both activations with the same trace. -/
theorem beside_fault
    {r : Raised}
    (h : s.Twin n R t)
    (hr : r.fault.IsScalar)
    (base : List Context) :
    Beside n R R base s t (fault s base n r) (fault t base n r) := by
  by_cases hbare : base.head? = some .bare
  · obtain ⟨below, rfl⟩ := List.head?_eq_some_iff.mp hbare
    exact ⟨Or.inr (.raising h (List.suffix_cons _ below) r), .refl h.alike n, fun _ _ => Or.inl⟩
  · obtain ⟨f, g, hf, hg, hfg⟩ := h.frame
    have hnoting := hfg.noting hr
    obtain ⟨hleft, hright⟩ := hnoting.areShown s t
    rw [fault_pass hbare hf (Or.inr hfg.left), fault_pass hbare hg (Or.inr hfg.right)]
    simp only [leave, Store.getElem?_frames_setFrame_self hf, Store.getElem?_frames_setFrame_self hg,
      Store.areShown_setFrame, Store.traceEntry_setFrame, hleft, hright, if_true, hnoting.traceEntry s t]
    exact ⟨Or.inr (.raising (h.setFrame hnoting) List.suffix_rfl _), .setFrame h.alike n _ _, fun _ _ => Or.inl⟩

theorem beside_malfunction
    (h : s.Twin n R t)
    (base : List Context) (e : Malfunction) :
    Beside n R R base s t (malfunction s base n e) (malfunction t base n e) :=
  beside_fault (r := ⟨.malfunction e, []⟩) h trivial base

theorem beside_jump
    (h : s.Twin n R t)
    (base : List Context) (label : Ir.Label) :
    Beside n R R base s t (jump s base n label) (jump t base n label) := by
  obtain ⟨f, g, hf, hg, hfg⟩ := h.frame
  unfold jump
  rw [hf, hg]
  dsimp only
  rw [hfg.procedure, hfg.place]
  split
  · exact beside_running h base label _
  · exact beside_malfunction h base _

theorem beside_failed
    (h : s.Twin n R t)
    (base : List Context) (onFail : Option Ir.Label) :
    Beside n R R base s t (failed s base n onFail) (failed t base n onFail) := by
  cases onFail with
  | none => exact beside_ended (o := .fail) h trivial base
  | some label => exact beside_jump h base label

/-- The frame waits for an outcome that is there. -/
theorem beside_returning
    {o o' : Outcome}
    (h : s.Twin n R t)
    (ho : o.Alike R o')
    (base : List Context) (label : Ir.Label) (rest : List Ir.Instruction) (d : Ir.Destination) :
    Beside n R R base s t ⟨s, .awaiting n label rest d :: base, .returning o⟩
      ⟨t, .awaiting n label rest d :: base, .returning o'⟩ :=
  ⟨Or.inl (.returning h ho label rest d), .refl h.alike n, fun _ _ => Or.inl⟩

/-- An operator answers at once. -/
theorem beside_invoke
    {op : String} {args args' : List Value}
    (h : s.Twin n R t)
    (hop : op ≠ "@")
    (hargs : List.Forall₂ (Value.Alike R) args args')
    (base : List Context) (label : Ir.Label) (rest : List Ir.Instruction) (d : Ir.Destination) :
    Beside n R R base s t (invoke s (.awaiting n label rest d :: base) op args)
      (invoke t (.awaiting n label rest d :: base) op args') := by
  have hframes := Store.frames_eq_of_activity (s.activity_invoke op args)
  have hframes' := Store.frames_eq_of_activity (t.activity_invoke op args')
  have hconcur := Store.invoke_alike h.alike hop hargs n
  unfold invoke
  generalize s.invoke op args = x at hframes hconcur
  generalize t.invoke op args' = y at hframes' hconcur
  cases hconcur with
  | @reply r r' s' t' hreply halike hleft hright =>
      obtain ⟨f, g, hf, hg, hfg⟩ := h.frame
      have htwin : s'.Twin n R t' :=
        ⟨halike, by rw [hright.namespaces, hleft.namespaces, h.namespaces], f, g, by rw [hframes, hf],
          by rw [hframes', hg], hfg⟩
      have htandem : Store.Tandem n R R s t s' t' :=
        ⟨halike, ⟨fun _ _ => id, fun _ _ => Or.inl⟩, hleft, hright⟩
      cases hreply with
      | outcome ho => exact ⟨Or.inl (.returning htwin ho label rest d), htandem, fun _ _ => Or.inl⟩
      | fault he => exact ⟨Or.inl (.raising (r := ⟨_, []⟩) htwin he label rest d), htandem, fun _ _ => Or.inl⟩

/-- A generator of scalars answers at once, and looks at no store. -/
theorem beside_resume
    {k : Continuation}
    (h : s.Twin n R t)
    (hk : k.IsPure)
    (base : List Context) (label : Ir.Label) (rest : List Ir.Instruction) (d : Ir.Destination) :
    Beside n R R base s t (resume s (.awaiting n label rest d :: base) k)
      (resume t (.awaiting n label rest d :: base) k) := by
  cases k with
  | values values => exact beside_returning h (Store.alike_valuesFrom hk) base label rest d
  | count low high => exact beside_returning h (Store.alike_countFrom R low high) base label rest d
  | activation frame again => exact hk.elim
  | elements list position => exact hk.elim

theorem beside_perform
    {e e' : Effect}
    (h : s.Twin n R t)
    (he : e.Alike R e')
    (base : List Context) (label : Ir.Label) (rest : List Ir.Instruction)
    (environment environment' : Environment) :
    Beside n R R base s t (perform s base n label rest environment e)
      (perform t base n label rest environment' e') := by
  cases he with
  | next => exact beside_running h base label rest
  | goto target => exact beside_jump h base target
  | failed => exact beside_failed h base none
  | succeed hv again =>
      cases again with
      | none => exact beside_ended (o := .result _) h hv base
      | some again => exact beside_ended (o := .suspended _ _) h ⟨hv, again, rfl⟩ base
  | operator hop hargs d => exact beside_invoke h hop hargs base label rest d
  | resume hk d =>
      rename_i k
      cases k with
      | none => exact beside_returning h .fail base label rest d
      | some k => exact beside_resume h (hk k rfl) base label rest d
  | fault he => exact beside_fault (r := ⟨_, []⟩) h he base

/-- An allowed instruction is executed in both machines. -/
theorem beside_advance
    {label : Ir.Label} {rest : List Ir.Instruction}
    (h : s.Twin n R t)
    (hallows : Allows n ⟨s, base, .running n label rest⟩) :
    ∃ S, Beside n R S base s t (advance s base n label rest) (advance t base n label rest) := by
  obtain ⟨f, g, hf, hg, hfg⟩ := h.frame
  cases rest with
  | nil =>
      simp only [advance, hf, hg, hfg.place]
      exact ⟨R, beside_malfunction h base _⟩
  | cons i rest =>
      obtain ⟨S, hrepeats⟩ := Store.execute_alike h.alike h.namespaces hfg (hallows f hf i (if_pos rfl)) n
      have hframe := s.getElem?_frames_execute f i hf
      have hframe' := t.getElem?_frames_execute g i hg
      have htwin : (s.execute f i).2.2.Twin n S (t.execute g i).2.2 :=
        ⟨hrepeats.tandem.alike,
          by rw [hrepeats.tandem.right.namespaces, hrepeats.tandem.left.namespaces, h.namespaces],
          f, g, hframe, hframe', hfg.mono hrepeats.tandem.widens.mono⟩
      have hperform := (beside_perform (htwin.setFrame hrepeats.frame) hrepeats.effect base label rest
        (s.execute f i).2.1.environment (t.execute g i).2.1.environment).of_setFrame hrepeats.tandem.alike
      refine ⟨S, ?_⟩
      simp only [advance, hf, hg]
      refine ⟨hperform.control, hrepeats.tandem.trans hperform.tandem, ?_⟩
      intro c d hcd
      rcases hrepeats.owned c d hcd with hcd | ⟨hnext, howns⟩
      · exact Or.inl hcd
      · rw [hnext]
        exact Or.inr ⟨_, Store.getElem?_frames_setFrame_self hframe _, howns⟩

theorem agrees_storeOutcome
    {f g : Frame} {o o' : Outcome}
    (hfg : f.Alike R g)
    (ho : o.Alike R o')
    (d : Ir.Destination) :
    Agrees Frame.Any (Frame.Alike R) (storeOutcome f d o) (storeOutcome g d o') := by
  unfold storeOutcome
  refine Agrees.bind (P := Frame.Alike R) ?_ fun f g hfg => ?_
  · cases d.value with
    | none => exact .ok hfg
    | some slot =>
        cases ho with
        | fail => exact .ok hfg
        | result hvw => exact hfg.set slot hvw
        | suspended hvw _ => exact hfg.set slot hvw
  · cases d.next with
    | none => exact .ok hfg
    | some slot =>
        rw [ho.next?.1]
        exact hfg.setNext slot ho.next?.2

/-- An outcome reaches the frame in both machines. -/
theorem beside_deliver
    {o o' : Outcome}
    (h : s.Twin n R t)
    (ho : o.Alike R o')
    (base : List Context) (label : Ir.Label) (rest : List Ir.Instruction) (d : Ir.Destination) :
    Beside n R R base s t (deliver s base n label rest d o) (deliver t base n label rest d o') := by
  obtain ⟨f, g, hf, hg, hfg⟩ := h.frame
  have hstored := agrees_storeOutcome hfg ho d
  unfold deliver
  rw [hf, hg]
  dsimp only
  generalize storeOutcome f d o = x at hstored
  generalize storeOutcome g d o' = y at hstored
  cases hstored with
  | error _ => exact beside_malfunction h base _
  | ok hframe =>
      have hset := h.setFrame hframe
      cases ho with
      | fail => exact (beside_failed hset base d.onFail).of_setFrame h.alike
      | result _ => exact (beside_running hset base label rest).of_setFrame h.alike
      | suspended _ _ => exact (beside_running hset base label rest).of_setFrame h.alike

end Machine

open Machine

/-! ## Steps and runs -/

variable {n : Nat} {R S : CellId → CellId → Prop} {base : List Context} {m m' : Machine}

/-- The frame does the same in both machines. -/
theorem Abreast.step
    (h : Abreast n R base m m')
    (hallows : m.Allows n) :
    ∃ S, Beside n R S base m.store m'.store m.step m'.step := by
  cases h with
  | running h label rest => exact beside_advance h hallows
  | returning h ho label rest d => exact ⟨R, beside_deliver h ho base label rest d⟩
  | raising h hr label rest d => exact ⟨R, beside_fault h hr base⟩

theorem twin_of_beside
    (h : Abreast n R base m m' ∨ Parted n R base m m') :
    m.store.Twin n R m'.store := by
  rcases h with h | h <;> cases h <;> assumption

/-- Without contexts below, machines in which the activation has ended are finished. -/
theorem Parted.isFinished
    (h : Parted n R [] m m') :
    m.isFinished = true ∧ m'.isFinished = true := by
  cases h with
  | returning h ho => exact ⟨rfl, rfl⟩
  | raising h hbelow r =>
      cases List.suffix_nil.mp hbelow
      exact ⟨rfl, rfl⟩

/-- One more step of a run; a finished machine stays as it is. -/
theorem Machine.run_succ (m : Machine) (fuel : Nat) : m.run (fuel + 1) = (m.run fuel).step := by
  rw [run_add]
  generalize m.run fuel = k
  simp only [run]
  split
  · rename_i hfinished
    exact (step_of_isFinished hfinished).symm
  · rfl

/-- Both machines make the same number of steps. -/
theorem run_beside
    (h : Abreast n R [] m m' ∨ Parted n R [] m m')
    (hallows : ∀ fuel, (m.run fuel).Allows n)
    (fuel : Nat) :
    ∃ S, (Abreast n S [] (m.run fuel) (m'.run fuel) ∨ Parted n S [] (m.run fuel) (m'.run fuel)) ∧
      Store.Tandem n R S m.store m'.store (m.run fuel).store (m'.run fuel).store := by
  induction fuel with
  | zero => exact ⟨R, h, .refl (twin_of_beside h).alike n⟩
  | succ fuel ih =>
      obtain ⟨S, hcontrol, htandem⟩ := ih
      rw [run_succ, run_succ]
      rcases hcontrol with habreast | hparted
      · obtain ⟨T, hbeside⟩ := habreast.step (hallows fuel)
        exact ⟨T, hbeside.control, htandem.trans hbeside.tandem⟩
      · obtain ⟨hleft, hright⟩ := hparted.isFinished
        rw [step_of_isFinished hleft, step_of_isFinished hright]
        exact ⟨S, Or.inr hparted, htandem⟩

/-- The machines have the same result, even if they have not come to an end. -/
theorem result_of_beside
    (h : Abreast n R [] m m' ∨ Parted n R [] m m') :
    m'.result = m.result ∧ ∀ o, m.result = .ok o → o.Ends n := by
  rcases h with h | h
  · cases h <;> exact ⟨rfl, fun o ho => nomatch ho⟩
  · cases h with
    | returning h ho =>
        refine ⟨rfl, fun o hresult => ?_⟩
        cases hresult
        exact ho
    | raising h hbelow r =>
        cases List.suffix_nil.mp hbelow
        exact ⟨rfl, fun o ho => nomatch ho⟩

/-- The machines come to the same end. -/
theorem finish_of_beside
    (h : Abreast n R [] m m' ∨ Parted n R [] m m')
    (hallows : ∀ fuel, (m.run fuel).Allows n) :
    m'.finish.1 = m.finish.1 ∧ (∀ o, m.finish.1 = .ok o → o.Ends n) ∧
      ∃ S, m.finish.2.Twin n S m'.finish.2 ∧
        Store.Tandem n R S m.store m'.store m.finish.2 m'.finish.2 := by
  obtain ⟨S, hcontrol, htandem⟩ := run_beside h hallows stepLimit
  obtain ⟨hresult, hends⟩ := result_of_beside hcontrol
  exact ⟨hresult, hends, S, twin_of_beside hcontrol, htandem⟩

end Lockstep

end GoalDirected
