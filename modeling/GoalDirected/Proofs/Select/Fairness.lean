import GoalDirected.Proofs.Machine.Rotation
import GoalDirected.Proofs.Select.Choice
import GoalDirected.Proofs.Program.Flatness
import Mathlib.Data.Fin.VecNotation
import Mathlib.Data.Fintype.Card
import Mathlib.Data.Nat.ModEq
import Mathlib.Order.Interval.Finset.Nat

/-!
# When a ready case of a select is chosen

**Input.** A run of a program, and executions of one select in it, as many as the select has cases, at all of
which one of its cases is ready.

**Argument.** A select tries its cases from an offset on, and all selects of the program share the counter that the
offset is taken from.  A ready case is chosen when the offset leads to it.  Between two executions the counter
goes up by the number of selects that are executed from the first to the second; so the executions have
different offsets, and one of them leads to the case, unless such a number is a multiple of the number of cases.

**Results.**
* `rotation_selectsBetween`: the counter counts the selects of a run.
* `ready_case_chosen`: the case is chosen at one of the executions, provided that no two of them have the same offset.
* `starved_by_another_select`: without that, two executions may both pass over the same ready case.
-/

namespace GoalDirected

section Fairness

deriving instance DecidableEq for Ir.Case

instance WaitCase.decidableIsReady (s : Store) : (c : WaitCase) → Decidable (c.IsReady s)
  | .send id _ =>
      decidable_of_iff
        ((s.channel? id).any (fun c => !c.closed && decide (c.queue.length < c.capacity)) = true)
        (by simp [IsReady, Option.any_eq_true])
  | .receive id =>
      decidable_of_iff ((s.channel? id).any (fun c => !c.queue.isEmpty) = true)
        (by simp [IsReady, Option.any_eq_true])
  | .default => .isFalse id

/-- The case that the offset leads to is chosen if it is ready. -/
theorem Store.chosen_of_offset
    {s : Store} {waits : List WaitCase} {i : Nat} {w : WaitCase}
    (hcase : waits[i]? = some w)
    (hoffset : s.rotation % waits.length = i)
    (hready : w.IsReady s) :
    ∃ received, (s.choose waits).1 = .chosen i received := by
  obtain ⟨hi, -⟩ := List.getElem?_eq_some_iff.mp hcase
  obtain ⟨received, t, hhappens⟩ := isReady_iff_exists_happens.mp ((isReady_turned s w).mpr hready)
  have hcase' : waits[(s.rotation + 0) % waits.length]? = some w := by
    rw [Nat.add_zero, hoffset]
    exact hcase
  have hselects : Selects s waits _ t := .ready (Nat.zero_lt_of_lt hi) hcase' nofun hhappens
  rw [(choose_eq_iff (by simp)).mpr hselects]
  exact ⟨received, by rw [Nat.add_zero, hoffset]⟩

theorem Store.length_waitCases
    {s : Store} {f : Frame} {cases : List Ir.Case} {waits : List WaitCase}
    (h : s.waitCases f cases = .ok waits) :
    waits.length = cases.length := by
  induction cases generalizing waits with
  | nil =>
      cases h
      rfl
  | cons c rest ih =>
      simp only [waitCases] at h
      split at h
      · cases h
      · cases hrest : s.waitCases f rest with
        | error e =>
            rw [hrest] at h
            cases h
        | ok ws =>
            rw [hrest] at h
            cases h
            exact congrArg (· + 1) (ih hrest)

theorem Store.waitCases_of_selecting?
    {s : Store} {f : Frame} {i : Ir.Instruction} {cases : List Ir.Case} {waits : List WaitCase}
    (h : s.selecting? f i = some (cases, waits)) :
    s.waitCases f cases = .ok waits := by
  cases i with
  | select cases' onFail =>
      obtain ⟨waits', hwaits, heq⟩ := Option.map_eq_some_iff.mp h
      cases heq
      cases hcases : s.waitCases f cases with
      | error e =>
          rw [hcases] at hwaits
          cases hwaits
      | ok found =>
          rw [hcases] at hwaits
          cases hwaits
          rfl
  | _ => cases h

/-- Every case of a select has its operands. -/
theorem Machine.length_of_selecting?
    {m : Machine} {cases : List Ir.Case} {waits : List WaitCase}
    (h : m.selecting? = some (cases, waits)) :
    waits.length = cases.length := by
  unfold Machine.selecting? at h
  split at h
  · obtain ⟨f, -, h⟩ := Option.bind_eq_some_iff.mp h
    exact Store.length_waitCases (Store.waitCases_of_selecting? h)
  · cases h

/-- The number of the chosen case. -/
def Choice.index? : Choice → Option Nat
  | .chosen i _ => some i
  | _ => none

namespace Course

/-! ## Runs -/

/-- Each course comes from the one before by a move. -/
def IsRun (admits : Value → Prop) (run : Nat → Course) : Prop :=
  ∀ k, Move admits (run k) (run (k + 1))

/-- The move at `k` executes a select, with the given cases and the same cases with their operands. -/
def SelectsAt (run : Nat → Course) (k : Nat) (cases : List Ir.Case) (waits : List WaitCase) : Prop :=
  (run k).machine.selecting? = some (cases, waits) ∧ (run (k + 1)).machine = (run k).machine.step

open Classical in
/-- The number of all selects that a run executes from `a` on and before `b`. -/
noncomputable def selectsBetween (run : Nat → Course) (a b : Nat) : Nat :=
  ((Finset.Ico a b).filter fun k => ∃ cases waits, SelectsAt run k cases waits).card

variable {admits : Value → Prop} {run : Nat → Course}

/-- A machine that is left to itself makes a run. -/
theorem isRun_iterate (admits : Value → Prop) (σ : Course) :
    IsRun admits fun k => ⟨Machine.step^[k] σ.machine, σ.held, σ.pending⟩ := by
  intro k
  simp only [Function.iterate_succ_apply']
  exact .step _ _ _

/-! ## The counter -/

theorem rotation_link (p : Program) (ir : Ir.Program) : (p.link ir).2.store.rotation = p.store.rotation := by
  have hspares : Program.Spares Store.rotation := by
    refine ⟨fun _ _ => rfl, ?_, ?_, ?_⟩
    · intro s namespaceName name v
      have hindex : (s.namespaceIndex namespaceName).2.rotation = s.rotation := by
        unfold Store.namespaceIndex
        split <;> rfl
      have hentry : ∀ (t : Store) (ns : Nat) (name : String) (cell : CellId),
          (t.addEntry ns name cell).rotation = t.rotation := by
        intro t ns name cell
        unfold Store.addEntry
        split <;> rfl
      simp only [Store.declare]
      split
      · exact hindex
      · split
        · rw [hentry]
          exact hindex
        · split
          · rw [hentry]
            exact hindex
          · rw [hentry, hentry]
            exact hindex
    · intro s name
      unfold Store.namespaceIndex
      split <;> rfl
    · exact fun s b entries => (s.updates_bindAll b entries).onward.rotation
  exact hspares.link p ir

/-- Only a step of the machine may move the counter on. -/
theorem rotation_move
    {σ τ : Course}
    (h : Move admits σ τ) :
    τ.machine = σ.machine.step ∨ τ.machine.store.rotation = σ.machine.store.rotation := by
  cases h with
  | step m held pending => exact Or.inl rfl
  | link hidle ir => exact Or.inr (rotation_link _ ir)
  | call hidle hargs environment callee names =>
      exact Or.inr (Machine.onward_call _ [] environment callee _ names).rotation
  | main hidle callee args =>
      exact Or.inr ((Store.updates_newList _ _).onward.widen (Machine.onward_call _ [] _ callee _ [])).rotation
  | keep s v k held pending => exact Or.inr rfl
  | resume hidle before k after =>
      rw [Machine.store_resume]
      exact Or.inr rfl
  | prepare hidle hitem hinit => exact Or.inr (Machine.onward_enter _ [] _ _ [] []).rotation
  | assign hitem hinit hvalue => exact Or.inr rfl
  | settle m held pending => exact Or.inr rfl

/-- A move that executes a select moves the counter on by one; all other moves leave it. -/
theorem rotation_succ
    (hrun : IsRun admits run)
    (k : Nat) :
    ((∃ cases waits, SelectsAt run k cases waits) ∧
        (run (k + 1)).machine.store.rotation = (run k).machine.store.rotation + 1) ∨
      ((¬ ∃ cases waits, SelectsAt run k cases waits) ∧
        (run (k + 1)).machine.store.rotation = (run k).machine.store.rotation) := by
  have hstep := (Machine.onward_step (run k).machine).rotation
  by_cases hselects : ∃ cases waits, SelectsAt run k cases waits
  · obtain ⟨cases, waits, hselecting, hnext⟩ := hselects
    refine Or.inl ⟨⟨cases, waits, hselecting, hnext⟩, ?_⟩
    rw [hnext, hstep, Machine.selects, hselecting]
    rfl
  · refine Or.inr ⟨hselects, ?_⟩
    rcases rotation_move (hrun k) with hnext | hsame
    · rw [hnext, hstep, Machine.selects]
      cases hselecting : (run k).machine.selecting? with
      | none => rfl
      | some found => exact absurd ⟨found.1, found.2, hselecting, hnext⟩ hselects
    · exact hsame

/-- The counter counts the selects of a run, whichever they are. -/
theorem rotation_selectsBetween
    (hrun : IsRun admits run)
    {a b : Nat}
    (hab : a ≤ b) :
    (run b).machine.store.rotation = (run a).machine.store.rotation + selectsBetween run a b := by
  classical
  induction b, hab using Nat.le_induction with
  | base => simp [selectsBetween]
  | succ b hab ih =>
      have hinsert : Finset.Ico a (b + 1) = insert b (Finset.Ico a b) :=
        Nat.Ico_succ_right_eq_insert_Ico hab
      have hnew : b ∉ Finset.Ico a b := Finset.right_notMem_Ico
      unfold selectsBetween at ih ⊢
      rw [hinsert, Finset.filter_insert]
      rcases rotation_succ hrun b with ⟨hselects, hrotation⟩ | ⟨hselects, hrotation⟩
      · rw [if_pos hselects, Finset.card_insert_of_notMem (fun hb => hnew (Finset.mem_filter.mp hb).1)]
        omega
      · rw [if_neg hselects]
        omega

/-! ## The choice -/

/-- If `n` numbers are different modulo `n`, one of them has a given remainder. -/
theorem exists_mod_eq
    {n i : Nat} {offset : Fin n → Nat}
    (hi : i < n)
    (hdistinct : ∀ j k, offset j % n = offset k % n → j = k) :
    ∃ j, offset j % n = i := by
  have hpos : 0 < n := Nat.zero_lt_of_lt hi
  have hinjective : Function.Injective fun j => (⟨offset j % n, Nat.mod_lt _ hpos⟩ : Fin n) :=
    fun j k heq => hdistinct j k (congrArg Fin.val heq)
  obtain ⟨j, hj⟩ := Finite.surjective_of_injective hinjective ⟨i, hi⟩
  exact ⟨j, congrArg Fin.val hj⟩

/-- A select with `n` cases is executed `n` times in a run, and one of its cases is ready each time.  If the
number of selects executed from one of these times up to a later one, the first of the two included, is never a
multiple of `n`, then the case is chosen at one of the times. -/
theorem ready_case_chosen
    {cases : List Ir.Case} {i : Nat} {time : Fin cases.length → Nat}
    {waits : Fin cases.length → List WaitCase}
    (hrun : IsRun admits run)
    (hi : i < cases.length)
    (htime : Function.Injective time)
    (hselects : ∀ j, SelectsAt run (time j) cases (waits j))
    (hready : ∀ j, ∃ w ∈ (waits j)[i]?, w.IsReady (run (time j)).machine.store)
    (hapart : ∀ j k, time j < time k → ¬ cases.length ∣ selectsBetween run (time j) (time k)) :
    ∃ j received, ((run (time j)).machine.store.choose (waits j)).1 = .chosen i received := by
  have hlater : ∀ j k, time j < time k →
      (run (time j)).machine.store.rotation % cases.length ≠ (run (time k)).machine.store.rotation % cases.length := by
    intro j k hlt heq
    have hcount := rotation_selectsBetween hrun (Nat.le_of_lt hlt)
    have hdvd := (Nat.modEq_iff_dvd' (by omega)).mp heq
    rw [hcount, Nat.add_sub_cancel_left] at hdvd
    exact hapart j k hlt hdvd
  have hdistinct : ∀ j k, (run (time j)).machine.store.rotation % cases.length =
      (run (time k)).machine.store.rotation % cases.length → j = k := by
    intro j k heq
    rcases Nat.lt_trichotomy (time j) (time k) with hlt | htimes | hlt
    · exact absurd heq (hlater j k hlt)
    · exact htime htimes
    · exact absurd heq.symm (hlater k j hlt)
  obtain ⟨j, hoffset⟩ := exists_mod_eq hi hdistinct
  obtain ⟨w, hcase, hw⟩ := hready j
  have hlength := Machine.length_of_selecting? (hselects j).1
  obtain ⟨received, hchosen⟩ := Store.chosen_of_offset hcase (hlength.symm ▸ hoffset) hw
  exact ⟨j, received, hchosen⟩

/-! ## Two runs -/

/-- A procedure that sends to its first channel each time before it waits for either of two.  When it has received
from the first one, it goes on at `next`; at `pause` it executes another select. -/
def racer (next : Ir.Label) : Ir.Procedure where
  name := "racer"
  namespaceName := ""
  params := []
  locals := []
  statics := []
  variadic := false
  temps := 6
  entry := "start"
  chunks :=
    [⟨"start", [.name 0 "channel", .call ⟨some 1, none, none⟩ 0 [] [], .call ⟨some 2, none, none⟩ 0 [] [],
        .name 3 "send", .literal 4 (.text "a"), .call ⟨none, none, none⟩ 3 [2, 4] [], .goto "round"]⟩,
      ⟨"round", [.call ⟨none, none, none⟩ 3 [1, 4] [], .select [.receive 1 5 next, .receive 2 5 "done"] none]⟩,
      ⟨"pause", [.select [.default "round"] none]⟩,
      ⟨"done", [.succeed (some 5) none]⟩]
  deps := []

/-- The run of that procedure. -/
def racing (next : Ir.Label) (k : Nat) : Course :=
  ⟨Machine.step^[k] (called [racer next]).machine, [], (called [racer next]).pending⟩

/-- The operands of the select that is executed at `k`. -/
def racingWaits (next : Ir.Label) (k : Nat) : List WaitCase :=
  ((racing next k).machine.selecting?.map (·.2)).getD []

theorem selectsAt_racing
    {next : Ir.Label} {k : Nat} {cases : List Ir.Case}
    (h : (racing next k).machine.selecting?.map (·.1) = some cases) :
    SelectsAt (racing next) k cases (racingWaits next k) := by
  obtain ⟨⟨cases', waits⟩, hselecting, rfl⟩ := Option.map_eq_some_iff.mp h
  refine ⟨?_, Function.iterate_succ_apply' ..⟩
  simp [racingWaits, hselecting]

/-- With no other select in between, the second of two executions chooses the second case. -/
theorem ready_case_chosen_racing :
    ∃ j : Fin 2, ∃ received,
      ((racing "round" (![12, 15] j)).machine.store.choose (racingWaits "round" (![12, 15] j))).1 =
        .chosen 1 received := by
  have hrun : IsRun Plain (racing "round") := isRun_iterate Plain ⟨(called [racer "round"]).machine, [], _⟩
  have hcount := rotation_selectsBetween hrun (show 12 ≤ 15 by decide)
  have hbetween : selectsBetween (racing "round") 12 15 = 1 := by
    have hfirst : (racing "round" 12).machine.store.rotation = 0 := by decide +kernel
    have hsecond : (racing "round" 15).machine.store.rotation = 1 := by decide +kernel
    omega
  refine @ready_case_chosen Plain (racing "round") [.receive 1 5 "round", .receive 2 5 "done"] 1 ![12, 15] _
    hrun (by decide) (by decide) (fun j => selectsAt_racing ?_) (by decide +kernel) ?_
  · revert j
    decide +kernel
  · intro j k hlt
    have hjk : j = 0 ∧ k = 1 := by
      revert j k
      decide
    rw [hjk.1, hjk.2]
    change ¬ 2 ∣ selectsBetween (racing "round") 12 15
    rw [hbetween]
    decide

/-- With one other select in between, the second case is ready at two executions of a select with two cases, and
chosen at neither. -/
theorem starved_by_another_select :
    ∃ (run : Nat → Course) (cases : List Ir.Case) (time : Fin cases.length → Nat)
      (waits : Fin cases.length → List WaitCase),
      Reachable Plain (run 0) ∧ IsRun Plain run ∧ cases.length = 2 ∧ Function.Injective time ∧
      (∀ j, SelectsAt run (time j) cases (waits j)) ∧
      (∀ j, ∃ w ∈ (waits j)[1]?, w.IsReady (run (time j)).machine.store) ∧
      ¬ ∃ j received, ((run (time j)).machine.store.choose (waits j)).1 = .chosen 1 received := by
  have hrun : IsRun Plain (racing "pause") := isRun_iterate Plain ⟨(called [racer "pause"]).machine, [], _⟩
  refine ⟨racing "pause", [.receive 1 5 "pause", .receive 2 5 "done"], ![12, 16],
    fun j => racingWaits "pause" (![12, 16] j), reachable_called _, hrun, rfl, by decide,
    fun j => selectsAt_racing ?_, by decide +kernel, ?_⟩
  · revert j
    decide +kernel
  · rintro ⟨j, received, hchosen⟩
    have hother : ∀ j : Fin 2, ((racing "pause" (![12, 16] j)).machine.store.choose
        (racingWaits "pause" (![12, 16] j))).1.index? = some 0 := by
      decide +kernel
    have h := hother j
    rw [hchosen] at h
    cases h

end Course

end Fairness

end GoalDirected
