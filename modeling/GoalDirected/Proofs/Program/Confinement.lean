import GoalDirected.Proofs.Coexpression.Tasks
import GoalDirected.Proofs.Machine.References

/-!
# Calls by value

**Input.** A course of a program none of whose procedures creates a co-expression.

**Argument.** References pass between frames only when a frame is copied, which `create` alone does.  So every
frame has got the references in its slots by itself: from its own variables, or from what is shared.

**Results.**
* `Isolated.move`: each move keeps frames apart from the variables of other frames.
* `Isolated.holds`: a move gives a frame no references but to what it reached before and to shared cells.
* `History.exists_source`: every reference in a slot has been taken from a variable of the frame or from a shared
  cell.
* `calls_by_value`: a step changes only cells of the frame that it is a step of, and shared ones.
-/

namespace GoalDirected

section Confinement

def Callable.procedure? : Callable → Option Procedure
  | .procedure p => some p
  | _ => none

namespace Course

open Layout

/-- The procedures of the program: those that can be called, and the initializers of globals. -/
def procedures (σ : Course) : List Procedure :=
  σ.machine.store.callables.toList.filterMap Callable.procedure? ++
    σ.pending.filterMap fun item => item.init.map (·.procedure)

/-- No procedure of the program creates a co-expression. -/
def LacksCreate (σ : Course) : Prop :=
  ∀ p ∈ σ.procedures, p.WrittenIn (·.isCreate = false)

instance (σ : Course) : Decidable σ.LacksCreate :=
  inferInstanceAs (Decidable (∀ p ∈ σ.procedures, p.WrittenIn (·.isCreate = false)))

/-- A move of a program that has only such procedures. -/
def ProceedsAlone (σ τ : Course) : Prop :=
  Proceeds Plain σ τ ∧ τ.LacksCreate

/-- A course with all earlier ones, the last one first, back to a new program. -/
inductive History (maxTasks : Nat) : Course → List Course → Prop
  | new : History maxTasks (new maxTasks) []
  | move
      {σ τ : Course} {past : List Course}
      (before : History maxTasks σ past)
      (hmove : ProceedsAlone σ τ) :
      History maxTasks τ (σ :: past)

variable {σ τ : Course} {n : Nat} {c : CellId}

theorem mem_procedures
    {p : Procedure} :
    p ∈ σ.procedures ↔ (∃ id : Nat, σ.machine.store.callables[id]? = some (.procedure p)) ∨
      ∃ item ∈ σ.pending, ∃ init, item.init = some init ∧ init.procedure = p := by
  have hcallable : ∀ c : Callable, c.procedure? = some p ↔ c = .procedure p := by
    intro c
    cases c <;> simp [Callable.procedure?]
  simp only [procedures, List.mem_append, List.mem_filterMap, hcallable, exists_eq_right,
    Array.mem_toList_iff, Array.mem_iff_getElem?, Option.map_eq_some_iff]

theorem LacksCreate.offers
    (h : σ.LacksCreate) :
    σ.machine.store.Offers (·.WrittenIn (·.isCreate = false)) :=
  fun id p hp => h p (mem_procedures.mpr (Or.inl ⟨id, hp⟩))

/-! ## Moves -/

theorem running?_of_isIdle
    {control : Control}
    (h : control.isIdle = true)
    (s : Store) (stack : List Context) :
    Machine.running? ⟨s, stack, control⟩ = none := by
  cases control with
  | running n label rest => cases h
  | _ => rfl

/-- The host lets the machine make a step, starts something while nothing is on the stack, or only forgets what is
pending. -/
theorem ensues_move
    (hlacks : σ.LacksCreate)
    (hmove : Move Plain σ τ) :
    τ = ⟨σ.machine.step, σ.held, σ.pending⟩ ∨ τ.machine = σ.machine ∨
      Machine.Ensues (·.WrittenIn (·.isCreate = false)) σ.machine.store [] τ.machine := by
  cases hmove with
  | step m held pending => exact Or.inl rfl
  | settle m held pending => exact Or.inr (Or.inl rfl)
  | link hidle ir =>
      exact Or.inr (Or.inr (Machine.ensues_idle (Program.prepares_link _ ir).frames (running?_of_isIdle hidle _ _)))
  | call hidle hargs environment callee names =>
      exact Or.inr (Or.inr (Machine.ensues_call hlacks.offers [] environment callee _ names))
  | main hidle callee args =>
      rename_i s control held pending
      have hlist : (s.newList (args.map Value.text).toArray).2.activity = s.activity := (s.updates_newList _).activity
      have hoffers := hlacks.offers.of_callables (Store.callables_eq_of_activity hlist)
      have hframes := Store.frames_eq_of_activity hlist
      exact Or.inr (Or.inr ((Machine.ensues_call hoffers [] _ callee _ []).after (.of_frames hframes)))
  | keep s v k held pending => exact Or.inr (Or.inr (Machine.ensues_idle rfl rfl))
  | resume hidle before k after => exact Or.inr (Or.inr (Machine.ensues_resume _ [] k))
  | prepare hidle hitem hinit =>
      have hprocedure := hlacks _ (mem_procedures.mpr (Or.inr ⟨_, hitem, _, hinit, rfl⟩))
      exact Or.inr (Or.inr (Machine.ensues_enter hprocedure _ [] _ [] []))
  | assign hitem hinit hvalue => exact Or.inr (Or.inr (Machine.ensues_idle rfl rfl))

theorem written_move
    (hlacks : σ.LacksCreate)
    (hmove : Move Plain σ τ)
    (h : σ.machine.WrittenIn (·.isCreate = false)) :
    τ.machine.WrittenIn (·.isCreate = false) := by
  rcases ensues_move hlacks hmove with rfl | hsame | hensues
  · exact h.step hlacks.offers
  · rw [hsame]
    exact h
  · have hidle : Machine.WrittenIn (·.isCreate = false) ⟨σ.machine.store, [], .returning .fail⟩ :=
      ⟨h.frames, by simp, by simp⟩
    exact hidle.of_ensues hensues

/-- All that keeps the frames of a course apart. -/
structure Isolated (σ : Course) : Prop where
  orderly : σ.Orderly
  sited : σ.machine.store.scene.IsSited
  rooted : 0 < σ.machine.store.nodes.size
  lacks : σ.LacksCreate
  written : σ.machine.WrittenIn (·.isCreate = false)
  confined : σ.layout.Confined

/-- The environment of a frame exists. -/
theorem Isolated.environment
    {f : Frame}
    (h : σ.Isolated)
    (hf : σ.machine.store.frames[n]? = some f) :
    ∀ id ∈ f.environment, id < σ.machine.store.nodes.size := by
  intro id hid
  have hsite := h.sited f.site (Array.mem_of_getElem? (Store.site_of_frame hf))
  rw [Store.size_tasks_scene] at hsite
  exact hsite id (Site.mem_nodes_of_environment hid)

theorem Isolated.grows
    (h : σ.Isolated)
    (hmove : Move Plain σ τ) :
    ∃ W, Grows W Store.Nowhere σ.layout τ.layout :=
  h.orderly.grows_of hmove (Machine.grows_step_own h.orderly.flat.machine h.orderly.bounded h.written)

/-- A reference that a frame has after a move leads to a cell that it reached before, or to a shared one. -/
theorem Isolated.holds
    (h : σ.Isolated)
    (hmove : Move Plain σ τ)
    (hc : τ.layout.holds n c) :
    σ.layout.Reaches n c ∨ τ.layout.shares c := by
  rcases ensues_move h.lacks hmove with rfl | hsame | hensues
  · exact Machine.holds_step h.orderly.flat.machine h.orderly.bounded h.written h.rooted
      (fun n f hf => h.environment hf) hc
  · rw [layout, hsame] at hc
    exact Or.inl (Or.inl hc)
  · rcases hc with ⟨g, hg, hc⟩ | ⟨label, rest, d, below, o, hstack, -⟩
    · obtain ⟨f, hf, hholds⟩ := hensues.store.holds hg hc
      exact Or.inl (Or.inl (Or.inl ⟨f, hf, hholds⟩))
    · -- Nothing waits for an outcome.
      have hnone := hensues.stack n label rest d (hstack ▸ List.mem_cons_self)
      cases hnone

/-- What keeps frames apart is kept by every move. -/
theorem Isolated.move
    (h : σ.Isolated)
    (hmove : ProceedsAlone σ τ) :
    τ.Isolated := by
  obtain ⟨hproceeds, hlacks⟩ := hmove
  obtain ⟨W, hgrows⟩ := h.grows hproceeds.1
  have hsize := hproceeds.step.kept.size
  rw [Store.size_tasks_scene, Store.size_tasks_scene] at hsize
  exact ⟨h.orderly.move hproceeds.1, hproceeds.step.sited h.sited, Nat.lt_of_lt_of_le h.rooted hsize, hlacks,
    written_move h.lacks hproceeds.1 h.written, hgrows.confined h.orderly.bounded h.confined⟩

/-- The library has no procedures. -/
theorem offers_install
    {Q : Procedure → Prop} {s : Store}
    (h : s.Offers Q)
    (builtins : List Builtin) :
    (Program.install s builtins).Offers Q := by
  induction builtins generalizing s with
  | nil => exact h
  | cons b rest ih =>
      have hpush : (s.newCallable (.builtin b)).2.Offers Q := by
        intro id p hp
        simp only [Store.newCallable, Array.getElem?_push] at hp
        split at hp
        · cases hp
        · exact h id p hp
      exact ih (hpush.of_callables (Store.callables_eq_of_activity (Store.activity_declare _ "" b.name _)))

theorem isolated_new (maxTasks : Nat) : (new maxTasks).Isolated := by
  have hnone := getElem?_frames_new maxTasks
  have hsize : (new maxTasks).machine.store.nodes.size = 1 := by
    rw [← Store.size_tasks_scene, scene_new]
    rfl
  refine ⟨orderly_new maxTasks, (ordered_new maxTasks).sited, by omega, ?_, ⟨?_, ?_, ?_⟩, ?_⟩
  · intro p hp
    rcases mem_procedures.mp hp with ⟨id, hcallable⟩ | ⟨item, hitem, -⟩
    · exact offers_install (s := { nodes := #[⟨0, []⟩], namespaces := #[⟨"", []⟩], limit := max 1 maxTasks })
        (by simp [Store.Offers]) Builtin.all id p hcallable
    · cases hitem
  · intro n f hf
    cases (hnone n).symm.trans hf
  · simp [new]
  · simp [new]
  · rintro m n c ⟨f, hf, -⟩
    cases (hnone m).symm.trans hf

/-! ## Histories -/

namespace History

variable {maxTasks : Nat} {past : List Course}

theorem isolated
    (h : History maxTasks σ past) :
    ∀ υ ∈ σ :: past, υ.Isolated := by
  induction h with
  | new =>
      intro υ hυ
      cases List.mem_singleton.mp hυ
      exact isolated_new maxTasks
  | move before hmove ih =>
      intro υ hυ
      rcases List.mem_cons.mp hυ with rfl | hυ
      · exact (ih _ List.mem_cons_self).move hmove
      · exact ih υ hυ

/-- A frame does not come to reach an old cell. -/
theorem reaches
    (h : History maxTasks σ past)
    {υ : Course}
    (hυ : υ ∈ σ :: past)
    (hc : c < υ.layout.cells) :
    c < σ.layout.cells ∧ (σ.layout.Reaches n c → υ.layout.Reaches n c) := by
  induction h with
  | new =>
      cases List.mem_singleton.mp hυ
      exact ⟨hc, id⟩
  | move before hmove ih =>
      rcases List.mem_cons.mp hυ with rfl | hυ
      · exact ⟨hc, id⟩
      · obtain ⟨hlt, hreaches⟩ := ih hυ
        obtain ⟨W, hgrows⟩ := (before.isolated _ List.mem_cons_self).grows hmove.1.1
        exact ⟨Nat.lt_of_lt_of_le hlt hgrows.cells, fun hn => hreaches (hgrows.reaches_of_lt hlt hn)⟩

/-- Every reference in a slot has been taken from a variable of the frame, or from a shared cell. -/
theorem exists_source
    (h : History maxTasks σ past)
    (hc : σ.layout.holds n c) :
    ∃ υ ∈ σ :: past, Owns υ.machine n c ∨ υ.layout.shares c := by
  induction h with
  | new =>
      rcases hc with ⟨f, hf, -⟩ | ⟨_, _, _, _, _, hstack, -⟩
      · cases (getElem?_frames_new maxTasks n).symm.trans hf
      · cases hstack
  | @move σ τ past before hmove ih =>
      have hσ := before.isolated σ List.mem_cons_self
      have hlater : (∃ υ ∈ σ :: past, Owns υ.machine n c ∨ υ.layout.shares c) →
          ∃ υ ∈ τ :: σ :: past, Owns υ.machine n c ∨ υ.layout.shares c :=
        fun ⟨υ, hυ, hsource⟩ => ⟨υ, List.mem_cons_of_mem τ hυ, hsource⟩
      rcases hσ.holds hmove.1.1 hc with (hholds | hsource) | hshared
      · exact hlater (ih hholds)
      · exact hlater ⟨σ, List.mem_cons_self, hsource⟩
      · exact ⟨τ, List.mem_cons_self, Or.inr hshared⟩

end History

/-- A step that changes a cell is a step of a frame that owns or owned the cell, unless the cell is or was shared;
and no other frame has ever owned it. -/
theorem calls_by_value
    {maxTasks : Nat} {past : List Course}
    (h : History maxTasks σ past)
    (hc : c < σ.machine.store.cells.size)
    (hchanges : σ.machine.step.store.read c ≠ σ.machine.store.read c) :
    ∃ n, σ.machine.running? = some n ∧
      (∃ υ ∈ σ :: past, Owns υ.machine n c ∨ υ.layout.shares c) ∧
      ∀ υ ∈ σ :: past, ∀ m, Owns υ.machine m c → m = n := by
  have hσ := h.isolated σ List.mem_cons_self
  have hgrows := Machine.grows_step_own hσ.orderly.flat.machine hσ.orderly.bounded hσ.written
  obtain ⟨n, f, hrunning, hf, hholds⟩ : σ.machine.Grasps c :=
    Classical.byContradiction fun hnot => hchanges (hgrows.content c hc hnot)
  have hheld : σ.layout.holds n c := Or.inl ⟨f, hf, hholds⟩
  refine ⟨n, hrunning, h.exists_source hheld, ?_⟩
  intro υ hυ m howns
  have hisolated := h.isolated υ hυ
  have hold := hisolated.orderly.bounded m c (Or.inr (Or.inl howns))
  exact hisolated.confined m n c howns ((h.reaches hυ hold).2 (Or.inl hheld))

theorem exists_history
    {maxTasks : Nat}
    (h : Relation.ReflTransGen ProceedsAlone (new maxTasks) σ) :
    ∃ past, History maxTasks σ past := by
  induction h with
  | refl => exact ⟨[], .new⟩
  | tail _ hlast ih =>
      obtain ⟨past, hpast⟩ := ih
      exact ⟨_, hpast.move hlast⟩

/-- A procedure that passes its variable to another one. -/
def giver : Ir.Procedure where
  name := "giver"
  namespaceName := ""
  params := []
  locals := ["x"]
  statics := []
  variadic := false
  temps := 2
  entry := "start"
  chunks := [⟨"start", [.name 0 "x", .name 1 "taker", .call ⟨none, none, none⟩ 1 [0] [], .fail]⟩]
  deps := []

/-- A procedure that assigns to its parameter. -/
def taker : Ir.Procedure where
  name := "taker"
  namespaceName := ""
  params := ["y"]
  locals := []
  statics := []
  variadic := false
  temps := 2
  entry := "start"
  chunks := [⟨"start", [.name 0 "y", .literal 1 (.text "b"), .operator ⟨none, none, none⟩ ":=" [0, 1], .fail]⟩]
  deps := []

/-- The assignment changes the parameter, which nobody else has ever owned, and not the variable that was passed. -/
theorem calls_by_value_giver :
    ∃ (σ : Course) (past : List Course), History 1 σ past ∧ Owns σ.machine 0 18 ∧ Owns σ.machine 1 19 ∧
      σ.machine.running? = some 1 ∧ 19 < σ.machine.store.cells.size ∧
      σ.machine.step.store.read 19 ≠ σ.machine.store.read 19 ∧
      σ.machine.step.store.read 18 = σ.machine.store.read 18 ∧
      ∀ υ ∈ σ :: past, ∀ m, Owns υ.machine m 19 → m = 1 := by
  obtain ⟨past, hpast⟩ := exists_history
    ((proceeds_called_of Plain [giver, taker] (by decide +kernel) (by decide +kernel)).trans
      (proceeds_run_of Plain (called [giver, taker]).machine (called [giver, taker]).held
        (called [giver, taker]).pending 5 (by decide +kernel) (by decide +kernel)))
  have hrunning : ((called [giver, taker]).machine.run 5).running? = some 1 := by decide +kernel
  have hlt : 19 < ((called [giver, taker]).machine.run 5).store.cells.size := by decide +kernel
  have hchanges : ((called [giver, taker]).machine.run 5).step.store.read 19 ≠
      ((called [giver, taker]).machine.run 5).store.read 19 := by
    intro heq
    have hnil := congrArg Value.isNil heq
    revert hnil
    decide +kernel
  have hgiver : Owns ((called [giver, taker]).machine.run 5) 0 18 :=
    owns_of_vars (v := [("x", 18)]) (by decide +kernel) List.mem_cons_self
  have htaker : Owns ((called [giver, taker]).machine.run 5) 1 19 :=
    owns_of_vars (v := [("y", 19)]) (by decide +kernel) List.mem_cons_self
  obtain ⟨n, hn, -, honly⟩ := calls_by_value hpast hlt hchanges
  cases hrunning.symm.trans hn
  refine ⟨_, past, hpast, hgiver, htaker, hrunning, hlt, hchanges, ?_, honly⟩
  refine Classical.byContradiction fun hpassed => ?_
  obtain ⟨n, hn, -, hothers⟩ := calls_by_value hpast (Nat.lt_of_succ_lt hlt) hpassed
  cases hrunning.symm.trans hn
  cases hothers _ List.mem_cons_self 0 hgiver

end Course

end Confinement

end GoalDirected
