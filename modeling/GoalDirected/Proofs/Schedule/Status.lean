import GoalDirected.Program.Schedule
import Mathlib.Logic.Relation
import Mathlib.Tactic.ByContra

/-!
# The status of an item

The walk that gives an item its status stops at items that are not pending and at the first
initializer that it meets.  This module says what the walk finds, without its order and without its
list of visited items.

* `Graph.walk_eq_waitingOnGlobal_iff`: the walk answers `waitingOnGlobal` exactly if a path through
  pending procedures leads to the root's own initializer or to a pending one.
* `Graph.status_eq_waitingOnGlobal_of_reaches`: as long as items that are done reach no pending
  initializer, every pending initializer that an item reaches makes it wait, however the path runs.
-/

namespace GoalDirected
namespace Schedule
namespace Graph

section Status

/-- Item `i` lists item `j` among its dependencies. -/
def Edge (g : Graph) (i j : Nat) : Prop :=
  j ∈ g.deps i

/-- Item `i` leads to item `j` by one or more dependencies. -/
def Reaches (g : Graph) (i j : Nat) : Prop :=
  Relation.TransGen g.Edge i j

/-- A dependency along which the walk from `root` goes on: it leaves a pending procedure. -/
def Passes (g : Graph) (root : Nat) (pending : List Nat) (k j : Nat) : Prop :=
  k ≠ root ∧ k ∈ pending ∧ g.hasInit k = false ∧ g.Edge k j

/-- The walk from `root` meets an initializer that keeps `root` waiting, starting at item `k`. -/
def Meets (g : Graph) (root : Nat) (pending : List Nat) (k : Nat) : Prop :=
  ∃ j, Relation.ReflTransGen (g.Passes root pending) k j ∧
    g.hasInit j = true ∧ (j = root ∨ j ∈ pending)

theorem Passes.of_mem_erase
    {g : Graph} {root i k j : Nat} {pending : List Nat}
    (h : g.Passes root (pending.erase i) k j) :
    g.Passes root pending k j := by
  obtain ⟨hroot, hmem, hinit, hedge⟩ := h
  exact ⟨hroot, List.mem_of_mem_erase hmem, hinit, hedge⟩

/-- A walk that has nothing to pass at its first item ends there. -/
theorem meets_iff_of_not_passes
    {g : Graph} {root k : Nat} {pending : List Nat}
    (h : ∀ j, ¬ g.Passes root pending k j) :
    g.Meets root pending k
      ↔
    g.hasInit k = true ∧ (k = root ∨ k ∈ pending) := by
  constructor
  · rintro ⟨j, hpath, hinit, hmem⟩
    rcases Relation.ReflTransGen.cases_head hpath with rfl | ⟨m, hstep, _⟩
    · exact ⟨hinit, hmem⟩
    · exact absurd hstep (h m)
  · rintro ⟨hinit, hmem⟩
    exact ⟨k, Relation.ReflTransGen.refl, hinit, hmem⟩

/-- Once the walk has passed a procedure it may forget it: what lies behind the procedure is then
found from its dependencies. -/
theorem Meets.erase
    {g : Graph} {root i k : Nat} {pending : List Nat}
    (hi : g.hasInit i = false)
    (h : g.Meets root pending k) :
    g.Meets root (pending.erase i) k ∨
      ∃ d, d ∈ g.deps i ∧ g.Meets root (pending.erase i) d := by
  obtain ⟨j, hpath, hinit, hmem⟩ := h
  have hne : j ≠ i := by
    rintro rfl
    rw [hi] at hinit
    cases hinit
  have hmem' : j = root ∨ j ∈ pending.erase i :=
    hmem.imp_right (List.mem_erase_of_ne hne).mpr
  -- From the far end of the path: the last visit of `i`, if there is one, splits it.
  induction hpath using Relation.ReflTransGen.head_induction_on with
  | refl =>
      exact Or.inl ⟨j, Relation.ReflTransGen.refl, hinit, hmem'⟩
  | @head k m hstep _ ih =>
      rcases ih with ⟨j', hpath', hfound⟩ | hdeps
      · by_cases hk : k = i
        · subst hk
          exact Or.inr ⟨m, hstep.2.2.2, j', hpath', hfound⟩
        · have hstep' : g.Passes root (pending.erase i) k m :=
            ⟨hstep.1, (List.mem_erase_of_ne hk).mpr hstep.2.1, hstep.2.2⟩
          exact Or.inl ⟨j', Relation.ReflTransGen.head hstep' hpath', hfound⟩
      · exact Or.inr hdeps

theorem Meets.of_erase
    {g : Graph} {root i k : Nat} {pending : List Nat}
    (h : g.Meets root (pending.erase i) k) :
    g.Meets root pending k := by
  obtain ⟨j, hpath, hinit, hmem⟩ := h
  have hpath' : Relation.ReflTransGen (g.Passes root pending) k j :=
    Relation.ReflTransGen.mono (fun _ _ => Passes.of_mem_erase) k j hpath
  exact ⟨j, hpath', hinit, hmem.imp_right List.mem_of_mem_erase⟩

theorem Meets.head
    {g : Graph} {root k d : Nat} {pending : List Nat}
    (hstep : g.Passes root pending k d)
    (h : g.Meets root pending d) :
    g.Meets root pending k := by
  obtain ⟨j, hpath, hfound⟩ := h
  exact ⟨j, Relation.ReflTransGen.head hstep hpath, hfound⟩

/-- What the walk answers, from any point of it on. -/
theorem walk_eq_waitingOnGlobal_iff
    (g : Graph) (root : Nat) (unvisited todo : List Nat)
    (status : Status)
    (hstatus : status ≠ .waitingOnGlobal) :
    g.walk root unvisited todo status = .waitingOnGlobal
      ↔
    ∃ k, k ∈ todo ∧ g.Meets root unvisited k := by
  fun_induction walk g root unvisited todo status with
  | case1 =>
      simpa using hstatus
  | case2 unvisited status rest hinit =>
      refine iff_of_true rfl ⟨root, by simp, root, Relation.ReflTransGen.refl, hinit, Or.inl rfl⟩
  | case3 unvisited status rest hinit ih =>
      have hstop : ¬ g.Meets root unvisited root := by
        rw [meets_iff_of_not_passes fun j h => h.1 rfl]
        exact fun h => hinit h.1
      simp [ih hstatus, hstop]
  | case4 unvisited status i rest hroot hmem hinit =>
      refine iff_of_true rfl ⟨i, by simp, i, Relation.ReflTransGen.refl, hinit, Or.inr hmem⟩
  | case5 unvisited status i rest hroot hmem hinit ih =>
      have hi : g.hasInit i = false := by simpa using hinit
      rw [ih (by simp)]
      constructor
      · rintro ⟨k, hk, hmeets⟩
        rcases List.mem_append.mp hk with hdep | hrest
        · exact ⟨i, by simp, hmeets.of_erase.head ⟨hroot, hmem, hi, hdep⟩⟩
        · exact ⟨k, List.mem_cons_of_mem _ hrest, hmeets.of_erase⟩
      · rintro ⟨k, hk, hmeets⟩
        rcases hmeets.erase hi with hkept | ⟨d, hdep, hkept⟩
        · rcases List.mem_cons.mp hk with rfl | hrest
          · -- A path that starts at the forgotten item starts again behind it.
            obtain ⟨j, hpath, hfound⟩ := hkept
            rcases Relation.ReflTransGen.cases_head hpath with rfl | ⟨m, hstep, htail⟩
            · exact absurd hfound.1 (by simp [hi])
            · exact ⟨m, List.mem_append_left _ hstep.2.2.2, j, htail, hfound⟩
          · exact ⟨k, List.mem_append_right _ hrest, hkept⟩
        · exact ⟨d, List.mem_append_left _ hdep, hkept⟩
  | case6 unvisited status i rest hroot hmem ih =>
      have hstop : ¬ g.Meets root unvisited i := by
        rw [meets_iff_of_not_passes fun j h => hmem h.2.1]
        rintro ⟨_, h | h⟩
        · exact hroot h
        · exact hmem h
      simp [ih hstatus, hstop]

/-- An item waits on a global exactly if its walk meets an initializer behind one of its
dependencies. -/
theorem status_eq_waitingOnGlobal_iff
    (g : Graph) (pending : List Nat) (i : Nat) :
    g.status pending i = .waitingOnGlobal
      ↔
    ∃ k, k ∈ g.deps i ∧ g.Meets i pending k :=
  g.walk_eq_waitingOnGlobal_iff i pending (g.deps i) .ready (by simp)

theorem reflTransGen_edge_of_passes
    {g : Graph} {root k j : Nat} {pending : List Nat}
    (h : Relation.ReflTransGen (g.Passes root pending) k j) :
    Relation.ReflTransGen g.Edge k j :=
  Relation.ReflTransGen.mono (r := g.Passes root pending) (fun _ _ hstep => hstep.2.2.2) k j h

/-- A pending item that waits on a global reaches a pending initializer. -/
theorem exists_reaches_of_status_eq_waitingOnGlobal
    {g : Graph} {pending : List Nat} {i : Nat}
    (hi : i ∈ pending)
    (h : g.status pending i = .waitingOnGlobal) :
    ∃ j, j ∈ pending ∧ g.hasInit j = true ∧ g.Reaches i j := by
  obtain ⟨k, hdep, j, hpath, hinit, hmem⟩ := (g.status_eq_waitingOnGlobal_iff pending i).mp h
  have hreach : g.Reaches i j :=
    Relation.TransGen.head' hdep (reflTransGen_edge_of_passes hpath)
  rcases hmem with rfl | hmem
  · exact ⟨j, hi, hinit, hreach⟩
  · exact ⟨j, hmem, hinit, hreach⟩

/-- Items that are done reach no pending initializer. -/
def Closed (g : Graph) (pending : List Nat) : Prop :=
  ∀ k, k ∉ pending → ∀ j, j ∈ pending → g.hasInit j = true → ¬ g.Reaches k j

/-- Under `Closed` the stops of the walk lose nothing: any path to a pending initializer contains
one that the walk takes. -/
theorem meets_of_reflTransGen_edge
    {g : Graph} {pending : List Nat} {i k j : Nat}
    (hclosed : g.Closed pending)
    (hj : j ∈ pending)
    (hinit : g.hasInit j = true)
    (hpath : Relation.ReflTransGen g.Edge k j) :
    g.Meets i pending k ∨ ∃ d, d ∈ g.deps i ∧ g.Meets i pending d := by
  induction hpath using Relation.ReflTransGen.head_induction_on with
  | refl =>
      exact Or.inl ⟨j, Relation.ReflTransGen.refl, hinit, Or.inr hj⟩
  | @head k m hedge htail ih =>
      rcases ih with hmeets | hdeps
      · by_cases hk : k = i
        · subst hk
          exact Or.inr ⟨m, hedge, hmeets⟩
        · have hpending : k ∈ pending := by
            by_contra hdone
            exact hclosed k hdone j hj hinit (Relation.TransGen.head' hedge htail)
          by_cases hkinit : g.hasInit k = true
          · exact Or.inl ⟨k, Relation.ReflTransGen.refl, hkinit, Or.inr hpending⟩
          · have hstep : g.Passes i pending k m :=
              ⟨hk, hpending, by simpa using hkinit, hedge⟩
            exact Or.inl (hmeets.head hstep)
      · exact Or.inr hdeps

theorem status_eq_waitingOnGlobal_of_reaches
    {g : Graph} {pending : List Nat} {i j : Nat}
    (hclosed : g.Closed pending)
    (hj : j ∈ pending)
    (hinit : g.hasInit j = true)
    (hreach : g.Reaches i j) :
    g.status pending i = .waitingOnGlobal := by
  rw [status_eq_waitingOnGlobal_iff]
  obtain ⟨k, hedge, hpath⟩ := Relation.TransGen.head'_iff.mp hreach
  rcases meets_of_reflTransGen_edge (i := i) hclosed hj hinit hpath with hmeets | hdeps
  · exact ⟨k, hedge, hmeets⟩
  · exact hdeps

end Status

end Graph
end Schedule
end GoalDirected
