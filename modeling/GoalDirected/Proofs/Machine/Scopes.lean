import GoalDirected.Machine.Activation
import Mathlib.Tactic.ByContra

/-!
# Nested scopes

**Input.** A frame opens and closes scopes in a well-nested order, and cells are assigned in between.
The order is given by a tree, `Nest`, whose scopes stand around what happens inside them.

**Argument.** A scope notes what its names were bound to in the order in which it binds them, and gives
the bindings back in the same order. For a name that the scope lists once this is the binding from
before the scope. For a name that it lists again, the last note is a cell of the scope itself, and this
note is the one that is given back last.

**Results.**

* `Bindings.get?_restoreAll_once`, `Bindings.get?_restoreAll_repeated`: what a name is bound to after the
  notes of a scope have been given back.
* `Nest.run_calls`: a well-nested sequence succeeds and gives back the environment, the open scopes and
  every name, except a name that some scope lists again with no scope around it that lists the name.
* `Nest.run_calls_repeated_name`: such a name stays bound to a cell of the scope that is gone.
-/

namespace GoalDirected

section Defs

/-- What can happen to the names of a frame. -/
inductive ScopeCall where
  | enter (scope : String) (names dynamics : List String)
  | leave (scope : String)
  | assign (cell : CellId) (v : Value)

namespace ScopeCall

def apply
    (f : Frame)
    (s : Store) :
    ScopeCall → Except Malfunction (Frame × Store)
  | enter scope names dynamics => .ok (s.enterScope f scope names dynamics)
  | leave scope =>
      match f.leaveScope scope with
      | (none, g) => .ok (g, s)
      | (some m, _) => .error m
  | assign cell v => .ok (f, s.write cell v)

/-- One call after the other, up to the first one that fails. -/
def run
    (f : Frame)
    (s : Store) :
    List ScopeCall → Except Malfunction (Frame × Store)
  | [] => .ok (f, s)
  | call :: rest =>
      match call.apply f s with
      | .ok (g, t) => run g t rest
      | .error m => .error m

end ScopeCall

/-- A well-nested sequence of scopes, with assignments in between. -/
inductive Nest where
  | done
  | assign (cell : CellId) (v : Value) (rest : Nest)
  | scope (label : String) (names dynamics : List String) (body rest : Nest)

namespace Nest

def calls : Nest → List ScopeCall
  | done => []
  | assign cell v rest => .assign cell v :: rest.calls
  | scope label names dynamics body rest =>
      .enter label names dynamics :: (body.calls ++ .leave label :: rest.calls)

/-- Some scope lists the name more than once, and no scope around it lists the name. -/
def repeats (name : String) : Nest → Bool
  | done => false
  | assign _ _ rest => rest.repeats name
  | scope _ names _ body rest =>
      (if name ∈ names then 1 < names.count name else body.repeats name) || rest.repeats name

end Nest

/-- From `f` and `s` to `g` and `t`: the environment and the open scopes are the same, and so is every
name, except those of `lost`, which are bound to cells that are new. -/
structure Frame.Regains
    (lost : String → Bool)
    (f : Frame)
    (s : Store)
    (g : Frame)
    (t : Store) : Prop where
  environment : g.environment = f.environment
  scopes : g.scopes = f.scopes
  grows : s.cells.size ≤ t.cells.size
  kept : ∀ name, lost name = false → g.vars.get? name = f.vars.get? name
  fresh : ∀ name, lost name = true →
    ∃ c, s.cells.size ≤ c ∧ c < t.cells.size ∧ g.vars.get? name = some c

end Defs

section Notes

variable {name : String}

namespace Store

@[simp] theorem shadow_cons
    (s : Store)
    (vars : Bindings)
    (n : String)
    (rest : List String) :
    s.shadow vars (n :: rest) =
      ((n, vars.get? n) :: ((s.allocate .nil).2.shadow (vars.bind n s.cells.size) rest).1,
        ((s.allocate .nil).2.shadow (vars.bind n s.cells.size) rest).2) := rfl

theorem get?_shadow_of_notMem
    {names : List String}
    (h : name ∉ names)
    (s : Store)
    (vars : Bindings) :
    (s.shadow vars names).2.1.get? name = vars.get? name := by
  induction names generalizing s vars with
  | nil => rfl
  | cons n rest ih =>
      simp only [List.mem_cons, not_or] at h
      obtain ⟨hn, hrest⟩ := h
      rw [shadow_cons, ih hrest, Bindings.get?_bind_of_ne _ _ hn]

theorem size_shadow
    (s : Store)
    (vars : Bindings)
    (names : List String) :
    (s.shadow vars names).2.2.cells.size = s.cells.size + names.length := by
  induction names generalizing s vars with
  | nil => rfl
  | cons n rest ih =>
      simp only [shadow_cons, ih, size_allocate, List.length_cons]
      omega

end Store

namespace Bindings

@[simp] theorem restoreAll_cons
    (b : Bindings)
    (n : String)
    (previous : Option CellId)
    (rest : List (String × Option CellId)) :
    b.restoreAll ((n, previous) :: rest) = (b.restore n previous).restoreAll rest := rfl

theorem get?_restoreAll_of_notMem
    {names : List String}
    (h : name ∉ names)
    (s : Store)
    (vars b : Bindings) :
    (b.restoreAll (s.shadow vars names).1).get? name = b.get? name := by
  induction names generalizing s vars b with
  | nil => rfl
  | cons n rest ih =>
      simp only [List.mem_cons, not_or] at h
      obtain ⟨hn, hrest⟩ := h
      rw [Store.shadow_cons, restoreAll_cons, ih hrest]
      exact get?_restore_of_ne b _ hn

theorem get?_restoreAll_once
    {names : List String}
    (h : names.count name = 1)
    (s : Store)
    (vars b : Bindings) :
    (b.restoreAll (s.shadow vars names).1).get? name = vars.get? name := by
  induction names generalizing s vars b with
  | nil => simp at h
  | cons n rest ih =>
      rw [Store.shadow_cons, restoreAll_cons]
      by_cases hn : n = name
      · subst hn
        have hrest : n ∉ rest := by
          rw [← List.count_eq_zero]
          simpa using h
        rw [get?_restoreAll_of_notMem hrest, get?_restore_self]
      · have hrest : rest.count name = 1 := by simpa [List.count_cons, hn] using h
        rw [ih hrest, get?_bind_of_ne _ _ (Ne.symm hn)]

/-- The last note on a name that is listed again is a cell of the scope itself. -/
theorem get?_restoreAll_repeated
    {names : List String}
    (h : 1 < names.count name)
    (s : Store)
    (vars b : Bindings) :
    ∃ c, s.cells.size ≤ c ∧ c < (s.shadow vars names).2.2.cells.size ∧
      (b.restoreAll (s.shadow vars names).1).get? name = some c := by
  induction names generalizing s vars b with
  | nil => simp at h
  | cons n rest ih =>
      rw [Store.size_shadow, Store.shadow_cons, restoreAll_cons]
      have hstart : (s.allocate .nil).2.cells.size = s.cells.size + 1 := s.size_allocate .nil
      by_cases hrest : 1 < rest.count name
      · obtain ⟨c, hle, hlt, hc⟩ := ih hrest (s.allocate .nil).2 (vars.bind n s.cells.size)
          (b.restore n (vars.get? n))
        rw [Store.size_shadow] at hlt
        exact ⟨c, by omega, by simp only [List.length_cons]; omega, hc⟩
      · -- the name is listed for the second time from the end: what is noted next is its first cell
        have hn : n = name := by
          by_contra hn
          exact hrest (by simpa [List.count_cons, hn] using h)
        subst hn
        have honce : rest.count n = 1 := by
          simp only [List.count_cons_self] at h
          omega
        refine ⟨s.cells.size, Nat.le_refl _, by simp, ?_⟩
        rw [get?_restoreAll_once honce, get?_bind_self]

end Bindings

end Notes

section Scopes

variable {f g h : Frame}
variable {s t u : Store}
variable {lost lost' : String → Bool}

/-- An opened scope notes the bindings that it displaces and the environment that it leaves. -/
theorem Store.enterScope_eq
    (s : Store)
    (f : Frame)
    (label : String)
    (names dynamics : List String) :
    ∃ environment outer t,
      s.enterScope f label names dynamics =
        ({ f with
            vars := (s.shadow f.vars names).2.1
            environment := environment
            scopes := ⟨label, (s.shadow f.vars names).1, outer⟩ :: f.scopes }, t) ∧
      outer.getD environment = f.environment ∧
      t.cells.size = (s.shadow f.vars names).2.2.cells.size := by
  unfold enterScope
  cases dynamics with
  | nil => exact ⟨f.environment, none, (s.shadow f.vars names).2.2, rfl, rfl, rfl⟩
  | cons d rest =>
      exact ⟨((s.shadow f.vars names).2.2.nestedEnvironment f.environment (d :: rest)).1,
        some f.environment, _, rfl, rfl, rfl⟩

/-- The innermost scope closes under its own name. -/
theorem Frame.leaveScope_eq
    {scope : Scope}
    {outer : List Scope}
    (hscopes : g.scopes = scope :: outer) :
    g.leaveScope scope.name =
      (none,
        { g with
          scopes := outer
          vars := g.vars.restoreAll scope.shadowed
          environment := scope.outer.getD g.environment }) := by
  simp [Frame.leaveScope, hscopes]

theorem ScopeCall.run_append
    (before after : List ScopeCall)
    (hrun : run f s before = .ok (g, t)) :
    run f s (before ++ after) = run g t after := by
  induction before generalizing f s with
  | nil =>
      cases hrun
      rfl
  | cons call rest ih =>
      simp only [run] at hrun
      simp only [List.cons_append, run]
      cases hcall : call.apply f s with
      | ok next =>
          rw [hcall] at hrun
          exact ih hrun
      | error m =>
          rw [hcall] at hrun
          cases hrun

namespace Frame.Regains

theorem refl
    (f : Frame)
    (s : Store) :
    Regains (fun _ => false) f s f s where
  environment := rfl
  scopes := rfl
  grows := Nat.le_refl _
  kept := fun _ _ => rfl
  fresh := fun _ hname => absurd hname Bool.false_ne_true

theorem write
    (f : Frame)
    (s : Store)
    (cell : CellId)
    (v : Value) :
    Regains (fun _ => false) f s f (s.write cell v) where
  environment := rfl
  scopes := rfl
  grows := Nat.le_of_eq (s.size_write cell v).symm
  kept := fun _ _ => rfl
  fresh := fun _ hname => absurd hname Bool.false_ne_true

/-- A name that is lost in either part is lost in the whole. -/
theorem trans
    (first : Regains lost f s g t)
    (second : Regains lost' g t h u) :
    Regains (fun name => lost name || lost' name) f s h u where
  environment := second.environment.trans first.environment
  scopes := second.scopes.trans first.scopes
  grows := Nat.le_trans first.grows second.grows
  kept := fun name hname => by
    obtain ⟨hlost, hlost'⟩ := Bool.or_eq_false_iff.mp hname
    rw [second.kept name hlost', first.kept name hlost]
  fresh := fun name hname => by
    by_cases hlost' : lost' name = true
    · obtain ⟨c, hle, hlt, hc⟩ := second.fresh name hlost'
      exact ⟨c, Nat.le_trans first.grows hle, hlt, hc⟩
    · have hlost : lost name = true := by simpa [hlost'] using hname
      obtain ⟨c, hle, hlt, hc⟩ := first.fresh name hlost
      refine ⟨c, hle, Nat.lt_of_lt_of_le hlt second.grows, ?_⟩
      rw [second.kept name (Bool.not_eq_true _ ▸ hlost'), hc]

/-- What a scope loses: the names that it lists again, and of the others those that its body loses. -/
theorem scope
    {label : String}
    {names dynamics : List String}
    (body : Regains lost (s.enterScope f label names dynamics).1
      (s.enterScope f label names dynamics).2 g t) :
    ∃ left, g.leaveScope label = (none, left) ∧
      Regains (fun name => if name ∈ names then 1 < names.count name else lost name) f s left t := by
  obtain ⟨environment, outer, r, henter, houter, hsize⟩ := s.enterScope_eq f label names dynamics
  rw [henter] at body
  have hstart : s.cells.size ≤ r.cells.size := by
    rw [hsize, Store.size_shadow]
    omega
  have hgrows : s.cells.size ≤ t.cells.size := Nat.le_trans hstart body.grows
  refine ⟨_, leaveScope_eq body.scopes, ?_, rfl, hgrows, ?_, ?_⟩
  · have henv : g.environment = environment := body.environment
    simpa [henv] using houter
  · intro name hname
    by_cases hmem : name ∈ names
    · have hcount : names.count name = 1 := by
        have hpos := List.count_pos_iff.mpr hmem
        simp only [hmem, if_true, decide_eq_false_iff_not] at hname
        omega
      exact Bindings.get?_restoreAll_once hcount s f.vars g.vars
    · have hlost : lost name = false := by simpa [hmem] using hname
      calc
        (g.vars.restoreAll (s.shadow f.vars names).1).get? name = g.vars.get? name :=
          Bindings.get?_restoreAll_of_notMem hmem s f.vars g.vars
        _ = (s.shadow f.vars names).2.1.get? name := body.kept name hlost
        _ = f.vars.get? name := Store.get?_shadow_of_notMem hmem s f.vars
  · intro name hname
    by_cases hmem : name ∈ names
    · have hcount : 1 < names.count name := by simpa [hmem] using hname
      obtain ⟨c, hle, hlt, hc⟩ := Bindings.get?_restoreAll_repeated hcount s f.vars g.vars
      exact ⟨c, hle, Nat.lt_of_lt_of_le (hsize ▸ hlt) body.grows, hc⟩
    · have hlost : lost name = true := by simpa [hmem] using hname
      obtain ⟨c, hle, hlt, hc⟩ := body.fresh name hlost
      refine ⟨c, Nat.le_trans hstart hle, hlt, ?_⟩
      exact (Bindings.get?_restoreAll_of_notMem hmem s f.vars g.vars).trans hc

end Frame.Regains

end Scopes

section Nesting

namespace Nest

/-- A well-nested sequence of scopes succeeds, and gives back the environment, the open scopes and every
name that no scope relists. -/
theorem run_calls
    (nest : Nest)
    (f : Frame)
    (s : Store) :
    ∃ g t, ScopeCall.run f s nest.calls = .ok (g, t) ∧
      Frame.Regains (fun name => nest.repeats name) f s g t := by
  induction nest generalizing f s with
  | done => exact ⟨f, s, rfl, .refl f s⟩
  | assign cell v rest ih =>
      obtain ⟨g, t, hrun, hrest⟩ := ih f (s.write cell v)
      exact ⟨g, t, hrun, by simpa [repeats] using (Frame.Regains.write f s cell v).trans hrest⟩
  | scope label names dynamics body rest ihBody ihRest =>
      obtain ⟨g, t, hbody, hinner⟩ := ihBody (s.enterScope f label names dynamics).1
        (s.enterScope f label names dynamics).2
      obtain ⟨left, hleave, hscope⟩ := hinner.scope
      obtain ⟨h, u, hrest, hafter⟩ := ihRest left t
      refine ⟨h, u, ?_, hscope.trans hafter⟩
      have hclose : ScopeCall.run g t (.leave label :: rest.calls) = .ok (h, u) := by
        simp only [ScopeCall.run, ScopeCall.apply, hleave]
        exact hrest
      exact (ScopeCall.run_append _ _ hbody).trans hclose

/-- A scope that lists a name twice leaves the name bound to the first of its own two cells. -/
theorem run_calls_repeated_name :
    ∃ (nest : Nest) (f : Frame) (s : Store) (g : Frame) (t : Store),
      ScopeCall.run f s nest.calls = .ok (g, t) ∧
        f.vars.get? "x" = some 0 ∧ g.vars.get? "x" = some 1 := by
  let code : Code := ⟨"p", "p", "", [], ["x"], [], false, 0, "", [], []⟩
  exact ⟨.scope "block" ["x", "x"] [] .done .done, .new [] ⟨code, [], 0⟩ [] [("x", 0)],
    { cells := #[.nil] }, _, _, rfl, rfl, rfl⟩

end Nest

end Nesting

end GoalDirected
