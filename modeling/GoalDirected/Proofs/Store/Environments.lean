import GoalDirected.Proofs.Store.Nodes
import Mathlib.Logic.Function.Basic
import Mathlib.Tactic.Common

/-!
# Dynamic variables in a tree

**Input.**  A tree of environments in any state: at each node a name may be absent, declared, or have a cell.
Dynamic variables are resolved at nodes of the tree, and nodes are added below others.

**Argument.**  A place that is made belongs to the node that the search has found, or to the node where the search
started if no node above declares the name.  In both cases no node below it on any path that leads to a cell
already is concerned, because in a tree the path from a node to the root is the end of every path through it.

**Results.**
* `EnvironmentTree.lookup_after`: a cell that a name leads to stays the one that it leads to.
* `EnvironmentTree.resolve_place`: what making a place changes.
* `EnvironmentTree.bindings_stable`: both ways to look a name up agree in every state, and agree with all later ones.
-/

namespace GoalDirected

section Environments

namespace Store

theorem lookup_bindVar_of_ne
    (vars : List (String × Option CellId)) {name other : String} (cell : CellId)
    (h : other ≠ name) :
    (bindVar vars name cell).lookup other = vars.lookup other := by
  have hbeq : (other == name) = false := beq_false_of_ne h
  induction vars with
  | nil => simp [bindVar, List.lookup_cons, hbeq]
  | cons x rest ih =>
      obtain ⟨n, c⟩ := x
      rw [bindVar]
      split
      · rename_i heq
        subst heq
        simp [List.lookup_cons, hbeq]
      · simp only [List.lookup_cons, ih]

/-- What a node says about a name: nothing, that it is declared, or its cell. -/
def declared (s : Store) (id : Nat) (name : String) : Option (Option CellId) :=
  (s.node id).vars.lookup name

theorem declared_declareAt_self
    {s : Store} {id : Nat}
    (h : id < s.nodes.size)
    (name : String) (v : Value) :
    (s.declareAt id name v).2.declared id name = some (some s.cells.size) := by
  simp only [declared, node_declareAt_self h, lookup_bindVar]

theorem declared_declareAt_of_ne
    {s : Store} {id other : Nat} {name name' : String}
    (hne : other ≠ id ∨ name' ≠ name)
    (hid : id < s.nodes.size)
    (v : Value) :
    (s.declareAt id name v).2.declared other name' = s.declared other name' := by
  by_cases hother : other = id
  · subst hother
    simp only [declared, node_declareAt_self hid]
    exact lookup_bindVar_of_ne _ _ (hne.resolve_left fun h => h rfl)
  · simp only [declared, node_declareAt_of_ne s hother]

/-- The nearest node that declares a name, by the nodes before it. -/
theorem declaring?_eq_some_iff
    {s : Store} {name : String} {e : Environment} {id : Nat} {slot : Option CellId} :
    s.declaring? name e = some (id, slot)
      ↔
    ∃ before after, e = before ++ id :: after ∧ (∀ n ∈ before, s.declared n name = none) ∧
      s.declared id name = some slot := by
  induction e with
  | nil => simp [declaring?]
  | cons first outer ih =>
      rw [declaring?]
      cases hfirst : (s.node first).vars.lookup name with
      | some slot' =>
          simp only [Option.some.injEq, Prod.mk.injEq]
          constructor
          · rintro ⟨rfl, rfl⟩
            exact ⟨[], outer, rfl, by simp, hfirst⟩
          · rintro ⟨before, after, heq, hbefore, hid⟩
            cases before with
            | nil =>
                cases heq
                exact ⟨rfl, Option.some.inj (hfirst.symm.trans hid)⟩
            | cons n before =>
                cases heq
                cases hfirst.symm.trans (hbefore _ List.mem_cons_self)
      | none =>
          simp only [ih]
          constructor
          · rintro ⟨before, after, rfl, hbefore, hid⟩
            refine ⟨first :: before, after, rfl, ?_, hid⟩
            simpa using ⟨hfirst, hbefore⟩
          · rintro ⟨before, after, heq, hbefore, hid⟩
            cases before with
            | nil =>
                cases heq
                cases hfirst.symm.trans hid
            | cons n before =>
                cases heq
                exact ⟨before, after, rfl, fun m hm => hbefore m (List.mem_cons_of_mem _ hm), hid⟩

theorem declaring?_eq_none_iff
    {s : Store} {name : String} {e : Environment} :
    s.declaring? name e = none ↔ ∀ id ∈ e, s.declared id name = none := by
  induction e with
  | nil => simp [declaring?]
  | cons first outer ih =>
      rw [declaring?]
      rw [List.forall_mem_cons, ← ih, declared]
      cases (s.node first).vars.lookup name with
      | some slot => simp
      | none => simp

/-- The two ways to read a dynamic variable. -/
theorem resolve_false_eq_ok_iff
    {s t : Store} {e : Environment} {name : String} {v : Value} :
    s.resolve e name false = .ok (v, t) ↔ ∃ c, s.lookup e name = some c ∧ v = s.read c ∧ t = s := by
  unfold resolve lookup
  cases s.declaring? name e with
  | none => simp
  | some found =>
      obtain ⟨id, slot⟩ := found
      cases slot with
      | none => simp
      | some c =>
          simp only [Except.ok.injEq, Prod.mk.injEq, Option.some.injEq, exists_eq_left']
          exact and_congr eq_comm eq_comm

/-- A new cell is nil, as is what lies beyond all cells. -/
theorem read_declareAt
    (s : Store) (id : Nat) (name : String) (c : CellId) :
    (s.declareAt id name .nil).2.read c = s.read c := by
  simp only [declareAt, allocate, read, Array.getD_eq_getD_getElem?, Array.getElem?_push]
  split
  · rename_i heq
    simp [heq]
  · rfl

/-- The store after a dynamic variable has been resolved, whether it could be or not. -/
def resolved (s : Store) (e : Environment) (name : String) (assignable : Bool) : Store :=
  match s.resolve e name assignable with
  | .ok (_, t) => t
  | .error _ => s

/-- What making a place leaves behind. -/
theorem resolve_true
    (s : Store) (e : Environment) (name : String) :
    (∃ id c, s.declaring? name e = some (id, some c) ∧ s.resolve e name true = .ok (.ref c, s)) ∨
      ∃ id, (s.declaring? name e = some (id, none) ∨ (s.declaring? name e = none ∧ id = e.headD 0)) ∧
        s.resolve e name true = .ok (.ref s.cells.size, (s.declareAt id name .nil).2) := by
  unfold resolve
  cases hdeclaring : s.declaring? name e with
  | none => exact Or.inr ⟨e.headD 0, Or.inr ⟨rfl, rfl⟩, rfl⟩
  | some found =>
      obtain ⟨id, slot⟩ := found
      cases slot with
      | none => exact Or.inr ⟨id, Or.inl rfl, rfl⟩
      | some c => exact Or.inl ⟨id, c, rfl, rfl⟩

theorem resolved_false (s : Store) (e : Environment) (name : String) : s.resolved e name false = s := by
  unfold resolved
  split
  · rename_i hresolve
    obtain ⟨-, -, -, rfl⟩ := resolve_false_eq_ok_iff.mp hresolve
    rfl
  · rfl

theorem size_nodes_resolved
    (s : Store) (e : Environment) (name : String) (assignable : Bool) :
    (s.resolved e name assignable).nodes.size = s.nodes.size := by
  cases assignable with
  | false => rw [resolved_false]
  | true =>
      rcases s.resolve_true e name with ⟨id, c, -, h⟩ | ⟨id, -, h⟩
      · rw [resolved, h]
      · rw [resolved, h]
        simp [declareAt, allocate]

end Store

/-- A tree of environments: each node has a path to the root, which goes on through its parent.  A node is made
after its parent. -/
structure EnvironmentTree where
  store : Store
  /-- The nodes above a node, its parent first. -/
  above : Nat → Environment
  rooted : ∀ id, above id = [] ∨ ∃ parent, parent < id ∧ above id = parent :: above parent
  absent : ∀ id, store.nodes.size ≤ id → above id = []

namespace EnvironmentTree

/-- What is done with a tree. -/
inductive Operation where
  | resolve (node : Nat) (name : String) (assignable : Bool)
  | nested (node : Nat) (names : List String)
  | task (node : Nat) (task : Nat)

/-- The environment of a node. -/
def environment (t : EnvironmentTree) (node : Nat) : Environment :=
  node :: t.above node

/-- The tree of one node. -/
def root (task : Nat) : EnvironmentTree where
  store := { nodes := #[⟨task, []⟩] }
  above _ := []
  rooted _ := Or.inl rfl
  absent _ _ := rfl

def Contains (t : EnvironmentTree) (node : Nat) : Prop :=
  node < t.store.nodes.size

instance (t : EnvironmentTree) (node : Nat) : Decidable (t.Contains node) :=
  inferInstanceAs (Decidable (node < t.store.nodes.size))

def lookup (t : EnvironmentTree) (node : Nat) (name : String) : Option CellId :=
  t.store.lookup (t.environment node) name

def resolve (t : EnvironmentTree) (node : Nat) (name : String) (assignable : Bool) :
    Except Malfunction (Value × Store) :=
  t.store.resolve (t.environment node) name assignable

/-- The tree with other variables at its nodes. -/
def settle (t : EnvironmentTree) (s : Store) (h : s.nodes.size = t.store.nodes.size) : EnvironmentTree where
  store := s
  above := t.above
  rooted := t.rooted
  absent id hid := t.absent id (h ▸ hid)

/-- The tree with one more node, below another one. -/
def grow
    (t : EnvironmentTree) (node : Nat) (hnode : t.Contains node)
    (s : Store) (h : s.nodes.size = t.store.nodes.size + 1) : EnvironmentTree where
  store := s
  above := Function.update t.above t.store.nodes.size (t.environment node)
  rooted id := by
    rcases Nat.lt_trichotomy id t.store.nodes.size with hlt | rfl | hgt
    · rw [Function.update_of_ne (Nat.ne_of_lt hlt)]
      refine (t.rooted id).imp_right fun ⟨parent, hparent, habove⟩ => ⟨parent, hparent, ?_⟩
      rwa [Function.update_of_ne (Nat.ne_of_lt (Nat.lt_trans hparent hlt))]
    · refine Or.inr ⟨node, hnode, ?_⟩
      rw [Function.update_self, Function.update_of_ne (Nat.ne_of_lt hnode)]
      rfl
    · rw [Function.update_of_ne (Nat.ne_of_gt hgt)]
      exact Or.inl (t.absent id (Nat.le_of_lt hgt))
  absent id hid := by
    rw [Function.update_of_ne (by omega)]
    exact t.absent id (by omega)

/-- The tree after an operation at one of its nodes. -/
def after (t : EnvironmentTree) : Operation → EnvironmentTree
  | .resolve node name assignable =>
      if t.Contains node then
        t.settle (t.store.resolved (t.environment node) name assignable)
          (t.store.size_nodes_resolved (t.environment node) name assignable)
      else t
  | .nested node names =>
      if h : t.Contains node then
        t.grow node h (t.store.nestedEnvironment (t.environment node) names).2 (Array.size_push _)
      else t
  | .task node task =>
      if h : t.Contains node then
        t.grow node h (t.store.taskEnvironment (t.environment node) task).2 (Array.size_push _)
      else t

/-- Reading a variable leaves the tree. -/
theorem after_resolve_false
    (t : EnvironmentTree) (node : Nat) (name : String) :
    t.after (.resolve node name false) = t := by
  simp only [after, settle, Store.resolved_false, ite_self]

/-- The path of a new node is the environment that is handed out. -/
theorem environment_nested
    (t : EnvironmentTree) {node : Nat}
    (h : t.Contains node)
    (names : List String) :
    (t.after (.nested node names)).environment t.store.nodes.size =
      (t.store.nestedEnvironment (t.environment node) names).1 := by
  simp only [after, dif_pos h, environment, grow, Function.update_self]
  rfl

theorem environment_task
    (t : EnvironmentTree) {node : Nat}
    (h : t.Contains node)
    (task : Nat) :
    (t.after (.task node task)).environment t.store.nodes.size =
      (t.store.taskEnvironment (t.environment node) task).1 := by
  simp only [after, dif_pos h, environment, grow, Function.update_self]
  rfl

/-- The tree after several operations. -/
def run (t : EnvironmentTree) (ops : List Operation) : EnvironmentTree :=
  ops.foldl after t

variable {t u : EnvironmentTree} {node id : Nat} {name : String} {c : CellId}

/-! ## Paths -/

/-- The path from a node ends with the path from any node on it. -/
theorem exists_append_of_mem
    (h : id ∈ t.environment node) :
    ∃ before, t.environment node = before ++ t.environment id ∧ ∀ n ∈ before, id < n := by
  induction node using Nat.strongRecOn with
  | ind node ih =>
      rcases List.mem_cons.mp h with rfl | habove
      · exact ⟨[], rfl, by simp⟩
      · rcases t.rooted node with hroot | ⟨parent, hlt, hparent⟩
        · rw [hroot] at habove
          cases habove
        · rw [hparent] at habove
          obtain ⟨before, heq, hbefore⟩ := ih parent hlt habove
          have hid : id ≤ parent := by
            cases before with
            | nil => exact Nat.le_of_eq (List.cons.inj heq).1.symm
            | cons n before =>
                cases (List.cons.inj heq).1
                exact Nat.le_of_lt (hbefore parent List.mem_cons_self)
          refine ⟨node :: before, ?_, ?_⟩
          · rw [environment, hparent]
            exact congrArg (node :: ·) heq
          · simpa using ⟨Nat.lt_of_le_of_lt hid hlt, hbefore⟩

/-- Nodes of the tree have their paths in the tree. -/
theorem contains_of_mem
    (hnode : t.Contains node)
    (h : id ∈ t.environment node) :
    t.Contains id := by
  obtain ⟨before, heq, hbefore⟩ := exists_append_of_mem h
  cases before with
  | nil => exact (List.cons.inj heq).1 ▸ hnode
  | cons n before =>
      cases (List.cons.inj heq).1
      exact Nat.lt_trans (hbefore node List.mem_cons_self) hnode

/-- What comes later on a path is on the path from each earlier node. -/
theorem mem_environment_of_before
    {before after : List Nat} {later : Nat}
    (hpath : t.environment node = before ++ later :: after)
    (hid : id ∈ before) :
    later ∈ t.environment id := by
  have hmem : id ∈ t.environment node := hpath ▸ List.mem_append_left _ hid
  obtain ⟨larger, heq, hlarger⟩ := exists_append_of_mem hmem
  rcases List.append_eq_append_iff.mp (hpath.symm.trans heq) with ⟨rest, hsplit, -⟩ | ⟨rest, -, hsplit⟩
  · exact absurd (hlarger id (hsplit ▸ List.mem_append_left rest hid)) (Nat.lt_irrefl id)
  · exact hsplit ▸ List.mem_append_right rest List.mem_cons_self

/-! ## Places -/

/-- What a node says about a name. -/
def declared (t : EnvironmentTree) (id : Nat) (name : String) : Option (Option CellId) :=
  t.store.declared id name

/-- The node to which the variable of a name belongs, as seen from a node: the nearest one that declares the name,
or the node itself. -/
inductive Owner (t : EnvironmentTree) (node : Nat) (name : String) : Nat → Prop
  | nearest
      {before after : List Nat} {owner : Nat}
      (hpath : t.environment node = before ++ owner :: after)
      (hbefore : ∀ id ∈ before, t.declared id name = none)
      (howner : t.declared owner name ≠ none) :
      Owner t node name owner
  | own
      (hnone : ∀ id ∈ t.environment node, t.declared id name = none) :
      Owner t node name node

theorem lookup_eq_some_iff :
    t.lookup node name = some c
      ↔
    ∃ before id after, t.environment node = before ++ id :: after ∧
      (∀ n ∈ before, t.declared n name = none) ∧ t.declared id name = some (some c) := by
  unfold lookup Store.lookup
  constructor
  · intro h
    split at h
    · rename_i id slot hdeclaring
      subst h
      obtain ⟨before, after, hpath⟩ := Store.declaring?_eq_some_iff.mp hdeclaring
      exact ⟨before, id, after, hpath⟩
    · cases h
  · rintro ⟨before, id, after, hpath⟩
    rw [Store.declaring?_eq_some_iff.mpr ⟨before, after, hpath⟩]

/-- The places that are there are found. -/
theorem resolve_of_lookup
    (h : t.lookup node name = some c) :
    t.resolve node name true = .ok (.ref c, t.store) := by
  unfold lookup Store.lookup at h
  unfold resolve Store.resolve
  split at h
  · rename_i hdeclaring
    subst h
    rw [hdeclaring]
  · cases h

/-- A node belongs to the path on which its variable is looked for. -/
theorem Owner.mem
    {owner : Nat}
    (h : t.Owner node name owner) :
    owner ∈ t.environment node := by
  cases h with
  | nearest hpath => exact hpath ▸ List.mem_append_right _ List.mem_cons_self
  | own => exact List.mem_cons_self

/-- Two trees with the same paths that say the same about a name treat the name alike. -/
theorem owner_congr
    (habove : u.above = t.above)
    (hdeclared : ∀ id, u.declared id name = t.declared id name)
    {owner : Nat}
    (h : t.Owner node name owner) :
    u.Owner node name owner := by
  have hpath : u.environment node = t.environment node := by
    rw [environment, habove, environment]
  cases h with
  | nearest heq hbefore howner =>
      exact .nearest (hpath.trans heq) (fun id hid => (hdeclared id).trans (hbefore id hid))
        (fun hnone => howner ((hdeclared owner).symm.trans hnone))
  | own hnone => exact .own fun id hid => (hdeclared id).trans (hnone id (hpath ▸ hid))

/-- What it means that a place for a name has been made at a node: nothing but the owner's entry for the name has
changed, and it has only if it had no cell. -/
structure Places (t u : EnvironmentTree) (node : Nat) (name : String) (owner : Nat) (c : CellId) : Prop where
  owned : t.Owner node name owner
  place : u.declared owner name = some (some c)
  fresh : t.declared owner name = some (some c) ∨
    ((∀ d, t.declared owner name ≠ some (some d)) ∧ c = t.store.cells.size)
  others : ∀ id other, id ≠ owner ∨ other ≠ name → u.declared id other = t.declared id other
  above : u.above = t.above
  contents : ∀ d, u.store.read d = t.store.read d

theorem resolve_place
    (hnode : t.Contains node)
    (name : String) :
    ∃ owner c, t.Places (t.after (.resolve node name true)) node name owner c ∧
      t.resolve node name true = .ok (.ref c, (t.after (.resolve node name true)).store) := by
  have hafter : t.after (.resolve node name true) = t.settle _ _ := if_pos hnode
  rw [hafter]
  simp only [settle, Store.resolved, resolve]
  rcases t.store.resolve_true (t.environment node) name with ⟨id, c, hdeclaring, h⟩ | ⟨id, hid, h⟩
  · obtain ⟨before, after, hpath, hbefore, hcell⟩ := Store.declaring?_eq_some_iff.mp hdeclaring
    have howner : t.declared id name ≠ none := fun hnone => by cases hnone.symm.trans hcell
    refine ⟨id, c, ⟨.nearest hpath hbefore howner, ?_, Or.inl hcell, ?_, rfl, ?_⟩, ?_⟩
    · simpa only [declared, h] using hcell
    · exact fun _ _ _ => by simp only [declared, h]
    · exact fun _ => by simp only [h]
    · simp only [h]
  · have howner : t.Owner node name id := by
      rcases hid with hdeclaring | ⟨hnone, rfl⟩
      · obtain ⟨before, after, hpath, hbefore, hslot⟩ := Store.declaring?_eq_some_iff.mp hdeclaring
        exact .nearest hpath hbefore fun hnone => by cases hnone.symm.trans hslot
      · exact .own (Store.declaring?_eq_none_iff.mp hnone)
    have hopen : ∀ d, t.declared id name ≠ some (some d) := by
      intro d hd
      rcases hid with hdeclaring | ⟨hnone, rfl⟩
      · obtain ⟨-, -, -, -, hslot⟩ := Store.declaring?_eq_some_iff.mp hdeclaring
        cases hslot.symm.trans hd
      · have hhead := Store.declaring?_eq_none_iff.mp hnone _ (List.mem_cons_self (a := _) (l := t.above _))
        cases hhead.symm.trans hd
    have hcontains : t.Contains id := contains_of_mem hnode howner.mem
    refine ⟨id, t.store.cells.size, ⟨howner, ?_, Or.inr ⟨hopen, rfl⟩, ?_, rfl, ?_⟩, ?_⟩
    · simpa only [declared, h] using Store.declared_declareAt_self hcontains name .nil
    · intro other name' hne
      simpa only [declared, h] using Store.declared_declareAt_of_ne hne hcontains .nil
    · intro d
      simpa only [h] using t.store.read_declareAt id name d
    · simp only [h]

/-! ## Stability -/

/-- Where a name is found depends on what the nodes say about it. -/
theorem declaring?_congr
    (habove : u.above = t.above)
    (hdeclared : ∀ id, u.declared id name = t.declared id name) :
    u.store.declaring? name (u.environment node) = t.store.declaring? name (t.environment node) := by
  have hpath : u.environment node = t.environment node := by
    rw [environment, habove, environment]
  refine Option.ext fun ⟨id, slot⟩ => ?_
  simp only [Store.declaring?_eq_some_iff, hpath]
  simp only [declared] at hdeclared
  simp only [hdeclared]

theorem lookup_congr
    (habove : u.above = t.above)
    (hdeclared : ∀ id, u.declared id name = t.declared id name) :
    u.lookup node name = t.lookup node name := by
  unfold lookup Store.lookup
  rw [declaring?_congr habove hdeclared]

/-- What a name stands for depends on the contents of its cell as well. -/
theorem value_congr
    (habove : u.above = t.above)
    (hdeclared : ∀ id, u.declared id name = t.declared id name)
    (hcontents : ∀ d, u.store.read d = t.store.read d) :
    (u.resolve node name false).map Prod.fst = (t.resolve node name false).map Prod.fst := by
  unfold resolve Store.resolve
  rw [declaring?_congr habove hdeclared]
  cases t.store.declaring? name (t.environment node) with
  | none => rfl
  | some found =>
      obtain ⟨id, slot⟩ := found
      cases slot with
      | none => rfl
      | some d => simp [Except.map, hcontents]

/-- Making a place leaves every cell that a name leads to. -/
theorem Places.lookup
    {start owner : Nat} {other : String} {place : CellId}
    (hplaces : t.Places u node name owner place)
    (h : t.lookup start other = some c) :
    u.lookup start other = some c := by
  by_cases hname : other = name
  · subst hname
    obtain ⟨before, id, after, hpath, hbefore, hcell⟩ := lookup_eq_some_iff.mp h
    -- The owner is none of the nodes that the search has passed.
    have hpassed : ∀ n ∈ before, n ≠ owner := by
      rintro n hn rfl
      cases hplaces.owned with
      | nearest _ _ hdeclared => exact hdeclared (hbefore n hn)
      | own hnone => cases (hnone id (mem_environment_of_before hpath hn)).symm.trans hcell
    refine lookup_eq_some_iff.mpr ⟨before, id, after, ?_, ?_, ?_⟩
    · rw [environment, hplaces.above]
      exact hpath
    · exact fun n hn => (hplaces.others n other (Or.inl (hpassed n hn))).trans (hbefore n hn)
    · by_cases hid : id = owner
      · subst hid
        rcases hplaces.fresh with hkept | ⟨hopen, -⟩
        · rw [hplaces.place, ← hkept, hcell]
        · exact absurd hcell (hopen c)
      · rw [hplaces.others id other (Or.inl hid), hcell]
  · rwa [lookup_congr hplaces.above fun id => hplaces.others id other (Or.inr hname)]

/-- The place that has been made is found. -/
theorem Places.lookup_self
    {owner : Nat}
    (hplaces : t.Places u node name owner c) :
    u.lookup node name = some c := by
  have hpath : u.environment node = t.environment node := by
    rw [environment, hplaces.above, environment]
  cases hplaces.owned with
  | @nearest before after _ heq hbefore howner =>
      refine lookup_eq_some_iff.mpr ⟨before, owner, after, hpath.trans heq, ?_, hplaces.place⟩
      intro id hid
      have hne : id ≠ owner := by
        rintro rfl
        exact howner (hbefore id hid)
      exact (hplaces.others id name (Or.inl hne)).trans (hbefore id hid)
  | own => exact lookup_eq_some_iff.mpr ⟨[], node, u.above node, rfl, by simp, hplaces.place⟩

/-- A node that is added below another one is on no path that was there. -/
theorem lookup_grow
    {parent : Nat} {n : EnvironmentNode}
    (hparent : t.Contains parent)
    (hnode : t.Contains node)
    (h : (t.store.newNode n).2.nodes.size = t.store.nodes.size + 1)
    (name : String) :
    (t.grow parent hparent (t.store.newNode n).2 h).lookup node name = t.lookup node name := by
  have hpath : (t.grow parent hparent (t.store.newNode n).2 h).environment node = t.environment node := by
    simp only [environment, grow, Function.update_of_ne (Nat.ne_of_lt hnode)]
  unfold lookup Store.lookup
  rw [hpath]
  have hsame : ∀ id ∈ t.environment node, (t.store.newNode n).2.node id = t.store.node id := by
    intro id hid
    have hlt : id < t.store.nodes.size := contains_of_mem hnode hid
    simp [Store.node, Store.newNode, Array.getElem?_push, Nat.ne_of_lt hlt]
  simp only [grow, Store.declaring?_congr hsame]

theorem contains_after
    (hnode : t.Contains node)
    (op : Operation) :
    (t.after op).Contains node := by
  cases op with
  | resolve other name assignable =>
      simp only [after]
      split
      · exact Nat.lt_of_lt_of_eq hnode (t.store.size_nodes_resolved _ name assignable).symm
      · exact hnode
  | nested other names =>
      simp only [after]
      split
      · exact Nat.lt_of_lt_of_eq (Nat.lt_succ_of_lt hnode) (Array.size_push _).symm
      · exact hnode
  | task other id =>
      simp only [after]
      split
      · exact Nat.lt_of_lt_of_eq (Nat.lt_succ_of_lt hnode) (Array.size_push _).symm
      · exact hnode

/-- A cell that a name leads to stays the one that it leads to, whatever is done with the tree. -/
theorem lookup_after
    (hnode : t.Contains node)
    (h : t.lookup node name = some c)
    (op : Operation) :
    (t.after op).lookup node name = some c := by
  cases op with
  | resolve other name' assignable =>
      by_cases hother : t.Contains other
      · cases assignable with
        | true =>
            obtain ⟨owner, place, hplaces, -⟩ := resolve_place hother name'
            exact hplaces.lookup h
        | false =>
            rwa [after_resolve_false]
      · simpa only [after, if_neg hother] using h
  | nested other names =>
      by_cases hother : t.Contains other
      · simp only [after, dif_pos hother]
        exact (lookup_grow hother hnode _ name).trans h
      · simpa only [after, dif_neg hother] using h
  | task other id =>
      by_cases hother : t.Contains other
      · simp only [after, dif_pos hother]
        exact (lookup_grow hother hnode _ name).trans h
      · simpa only [after, dif_neg hother] using h

theorem lookup_run
    (hnode : t.Contains node)
    (h : t.lookup node name = some c)
    (ops : List Operation) :
    (t.run ops).lookup node name = some c := by
  induction ops generalizing t with
  | nil => exact h
  | cons op rest ih => exact ih (contains_after hnode op) (lookup_after hnode h op)

/-- **Stability.**  A cell that a name leads to at a node is the one in every later state.  A place that has been
made for a name at a node is the one that is given in every later state.  Both ways to look a name up agree.  Making
a place adds at most one entry, for that name, at the nearest node that declares it or else at the node itself, and
every other name is treated as before at every node. -/
theorem bindings_stable
    (t : EnvironmentTree) {node : Nat}
    (hnode : t.Contains node)
    (name : String) :
    (∀ c, t.lookup node name = some c → ∀ ops, (t.run ops).lookup node name = some c) ∧
      (∃ c, t.resolve node name true = .ok (.ref c, (t.after (.resolve node name true)).store) ∧
        ∀ ops, ((t.after (.resolve node name true)).run ops).resolve node name true =
          .ok (.ref c, ((t.after (.resolve node name true)).run ops).store)) ∧
      (∀ v s, t.resolve node name false = .ok (v, s)
        ↔
        ∃ c, t.lookup node name = some c ∧ v = t.store.read c ∧ s = t.store) ∧
      ∃ owner c, t.Places (t.after (.resolve node name true)) node name owner c ∧
        ∀ id other, other ≠ name →
          (t.after (.resolve node name true)).lookup id other = t.lookup id other ∧
            ((t.after (.resolve node name true)).resolve id other false).map Prod.fst =
              (t.resolve id other false).map Prod.fst ∧
            ∀ n, (t.after (.resolve node name true)).Owner id other n ↔ t.Owner id other n := by
  obtain ⟨owner, c, hplaces, hresolve⟩ := resolve_place hnode name
  refine ⟨fun c h ops => lookup_run hnode h ops, ⟨c, hresolve, fun ops => ?_⟩, ?_, owner, c, hplaces, ?_⟩
  · exact resolve_of_lookup (lookup_run (contains_after hnode _) hplaces.lookup_self ops)
  · exact fun v s => Store.resolve_false_eq_ok_iff
  · intro id other hne
    have hsame := fun n => hplaces.others n other (Or.inr hne)
    refine ⟨lookup_congr hplaces.above hsame, value_congr hplaces.above hsame hplaces.contents, fun n => ⟨?_, ?_⟩⟩
    · exact owner_congr hplaces.above.symm fun n => (hsame n).symm
    · exact owner_congr hplaces.above hsame

/-- A variable that is declared at a node and made at a node below it. -/
theorem bindings_stable_below_declaration :
    ((root 0).run [.nested 0 ["x"], .task 1 7]).Contains 2 ∧
      ∃ c, ((root 0).run [.nested 0 ["x"], .task 1 7]).resolve 2 "x" true = .ok (.ref c,
          (((root 0).run [.nested 0 ["x"], .task 1 7]).after (.resolve 2 "x" true)).store) ∧
        ∀ ops, ((((root 0).run [.nested 0 ["x"], .task 1 7]).after (.resolve 2 "x" true)).run ops).resolve 2 "x" true =
          .ok (.ref c, ((((root 0).run [.nested 0 ["x"], .task 1 7]).after (.resolve 2 "x" true)).run ops).store) :=
  ⟨by decide, (bindings_stable _ (by decide) "x").2.1⟩

end EnvironmentTree

end Environments

end GoalDirected
