import GoalDirected.Proofs.Machine.Activity

/-!
# The environment tree

Nodes of environments are made when a task is created and when a scope with dynamic variables is entered, and they
change only by getting cells for their variables.  Everything else leaves the tree alone.

* `nodes_invoke`, `nodes_builtin`, `nodes_choose`, `nodes_bindArguments`, `nodes_duplicateFrame`: the nodes stay
  the same.
* `node_declareAt_self`, `node_declareAt_of_ne`: a variable that gets a cell changes the one node that it is in.
-/

namespace GoalDirected
namespace Store

section Nodes

/-! ## Data -/

theorem Update.nodes
    {s t : Store}
    (h : s.Update t) :
    t.nodes = s.nodes := by
  cases h <;> rfl

theorem Updates.nodes
    {s t : Store}
    (h : s.Updates t) :
    t.nodes = s.nodes :=
  h.keeps fun _ _ => Update.nodes

@[simp] theorem nodes_setProducer (s : Store) (id : Nat) (p : Producer) :
    (s.setProducer id p).nodes = s.nodes := by
  cases id <;> rfl

@[simp] theorem nodes_endProducer (s : Store) (id : Nat) :
    (s.endProducer id).nodes = s.nodes :=
  s.nodes_setProducer id .ended

/-! ## Names -/

@[simp] theorem nodes_namespaceIndex (s : Store) (name : String) :
    (s.namespaceIndex name).2.nodes = s.nodes := by
  unfold namespaceIndex
  split <;> rfl

@[simp] theorem nodes_addEntry (s : Store) (ns : Nat) (name : String) (cell : CellId) :
    (s.addEntry ns name cell).nodes = s.nodes := by
  unfold addEntry
  split <;> rfl

@[simp] theorem nodes_declare (s : Store) (namespaceName name : String) (v : Value) :
    (s.declare namespaceName name v).2.nodes = s.nodes := by
  simp only [declare]
  split
  · simp
  · split
    · simp [allocate]
    · split <;> simp [allocate]

/-! ## Arguments and scopes -/

@[simp] theorem nodes_bindAll (s : Store) (b : Bindings) (entries : List (String × Value)) :
    (s.bindAll b entries).2.nodes = s.nodes :=
  (s.updates_bindAll b entries).nodes

@[simp] theorem nodes_bindArguments
    (s : Store) (code : Code) (args : List Value) (names : List String) :
    (s.bindArguments code args names).2.nodes = s.nodes :=
  (s.updates_bindArguments code args names).nodes

theorem nodes_construct
    {s t : Store} {record : String} {fields : List String} {args : List Value}
    {names : List String} {v : Value}
    (h : s.construct record fields args names = .ok (v, t)) :
    t.nodes = s.nodes :=
  (updates_construct h).nodes

@[simp] theorem nodes_shadow (s : Store) (vars : Bindings) (names : List String) :
    (s.shadow vars names).2.2.nodes = s.nodes :=
  (s.updates_shadow vars names).nodes

@[simp] theorem nodes_duplicateFrame (s : Store) (f : Frame) (environment : Environment) :
    (s.duplicateFrame f environment).2.nodes = s.nodes :=
  (s.updates_duplicateFrame f environment).nodes

/-! ## Primitives -/

@[simp] theorem nodes_choose (s : Store) (waits : List WaitCase) :
    (s.choose waits).2.nodes = s.nodes :=
  (s.updates_choose waits).nodes

@[simp] theorem nodes_invoke (s : Store) (name : String) (args : List Value) :
    (s.invoke name args).2.nodes = s.nodes :=
  (s.updates_invoke name args).nodes

@[simp] theorem nodes_builtin (s : Store) (b : Builtin) (args : List Value) :
    (s.builtin b args).2.nodes = s.nodes := by
  rcases s.updates_builtin b args with hupdates | ⟨-, id, -, -, hended⟩
  · exact hupdates.nodes
  · rw [hended]
    exact s.nodes_endProducer id

/-! ## Dynamic variables -/

theorem lookup_bindVar (vars : List (String × Option CellId)) (name : String) (cell : CellId) :
    (bindVar vars name cell).lookup name = some (some cell) := by
  induction vars with
  | nil => simp [bindVar]
  | cons x rest ih =>
      obtain ⟨n, c⟩ := x
      rw [bindVar]
      split
      · rename_i heq
        simp [heq]
      · rename_i hne
        have hbeq : (name == n) = false := beq_false_of_ne (Ne.symm hne)
        rw [List.lookup_cons, hbeq]
        exact ih

theorem node_declareAt_self
    {s : Store} {id : Nat}
    (h : id < s.nodes.size)
    (name : String) (v : Value) :
    (s.declareAt id name v).2.node id =
      { s.node id with vars := bindVar (s.node id).vars name s.cells.size } := by
  simp [declareAt, allocate, node, h]

theorem node_declareAt_of_ne
    (s : Store) {id other : Nat}
    (h : other ≠ id)
    (name : String) (v : Value) :
    (s.declareAt id name v).2.node other = s.node other := by
  simp [declareAt, allocate, node, Array.getElem?_setIfInBounds_ne (Ne.symm h)]

theorem node_of_nodes
    {s t : Store}
    (h : t.nodes = s.nodes)
    (id : Nat) :
    t.node id = s.node id := by
  simp only [node, h]

/-- The nearest node that declares a name depends on the nodes of the environment only. -/
theorem declaring?_congr
    {s t : Store} {e : Environment}
    (h : ∀ id ∈ e, t.node id = s.node id)
    (name : String) :
    t.declaring? name e = s.declaring? name e := by
  induction e with
  | nil => rfl
  | cons id outer ih =>
      have houter := ih fun other hother => h other (List.mem_cons_of_mem _ hother)
      simp only [declaring?, h id List.mem_cons_self, houter]

/-- A place for a variable that is declared nowhere is made in the innermost node. -/
theorem resolve_of_undeclared
    {s : Store} {e : Environment} {name : String}
    (h : s.declaring? name e = none) :
    s.resolve e name true = .ok (.ref s.cells.size, (s.declareAt (e.headD 0) name .nil).2) := by
  simp only [resolve, h]
  rfl

end Nodes

end Store
end GoalDirected
