import GoalDirected.Proofs.Schedule.Order
import GoalDirected.Proofs.Store.Arguments
import GoalDirected.Proofs.Store.Registry
import GoalDirected.Program.Basic

/-!
# What a dependency stands for

**Input.** A program that one linking has built without a malfunction. Its items bear qualified names and
list names that they depend on, as the front end wrote them.

**Argument.** Code looks a name up in the namespace of its procedure first and in the root then; the order
of initialization looks for an item of that very name. In the root no two names have one cell, and a name
of another namespace has the cell of its qualified name there (`Tables.Shared`). So the item that a name
stands for has the name itself if it was found in the root, and a longer name if it was found in another
namespace.

**Results.**

* `consistent_link`: linking keeps the tables consistent, and items have names of their own.
* `index?_iff_not_local`: the order finds the item that a dependency stands for exactly if the name is not
  one of the procedure's own namespace outside the root, and then puts an initializer first.
* `index?_local_name`: two globals of one namespace, the first of which depends on the second, are
  initialized in the wrong order.
-/

namespace GoalDirected

section Defs

/-- The root has its names apart, and every entry outside it has the cell of its qualified name. -/
structure Tables.Shared
    (tables : Tables)
    (size : Nat) : Prop where
  apart : (tables "").Apart size
  shared : ∀ ns name c, ns ≠ "" → (tables ns).get? name = some c →
    (tables "").get? (qualify ns name) = some c

/-- Every namespace is the one of some name. -/
def Store.IsNamed (s : Store) : Prop :=
  ∀ i, i < s.namespaces.size → ∃ ns, s.home? ns = some i

/-- The root comes first, every namespace is the one of its name, and the tables are shared. -/
structure Store.Consistent (s : Store) : Prop where
  rooted : s.IsRooted
  named : s.IsNamed
  shared : s.table.Shared s.cells.size

/-- Items with names of their own, all of them in the root. -/
structure Program.Consistent (p : Program) : Prop where
  store : p.store.Consistent
  nodup : (p.pending.map (·.name)).Nodup
  listed : ∀ item, item ∈ p.pending → ((p.store.table "").get? item.name).isSome

/-- In the code of a procedure the name stands for the cell that an item was declared with. -/
def Program.Denotes
    (p : Program)
    (procedure : Procedure)
    (name : String)
    (j : Nat) : Prop :=
  ∃ item c, p.pending[j]? = some item ∧ p.store.rootGlobal? item.name = some c ∧
    (p.store.global? procedure.home name).or (p.store.rootGlobal? name) = some c

end Defs

section Tables

variable {b : Bindings}
variable {tables after : Tables}
variable {size total : Nat}
variable {ns name : String}

theorem Bindings.Apart.append
    (h : b.Apart size) :
    Bindings.Apart (b ++ [(name, size)]) (size + 1) where
  bounded := fun m c hc => by
    rcases Bindings.get?_append_cases hc with hold | ⟨-, rfl⟩
    · exact Nat.lt_succ_of_lt (h.bounded m c hold)
    · exact Nat.lt_succ_self _
  injective := fun m n c hm hn => by
    rcases Bindings.get?_append_cases hm with hold | ⟨hname, hc⟩
    · rcases Bindings.get?_append_cases hn with hold' | ⟨-, rfl⟩
      · exact h.injective m n c hold hold'
      · exact absurd (h.bounded m c hold) (Nat.lt_irrefl _)
    · rcases Bindings.get?_append_cases hn with hold' | ⟨hname', -⟩
      · exact absurd (hc ▸ h.bounded n c hold') (Nat.lt_irrefl _)
      · exact hname.trans hname'.symm

namespace Tables

theorem Shared.mono
    (h : tables.Shared size)
    (hsize : size ≤ total) :
    tables.Shared total :=
  ⟨h.apart.mono hsize, h.shared⟩

/-- What a declaration that succeeds, or one in the root, does to the tables. -/
theorem Declares.shared
    {answer : Except Malfunction CellId}
    (h : tables.Declares size ns name answer after total)
    (hanswer : ns = "" ∨ ∃ c, answer = .ok c)
    (hshared : tables.Shared size) :
    after.Shared total := by
  cases h with
  | repeated htaken => exact hshared
  | root hns hfree =>
      subst hns
      constructor
      · rw [add_self]
        exact hshared.apart.append
      · intro m n c hm hc
        rw [add_of_ne _ _ _ hm] at hc
        exact get?_add_eq_some (hshared.shared m n c hm hc) _ _ _
  | collision hns hfree htaken =>
      obtain hns' | ⟨c, hc⟩ := hanswer
      · exact absurd hns' hns
      · cases hc
  | both hns hfree hroot =>
      have hsame : tables.add ns name size "" = tables "" := add_of_ne _ _ _ (Ne.symm hns)
      constructor
      · rw [add_self, hsame]
        exact hshared.apart.append
      · intro m n c hm hc
        rw [add_of_ne _ _ _ hm] at hc
        rcases get?_add_cases hc with hold | ⟨rfl, rfl, rfl⟩
        · exact get?_add_eq_some (get?_add_eq_some (hshared.shared m n c hm hold) _ _ _) _ _ _
        · exact get?_add_new (hsame ▸ hroot) _

/-- A declaration that succeeds gives the root a name that it did not have. -/
theorem Declares.fresh
    {c : CellId}
    (h : tables.Declares size ns name (.ok c) after total) :
    (tables "").get? (qualify ns name) = none ∧ (after "").get? (qualify ns name) = some c := by
  cases h with
  | root hns hfree =>
      subst hns
      exact ⟨hfree, get?_add_new hfree _⟩
  | both hns hfree hroot =>
      refine ⟨hroot, get?_add_new ?_ _⟩
      rw [add_of_ne _ _ _ (Ne.symm hns)]
      exact hroot

/-- No declaration takes a name away. -/
theorem Declares.get?_eq_some
    {answer : Except Malfunction CellId}
    {m n : String}
    {c : CellId}
    (h : tables.Declares size ns name answer after total)
    (hc : (tables m).get? n = some c) :
    (after m).get? n = some c := by
  cases h with
  | repeated => exact hc
  | root => exact get?_add_eq_some hc _ _ _
  | collision => exact get?_add_eq_some hc _ _ _
  | both => exact get?_add_eq_some (get?_add_eq_some hc _ _ _) _ _ _

end Tables

end Tables

section Linking

variable {s t : Store}

namespace Store

theorem IsNamed.namespaceIndex
    (h : s.IsNamed)
    (ns : String) :
    (s.namespaceIndex ns).2.IsNamed := by
  obtain ⟨-, hhome, -, hkeep⟩ := s.namespaceIndex_spec ns
  intro i hi
  by_cases hold : i < s.namespaces.size
  · obtain ⟨m, hm⟩ := h i hold
    exact ⟨m, hkeep m i hm⟩
  · -- only a namespace that has just been made is further on
    refine ⟨ns, hhome.trans (congrArg some ?_)⟩
    unfold Store.namespaceIndex at hi ⊢
    split at hi
    · exact absurd hi hold
    · simp only [Array.size_push] at hi ⊢
      omega

theorem IsNamed.addEntry
    (h : s.IsNamed)
    (k : Nat)
    (name : String)
    (cell : CellId) :
    (s.addEntry k name cell).IsNamed := by
  have hsize : (s.addEntry k name cell).namespaces.size = s.namespaces.size := by
    unfold Store.addEntry
    split <;> simp
  intro i hi
  obtain ⟨ns, hns⟩ := h i (hsize ▸ hi)
  exact ⟨ns, (s.home?_addEntry k name cell ns).trans hns⟩

theorem IsNamed.declare
    (h : s.IsNamed)
    (ns name : String)
    (v : Value) :
    (s.declare ns name v).2.IsNamed := by
  have hindex := h.namespaceIndex ns
  have hentry : ∀ k n c, (((s.namespaceIndex ns).2.allocate v).2.addEntry k n c).IsNamed :=
    IsNamed.addEntry (s := ((s.namespaceIndex ns).2.allocate v).2) hindex
  simp only [Store.declare]
  split
  · exact hindex
  · split
    · exact hentry _ _ _
    · split
      · exact hentry _ _ _
      · exact (hentry _ _ _).addEntry _ _ _

theorem consistent_undeclared
    (s : Store) :
    s.undeclared.Consistent := by
  refine ⟨s.isRooted_undeclared, ?_, ⟨?_, ?_⟩, ?_⟩
  · intro i hi
    have hi : i = rootNamespace := Nat.lt_one_iff.mp hi
    exact ⟨"", hi ▸ s.isRooted_undeclared⟩
  · intro name c hc
    simp [table_undeclared, Bindings.get?] at hc
  · intro m n c hm
    simp [table_undeclared, Bindings.get?] at hm
  · intro ns name c _ hc
    simp [table_undeclared, Bindings.get?] at hc

namespace Consistent

theorem newCallable
    (h : s.Consistent)
    (c : Callable) :
    (s.newCallable c).2.Consistent :=
  ⟨h.rooted, h.named, h.shared⟩

theorem allocate
    (h : s.Consistent)
    (v : Value) :
    (s.allocate v).2.Consistent :=
  ⟨h.rooted, h.named, h.shared.mono (by simp)⟩

theorem bindAll
    (h : s.Consistent)
    (b : Bindings)
    (entries : List (String × Value)) :
    (s.bindAll b entries).2.Consistent := by
  induction entries generalizing s b with
  | nil => exact h
  | cons entry rest ih => exact ih (h.allocate entry.2) _

theorem namespaceIndex
    (h : s.Consistent)
    (ns : String) :
    (s.namespaceIndex ns).2.Consistent := by
  obtain ⟨htable, -, hcells, hkeep⟩ := s.namespaceIndex_spec ns
  refine ⟨hkeep _ _ h.rooted, h.named.namespaceIndex ns, ?_⟩
  rw [htable, hcells]
  exact h.shared

theorem declare
    (h : s.Consistent)
    {ns name : String}
    {v : Value}
    (hanswer : ns = "" ∨ ∃ c, (s.declare ns name v).1 = .ok c) :
    (s.declare ns name v).2.Consistent :=
  ⟨home?_declare h.rooted ns name v, h.named.declare ns name v,
    (declares_declare h.rooted ns name v).shared hanswer h.shared⟩

/-- A name found in a namespace is in the table of that namespace. -/
theorem table_of_global?
    (h : s.Consistent)
    {i : Nat}
    {name : String}
    {c : CellId}
    (hc : s.global? i name = some c) :
    ∃ ns, s.home? ns = some i ∧ (s.table ns).get? name = some c := by
  have hi : i < s.namespaces.size := by
    by_contra hle
    have hnone : s.namespaces[i]? = none := Array.getElem?_eq_none (Nat.le_of_not_lt hle)
    simp [global?, entries, hnone, Bindings.get?] at hc
  obtain ⟨ns, hns⟩ := h.named i hi
  exact ⟨ns, hns, by rw [table_of_home? hns]; exact hc⟩

end Consistent

end Store

theorem Store.table_bindAll
    (s : Store)
    (b : Bindings)
    (entries : List (String × Value)) :
    (s.bindAll b entries).2.table = s.table := by
  induction entries generalizing s b with
  | nil => rfl
  | cons entry rest ih => exact ih (s.allocate entry.2).2 _

theorem Ir.Procedure.qualified_link
    {ir : Ir.Procedure}
    {code : Code}
    (h : ir.link = .ok code) :
    code.qualified = qualify code.namespaceName code.name := by
  unfold Ir.Procedure.link at h
  split at h
  · cases h
  · split at h
    · split at h
      · cases h
      · cases h
        rfl
    · cases h

namespace Program

variable {p q : Program}

theorem linkProcedure_spec
    (h : s.Consistent)
    (ir : Ir.Procedure) :
    (linkProcedure s ir).2.Consistent ∧ (linkProcedure s ir).2.table = s.table := by
  have hindex := h.namespaceIndex ir.namespaceName
  obtain ⟨htable, -⟩ := s.namespaceIndex_spec ir.namespaceName
  simp only [linkProcedure]
  cases ir.link with
  | error m => exact ⟨hindex, htable⟩
  | ok code => exact ⟨hindex.bindAll [] _, (Store.table_bindAll _ _ _).trans htable⟩

theorem qualified_linkProcedure
    {ir : Ir.Procedure}
    {procedure : Procedure}
    (h : linkProcedure s ir = (.ok procedure, t)) :
    procedure.code.qualified = qualify procedure.code.namespaceName procedure.code.name := by
  simp only [linkProcedure] at h
  cases hlink : ir.link with
  | error m => simp [hlink] at h
  | ok code =>
      simp only [hlink, Prod.mk.injEq, Except.ok.injEq] at h
      rw [← h.1]
      exact Ir.Procedure.qualified_link hlink

namespace Consistent

/-- One more name, without an item. -/
theorem declare
    (h : p.Consistent)
    (hs : s.Consistent)
    (htable : s.table = p.store.table)
    {ns name : String}
    {v : Value}
    {c : CellId}
    (hdeclare : s.declare ns name v = (.ok c, t)) :
    Consistent { p with store := t } := by
  have ht := hs.declare (Or.inr ⟨c, congrArg Prod.fst hdeclare⟩)
  have hdeclares := Store.declares_declare hs.rooted ns name v
  rw [hdeclare] at ht hdeclares
  refine ⟨ht, h.nodup, fun item hitem => ?_⟩
  obtain ⟨d, hd⟩ := Option.isSome_iff_exists.mp (h.listed item hitem)
  rw [hdeclares.get?_eq_some (htable ▸ hd)]
  rfl

/-- One more name, with an item of its qualified name. -/
theorem add
    (h : p.Consistent)
    (hs : s.Consistent)
    (htable : s.table = p.store.table)
    {ns name : String}
    {v : Value}
    {c : CellId}
    (hdeclare : s.declare ns name v = (.ok c, t))
    (init : Option Initializer)
    (deps : List String) :
    Consistent ⟨t, p.pending ++ [⟨qualify ns name, init, deps⟩]⟩ := by
  have hkept := h.declare hs htable hdeclare
  have hdeclares := Store.declares_declare hs.rooted ns name v
  rw [hdeclare] at hdeclares
  obtain ⟨hnone, hsome⟩ := hdeclares.fresh
  refine ⟨hkept.store, ?_, ?_⟩
  · rw [List.map_append, List.nodup_append]
    refine ⟨h.nodup, by simp, ?_⟩
    intro m hm n hn
    simp only [List.map_cons, List.map_nil, List.mem_singleton] at hn
    obtain ⟨item, hitem, rfl⟩ := List.mem_map.mp hm
    rintro rfl
    have hlisted := h.listed item hitem
    rw [← htable, hn, hnone] at hlisted
    cases hlisted
  · intro item hitem
    rcases List.mem_append.mp hitem with hold | hnew
    · exact hkept.listed item hold
    · rw [List.mem_singleton.mp hnew, hsome]
      rfl

theorem of_table
    (h : p.Consistent)
    (ht : t.Consistent)
    (htable : t.table = p.store.table) :
    Consistent { p with store := t } :=
  ⟨ht, h.nodup, fun item hitem => by rw [htable]; exact h.listed item hitem⟩

end Consistent

theorem consistent_linkRecord
    (h : p.Consistent)
    {r : Ir.Record}
    (hlink : linkRecord p r = (.ok (), q)) :
    q.Consistent := by
  let constructed := p.store.newCallable (.constructor (qualify r.namespaceName r.name) r.fields)
  cases hdeclare : constructed.2.declare r.namespaceName r.name constructed.1 with
  | mk answer t =>
      cases answer with
      | error m => simp [linkRecord, constructed, hdeclare, Except.map] at hlink
      | ok c =>
          have hq : q = { p with store := t } := by
            simpa [linkRecord, constructed, hdeclare, Except.map] using hlink.symm
          rw [hq]
          exact h.declare (h.store.newCallable _) rfl hdeclare

theorem consistent_linkDeclaration
    (h : p.Consistent)
    {ir : Ir.Procedure}
    (hlink : linkDeclaration p ir = (.ok (), q)) :
    q.Consistent := by
  obtain ⟨hconsistent, htable⟩ := linkProcedure_spec h.store ir
  unfold linkDeclaration at hlink
  split at hlink
  · cases hlink
  · rename_i procedure s hprocedure
    rw [hprocedure] at hconsistent htable
    dsimp only at hlink
    split at hlink
    · cases hlink
    · rename_i c t hdeclare
      cases hlink
      rw [qualified_linkProcedure hprocedure]
      exact h.add (hconsistent.newCallable _) htable hdeclare none _

theorem consistent_linkGlobal
    (h : p.Consistent)
    {g : Ir.Global}
    (hlink : linkGlobal p g = (.ok (), q)) :
    q.Consistent := by
  unfold linkGlobal at hlink
  dsimp only at hlink
  split at hlink
  · cases hlink
  · rename_i c t hdeclare hinit
    cases hlink
    exact h.add h.store rfl hdeclare none _
  · rename_i c t ir hdeclare hinit
    split at hlink
    · cases hlink
    · rename_i procedure u hprocedure
      cases hlink
      have hadd := h.add h.store rfl hdeclare (some ⟨c, procedure⟩) g.deps
      obtain ⟨hconsistent, htable⟩ := linkProcedure_spec hadd.store ir
      rw [hprocedure] at hconsistent htable
      exact hadd.of_table hconsistent htable

theorem linkAll_induction
    {α : Type}
    {link : Program → α → Except Malfunction Unit × Program}
    {P : Program → Prop}
    (hstep : ∀ p a q, P p → link p a = (.ok (), q) → P q)
    {parts : List α}
    (hp : P p)
    (hlink : linkAll link p parts = (.ok (), q)) :
    P q := by
  induction parts generalizing p with
  | nil =>
      cases hlink
      exact hp
  | cons a rest ih =>
      simp only [linkAll] at hlink
      split at hlink
      · rename_i r hr
        exact ih (hstep p a r hp hr) hlink
      · cases hlink

/-- Linking without a malfunction keeps the tables consistent and the names of items apart. -/
theorem consistent_link
    (h : p.Consistent)
    {ir : Ir.Program}
    (hlink : p.link ir = (.ok (), q)) :
    q.Consistent := by
  unfold link at hlink
  split at hlink
  · cases hlink
  · rename_i r hrecords
    have hr := linkAll_induction (fun _ _ _ h => consistent_linkRecord h) h hrecords
    split at hlink
    · cases hlink
    · rename_i u hprocedures
      have hu := linkAll_induction (fun _ _ _ h => consistent_linkDeclaration h) hr hprocedures
      exact linkAll_induction (fun _ _ _ h => consistent_linkGlobal h) hu hlink

theorem consistent_install
    (h : s.Consistent)
    (builtins : List Builtin) :
    (install s builtins).Consistent := by
  induction builtins generalizing s with
  | nil => exact h
  | cons b rest ih => exact ih ((h.newCallable (.builtin b)).declare (Or.inl rfl))

theorem consistent_new
    (maxTasks : Nat) :
    (new maxTasks).Consistent := by
  let s : Store := { nodes := #[⟨0, []⟩], limit := max 1 maxTasks }
  refine ⟨consistent_install s.consistent_undeclared Builtin.all, List.nodup_nil, ?_⟩
  intro item hitem
  cases hitem

end Program

end Linking

section Resolution

variable {p : Program}

theorem qualify_ne
    {ns : String}
    (h : ns ≠ "")
    (name : String) :
    qualify ns name ≠ name := by
  intro heq
  have hlength := congrArg String.length heq
  simp [qualify, h] at hlength

namespace Schedule

/-- An initializer that an item depends on comes before the item. -/
theorem sublist_names_order
    {α : Type}
    {items out : List (Item α)}
    (horder : order items = .ok out)
    {i j : Nat}
    {item target : Item α}
    (hitem : items[i]? = some item)
    (htarget : items[j]? = some target)
    (hinit : target.init.isSome)
    {name : String}
    (hdep : name ∈ item.deps)
    (hindex : index? items name = some j) :
    [target.name, item.name].Sublist (out.map (·.name)) := by
  unfold order at horder
  cases hgraph : (graph items).order with
  | error stuck => simp [hgraph] at horder
  | ok indices =>
      simp only [hgraph, Except.ok.injEq] at horder
      subst horder
      obtain ⟨hperm, hbefore⟩ :=
        (graph items).pending_range.orderFrom_eq_ok (by simp) hgraph
      have hedge : (graph items).Edge i j :=
        (edge_graph_iff items i j).mpr ⟨item, hitem, name, hdep, hindex⟩
      have hruns : (graph items).hasInit j = true :=
        (hasInit_graph_iff items j).mpr ⟨target, htarget, hinit⟩
      have hsublist : [j, i].Sublist indices :=
        hbefore i j (List.mem_range.mpr (Graph.lt_size_of_edge hedge))
          (List.mem_range.mpr (Graph.lt_size_of_hasInit hruns)) hruns (.single hedge)
      have hpicked := hsublist.filterMap fun k => items[k]?
      rw [List.filterMap_cons_some htarget, List.filterMap_cons_some hitem] at hpicked
      exact hpicked.map (·.name)

/-- The order depends on the graph alone. -/
theorem order_of_graph
    {α : Type}
    {items : List (Item α)}
    (nodes : List (Bool × List Nat))
    {indices : List Nat}
    (hgraph : (graph items).toList.map (fun n => (n.hasInit, n.deps)) = nodes)
    (horder : Graph.order (nodes.map fun n => ⟨n.1, n.2⟩).toArray = .ok indices) :
    order items = .ok (pick items indices) := by
  have hnodes : graph items = (nodes.map fun n => (⟨n.1, n.2⟩ : Node)).toArray := by
    rw [← hgraph, List.map_map]
    exact (congrArg List.toArray (List.map_id (graph items).toList)).symm
  simp [order, hnodes, horder]

end Schedule

namespace Program

/-- The item that a name of the root stands for has this name. -/
theorem index?_of_rootGlobal?
    (h : p.Consistent)
    {j : Nat}
    {item : Item Initializer}
    {name : String}
    {c : CellId}
    (hitem : p.pending[j]? = some item)
    (hcell : p.store.rootGlobal? item.name = some c) :
    Schedule.index? p.pending name = some j ↔ p.store.rootGlobal? name = some c := by
  rw [Store.rootGlobal?_eq h.store.rooted] at hcell ⊢
  constructor
  · intro hj
    obtain ⟨hlt, hname, -⟩ := List.findIdx?_eq_some_iff_getElem.mp hj
    obtain ⟨_, rfl⟩ := List.getElem?_eq_some_iff.mp hitem
    rw [← hcell, eq_of_beq hname]
  · intro hname
    have heq : item.name = name := h.store.shared.apart.injective _ _ c hcell hname
    obtain ⟨hlt, rfl⟩ := List.getElem?_eq_some_iff.mp hitem
    refine List.findIdx?_eq_some_iff_getElem.mpr ⟨hlt, by simp [heq], ?_⟩
    intro i hij hi
    have hapart : p.pending.Pairwise fun a b => a.name ≠ b.name := List.pairwise_map.mp h.nodup
    have hne := List.pairwise_iff_getElem.mp hapart i j (Nat.lt_trans hij hlt) hlt hij
    exact hne ((eq_of_beq hi).trans heq.symm)

/-- A name found in a namespace outside the root is not that of its item. -/
theorem rootGlobal?_ne_of_local
    (h : p.Consistent)
    {home : Nat}
    (hhome : home ≠ Store.rootNamespace)
    {name : String}
    {c : CellId}
    (hc : p.store.global? home name = some c) :
    p.store.rootGlobal? name ≠ some c := by
  obtain ⟨ns, hns, hentry⟩ := h.store.table_of_global? hc
  have hne : ns ≠ "" := by
    rintro rfl
    exact hhome (Option.some.inj (hns.symm.trans h.store.rooted))
  have hqualified := h.store.shared.shared ns name c hne hentry
  rw [Store.rootGlobal?_eq h.store.rooted]
  intro hname
  exact qualify_ne hne name (h.store.shared.apart.injective _ _ c hqualified hname)

/-- The order finds the item that a name stands for exactly if it looks where the code looks. -/
theorem Denotes.index?_iff
    (h : p.Consistent)
    {procedure : Procedure}
    {name : String}
    {j : Nat}
    (hdenotes : p.Denotes procedure name j) :
    Schedule.index? p.pending name = some j ↔
      procedure.home = Store.rootNamespace ∨ p.store.global? procedure.home name = none := by
  obtain ⟨item, c, hitem, hcell, hc⟩ := hdenotes
  rw [index?_of_rootGlobal? h hitem hcell]
  rcases Option.or_eq_some_iff.mp hc with hlocal | ⟨hnone, hroot⟩
  · by_cases hhome : procedure.home = Store.rootNamespace
    · rw [hhome] at hlocal
      exact iff_of_true hlocal (Or.inl hhome)
    · refine iff_of_false (rootGlobal?_ne_of_local h hhome hlocal) ?_
      rintro (hhome' | hnone)
      · exact hhome hhome'
      · simp [hlocal] at hnone
  · exact iff_of_true hroot (Or.inr hnone)

/-- The order takes a dependency for the item that it stands for in a procedure exactly if the procedure
is one of the root or the name is not one of the procedure's namespace. In these cases an initializer that
the name stands for comes before the item that depends on it. -/
theorem index?_iff_not_local
    {maxTasks : Nat}
    {ir : Ir.Program}
    (hlink : (new maxTasks).link ir = (.ok (), p))
    {i j : Nat}
    {item : Item Initializer}
    {name : String}
    (hitem : p.pending[i]? = some item)
    (hdep : name ∈ item.deps)
    {procedure : Procedure}
    (hdenotes : p.Denotes procedure name j) :
    (Schedule.index? p.pending name = some j ↔
      procedure.home = Store.rootNamespace ∨ p.store.global? procedure.home name = none) ∧
    (procedure.home = Store.rootNamespace ∨ p.store.global? procedure.home name = none →
      ∀ target out, p.pending[j]? = some target → target.init.isSome →
        Schedule.order p.pending = .ok out →
        [target.name, item.name].Sublist (out.map (·.name))) := by
  have hiff := hdenotes.index?_iff (consistent_link (consistent_new maxTasks) hlink)
  refine ⟨hiff, fun hfound target out htarget hinit horder => ?_⟩
  exact Schedule.sublist_names_order horder hitem htarget hinit hdep (hiff.mpr hfound)

/-- A global whose initializer takes the value of another name. -/
def copying (ns name source : String) : Ir.Global where
  name := name
  namespaceName := ns
  init := some
    { name := name
      namespaceName := ns
      params := []
      locals := []
      statics := []
      variadic := false
      temps := 1
      entry := "start"
      chunks := [⟨"start", [.name 0 source, .succeed (some 0) none]⟩]
      deps := [source] }
  deps := [source]

/-- A global `a` of the namespace `m` that depends on a global `b` of a given namespace. -/
def pair (ns : String) : Ir.Program :=
  ⟨[], [copying "m" "a" "b", copying ns "b" "write"], []⟩

def linked (ns : String) : Program :=
  ((new 1).link (pair ns)).2

theorem link_pair
    (ns : String)
    (h : ((new 1).link (pair ns)).1.isOk = true) :
    (new 1).link (pair ns) = (.ok (), linked ns) := by
  refine Prod.ext ?_ rfl
  cases hanswer : ((new 1).link (pair ns)).1 with
  | ok => rfl
  | error m =>
      rw [hanswer] at h
      cases h

/-- In the initializer of `a` the name `b` stands for the second item. -/
theorem items_linked
    (ns second : String)
    (c : CellId)
    (hfirst : ((linked ns).pending[0]?.map fun item : Item Initializer =>
      (item.deps, item.init.map (·.procedure.home))) = some (["b"], some 1))
    (hsecond : ((linked ns).pending[1]?.map fun item : Item Initializer => (item.name, item.init.isSome)) =
      some (second, true))
    (hcell : (linked ns).store.rootGlobal? second = some c)
    (hlookup : ((linked ns).store.global? 1 "b").or ((linked ns).store.rootGlobal? "b") = some c) :
    ∃ (item : Item Initializer) (init : Initializer) (target : Item Initializer),
      (linked ns).pending[0]? = some item ∧ "b" ∈ item.deps ∧ item.init = some init ∧
        (linked ns).pending[1]? = some target ∧ target.init.isSome ∧
        (linked ns).Denotes init.procedure "b" 1 := by
  obtain ⟨item, hitem, hfields⟩ := Option.map_eq_some_iff.mp hfirst
  obtain ⟨hdeps, hinit⟩ := Prod.mk.inj hfields
  obtain ⟨init, hinit, hhome⟩ := Option.map_eq_some_iff.mp hinit
  obtain ⟨target, htarget, hfields⟩ := Option.map_eq_some_iff.mp hsecond
  obtain ⟨rfl, hsome⟩ := Prod.mk.inj hfields
  refine ⟨item, init, target, hitem, by simp [hdeps], hinit, htarget, hsome, ?_⟩
  exact ⟨target, c, htarget, hcell, by rw [hhome]; exact hlookup⟩

/-- If `b` is one of the root, it is found there and comes first. -/
theorem index?_iff_not_local_outer :
    ∃ item init target out,
      (new 1).link (pair "") = (.ok (), linked "") ∧
        (linked "").pending[0]? = some item ∧ "b" ∈ item.deps ∧ item.init = some init ∧
        (linked "").pending[1]? = some target ∧ target.init.isSome ∧
        (linked "").Denotes init.procedure "b" 1 ∧
        Schedule.index? (linked "").pending "b" = some 1 ∧
        Schedule.order (linked "").pending = .ok out ∧
        [target.name, item.name].Sublist (out.map (·.name)) := by
  have hlink := link_pair "" (by decide +kernel)
  obtain ⟨item, init, target, hitem, hdep, hinit, htarget, hsome, hdenotes⟩ :=
    items_linked "" "b" 17 (by decide +kernel) (by decide +kernel)
      (by decide +kernel) (by decide +kernel)
  have hindex : Schedule.index? (linked "").pending "b" = some 1 := by decide +kernel
  have horder : Schedule.order (linked "").pending = .ok (Schedule.pick (linked "").pending [1, 0]) :=
    Schedule.order_of_graph [(true, [1]), (true, [])] (by decide +kernel) (by cbv)
  obtain ⟨hiff, hbefore⟩ := index?_iff_not_local hlink hitem hdep hdenotes
  exact ⟨item, init, target, _, hlink, hitem, hdep, hinit, htarget, hsome, hdenotes, hindex, horder,
    hbefore (hiff.mp hindex) target _ htarget hsome horder⟩

/-- If `b` is one of `m` itself, the order does not find it, and puts `a` first. -/
theorem index?_local_name :
    ∃ item init target out,
      (new 1).link (pair "m") = (.ok (), linked "m") ∧
        (linked "m").pending[0]? = some item ∧ "b" ∈ item.deps ∧ item.init = some init ∧
        (linked "m").pending[1]? = some target ∧ target.init.isSome ∧
        (linked "m").Denotes init.procedure "b" 1 ∧
        Schedule.index? (linked "m").pending "b" ≠ some 1 ∧
        Schedule.order (linked "m").pending = .ok out ∧
        out.map (·.name) = [item.name, target.name] := by
  have hlink := link_pair "m" (by decide +kernel)
  obtain ⟨item, init, target, hitem, hdep, hinit, htarget, hsome, hdenotes⟩ :=
    items_linked "m" "m::b" 17 (by decide +kernel) (by decide +kernel)
      (by decide +kernel) (by decide +kernel)
  have horder : Schedule.order (linked "m").pending = .ok (Schedule.pick (linked "m").pending [0, 1]) :=
    Schedule.order_of_graph [(true, []), (true, [])] (by decide +kernel) (by cbv)
  refine ⟨item, init, target, _, hlink, hitem, hdep, hinit, htarget, hsome, hdenotes,
    by decide +kernel, horder, ?_⟩
  simp [Schedule.pick, hitem, htarget]

end Program

end Resolution

end GoalDirected
