import GoalDirected.Store.Globals
import Mathlib

/-!
# Tables of global names

**Input.** A store whose first namespace is the root, and a sequence of declarations in namespaces of any
name. Names and namespaces are any texts, so `qualify` can give two declarations the same qualified name.

**Argument.** A declaration outside the root adds to two tables, one after the other, and checks each
table just before it adds to it. So there are four ways for a declaration to go (`Declares`). In one of
them the name is new in its namespace and its qualified name is taken in the root: the declaration fails
after the first table has got its entry.

**Results.**

* `declares_declare`: every declaration goes one of the four ways.
* `Registration.after_tables`: which failed calls leave an entry behind, and for which entries of a
  namespace the root has the same cell: for those whose declaration succeeded.
* `Registration.after_collision`: a failed call that leaves an entry behind, with a cell other than that
  of the root.
-/

namespace GoalDirected

section Defs

/-- The entries of all namespaces, by the names of the namespaces. -/
abbrev Tables := String → Bindings

/-- An entry at the end of one table. -/
def Tables.add (tables : Tables) (ns name : String) (cell : CellId) : Tables :=
  fun m => if m = ns then tables m ++ [(name, cell)] else tables m

namespace Store

/-- The index of the namespace of a name, if it has been used. -/
def home? (s : Store) (ns : String) : Option Nat :=
  s.namespaces.findIdx? fun n => n.name == ns

/-- The entries of the namespace of a name; there are none before its first use. -/
def table (s : Store) : Tables :=
  fun ns => ((s.home? ns).map s.entries).getD []

/-- The store before anything has been declared: there is only the root, and it is empty. -/
def undeclared (s : Store) : Store :=
  { s with namespaces := #[⟨"", []⟩] }

/-- The first namespace is the root. -/
def IsRooted (s : Store) : Prop :=
  s.home? "" = some rootNamespace

end Store

/-- The ways for a declaration of a name to go, with its answer, and the tables and the number of cells
after it. -/
inductive Tables.Declares
    (tables : Tables)
    (size : Nat)
    (ns name : String) :
    Except Malfunction CellId → Tables → Nat → Prop
  | repeated
      (htaken : ((tables ns).get? name).isSome) :
      Declares tables size ns name (.error (.duplicateDeclaration (qualify ns name))) tables size
  | root
      (hns : ns = "")
      (hfree : (tables ns).get? name = none) :
      Declares tables size ns name (.ok size) (tables.add ns name size) (size + 1)
  | collision
      (hns : ns ≠ "")
      (hfree : (tables ns).get? name = none)
      (htaken : ((tables "").get? (qualify ns name)).isSome) :
      Declares tables size ns name (.error (.duplicateDeclaration (qualify ns name)))
        (tables.add ns name size) (size + 1)
  | both
      (hns : ns ≠ "")
      (hfree : (tables ns).get? name = none)
      (hroot : (tables "").get? (qualify ns name) = none) :
      Declares tables size ns name (.ok size)
        ((tables.add ns name size).add "" (qualify ns name) size) (size + 1)

/-- A call that declares a name: any value in any namespace, or a callable in the root. -/
inductive Registration where
  | declare (ns name : String) (v : Value)
  | register (callable : Callable)

namespace Registration

/-- The name of the namespace that the call declares in. -/
def space : Registration → String
  | declare ns _ _ => ns
  | register _ => ""

def name : Registration → String
  | declare _ name _ => name
  | register callable => callable.name

def apply (s : Store) : Registration → Except Malfunction CellId × Store
  | declare ns name v => s.declare ns name v
  | register callable =>
      let (v, s) := s.newCallable callable
      s.declare "" callable.name v

/-- The store after calls, whether they succeed or not. -/
def after (s : Store) (calls : List Registration) : Store :=
  calls.foldl (fun s call => (call.apply s).2) s

/-- The namespace and the name of a call with a given answer, if it has succeeded. -/
def noted (ns name : String) : Except Malfunction CellId → List (String × String)
  | .ok _ => [(ns, name)]
  | .error _ => []

/-- The namespaces and names of the calls that succeed. -/
def accepted (s : Store) : List Registration → List (String × String)
  | [] => []
  | call :: rest => noted call.space call.name (call.apply s).1 ++ accepted (call.apply s).2 rest

end Registration

/-- Tables whose cells are among the first `size` ones. Every entry outside the root has an entry of the
root beside it, under its qualified name, and the two have one cell if the name is in `accepted` and two
cells otherwise. -/
structure Tables.Tied
    (tables : Tables)
    (size : Nat)
    (accepted : List (String × String)) : Prop where
  bounded : ∀ ns name c, (tables ns).get? name = some c → c < size
  declared : ∀ ns name, (ns, name) ∈ accepted → ((tables ns).get? name).isSome
  tied : ∀ ns name c, ns ≠ "" → (tables ns).get? name = some c →
    ∃ d, (tables "").get? (qualify ns name) = some d ∧ (d = c ↔ (ns, name) ∈ accepted)

end Defs

section Tables

variable {s : Store}
variable {ns m : String}
variable {i : Nat}

theorem Bindings.get?_append
    (b : Bindings)
    (name n : String)
    (cell : CellId) :
    Bindings.get? (b ++ [(name, cell)]) n = (b.get? n).or (if n = name then some cell else none) := by
  by_cases h : n = name
  · subst h
    simp [Bindings.get?, List.lookup_append]
  · have h' : (n == name) = false := by simpa using h
    simp [Bindings.get?, List.lookup_append, List.lookup_cons, h, h']

/-- An entry is an old one or the one at the end. -/
theorem Bindings.get?_append_cases
    {b : Bindings}
    {name n : String}
    {cell c : CellId}
    (h : Bindings.get? (b ++ [(name, cell)]) n = some c) :
    b.get? n = some c ∨ n = name ∧ c = cell := by
  rw [Bindings.get?_append] at h
  rcases Option.or_eq_some_iff.mp h with hold | ⟨-, hnew⟩
  · exact Or.inl hold
  · obtain ⟨hn, hc⟩ := Option.ite_none_right_eq_some.mp hnew
    exact Or.inr ⟨hn, (Option.some.inj hc).symm⟩

namespace Tables

theorem add_self
    (tables : Tables)
    (ns name : String)
    (cell : CellId) :
    tables.add ns name cell ns = tables ns ++ [(name, cell)] := by
  simp [add]

theorem add_of_ne
    (tables : Tables)
    (name : String)
    (cell : CellId)
    (h : m ≠ ns) :
    tables.add ns name cell m = tables m := by
  simp [add, h]

end Tables

namespace Store

theorem isRooted_undeclared
    (s : Store) :
    s.undeclared.IsRooted := by
  simp [IsRooted, undeclared, home?, rootNamespace]

theorem table_undeclared
    (s : Store)
    (ns : String) :
    s.undeclared.table ns = [] := by
  by_cases h : "" = ns <;> simp [undeclared, table, home?, entries, h]

theorem table_of_home?
    (h : s.home? ns = some i) :
    s.table ns = s.entries i := by
  simp [table, h]

theorem rootGlobal?_eq
    (h : s.IsRooted)
    (name : String) :
    s.rootGlobal? name = (s.table "").get? name := by
  rw [table_of_home? h]
  rfl

theorem home?_inj
    (hm : s.home? m = some i)
    (hns : s.home? ns = some i) :
    m = ns := by
  obtain ⟨_, hname, -⟩ := Array.findIdx?_eq_some_iff_getElem.mp hm
  obtain ⟨_, hname', -⟩ := Array.findIdx?_eq_some_iff_getElem.mp hns
  exact (eq_of_beq hname).symm.trans (eq_of_beq hname')

/-- A namespace that is made is empty, and comes after all others. -/
theorem namespaceIndex_spec
    (s : Store)
    (ns : String) :
    (s.namespaceIndex ns).2.table = s.table ∧
      (s.namespaceIndex ns).2.home? ns = some (s.namespaceIndex ns).1 ∧
      (s.namespaceIndex ns).2.cells = s.cells ∧
      ∀ m i, s.home? m = some i → (s.namespaceIndex ns).2.home? m = some i := by
  unfold namespaceIndex
  split
  · rename_i i hi
    exact ⟨rfl, hi, rfl, fun _ _ h => h⟩
  · rename_i hnone
    have hpush : ∀ m, ({ s with namespaces := s.namespaces.push ⟨ns, []⟩ } : Store).home? m =
        (s.home? m).or (if ns = m then some s.namespaces.size else none) := by
      intro m
      simp [home?, Array.findIdx?_push]
    refine ⟨funext fun m => ?_, ?_, rfl, fun m i h => ?_⟩
    · simp only [table, hpush]
      cases hm : s.home? m with
      | some i =>
          obtain ⟨hi, -, -⟩ := Array.findIdx?_eq_some_iff_getElem.mp hm
          simp [entries, Array.getElem?_push, Nat.ne_of_lt hi]
      | none =>
          by_cases hns : ns = m
          · simp [entries, hns]
          · simp [hns]
    · rw [hpush, home?, hnone]
      simp
    · rw [hpush, h]
      rfl

@[simp] theorem home?_addEntry
    (s : Store)
    (i : Nat)
    (name : String)
    (cell : CellId)
    (m : String) :
    (s.addEntry i name cell).home? m = s.home? m := by
  have hname : ∀ t : Store, t.home? m = (t.namespaces.map (·.name)).findIdx? (· == m) := by
    intro t
    rw [Array.findIdx?_map]
    rfl
  rw [hname, hname]
  unfold addEntry
  split
  · rename_i n hn
    obtain ⟨hi, rfl⟩ := Array.getElem?_eq_some_iff.mp hn
    have hsame : (s.namespaces.map (·.name)).setIfInBounds i s.namespaces[i].name =
        s.namespaces.map (·.name) := by
      refine Array.ext (by simp) fun j _ _ => ?_
      by_cases hij : i = j
      · subst hij
        simp
      · rw [Array.getElem_setIfInBounds_ne _ hij]
    rw [Array.map_setIfInBounds, hsame]
  · rfl

theorem entries_addEntry
    (s : Store)
    (name : String)
    (cell : CellId)
    (hi : i < s.namespaces.size)
    (j : Nat) :
    (s.addEntry i name cell).entries j =
      if j = i then s.entries j ++ [(name, cell)] else s.entries j := by
  have hn : s.namespaces[i]? = some s.namespaces[i] := Array.getElem?_eq_getElem hi
  by_cases hj : j = i
  · subst hj
    simp [addEntry, entries, hi]
  · simp [addEntry, entries, hn, Ne.symm hj, hj]

theorem table_addEntry
    (h : s.home? ns = some i)
    (name : String)
    (cell : CellId) :
    (s.addEntry i name cell).table = s.table.add ns name cell := by
  obtain ⟨hi, -, -⟩ := Array.findIdx?_eq_some_iff_getElem.mp h
  funext m
  by_cases hm : m = ns
  · subst hm
    rw [Tables.add_self, table_of_home? h, table_of_home? ((s.home?_addEntry i name cell m).trans h),
      entries_addEntry s name cell hi, if_pos rfl]
  · rw [Tables.add_of_ne _ _ _ hm]
    cases hj : s.home? m with
    | none => simp [table, hj]
    | some j =>
        have hne : j ≠ i := fun e => hm (home?_inj hj (e ▸ h))
        rw [table_of_home? hj, table_of_home? ((s.home?_addEntry i name cell m).trans hj),
          entries_addEntry s name cell hi, if_neg hne]

@[simp] theorem isRooted_addEntry
    (s : Store)
    (i : Nat)
    (name : String)
    (cell : CellId) :
    (s.addEntry i name cell).IsRooted ↔ s.IsRooted := by
  simp [IsRooted]

theorem cells_addEntry
    (s : Store)
    (i : Nat)
    (name : String)
    (cell : CellId) :
    (s.addEntry i name cell).cells = s.cells := by
  unfold addEntry
  split <;> rfl

@[simp] theorem home?_allocate
    (s : Store)
    (v : Value)
    (m : String) :
    (s.allocate v).2.home? m = s.home? m := rfl

/-- Namespaces keep their places. -/
theorem home?_declare
    (h : s.home? m = some i)
    (ns name : String)
    (v : Value) :
    (s.declare ns name v).2.home? m = some i := by
  obtain ⟨-, -, -, hkeep⟩ := s.namespaceIndex_spec ns
  have hm := hkeep m i h
  simp only [declare]
  split
  · exact hm
  · split
    · simpa using hm
    · split <;> simpa using hm

/-- Every declaration goes one of the four ways. -/
theorem declares_declare
    (hs : s.IsRooted)
    (ns name : String)
    (v : Value) :
    s.table.Declares s.cells.size ns name (s.declare ns name v).1 (s.declare ns name v).2.table
      (s.declare ns name v).2.cells.size := by
  obtain ⟨htable, hhome, hcells, hkeep⟩ := s.namespaceIndex_spec ns
  have hrooted : (s.namespaceIndex ns).2.IsRooted := hkeep "" _ hs
  simp only [declare]
  generalize (s.namespaceIndex ns).1 = home at htable hhome hcells hrooted
  generalize (s.namespaceIndex ns).2 = t at htable hhome hcells hrooted
  have hglobal : t.global? home name = (s.table ns).get? name := by
    rw [global?, ← table_of_home? hhome, htable]
  have hcell : (t.allocate v).1 = s.cells.size := congrArg Array.size hcells
  have hentry : ((t.allocate v).2.addEntry home name s.cells.size).table =
      s.table.add ns name s.cells.size := by
    rw [table_addEntry (s := (t.allocate v).2) hhome, ← htable]
    rfl
  have hsize : (t.allocate v).2.cells.size = s.cells.size + 1 := by
    rw [size_allocate, hcells]
  rw [hglobal, hcell]
  by_cases htaken : ((s.table ns).get? name).isSome
  · rw [if_pos htaken, htable, hcells]
    exact .repeated htaken
  · have hfree : (s.table ns).get? name = none := by simpa using htaken
    rw [if_neg htaken]
    by_cases hns : ns = ""
    · rw [if_pos hns, hentry, cells_addEntry, hsize]
      exact .root hns hfree
    · have hrooted' : ((t.allocate v).2.addEntry home name s.cells.size).IsRooted :=
        (isRooted_addEntry _ _ _ _).mpr hrooted
      have hroot : ((t.allocate v).2.addEntry home name s.cells.size).rootGlobal? (qualify ns name) =
          (s.table "").get? (qualify ns name) := by
        rw [rootGlobal?_eq hrooted', hentry, Tables.add_of_ne _ _ _ (Ne.symm hns)]
      rw [if_neg hns, hroot]
      by_cases hcollides : ((s.table "").get? (qualify ns name)).isSome
      · rw [if_pos hcollides, hentry, cells_addEntry, hsize]
        exact .collision hns hfree hcollides
      · have hnone : (s.table "").get? (qualify ns name) = none := by simpa using hcollides
        rw [if_neg hcollides, cells_addEntry, cells_addEntry, hsize, table_addEntry hrooted', hentry]
        exact .both hns hfree hnone

end Store

end Tables

section Registrations

variable {s : Store}
variable {tables : Tables}
variable {size : Nat}
variable {ns name : String}
variable {known : List (String × String)}

namespace Tables

theorem get?_add_eq_some
    {m n : String}
    {c : CellId}
    (h : (tables m).get? n = some c)
    (ns name : String)
    (cell : CellId) :
    (tables.add ns name cell m).get? n = some c := by
  by_cases hm : m = ns
  · rw [hm, add_self, Bindings.get?_append, ← hm, h]
    rfl
  · rw [add_of_ne _ _ _ hm, h]

theorem get?_add_cases
    {m n : String}
    {c cell : CellId}
    (h : (tables.add ns name cell m).get? n = some c) :
    (tables m).get? n = some c ∨ m = ns ∧ n = name ∧ c = cell := by
  by_cases hm : m = ns
  · subst hm
    rw [add_self] at h
    rcases Bindings.get?_append_cases h with hold | hnew
    · exact Or.inl hold
    · exact Or.inr ⟨rfl, hnew⟩
  · rw [add_of_ne _ _ _ hm] at h
    exact Or.inl h

theorem get?_add_new
    (hfree : (tables ns).get? name = none)
    (cell : CellId) :
    (tables.add ns name cell ns).get? name = some cell := by
  rw [add_self, Bindings.get?_append, hfree]
  simp

namespace Tied

theorem bounded_add
    (h : tables.Tied size known)
    {m n : String}
    {c : CellId}
    (hc : (tables.add ns name size m).get? n = some c) :
    c < size + 1 := by
  rcases get?_add_cases hc with hold | ⟨-, -, rfl⟩
  · exact Nat.lt_succ_of_lt (h.bounded _ _ _ hold)
  · exact Nat.lt_succ_self _

theorem declared_add
    (h : tables.Tied size known)
    (hfree : (tables ns).get? name = none)
    {m n : String}
    (hmem : (m, n) ∈ known ++ [(ns, name)])
    (cell : CellId) :
    ((tables.add ns name cell m).get? n).isSome := by
  rcases List.mem_append.mp hmem with hold | hnew
  · obtain ⟨c, hc⟩ := Option.isSome_iff_exists.mp (h.declared m n hold)
    rw [get?_add_eq_some hc]
    rfl
  · obtain ⟨rfl, rfl⟩ := Prod.mk.inj (List.mem_singleton.mp hnew)
    rw [get?_add_new hfree]
    rfl

/-- An entry of the root alone. -/
theorem root
    (h : tables.Tied size known)
    (hfree : (tables "").get? name = none) :
    (tables.add "" name size).Tied (size + 1) (known ++ [("", name)]) where
  bounded := fun _ _ _ => h.bounded_add
  declared := fun _ _ hmem => h.declared_add hfree hmem size
  tied := fun m n c hm hc => by
    rw [add_of_ne _ _ _ hm] at hc
    obtain ⟨d, hd, hiff⟩ := h.tied m n c hm hc
    exact ⟨d, get?_add_eq_some hd _ _ _, by simpa [hm] using hiff⟩

/-- An entry that is in the way of its qualified name has a cell of its own. -/
theorem collision
    (h : tables.Tied size known)
    (hns : ns ≠ "")
    (hfree : (tables ns).get? name = none)
    (htaken : ((tables "").get? (qualify ns name)).isSome) :
    (tables.add ns name size).Tied (size + 1) known where
  bounded := fun _ _ _ => h.bounded_add
  declared := fun _ _ hmem => h.declared_add hfree (List.mem_append_left _ hmem) size
  tied := fun m n c hm hc => by
    rw [add_of_ne _ _ _ (Ne.symm hns)]
    rcases get?_add_cases hc with hold | ⟨rfl, rfl, rfl⟩
    · exact h.tied m n c hm hold
    · obtain ⟨d, hd⟩ := Option.isSome_iff_exists.mp htaken
      have hne : d ≠ c := Nat.ne_of_lt (h.bounded _ _ _ hd)
      have hnew : (m, n) ∉ known := fun hmem => by simpa [hfree] using h.declared m n hmem
      exact ⟨d, hd, iff_of_false hne hnew⟩

/-- An entry outside the root together with one under its qualified name. -/
theorem both
    (h : tables.Tied size known)
    (hns : ns ≠ "")
    (hfree : (tables ns).get? name = none)
    (hroot : (tables "").get? (qualify ns name) = none) :
    ((tables.add ns name size).add "" (qualify ns name) size).Tied (size + 1)
      (known ++ [(ns, name)]) where
  bounded := fun m n c hc => by
    rcases get?_add_cases hc with hold | ⟨-, -, rfl⟩
    · exact h.bounded_add hold
    · exact Nat.lt_succ_self _
  declared := fun m n hmem => by
    obtain ⟨c, hc⟩ := Option.isSome_iff_exists.mp (h.declared_add hfree hmem size)
    rw [get?_add_eq_some hc]
    rfl
  tied := fun m n c hm hc => by
    rw [add_of_ne _ _ _ hm] at hc
    rcases get?_add_cases hc with hold | ⟨rfl, rfl, rfl⟩
    · obtain ⟨d, hd, hiff⟩ := h.tied m n c hm hold
      have hother : (m, n) ≠ (ns, name) := fun e => by
        obtain ⟨rfl, rfl⟩ := Prod.mk.inj e
        simp [hfree] at hold
      refine ⟨d, get?_add_eq_some (get?_add_eq_some hd _ _ _) _ _ _, ?_⟩
      rw [List.mem_append, List.mem_singleton, or_iff_left hother]
      exact hiff
    · refine ⟨c, get?_add_new ?_ c, by simp⟩
      rw [add_of_ne _ _ _ (Ne.symm hns)]
      exact hroot

end Tied

end Tables

/-- What a declaration does to the tie between the tables. -/
theorem Tables.Declares.tied
    {answer : Except Malfunction CellId}
    {after : Tables}
    {total : Nat}
    (h : tables.Declares size ns name answer after total)
    (htied : tables.Tied size known) :
    after.Tied total (known ++ Registration.noted ns name answer) := by
  cases h with
  | repeated htaken => simpa [Registration.noted] using htied
  | root hns hfree =>
      subst hns
      exact htied.root hfree
  | collision hns hfree htaken => simpa [Registration.noted] using htied.collision hns hfree htaken
  | both hns hfree hroot => exact htied.both hns hfree hroot

namespace Registration

theorem declares_apply
    (hs : s.IsRooted)
    (call : Registration) :
    s.table.Declares s.cells.size call.space call.name (call.apply s).1 (call.apply s).2.table
      (call.apply s).2.cells.size := by
  cases call with
  | declare ns name v => exact Store.declares_declare hs ns name v
  | register callable => exact Store.declares_declare (s := (s.newCallable callable).2) hs _ _ _

theorem isRooted_apply
    (hs : s.IsRooted)
    (call : Registration) :
    (call.apply s).2.IsRooted := by
  cases call with
  | declare ns name v => exact Store.home?_declare hs ns name v
  | register callable => exact Store.home?_declare (s := (s.newCallable callable).2) hs _ _ _

theorem tied_after
    (hrooted : s.IsRooted)
    (hs : s.table.Tied s.cells.size known)
    (calls : List Registration) :
    (after s calls).IsRooted ∧
      (after s calls).table.Tied (after s calls).cells.size
        (known ++ accepted s calls) := by
  induction calls generalizing s known with
  | nil => exact ⟨hrooted, by simpa [accepted, after] using hs⟩
  | cons call rest ih =>
      have hnext := (declares_apply hrooted call).tied hs
      have hrest := ih (isRooted_apply hrooted call) hnext
      rwa [List.append_assoc] at hrest

theorem tied_undeclared
    (s : Store) :
    s.undeclared.table.Tied s.undeclared.cells.size [] where
  bounded := fun ns name c hc => by simp [Store.table_undeclared, Bindings.get?] at hc
  declared := fun ns name hmem => by cases hmem
  tied := fun ns name c _ hc => by simp [Store.table_undeclared, Bindings.get?] at hc

/-- After any calls: a call that fails leaves all tables as they are if its name is in its own namespace
already, and otherwise leaves its entry behind, because its qualified name is taken in the root. Every
entry outside the root has one of the root beside it, with the same cell exactly if it was accepted. -/
theorem after_tables
    (s : Store)
    (calls : List Registration) :
    let t := after s.undeclared calls
    (∀ call m, (apply t call).1 = .error m →
      ((t.table call.space).get? call.name).isSome ∧ (call.apply t).2.table = t.table ∨
      (t.table call.space).get? call.name = none ∧
        call.space ≠ "" ∧
        ((t.table "").get? (qualify call.space call.name)).isSome ∧
        (call.apply t).2.table = t.table.add call.space call.name t.cells.size) ∧
    ∀ ns name c, ns ≠ "" → (t.table ns).get? name = some c →
      ∃ d, (t.table "").get? (qualify ns name) = some d ∧
        (d = c ↔ (ns, name) ∈ accepted s.undeclared calls) := by
  intro t
  obtain ⟨hrooted, htied⟩ := tied_after s.isRooted_undeclared (tied_undeclared s) calls
  refine ⟨fun call m hm => ?_, htied.tied⟩
  have hdeclares := declares_apply hrooted call
  rw [hm] at hdeclares
  generalize (call.apply t).2.table = tables at hdeclares
  generalize (call.apply t).2.cells.size = size at hdeclares
  cases hdeclares with
  | repeated htaken => exact Or.inl ⟨htaken, rfl⟩
  | collision hns hfree htaken => exact Or.inr ⟨hfree, hns, htaken, rfl⟩

/-- `c` in the namespace `a::b` and `b::c` in the namespace `a` have one qualified name. The second of them
fails, and stays in its namespace with a cell of its own. -/
theorem after_collision :
    let t := after ({} : Store).undeclared [.declare "a::b" "c" .nil]
    let call := declare "a" "b::c" .nil
    (apply t call).1 = .error (.duplicateDeclaration "a::b::c") ∧
      t.table "a" = [] ∧
      (apply t call).2.table "a" = [("b::c", 1)] ∧
      ((apply t call).2.table "").get? (qualify "a" "b::c") = some 0 := by
  refine ⟨?_, ?_, ?_, ?_⟩
  · cbv
  · decide +kernel
  · decide +kernel
  · decide +kernel

end Registration

end Registrations

end GoalDirected
