import GoalDirected.Proofs.Schedule.Status
import Mathlib.Data.List.Nodup
import Mathlib.Data.Set.Finite.Basic
import Mathlib.Order.WellFounded

/-!
# Soundness and exactness of the order of initialization

**Input.**  Any list of items.  Names may repeat, and dependencies may be unknown, may refer to the
item itself and may form cycles.

**Argument.**  `Graph.Pending` is the invariant of the loop: items that are done reach no pending
initializer, and every item that leads to an initializer on a cycle is still pending.  A chosen item
keeps it, whether the item was ready or only waited on procedures.  When nothing can be chosen, every
pending item reaches a pending initializer, so that in a finite list one of these reaches itself.

**Results.**
* `order_eq_ok_sound`: an order holds every item once, and after the initializers it reaches.
* `order_eq_error_iff`: there is an order unless an initializer reaches itself, and the fault names
  exactly the items that lead to such an initializer.
-/

namespace GoalDirected
namespace Schedule

section Cycles

/-- In a finite list in which every element leads to another one, every element leads to one that
leads to itself. -/
theorem exists_self_of_forall_exists
    {r : Nat → Nat → Prop} {l : List Nat}
    (htrans : ∀ a b c, r a b → r b c → r a c)
    (hnext : ∀ a, a ∈ l → ∃ b, b ∈ l ∧ r a b)
    {i : Nat} (hi : i ∈ l) :
    ∃ j, r i j ∧ r j j := by
  by_contra hnone
  have hirrefl : ∀ j, r i j → ¬ r j j := fun j hij hjj => hnone ⟨j, hij, hjj⟩
  -- Without such an element `r` is well-founded upwards on what `i` leads to.
  let S : Type := { j : Nat // j ∈ l ∧ r i j }
  let above : S → S → Prop := fun a b => r b.1 a.1
  have hfinite : Finite S := Set.Finite.subset l.finite_toSet fun j hj => hj.1
  have hT : IsTrans S above := ⟨fun a b c hab hbc => htrans _ _ _ hbc hab⟩
  have hI : Std.Irrefl above := ⟨fun a => hirrefl a.1 a.2.2⟩
  have hwf : WellFounded above := Finite.wellFounded_of_trans_of_irrefl above
  obtain ⟨b, hb, hib⟩ := hnext i hi
  obtain ⟨m, _, hmax⟩ := hwf.has_min Set.univ ⟨⟨b, hb, hib⟩, trivial⟩
  obtain ⟨c, hc, hmc⟩ := hnext m.1 m.2.1
  exact hmax ⟨c, hc, htrans _ _ _ m.2.2 hmc⟩ trivial hmc

end Cycles

namespace Graph

section Loop

/-- Item `i` leads to an initializer that reaches itself. -/
def Blocked (g : Graph) (i : Nat) : Prop :=
  ∃ j, g.hasInit j = true ∧ g.Reaches j j ∧ g.Reaches i j

/-- What holds of the pending items before every round of the loop. -/
structure Pending (g : Graph) (pending : List Nat) : Prop where
  nodup : pending.Nodup
  closed : g.Closed pending
  blocked : ∀ k, g.Blocked k → k ∈ pending

theorem lt_size_of_edge
    {g : Graph} {i j : Nat}
    (h : g.Edge i j) :
    i < g.size := by
  by_contra hle
  have hnone : g[i]? = none := Array.getElem?_eq_none (Nat.le_of_not_lt hle)
  simp [Edge, deps, hnone] at h

theorem lt_size_of_reaches
    {g : Graph} {i j : Nat}
    (h : g.Reaches i j) :
    i < g.size := by
  obtain ⟨k, hedge, _⟩ := Relation.TransGen.head'_iff.mp h
  exact lt_size_of_edge hedge

theorem lt_size_of_hasInit
    {g : Graph} {i : Nat}
    (h : g.hasInit i = true) :
    i < g.size := by
  by_contra hle
  have hnone : g[i]? = none := Array.getElem?_eq_none (Nat.le_of_not_lt hle)
  simp [hasInit, hnone] at h

/-- At the start everything is pending. -/
theorem pending_range (g : Graph) : g.Pending (List.range g.size) where
  nodup := List.nodup_range
  closed := by
    intro k hk j _ _ hreach
    exact hk (List.mem_range.mpr (lt_size_of_reaches hreach))
  blocked := by
    rintro k ⟨j, _, _, hreach⟩
    exact List.mem_range.mpr (lt_size_of_reaches hreach)

theorem next?_eq_some
    {g : Graph} {pending : List Nat} {i : Nat}
    (h : g.next? pending = some i) :
    i ∈ pending ∧ g.status pending i ≠ .waitingOnGlobal := by
  rcases Option.or_eq_some_iff.mp h with hready | ⟨_, hproc⟩
  · have hstatus := List.find?_some hready
    simp only [decide_eq_true_eq] at hstatus
    exact ⟨List.mem_of_find?_eq_some hready, by simp [hstatus]⟩
  · have hstatus := List.find?_some hproc
    simp only [decide_eq_true_eq] at hstatus
    exact ⟨List.mem_of_find?_eq_some hproc, by simp [hstatus]⟩

theorem next?_eq_none
    {g : Graph} {pending : List Nat} {i : Nat}
    (h : g.next? pending = none)
    (hi : i ∈ pending) :
    g.status pending i = .waitingOnGlobal := by
  obtain ⟨hready, hproc⟩ := Option.or_eq_none_iff.mp h
  have h₁ := List.find?_eq_none.mp hready i hi
  have h₂ := List.find?_eq_none.mp hproc i hi
  cases hstatus : g.status pending i with
  | ready => simp [hstatus] at h₁
  | waitingOnProcedure => simp [hstatus] at h₂
  | waitingOnGlobal => rfl

/-- The item that comes next reaches no pending initializer, itself included. -/
theorem Pending.not_reaches_next
    {g : Graph} {pending : List Nat} {i j : Nat}
    (hp : g.Pending pending)
    (hnext : g.next? pending = some i)
    (hj : j ∈ pending)
    (hinit : g.hasInit j = true) :
    ¬ g.Reaches i j := by
  intro hreach
  exact (next?_eq_some hnext).2
    (status_eq_waitingOnGlobal_of_reaches hp.closed hj hinit hreach)

theorem Pending.not_blocked_next
    {g : Graph} {pending : List Nat} {i : Nat}
    (hp : g.Pending pending)
    (hnext : g.next? pending = some i) :
    ¬ g.Blocked i := by
  rintro ⟨j, hinit, hself, hreach⟩
  exact hp.not_reaches_next hnext (hp.blocked j ⟨j, hinit, hself, hself⟩) hinit hreach

/-- One round keeps the invariant. -/
theorem Pending.erase
    {g : Graph} {pending : List Nat} {i : Nat}
    (hp : g.Pending pending)
    (hnext : g.next? pending = some i) :
    g.Pending (pending.erase i) where
  nodup := hp.nodup.erase i
  closed := by
    intro k hk j hj hinit
    have hj' : j ∈ pending := List.mem_of_mem_erase hj
    by_cases hki : k = i
    · rw [hki]
      exact hp.not_reaches_next hnext hj' hinit
    · exact hp.closed k (fun h => hk ((List.mem_erase_of_ne hki).mpr h)) j hj' hinit
  blocked := by
    intro k hk
    have hki : k ≠ i := by
      rintro rfl
      exact hp.not_blocked_next hnext hk
    exact (List.mem_erase_of_ne hki).mpr (hp.blocked k hk)

/-- When the loop is stuck, exactly the blocked items are pending. -/
theorem Pending.blocked_iff_of_next?_eq_none
    {g : Graph} {pending : List Nat}
    (hp : g.Pending pending)
    (hnone : g.next? pending = none)
    (i : Nat) :
    i ∈ pending ↔ g.Blocked i := by
  constructor
  · intro hi
    have hleads : ∀ a, a ∈ pending → ∃ b, b ∈ pending ∧ g.Reaches a b ∧ g.hasInit b = true := by
      intro a ha
      obtain ⟨b, hb, hinit, hreach⟩ :=
        exists_reaches_of_status_eq_waitingOnGlobal ha (next?_eq_none hnone ha)
      exact ⟨b, hb, hreach, hinit⟩
    obtain ⟨j, ⟨hij, hinit⟩, hjj, _⟩ :=
      exists_self_of_forall_exists (r := fun a b => g.Reaches a b ∧ g.hasInit b = true)
        (fun a b c hab hbc => ⟨hab.1.trans hbc.1, hbc.2⟩) hleads hi
    exact ⟨j, hinit, hjj, hij⟩
  · exact hp.blocked i

/-- The loop ends by itself: rounds beyond the number of pending items are not used. -/
theorem orderFrom_eq_of_length_le
    (g : Graph) (pending : List Nat) (rounds : Nat)
    (h : pending.length ≤ rounds) :
    g.orderFrom rounds pending = g.orderFrom pending.length pending := by
  induction rounds generalizing pending with
  | zero =>
      rw [Nat.le_zero.mp h]
  | succ rounds ih =>
      cases pending with
      | nil =>
          simp [orderFrom, next?]
      | cons a rest =>
          simp only [orderFrom, List.length_cons]
          cases hnext : g.next? (a :: rest) with
          | none => rfl
          | some i =>
              have hlen : ((a :: rest).erase i).length = rest.length := by
                rw [List.length_erase_of_mem (next?_eq_some hnext).1]
                rfl
              have hrest := ih ((a :: rest).erase i) (by rw [hlen]; simpa using h)
              rw [hlen] at hrest
              simp only [hrest]

/-- What a run of the loop gives: every item once, after the initializers that it reaches. -/
theorem Pending.orderFrom_eq_ok
    {g : Graph} {rounds : Nat} {pending out : List Nat}
    (hp : g.Pending pending)
    (hlen : pending.length ≤ rounds)
    (h : g.orderFrom rounds pending = .ok out) :
    out.Perm pending ∧
      ∀ i j, i ∈ pending → j ∈ pending → g.hasInit j = true → g.Reaches i j →
        [j, i].Sublist out := by
  induction rounds generalizing pending out with
  | zero =>
      have hnil : pending = [] := List.length_eq_zero_iff.mp (Nat.le_zero.mp hlen)
      subst hnil
      simp only [orderFrom, Except.ok.injEq] at h
      subst h
      exact ⟨List.Perm.refl _, by simp⟩
  | succ rounds ih =>
      simp only [orderFrom] at h
      cases hnext : g.next? pending with
      | none =>
          simp only [hnext] at h
          split at h
          · rename_i hempty
            have hnil : pending = [] := List.isEmpty_iff.mp hempty
            subst hnil
            simp only [Except.ok.injEq] at h
            subst h
            exact ⟨List.Perm.refl _, by simp⟩
          · cases h
      | some i =>
          simp only [hnext] at h
          have hi := (next?_eq_some hnext).1
          cases hrest : g.orderFrom rounds (pending.erase i) with
          | error stuck =>
              rw [hrest] at h
              cases h
          | ok rest =>
              rw [hrest] at h
              simp only [Except.map, Except.ok.injEq] at h
              subst h
              have hlen' : (pending.erase i).length ≤ rounds := by
                rw [List.length_erase_of_mem hi]
                omega
              obtain ⟨hperm, hbefore⟩ := ih (hp.erase hnext) hlen' hrest
              refine ⟨(hperm.cons i).trans (List.perm_cons_erase hi).symm, ?_⟩
              intro a b ha hb hinit hreach
              have hai : a ≠ i := by
                rintro rfl
                exact hp.not_reaches_next hnext hb hinit hreach
              have ha' : a ∈ pending.erase i := (List.mem_erase_of_ne hai).mpr ha
              by_cases hbi : b = i
              · subst hbi
                exact List.Sublist.cons_cons b (List.singleton_sublist.mpr (hperm.mem_iff.mpr ha'))
              · exact (hbefore a b ha' ((List.mem_erase_of_ne hbi).mpr hb) hinit hreach).cons i

/-- What a run of the loop that gets stuck leaves: the blocked items, in their order. -/
theorem Pending.orderFrom_eq_error
    {g : Graph} {rounds : Nat} {pending stuck : List Nat}
    (hp : g.Pending pending)
    (h : g.orderFrom rounds pending = .error stuck) :
    stuck.Sublist pending ∧ (∀ i, i ∈ stuck ↔ g.Blocked i) ∧ stuck ≠ [] := by
  induction rounds generalizing pending with
  | zero =>
      simp [orderFrom] at h
  | succ rounds ih =>
      simp only [orderFrom] at h
      cases hnext : g.next? pending with
      | none =>
          simp only [hnext] at h
          split at h
          · cases h
          · rename_i hempty
            simp only [Except.error.injEq] at h
            subst h
            refine ⟨List.Sublist.refl _, hp.blocked_iff_of_next?_eq_none hnext, ?_⟩
            simpa using hempty
      | some i =>
          simp only [hnext] at h
          cases hrest : g.orderFrom rounds (pending.erase i) with
          | ok rest =>
              rw [hrest] at h
              cases h
          | error stuck' =>
              rw [hrest] at h
              simp only [Except.map, Except.error.injEq] at h
              subst h
              obtain ⟨hsub, hiff, hne⟩ := ih (hp.erase hnext) hrest
              exact ⟨hsub.trans List.erase_sublist, hiff, hne⟩

end Loop

end Graph

section Items

variable {α : Type}

/-- Item `i` has a dependency whose name stands for item `j`: the first item of that name. -/
def DependsOn (items : List (Item α)) (i j : Nat) : Prop :=
  ∃ item, items[i]? = some item ∧ ∃ name, name ∈ item.deps ∧ index? items name = some j

/-- Item `i` leads to item `j` by one or more dependencies. -/
def Reaches (items : List (Item α)) (i j : Nat) : Prop :=
  Relation.TransGen (DependsOn items) i j

/-- Item `i` has something to run. -/
def IsInitializer (items : List (Item α)) (i : Nat) : Prop :=
  ∃ item, items[i]? = some item ∧ item.init.isSome = true

/-- Item `i` leads to an initializer that leads to itself. -/
def IsBlocked (items : List (Item α)) (i : Nat) : Prop :=
  ∃ j, IsInitializer items j ∧ Reaches items j j ∧ Reaches items i j

open Classical in
/-- The names of all blocked items, in the order of their declaration. -/
noncomputable def blockedNames (items : List (Item α)) : List String :=
  (pick items ((List.range items.length).filter fun i => IsBlocked items i)).map (·.name)

@[simp] theorem size_graph (items : List (Item α)) : (graph items).size = items.length := by
  simp [graph]

theorem getElem?_graph (items : List (Item α)) (i : Nat) :
    (graph items)[i]? =
      items[i]?.map fun item => ⟨item.init.isSome, item.deps.filterMap (index? items)⟩ := by
  simp [graph]

theorem edge_graph_iff (items : List (Item α)) (i j : Nat) :
    (graph items).Edge i j ↔ DependsOn items i j := by
  unfold Graph.Edge Graph.deps DependsOn
  rw [getElem?_graph]
  cases items[i]? with
  | none => simp
  | some item => simp [List.mem_filterMap]

theorem reaches_graph_iff (items : List (Item α)) (i j : Nat) :
    (graph items).Reaches i j ↔ Reaches items i j := by
  have hedge : (graph items).Edge = DependsOn items := by
    funext a b
    exact propext (edge_graph_iff items a b)
  unfold Graph.Reaches Reaches
  rw [hedge]

theorem hasInit_graph_iff (items : List (Item α)) (i : Nat) :
    (graph items).hasInit i = true ↔ IsInitializer items i := by
  unfold Graph.hasInit IsInitializer
  rw [getElem?_graph]
  cases items[i]? with
  | none => simp
  | some item => simp

theorem blocked_graph_iff (items : List (Item α)) (i : Nat) :
    (graph items).Blocked i ↔ IsBlocked items i := by
  simp only [Graph.Blocked, IsBlocked, reaches_graph_iff, hasInit_graph_iff]

theorem pick_range (items : List (Item α)) : pick items (List.range items.length) = items := by
  induction items with
  | nil =>
      rfl
  | cons item rest ih =>
      rw [List.length_cons, List.range_succ_eq_map]
      simpa [pick, List.filterMap_map, Function.comp_def] using ih

/-- No index of an item is passed over: the items stand where their indices stand. -/
theorem map_some_pick
    {items : List (Item α)} {indices : List Nat}
    (h : ∀ i, i ∈ indices → i < items.length) :
    (pick items indices).map some = indices.map fun i => items[i]? := by
  induction indices with
  | nil =>
      rfl
  | cons i rest ih =>
      have hi : items[i]? = some (items.get ⟨i, h i (by simp)⟩) :=
        List.getElem?_eq_getElem (h i (by simp))
      have hrest := ih fun k hk => h k (List.mem_cons_of_mem _ hk)
      simp only [pick] at hrest ⊢
      simp only [List.filterMap_cons, hi, List.map_cons, hrest]

/-- **Soundness.**  An order holds every item exactly once and unchanged, and every initializer that
an item leads to stands strictly before the item. -/
theorem order_eq_ok_sound
    {items out : List (Item α)}
    (h : order items = .ok out) :
    out.Perm items ∧
      ∃ indices : List Nat,
        indices.Perm (List.range items.length) ∧
        out.map some = indices.map (fun i => items[i]?) ∧
        ∀ i j, IsInitializer items j → Reaches items i j → [j, i].Sublist indices := by
  unfold order at h
  cases horder : (graph items).order with
  | error stuck =>
      simp [horder] at h
  | ok indices =>
      simp only [horder, Except.ok.injEq] at h
      subst h
      obtain ⟨hperm, hbefore⟩ :=
        (graph items).pending_range.orderFrom_eq_ok (by simp) horder
      rw [size_graph] at hperm
      have hlt : ∀ i, i ∈ indices → i < items.length := fun i hi =>
        List.mem_range.mp (hperm.mem_iff.mp hi)
      refine ⟨?_, indices, hperm, map_some_pick hlt, ?_⟩
      · calc (pick items indices).Perm (pick items (List.range items.length)) :=
              hperm.filterMap _
          _ = items := pick_range items
      · intro i j hinit hreach
        have hinit' := (hasInit_graph_iff items j).mpr hinit
        have hreach' := (reaches_graph_iff items i j).mpr hreach
        exact hbefore i j (List.mem_range.mpr (Graph.lt_size_of_reaches hreach'))
          (List.mem_range.mpr (Graph.lt_size_of_hasInit hinit')) hinit' hreach'

/-- A global reaches a later one through a procedure that also refers to itself. -/
theorem order_eq_ok_sound_through_procedure :
    let items : List (Item Unit) :=
      [⟨"x", some (), ["f", "write"]⟩, ⟨"f", none, ["y", "f"]⟩, ⟨"y", some (), []⟩]
    let out : List (Item Unit) :=
      [⟨"y", some (), []⟩, ⟨"f", none, ["y", "f"]⟩, ⟨"x", some (), ["f", "write"]⟩]
    order items = .ok out ∧ Reaches items 0 2 ∧
      ∃ indices : List Nat,
        indices.Perm (List.range items.length) ∧
        out.map some = indices.map (fun i => items[i]?) ∧
        [2, 0].Sublist indices := by
  intro items out
  have h : order items = .ok out := by cbv
  have hreach : Reaches items 0 2 := by
    have hxf : DependsOn items 0 1 := ⟨_, rfl, "f", by simp, by cbv⟩
    have hfy : DependsOn items 1 2 := ⟨_, rfl, "y", by simp, by cbv⟩
    exact Relation.TransGen.tail (Relation.TransGen.single hxf) hfy
  obtain ⟨_, indices, hperm, hout, hbefore⟩ := order_eq_ok_sound h
  exact ⟨h, hreach, indices, hperm, hout, hbefore 0 2 ⟨_, rfl, rfl⟩ hreach⟩

/-- If the loop gets stuck, there is a cycle, and the stuck items are the blocked ones in the order
of their declaration. -/
theorem names_of_graph_order_eq_error
    {items : List (Item α)} {stuck : List Nat}
    (h : (graph items).order = .error stuck) :
    (∃ i, IsInitializer items i ∧ Reaches items i i) ∧
      (pick items stuck).map (·.name) = blockedNames items := by
  classical
  obtain ⟨hsub, hiff, hne⟩ := (graph items).pending_range.orderFrom_eq_error h
  rw [size_graph] at hsub
  simp only [blocked_graph_iff] at hiff
  constructor
  · obtain ⟨i, hi⟩ := List.exists_mem_of_ne_nil stuck hne
    obtain ⟨j, hinit, hself, _⟩ := (hiff i).mp hi
    exact ⟨j, hinit, hself⟩
  · have hkept : (stuck.filter fun i => IsBlocked items i) = stuck :=
      List.filter_eq_self.mpr fun i hi => by simpa using (hiff i).mp hi
    have hsub' := hsub.filter fun i => decide (IsBlocked items i)
    rw [hkept] at hsub'
    have hall : (List.range items.length).filter (fun i => IsBlocked items i) ⊆ stuck := by
      intro i hi
      exact (hiff i).mpr (by simpa using (List.mem_filter.mp hi).2)
    have hnodup := (List.nodup_range (n := items.length)).filter fun i => decide (IsBlocked items i)
    have hfilter := hsub'.eq_of_length_le (List.subperm_of_subset hnodup hall).length_le
    rw [hfilter]
    rfl

/-- **Exactness.**  The loop ends by itself within one round for each item.  There is no order
exactly if an initializer leads to itself, and the fault then names exactly the items that lead to
such an initializer. -/
theorem order_eq_error_iff (items : List (Item α)) :
    (∀ rounds, items.length ≤ rounds →
        (graph items).orderFrom rounds (List.range items.length) = (graph items).order) ∧
      ∀ fault, order items = .error fault
        ↔
      (∃ i, IsInitializer items i ∧ Reaches items i i) ∧
        fault = .exception (.circular (blockedNames items)) ((blockedNames items).map .text) := by
  constructor
  · intro rounds hrounds
    have hlen : (List.range items.length).length ≤ rounds := by simpa using hrounds
    rw [Graph.orderFrom_eq_of_length_le _ _ _ hlen, Graph.order]
    simp
  · intro fault
    constructor
    · intro h
      unfold order at h
      cases horder : (graph items).order with
      | ok indices =>
          simp [horder] at h
      | error stuck =>
          obtain ⟨hcycle, hnames⟩ := names_of_graph_order_eq_error horder
          simp only [horder, hnames, Except.error.injEq] at h
          exact ⟨hcycle, h.symm⟩
    · rintro ⟨⟨i, hinit, hself⟩, rfl⟩
      cases horder : (graph items).order with
      | ok indices =>
          -- An order would hold the initializer before itself.
          have hinit' := (hasInit_graph_iff items i).mpr hinit
          have hself' := (reaches_graph_iff items i i).mpr hself
          have hi := List.mem_range.mpr (Graph.lt_size_of_hasInit hinit')
          obtain ⟨hperm, hbefore⟩ :=
            (graph items).pending_range.orderFrom_eq_ok (by simp) horder
          have htwice : [i, i].Nodup :=
            (hbefore i i hi hi hinit' hself').nodup (hperm.nodup_iff.mpr List.nodup_range)
          simp at htwice
      | error stuck =>
          obtain ⟨_, hnames⟩ := names_of_graph_order_eq_error horder
          simp only [order, horder, hnames]

example :
    order [⟨"x", some (), ["f"]⟩, ⟨"f", none, ["x"]⟩, ⟨"c", some (), []⟩] =
      .error (.exception (.circular ["x", "f"]) [.text "x", .text "f"]) := by
  cbv

end Items

end Schedule
end GoalDirected
