import GoalDirected.Proofs.Schedule.Order

/-!
# Declaration order

**Input.**  A list of items whose dependencies form no cycle, apart from items without an initializer that list
themselves.

**Argument.**  Without cycles some pending item has nothing before it that is pending, so the loop always takes a
ready one, and takes the first.  Any other admissible order starts with a ready item as well, which stands at the
same place of the declaration or further back.

**Results.**
* `Graph.status_eq_ready_iff`: an item is ready exactly if none of its other dependencies is pending.
* `Graph.orderFrom_least`: the loop gives the lexicographically least of the admissible orders.
* `order_least`: so does `order`, and it keeps a list in which dependencies only lead to earlier items.
-/

namespace GoalDirected
namespace Schedule

namespace Graph

section Least

/-- Item `i` lists another item `j`. -/
def Needs (g : Graph) (i j : Nat) : Prop :=
  g.Edge i j ∧ i ≠ j

/-- There are no cycles but procedures that list themselves. -/
structure Acyclic (g : Graph) : Prop where
  initializers : ∀ i, g.hasInit i = true → ¬ g.Edge i i
  others : ∀ i, ¬ Relation.TransGen g.Needs i i

/-- The items of a list in an order in which each one stands after the others that it lists. -/
structure Admits (g : Graph) (items l : List Nat) : Prop where
  perm : l.Perm items
  after : ∀ i, i ∈ items → ∀ j, j ∈ items → g.Needs i j → [j, i].Sublist l

/-- A walk that has met a pending item does not forget it. -/
theorem walk_eq_ready_iff
    (g : Graph) (root : Nat) (unvisited todo : List Nat) (status : Status) :
    g.walk root unvisited todo status = .ready
      ↔
    status = .ready ∧
      ∀ k, k ∈ todo → (k = root → g.hasInit root = false) ∧ (k ≠ root → k ∉ unvisited) := by
  fun_induction walk g root unvisited todo status with
  | case1 => simp
  | case2 unvisited status rest hinit => simp [hinit]
  | case3 unvisited status rest hinit ih => simp [ih, hinit]
  | case4 unvisited status i rest hroot hmem hinit => simp [hroot, hmem]
  | case5 unvisited status i rest hroot hmem hinit ih => simp [ih, hroot, hmem]
  | case6 unvisited status i rest hroot hmem ih => simp [ih, hroot, hmem]

/-- An item is ready exactly if none of the others that it lists is pending. -/
theorem status_eq_ready_iff
    {g : Graph}
    (hg : g.Acyclic)
    (pending : List Nat) (i : Nat) :
    g.status pending i = .ready ↔ ∀ j, g.Needs i j → j ∉ pending := by
  unfold status
  rw [walk_eq_ready_iff]
  constructor
  · rintro ⟨-, hdeps⟩ j ⟨hedge, hne⟩
    exact (hdeps j hedge).2 hne.symm
  · intro hdone
    refine ⟨rfl, fun k hedge => ⟨?_, fun hne => hdone k ⟨hedge, hne.symm⟩⟩⟩
    rintro rfl
    by_contra hinit
    exact hg.initializers k (by simpa using hinit) hedge

/-- As long as something is pending, something is ready. -/
theorem exists_ready
    {g : Graph} {pending : List Nat} {i : Nat}
    (hg : g.Acyclic)
    (hi : i ∈ pending) :
    ∃ j, j ∈ pending ∧ g.status pending j = .ready := by
  by_contra hnone
  have hnext : ∀ a, a ∈ pending → ∃ b, b ∈ pending ∧ Relation.TransGen g.Needs a b := by
    intro a ha
    have hwaits : ¬ ∀ j, g.Needs a j → j ∉ pending := fun hdone =>
      hnone ⟨a, ha, (status_eq_ready_iff hg pending a).mpr hdone⟩
    push Not at hwaits
    obtain ⟨b, hneeds, hb⟩ := hwaits
    exact ⟨b, hb, .single hneeds⟩
  obtain ⟨j, -, hself⟩ := exists_self_of_forall_exists (fun _ _ _ => Relation.TransGen.trans) hnext hi
  exact hg.others j hself

/-- The first ready item comes next. -/
theorem next?_ready
    {g : Graph} {pending : List Nat} {i : Nat}
    (hg : g.Acyclic)
    (hsorted : pending.Pairwise (· < ·))
    (hi : i ∈ pending) :
    ∃ k, g.next? pending = some k ∧ k ∈ pending ∧ g.status pending k = .ready ∧
      ∀ a, a ∈ pending → g.status pending a = .ready → k ≤ a := by
  obtain ⟨j, hj, hready⟩ := exists_ready hg hi
  have hfind : (pending.find? fun i => g.status pending i = .ready).isSome = true :=
    List.find?_isSome.mpr ⟨j, hj, by simpa using hready⟩
  obtain ⟨k, hk⟩ := Option.isSome_iff_exists.mp hfind
  have hstatus := List.find?_some hk
  refine ⟨k, by simp [next?, hk], List.mem_of_find?_eq_some hk, by simpa using hstatus, ?_⟩
  obtain ⟨-, before, after, rfl, hbefore⟩ := List.find?_eq_some_iff_append.mp hk
  intro a ha hstatus
  rcases List.mem_append.mp ha with ha | ha
  · simpa [hstatus] using hbefore a ha
  · rcases List.mem_cons.mp ha with rfl | ha
    · exact Nat.le_refl a
    · exact Nat.le_of_lt ((List.pairwise_cons.mp (List.pairwise_append.mp hsorted).2.1).1 a ha)

/-- An admissible order starts with a ready item. -/
theorem Admits.ready_head
    {g : Graph} {pending l : List Nat} {a : Nat}
    (hg : g.Acyclic)
    (hnodup : pending.Nodup)
    (h : g.Admits pending (a :: l)) :
    a ∈ pending ∧ g.status pending a = .ready := by
  have ha : a ∈ pending := h.perm.mem_iff.mp List.mem_cons_self
  refine ⟨ha, (status_eq_ready_iff hg pending a).mpr fun j hneeds hj => ?_⟩
  -- An item that stands before the head would make the head stand twice.
  have hbefore := h.after a ha j hj hneeds
  have hl := List.nodup_cons.mp (h.perm.nodup_iff.mpr hnodup)
  rcases List.sublist_cons_iff.mp hbefore with hrest | ⟨r, hr, hrest⟩
  · exact hl.1 (hrest.subset (by simp))
  · exact hneeds.2 (List.cons.inj hr).1.symm

/-- What is left of an admissible order without its head. -/
theorem Admits.tail
    {g : Graph} {pending l : List Nat} {a : Nat}
    (hnodup : pending.Nodup)
    (h : g.Admits pending (a :: l)) :
    g.Admits (pending.erase a) l where
  perm := by simpa using h.perm.erase a
  after := by
    intro i hi j hj hneeds
    obtain ⟨-, hi⟩ := hnodup.mem_erase_iff.mp hi
    obtain ⟨hja, hj⟩ := hnodup.mem_erase_iff.mp hj
    rcases List.sublist_cons_iff.mp (h.after i hi j hj hneeds) with hrest | ⟨r, hr, -⟩
    · exact hrest
    · exact absurd (List.cons.inj hr).1 hja

/-- A ready item may stand before an admissible order of the others. -/
theorem Admits.cons
    {g : Graph} {pending l : List Nat} {a : Nat}
    (hg : g.Acyclic)
    (ha : a ∈ pending)
    (hready : g.status pending a = .ready)
    (h : g.Admits (pending.erase a) l) :
    g.Admits pending (a :: l) where
  perm := (h.perm.cons a).trans (List.perm_cons_erase ha).symm
  after := by
    intro i hi j hj hneeds
    have hia : i ≠ a := by
      rintro rfl
      exact (status_eq_ready_iff hg pending i).mp hready j hneeds hj
    have hi' : i ∈ pending.erase a := (List.mem_erase_of_ne hia).mpr hi
    by_cases hja : j = a
    · subst hja
      exact List.Sublist.cons_cons j (List.singleton_sublist.mpr (h.perm.mem_iff.mpr hi'))
    · exact (h.after i hi' j ((List.mem_erase_of_ne hja).mpr hj) hneeds).cons a

/-- The loop ends with an admissible order of the pending items, the lexicographically least one. -/
theorem orderFrom_least
    {g : Graph} {rounds : Nat} {pending : List Nat}
    (hg : g.Acyclic)
    (hsorted : pending.Pairwise (· < ·))
    (hlen : pending.length ≤ rounds) :
    ∃ out, g.orderFrom rounds pending = .ok out ∧ g.Admits pending out ∧
      ∀ l, g.Admits pending l → l ≠ out → List.Lex (· < ·) out l := by
  induction rounds generalizing pending with
  | zero =>
      have hnil : pending = [] := List.length_eq_zero_iff.mp (Nat.le_zero.mp hlen)
      subst hnil
      exact ⟨[], rfl, ⟨.refl _, by simp⟩, fun l hl hne => absurd (List.perm_nil.mp hl.perm) hne⟩
  | succ rounds ih =>
      cases hpending : pending with
      | nil =>
          exact ⟨[], by simp [orderFrom, next?], ⟨.refl _, by simp⟩,
            fun l hl hne => absurd (List.perm_nil.mp hl.perm) hne⟩
      | cons first others =>
          rw [← hpending]
          have hnodup : pending.Nodup := hsorted.imp Nat.ne_of_lt
          obtain ⟨k, hnext, hk, hready, hfirst⟩ :=
            next?_ready hg hsorted (hpending ▸ List.mem_cons_self : first ∈ pending)
          have hlen' : (pending.erase k).length ≤ rounds := by
            rw [List.length_erase_of_mem hk]
            omega
          obtain ⟨rest, hrest, hadmits, hleast⟩ :=
            ih (hsorted.sublist List.erase_sublist) hlen'
          refine ⟨k :: rest, by simp [orderFrom, hnext, hrest, Except.map], hadmits.cons hg hk hready, ?_⟩
          intro l hl hne
          cases l with
          | nil =>
              rw [List.nil_perm.mp hl.perm] at hk
              cases hk
          | cons a l =>
              obtain ⟨ha, hstatus⟩ := hl.ready_head hg hnodup
              rcases Nat.lt_or_eq_of_le (hfirst a ha hstatus) with hlt | rfl
              · exact .rel hlt
              · exact .cons (hleast l (hl.tail hnodup) fun heq => hne (heq ▸ rfl))

end Least

end Graph

section Declaration

variable {α : Type}

/-- The dependencies of the items form no cycle, apart from items without an initializer that list themselves. -/
structure IsAcyclic (items : List (Item α)) : Prop where
  initializers : ∀ i, IsInitializer items i → ¬ DependsOn items i i
  others : ∀ i, ¬ Relation.TransGen (fun a b => DependsOn items a b ∧ a ≠ b) i i

/-- Indices of all items, each one after the others that it directly depends on. -/
structure IsAdmissible (items : List (Item α)) (indices : List Nat) : Prop where
  perm : indices.Perm (List.range items.length)
  after : ∀ i j, DependsOn items i j → i ≠ j → [j, i].Sublist indices

theorem lt_length_of_dependsOn
    {items : List (Item α)} {i j : Nat}
    (h : DependsOn items i j) :
    i < items.length ∧ j < items.length := by
  obtain ⟨item, hitem, name, -, hname⟩ := h
  obtain ⟨hi, -⟩ := List.getElem?_eq_some_iff.mp hitem
  obtain ⟨hj, -⟩ := List.findIdx?_eq_some_iff_getElem.mp hname
  exact ⟨hi, hj⟩

theorem needs_graph (items : List (Item α)) :
    (graph items).Needs = fun a b => DependsOn items a b ∧ a ≠ b := by
  funext a b
  exact propext (and_congr_left fun _ => edge_graph_iff items a b)

theorem acyclic_graph
    {items : List (Item α)}
    (h : IsAcyclic items) :
    (graph items).Acyclic where
  initializers i hinit hedge :=
    h.initializers i ((hasInit_graph_iff items i).mp hinit) ((edge_graph_iff items i i).mp hedge)
  others i := by
    rw [needs_graph]
    exact h.others i

theorem admits_graph_iff (items : List (Item α)) (indices : List Nat) :
    (graph items).Admits (List.range items.length) indices ↔ IsAdmissible items indices := by
  constructor
  · rintro ⟨hperm, hafter⟩
    refine ⟨hperm, fun i j hdepends hne => ?_⟩
    obtain ⟨hi, hj⟩ := lt_length_of_dependsOn hdepends
    exact hafter i (List.mem_range.mpr hi) j (List.mem_range.mpr hj)
      ⟨(edge_graph_iff items i j).mpr hdepends, hne⟩
  · rintro ⟨hperm, hafter⟩
    exact ⟨hperm, fun i _ j _ hneeds => hafter i j ((edge_graph_iff items i j).mp hneeds.1) hneeds.2⟩

/-- There is no cycle where some rank goes down along dependencies. -/
theorem isAcyclic_of_rank
    {items : List (Item α)}
    (rank : Nat → Nat)
    (hself : ∀ i, IsInitializer items i → ¬ DependsOn items i i)
    (hrank : ∀ i j, DependsOn items i j → i ≠ j → rank j < rank i) :
    IsAcyclic items where
  initializers := hself
  others i hcycle := by
    have hlt : ∀ a b, Relation.TransGen (fun a b => DependsOn items a b ∧ a ≠ b) a b → rank b < rank a := by
      intro a b hab
      induction hab with
      | single hstep => exact hrank _ _ hstep.1 hstep.2
      | tail _ hstep ih => exact Nat.lt_trans (hrank _ _ hstep.1 hstep.2) ih
    exact Nat.lt_irrefl (rank i) (hlt i i hcycle)

/-- No list of all indices comes before the declaration order. -/
theorem not_lex_range'
    {start len : Nat} {l : List Nat}
    (h : l.Perm (List.range' start len)) :
    ¬ List.Lex (· < ·) l (List.range' start len) := by
  induction len generalizing start l with
  | zero => exact nofun
  | succ len ih =>
      intro hlex
      rw [List.range'_succ] at hlex
      cases hlex with
      | nil => simp at h
      | rel hlt => exact Nat.not_lt_of_le (List.left_le_of_mem_range' (h.mem_iff.mp List.mem_cons_self)) hlt
      | cons htail => exact ih ((List.range'_succ ▸ h).cons_inv) htail

theorem sublist_range
    {i j n : Nat}
    (hji : j < i)
    (hi : i < n) :
    [j, i].Sublist (List.range n) := by
  have hprefix : (List.range (i + 1)).Sublist (List.range n) := List.range_sublist.mpr hi
  rw [List.range_succ] at hprefix
  exact ((List.singleton_sublist.mpr (List.mem_range.mpr hji)).append (.refl [i])).trans hprefix

/-- Without cycles there is an order, the least of all admissible ones. -/
theorem exists_least_order
    {items : List (Item α)}
    (h : IsAcyclic items) :
    ∃ indices, order items = .ok (pick items indices) ∧ IsAdmissible items indices ∧
      ∀ l, IsAdmissible items l → l ≠ indices → List.Lex (· < ·) indices l := by
  obtain ⟨out, horder, hadmits, hleast⟩ :=
    @Graph.orderFrom_least (graph items) (graph items).size (List.range items.length) (acyclic_graph h)
      List.pairwise_lt_range (by simp)
  refine ⟨out, ?_, (admits_graph_iff items out).mp hadmits, fun l hl => ?_⟩
  · rw [← size_graph items] at horder
    simp only [order, Graph.order, horder]
  · exact hleast l ((admits_graph_iff items l).mpr hl)

/-- **Minimality.**  Without cycles there is an order.  Among all orders in which every item stands after the others
that it directly depends on, it is the lexicographically least one by declaration index.  A list in which
dependencies only lead to earlier items stays as it is. -/
theorem order_least (items : List (Item α)) :
    (IsAcyclic items → ∃ indices, order items = .ok (pick items indices) ∧ IsAdmissible items indices ∧
        ∀ l, IsAdmissible items l → l ≠ indices → List.Lex (· < ·) indices l) ∧
      ((∀ i j, DependsOn items i j → j < i) → order items = .ok items) := by
  refine ⟨exists_least_order, fun hearlier => ?_⟩
  have hacyclic : IsAcyclic items :=
    isAcyclic_of_rank id (fun i _ hself => Nat.lt_irrefl i (hearlier i i hself)) fun i j h _ => hearlier i j h
  obtain ⟨out, hok, hout, hall⟩ := exists_least_order hacyclic
  have hrange : IsAdmissible items (List.range items.length) :=
    ⟨.refl _, fun i j hdepends _ => sublist_range (hearlier i j hdepends) (lt_length_of_dependsOn hdepends).1⟩
  have hsame : List.range items.length = out := by
    by_contra hne
    have hlex := hall _ hrange hne
    have hperm := hout.perm
    rw [List.range_eq_range'] at hlex hperm
    exact not_lex_range' hperm hlex
  rw [hok, ← hsame, pick_range]

/-- A global waits for a later one through a procedure that lists itself, and an unrelated global does not wait. -/
theorem order_least_through_procedure :
    let items : List (Item Unit) :=
      [⟨"x", some (), ["f", "write"]⟩, ⟨"f", none, ["y", "f"]⟩, ⟨"z", some (), []⟩, ⟨"y", some (), []⟩]
    IsAcyclic items ∧
      order items = .ok [⟨"z", some (), []⟩, ⟨"y", some (), []⟩, ⟨"f", none, ["y", "f"]⟩,
        ⟨"x", some (), ["f", "write"]⟩] ∧
      ∃ indices, order items = .ok (pick items indices) ∧ IsAdmissible items indices ∧
        ∀ l, IsAdmissible items l → l ≠ indices → List.Lex (· < ·) indices l := by
  intro items
  have hgraph : graph items = #[⟨true, [1]⟩, ⟨false, [3, 1]⟩, ⟨true, []⟩, ⟨true, []⟩] := by cbv
  have hedge : ∀ i j, DependsOn items i j → (i = 0 ∧ j = 1) ∨ (i = 1 ∧ j = 3) ∨ (i = 1 ∧ j = 1) := by
    intro i j h
    have hdeps : j ∈ Graph.deps _ i := hgraph ▸ (edge_graph_iff items i j).mpr h
    rcases i with _ | _ | _ | _ | i
    · simpa [Graph.deps] using hdeps
    · simpa [Graph.deps] using hdeps
    · simp [Graph.deps] at hdeps
    · simp [Graph.deps] at hdeps
    · simp [Graph.deps] at hdeps
  have hacyclic : IsAcyclic items := by
    refine isAcyclic_of_rank (fun i => 3 - i) ?_ ?_
    · rintro i ⟨item, hitem, hinit⟩ hself
      rcases hedge i i hself with ⟨rfl, h⟩ | ⟨rfl, h⟩ | ⟨rfl, -⟩
      · cases h
      · cases h
      · cases hitem
        cases hinit
    · intro i j h hne
      rcases hedge i j h with ⟨rfl, rfl⟩ | ⟨rfl, rfl⟩ | ⟨rfl, rfl⟩
      · decide
      · decide
      · exact absurd rfl hne
  exact ⟨hacyclic, by cbv, (order_least items).1 hacyclic⟩

example : order [⟨"a", some 1, []⟩, ⟨"b", none, ["a"]⟩, ⟨"c", some 2, ["b", "a"]⟩] =
    .ok [⟨"a", some 1, []⟩, ⟨"b", none, ["a"]⟩, ⟨"c", some 2, ["b", "a"]⟩] := by
  cbv

end Declaration

end Schedule
end GoalDirected
