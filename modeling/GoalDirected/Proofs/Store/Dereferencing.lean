import GoalDirected.Proofs.Store.Changes
import Mathlib.Data.Fintype.Pigeonhole
import Mathlib.Order.Nat

/-!
# Following references

**Input.** A value, which may be a reference to a cell that holds a reference in its turn, and so on.

**Specification.** `Store.Leads` follows references one by one, without any bound.

**Argument.** What follows a link of a chain depends on its cell alone.  So a chain that comes to an end passes no
cell twice, and it has at most as many links as there are cells, and one more to a cell that does not exist.

**Results.**
* `Store.isRef_deref`: a chain that comes to an end does so within the bound of `Store.deref`.
* `Store.leads_iff`: `Store.deref` gives what references lead to, whenever they lead to anything.
* `Store.IsFlat.leads`: in a flat store they always do.
-/

namespace GoalDirected

section Dereferencing

/-- Following references from a value comes to an end at another value. -/
inductive Store.Leads (s : Store) : Value → Value → Prop
  | value
      {v : Value}
      (h : v.isRef = false) :
      Leads s v v
  | ref
      {c : CellId} {w : Value}
      (h : Leads s (s.read c) w) :
      Leads s (.ref c) w

theorem Value.exists_eq_ref
    {v : Value}
    (h : v.isRef = true) :
    ∃ c, v = .ref c := by
  cases v with
  | ref c => exact ⟨c, rfl⟩
  | _ => cases h

namespace Store

variable {s : Store} {v w : Value} {i j n : Nat}

/-! ## Chains -/

theorem derefWithin_add (s : Store) (i j : Nat) (v : Value) :
    s.derefWithin (i + j) v = s.derefWithin j (s.derefWithin i v) := by
  induction i generalizing v with
  | zero => rw [Nat.zero_add, derefWithin]
  | succ i ih =>
      cases v with
      | ref c =>
          rw [Nat.succ_add]
          exact ih (s.read c)
      | _ => exact (s.derefWithin_of_not_isRef _ rfl).trans (s.derefWithin_of_not_isRef _ rfl).symm

/-- After its end a chain stays where it is. -/
theorem derefWithin_of_le
    (h : (s.derefWithin i v).isRef = false)
    (hij : i ≤ j) :
    s.derefWithin j v = s.derefWithin i v := by
  obtain ⟨k, rfl⟩ := Nat.exists_eq_add_of_le hij
  rw [derefWithin_add, s.derefWithin_of_not_isRef k h]

/-- A reference that leads to another one leads to a cell of the store. -/
theorem lt_size_of_isRef
    {c : Nat}
    (h : (s.read c).isRef = true) :
    c < s.cells.size := by
  by_contra hc
  simp [read, Array.getD, hc, Value.isRef] at h

/-- Before its end a chain does not come to the same reference again. -/
theorem derefWithin_ne
    (hij : i < j)
    (hjn : j ≤ n)
    (hbefore : ∀ k < n, (s.derefWithin k v).isRef = true)
    (hend : (s.derefWithin n v).isRef = false) :
    s.derefWithin i v ≠ s.derefWithin j v := by
  intro heq
  -- What is left from the later place on is left from the earlier one on, which would end too soon.
  obtain ⟨rest, rfl⟩ := Nat.exists_eq_add_of_le hjn
  rw [derefWithin_add, ← heq, ← derefWithin_add] at hend
  rw [hbefore (i + rest) (by omega)] at hend
  cases hend

/-- A chain that comes to an end has at most one link more than there are cells. -/
theorem isRef_deref
    (h : ∃ n, (s.derefWithin n v).isRef = false) :
    (s.deref v).isRef = false := by
  by_contra href
  have hlast := Nat.find_spec h
  have hbefore : ∀ k < Nat.find h, (s.derefWithin k v).isRef = true := by
    intro k hk
    simpa using Nat.find_min h hk
  have hlong : s.cells.size + 1 < Nat.find h := by
    by_contra hle
    refine href ?_
    rw [deref, derefWithin_of_le hlast (Nat.le_of_not_lt hle)]
    exact hlast
  have hcells : ∀ i : Fin (s.cells.size + 1), ∃ c : Fin s.cells.size, s.derefWithin i v = .ref c.val := by
    intro i
    obtain ⟨c, hc⟩ := Value.exists_eq_ref (hbefore i (Nat.lt_trans i.isLt hlong))
    have hnext : s.derefWithin (i + 1) v = s.read c := by rw [derefWithin_add, hc, derefWithin, derefWithin]
    have hlt := lt_size_of_isRef (hnext ▸ hbefore (i + 1) (by omega))
    exact ⟨⟨c, hlt⟩, hc⟩
  choose cell hcell using hcells
  obtain ⟨i, j, hne, heq⟩ := Fintype.exists_ne_map_eq_of_card_lt cell (by simp)
  have hsame : s.derefWithin i v = s.derefWithin j v := by rw [hcell, hcell, heq]
  rcases Nat.lt_or_gt_of_ne (Fin.val_ne_of_ne hne) with hij | hji
  · exact derefWithin_ne hij (by omega) hbefore hlast hsame
  · exact derefWithin_ne hji (by omega) hbefore hlast hsame.symm

/-! ## Ends -/

theorem Leads.isRef
    (h : s.Leads v w) :
    w.isRef = false := by
  induction h with
  | value h => exact h
  | ref _ ih => exact ih

theorem Leads.exists_derefWithin
    (h : s.Leads v w) :
    ∃ n, s.derefWithin n v = w := by
  induction h with
  | value h => exact ⟨0, rfl⟩
  | ref _ ih =>
      obtain ⟨n, hn⟩ := ih
      exact ⟨n + 1, hn⟩

theorem leads_derefWithin
    (h : (s.derefWithin n v).isRef = false) :
    s.Leads v (s.derefWithin n v) := by
  induction n generalizing v with
  | zero => exact .value h
  | succ n ih =>
      cases v with
      | ref c => exact .ref (ih h)
      | _ => exact .value h

/-- References lead to a value exactly if that is the value behind them. -/
theorem leads_iff : s.Leads v w ↔ s.deref v = w ∧ w.isRef = false := by
  constructor
  · intro h
    obtain ⟨n, rfl⟩ := h.exists_derefWithin
    have hderef := isRef_deref ⟨n, h.isRef⟩
    refine ⟨?_, h.isRef⟩
    rcases Nat.le_total n (s.cells.size + 1) with hn | hn
    · exact derefWithin_of_le h.isRef hn
    · exact (derefWithin_of_le hderef hn).symm
  · rintro ⟨rfl, hw⟩
    exact leads_derefWithin hw

/-- Where no cell holds a reference, all references lead to something. -/
theorem IsFlat.leads
    (h : s.IsFlat)
    (v : Value) :
    s.Leads v (s.deref v) :=
  leads_iff.mpr ⟨rfl, h.deref v⟩

end Store

end Dereferencing

end GoalDirected
