import GoalDirected.Primitive.Operator

/-!
# The operator table

**Input.** A name and an arity.

**Specification.** The entry of the table that has this very name and this very arity.

**Argument.** A key is an arity in decimal digits, followed by a name.  In the table every arity has one digit and no
name begins with one.  So where a key is the same as that of an entry, its arity ends where that of the entry ends:
a name that begins with a digit would make the row of digits too long.

**Results.**
* `Operator.eq_of_keyOf_eq`: the key of an entry stands for one name and one arity only.
* `Operator.lookup?_eq_some_iff`: what is found by key is what has the name and the arity.
-/

namespace GoalDirected

section Dispatch

namespace Operator

/-! ## Keys -/

theorem toList_keyOf (name : String) (arity : Nat) :
    (keyOf name arity).toList = Nat.toDigits 10 arity ++ name.toList := by
  rw [keyOf, String.toList_append, Nat.toString_eq_repr, Nat.toList_repr]

/-- The arity has one digit, and the name does not begin with one. -/
def HasPlainKey (op : Operator) : Prop :=
  op.arity < 10 ∧ op.name.toList.head?.any Char.isDigit = false

instance (op : Operator) : Decidable op.HasPlainKey :=
  inferInstanceAs (Decidable (_ ∧ _))

/-- No other name, with whatever arity, has the key of such an operator. -/
theorem eq_of_keyOf_eq
    {op : Operator} {name : String} {arity : Nat}
    (hop : op.HasPlainKey)
    (h : op.key = keyOf name arity) :
    op.name = name ∧ op.arity = arity := by
  obtain ⟨harity, hname⟩ := hop
  have hone := Nat.toDigits_of_lt_base harity
  have hlist : Nat.toDigits 10 op.arity ++ op.name.toList = Nat.toDigits 10 arity ++ name.toList := by
    rw [← toList_keyOf, ← toList_keyOf]
    exact congrArg String.toList h
  cases hdigits : Nat.toDigits 10 arity with
  | nil => exact absurd hdigits Nat.toDigits_ne_nil
  | cons first more =>
      rw [hone, hdigits, List.cons_append, List.cons_append, List.nil_append] at hlist
      obtain ⟨hfirst, hrest⟩ := List.cons.inj hlist
      cases more with
      | nil =>
          have hsame : Nat.toDigits 10 op.arity = Nat.toDigits 10 arity := by rw [hone, hdigits, hfirst]
          refine ⟨String.toList_inj.mp hrest, ?_⟩
          calc
            op.arity = Nat.ofDigitChars 10 (Nat.toDigits 10 op.arity) 0 := Nat.ofDigitChars_ten_toDigits.symm
            _ = Nat.ofDigitChars 10 (Nat.toDigits 10 arity) 0 := by rw [hsame]
            _ = arity := Nat.ofDigitChars_ten_toDigits
      | cons second more =>
          -- The second digit would be the first character of the operator's name.
          have hmem : second ∈ Nat.toDigits 10 arity := by
            rw [hdigits]
            exact List.mem_cons_of_mem _ List.mem_cons_self
          have hdigit : second.isDigit = true := Nat.isDigit_of_mem_toDigits (by decide) (by decide) hmem
          have hletter : second.isDigit = false := by simpa [hrest] using hname
          rw [hdigit] at hletter
          cases hletter

/-! ## The table -/

theorem hasPlainKey_of_mem : ∀ op ∈ table, op.HasPlainKey := by
  decide

theorem nodup_keys : (table.map key).Nodup := by
  decide

/-- Among operators with different keys each is found by its own. -/
theorem find?_key
    {ops : List Operator} {op : Operator}
    (hops : (ops.map key).Nodup)
    (hop : op ∈ ops) :
    ops.find? (fun other => other.key == op.key) = some op := by
  induction ops with
  | nil => cases hop
  | cons first rest ih =>
      rw [List.map_cons, List.nodup_cons] at hops
      rcases List.mem_cons.mp hop with rfl | hrest
      · exact List.find?_cons_of_pos (beq_self_eq_true _)
      · have hne : first.key ≠ op.key := fun heq => hops.1 (heq ▸ List.mem_map_of_mem hrest)
        rw [List.find?_cons_of_neg (by simpa using hne)]
        exact ih hops.2 hrest

/-- An operator is found exactly if the table gives it this name and this arity. -/
theorem lookup?_eq_some_iff
    {name : String} {arity : Nat} {op : Operator} :
    lookup? name arity = some op ↔ op ∈ table ∧ op.name = name ∧ op.arity = arity := by
  constructor
  · intro h
    have hop := List.mem_of_find?_eq_some h
    have hkey := List.find?_some h
    exact ⟨hop, eq_of_keyOf_eq (hasPlainKey_of_mem op hop) (beq_iff_eq.mp hkey)⟩
  · rintro ⟨hop, rfl, rfl⟩
    exact find?_key nodup_keys hop

/-- Two names with different arities share a key, which is that of no operator. -/
example : keyOf "1+" 2 = keyOf "+" 21 ∧ lookup? "1+" 2 = none ∧ lookup? "+" 21 = none :=
  ⟨rfl, rfl, rfl⟩

/-! ## Names -/

theorem operation_eq_assign_iff
    {op : Operator} :
    op ∈ table → (op.operation = .assign ↔ op.name = ":=") := by
  revert op
  decide

theorem operation_eq_swap_iff
    {op : Operator} :
    op ∈ table → (op.operation = .swap ↔ op.name = ":=:") := by
  revert op
  decide

theorem operation_eq_activate_iff
    {op : Operator} :
    op ∈ table → (op.operation = .activate ↔ op.name = "@") := by
  revert op
  decide

end Operator

end Dispatch

end GoalDirected
