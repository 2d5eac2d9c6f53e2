import GoalDirected.Primitive.Operator

/-!
# Subscripts and bounds

**Input.** A subscript, or the two bounds of a slice, and the length of a sequence.

**Specification.** Elements are numbered from one on, or from minus one downwards at the end.  Bounds are places
between elements: the first one is before the first element, and zero stands for the place after the last one.

**Results.**
* `elementIndex_eq_some_iff`: which subscripts have an element, and which.
* `boundPosition_eq`, `boundPosition_eq_none_iff`: where a bound stands.
* `sliceRange_eq`, `sliceRange_comm`: the range between two bounds, in either order.
* `elementIndexWord?_eq`, `sliceRangeWord?_eq`: in 64 bits the same comes out, and nothing overflows.
-/

namespace GoalDirected

section Defs

/-- Where a bound stands in a sequence of length `n`, counted from one. -/
def boundPlace (p : Int) (n : Nat) : Int :=
  if 0 < p then p else n + 1 + p

/-- A bound that stands at an end of the sequence, or inside it. -/
def IsBound (p : Int) (n : Nat) : Prop :=
  -(n : Int) ≤ p ∧ p ≤ n + 1

/-- The first of the places that two bounds stand for. -/
def lowerPlace (i j : Int) (n : Nat) : Nat :=
  (min (boundPlace i n) (boundPlace j n)).toNat

/-- The last of the places that two bounds stand for. -/
def upperPlace (i j : Int) (n : Nat) : Nat :=
  (max (boundPlace i n) (boundPlace j n)).toNat

/-! ## Arithmetic in 64 bits -/

/-- An integer of 64 bits. -/
def IsWord (x : Int) : Prop :=
  -0x8000000000000000 ≤ x ∧ x ≤ 0x7FFFFFFFFFFFFFFF

instance (x : Int) : Decidable (IsWord x) :=
  inferInstanceAs (Decidable (_ ∧ _))

/-- An integer that has 64 bits; for any other the computation overflows. -/
def word? (x : Int) : Option Int :=
  if IsWord x then some x else none

/-- The index of an element, computed in 64 bits. -/
def elementIndexWord? (i : Int) (length : Nat) : Option (Option Nat) := do
  let n ← word? length
  let k ← word? (if 0 < i then i - 1 else n + i)
  return if i ≠ 0 ∧ 0 ≤ k ∧ k < n then some k.toNat else none

/-- The position that a bound stands for, computed in 64 bits. -/
def boundPositionWord? (p : Int) (length : Nat) : Option (Option Nat) := do
  let n ← word? length
  let last ← word? (n + 1)
  let k ← word? (if 0 < p then p else last + p)
  return if 1 ≤ k ∧ k ≤ last then some k.toNat else none

/-- The range between two bounds, computed in 64 bits.  A position that has none before it, and a range that does not
lie in the sequence, have no answer either. -/
def sliceRangeWord? (i j : Int) (length : Nat) : Option (Option (Nat × Nat)) := do
  match ← boundPositionWord? i length, ← boundPositionWord? j length with
  | some a, some b =>
      if 1 ≤ min a b ∧ max a b - 1 ≤ length then some (some (min a b - 1, max a b - 1)) else none
  | _, _ => some none

end Defs

section Positions

variable {i j p : Int} {n k : Nat}

/-! ## Elements -/

theorem elementIndex_eq_some_iff :
    elementIndex i n = some k ↔
      (1 ≤ i ∧ i ≤ n ∧ (k : Int) = i - 1) ∨ (-(n : Int) ≤ i ∧ i ≤ -1 ∧ (k : Int) = n + i) := by
  unfold elementIndex
  dsimp only
  split <;> split <;> simp only [Option.some.injEq, reduceCtorEq, false_iff] <;> omega

theorem elementIndex_eq_none_iff :
    elementIndex i n = none ↔ ¬ ((1 ≤ i ∧ i ≤ n) ∨ (-(n : Int) ≤ i ∧ i ≤ -1)) := by
  unfold elementIndex
  dsimp only
  split <;> split <;> simp only [reduceCtorEq, false_iff, true_iff] <;> omega

/-- The subscript from the end names the same element. -/
theorem elementIndex_sub
    (h : 1 ≤ i)
    (hn : i ≤ n) :
    elementIndex (i - n - 1) n = elementIndex i n := by
  have hi : elementIndex i n = some (i - 1).toNat := elementIndex_eq_some_iff.mpr (Or.inl (by omega))
  rw [hi, elementIndex_eq_some_iff]
  omega

theorem lt_of_elementIndex
    (h : elementIndex i n = some k) :
    k < n := by
  have hk := elementIndex_eq_some_iff.mp h
  omega

/-! ## Bounds -/

theorem boundPosition_eq
    (h : IsBound p n) :
    boundPosition p n = some (boundPlace p n).toNat := by
  obtain ⟨hlow, hhigh⟩ := h
  unfold boundPosition boundPlace
  dsimp only
  split <;> rw [if_pos (by omega)]

theorem boundPosition_eq_none_iff : boundPosition p n = none ↔ ¬ IsBound p n := by
  unfold boundPosition IsBound
  dsimp only
  split <;> split <;> simp only [reduceCtorEq, false_iff, true_iff] <;> omega

/-- A position is one of the places between elements. -/
theorem boundPosition_bounds
    (h : boundPosition p n = some k) :
    1 ≤ k ∧ k ≤ n + 1 := by
  unfold boundPosition at h
  dsimp only at h
  split at h <;> split at h <;> cases h <;> omega

/-- A bound stands at one of the places between elements. -/
theorem IsBound.place
    (h : IsBound p n) :
    1 ≤ boundPlace p n ∧ boundPlace p n ≤ n + 1 := by
  obtain ⟨hlow, hhigh⟩ := h
  unfold boundPlace
  split <;> omega

theorem upperPlace_le
    (hi : IsBound i n)
    (hj : IsBound j n) :
    upperPlace i j n ≤ n + 1 := by
  have hi := hi.place
  have hj := hj.place
  unfold upperPlace
  omega

/-- Between two bounds there are as many elements as their places are apart. -/
theorem upperPlace_sub_lowerPlace
    (hi : IsBound i n)
    (hj : IsBound j n) :
    upperPlace i j n - 1 - (lowerPlace i j n - 1) = (boundPlace i n - boundPlace j n).natAbs := by
  have hi := hi.place
  have hj := hj.place
  unfold lowerPlace upperPlace
  omega

/-- From the first place to a bound. -/
theorem places_one
    (hp : IsBound p n) :
    lowerPlace 1 p n = 1 ∧ upperPlace 1 p n = (boundPlace p n).toNat := by
  have hp := hp.place
  have hone : boundPlace 1 n = 1 := rfl
  unfold lowerPlace upperPlace
  omega

/-- From a bound to the last place. -/
theorem places_zero
    (hp : IsBound p n) :
    lowerPlace p 0 n = (boundPlace p n).toNat ∧ upperPlace p 0 n = n + 1 := by
  have hp := hp.place
  have hzero : boundPlace 0 n = n + 1 := by simp [boundPlace]
  unfold lowerPlace upperPlace
  omega

/-- From the place before an element to the next one. -/
theorem places_succ
    (hlow : 1 ≤ p)
    (n : Nat) :
    lowerPlace p (p + 1) n = p.toNat ∧ upperPlace p (p + 1) n = p.toNat + 1 := by
  have hplace : boundPlace p n = p := if_pos (by omega)
  have hnext : boundPlace (p + 1) n = p + 1 := if_pos (by omega)
  unfold lowerPlace upperPlace
  omega

theorem sliceRange_eq
    (hi : IsBound i n)
    (hj : IsBound j n) :
    sliceRange i j n = some (lowerPlace i j n - 1, upperPlace i j n - 1) := by
  have hmin : min (boundPlace i n).toNat (boundPlace j n).toNat = lowerPlace i j n := by
    unfold lowerPlace
    omega
  have hmax : max (boundPlace i n).toNat (boundPlace j n).toNat = upperPlace i j n := by
    unfold upperPlace
    omega
  simp only [sliceRange, boundPosition_eq hi, boundPosition_eq hj, hmin, hmax]

theorem sliceRange_eq_none_iff : sliceRange i j n = none ↔ ¬ IsBound i n ∨ ¬ IsBound j n := by
  rw [← boundPosition_eq_none_iff, ← boundPosition_eq_none_iff]
  unfold sliceRange
  cases boundPosition i n <;> cases boundPosition j n <;> simp

theorem sliceRange_comm (i j : Int) (n : Nat) : sliceRange i j n = sliceRange j i n := by
  unfold sliceRange
  cases boundPosition i n <;> cases boundPosition j n <;> simp [Nat.min_comm, Nat.max_comm]

/-! ## 64 bits -/

theorem word?_eq
    {x : Int}
    (h : IsWord x) :
    word? x = some x :=
  if_pos h

/-- No subscript makes the computation of an index overflow. -/
theorem elementIndexWord?_eq
    (hi : IsWord i)
    (hn : IsWord n) :
    elementIndexWord? i n = some (elementIndex i n) := by
  obtain ⟨hlow, hhigh⟩ := hi
  have hmax := hn.2
  have hlength : word? n = some (n : Int) := word?_eq hn
  have hk : word? (if 0 < i then i - 1 else n + i) = some (if 0 < i then i - 1 else n + i) := by
    split <;> exact word?_eq ⟨by omega, by omega⟩
  unfold elementIndexWord?
  rw [hlength, Option.bind_eq_bind, Option.bind_some, hk, Option.bind_some]
  rfl

theorem boundPositionWord?_eq
    (hp : IsWord p)
    (hn : IsWord (n + 1)) :
    boundPositionWord? p n = some (boundPosition p n) := by
  obtain ⟨hlow, hhigh⟩ := hp
  have hmax := hn.2
  have hlength : word? n = some (n : Int) := word?_eq ⟨by omega, by omega⟩
  have hlast : word? (n + 1) = some ((n : Int) + 1) := word?_eq hn
  have hk : word? (if 0 < p then p else n + 1 + p) = some (if 0 < p then p else n + 1 + p) := by
    split <;> exact word?_eq ⟨by omega, by omega⟩
  unfold boundPositionWord?
  rw [hlength, Option.bind_eq_bind, Option.bind_some, hlast, Option.bind_some, hk, Option.bind_some]
  rfl

/-- No bounds make the computation of a range overflow, and the range lies in the sequence. -/
theorem sliceRangeWord?_eq
    (hi : IsWord i)
    (hj : IsWord j)
    (hn : IsWord (n + 1)) :
    sliceRangeWord? i j n = some (sliceRange i j n) := by
  simp only [sliceRangeWord?, boundPositionWord?_eq hi hn, boundPositionWord?_eq hj hn, Option.bind_eq_bind,
    Option.bind_some, sliceRange]
  cases hip : boundPosition i n with
  | none => rfl
  | some a =>
      cases hjp : boundPosition j n with
      | none => rfl
      | some b =>
          obtain ⟨ha, ha'⟩ := boundPosition_bounds hip
          obtain ⟨hb, hb'⟩ := boundPosition_bounds hjp
          exact if_pos ⟨by omega, by omega⟩

end Positions

end GoalDirected
