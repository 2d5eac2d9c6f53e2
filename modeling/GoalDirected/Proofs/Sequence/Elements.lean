import GoalDirected.Machine.Drain
import GoalDirected.Proofs.Sequence.Positions
import GoalDirected.Proofs.Store.Changes

/-!
# Size, subscripts and elements

**Input.** A list, a record or a text, itself or behind references.

**Specification.** `Store.Comprises` says what such a value is made of.  `Store.Enumerates` says that the operators
`*`, `!` and `[]` tell of this one sequence.

**Argument.** The generator of a list looks at the list anew each time, those of records and texts carry the rest
with them.  Nothing happens in between, so all of them give what is left, element by element.  A subscript is
turned into an index before the sequence is looked at, for all three kinds of value in the same way.

**Results.**
* `Drain.Generates.collectOnto`: a generator that changes nothing is collected to the end.
* `Store.generates_elements`, `Store.subscript_eq`: the elements, generated and by subscript.
* `Store.enumerates_of_comprises`: size, generated elements and subscripts agree.
-/

namespace GoalDirected

section Defs

/-- Collecting an outcome gives the values and changes nothing, with at least as many resumptions as there are
values. -/
def Drain.Collects
    (s : Store)
    (o : Outcome)
    (items : List Value) : Prop :=
  ∀ fuel, items.length ≤ fuel → collectOnto s [] fuel o = (.ok items.reverse, s)

/-- Resuming an outcome again and again gives the values, then failure, and changes nothing. -/
inductive Drain.Generates
    (s : Store) : Outcome → List Value → Prop
  | done : Generates s .fail []
  | next
      {v : Value} {k : Continuation} {o : Outcome} {rest : List Value}
      (hresume : (Machine.resume s [] k).finish = (.ok o, s))
      (hrest : Generates s o rest) :
      Generates s (.suspended v k) (v :: rest)

/-- What a list, a record or a text is made of: places, or texts of one character. -/
inductive Store.Comprises
    (s : Store) : Value → List Value → Prop
  | list (id : Nat) : Comprises s (.list id) ((s.listCells id).toList.map .ref)
  | record (id : Nat) : Comprises s (.record id) ((s.record id).fields.map fun x => .ref x.2)
  | text (t : String) : Comprises s (.text t) (t.toList.map fun c => .text (.singleton c))

/-- A value stands for a number with the integer part `i`. -/
def Store.Truncates
    (s : Store)
    (w : Value)
    (i : Int) : Prop :=
  ∃ x, s.toNumber w = .ok x ∧ Number.truncated x = i

/-- As a subscript of `v` a value is taken for a number with the integer part `i`.  A text is the name of a field
where `v` is a record. -/
structure Store.Subscripts
    (s : Store)
    (v w : Value)
    (i : Int) : Prop where
  number : s.Truncates w i
  unnamed : ∀ id name, s.deref v = .record id → s.deref w ≠ .text name

/-- Size, generated elements and subscripts of a value tell of one sequence. -/
structure Store.Enumerates
    (s : Store)
    (v : Value)
    (items : List Value) : Prop where
  size : s.invoke "*" [v] = (.outcome (.result (.number (Float.ofNat items.length))), s)
  generated : ∃ o, s.invoke "!" [v] = (.outcome o, s) ∧ Drain.Collects s o items ∧
    (items.length ≤ Machine.stepLimit → Drain.collect s o = (.ok items, s))
  found : ∀ w i, s.Subscripts v w i →
    ((∃ r t, s.invoke "[]" [v, w] = (.outcome (.result r), t)) ↔
      (1 ≤ i ∧ i ≤ items.length) ∨ (-(items.length : Int) ≤ i ∧ i ≤ -1))
  missed : ∀ w i, s.Subscripts v w i → ¬ ((1 ≤ i ∧ i ≤ items.length) ∨ (-(items.length : Int) ≤ i ∧ i ≤ -1)) →
    s.invoke "[]" [v, w] = (.outcome .fail, s)
  /-- The result of a subscript from one on is the element in that place. -/
  element : ∀ w i, s.Subscripts v w i → 1 ≤ i → i ≤ items.length →
    ∃ r, items[(i - 1).toNat]? = some r ∧ s.invoke "[]" [v, w] = (.outcome (.result r), s)
  /-- So is that of the subscript from the end. -/
  fromEnd : ∀ w i, s.Subscripts v w (i - items.length - 1) → 1 ≤ i → i ≤ items.length →
    ∃ r, items[(i - 1).toNat]? = some r ∧ s.invoke "[]" [v, w] = (.outcome (.result r), s)
  saturated : ∀ w i, s.Truncates w i → IsWord i
  /-- In 64 bits the index of a subscript is computed without overflow. -/
  words : IsWord items.length → ∀ i, IsWord i →
    elementIndexWord? i items.length = some (elementIndex i items.length)

end Defs

section Elements

/-! ## Generators that change nothing -/

theorem Machine.finish_returning (s : Store) (o : Outcome) :
    Machine.finish ⟨s, [], .returning o⟩ = (.ok o, s) := by
  unfold Machine.finish
  rw [Machine.run_of_isFinished rfl]
  rfl

namespace Drain

variable {s : Store} {o : Outcome} {items : List Value}

theorem Generates.collectOnto
    (h : Generates s o items)
    (collected : List Value)
    (fuel : Nat)
    (hfuel : items.length ≤ fuel) :
    collectOnto s collected fuel o = (.ok (items.reverse ++ collected), s) := by
  induction h generalizing collected fuel with
  | done => cases fuel <;> rfl
  | next hresume hrest ih =>
      cases fuel with
      | zero => cases hfuel
      | succ fuel =>
          simp only [Drain.collectOnto, hresume]
          rw [ih _ fuel (Nat.le_of_succ_le_succ hfuel)]
          simp

theorem Generates.collects
    (h : Generates s o items) :
    Collects s o items := by
  intro fuel hfuel
  rw [h.collectOnto [] fuel hfuel, List.append_nil]

theorem Collects.collect
    (h : Collects s o items)
    (hlength : items.length ≤ Machine.stepLimit) :
    collect s o = (.ok items, s) := by
  simp only [Drain.collect, h Machine.stepLimit hlength, Except.map, List.reverse_reverse]

/-- A generator that carries its values with it. -/
theorem generates_valuesFrom (s : Store) (items : List Value) : Generates s (valuesFrom items) items := by
  induction items with
  | nil => exact .done
  | cons v rest ih => exact .next (Machine.finish_returning s _) ih

/-- The generator of a list, from some position on. -/
theorem generates_elementsFrom (s : Store) (id position : Nat) :
    Generates s (s.elementsFrom id position) (((s.listCells id).toList.drop position).map .ref) := by
  unfold Store.elementsFrom
  by_cases hlt : position < (s.listCells id).size
  · have hrest := generates_elementsFrom s id (position + 1)
    have hdrop := List.drop_eq_getElem_cons (l := (s.listCells id).toList) hlt
    rw [hdrop, Array.getElem?_eq_getElem hlt]
    exact .next (Machine.finish_returning s _) hrest
  · rw [Array.getElem?_eq_none (Nat.le_of_not_lt hlt), List.drop_eq_nil_of_le (Nat.le_of_not_lt hlt)]
    exact .done
termination_by (s.listCells id).size - position

end Drain

namespace Store

variable {s : Store} {v w : Value} {i : Int} {items : List Value}

/-! ## Operators -/

theorem invoke_of_lookup?
    {name : String} {op : Operator}
    (s : Store) (args : List Value)
    (h : Operator.lookup? name args.length = some op) :
    s.invoke name args = s.operate op.operation (s.operands op.raw args) := by
  simp only [invoke, h]

theorem invoke_size (s : Store) (v : Value) : s.invoke "*" [v] = (.ofExcept (s.sizeOf (s.deref v)), s) := by
  have hlookup : Operator.lookup? "*" 1 = some ⟨"*", 1, [], .size⟩ := rfl
  exact s.invoke_of_lookup? [v] hlookup

theorem invoke_elements (s : Store) (v : Value) : s.invoke "!" [v] = (.ofExcept (s.elements (s.deref v)), s) := by
  have hlookup : Operator.lookup? "!" 1 = some ⟨"!", 1, [], .elements⟩ := rfl
  exact s.invoke_of_lookup? [v] hlookup

theorem invoke_subscript (s : Store) (v w : Value) :
    s.invoke "[]" [v, w] = (.ofExcept (s.subscript v (s.deref w)), s) := by
  have hlookup : Operator.lookup? "[]" 2 = some ⟨"[]", 2, [0], .subscript⟩ := rfl
  exact s.invoke_of_lookup? [v, w] hlookup

/-- A value that is a number has been followed to the end. -/
theorem toNumber_deref
    {x : Float}
    (h : s.toNumber w = .ok x) :
    s.toNumber (s.deref w) = .ok x := by
  have href : (s.deref w).isRef = false := by
    unfold toNumber at h
    cases hw : s.deref w with
    | ref c =>
        rw [hw] at h
        cases h
    | _ => rfl
  have hderef : s.deref (s.deref w) = s.deref w := s.derefWithin_of_not_isRef _ href
  rw [← h, toNumber, hderef, toNumber]

/-- The integer part of a number has 64 bits. -/
theorem Truncates.saturated
    (h : s.Truncates w i) :
    IsWord i := by
  obtain ⟨x, -, rfl⟩ := h
  exact Number.truncated_bounds x

/-! ## One sequence -/

theorem Comprises.size
    (h : s.Comprises v items) :
    s.sizeOf v = .ok (.result (.number (Float.ofNat items.length))) := by
  cases h <;> simp [sizeOf, String.length_toList]

theorem Comprises.generates
    (h : s.Comprises v items) :
    ∃ o, s.elements v = .ok o ∧ Drain.Generates s o items := by
  cases h with
  | list id => exact ⟨_, rfl, Drain.generates_elementsFrom s id 0⟩
  | record id => exact ⟨_, rfl, Drain.generates_valuesFrom s _⟩
  | text t => exact ⟨_, rfl, Drain.generates_valuesFrom s _⟩

/-- What a subscript gives: the element at its index. -/
theorem subscript_eq
    (h : s.Comprises (s.deref v) items)
    (hw : s.Subscripts v w i) :
    s.subscript v (s.deref w) =
      .ok (match (elementIndex i items.length).bind fun k => items[k]? with
        | some r => .result r
        | none => .fail) := by
  obtain ⟨⟨x, hx, rfl⟩, hunnamed⟩ := hw
  have hnumber := toNumber_deref hx
  generalize hv : s.deref v = u at h
  unfold subscript
  rw [hv]
  cases h with
  | list id =>
      simp only [hnumber, bind, Except.bind, List.length_map, Array.length_toList]
      cases elementIndex (Number.truncated x) (s.listCells id).size with
      | none => rfl
      | some k =>
          simp only [Option.bind_some, List.getElem?_map, Array.getElem?_toList]
          cases (s.listCells id)[k]? <;> rfl
  | record id =>
      simp only [List.length_map]
      split
      · rename_i name hname
        exact absurd hname (hunnamed id name hv)
      · simp only [hnumber, bind, Except.bind]
        cases elementIndex (Number.truncated x) (s.record id).fields.length with
        | none => rfl
        | some k =>
            simp only [Option.bind_some, List.getElem?_map]
            cases (s.record id).fields[k]? <;> rfl
  | text t =>
      simp only [hnumber, bind, Except.bind]
      rfl

/-- A subscript within reach gives the element that it stands for. -/
theorem invoke_of_elementIndex
    {k : Nat}
    (h : s.Comprises (s.deref v) items)
    (hw : s.Subscripts v w i)
    (hk : elementIndex i items.length = some k) :
    ∃ r, items[k]? = some r ∧ s.invoke "[]" [v, w] = (.outcome (.result r), s) := by
  have hlt := lt_of_elementIndex hk
  refine ⟨items[k], List.getElem?_eq_getElem hlt, ?_⟩
  rw [invoke_subscript, subscript_eq h hw, hk]
  simp [List.getElem?_eq_getElem hlt, Answer.ofExcept, Reply.ofExcept, Answer.outcome]

theorem invoke_of_elementIndex_eq_none
    (h : s.Comprises (s.deref v) items)
    (hw : s.Subscripts v w i)
    (hk : elementIndex i items.length = none) :
    s.invoke "[]" [v, w] = (.outcome .fail, s) := by
  rw [invoke_subscript, subscript_eq h hw, hk]
  rfl

end Store

/-- Size, generated elements and subscripts of a list, a record or a text tell of what it is made of. -/
theorem Store.enumerates_of_comprises
    {s : Store} {v : Value} {items : List Value}
    (h : s.Comprises (s.deref v) items) :
    s.Enumerates v items where
  size := by
    rw [Store.invoke_size, h.size]
    rfl
  generated := by
    obtain ⟨o, ho, hgenerates⟩ := h.generates
    refine ⟨o, ?_, hgenerates.collects, hgenerates.collects.collect⟩
    rw [Store.invoke_elements, ho]
    rfl
  found := by
    intro w i hw
    cases hk : elementIndex i items.length with
    | none =>
        rw [Store.invoke_of_elementIndex_eq_none h hw hk]
        refine iff_of_false ?_ (elementIndex_eq_none_iff.mp hk)
        rintro ⟨r, t, hr⟩
        cases hr
    | some k =>
        obtain ⟨r, -, hr⟩ := Store.invoke_of_elementIndex h hw hk
        refine iff_of_true ⟨r, s, hr⟩ ?_
        have hreach := elementIndex_eq_some_iff.mp hk
        omega
  missed := fun w i hw hreach =>
    Store.invoke_of_elementIndex_eq_none h hw (elementIndex_eq_none_iff.mpr hreach)
  element := by
    intro w i hw hlow hhigh
    have hk : elementIndex i items.length = some (i - 1).toNat :=
      elementIndex_eq_some_iff.mpr (Or.inl (by omega))
    exact Store.invoke_of_elementIndex h hw hk
  fromEnd := by
    intro w i hw hlow hhigh
    have hk : elementIndex (i - items.length - 1) items.length = some (i - 1).toNat := by
      rw [elementIndex_sub hlow hhigh]
      exact elementIndex_eq_some_iff.mpr (Or.inl (by omega))
    exact Store.invoke_of_elementIndex h hw hk
  saturated := fun _ _ hw => hw.saturated
  words := fun hlength _ hi => elementIndexWord?_eq hi hlength

/-- A list of two elements behind a reference, and the subscript of its last one from the end. -/
theorem Store.enumerates_of_comprises_letters :
    let s : Store := { cells := #[.text "a", .text "b", .list 0], lists := #[#[0, 1]] }
    s.Comprises (s.deref (.ref 2)) [.ref 0, .ref 1] ∧ s.Enumerates (.ref 2) [.ref 0, .ref 1] ∧
      s.Subscripts (.ref 2) (.number (-1.0)) (-1) ∧
      s.invoke "[]" [.ref 2, .number (-1.0)] = (.outcome (.result (.ref 1)), s) := by
  intro s
  have hlist : s.Comprises (s.deref (.ref 2)) [.ref 0, .ref 1] := .list 0
  have henumerates := Store.enumerates_of_comprises hlist
  have hsubscript : s.Subscripts (.ref 2) (.number (-1.0)) (-1) := ⟨⟨-1.0, rfl, by decide⟩, nofun⟩
  obtain ⟨r, hr, hinvoke⟩ := henumerates.fromEnd (.number (-1.0)) 2 hsubscript (by decide) (by decide)
  cases hr
  exact ⟨hlist, henumerates, hsubscript, hinvoke⟩

end Elements

end GoalDirected
