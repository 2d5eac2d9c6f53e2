import GoalDirected.Proofs.Sequence.Elements
import GoalDirected.Proofs.Store.Arguments

/-!
# Slices

**Input.** A list or a text, itself or behind references, and two bounds.

**Specification.** `Store.contents?` is the sequence that a value stands for.  `Store.Slices` says what a slice of it
is, and how slices go together with size, subscripts, concatenation and assignment.

**Argument.** `Store.cut` makes the slice between two indices, and `Store.invoke_slice_eq` is all that the operator
does.  A slice only adds to the store (`Store.Extends`), so that the value that it was taken from and the numbers that
were its bounds stay what they are.  The cells of a list that was made by slicing are new.  Assignments to elements of
one list change none but its cells (`Store.Reassigned.run`).

**Results.**
* `Store.contents?_cut`: the contents of a slice.
* `Store.Reassigned.run`, `Store.Reassigned.extends`: what assignments to elements leave alone.
* `Store.slices_of_contents`: the laws of slices.
-/

namespace GoalDirected

section Defs

namespace Store

/-- The content of a place; any other value is its own. -/
def content (s : Store) : Value → Value
  | .ref cell => s.read cell
  | v => v

/-- The sequence that a list or a text stands for: the values in the places of a list, the characters of a text. -/
def contents? (s : Store) : Value → Option (List Value)
  | .list id => some (s.listValues id).toList
  | .text t => some (characters t)
  | _ => none

/-- The store has the cells of a list. -/
def Has (s : Store) : Value → Prop
  | .list id => id < s.lists.size ∧ ∀ c ∈ s.listCells id, c < s.cells.size
  | _ => True

/-- Cells and lists are only added. -/
structure Extends (s t : Store) : Prop where
  size : s.cells.size ≤ t.cells.size
  read : ∀ c : Nat, c < s.cells.size → t.read c = s.read c
  lists : s.lists.size ≤ t.lists.size
  listCells : ∀ id, id < s.lists.size → t.listCells id = s.listCells id

/-- The part of a list or a text between two indices, and the store that has it. -/
def cut (s : Store) (v : Value) (low high : Nat) : Value × Store :=
  match v with
  | .list id => s.newList ((s.listValues id).extract low high)
  | .text t => (.text (.ofList ((t.toList.take high).drop low)), s)
  | other => (other, s)

/-- One store comes from another by assignments to elements of a value. -/
inductive Reassigned (v : Value) (s : Store) : Store → Prop
  | refl : Reassigned v s s
  | assign
      {t u : Store} {w e : Value} (x : Value)
      (hassigned : Reassigned v s t)
      (helement : t.invoke "[]" [v, w] = (.outcome (.result e), u)) :
      Reassigned v s (u.invoke ":=" [e, x]).2

/-- The laws of slices of a value. -/
structure Slices (s : Store) (v : Value) (items : List Value) : Prop where
  fails : ∀ w u i j, s.Truncates w i → s.Truncates u j →
    (s.invoke "[:]" [v, w, u] = (.outcome .fail, s) ↔ ¬ IsBound i items.length ∨ ¬ IsBound j items.length)
  /-- A slice has the elements between the two places, and the distance of the places for its size. -/
  between : ∀ w u i j, s.Truncates w i → s.Truncates u j → IsBound i items.length → IsBound j items.length →
    ∃ r t, s.invoke "[:]" [v, w, u] = (.outcome (.result r), t) ∧
      t.contents? r = some ((items.take (upperPlace i j items.length - 1)).drop (lowerPlace i j items.length - 1)) ∧
      t.invoke "*" [r] = (.outcome (.result (.number (Float.ofNat
        (boundPlace i items.length - boundPlace j items.length).natAbs))), t)
  comm : ∀ w u i j, s.Truncates w i → s.Truncates u j →
    s.invoke "[:]" [v, w, u] = s.invoke "[:]" [v, u, w]
  /-- What is before a place and what is after it make up the whole. -/
  parts : ∀ first w last k, s.Truncates first 1 → s.Truncates w k → s.Truncates last 0 → IsBound k items.length →
    ∃ r t q u a b, s.invoke "[:]" [v, first, w] = (.outcome (.result r), t) ∧
      t.invoke "[:]" [v, w, last] = (.outcome (.result q), u) ∧
      u.contents? r = some a ∧ u.contents? q = some b ∧ a ++ b = items ∧ u.contents? (u.deref v) = some items ∧
      ∀ x, s.deref v = .text x → u.invoke "||" [r, q] = (.outcome (.result (.text x)), u)
  /-- The slice that reaches to the next place has one element, and for a text it is that element. -/
  single : ∀ w u k, s.Truncates w k → s.Truncates u (k + 1) → 1 ≤ k → k ≤ items.length →
    ∃ e r t, s.invoke "[]" [v, w] = (.outcome (.result e), s) ∧ s.invoke "[:]" [v, w, u] = (.outcome (.result r), t) ∧
      t.contents? r = some [s.content e] ∧ ∀ x, s.deref v = .text x → r = e
  /-- A slice of a list is a list with cells of its own, and assignments to elements of one do not change the other. -/
  fresh : ∀ id, s.deref v = .list id → ∀ w u r t, s.invoke "[:]" [v, w, u] = (.outcome (.result r), t) →
    ∃ new, r = .list new ∧ (t.listCells new).toList.Nodup ∧ (∀ c ∈ t.listCells new, s.IsNew t c) ∧
      (∀ x, t.Reassigned r x → x.contents? (x.deref v) = some items) ∧
      ∀ x, t.Reassigned (.list id) x → x.contents? r = t.contents? r
  saturated : ∀ w i, s.Truncates w i → IsWord i
  /-- In 64 bits the range between the bounds is computed without overflow, and it lies in the sequence. -/
  words : IsWord (items.length + 1) → ∀ i j, IsWord i → IsWord j →
    sliceRangeWord? i j items.length = some (sliceRange i j items.length)

end Store

end Defs

section Slices

namespace Store

variable {s t u : Store} {v w w' : Value} {i j : Int} {items : List Value} {low high : Nat}

/-! ## Stores that grow -/

theorem Extends.refl (s : Store) : s.Extends s :=
  ⟨Nat.le_refl _, fun _ _ => rfl, Nat.le_refl _, fun _ _ => rfl⟩

theorem Extends.trans
    (h : s.Extends t)
    (h' : t.Extends u) :
    s.Extends u := by
  refine ⟨Nat.le_trans h.size h'.size, ?_, Nat.le_trans h.lists h'.lists, ?_⟩
  · intro c hc
    rw [h'.read c (Nat.lt_of_lt_of_le hc h.size), h.read c hc]
  · intro id hid
    rw [h'.listCells id (Nat.lt_of_lt_of_le hid h.lists), h.listCells id hid]

theorem extends_newList (s : Store) (values : Array Value) : s.Extends (s.newList values).2 where
  size := by
    rw [size_newList]
    exact Nat.le_add_right _ _
  read := fun _ hc => read_newList_of_lt values hc
  lists := by simp [newList]
  listCells := by
    intro id hid
    simp [newList, listCells, Array.getD_eq_getD_getElem?, Array.getElem?_push, Nat.ne_of_lt hid]

/-- References that lead to something lead to the same later on.  A cell that the store does not have leads to nil. -/
theorem Extends.derefWithin
    (h : s.Extends t)
    {fuel fuel' : Nat}
    (hfuel : fuel ≤ fuel')
    (href : (s.derefWithin fuel v).isRef = false)
    (hnil : s.derefWithin fuel v ≠ .nil) :
    t.derefWithin fuel' v = s.derefWithin fuel v := by
  -- The later store has more cells, hence more fuel.
  induction fuel generalizing v fuel' with
  | zero => exact t.derefWithin_of_not_isRef fuel' href
  | succ fuel ih =>
      cases v with
      | ref c =>
          obtain ⟨rest, rfl⟩ := Nat.exists_eq_add_of_le' hfuel
          have hc : c < s.cells.size := by
            by_contra hc
            have hread : s.read c = .nil := by simp [Store.read, Array.getD, hc]
            refine hnil ?_
            rw [Store.derefWithin, hread]
            exact s.derefWithin_of_not_isRef fuel rfl
          change t.derefWithin (rest + fuel) (t.read c) = s.derefWithin fuel (s.read c)
          rw [h.read c hc]
          exact ih (Nat.le_add_left _ _) href hnil
      | _ => exact t.derefWithin_of_not_isRef fuel' rfl

theorem Extends.deref
    (h : s.Extends t)
    (href : (s.deref v).isRef = false)
    (hnil : s.deref v ≠ .nil) :
    t.deref v = s.deref v :=
  h.derefWithin (Nat.succ_le_succ h.size) href hnil

theorem Extends.truncates
    (h : s.Extends t)
    (hw : s.Truncates w i) :
    t.Truncates w i := by
  obtain ⟨x, hx, hi⟩ := hw
  have hderef : t.deref w = s.deref w := by
    unfold toNumber at hx
    refine h.deref ?_ ?_
    · cases hu : s.deref w <;> rw [hu] at hx <;> first | rfl | cases hx
    · intro hu
      rw [hu] at hx
      cases hx
  refine ⟨x, ?_, hi⟩
  rw [← hx, toNumber, toNumber, hderef]

theorem Extends.contents?
    (h : s.Extends t)
    (hv : s.Has v) :
    t.contents? v = s.contents? v := by
  cases v with
  | list id =>
      have hvalues : t.listValues id = s.listValues id := by
        rw [Store.listValues, h.listCells id hv.1]
        exact Array.map_congr_left fun c hc => h.read c (hv.2 c hc)
      simp only [Store.contents?, hvalues]
  | _ => rfl

/-! ## Sequences -/

theorem isRef_of_contents?
    (h : s.contents? v = some items) :
    v.isRef = false := by
  cases v <;> first | rfl | cases h

theorem deref_of_contents?
    (h : s.contents? v = some items) :
    t.deref v = v :=
  t.derefWithin_of_not_isRef _ (isRef_of_contents? h)

/-- A later store still has the sequence. -/
theorem Extends.contents?_deref
    (h : s.Extends t)
    (hcontents : s.contents? (s.deref v) = some items)
    (hv : s.Has (s.deref v)) :
    t.deref v = s.deref v ∧ t.contents? (t.deref v) = some items := by
  have hderef : t.deref v = s.deref v := by
    refine h.deref (isRef_of_contents? hcontents) ?_
    intro hnil
    rw [hnil] at hcontents
    cases hcontents
  exact ⟨hderef, by rw [hderef, h.contents? hv, hcontents]⟩

/-- What a sequence is made of are the places of its values, or they themselves. -/
theorem comprises_of_contents?
    (h : s.contents? v = some items) :
    ∃ places, s.Comprises v places ∧ items = places.map s.content := by
  cases v with
  | list id =>
      cases h
      refine ⟨_, .list id, ?_⟩
      simp [listValues, content]
  | text t =>
      cases h
      refine ⟨_, .text t, ?_⟩
      simp [characters, content]
  | _ => cases h

theorem invoke_size_of_contents?
    (h : s.contents? v = some items) :
    s.invoke "*" [v] = (.outcome (.result (.number (Float.ofNat items.length))), s) := by
  obtain ⟨places, hplaces, rfl⟩ := comprises_of_contents? h
  rw [invoke_size, deref_of_contents? h, hplaces.size, List.length_map]
  rfl

/-- Between an index and the next one there is one element. -/
theorem drop_take_succ
    {k : Nat} {x : Value}
    (h : items[k]? = some x) :
    (items.take (k + 1)).drop k = [x] := by
  obtain ⟨hlt, rfl⟩ := List.getElem?_eq_some_iff.mp h
  rw [List.drop_take, Nat.add_sub_cancel_left, List.drop_eq_getElem_cons hlt, List.take_succ_cons, List.take_zero]

theorem characters_append (a b : String) : characters (a ++ b) = characters a ++ characters b := by
  simp [characters]

theorem characters_injective : Function.Injective characters := by
  intro a b hab
  have hsingleton : Function.Injective fun c : Char => Value.text (.singleton c) := by
    intro c d hcd
    have htext : String.singleton c = String.singleton d := Value.text.inj hcd
    simpa using congrArg String.toList htext
  exact String.toList_inj.mp (hsingleton.list_map hab)

/-! ## The operator -/

theorem invoke_slice (s : Store) (v w w' : Value) :
    s.invoke "[:]" [v, w, w'] =
      match s.slice v (s.deref w) (s.deref w') with
      | .ok (o, t) => (.outcome o, t)
      | .error f => (.fault f, s) := by
  have hlookup : Operator.lookup? "[:]" 3 = some ⟨"[:]", 3, [0], .slice⟩ := rfl
  exact s.invoke_of_lookup? [v, w, w'] hlookup

theorem bounds_eq
    (hw : s.Truncates w i)
    (hw' : s.Truncates w' j)
    (n : Nat) :
    s.bounds (s.deref w) (s.deref w') n = .ok (sliceRange i j n) := by
  obtain ⟨x, hx, rfl⟩ := hw
  obtain ⟨y, hy, rfl⟩ := hw'
  simp only [bounds, numbers, toNumber_deref hx, toNumber_deref hy]
  rfl

theorem slice_eq
    (h : s.contents? (s.deref v) = some items)
    (w w' : Value) :
    s.slice v w w' = (s.bounds w w' items.length).map fun
      | some (low, high) => (.result (s.cut (s.deref v) low high).1, (s.cut (s.deref v) low high).2)
      | none => (.fail, s) := by
  rw [slice]
  cases hv : s.deref v with
  | list id =>
      rw [hv] at h
      cases h
      simp only [Array.length_toList, bind, Except.bind]
      rcases s.bounds w w' (s.listValues id).size with f | _ | range <;> rfl
  | text x =>
      rw [hv] at h
      cases h
      simp only [characters, List.length_map, bind, Except.bind]
      rcases s.bounds w w' x.toList.length with f | _ | range <;> rfl
  | _ =>
      rw [hv] at h
      cases h

/-- All that slicing does. -/
theorem invoke_slice_eq
    (h : s.contents? (s.deref v) = some items)
    (hw : s.Truncates w i)
    (hw' : s.Truncates w' j) :
    s.invoke "[:]" [v, w, w'] =
      match sliceRange i j items.length with
      | some (low, high) =>
          (.outcome (.result (s.cut (s.deref v) low high).1), (s.cut (s.deref v) low high).2)
      | none => (.outcome .fail, s) := by
  rw [invoke_slice, slice_eq h, bounds_eq hw hw']
  cases sliceRange i j items.length <;> rfl

/-- Whatever the bounds are, a result is a part of the value. -/
theorem cut_of_invoke_slice
    {r : Value}
    (h : s.contents? (s.deref v) = some items)
    (hslice : s.invoke "[:]" [v, w, w'] = (.outcome (.result r), t)) :
    ∃ low high, s.cut (s.deref v) low high = (r, t) := by
  rw [invoke_slice, slice_eq h] at hslice
  rcases hbounds : s.bounds (s.deref w) (s.deref w') items.length with f | _ | range <;> rw [hbounds] at hslice
  · cases hslice
  · cases hslice
  · cases hslice
    exact ⟨_, _, rfl⟩

theorem extends_cut (s : Store) (v : Value) (low high : Nat) : s.Extends (s.cut v low high).2 := by
  cases v with
  | list id => exact extends_newList s _
  | _ => exact Extends.refl s

/-- The cells of a new list are new, and no two of them are the same. -/
theorem isNew_newList (s : Store) (values : Array Value) :
    ((s.newList values).2.listCells s.lists.size).toList.Nodup ∧
      ∀ c ∈ (s.newList values).2.listCells s.lists.size, s.IsNew (s.newList values).2 c := by
  rw [listCells_newList, Array.toList_range']
  refine ⟨List.nodup_range', ?_⟩
  intro c hc
  obtain ⟨k, hk, rfl⟩ := Array.mem_range'.mp hc
  rw [Nat.one_mul]
  refine ⟨Nat.le_add_right _ _, ?_⟩
  rw [size_newList]
  exact Nat.add_lt_add_left hk _

theorem has_newList (s : Store) (values : Array Value) : (s.newList values).2.Has (s.newList values).1 :=
  ⟨by simp [newList], fun c hc => ((isNew_newList s values).2 c hc).2⟩

/-- The store that is made with a slice has it. -/
theorem has_cut
    (h : s.contents? v = some items)
    (low high : Nat) :
    (s.cut v low high).2.Has (s.cut v low high).1 := by
  cases v with
  | list id => exact has_newList s _
  | text t => trivial
  | _ => cases h

/-- The contents of a slice are those between the two indices. -/
theorem contents?_cut
    (h : s.contents? v = some items)
    (low high : Nat) :
    (s.cut v low high).2.contents? (s.cut v low high).1 = some ((items.take high).drop low) := by
  cases v with
  | list id =>
      cases h
      have hvalues : (s.newList ((s.listValues id).extract low high)).2.listValues s.lists.size =
          (s.listValues id).extract low high := listValues_newList rfl fun _ _ => rfl
      simp only [cut, newList, Store.contents?] at hvalues ⊢
      rw [hvalues, Array.toList_extract, List.extract_eq_take_drop, List.drop_take]
  | text t =>
      cases h
      simp [cut, Store.contents?, characters, List.map_drop, List.map_take]
  | _ => cases h

theorem invoke_concatenate_text (s : Store) (a b : String) :
    s.invoke "||" [.text a, .text b] = (.outcome (.result (.text (a ++ b))), s) := by
  have hlookup : Operator.lookup? "||" 2 = some ⟨"||", 2, [], .concatenate⟩ := rfl
  exact s.invoke_of_lookup? [.text a, .text b] hlookup

/-! ## Assignments to elements -/

theorem invoke_assign (s : Store) (c : CellId) (v : Value) :
    s.invoke ":=" [.ref c, v] = (.outcome (.result (.ref c)), s.write c (s.deref v)) := by
  have hlookup : Operator.lookup? ":=" 2 = some ⟨":=", 2, [0], .assign⟩ := rfl
  exact s.invoke_of_lookup? [.ref c, v] hlookup

theorem subscript_list (s : Store) (id : Nat) (w : Value) :
    s.subscript (.list id) w = (s.toNumber w).map fun x =>
      placeOrFail ((elementIndex (Number.truncated x) (s.listCells id).size).bind fun k => (s.listCells id)[k]?) := by
  change (s.toNumber w).bind _ = _
  cases s.toNumber w <;> rfl

/-- An element of a list is one of its cells. -/
theorem ref_of_invoke_subscript
    {id : Nat} {e : Value}
    (h : s.invoke "[]" [.list id, w] = (.outcome (.result e), t)) :
    t = s ∧ ∃ c ∈ s.listCells id, e = .ref c := by
  rw [invoke_subscript, subscript_list, Prod.mk.injEq] at h
  obtain ⟨h, rfl⟩ := h
  refine ⟨rfl, ?_⟩
  cases hx : s.toNumber (s.deref w) with
  | error f =>
      rw [hx] at h
      cases h
  | ok x =>
      rw [hx, Except.map] at h
      cases hplace : (elementIndex (Number.truncated x) (s.listCells id).size).bind fun k => (s.listCells id)[k]? with
      | none =>
          rw [hplace] at h
          cases h
      | some c =>
          rw [hplace] at h
          cases h
          obtain ⟨k, -, hk⟩ := Option.bind_eq_some_iff.mp hplace
          exact ⟨c, Array.mem_of_getElem? hk, rfl⟩

/-- Assignments to elements of a list change none but its cells. -/
theorem Reassigned.run
    {id : Nat}
    (h : s.Reassigned (.list id) t) :
    t.cells.size = s.cells.size ∧ t.lists = s.lists ∧ ∀ c, c ∉ s.listCells id → t.read c = s.read c := by
  induction h with
  | refl => exact ⟨rfl, rfl, fun _ _ => rfl⟩
  | assign x hassigned helement ih =>
      obtain ⟨hsize, hlists, hread⟩ := ih
      obtain ⟨rfl, c, hc, rfl⟩ := ref_of_invoke_subscript helement
      rw [invoke_assign]
      refine ⟨by rw [size_write, hsize], hlists, ?_⟩
      intro d hd
      have hne : d ≠ c := by
        rintro rfl
        rw [Store.listCells, hlists] at hc
        exact hd hc
      rw [read_write_of_ne _ _ hne, hread d hd]

/-- Assignments to elements of a list that was made later change nothing that was there. -/
theorem Reassigned.extends
    {id : Nat}
    (h : t.Reassigned (.list id) u)
    (hextends : s.Extends t)
    (hnew : ∀ c ∈ t.listCells id, s.IsNew t c) :
    s.Extends u := by
  obtain ⟨hsize, hlists, hread⟩ := h.run
  refine ⟨hsize ▸ hextends.size, ?_, hlists ▸ hextends.lists, ?_⟩
  · intro c hc
    rw [hread c fun hmem => Nat.not_lt_of_le (hnew c hmem).1 hc, hextends.read c hc]
  · intro other hother
    rw [Store.listCells, hlists]
    exact hextends.listCells other hother

/-- Assignments to elements of a list do not change a list that shares no cell with it. -/
theorem Reassigned.contents?_list
    {id other : Nat}
    (h : s.Reassigned (.list id) t)
    (hdisjoint : ∀ c ∈ s.listCells other, c ∉ s.listCells id) :
    t.contents? (.list other) = s.contents? (.list other) := by
  obtain ⟨-, hlists, hread⟩ := h.run
  have hcells : t.listCells other = s.listCells other := by
    rw [Store.listCells, hlists, Store.listCells]
  have hvalues : t.listValues other = s.listValues other := by
    rw [listValues, hcells]
    exact Array.map_congr_left fun c hc => hread c (hdisjoint c hc)
  simp only [Store.contents?, hvalues]

/-! ## The laws -/

section Laws

variable (h : s.contents? (s.deref v) = some items)
include h

/-- A slice between two indices. -/
theorem invoke_slice_of_range
    (hw : s.Truncates w i)
    (hw' : s.Truncates w' j)
    (hrange : sliceRange i j items.length = some (low, high)) :
    s.invoke "[:]" [v, w, w'] =
      (.outcome (.result (s.cut (s.deref v) low high).1), (s.cut (s.deref v) low high).2) := by
  rw [invoke_slice_eq h hw hw', hrange]

/-- A slice between two bounds. -/
theorem invoke_slice_of_isBound
    (hw : s.Truncates w i)
    (hw' : s.Truncates w' j)
    (hi : IsBound i items.length)
    (hj : IsBound j items.length) :
    ∃ r t, s.invoke "[:]" [v, w, w'] = (.outcome (.result r), t) ∧ s.Extends t ∧ t.Has r ∧
      t.contents? r = some ((items.take (upperPlace i j items.length - 1)).drop (lowerPlace i j items.length - 1)) := by
  have hrange := sliceRange_eq hi hj
  exact ⟨_, _, invoke_slice_of_range h hw hw' hrange, extends_cut s (s.deref v) _ _, has_cut h _ _,
    contents?_cut h _ _⟩

theorem invoke_slice_eq_fail_iff
    (hw : s.Truncates w i)
    (hw' : s.Truncates w' j) :
    s.invoke "[:]" [v, w, w'] = (.outcome .fail, s) ↔ ¬ IsBound i items.length ∨ ¬ IsBound j items.length := by
  rw [← sliceRange_eq_none_iff, invoke_slice_eq h hw hw']
  cases sliceRange i j items.length with
  | none => simp
  | some range => simp [Answer.outcome]

theorem invoke_slice_comm
    (hw : s.Truncates w i)
    (hw' : s.Truncates w' j) :
    s.invoke "[:]" [v, w, w'] = s.invoke "[:]" [v, w', w] := by
  rw [invoke_slice_eq h hw hw', invoke_slice_eq h hw' hw, sliceRange_comm]

/-- The size of a slice is the distance of the places. -/
theorem invoke_slice_size
    (hw : s.Truncates w i)
    (hw' : s.Truncates w' j)
    (hi : IsBound i items.length)
    (hj : IsBound j items.length) :
    ∃ r t, s.invoke "[:]" [v, w, w'] = (.outcome (.result r), t) ∧
      t.contents? r = some ((items.take (upperPlace i j items.length - 1)).drop (lowerPlace i j items.length - 1)) ∧
      t.invoke "*" [r] = (.outcome (.result (.number (Float.ofNat
        (boundPlace i items.length - boundPlace j items.length).natAbs))), t) := by
  obtain ⟨r, t, hslice, -, -, hcontents⟩ := invoke_slice_of_isBound h hw hw' hi hj
  have hlength : ((items.take (upperPlace i j items.length - 1)).drop (lowerPlace i j items.length - 1)).length =
      (boundPlace i items.length - boundPlace j items.length).natAbs := by
    have hupper := upperPlace_le hi hj
    rw [List.length_drop, List.length_take, Nat.min_eq_left (by omega), upperPlace_sub_lowerPlace hi hj]
  exact ⟨r, t, hslice, hcontents, hlength ▸ invoke_size_of_contents? hcontents⟩

/-- The two parts of a sequence, the second one taken after the first. -/
theorem invoke_slice_parts
    {first last : Value} {k : Int}
    (hv : s.Has (s.deref v))
    (hfirst : s.Truncates first 1)
    (hw : s.Truncates w k)
    (hlast : s.Truncates last 0)
    (hk : IsBound k items.length) :
    ∃ r t q u a b, s.invoke "[:]" [v, first, w] = (.outcome (.result r), t) ∧
      t.invoke "[:]" [v, w, last] = (.outcome (.result q), u) ∧
      u.contents? r = some a ∧ u.contents? q = some b ∧ a ++ b = items ∧
      u.deref v = s.deref v ∧ u.contents? (u.deref v) = some items := by
  have hone : IsBound 1 items.length := ⟨by omega, by omega⟩
  have hzero : IsBound 0 items.length := ⟨by omega, by omega⟩
  obtain ⟨r, t, hslice, hextends, hhas, hr⟩ := invoke_slice_of_isBound h hfirst hw hone hk
  obtain ⟨-, hcontents⟩ := hextends.contents?_deref h hv
  obtain ⟨q, u, hslice', hextends', -, hq⟩ :=
    invoke_slice_of_isBound hcontents (hextends.truncates hw) (hextends.truncates hlast) hk hzero
  refine ⟨r, t, q, u, _, _, hslice, hslice', (hextends'.contents? hhas).trans hr, hq, ?_,
    (hextends.trans hextends').contents?_deref h hv⟩
  obtain ⟨hlower, hupper⟩ := places_one hk
  obtain ⟨hlower', hupper'⟩ := places_zero hk
  rw [hlower, hupper, hlower', hupper', Nat.sub_self, List.drop_zero, Nat.add_sub_cancel, List.take_length,
    List.take_append_drop]

/-- The slice of one element. -/
theorem invoke_slice_single
    {k : Int}
    (hw : s.Truncates w k)
    (hw' : s.Truncates w' (k + 1))
    (hlow : 1 ≤ k)
    (hhigh : k ≤ items.length) :
    ∃ e r t, s.invoke "[]" [v, w] = (.outcome (.result e), s) ∧ s.invoke "[:]" [v, w, w'] = (.outcome (.result r), t) ∧
      t.contents? r = some [s.content e] ∧ ∀ x, s.deref v = .text x → ∃ c, e = .text (.singleton c) := by
  obtain ⟨places, hplaces, rfl⟩ := comprises_of_contents? h
  rw [List.length_map] at hhigh
  have hsubscripts : s.Subscripts v w k := by
    refine ⟨hw, ?_⟩
    intro id name hrecord
    rw [hrecord] at h
    cases h
  have hindex : elementIndex k places.length = some (k - 1).toNat :=
    elementIndex_eq_some_iff.mpr (Or.inl (by omega))
  obtain ⟨e, he, helement⟩ := invoke_of_elementIndex hplaces hsubscripts hindex
  have hk : IsBound k (places.map s.content).length := ⟨by omega, by rw [List.length_map]; omega⟩
  have hk' : IsBound (k + 1) (places.map s.content).length := ⟨by omega, by rw [List.length_map]; omega⟩
  obtain ⟨r, t, hslice, -, -, hr⟩ := invoke_slice_of_isBound h hw hw' hk hk'
  have hcharacter : ∀ x, s.deref v = .text x → ∃ c, e = .text (.singleton c) := by
    intro x hx
    rw [hx] at hplaces
    cases hplaces
    obtain ⟨c, -, hc⟩ := List.mem_map.mp (List.mem_of_getElem? he)
    exact ⟨c, hc.symm⟩
  refine ⟨e, r, t, helement, hslice, ?_, hcharacter⟩
  obtain ⟨hlower, hupper⟩ := places_succ hlow (places.map s.content).length
  have hpred : k.toNat - 1 = (k - 1).toNat := by omega
  have hsucc : k.toNat = (k - 1).toNat + 1 := by omega
  have hvalue : (places.map s.content)[(k - 1).toNat]? = some (s.content e) := by rw [List.getElem?_map, he]; rfl
  rw [hr, hlower, hupper, hpred, Nat.add_sub_cancel, hsucc, drop_take_succ hvalue]

/-- A slice of a text is a text, and nothing is made for it. -/
theorem text_of_invoke_slice
    {x : String} {r : Value}
    (hv : s.deref v = .text x)
    (hslice : s.invoke "[:]" [v, w, w'] = (.outcome (.result r), t)) :
    t = s ∧ ∃ y, r = .text y := by
  obtain ⟨low, high, hcut⟩ := cut_of_invoke_slice h hslice
  rw [hv] at hcut
  cases hcut
  exact ⟨rfl, _, rfl⟩

/-- A slice of a list is a new list with new cells. -/
theorem list_of_invoke_slice
    {id : Nat} {r : Value}
    (hv : s.deref v = .list id)
    (hslice : s.invoke "[:]" [v, w, w'] = (.outcome (.result r), t)) :
    s.Extends t ∧ ∃ new, r = .list new ∧ (t.listCells new).toList.Nodup ∧ ∀ c ∈ t.listCells new, s.IsNew t c := by
  obtain ⟨low, high, hcut⟩ := cut_of_invoke_slice h hslice
  rw [hv] at hcut
  cases hcut
  exact ⟨extends_newList s _, _, rfl, isNew_newList s _⟩

end Laws

end Store

/-- The laws of slices hold for every list and every text. -/
theorem Store.slices_of_contents
    {s : Store} {v : Value} {items : List Value}
    (h : s.contents? (s.deref v) = some items)
    (hv : s.Has (s.deref v)) :
    s.Slices v items where
  fails := fun _ _ _ _ hw hu => Store.invoke_slice_eq_fail_iff h hw hu
  between := fun _ _ _ _ hw hu hi hj => Store.invoke_slice_size h hw hu hi hj
  comm := fun _ _ _ _ hw hu => Store.invoke_slice_comm h hw hu
  parts := by
    intro first w last k hfirst hw hlast hk
    obtain ⟨r, t, q, u, a, b, hslice, hslice', hr, hq, happend, hderef, hcontents⟩ :=
      Store.invoke_slice_parts h hv hfirst hw hlast hk
    refine ⟨r, t, q, u, a, b, hslice, hslice', hr, hq, happend, hcontents, ?_⟩
    intro x hx
    obtain ⟨rfl, y, rfl⟩ := Store.text_of_invoke_slice h hx hslice
    obtain ⟨rfl, z, rfl⟩ := Store.text_of_invoke_slice h hx hslice'
    cases hr
    cases hq
    rw [hx] at h
    cases h
    rw [Store.invoke_concatenate_text, characters_injective ((characters_append y z).trans happend)]
  single := by
    intro w u k hw hu hlow hhigh
    obtain ⟨e, r, t, helement, hslice, hr, hcharacter⟩ := Store.invoke_slice_single h hw hu hlow hhigh
    refine ⟨e, r, t, helement, hslice, hr, ?_⟩
    intro x hx
    obtain ⟨-, y, rfl⟩ := Store.text_of_invoke_slice h hx hslice
    obtain ⟨c, rfl⟩ := hcharacter x hx
    have hsingle : characters (.singleton c) = [.text (.singleton c)] := by simp [characters]
    exact congrArg Value.text (characters_injective ((Option.some.inj hr).trans hsingle.symm))
  fresh := by
    intro id hid w u r t hslice
    obtain ⟨hextends, new, rfl, hnodup, hnew⟩ := Store.list_of_invoke_slice h hid hslice
    refine ⟨new, rfl, hnodup, hnew, ?_, ?_⟩
    · intro x hx
      exact ((hx.extends hextends hnew).contents?_deref h hv).2
    · intro x hx
      rw [hid] at hv
      refine hx.contents?_list ?_
      intro c hc hc'
      rw [hextends.listCells id hv.1] at hc'
      exact Nat.not_lt_of_le (hnew c hc).1 (hv.2 c hc')
  saturated := fun _ _ hw => hw.saturated
  words := fun hlength _ _ hi hj => sliceRangeWord?_eq hi hj hlength

/-- The slice of a list of two elements up to the last one, and an assignment to the element of that slice. -/
theorem Store.slices_of_contents_letters :
    let s : Store := { cells := #[.text "a", .text "b", .list 0], lists := #[#[0, 1]] }
    s.contents? (s.deref (.ref 2)) = some [.text "a", .text "b"] ∧ s.Has (s.deref (.ref 2)) ∧
      s.Slices (.ref 2) [.text "a", .text "b"] ∧
      ∃ t u, s.invoke "[:]" [.ref 2, .number 1.0, .number (-1.0)] = (.outcome (.result (.list 1)), t) ∧
        t.contents? (.list 1) = some [.text "a"] ∧ t.Reassigned (.list 1) u ∧
        u.contents? (.list 1) = some [.text "c"] ∧ u.contents? (u.deref (.ref 2)) = some [.text "a", .text "b"] := by
  intro s
  have hcontents : s.contents? (s.deref (.ref 2)) = some [.text "a", .text "b"] := by
    simp [s, Store.deref, Store.derefWithin, Store.read, Store.contents?, Store.listValues, Store.listCells]
  have hhas : s.Has (s.deref (.ref 2)) := ⟨by decide, by decide⟩
  have hslices := Store.slices_of_contents hcontents hhas
  have hone : s.Truncates (.number 1.0) 1 := ⟨1.0, rfl, by decide⟩
  have hlast : s.Truncates (.number (-1.0)) (-1) := ⟨-1.0, rfl, by decide⟩
  have hrange : sliceRange 1 (-1) 2 = some (0, 1) := by decide
  have hcut : s.cut (s.deref (.ref 2)) 0 1 = s.newList #[.text "a"] := by
    simp [s, Store.deref, Store.derefWithin, Store.read, Store.cut, Store.listValues, Store.listCells]
  have hslice := Store.invoke_slice_of_range hcontents hone hlast hrange
  rw [hcut] at hslice
  have helement : (s.newList #[.text "a"]).2.invoke "[]" [.list 1, .number 1.0] =
      (.outcome (.result (.ref 3)), (s.newList #[.text "a"]).2) := by
    rw [Store.invoke_subscript, Store.subscript_list]
    change (Answer.ofExcept (.ok (Store.placeOrFail ((elementIndex (Number.truncated 1.0) 1).bind _))), _) = _
    have htruncated : Number.truncated 1.0 = 1 := by decide
    rw [htruncated]
    rfl
  have hassigned := Store.Reassigned.assign (.text "c") .refl helement
  obtain ⟨new, hnew, -, -, hkept, -⟩ := hslices.fresh 0 rfl _ _ _ _ hslice
  cases hnew
  refine ⟨hcontents, hhas, hslices, _, _, hslice, ?_, hassigned, ?_, hkept _ hassigned⟩
  · simp [s, Store.newList, Store.read, Store.contents?, Store.listValues, Store.listCells]
  · rw [Store.invoke_assign]
    simp [s, Store.newList, Store.read, Store.write, Store.deref, Store.derefWithin, Store.contents?,
      Store.listValues, Store.listCells]

end Slices

end GoalDirected
