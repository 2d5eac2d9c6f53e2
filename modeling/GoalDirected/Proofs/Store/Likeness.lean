import GoalDirected.Proofs.Store.Answers
import Mathlib.Data.List.Forall2

/-!
# Stores that look alike

**Input.** Two stores and a relation between their cells.

**Argument.** The relation is one to one, and cells that correspond hold the same scalar.  An operator that gets the
same scalars, or references to cells that correspond, cannot tell the stores apart, as long as it does not ask a
co-expression for a value.

**Results.**
* `Value.Alike`, `Store.Alike`: values and stores that cannot be told apart.
* `Store.Local`: a change that leaves other frames and other cells as they are.
* `invoke_alike`: operators give like answers, and leave stores that are alike.
-/

namespace GoalDirected

section Likeness

/-! ## Values -/

/-- Nil, a number or a text: a value that has no identity. -/
def Value.isScalar : Value → Bool
  | .nil => true
  | .number _ => true
  | .text _ => true
  | _ => false

/-- The same scalar, or references to cells that correspond. -/
inductive Value.Alike (R : CellId → CellId → Prop) : Value → Value → Prop
  | scalar
      {v : Value}
      (h : v.isScalar = true) :
      Value.Alike R v v
  | ref
      {c d : CellId}
      (h : R c d) :
      Value.Alike R (.ref c) (.ref d)

/-- What is left to do of a generator that gives scalars and looks at no store. -/
def Continuation.IsPure : Continuation → Prop
  | .values rest => ∀ v ∈ rest, v.isScalar = true
  | .count _ _ => True
  | _ => False

/-- Outcomes with values that are alike, and with the same continuation. -/
inductive Outcome.Alike (R : CellId → CellId → Prop) : Outcome → Outcome → Prop
  | fail : Outcome.Alike R .fail .fail
  | result
      {v w : Value}
      (h : v.Alike R w) :
      Outcome.Alike R (.result v) (.result w)
  | suspended
      {v w : Value} {k : Continuation}
      (h : v.Alike R w)
      (hk : k.IsPure) :
      Outcome.Alike R (.suspended v k) (.suspended w k)

/-- All offending values are scalars. -/
def Fault.IsScalar : Fault → Prop
  | .exception _ offending => ∀ v ∈ offending, v.isScalar = true
  | .malfunction _ => True

/-- The same fault, or outcomes that are alike. -/
inductive Reply.Alike (R : CellId → CellId → Prop) : Reply → Reply → Prop
  | outcome
      {o o' : Outcome}
      (h : o.Alike R o') :
      Reply.Alike R (.outcome o) (.outcome o')
  | fault
      {f : Fault}
      (h : f.IsScalar) :
      Reply.Alike R (.fault f) (.fault f)

theorem Value.isRef_of_isScalar
    {v : Value}
    (h : v.isScalar = true) :
    v.isRef = false := by
  cases v <;> first | rfl | cases h

namespace Value.Alike

variable {R S : CellId → CellId → Prop} {v w : Value}

theorem mono
    (h : v.Alike R w)
    (hRS : ∀ c d, R c d → S c d) :
    v.Alike S w := by
  cases h with
  | scalar h => exact .scalar h
  | ref h => exact .ref (hRS _ _ h)

/-- Only references can differ. -/
theorem of_isRef
    (h : v.Alike R w)
    (hv : v.isRef = false) :
    w = v ∧ v.isScalar = true := by
  cases h with
  | scalar h => exact ⟨rfl, h⟩
  | ref h => cases hv

end Value.Alike

/-- The same generator goes on, and it is one of scalars. -/
theorem Outcome.Alike.next?
    {R : CellId → CellId → Prop} {o o' : Outcome}
    (h : o.Alike R o') :
    o'.next? = o.next? ∧ ∀ k, o.next? = some k → k.IsPure := by
  cases h with
  | fail => exact ⟨rfl, by rintro _ ⟨⟩⟩
  | result _ => exact ⟨rfl, by rintro _ ⟨⟩⟩
  | suspended _ hk =>
      refine ⟨rfl, ?_⟩
      rintro _ ⟨⟩
      exact hk

/-! ## Results -/

/-- The same error, or results that are related. -/
inductive Agrees {ε α β : Type} (E : ε → Prop) (P : α → β → Prop) : Except ε α → Except ε β → Prop
  | ok
      {a : α} {b : β}
      (h : P a b) :
      Agrees E P (.ok a) (.ok b)
  | error
      {e : ε}
      (h : E e) :
      Agrees E P (.error e) (.error e)

namespace Agrees

variable {ε α β α' β' : Type} {E : ε → Prop} {P : α → β → Prop} {Q : α' → β' → Prop} {x : Except ε α}
  {y : Except ε β}

theorem bind
    {f : α → Except ε α'} {g : β → Except ε β'}
    (h : Agrees E P x y)
    (hnext : ∀ a b, P a b → Agrees E Q (f a) (g b)) :
    Agrees E Q (x.bind f) (y.bind g) := by
  cases h with
  | ok h => exact hnext _ _ h
  | error h => exact .error h

theorem map
    {f : α → α'} {g : β → β'}
    (h : Agrees E P x y)
    (hnext : ∀ a b, P a b → Q (f a) (g b)) :
    Agrees E Q (x.map f) (y.map g) := by
  cases h with
  | ok h => exact .ok (hnext _ _ h)
  | error h => exact .error h

end Agrees

/-! ## Stores -/

/-- The relation is one to one, and cells that correspond hold the same scalar. -/
structure Store.Alike (R : CellId → CellId → Prop) (s t : Store) : Prop where
  functional : ∀ c d d', R c d → R c d' → d = d'
  injective : ∀ c c' d, R c d → R c' d → c = c'
  bounded : ∀ c d : Nat, R c d → c < s.cells.size ∧ d < t.cells.size
  content : ∀ c d, R c d → t.read d = s.read c ∧ (s.read c).isScalar = true

/-- Frames other than `n`, cells outside of `D` and all global names are as they were. -/
structure Store.Local (n : Nat) (D : CellId → Prop) (s t : Store) : Prop where
  size : s.cells.size ≤ t.cells.size
  content : ∀ c : Nat, c < s.cells.size → ¬ D c → t.read c = s.read c
  frames : ∀ m : Nat, m ≠ n → t.frames[m]? = s.frames[m]?
  namespaces : t.namespaces = s.namespaces

/-- The cells on the left of a relation. -/
def Left (R : CellId → CellId → Prop) (c : CellId) : Prop :=
  ∃ d, R c d

/-- The cells on the right of a relation. -/
def Right (R : CellId → CellId → Prop) (d : CellId) : Prop :=
  ∃ c, R c d

namespace Store

variable {R : CellId → CellId → Prop} {D : CellId → Prop} {s t u : Store} {n : Nat}

theorem Local.refl (n : Nat) (D : CellId → Prop) (s : Store) : s.Local n D s :=
  ⟨Nat.le_refl _, fun _ _ _ => rfl, fun _ _ => rfl, rfl⟩

theorem Local.trans
    {D' : CellId → Prop}
    (h : s.Local n D t)
    (h' : t.Local n D' u)
    (hD : ∀ c : Nat, D' c → D c ∨ s.cells.size ≤ c) :
    s.Local n D u := by
  refine ⟨Nat.le_trans h.size h'.size, ?_, ?_, h'.namespaces.trans h.namespaces⟩
  · intro c hc hnot
    have hnot' : ¬ D' c := fun hD' => (hD c hD').elim hnot (Nat.not_le_of_lt hc)
    rw [h'.content c (Nat.lt_of_lt_of_le hc h.size) hnot', h.content c hc hnot]
  · intro m hm
    rw [h'.frames m hm, h.frames m hm]

theorem Local.write
    {c : Nat}
    (hc : D c)
    (v : Value) :
    s.Local n D (s.write c v) := by
  refine ⟨Nat.le_of_eq (s.size_write c v).symm, ?_, fun _ _ => rfl, rfl⟩
  intro c' _ hnot
  exact s.read_write_of_ne v fun heq => hnot (heq ▸ hc)

theorem Local.setFrame (s : Store) (n : Nat) (D : CellId → Prop) (f : Frame) : s.Local n D (s.setFrame n f) := by
  refine ⟨Nat.le_refl _, fun _ _ _ => rfl, ?_, rfl⟩
  intro m hm
  simp only [Store.setFrame, Array.getElem?_setIfInBounds_ne (Ne.symm hm)]

/-- The same scalar is written to cells that correspond. -/
theorem Alike.write
    {c d : Nat} {v : Value}
    (h : s.Alike R t)
    (hcd : R c d)
    (hv : v.isScalar = true) :
    (s.write c v).Alike R (t.write d v) := by
  obtain ⟨hc, hd⟩ := h.bounded c d hcd
  refine ⟨h.functional, h.injective, ?_, ?_⟩
  · intro c' d' hcd'
    rw [size_write, size_write]
    exact h.bounded c' d' hcd'
  · intro c' d' hcd'
    by_cases heq : c' = c
    · subst heq
      cases h.functional _ _ _ hcd hcd'
      rw [read_write_self s v hc, read_write_self t v hd]
      exact ⟨rfl, hv⟩
    · have hne : d' ≠ d := by
        rintro rfl
        exact heq (h.injective _ _ _ hcd' hcd)
      rw [read_write_of_ne s v heq, read_write_of_ne t v hne]
      exact h.content c' d' hcd'

/-- Behind values that are alike there is the same scalar. -/
theorem Alike.deref
    {v w : Value}
    (h : s.Alike R t)
    (hv : v.Alike R w) :
    t.deref w = s.deref v ∧ (s.deref v).isScalar = true := by
  cases hv with
  | scalar hv =>
      have href := Value.isRef_of_isScalar hv
      simp only [Store.deref, derefWithin_of_not_isRef _ _ href]
      exact ⟨trivial, hv⟩
  | @ref c d hcd =>
      obtain ⟨heq, hc⟩ := h.content c d hcd
      have hd : (t.read d).isScalar = true := heq ▸ hc
      have hleft : s.deref (.ref c) = s.read c :=
        s.derefWithin_of_not_isRef _ (Value.isRef_of_isScalar hc)
      have hright : t.deref (.ref d) = t.read d :=
        t.derefWithin_of_not_isRef _ (Value.isRef_of_isScalar hd)
      rw [hleft, hright]
      exact ⟨heq, hc⟩

/-- A scalar has the same image in all stores. -/
theorem image_of_isScalar
    {v : Value}
    (s t : Store)
    (h : v.isScalar = true) :
    s.image v = t.image v := by
  cases v with
  | nil => rfl
  | number x => rfl
  | text x => rfl
  | _ => cases h

theorem areShown_of_isScalar
    {values : List Value}
    (s : Store)
    (h : ∀ v ∈ values, v.isScalar = true) :
    s.areShown values = true := by
  refine List.all_eq_true.mpr fun v hv => ?_
  have hscalar := h v hv
  cases v with
  | nil => rfl
  | number x => rfl
  | text x => rfl
  | _ => cases hscalar

/-! ## Operators -/

section Operators

variable {a b a' b' : Value}

theorem agrees_toNumber
    (h : s.Alike R t)
    (ha : a.Alike R a') :
    Agrees Fault.IsScalar Eq (s.toNumber a) (t.toNumber a') := by
  obtain ⟨heq, hscalar⟩ := h.deref ha
  unfold toNumber
  rw [heq]
  split
  · exact .ok rfl
  · split
    · exact .ok rfl
    · exact .error (by simp [Fault.IsScalar, Value.isScalar])
  · exact .error (by simpa [Fault.IsScalar] using hscalar)

theorem agrees_toText
    (h : s.Alike R t)
    (ha : a.Alike R a') :
    Agrees Fault.IsScalar Eq (s.toText a) (t.toText a') := by
  obtain ⟨heq, hscalar⟩ := h.deref ha
  unfold toText
  rw [heq]
  split
  · exact .ok rfl
  · exact .ok rfl
  · exact .error (by simpa [Fault.IsScalar] using hscalar)

theorem agrees_numbers
    (h : s.Alike R t)
    (ha : a.Alike R a')
    (hb : b.Alike R b') :
    Agrees Fault.IsScalar Eq (s.numbers a b) (t.numbers a' b') := by
  refine (agrees_toNumber h ha).bind ?_
  rintro x _ rfl
  refine (agrees_toNumber h hb).bind ?_
  rintro y _ rfl
  exact .ok rfl

theorem agrees_arithmetic
    (h : s.Alike R t)
    (f : Float → Float → Float)
    (ha : a.Alike R a')
    (hb : b.Alike R b') :
    Agrees Fault.IsScalar (Outcome.Alike R) (s.arithmetic f a b) (t.arithmetic f a' b') := by
  refine (agrees_numbers h ha hb).bind ?_
  rintro xy _ rfl
  exact .ok (.result (.scalar rfl))

theorem agrees_division
    (h : s.Alike R t)
    (f : Float → Float → Float)
    (ha : a.isScalar = true)
    (hb : b.isScalar = true) :
    Agrees Fault.IsScalar (Outcome.Alike R) (s.division f a b) (t.division f a b) := by
  refine (agrees_numbers h (.scalar ha) (.scalar hb)).bind ?_
  rintro ⟨x, y⟩ _ rfl
  dsimp only
  split
  · exact .error (by simp [Fault.IsScalar, ha, hb])
  · exact .ok (.result (.scalar rfl))

theorem agrees_comparison
    (h : s.Alike R t)
    (holds : Float → Float → Bool)
    (ha : a.Alike R a')
    (hb : b.Alike R b') :
    Agrees Fault.IsScalar (Outcome.Alike R) (s.comparison holds a b) (t.comparison holds a' b') := by
  refine (agrees_numbers h ha hb).bind ?_
  rintro ⟨x, y⟩ _ rfl
  refine .ok ?_
  split
  · exact .result (.scalar rfl)
  · exact .fail

theorem agrees_textComparison
    (h : s.Alike R t)
    (equal : Bool)
    (ha : a.Alike R a')
    (hb : b.Alike R b') :
    Agrees Fault.IsScalar (Outcome.Alike R) (s.textComparison equal a b) (t.textComparison equal a' b') := by
  refine (agrees_toText h ha).bind ?_
  rintro x _ rfl
  refine (agrees_toText h hb).bind ?_
  rintro y _ rfl
  refine .ok ?_
  split
  · exact .result (.scalar rfl)
  · exact .fail

theorem agrees_concatenate
    (h : s.Alike R t)
    (ha : a.Alike R a')
    (hb : b.Alike R b') :
    Agrees Fault.IsScalar (Outcome.Alike R) (s.concatenate a b) (t.concatenate a' b') := by
  refine (agrees_toText h ha).bind ?_
  rintro x _ rfl
  refine (agrees_toText h hb).bind ?_
  rintro y _ rfl
  exact .ok (.result (.scalar rfl))

theorem isScalar_of_mem_characters
    {text : String} {v : Value}
    (h : v ∈ characters text) :
    v.isScalar = true := by
  obtain ⟨c, -, rfl⟩ := List.mem_map.mp h
  rfl

theorem alike_valuesFrom
    {values : List Value}
    (h : ∀ v ∈ values, v.isScalar = true) :
    (valuesFrom values).Alike R (valuesFrom values) := by
  cases values with
  | nil => exact .fail
  | cons v rest =>
      exact .suspended (.scalar (h v List.mem_cons_self)) fun w hw => h w (List.mem_cons_of_mem v hw)

theorem alike_countFrom (R : CellId → CellId → Prop) (low high : Float) :
    (countFrom low high).Alike R (countFrom low high) := by
  unfold countFrom
  split
  · exact .fail
  · exact .suspended (.scalar rfl) trivial

/-- Only texts have characters, so a scalar has no elements that are places. -/
theorem agrees_subscript
    (h : s.Alike R t)
    (ha : a.Alike R a')
    (hb : b.Alike R b') :
    Agrees Fault.IsScalar (Outcome.Alike R) (s.subscript a b) (t.subscript a' b') := by
  obtain ⟨heq, hscalar⟩ := h.deref ha
  unfold subscript
  rw [heq]
  cases hv : s.deref a with
  | nil => exact .error (by simp [Fault.IsScalar, Value.isScalar])
  | number x => exact .error (by simp [Fault.IsScalar, Value.isScalar])
  | text x =>
      refine (agrees_toNumber h hb).bind ?_
      rintro y _ rfl
      refine .ok ?_
      split
      · rename_i item hitem
        obtain ⟨k, -, hk⟩ := Option.bind_eq_some_iff.mp hitem
        exact .result (.scalar (isScalar_of_mem_characters (List.mem_of_getElem? hk)))
      · exact .fail
  | _ => simp [hv, Value.isScalar] at hscalar

theorem agrees_bounds
    (h : s.Alike R t)
    (ha : a.Alike R a')
    (hb : b.Alike R b')
    (length : Nat) :
    Agrees Fault.IsScalar Eq (s.bounds a b length) (t.bounds a' b' length) := by
  refine (agrees_numbers h ha hb).bind ?_
  rintro ⟨x, y⟩ _ rfl
  exact .ok rfl

/-- A slice of a scalar is a text, for which no list is made. -/
theorem agrees_slice
    {v v' : Value}
    (h : s.Alike R t)
    (hv : v.Alike R v')
    (ha : a.Alike R a')
    (hb : b.Alike R b') :
    Agrees Fault.IsScalar (fun x y => x.1.Alike R y.1 ∧ x.2 = s ∧ y.2 = t) (s.slice v a b) (t.slice v' a' b') := by
  obtain ⟨heq, hscalar⟩ := h.deref hv
  unfold slice
  rw [heq]
  cases hw : s.deref v with
  | nil => exact .error (by simp [Fault.IsScalar, Value.isScalar])
  | number x => exact .error (by simp [Fault.IsScalar, Value.isScalar])
  | text x =>
      refine (agrees_bounds h ha hb _).bind ?_
      rintro range _ rfl
      cases range with
      | none => exact .ok ⟨.fail, rfl, rfl⟩
      | some range => exact .ok ⟨.result (.scalar rfl), rfl, rfl⟩
  | _ => simp [hw, Value.isScalar] at hscalar

theorem agrees_sizeOf
    (s t : Store)
    (ha : a.isScalar = true) :
    Agrees Fault.IsScalar (Outcome.Alike R) (s.sizeOf a) (t.sizeOf a) := by
  cases a with
  | nil => exact .error (by simp [Fault.IsScalar, Value.isScalar])
  | number x => exact .error (by simp [Fault.IsScalar, Value.isScalar])
  | text x => exact .ok (.result (.scalar rfl))
  | _ => cases ha

theorem agrees_elements
    (s t : Store)
    (ha : a.isScalar = true) :
    Agrees Fault.IsScalar (Outcome.Alike R) (s.elements a) (t.elements a) := by
  cases a with
  | nil => exact .error (by simp [Fault.IsScalar, Value.isScalar])
  | number x => exact .error (by simp [Fault.IsScalar, Value.isScalar])
  | text x => exact .ok (alike_valuesFrom fun v hv => isScalar_of_mem_characters hv)
  | _ => cases ha

theorem agrees_ofExcept
    {e e' : Except Fault Outcome}
    (h : Agrees Fault.IsScalar (Outcome.Alike R) e e') :
    (Reply.ofExcept e).Alike R (Reply.ofExcept e') := by
  cases h with
  | ok h => exact .outcome h
  | error h => exact .fault h

/-- Replies that are alike, with stores that are alike and have changed in cells that correspond only. -/
inductive Concur (n : Nat) (R : CellId → CellId → Prop) (s t : Store) : Answer × Store → Answer × Store → Prop
  | reply
      {r r' : Reply} {s' t' : Store}
      (hreply : r.Alike R r')
      (halike : s'.Alike R t')
      (hleft : s.Local n (Left R) s')
      (hright : t.Local n (Right R) t') :
      Concur n R s t (.reply r, s') (.reply r', t')

/-- Nothing has been written. -/
theorem Concur.of_reply
    {r r' : Reply}
    (h : s.Alike R t)
    (hreply : r.Alike R r')
    (n : Nat) :
    Concur n R s t (.reply r, s) (.reply r', t) :=
  .reply hreply h (.refl n _ s) (.refl n _ t)

theorem Concur.of_agrees
    {e e' : Except Fault Outcome}
    (h : s.Alike R t)
    (he : Agrees Fault.IsScalar (Outcome.Alike R) e e')
    (n : Nat) :
    Concur n R s t (.ofExcept e, s) (.ofExcept e', t) :=
  .of_reply h (agrees_ofExcept he) n

theorem concur_assign
    (h : s.Alike R t)
    (ha : a.Alike R a')
    (hb : b.isScalar = true)
    (n : Nat) :
    Concur n R s t (s.operate .assign [a, b]) (t.operate .assign [a', b]) := by
  cases ha with
  | ref hcd =>
      refine .reply (.outcome (.result (.ref hcd))) (h.write hcd hb) (.write ⟨_, hcd⟩ b) (.write ⟨_, hcd⟩ b)
  | scalar ha =>
      have hfault : Concur n R s t (.fault (.exception .variableExpected [a]), s)
          (.fault (.exception .variableExpected [a]), t) :=
        .of_reply h (.fault (by simpa [Fault.IsScalar] using ha)) n
      cases a with
      | nil => exact hfault
      | number x => exact hfault
      | text x => exact hfault
      | _ => cases ha

theorem concur_swap
    (h : s.Alike R t)
    (ha : a.Alike R a')
    (hb : b.Alike R b')
    (n : Nat) :
    Concur n R s t (s.operate .swap [a, b]) (t.operate .swap [a', b']) := by
  have hfault : ∀ v : Value, v.isScalar = true → Concur n R s t (.fault (.exception .variableExpected [v]), s)
      (.fault (.exception .variableExpected [v]), t) :=
    fun v hv => .of_reply h (.fault (by simpa [Fault.IsScalar] using hv)) n
  cases ha with
  | scalar ha =>
      cases a with
      | nil => exact hfault _ ha
      | number x => exact hfault _ ha
      | text x => exact hfault _ ha
      | _ => cases ha
  | @ref c d hcd =>
      cases hb with
      | scalar hb =>
          cases b with
          | nil => exact hfault _ hb
          | number x => exact hfault _ hb
          | text x => exact hfault _ hb
          | _ => cases hb
      | @ref c' d' hcd' =>
          obtain ⟨heq, hc⟩ := h.content c d hcd
          obtain ⟨heq', hc'⟩ := h.content c' d' hcd'
          have hwritten : ((s.write c (s.read c')).write c' (s.read c)).Alike R
              ((t.write d (t.read d')).write d' (t.read d)) := by
            rw [heq, heq']
            exact (h.write hcd hc').write hcd' hc
          refine .reply (.outcome (.result (.ref hcd))) hwritten ?_ ?_
          · exact (Local.write ⟨d, hcd⟩ _).trans (.write (D := Left R) ⟨d', hcd'⟩ _) fun _ => Or.inl
          · exact (Local.write ⟨c, hcd⟩ _).trans (.write (D := Right R) ⟨c', hcd'⟩ _) fun _ => Or.inl

end Operators

end Store

/-- The number of arguments that an operation looks at. -/
def Operation.arity : Operation → Nat
  | .negate => 1
  | .affirm => 1
  | .size => 1
  | .isNil => 1
  | .notNil => 1
  | .elements => 1
  | .activate => 1
  | .slice => 3
  | _ => 2

namespace Store

variable {R : CellId → CellId → Prop} {s t : Store} {n : Nat}

theorem operate_of_length_ne
    {op : Operation} {args : List Value}
    (s : Store)
    (h : args.length ≠ op.arity) :
    s.operate op args = (.outcome .fail, s) := by
  unfold operate
  split <;> first | rfl | exact absurd rfl h

section Operands

variable {op : Operation} {a a' b b' : Value}

theorem concur_one
    (h : s.Alike R t)
    (harity : op.arity = 1)
    (hop : op ≠ .activate)
    (ha : a.Alike R a')
    (hoperands : Operands op [a])
    (n : Nat) :
    Concur n R s t (s.operate op [a]) (t.operate op [a']) := by
  have hplain : 0 ∉ op.raw → a' = a ∧ a.isScalar = true :=
    fun hraw => ha.of_isRef (hoperands 0 a rfl hraw)
  cases op with
  | activate => exact absurd rfl hop
  | negate => exact .of_agrees h ((agrees_toNumber h ha).map fun _ _ hx => hx ▸ .result (.scalar rfl)) n
  | affirm => exact .of_agrees h ((agrees_toNumber h ha).map fun _ _ hx => hx ▸ .result (.scalar rfl)) n
  | size =>
      obtain ⟨rfl, ha⟩ := hplain nofun
      exact .of_agrees h (agrees_sizeOf s t ha) n
  | elements =>
      obtain ⟨rfl, ha⟩ := hplain nofun
      exact .of_agrees h (agrees_elements s t ha) n
  | isNil =>
      obtain ⟨rfl, -⟩ := hplain nofun
      refine .of_reply h (.outcome ?_) n
      split
      · exact .result (.scalar rfl)
      · exact .fail
  | notNil =>
      obtain ⟨rfl, ha⟩ := hplain nofun
      refine .of_reply h (.outcome ?_) n
      split
      · exact .fail
      · exact .result (.scalar ha)
  | _ => cases harity

theorem concur_two
    (h : s.Alike R t)
    (harity : op.arity = 2)
    (ha : a.Alike R a')
    (hb : b.Alike R b')
    (hoperands : Operands op [a, b])
    (n : Nat) :
    Concur n R s t (s.operate op [a, b]) (t.operate op [a', b']) := by
  have hfirst : 0 ∉ op.raw → a' = a ∧ a.isScalar = true :=
    fun hraw => ha.of_isRef (hoperands 0 a rfl hraw)
  have hsecond : 1 ∉ op.raw → b' = b ∧ b.isScalar = true :=
    fun hraw => hb.of_isRef (hoperands 1 b rfl hraw)
  cases op with
  | add => exact .of_agrees h (agrees_arithmetic h _ ha hb) n
  | subtract => exact .of_agrees h (agrees_arithmetic h _ ha hb) n
  | multiply => exact .of_agrees h (agrees_arithmetic h _ ha hb) n
  | power => exact .of_agrees h (agrees_arithmetic h _ ha hb) n
  | divide =>
      obtain ⟨rfl, ha⟩ := hfirst nofun
      obtain ⟨rfl, hb⟩ := hsecond nofun
      exact .of_agrees h (agrees_division h _ ha hb) n
  | remainder =>
      obtain ⟨rfl, ha⟩ := hfirst nofun
      obtain ⟨rfl, hb⟩ := hsecond nofun
      exact .of_agrees h (agrees_division h _ ha hb) n
  | less => exact .of_agrees h (agrees_comparison h _ ha hb) n
  | lessEqual => exact .of_agrees h (agrees_comparison h _ ha hb) n
  | greater => exact .of_agrees h (agrees_comparison h _ ha hb) n
  | greaterEqual => exact .of_agrees h (agrees_comparison h _ ha hb) n
  | equal => exact .of_agrees h (agrees_comparison h _ ha hb) n
  | unequal => exact .of_agrees h (agrees_comparison h _ ha hb) n
  | concatenate => exact .of_agrees h (agrees_concatenate h ha hb) n
  | sameText => exact .of_agrees h (agrees_textComparison h true ha hb) n
  | otherText => exact .of_agrees h (agrees_textComparison h false ha hb) n
  | subscript => exact .of_agrees h (agrees_subscript h ha hb) n
  | assign =>
      obtain ⟨rfl, hb⟩ := hsecond (by simp [Operation.raw])
      exact concur_assign h ha hb n
  | swap => exact concur_swap h ha hb n
  | same =>
      obtain ⟨rfl, hb⟩ := hsecond (by simp [Operation.raw])
      refine .of_reply h (.outcome ?_) n
      rw [(h.deref ha).1]
      split
      · exact .result (.scalar hb)
      · exact .fail
  | notSame =>
      obtain ⟨rfl, hb⟩ := hsecond (by simp [Operation.raw])
      refine .of_reply h (.outcome ?_) n
      rw [(h.deref ha).1]
      split
      · exact .fail
      · exact .result (.scalar hb)
  | range =>
      refine .of_agrees h ((agrees_numbers h ha hb).map ?_) n
      rintro ⟨x, y⟩ _ rfl
      exact alike_countFrom R x y
  | _ => cases harity

theorem concur_slice
    {v v' : Value}
    (h : s.Alike R t)
    (hv : v.Alike R v')
    (ha : a.Alike R a')
    (hb : b.Alike R b')
    (n : Nat) :
    Concur n R s t (s.operate .slice [v, a, b]) (t.operate .slice [v', a', b']) := by
  have hslice := agrees_slice h hv ha hb
  simp only [operate]
  generalize s.slice v a b = x at hslice
  generalize t.slice v' a' b' = y at hslice
  cases hslice with
  | error hfault => exact .of_reply h (.fault hfault) n
  | @ok x y hxy =>
      obtain ⟨o, s'⟩ := x
      obtain ⟨o', t'⟩ := y
      obtain ⟨ho, rfl, rfl⟩ := hxy
      exact .of_reply h (.outcome ho) n

end Operands

/-- No operation but the activation of a co-expression can tell the stores apart. -/
theorem operate_alike
    {op : Operation} {args args' : List Value}
    (h : s.Alike R t)
    (hop : op ≠ .activate)
    (hargs : List.Forall₂ (Value.Alike R) args args')
    (hoperands : Operands op args)
    (n : Nat) :
    Concur n R s t (s.operate op args) (t.operate op args') := by
  by_cases hlength : args.length = op.arity
  · have harity : op.arity = 1 ∨ op.arity = 2 ∨ op = .slice := by
      cases op <;> simp [Operation.arity]
    rcases harity with harity | harity | rfl
    · obtain ⟨a, rfl⟩ := List.length_eq_one_iff.mp (hlength.trans harity)
      rcases hargs with _ | ⟨ha, _ | _⟩
      exact concur_one h harity hop ha hoperands n
    · obtain ⟨a, b, rfl⟩ := List.length_eq_two.mp (hlength.trans harity)
      rcases hargs with _ | ⟨ha, _ | ⟨hb, _ | _⟩⟩
      exact concur_two h harity ha hb hoperands n
    · obtain ⟨v, a, b, rfl⟩ := List.length_eq_three.mp hlength
      rcases hargs with _ | ⟨hv, _ | ⟨ha, _ | ⟨hb, _ | _⟩⟩⟩
      exact concur_slice h hv ha hb n
  · have hlength' : args'.length ≠ op.arity := by rwa [← hargs.length_eq]
    rw [s.operate_of_length_ne hlength, t.operate_of_length_ne hlength']
    exact .of_reply h (.outcome .fail) n

/-- Behind arguments that are alike there are no references. -/
theorem operands_of_alike
    {op : Operator} {args args' : List Value}
    (h : s.Alike R t)
    (hop : op ∈ Operator.table)
    (hargs : List.Forall₂ (Value.Alike R) args args') :
    Operands op.operation (s.operands op.raw args) := by
  intro i v hv hi
  rw [← Operator.raw_eq hop] at hi
  simp only [operands, List.getElem?_mapIdx, Option.map_eq_some_iff] at hv
  obtain ⟨w, hw, rfl⟩ := hv
  obtain ⟨hlt, rfl⟩ := List.getElem?_eq_some_iff.mp hw
  have halike := hargs.get hlt (hargs.length_eq ▸ hlt)
  simpa [hi] using Value.isRef_of_isScalar (h.deref halike).2

theorem alike_operands
    {args args' : List Value}
    (h : s.Alike R t)
    (raw : List Nat)
    (hargs : List.Forall₂ (Value.Alike R) args args') :
    List.Forall₂ (Value.Alike R) (s.operands raw args) (t.operands raw args') := by
  rw [List.forall₂_iff_get]
  refine ⟨by simp [operands, hargs.length_eq], ?_⟩
  intro i hi hi'
  simp only [operands, List.length_mapIdx] at hi hi'
  have hget := hargs.get hi hi'
  simp only [operands, List.get_eq_getElem, List.getElem_mapIdx] at hget ⊢
  split
  · exact hget
  · obtain ⟨heq, hscalar⟩ := h.deref hget
    rw [heq]
    exact .scalar hscalar

/-- The key of the activation is that of no other name. -/
theorem operation_of_lookup?
    {op : Operator} {name : String} {arity : Nat}
    (h : Operator.lookup? name arity = some op)
    (hname : name ≠ "@") :
    op.operation ≠ .activate := by
  intro hactivate
  have htable : ∀ op ∈ Operator.table, op.operation = .activate → op.key = "1@" := by decide +kernel
  have hkey : op.key = Operator.keyOf name arity := by simpa using List.find?_some h
  rw [htable op (List.mem_of_find?_eq_some h) hactivate] at hkey
  have hchars : ['1', '@'] = Nat.toDigits 10 arity ++ name.toList := by
    have := congrArg String.toList hkey
    rwa [Operator.keyOf, String.toList_append, show toString arity = arity.repr from rfl, Nat.toList_repr] at this
  cases hdigits : Nat.toDigits 10 arity with
  | nil => exact Nat.toDigits_ne_nil hdigits
  | cons first rest =>
      rw [hdigits] at hchars
      cases rest with
      | nil =>
          injection hchars with _ hrest
          exact hname (String.toList_inj.mp hrest.symm)
      | cons second rest =>
          injection hchars with _ hrest
          injection hrest with hsecond _
          have hmem : second ∈ Nat.toDigits 10 arity := by simp [hdigits]
          have hdigit := Nat.isDigit_of_mem_toDigits (by decide) (Nat.le_refl 10) hmem
          rw [← hsecond] at hdigit
          revert hdigit
          decide

/-- No operator but the activation of a co-expression can tell the stores apart. -/
theorem invoke_alike
    {name : String} {args args' : List Value}
    (h : s.Alike R t)
    (hname : name ≠ "@")
    (hargs : List.Forall₂ (Value.Alike R) args args')
    (n : Nat) :
    Concur n R s t (s.invoke name args) (t.invoke name args') := by
  unfold invoke
  rw [← hargs.length_eq]
  split
  · rename_i op hlookup
    exact operate_alike h (operation_of_lookup? hlookup hname) (alike_operands h op.raw hargs)
      (operands_of_alike h (List.mem_of_find?_eq_some hlookup) hargs) n
  · exact .of_reply h (.fault (f := .malfunction _) trivial) n

end Store

end Likeness

end GoalDirected
