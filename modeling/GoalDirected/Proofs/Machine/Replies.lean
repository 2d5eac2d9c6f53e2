import GoalDirected.Proofs.Machine.Execution
import Mathlib.Logic.Function.Iterate

/-!
# What the primitives answer

Operators, constructors and the library run no code of their own.  Their outcomes hold no activation that
could be resumed, and their faults are not the ones that linking is meant to rule out.

* `Store.Operates`: all that an operation does; `operates_operate`: every operation keeps to it.
* `isPlain_invoke`, `isPlain_builtin`: every reply is of this kind.
* `construct_eq_error`: so is the fault of a constructor.
* `Outcome.Leaves.resume_eq`: the generators among the outcomes answer at once and change nothing.
-/

namespace GoalDirected

section Replies

/-- The outcome holds no activation. -/
def Outcome.IsDetached (o : Outcome) : Prop :=
  ∀ frame label, o.next? ≠ some (.activation frame label)

def Fault.IsLinkage : Fault → Prop
  | .malfunction m => m.IsLinkage
  | .exception _ _ => False

/-- A computation raises none of the faults that linking is meant to rule out. -/
def IsTame {α : Type} (e : Except Fault α) : Prop :=
  ∀ f, e = .error f → ¬ f.IsLinkage

/-- A computation comes to a result with a given property, or to an exception. -/
def Comes {α : Type} (P : α → Prop) : Except Fault α → Prop
  | .ok a => P a
  | .error f => f.isMalfunction = false

def Reply.IsPlain : Reply → Prop
  | .outcome o => o.IsDetached
  | .fault f => ¬ f.IsLinkage
  | .halt _ => True

/-- What an outcome leaves to be resumed, at once or when what it leaves is resumed, in whatever store. -/
inductive Outcome.Leaves (o : Outcome) : Continuation → Prop
  | now
      {k : Continuation}
      (hnext : o.next? = some k) :
      Leaves o k
  | later
      {k k' : Continuation} {s t : Store} {o' : Outcome} {n : Nat}
      (hk : Leaves o k)
      (hrun : Machine.step^[n] (Machine.resume s [] k) = ⟨t, [], .returning o'⟩)
      (hnext : o'.next? = some k') :
      Leaves o k'

/-- What an operation makes of a store, and what it answers. -/
inductive Store.Operates (s : Store) : Operation → List Value → Answer → Store → Prop
  | outcome
      (op : Operation) (args : List Value) {o : Outcome}
      (ho : o.IsDetached) :
      Operates s op args (.outcome o) s
  | exception
      (op : Operation) (args : List Value) (cause : Cause) (offending : List Value) :
      Operates s op args (.fault (.exception cause offending)) s
  | assign (c : CellId) (v : Value) :
      Operates s .assign [.ref c, v] (.outcome (.result (.ref c))) (s.write c v)
  | swap (c d : CellId) :
      Operates s .swap [.ref c, .ref d] (.outcome (.result (.ref c))) ((s.write c (s.read d)).write d (s.read c))
  | slice (args : List Value) (values : Array Value) :
      Operates s .slice args (.outcome (.result (s.newList values).1)) (s.newList values).2
  | receive (id : Nat) :
      Operates s .activate [.channel id] (.reply (s.receiveFrom id).1) (s.receiveFrom id).2
  | activate (id : Nat) : Operates s .activate [.coexpression id] (.activate id) s

/-! ## Outcomes -/

theorem Outcome.isDetached_of_next?_eq_none
    {o : Outcome}
    (h : o.next? = none) :
    o.IsDetached := by
  intro frame label hnext
  rw [h] at hnext
  cases hnext

theorem isDetached_elementsFrom (s : Store) (list position : Nat) :
    (s.elementsFrom list position).IsDetached := by
  intro frame label
  unfold Store.elementsFrom
  split <;> simp [Outcome.next?]

theorem isDetached_valuesFrom (values : List Value) : (valuesFrom values).IsDetached := by
  intro frame label
  cases values <;> simp [valuesFrom, Outcome.next?]

theorem isDetached_countFrom (low high : Float) : (countFrom low high).IsDetached := by
  intro frame label
  unfold countFrom
  split <;> simp [Outcome.next?]

theorem isDetached_placeOrFail (cell : Option CellId) : (Store.placeOrFail cell).IsDetached := by
  cases cell <;> exact Outcome.isDetached_of_next?_eq_none rfl

/-! ## Generators -/

/-- A continuation that is no activation has an outcome at once and changes nothing. -/
theorem resume_of_ne_activation
    {k : Continuation}
    (hk : ∀ frame label, k ≠ .activation frame label)
    (s : Store) (stack : List Context) :
    ∃ o, Machine.resume s stack k = ⟨s, stack, .returning o⟩ ∧ o.IsDetached := by
  cases k with
  | activation frame label => exact absurd rfl (hk frame label)
  | elements list position => exact ⟨_, rfl, isDetached_elementsFrom s list position⟩
  | values rest => exact ⟨_, rfl, isDetached_valuesFrom rest⟩
  | count low high => exact ⟨_, rfl, isDetached_countFrom low high⟩

theorem Outcome.Leaves.ne_activation
    {o : Outcome} {k : Continuation}
    (h : o.Leaves k)
    (ho : o.IsDetached) :
    ∀ frame label, k ≠ .activation frame label := by
  induction h with
  | now hnext =>
      rintro frame label rfl
      exact ho frame label hnext
  | @later k k' s t o' n _ hrun hnext ih =>
      obtain ⟨o'', hresume, ho''⟩ := resume_of_ne_activation ih s []
      rw [hresume, Function.iterate_fixed (Machine.step_of_isFinished rfl)] at hrun
      cases hrun
      rintro frame label rfl
      exact ho'' frame label hnext

/-- What a plain outcome leaves has an outcome at once, every time that it is resumed. -/
theorem Outcome.Leaves.resume_eq
    {o : Outcome} {k : Continuation}
    (h : o.Leaves k)
    (ho : o.IsDetached)
    (s : Store) (stack : List Context) :
    ∃ o', Machine.resume s stack k = ⟨s, stack, .returning o'⟩ := by
  obtain ⟨o', hresume, -⟩ := resume_of_ne_activation (h.ne_activation ho) s stack
  exact ⟨o', hresume⟩

/-! ## Computations -/

theorem isTame_ok {α : Type} (a : α) : IsTame (.ok a) := by
  intro f h
  cases h

theorem isTame_exception {α : Type} (cause : Cause) (offending : List Value) :
    IsTame (.error (.exception cause offending) : Except Fault α) := by
  intro f h
  cases h
  exact id

/-- Linking is not meant to rule out exceptions. -/
theorem Comes.isTame
    {α : Type} {P : α → Prop} {e : Except Fault α}
    (h : Comes P e) :
    IsTame e := by
  cases e with
  | ok a => exact isTame_ok a
  | error f =>
      cases f with
      | exception cause offending => exact isTame_exception cause offending
      | malfunction reason => cases h

theorem comes_bind
    {α β : Type} {P : α → Prop} {Q : β → Prop} {e : Except Fault α} {g : α → Except Fault β}
    (he : Comes P e)
    (hg : ∀ a, P a → Comes Q (g a)) :
    Comes Q (e >>= g) := by
  cases e with
  | error f => exact he
  | ok a => exact hg a he

theorem comes_map
    {α β : Type} {P : α → Prop} {Q : β → Prop} {e : Except Fault α} {g : α → β}
    (he : Comes P e)
    (hg : ∀ a, P a → Q (g a)) :
    Comes Q (e.map g) := by
  cases e with
  | error f => exact he
  | ok a => exact hg a he

theorem Outcome.isDetached_result (v : Value) : (Outcome.result v).IsDetached :=
  isDetached_of_next?_eq_none rfl

theorem Outcome.isDetached_fail : Outcome.fail.IsDetached :=
  isDetached_of_next?_eq_none rfl

theorem isPlain_ofExcept
    {e : Except Fault Outcome}
    (h : Comes Outcome.IsDetached e) :
    (Reply.ofExcept e).IsPlain := by
  cases e with
  | ok o => exact h
  | error f => exact h.isTame f rfl

theorem isPlain_result (v : Value) : (Reply.outcome (.result v)).IsPlain :=
  Outcome.isDetached_result v

namespace Store

theorem comes_toNumber (s : Store) (v : Value) : Comes (fun _ => True) (s.toNumber v) := by
  unfold toNumber
  split
  · trivial
  · split
    · trivial
    · rfl
  · rfl

theorem comes_toText (s : Store) (v : Value) : Comes (fun _ => True) (s.toText v) := by
  unfold toText
  split
  · trivial
  · trivial
  · rfl

theorem comes_numbers (s : Store) (a b : Value) : Comes (fun _ => True) (s.numbers a b) :=
  comes_bind (s.comes_toNumber a) fun _ _ => comes_bind (s.comes_toNumber b) fun _ _ => trivial

theorem comes_sizeArgument (s : Store) (v : Value) : Comes (fun _ => True) (s.sizeArgument v) := by
  unfold sizeArgument
  split
  · trivial
  · exact comes_map (s.comes_toNumber v) fun _ _ => trivial

/-! ## Operators -/

theorem comes_arithmetic (s : Store) (g : Float → Float → Float) (a b : Value) :
    Comes Outcome.IsDetached (s.arithmetic g a b) :=
  comes_bind (s.comes_numbers a b) fun _ _ => Outcome.isDetached_result _

theorem comes_division (s : Store) (g : Float → Float → Float) (a b : Value) :
    Comes Outcome.IsDetached (s.division g a b) := by
  refine comes_bind (s.comes_numbers a b) ?_
  rintro ⟨x, y⟩ -
  dsimp only
  split
  · rfl
  · exact Outcome.isDetached_result _

theorem comes_comparison (s : Store) (holds : Float → Float → Bool) (a b : Value) :
    Comes Outcome.IsDetached (s.comparison holds a b) := by
  refine comes_bind (s.comes_numbers a b) ?_
  rintro ⟨x, y⟩ -
  show Outcome.IsDetached _
  split
  · exact Outcome.isDetached_result _
  · exact Outcome.isDetached_fail

theorem comes_textComparison (s : Store) (equal : Bool) (a b : Value) :
    Comes Outcome.IsDetached (s.textComparison equal a b) := by
  refine comes_bind (s.comes_toText a) fun x _ => comes_bind (s.comes_toText b) fun y _ => ?_
  show Outcome.IsDetached _
  split
  · exact Outcome.isDetached_result _
  · exact Outcome.isDetached_fail

theorem comes_concatenate (s : Store) (a b : Value) :
    Comes Outcome.IsDetached (s.concatenate a b) :=
  comes_bind (s.comes_toText a) fun _ _ =>
    comes_bind (s.comes_toText b) fun _ _ => Outcome.isDetached_result _

theorem comes_subscript (s : Store) (v i : Value) :
    Comes Outcome.IsDetached (s.subscript v i) := by
  unfold subscript
  split
  · exact comes_bind (s.comes_toNumber i) fun _ _ => isDetached_placeOrFail _
  · refine comes_bind (s.comes_toNumber i) fun _ _ => ?_
    show Outcome.IsDetached _
    split
    · exact Outcome.isDetached_result _
    · exact Outcome.isDetached_fail
  · dsimp only
    split
    · exact isDetached_placeOrFail _
    · exact comes_bind (s.comes_toNumber i) fun _ _ => isDetached_placeOrFail _
  · rfl

/-- A slice of a list is a new list; other slices leave the store as it is. -/
theorem comes_slice (s : Store) (v i j : Value) :
    Comes (fun (o, t) => (o.IsDetached ∧ t = s) ∨
      ∃ values, o = .result (s.newList values).1 ∧ t = (s.newList values).2) (s.slice v i j) := by
  have hbounds : ∀ n, Comes (fun _ => True) (s.bounds i j n) := fun n =>
    comes_bind (s.comes_numbers i j) fun _ _ => trivial
  unfold slice
  split
  · refine comes_bind (hbounds _) ?_
    intro range _
    split
    · exact Or.inr ⟨_, rfl, rfl⟩
    · exact Or.inl ⟨Outcome.isDetached_fail, rfl⟩
  · refine comes_bind (hbounds _) ?_
    intro range _
    split
    · exact Or.inl ⟨Outcome.isDetached_result _, rfl⟩
    · exact Or.inl ⟨Outcome.isDetached_fail, rfl⟩
  · rfl

theorem comes_sizeOf (s : Store) (v : Value) : Comes Outcome.IsDetached (s.sizeOf v) := by
  unfold sizeOf
  split
  · exact Outcome.isDetached_result _
  · exact Outcome.isDetached_result _
  · exact Outcome.isDetached_result _
  · rfl

theorem comes_elements (s : Store) (v : Value) : Comes Outcome.IsDetached (s.elements v) := by
  unfold elements
  split
  · exact isDetached_elementsFrom s _ 0
  · exact isDetached_valuesFrom _
  · exact isDetached_valuesFrom _
  · rfl

/-- Who receives gets an outcome, or has to wait. -/
theorem receiveFrom_cases (s : Store) (id : Nat) :
    (∃ o, (s.receiveFrom id).1 = .outcome o ∧ o.IsDetached) ∨ (s.receiveFrom id).1 = .halt .blocked := by
  unfold receiveFrom
  split
  · exact Or.inl ⟨_, rfl, Outcome.isDetached_result _⟩
  · exact Or.inl ⟨_, rfl, Outcome.isDetached_fail⟩
  · exact Or.inr rfl
  · exact Or.inl ⟨_, rfl, Outcome.isDetached_fail⟩

theorem isPlain_receiveFrom (s : Store) (id : Nat) : (s.receiveFrom id).1.IsPlain := by
  rcases s.receiveFrom_cases id with ⟨o, hreply, ho⟩ | hreply
  · rw [hreply]
    exact ho
  · rw [hreply]
    trivial

/-- A computation that leaves the store as it is. -/
theorem operates_ofExcept
    {s : Store} {e : Except Fault Outcome}
    (op : Operation) (args : List Value)
    (h : Comes Outcome.IsDetached e) :
    s.Operates op args (.ofExcept e) s := by
  cases e with
  | ok o => exact .outcome op args h
  | error f =>
      cases f with
      | exception cause offending => exact .exception op args cause offending
      | malfunction reason => cases h

theorem operates_operate (s : Store) (op : Operation) (args : List Value) :
    s.Operates op args (s.operate op args).1 (s.operate op args).2 := by
  unfold operate
  -- One case for each operation, in the order of the definition.
  split
  · exact operates_ofExcept _ _ (s.comes_arithmetic _ _ _)
  · exact operates_ofExcept _ _ (s.comes_arithmetic _ _ _)
  · exact operates_ofExcept _ _ (s.comes_arithmetic _ _ _)
  · exact operates_ofExcept _ _ (s.comes_division _ _ _)
  · exact operates_ofExcept _ _ (s.comes_division _ _ _)
  · exact operates_ofExcept _ _ (s.comes_arithmetic _ _ _)
  · exact operates_ofExcept _ _ (comes_map (s.comes_toNumber _) fun _ _ => Outcome.isDetached_result _)
  · exact operates_ofExcept _ _ (comes_map (s.comes_toNumber _) fun _ _ => Outcome.isDetached_result _)
  · exact operates_ofExcept _ _ (s.comes_comparison _ _ _)
  · exact operates_ofExcept _ _ (s.comes_comparison _ _ _)
  · exact operates_ofExcept _ _ (s.comes_comparison _ _ _)
  · exact operates_ofExcept _ _ (s.comes_comparison _ _ _)
  · exact operates_ofExcept _ _ (s.comes_comparison _ _ _)
  · exact operates_ofExcept _ _ (s.comes_comparison _ _ _)
  · exact operates_ofExcept _ _ (s.comes_concatenate _ _)
  · exact operates_ofExcept _ _ (s.comes_textComparison _ _ _)
  · exact operates_ofExcept _ _ (s.comes_textComparison _ _ _)
  · split
    · exact .assign _ _
    · exact .exception _ _ _ _
  · split
    · exact .swap _ _
    · exact .exception _ _ _ _
    · exact .exception _ _ _ _
  · exact operates_ofExcept _ _ (s.comes_subscript _ _)
  · rename_i v i j
    have hslice := s.comes_slice v i j
    split
    · rename_i heq
      rw [heq] at hslice
      rcases hslice with ⟨ho, rfl⟩ | ⟨values, rfl, rfl⟩
      · exact .outcome _ _ ho
      · exact .slice _ values
    · rename_i f heq
      rw [heq] at hslice
      exact operates_ofExcept (e := .error f) _ _ hslice
  · refine .outcome _ _ ?_
    split
    · exact Outcome.isDetached_result _
    · exact Outcome.isDetached_fail
  · refine .outcome _ _ ?_
    split
    · exact Outcome.isDetached_fail
    · exact Outcome.isDetached_result _
  · exact operates_ofExcept _ _ (s.comes_sizeOf _)
  · refine .outcome _ _ ?_
    split
    · exact Outcome.isDetached_result _
    · exact Outcome.isDetached_fail
  · refine .outcome _ _ ?_
    split
    · exact Outcome.isDetached_fail
    · exact Outcome.isDetached_result _
  · exact operates_ofExcept _ _ (s.comes_elements _)
  · exact operates_ofExcept _ _ (comes_map (s.comes_numbers _ _) fun _ _ => isDetached_countFrom _ _)
  · split
    · exact .activate _
    · exact .receive _
    · exact .exception _ _ _ _
  · exact .outcome _ _ Outcome.isDetached_fail

/-- An operation activates a co-expression, or answers with a plain reply. -/
theorem isPlain_operate
    {s : Store} {op : Operation} {args : List Value} {r : Reply}
    (h : (s.operate op args).1 = .reply r) :
    r.IsPlain := by
  have hoperates := s.operates_operate op args
  rw [h] at hoperates
  generalize (s.operate op args).2 = t at hoperates
  cases hoperates with
  | outcome _ _ ho => exact ho
  | exception => exact id
  | assign => exact isPlain_result _
  | swap => exact isPlain_result _
  | slice => exact isPlain_result _
  | receive id => exact s.isPlain_receiveFrom id

theorem isPlain_invoke
    {s : Store} {name : String} {args : List Value} {r : Reply}
    (h : (s.invoke name args).1 = .reply r) :
    r.IsPlain := by
  unfold invoke at h
  split at h
  · exact isPlain_operate h
  · cases h
    exact id

theorem machine_invoke_outcome
    {s t : Store} {name : String} {args : List Value} {o : Outcome}
    (h : s.invoke name args = (.outcome o, t))
    (stack : List Context) :
    Machine.invoke s stack name args = ⟨t, stack, .returning o⟩ := by
  simp only [Machine.invoke, h, Answer.outcome, Machine.reply]

theorem machine_invoke_fault
    {s t : Store} {name : String} {args : List Value} {f : Fault}
    (h : s.invoke name args = (.fault f, t))
    (stack : List Context) :
    Machine.invoke s stack name args = ⟨t, stack, .raising ⟨f, []⟩⟩ := by
  simp only [Machine.invoke, h, Answer.fault, Machine.reply, Machine.raise]

/-! ## Constructors and the library -/

theorem isTame_fillFields
    (record : String) (fields : List String) (values : List Value)
    (keyword : List (String × Value)) :
    IsTame (fillFields record fields values keyword) := by
  induction keyword generalizing values with
  | nil => exact isTame_ok _
  | cons entry rest ih =>
      simp only [fillFields]
      split
      · exact ih _
      · exact isTame_exception _ _

theorem construct_eq_error
    {s : Store} {record : String} {fields : List String} {args : List Value}
    {names : List String} {f : Fault}
    (h : s.construct record fields args names = .error f) :
    ¬ f.IsLinkage := by
  simp only [construct] at h
  split at h
  · rename_i hfill
    cases h
    exact isTame_fillFields _ _ _ _ _ hfill
  · cases h

theorem isPlain_builtin (s : Store) (b : Builtin) (args : List Value) :
    (s.builtin b args).1.IsPlain := by
  cases b with
  | write => exact isPlain_result _
  | writes => exact isPlain_result _
  | channel =>
      simp only [builtin, makeChannel]
      split
      · rename_i hsize
        exact (s.comes_sizeArgument _).isTame _ hsize
      · split
        · trivial
        · exact isPlain_result _
  | send =>
      simp only [builtin, sendTo]
      split
      · split
        · exact isPlain_result _
        · trivial
        · exact id
      · exact id
  | receive =>
      simp only [builtin]
      split
      · exact isPlain_receiveFrom _ _
      · exact id
  | close =>
      simp only [builtin, closeValue]
      split
      · split <;> exact isPlain_result _
      · split
        · trivial
        · exact isPlain_result _
      · exact id
  | throw => exact id
  | exit =>
      simp only [builtin]
      split
      · trivial
      · split
        · trivial
        · rename_i hnumber
          exact (s.comes_toNumber _).isTame _ hnumber
  | list =>
      simp only [builtin, makeList]
      split
      · rename_i hsize
        exact (s.comes_sizeArgument _).isTame _ hsize
      · split
        · exact id
        · exact isPlain_result _
  | abs => exact isPlain_ofExcept (comes_map (s.comes_toNumber _) fun _ _ => Outcome.isDetached_result _)
  | sqrt =>
      refine isPlain_ofExcept (comes_bind (s.comes_toNumber _) ?_)
      intro x _
      unfold root
      split
      · rfl
      · exact Outcome.isDetached_result _
  | string => exact isPlain_ofExcept (comes_map (s.comes_toText _) fun _ _ => Outcome.isDetached_result _)
  | number =>
      simp only [builtin]
      split
      · exact isPlain_result _
      · exact Outcome.isDetached_fail
  | max => exact isPlain_ofExcept (comes_map (s.comes_numbers _ _) fun _ _ => Outcome.isDetached_result _)
  | min => exact isPlain_ofExcept (comes_map (s.comes_numbers _ _) fun _ _ => Outcome.isDetached_result _)
  | repl =>
      refine isPlain_ofExcept (comes_bind (s.comes_toText _) fun t _ =>
        comes_bind (s.comes_toNumber _) fun x _ => ?_)
      unfold repeated
      split
      · rfl
      · split
        · exact Outcome.isDetached_result _
        · rfl

end Store

end Replies

end GoalDirected
