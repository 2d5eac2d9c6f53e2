import GoalDirected.Program.Basic
import GoalDirected.Proofs.Store.Updates

/-!
# What the primitives leave alone

A store holds data (cells, lists, records, channels, environments, names) and the state of everything
that can run.  The second part is `Store.activity`: the frames, the co-expressions with their pool, and
the callables.  Changes of data (`Store.Updates`) do not touch it, and the primitives make no others; the
one exception is `close`, which may end a co-expression.

* `Updates.activity`: changes of data leave the activity as it is.
* `activity_invoke`, `activity_choose`, `activity_bindArguments`, `activity_construct`: so do operators, selects,
  the binding of arguments, and constructors.
* `activity_builtin`: it stays the same, or one co-expression that does not run has ended.
-/

namespace GoalDirected

section Activity

/-- The part of a store that says what can run. -/
structure Activity where
  frames : Array Frame
  producers : Array Producer
  callables : Array Callable
  active : Nat
  limit : Nat
  prompt : Bool

namespace Store

def activity (s : Store) : Activity :=
  ⟨s.frames, s.producers, s.callables, s.active, s.limit, s.prompt⟩

theorem frames_eq_of_activity
    {s t : Store}
    (h : t.activity = s.activity) :
    t.frames = s.frames :=
  congrArg Activity.frames h

theorem producers_eq_of_activity
    {s t : Store}
    (h : t.activity = s.activity) :
    t.producers = s.producers :=
  congrArg Activity.producers h

theorem callables_eq_of_activity
    {s t : Store}
    (h : t.activity = s.activity) :
    t.callables = s.callables :=
  congrArg Activity.callables h

/-! ## Frames -/

theorem getElem?_frames_setFrame
    {s : Store} {n w : Nat} {g h : Frame}
    (heq : (s.setFrame n g).frames[w]? = some h) :
    (w = n ∧ h = g) ∨ s.frames[w]? = some h := by
  simp only [setFrame, Array.getElem?_setIfInBounds] at heq
  split at heq
  · rename_i hw
    split at heq
    · cases heq
      exact Or.inl ⟨hw.symm, rfl⟩
    · cases heq
  · exact Or.inr heq

theorem getElem?_frames_setFrame_self
    {s : Store} {n : Nat} {f : Frame}
    (h : s.frames[n]? = some f)
    (g : Frame) :
    (s.setFrame n g).frames[n]? = some g := by
  obtain ⟨hlt, -⟩ := Array.getElem?_eq_some_iff.mp h
  simp [setFrame, hlt]

theorem getElem?_frames_setFrame_of_ne
    {s : Store} {n k : Nat}
    (h : k ≠ n)
    (g : Frame) :
    (s.setFrame n g).frames[k]? = s.frames[k]? := by
  simp [setFrame, Ne.symm h]

theorem setFrame_of_getElem?
    {s : Store} {n : Nat} {f : Frame}
    (h : s.frames[n]? = some f) :
    s.setFrame n f = s := by
  obtain ⟨hlt, rfl⟩ := Array.getElem?_eq_some_iff.mp h
  simp [setFrame, Array.setIfInBounds, hlt]

theorem getElem?_frames_newFrame
    {s : Store} {w : Nat} {f h : Frame}
    (heq : (s.newFrame f).2.frames[w]? = some h) :
    (w = s.frames.size ∧ h = f) ∨ s.frames[w]? = some h := by
  simp only [newFrame, Array.getElem?_push] at heq
  split at heq
  · rename_i hw
    cases heq
    exact Or.inl ⟨hw, rfl⟩
  · exact Or.inr heq

theorem size_frames_setFrame (s : Store) (n : Nat) (g : Frame) :
    (s.setFrame n g).frames.size = s.frames.size := by
  simp [setFrame]

theorem frames_setProducer (s : Store) (id : Nat) (p : Producer) :
    (s.setProducer id p).frames = s.frames := by
  cases id <;> rfl

/-! ## Co-expressions -/

theorem size_producers_setProducer (s : Store) (id : Nat) (p : Producer) :
    (s.setProducer id p).producers.size = s.producers.size := by
  cases id <;> simp [setProducer]

/-- A co-expression that does not exist counts as ended. -/
theorem producer_eq_ended
    {s : Store} {id : Nat}
    (h : s.producers.size < id) :
    s.producer id = .ended := by
  cases id with
  | zero => rfl
  | succ n =>
      have hnone : s.producers[n]? = none := Array.getElem?_eq_none (Nat.le_of_lt_succ h)
      simp [producer, Array.getD_eq_getD_getElem?, hnone]

/-! ## Data -/

theorem Update.activity
    {s t : Store}
    (h : s.Update t) :
    t.activity = s.activity := by
  cases h <;> rfl

theorem Updates.activity
    {s t : Store}
    (h : s.Updates t) :
    t.activity = s.activity :=
  h.keeps fun _ _ => Update.activity

@[simp] theorem activity_allocate (s : Store) (v : Value) :
    (s.allocate v).2.activity = s.activity := rfl

/-! ## Environments and names -/

@[simp] theorem activity_taskEnvironment (s : Store) (outer : Environment) (task : Nat) :
    (s.taskEnvironment outer task).2.activity = s.activity := rfl

@[simp] theorem activity_nestedEnvironment (s : Store) (outer : Environment) (names : List String) :
    (s.nestedEnvironment outer names).2.activity = s.activity := rfl

theorem activity_resolve
    {s t : Store} {e : Environment} {name : String} {assignable : Bool} {v : Value}
    (h : s.resolve e name assignable = .ok (v, t)) :
    t.activity = s.activity := by
  unfold resolve at h
  split at h <;> cases h <;> rfl

@[simp] theorem activity_namespaceIndex (s : Store) (name : String) :
    (s.namespaceIndex name).2.activity = s.activity := by
  unfold namespaceIndex
  split <;> rfl

@[simp] theorem activity_addEntry (s : Store) (ns : Nat) (name : String) (cell : CellId) :
    (s.addEntry ns name cell).activity = s.activity := by
  unfold addEntry
  split <;> rfl

@[simp] theorem activity_declare (s : Store) (namespaceName name : String) (v : Value) :
    (s.declare namespaceName name v).2.activity = s.activity := by
  simp only [declare]
  split
  · simp
  · split
    · simp
    · split <;> simp

/-! ## Arguments and scopes -/

@[simp] theorem activity_bindAll (s : Store) (b : Bindings) (entries : List (String × Value)) :
    (s.bindAll b entries).2.activity = s.activity :=
  (s.updates_bindAll b entries).activity

@[simp] theorem activity_bindArguments
    (s : Store) (code : Code) (args : List Value) (names : List String) :
    (s.bindArguments code args names).2.activity = s.activity :=
  (s.updates_bindArguments code args names).activity

theorem activity_construct
    {s t : Store} {record : String} {fields : List String} {args : List Value}
    {names : List String} {v : Value}
    (h : s.construct record fields args names = .ok (v, t)) :
    t.activity = s.activity :=
  (updates_construct h).activity

@[simp] theorem activity_shadow (s : Store) (vars : Bindings) (names : List String) :
    (s.shadow vars names).2.2.activity = s.activity :=
  (s.updates_shadow vars names).activity

@[simp] theorem activity_enterScope
    (s : Store) (f : Frame) (name : String) (names dynamics : List String) :
    (s.enterScope f name names dynamics).2.activity = s.activity := by
  simp only [enterScope]
  split <;> simp

@[simp] theorem activity_duplicateFrame (s : Store) (f : Frame) (environment : Environment) :
    (s.duplicateFrame f environment).2.activity = s.activity :=
  (s.updates_duplicateFrame f environment).activity

/-! ## Selects, operators, the library -/

@[simp] theorem activity_choose (s : Store) (waits : List WaitCase) :
    (s.choose waits).2.activity = s.activity :=
  (s.updates_choose waits).activity

@[simp] theorem activity_invoke (s : Store) (name : String) (args : List Value) :
    (s.invoke name args).2.activity = s.activity :=
  (s.updates_invoke name args).activity

theorem activity_builtin (s : Store) (b : Builtin) (args : List Value) :
    (s.builtin b args).2.activity = s.activity ∨
      b = .close ∧ ∃ id, args.getD 0 .nil = .coexpression id ∧
        s.Abandons id (s.builtin b args).2 :=
  (s.updates_builtin b args).imp_left Updates.activity

end Store

end Activity

end GoalDirected
