import GoalDirected.Machine.Activation
import GoalDirected.Primitive.Library
import GoalDirected.Primitive.Select
import Mathlib.Logic.Relation

/-!
# What the primitives do to a store

A primitive writes or adds cells, adds lists, records and channels, changes a channel, or prints.  Whatever else a
store has, these changes leave alone, so every fact of this kind follows from one look at them.

* `Update`, `Updates`: one such change, and any number of them.
* `updates_invoke`, `updates_bindArguments`, `updates_construct`, `updates_shadow`, `updates_duplicateFrame`: nothing
  else happens in an operator, in the binding of arguments, in a constructor, in a scope, in the copy of a frame.
* `updates_builtin`: nor in the library, but for `close`, which may end a co-expression.
* `updates_choose`: a select moves the offset of selects on, and does nothing else.
-/

namespace GoalDirected
namespace Store

section Updates

/-- One change of the data of a store. -/
inductive Update (s : Store) : Store → Prop
  | write (cell : CellId) (v : Value) : s.Update (s.write cell v)
  | allocate (v : Value) : s.Update (s.allocate v).2
  | newList (values : Array Value) : s.Update (s.newList values).2
  | pushRecord (r : Record) : s.Update { s with records := s.records.push r }
  | newChannel (capacity : Nat) : s.Update (s.newChannel capacity).2
  | setChannel (id : Nat) (c : Channel) : s.Update (s.setChannel id c)
  | print (text : String) : s.Update { s with output := text }

/-- Any number of changes of data. -/
abbrev Updates : Store → Store → Prop :=
  Relation.ReflTransGen Update

/-- What one change of data keeps, any number of them keep. -/
theorem Updates.keeps
    {α : Type} {part : Store → α} {s t : Store}
    (h : s.Updates t)
    (hpart : ∀ s t : Store, s.Update t → part t = part s) :
    part t = part s := by
  induction h with
  | refl => rfl
  | tail _ hlast ih => exact (hpart _ _ hlast).trans ih

/-! ## Cells, lists, records -/

theorem updates_write (s : Store) (cell : CellId) (v : Value) : s.Updates (s.write cell v) :=
  .single (.write cell v)

theorem updates_allocate (s : Store) (v : Value) : s.Updates (s.allocate v).2 :=
  .single (.allocate v)

theorem updates_newList (s : Store) (values : Array Value) : s.Updates (s.newList values).2 :=
  .single (.newList values)

theorem updates_setChannel (s : Store) (id : Nat) (c : Channel) : s.Updates (s.setChannel id c) :=
  .single (.setChannel id c)

theorem updates_allocateAll (s : Store) (values : List Value) : s.Updates (s.allocateAll values).2 := by
  induction values generalizing s with
  | nil => exact .refl
  | cons v rest ih => exact (s.updates_allocate v).trans (ih _)

theorem updates_newRecord (s : Store) (name : String) (fields : List (String × Value)) :
    s.Updates (s.newRecord name fields).2 :=
  (s.updates_allocateAll (fields.map (·.2))).tail (.pushRecord _)

/-! ## Arguments -/

theorem updates_bindAll (s : Store) (b : Bindings) (entries : List (String × Value)) :
    s.Updates (s.bindAll b entries).2 := by
  induction entries generalizing s b with
  | nil => exact .refl
  | cons entry rest ih => exact (s.updates_allocate entry.2).trans (ih _ _)

theorem updates_bindKeywords (s : Store) (b : Bindings) (entries : List (String × Value)) :
    s.Updates (s.bindKeywords b entries) := by
  induction entries generalizing s with
  | nil => exact .refl
  | cons entry rest ih =>
      simp only [bindKeywords]
      split
      · exact (s.updates_write _ _).trans (ih _)
      · exact ih s

theorem updates_bindParameters (s : Store) (code : Code) (positional : List Value) :
    s.Updates (s.bindParameters code positional).2 := by
  simp only [bindParameters]
  split
  · exact ((s.updates_bindAll _ _).trans (updates_newList _ _)).trans (updates_bindAll _ _ _)
  · exact s.updates_bindAll _ _

theorem updates_bindArguments (s : Store) (code : Code) (args : List Value) (names : List String) :
    s.Updates (s.bindArguments code args names).2 :=
  ((s.updates_bindParameters code _).trans (updates_bindKeywords _ _ _)).trans (updates_bindAll _ _ _)

theorem updates_construct
    {s t : Store} {record : String} {fields : List String} {args : List Value}
    {names : List String} {v : Value}
    (h : s.construct record fields args names = .ok (v, t)) :
    s.Updates t := by
  simp only [construct] at h
  split at h
  · cases h
  · rename_i values _
    have hrecord := s.updates_newRecord record (fields.zip values)
    rw [Except.ok.inj h] at hrecord
    exact hrecord

/-! ## Scopes and copies of frames -/

theorem updates_shadow (s : Store) (vars : Bindings) (names : List String) :
    s.Updates (s.shadow vars names).2.2 := by
  induction names generalizing s vars with
  | nil => exact .refl
  | cons name rest ih => exact (s.updates_allocate .nil).trans (ih _ _)

theorem updates_duplicateBindings (s : Store) (b : Bindings) :
    s.Updates (s.duplicateBindings b).2 := by
  induction b generalizing s with
  | nil => exact .refl
  | cons entry rest ih => exact (s.updates_allocate _).trans (ih _)

theorem updates_duplicateShadowed (s : Store) (l : List (String × Option CellId)) :
    s.Updates (s.duplicateShadowed l).2 := by
  induction l generalizing s with
  | nil => exact .refl
  | cons entry rest ih =>
      obtain ⟨name, cell | cell⟩ := entry
      · exact ih s
      · exact (s.updates_allocate _).trans (ih _)

theorem updates_duplicateScopes (s : Store) (l : List Scope) :
    s.Updates (s.duplicateScopes l).2 := by
  induction l generalizing s with
  | nil => exact .refl
  | cons scope rest ih => exact (s.updates_duplicateShadowed _).trans (ih _)

theorem updates_duplicateFrame (s : Store) (f : Frame) (environment : Environment) :
    s.Updates (s.duplicateFrame f environment).2 :=
  (s.updates_duplicateBindings f.vars).trans (updates_duplicateScopes _ f.scopes)

/-! ## Selects -/

theorem updates_attempt
    {s t : Store} {c : WaitCase} {received : Option Value}
    (h : s.attempt c = .done (received, t)) :
    s.Updates t := by
  cases c with
  | send id v =>
      simp only [attempt] at h
      split at h <;> cases h
      exact s.updates_setChannel id _
  | receive id =>
      simp only [attempt] at h
      split at h <;> cases h
      exact s.updates_setChannel id _
  | default => cases h

theorem updates_firstReady
    {s t : Store} {entries : List (Nat × WaitCase)} {i : Nat} {received : Option Value}
    (h : s.firstReady entries = some (i, received, t)) :
    s.Updates t := by
  induction entries with
  | nil => cases h
  | cons entry rest ih =>
      simp only [firstReady] at h
      split at h
      · rename_i hdone
        cases h
        exact updates_attempt hdone
      · exact ih h

theorem updates_choose (s : Store) (waits : List WaitCase) :
    Updates { s with rotation := s.rotation + 1 } (s.choose waits).2 := by
  simp only [choose]
  split
  · rename_i hready
    exact updates_firstReady hready
  · split
    · exact .refl
    · split <;> exact .refl

/-! ## Operators -/

theorem updates_receiveFrom (s : Store) (id : Nat) : s.Updates (s.receiveFrom id).2 := by
  unfold receiveFrom
  split
  · exact s.updates_setChannel id _
  · exact .refl
  · exact .refl
  · exact .refl

theorem updates_slice
    {s t : Store} {v i j : Value} {o : Outcome}
    (h : s.slice v i j = .ok (o, t)) :
    s.Updates t := by
  unfold slice at h
  split at h
  · simp only [bind, Except.bind] at h
    split at h
    · cases h
    · split at h <;> cases h
      · exact s.updates_newList _
      · exact .refl
  · simp only [bind, Except.bind] at h
    split at h
    · cases h
    · split at h <;> cases h <;> exact .refl
  · cases h

theorem updates_operate (s : Store) (op : Operation) (args : List Value) :
    s.Updates (s.operate op args).2 := by
  unfold operate
  -- Only assignments, slices and receipts do not leave the store as it is.
  split <;> try exact .refl
  · split
    · exact s.updates_write _ _
    · exact .refl
  · split
    · exact (s.updates_write _ _).trans (updates_write _ _ _)
    · exact .refl
    · exact .refl
  · split
    · rename_i hslice
      exact updates_slice hslice
    · exact .refl
  · split
    · exact .refl
    · exact s.updates_receiveFrom _
    · exact .refl

theorem updates_invoke (s : Store) (name : String) (args : List Value) :
    s.Updates (s.invoke name args).2 := by
  unfold invoke
  split
  · exact s.updates_operate _ _
  · exact .refl

/-! ## The library -/

/-- A co-expression that was not running has ended. -/
def Abandons (s : Store) (id : Nat) (t : Store) : Prop :=
  (∃ frame label, s.producer id = .fresh frame label ∨ s.producer id = .waiting frame label) ∧
    t = s.endProducer id

theorem abandon_cases (s : Store) (id : Nat) :
    s.abandon id = s ∨ s.Abandons id (s.abandon id) := by
  unfold abandon
  split
  · rename_i frame label hfresh
    exact Or.inr ⟨⟨frame, label, Or.inl hfresh⟩, rfl⟩
  · rename_i frame label hwaiting
    exact Or.inr ⟨⟨frame, label, Or.inr hwaiting⟩, rfl⟩
  · exact Or.inl rfl

theorem updates_closeValue (s : Store) (v : Value) :
    s.Updates (s.closeValue v).2 ∨
      ∃ id, v = .coexpression id ∧ s.Abandons id (s.closeValue v).2 := by
  unfold closeValue
  split
  · split
    · exact Or.inl (s.updates_setChannel _ _)
    · exact Or.inl .refl
  · rename_i id
    split
    · exact Or.inl .refl
    · rcases s.abandon_cases id with hsame | habandons
      · rw [hsame]
        exact Or.inl .refl
      · exact Or.inr ⟨id, rfl, habandons⟩
  · exact Or.inl .refl

theorem updates_makeChannel (s : Store) (capacity : Value) :
    s.Updates (s.makeChannel capacity).2 := by
  unfold makeChannel
  split
  · exact .refl
  · split
    · exact .refl
    · exact .single (.newChannel _)

theorem updates_sendTo (s : Store) (channel v : Value) :
    s.Updates (s.sendTo channel v).2 := by
  unfold sendTo
  split
  · split
    · exact s.updates_setChannel _ _
    · exact .refl
    · exact .refl
  · exact .refl

theorem updates_makeList (s : Store) (size fill : Value) :
    s.Updates (s.makeList size fill).2 := by
  unfold makeList
  split
  · exact .refl
  · split
    · exact .refl
    · exact s.updates_newList _

theorem updates_builtin (s : Store) (b : Builtin) (args : List Value) :
    s.Updates (s.builtin b args).2 ∨
      b = .close ∧ ∃ id, args.getD 0 .nil = .coexpression id ∧
        s.Abandons id (s.builtin b args).2 := by
  cases b with
  | close =>
      rcases s.updates_closeValue (args.getD 0 .nil) with h | h
      · exact Or.inl h
      · exact Or.inr ⟨rfl, h⟩
  | write => exact Or.inl (.single (.print _))
  | writes => exact Or.inl (.single (.print _))
  | channel => exact Or.inl (s.updates_makeChannel _)
  | send => exact Or.inl (s.updates_sendTo _ _)
  | list => exact Or.inl (s.updates_makeList _ _)
  | receive =>
      left
      simp only [builtin]
      split
      · exact s.updates_receiveFrom _
      · exact .refl
  | exit =>
      left
      simp only [builtin]
      split
      · exact .refl
      · split <;> exact .refl
  | number =>
      left
      simp only [builtin]
      split <;> exact .refl
  | throw => exact Or.inl .refl
  | abs => exact Or.inl .refl
  | sqrt => exact Or.inl .refl
  | string => exact Or.inl .refl
  | max => exact Or.inl .refl
  | min => exact Or.inl .refl
  | repl => exact Or.inl .refl

end Updates

end Store
end GoalDirected
