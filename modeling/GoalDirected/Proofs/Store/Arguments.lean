import GoalDirected.Proofs.Machine.Calls
import Mathlib.Data.List.Nodup

/-!
# How arguments reach parameters

**Input.** The code of a procedure, the arguments of a call, and names for the last of them.

**Specification.** `Store.Binds` says what the variables of the activation are bound to, parameter by parameter:
the last keyword argument of that name, or else the positional argument in that place, or else a list of
the arguments that are left.

**Argument.** Binding adds cells and never goes back to an old one.  Keyword arguments are written after all parameters
have their cells, and these are apart, so what a parameter holds in the end is the last value written for its
name.  The cells of the list of surplus arguments belong to no variable.

**Results.**
* `Store.binds_bindArguments`: the bindings of a call are those specified.
* `Code.argumentFault?_eq_some_iff`: the fault of a call, by what is wrong with its names.
* `arguments_bound`: both, and what the call makes of them.
-/

namespace GoalDirected

section Defs

/-- Cells among the first `size` ones, and no cell under two names. -/
structure Bindings.Apart
    (b : Bindings)
    (size : Nat) : Prop where
  bounded : ∀ name c, b.get? name = some c → c < size
  injective : ∀ m n c, b.get? m = some c → b.get? n = some c → m = n

/-- The value of the last keyword argument of a name. -/
def lastNamed? (name : String) (keyword : List (String × Value)) : Option Value :=
  keyword.reverse.lookup name

/-- The number of parameters that take one positional argument each. -/
def Code.fixed (code : Code) : Nat :=
  if code.variadic then code.params.length - 1 else code.params.length

/-- What the variables of an activation are bound to. -/
structure Store.Binds
    (s : Store)
    (code : Code)
    (a : Arguments)
    (b : Bindings)
    (t : Store) : Prop where
  named : ∀ name, (∃ c, b.get? name = some c) ↔ name ∈ code.params ∨ name ∈ code.locals
  fresh : ∀ (name : String) (c : Nat), b.get? name = some c → s.cells.size ≤ c
  apart : b.Apart t.cells.size
  keyword : ∀ p c v, p ∈ code.params → b.get? p = some c → lastNamed? p a.keyword = some v → t.read c = v
  fixed : ∀ i p c, i < code.fixed → code.params[i]? = some p → b.get? p = some c →
    lastNamed? p a.keyword = none → t.read c = a.positional[i]?.getD .nil
  rest : ∀ p c, code.variadic = true → code.params.getLast? = some p → b.get? p = some c →
    lastNamed? p a.keyword = none → t.read c = .list s.lists.size
  /-- The list of a variadic procedure, with cells of its own. -/
  surplus : code.variadic = true → code.params ≠ [] →
    t.listValues s.lists.size = (a.positional.drop code.fixed).toArray ∧
    ∀ c : Nat, c ∈ t.listCells s.lists.size →
      s.cells.size ≤ c ∧ c < t.cells.size ∧ ∀ name, b.get? name ≠ some c
  locals : ∀ l c, l ∈ code.locals → b.get? l = some c → t.read c = .nil
  size : s.cells.size ≤ t.cells.size
  kept : ∀ c : Nat, c < s.cells.size → t.read c = s.read c

/-- What is wrong with the names of a call. -/
inductive Code.Misnames (code : Code) (args : List Value) (names : List String) : Fault → Prop
  | tooMany
      (hlength : args.length < names.length) :
      Misnames code args names (.malfunction (.tooManyNames code.qualified names.length args.length))
  /-- The name in place `i` is the first one that is not that of a parameter. -/
  | unknown
      {i : Nat} {name : String} {v : Value}
      (hlength : names.length ≤ args.length)
      (hname : names[i]? = some name)
      (hunknown : name ∉ code.params)
      (hfirst : ∀ j < i, ∀ n, names[j]? = some n → n ∈ code.params)
      (hvalue : args[args.length - names.length + i]? = some v) :
      Misnames code args names (.exception (.noParameter code.qualified name) [v])

end Defs

section Arguments

/-! ## Bindings -/

namespace Bindings.Apart

variable {b : Bindings} {size total : Nat}

theorem mono
    (h : b.Apart size)
    (hsize : size ≤ total) :
    b.Apart total where
  bounded := fun m c hc => Nat.lt_of_lt_of_le (h.bounded m c hc) hsize
  injective := h.injective

/-- A name is bound to the next cell. -/
theorem bind
    (h : b.Apart size)
    (name : String) :
    (b.bind name size).Apart (size + 1) where
  bounded := fun m c hc => by
    by_cases hm : m = name
    · subst hm
      rw [get?_bind_self] at hc
      cases hc
      exact Nat.lt_succ_self _
    · rw [b.get?_bind_of_ne size hm] at hc
      exact Nat.lt_succ_of_lt (h.bounded m c hc)
  injective := fun m n c hm hn => by
    by_cases hmn : m = name <;> by_cases hnn : n = name
    · rw [hmn, hnn]
    · subst hmn
      rw [get?_bind_self] at hm
      rw [b.get?_bind_of_ne size hnn] at hn
      cases hm
      exact absurd (h.bounded n _ hn) (Nat.lt_irrefl _)
    · subst hnn
      rw [get?_bind_self] at hn
      rw [b.get?_bind_of_ne size hmn] at hm
      cases hn
      exact absurd (h.bounded m _ hm) (Nat.lt_irrefl _)
    · rw [b.get?_bind_of_ne size hmn] at hm
      rw [b.get?_bind_of_ne size hnn] at hn
      exact h.injective m n c hm hn

end Bindings.Apart

theorem Bindings.apart_nil (size : Nat) : Bindings.Apart [] size :=
  ⟨nofun, nofun⟩

theorem lastNamed?_cons (name : String) (k : String × Value) (keyword : List (String × Value)) :
    lastNamed? name (k :: keyword) =
      (lastNamed? name keyword).or (if name = k.1 then some k.2 else none) := by
  obtain ⟨n, v⟩ := k
  by_cases h : name = n
  · simp [lastNamed?, List.lookup_append, h]
  · have h' : (name == n) = false := by simpa using h
    simp [lastNamed?, List.lookup_append, List.lookup_cons, h, h']

namespace Store

variable {s t : Store} {b : Bindings} {code : Code} {a : Arguments} {name : String} {c : CellId}
variable {entries keyword : List (String × Value)}

/-! ## Cells for names -/

theorem size_bindAll (s : Store) (b : Bindings) (entries : List (String × Value)) :
    (s.bindAll b entries).2.cells.size = s.cells.size + entries.length := by
  induction entries generalizing s b with
  | nil => rfl
  | cons entry rest ih =>
      simp only [bindAll, ih, size_allocate, List.length_cons]
      omega

theorem lists_bindAll (s : Store) (b : Bindings) (entries : List (String × Value)) :
    (s.bindAll b entries).2.lists = s.lists := by
  induction entries generalizing s b with
  | nil => rfl
  | cons entry rest ih => exact ih (s.allocate entry.2).2 _

theorem read_bindAll_of_lt
    (b : Bindings) (entries : List (String × Value))
    (hc : c < s.cells.size) :
    (s.bindAll b entries).2.read c = s.read c := by
  induction entries generalizing s b with
  | nil => rfl
  | cons entry rest ih =>
      have hlt : c < (s.allocate entry.2).2.cells.size := by
        rw [size_allocate]
        exact Nat.lt_succ_of_lt hc
      exact (ih _ hlt).trans (s.read_allocate_of_lt entry.2 hc)

theorem get?_bindAll_of_notMem
    (b : Bindings)
    (h : name ∉ entries.map (·.1)) :
    (s.bindAll b entries).1.get? name = b.get? name := by
  induction entries generalizing s b with
  | nil => rfl
  | cons entry rest ih =>
      simp only [List.map_cons, List.mem_cons, not_or] at h
      exact (ih _ h.2).trans (b.get?_bind_of_ne _ h.1)

/-- A name that gets a cell gets a new one, with a value that is listed for it. -/
theorem get?_bindAll_of_mem
    (b : Bindings)
    (h : name ∈ entries.map (·.1)) :
    ∃ c, (s.bindAll b entries).1.get? name = some c ∧ s.cells.size ≤ c ∧
      (name, (s.bindAll b entries).2.read c) ∈ entries := by
  induction entries generalizing s b with
  | nil => cases h
  | cons entry rest ih =>
      obtain ⟨n, v⟩ := entry
      by_cases hrest : name ∈ rest.map (·.1)
      · obtain ⟨c, hc, hnew, hvalue⟩ := ih (s := (s.allocate v).2) (b.bind n (s.allocate v).1) hrest
        rw [size_allocate] at hnew
        exact ⟨c, hc, Nat.le_of_succ_le hnew, List.mem_cons_of_mem _ hvalue⟩
      · -- no later entry has the name, so its cell stays as it was made
        have hn : name = n := by simpa [hrest] using h
        subst hn
        have hlt : (s.allocate v).1 < (s.allocate v).2.cells.size := by
          rw [size_allocate]
          exact Nat.lt_succ_self _
        refine ⟨(s.allocate v).1, ?_, Nat.le_refl _, ?_⟩
        · simp only [bindAll, get?_bindAll_of_notMem _ hrest, Bindings.get?_bind_self]
        · simp only [bindAll, read_bindAll_of_lt _ rest hlt, read_allocate_self]
          exact List.mem_cons_self

theorem apart_bindAll
    (h : b.Apart s.cells.size)
    (entries : List (String × Value)) :
    (s.bindAll b entries).1.Apart (s.bindAll b entries).2.cells.size := by
  induction entries generalizing s b with
  | nil => exact h
  | cons entry rest ih =>
      have hbind := h.bind entry.1
      rw [← s.size_allocate entry.2] at hbind
      exact ih hbind

/-! ## Keyword arguments -/

theorem size_bindKeywords (s : Store) (b : Bindings) (keyword : List (String × Value)) :
    (s.bindKeywords b keyword).cells.size = s.cells.size := by
  induction keyword generalizing s with
  | nil => rfl
  | cons k rest ih =>
      simp only [bindKeywords]
      split
      · rw [ih, size_write]
      · exact ih s

theorem lists_bindKeywords (s : Store) (b : Bindings) (keyword : List (String × Value)) :
    (s.bindKeywords b keyword).lists = s.lists := by
  induction keyword generalizing s with
  | nil => rfl
  | cons k rest ih =>
      simp only [bindKeywords]
      split <;> exact ih _

/-- Cells of no name stay as they are. -/
theorem read_bindKeywords_of_ne
    (keyword : List (String × Value))
    (h : ∀ name, b.get? name ≠ some c) :
    (s.bindKeywords b keyword).read c = s.read c := by
  induction keyword generalizing s with
  | nil => rfl
  | cons k rest ih =>
      simp only [bindKeywords]
      split
      · rename_i cell hcell
        have hne : c ≠ cell := by
          rintro rfl
          exact h k.1 hcell
        rw [ih, s.read_write_of_ne k.2 hne]
      · exact ih

/-- The last value written to the cell of a name is that of the last keyword argument of the name. -/
theorem read_bindKeywords
    (hb : b.Apart s.cells.size)
    (keyword : List (String × Value))
    (hc : b.get? name = some c) :
    (s.bindKeywords b keyword).read c = (lastNamed? name keyword).getD (s.read c) := by
  induction keyword generalizing s with
  | nil => rfl
  | cons k rest ih =>
      obtain ⟨n, v⟩ := k
      rw [lastNamed?_cons]
      by_cases hn : name = n
      · subst hn
        have hlt := hb.bounded name c hc
        simp only [bindKeywords, hc]
        rw [ih (by rwa [size_write]), s.read_write_self v hlt]
        cases lastNamed? name rest <;> simp
      · simp only [bindKeywords, hn, if_false, Option.or_none]
        split
        · rename_i cell hcell
          have hne : c ≠ cell := by
            rintro rfl
            exact hn (hb.injective name n c hc hcell)
          rw [ih (by rwa [size_write]), s.read_write_of_ne v hne]
        · exact ih hb

/-! ## Parameters -/

theorem map_fst_parameters (names : List String) (values : List Value) :
    (parameters names values).map (·.1) = names := by
  induction names generalizing values with
  | nil => rfl
  | cons name rest ih => cases values <;> simp [parameters, ih]

theorem getElem?_parameters (names : List String) (values : List Value) (i : Nat) :
    (parameters names values)[i]? = names[i]?.map fun p => (p, values[i]?.getD .nil) := by
  induction names generalizing values i with
  | nil => rfl
  | cons name rest ih =>
      cases values with
      | nil => cases i <;> simp [parameters, ih]
      | cons v vs => cases i <;> simp [parameters, ih]

/-- The value listed for a name that is listed once. -/
theorem value_eq_of_mem
    {i : Nat} {v w : Value}
    (hnodup : (entries.map (·.1)).Nodup)
    (hv : (name, v) ∈ entries)
    (hw : entries[i]? = some (name, w)) :
    v = w := by
  have hmem := List.mem_of_getElem? hw
  exact congrArg Prod.snd (List.inj_on_of_nodup_map hnodup hv hmem rfl)

/-! ## Lists -/

theorem read_newList_of_lt
    (values : Array Value)
    (hc : c < s.cells.size) :
    (s.newList values).2.read c = s.read c := by
  simp [newList, read, Array.getD_eq_getD_getElem?, Array.getElem?_append_left hc]

theorem read_newList_add
    (s : Store) (values : Array Value) (i : Nat) :
    (s.newList values).2.read (s.cells.size + i) = values.getD i .nil := by
  simp [newList, read, Array.getD_eq_getD_getElem?, Array.getElem?_append_right]

theorem size_newList (s : Store) (values : Array Value) :
    (s.newList values).2.cells.size = s.cells.size + values.size := by
  simp [newList]

theorem listCells_newList (s : Store) (values : Array Value) :
    (s.newList values).2.listCells s.lists.size = Array.range' s.cells.size values.size := by
  simp [newList, listCells]

/-- A later store with the same lists and cells has the values of the list. -/
theorem listValues_newList
    {values : Array Value}
    (hlists : t.lists = (s.newList values).2.lists)
    (hread : ∀ i, i < values.size → t.read (s.cells.size + i) = (s.newList values).2.read (s.cells.size + i)) :
    t.listValues s.lists.size = values := by
  have hcells : t.listCells s.lists.size = Array.range' s.cells.size values.size := by
    rw [← s.listCells_newList values, listCells, hlists, listCells]
  refine Array.ext (by simp [listValues, hcells]) ?_
  intro i hi hi'
  have hvalue := hread i hi'
  rw [read_newList_add] at hvalue
  simp only [listValues, hcells, Array.getElem_map, Array.getElem_range', Nat.one_mul]
  simpa [Array.getD, hi'] using hvalue

end Store

/-- The parameters are the fixed ones, followed by the one that takes the rest. -/
theorem Code.params_eq (code : Code) :
    code.params = code.params.take code.fixed ++ if code.variadic then code.params.getLast?.toList else [] := by
  unfold Code.fixed
  cases code.variadic with
  | false => simp
  | true =>
      rcases List.eq_nil_or_concat code.params with hnil | ⟨front, last, hparams⟩
      · simp [hnil]
      · simp [hparams]

namespace Store

variable {s t : Store} {b : Bindings} {code : Code} {a : Arguments}

/-! ## Stages of a binding -/

theorem bindParameters_eq
    (s : Store) (code : Code) (positional : List Value) :
    s.bindParameters code positional =
      let bound := s.bindAll [] (parameters (code.params.take code.fixed) (positional.take code.fixed))
      match code.variadic, code.params.getLast? with
      | true, some rest =>
          let list := bound.2.newList (positional.drop code.fixed).toArray
          list.2.bindAll bound.1 [(rest, list.1)]
      | _, _ => bound :=
  rfl

/-- Parameters that take one argument each. -/
theorem binds_parameters
    (s : Store) (positional : List Value)
    (hparams : code.params.Nodup)
    (hlocals : code.locals = [])
    (hvariadic : code.variadic = false) :
    s.Binds code ⟨positional, []⟩ (s.bindAll [] (parameters code.params positional)).1
      (s.bindAll [] (parameters code.params positional)).2 := by
  have hnames := map_fst_parameters code.params positional
  have hentry := getElem?_parameters code.params positional
  generalize parameters code.params positional = entries at hnames hentry
  have hmem : ∀ p c, (s.bindAll [] entries).1.get? p = some c →
      p ∈ code.params ∧ s.cells.size ≤ c ∧ (p, (s.bindAll [] entries).2.read c) ∈ entries := by
    intro p c hc
    have hp : p ∈ entries.map (·.1) := by
      by_contra hnot
      rw [get?_bindAll_of_notMem [] hnot] at hc
      cases hc
    obtain ⟨c', hc', hnew, hvalue⟩ := get?_bindAll_of_mem (s := s) [] hp
    cases hc.symm.trans hc'
    exact ⟨hnames ▸ hp, hnew, hvalue⟩
  refine ⟨?_, fun p c hc => (hmem p c hc).2.1, ?_, nofun, ?_, ?_, ?_, ?_, ?_, ?_⟩
  · intro name
    rw [hlocals, ← hnames]
    constructor
    · rintro ⟨c, hc⟩
      exact Or.inl (hnames ▸ (hmem name c hc).1)
    · rintro (hname | hname)
      · obtain ⟨c, hc, -⟩ := get?_bindAll_of_mem (s := s) [] hname
        exact ⟨c, hc⟩
      · cases hname
  · exact apart_bindAll (Bindings.apart_nil _) entries
  · intro i p c _ hp hc _
    refine value_eq_of_mem (hnames ▸ hparams) (hmem p c hc).2.2 (i := i) ?_
    rw [hentry, hp]
    rfl
  · intro p c hrest
    cases hvariadic.symm.trans hrest
  · intro hrest
    cases hvariadic.symm.trans hrest
  · rw [hlocals]
    nofun
  · rw [size_bindAll]
    exact Nat.le_add_right _ _
  · exact fun c hc => read_bindAll_of_lt [] entries hc

/-- The last parameter gets the list of the arguments that are left. -/
theorem Binds.bindRest
    {positional : List Value} {last : String}
    (h : s.Binds { code with params := code.params.take code.fixed, variadic := false }
      ⟨positional.take code.fixed, []⟩ b t)
    (hlists : t.lists = s.lists)
    (hparams : code.params.Nodup)
    (hlocals : code.locals = [])
    (hvariadic : code.variadic = true)
    (hlast : code.params.getLast? = some last) :
    s.Binds code ⟨positional, []⟩
      ((t.newList (positional.drop code.fixed).toArray).2.bindAll b
        [(last, (t.newList (positional.drop code.fixed).toArray).1)]).1
      ((t.newList (positional.drop code.fixed).toArray).2.bindAll b
        [(last, (t.newList (positional.drop code.fixed).toArray).1)]).2 := by
  have hsplit := code.params_eq
  rw [hvariadic, hlast] at hsplit
  simp only [if_true, Option.toList_some] at hsplit
  have hnotMem : last ∉ code.params.take code.fixed := by
    rw [hsplit] at hparams
    exact fun hmem => (List.nodup_append.mp hparams).2.2 last hmem last List.mem_cons_self rfl
  have hmem : ∀ name, name ∈ code.params ↔ name ∈ code.params.take code.fixed ∨ name = last := by
    intro name
    conv_lhs => rw [hsplit]
    simp
  generalize hvalues : (positional.drop code.fixed).toArray = values
  have hsize := t.size_newList values
  have hgrown := h.size
  change s.Binds code ⟨positional, []⟩ (b.bind last (t.newList values).2.cells.size)
    ((t.newList values).2.allocate (t.newList values).1).2
  obtain ⟨cell, hcell⟩ : ∃ cell : Nat, cell = (t.newList values).2.cells.size := ⟨_, rfl⟩
  rw [← hcell]
  have hself := b.get?_bind_self last cell
  have hother : ∀ (name : String) (c : Nat), name ≠ last → (b.bind last cell).get? name = some c →
      b.get? name = some c ∧ c < t.cells.size := by
    intro name c hne hc
    rw [b.get?_bind_of_ne _ hne] at hc
    exact ⟨hc, h.apart.bounded name c hc⟩
  have hold : ∀ c : Nat, c < t.cells.size →
      ((t.newList values).2.allocate (t.newList values).1).2.read c = t.read c := by
    intro c hc
    rw [read_allocate_of_lt _ _ (by omega), t.read_newList_of_lt values hc]
  refine ⟨?_, ?_, ?_, nofun, ?_, ?_, ?_, ?_, ?_, ?_⟩
  · intro name
    rw [hlocals, hmem name]
    by_cases hname : name = last
    · subst hname
      exact iff_of_true ⟨_, hself⟩ (Or.inl (Or.inr rfl))
    · rw [b.get?_bind_of_ne _ hname, h.named name]
      simp [hname, hlocals]
  · intro name c hc
    by_cases hname : name = last
    · subst hname
      cases hself.symm.trans hc
      omega
    · exact h.fresh name c (hother name c hname hc).1
  · have hwider : b.Apart (t.newList values).2.cells.size := h.apart.mono (by omega)
    have hbind := hwider.bind last
    rw [← hcell] at hbind
    rwa [size_allocate, ← hcell]
  · intro i p c hi hp hc _
    have htake : (code.params.take code.fixed)[i]? = some p := by
      rw [List.getElem?_take_of_lt hi, hp]
    have hne : p ≠ last := fun heq => hnotMem (heq ▸ List.mem_of_getElem? htake)
    obtain ⟨hc, hlt⟩ := hother p c hne hc
    obtain ⟨hlength, -⟩ := List.getElem?_eq_some_iff.mp htake
    have hvalue := h.fixed i p c hlength htake hc rfl
    rw [hold c hlt, hvalue]
    dsimp only
    rw [List.getElem?_take_of_lt hi]
  · intro p c _ hp hc _
    cases hlast.symm.trans hp
    cases hself.symm.trans hc
    have hlist := (t.newList values).2.read_allocate_self (t.newList values).1
    rw [hcell]
    refine hlist.trans ?_
    rw [← hlists]
    rfl
  · intro _ _
    rw [← hlists]
    refine ⟨?_, ?_⟩
    · dsimp only
      rw [hvalues]
      exact listValues_newList rfl fun i hi => read_allocate_of_lt _ _ (by omega)
    · intro c hc
      have hc : c ∈ Array.range' t.cells.size values.size := by
        rw [← t.listCells_newList]
        exact hc
      obtain ⟨i, hi, rfl⟩ := Array.mem_range'.mp hc
      rw [size_allocate]
      refine ⟨by omega, by omega, ?_⟩
      intro name hname
      by_cases heq : name = last
      · subst heq
        cases hself.symm.trans hname
        omega
      · obtain ⟨-, hlt⟩ := hother name _ heq hname
        omega
  · rw [hlocals]
    nofun
  · rw [size_allocate]
    omega
  · intro c hc
    rw [hold c (by omega)]
    exact h.kept c hc

/-- Nothing takes the rest. -/
theorem Binds.of_fixed
    {positional : List Value}
    (h : s.Binds { code with params := code.params.take code.fixed, variadic := false }
      ⟨positional.take code.fixed, []⟩ b t)
    (hvariadic : code.variadic = true → code.params = []) :
    s.Binds code ⟨positional, []⟩ b t := by
  have hall : code.params.take code.fixed = code.params := by
    cases hcode : code.variadic with
    | false => simp [Code.fixed, hcode]
    | true => simp [hvariadic hcode]
  refine ⟨?_, h.fresh, h.apart, nofun, ?_, ?_, ?_, h.locals, h.size, h.kept⟩
  · intro name
    rw [h.named name, hall]
  · intro i p c hi hp hc _
    have htake : (code.params.take code.fixed)[i]? = some p := by rw [hall, hp]
    obtain ⟨hlength, -⟩ := List.getElem?_eq_some_iff.mp htake
    have hvalue := h.fixed i p c hlength htake hc rfl
    dsimp only at hvalue ⊢
    rwa [List.getElem?_take_of_lt hi] at hvalue
  · intro p c hcode hp
    rw [hvariadic hcode] at hp
    cases hp
  · exact fun hcode hne => absurd (hvariadic hcode) hne

/-- The parameters, by positional arguments alone. -/
theorem binds_bindParameters
    (s : Store) (positional : List Value)
    (hparams : code.params.Nodup)
    (hlocals : code.locals = []) :
    s.Binds code ⟨positional, []⟩ (s.bindParameters code positional).1 (s.bindParameters code positional).2 := by
  let front : Code := { code with params := code.params.take code.fixed, variadic := false }
  have hfront : front.params.Nodup := hparams.sublist (List.take_sublist _ _)
  have hfixed := binds_parameters s (positional.take code.fixed) hfront hlocals rfl
  have hlists := s.lists_bindAll [] (parameters (code.params.take code.fixed) (positional.take code.fixed))
  rw [bindParameters_eq]
  dsimp only
  split
  · rename_i last hvariadic hlast
    exact hfixed.bindRest hlists hparams hlocals hvariadic hlast
  · rename_i hnot
    refine hfixed.of_fixed fun hvariadic => ?_
    rw [← List.getLast?_eq_none_iff]
    exact Option.eq_none_iff_forall_not_mem.mpr fun last hlast => hnot last hvariadic hlast

/-- Keyword arguments take the place of what their parameters have held. -/
theorem Binds.bindKeywords
    {positional : List Value}
    (h : s.Binds code ⟨positional, []⟩ b t)
    (hlocals : code.locals = [])
    (keyword : List (String × Value)) :
    s.Binds code ⟨positional, keyword⟩ b (t.bindKeywords b keyword) := by
  have hread := fun name c (hc : b.get? name = some c) => read_bindKeywords h.apart keyword hc
  refine ⟨h.named, h.fresh, ?_, ?_, ?_, ?_, ?_, ?_, ?_, ?_⟩
  · rw [size_bindKeywords]
    exact h.apart
  · intro p c v _ hc hv
    rw [hread p c hc, show lastNamed? p keyword = some v from hv]
    rfl
  · intro i p c hi hp hc hnone
    rw [hread p c hc, show lastNamed? p keyword = none from hnone]
    exact h.fixed i p c hi hp hc rfl
  · intro p c hvariadic hp hc hnone
    rw [hread p c hc, show lastNamed? p keyword = none from hnone]
    exact h.rest p c hvariadic hp hc rfl
  · intro hvariadic hne
    obtain ⟨hvalues, hcells⟩ := h.surplus hvariadic hne
    have hsame : (t.bindKeywords b keyword).listCells s.lists.size = t.listCells s.lists.size := by
      rw [listCells, lists_bindKeywords, listCells]
    refine ⟨?_, ?_⟩
    · rw [← hvalues, listValues, hsame, listValues]
      exact Array.map_congr_left fun c hc => read_bindKeywords_of_ne keyword (hcells c hc).2.2
    · rw [hsame, size_bindKeywords]
      exact hcells
  · rw [hlocals]
    nofun
  · rw [size_bindKeywords]
    exact h.size
  · intro c hc
    rw [read_bindKeywords_of_ne keyword, h.kept c hc]
    exact fun name hname => Nat.not_lt_of_le (h.fresh name c hname) hc

/-- Locals are bound after the parameters, to cells that hold nil. -/
theorem Binds.bindLocals
    (h : s.Binds { code with locals := [] } a b t)
    (hlocals : ∀ l ∈ code.locals, l ∉ code.params) :
    s.Binds code a (t.bindAll b (code.locals.map fun l => (l, .nil))).1
      (t.bindAll b (code.locals.map fun l => (l, .nil))).2 := by
  have hnames : (code.locals.map fun l => (l, Value.nil)).map (·.1) = code.locals := by
    simp [Function.comp_def]
  generalize hentries : (code.locals.map fun l => (l, Value.nil)) = entries at hnames
  have hnil : ∀ x ∈ entries, x.2 = .nil := by
    subst hentries
    simp
  -- what a name other than a local is bound to
  have hother : ∀ name, name ∉ code.locals →
      (t.bindAll b entries).1.get? name = b.get? name := by
    intro name hname
    rw [← hnames] at hname
    exact get?_bindAll_of_notMem b hname
  have hlocal : ∀ l ∈ code.locals, ∃ c, (t.bindAll b entries).1.get? l = some c ∧ t.cells.size ≤ c ∧
      (t.bindAll b entries).2.read c = .nil := by
    intro l hl
    rw [← hnames] at hl
    obtain ⟨c, hc, hnew, hvalue⟩ := get?_bindAll_of_mem (s := t) b hl
    exact ⟨c, hc, hnew, hnil _ hvalue⟩
  have hparam : ∀ p c, p ∈ code.params → (t.bindAll b entries).1.get? p = some c →
      b.get? p = some c ∧ (t.bindAll b entries).2.read c = t.read c := by
    intro p c hp hc
    rw [hother p fun hl => hlocals p hl hp] at hc
    exact ⟨hc, read_bindAll_of_lt b entries (h.apart.bounded p c hc)⟩
  refine ⟨?_, ?_, apart_bindAll h.apart entries, ?_, ?_, ?_, ?_, ?_, ?_, ?_⟩
  · intro name
    by_cases hname : name ∈ code.locals
    · obtain ⟨c, hc, -⟩ := hlocal name hname
      exact iff_of_true ⟨c, hc⟩ (Or.inr hname)
    · rw [hother name hname, h.named name]
      simp [hname]
  · intro name c hc
    by_cases hname : name ∈ code.locals
    · obtain ⟨c', hc', hnew, -⟩ := hlocal name hname
      cases hc.symm.trans hc'
      exact Nat.le_trans h.size hnew
    · rw [hother name hname] at hc
      exact h.fresh name c hc
  · intro p c v hp hc hv
    obtain ⟨hc, hread⟩ := hparam p c hp hc
    rw [hread]
    exact h.keyword p c v hp hc hv
  · intro i p c hi hp hc hnone
    obtain ⟨hc, hread⟩ := hparam p c (List.mem_of_getElem? hp) hc
    rw [hread]
    exact h.fixed i p c hi hp hc hnone
  · intro p c hvariadic hp hc hnone
    obtain ⟨hc, hread⟩ := hparam p c (List.mem_of_getLast? hp) hc
    rw [hread]
    exact h.rest p c hvariadic hp hc hnone
  · intro hvariadic hne
    obtain ⟨hvalues, hcells⟩ := h.surplus hvariadic hne
    have hsame : (t.bindAll b entries).2.listCells s.lists.size = t.listCells s.lists.size := by
      rw [listCells, lists_bindAll, listCells]
    refine ⟨?_, ?_⟩
    · refine Eq.trans ?_ hvalues
      rw [listValues, hsame, listValues]
      exact Array.map_congr_left fun c hc => read_bindAll_of_lt b entries (hcells c hc).2.1
    · intro c hc
      rw [hsame] at hc
      obtain ⟨hnew, hlt, hfree⟩ := hcells c hc
      refine ⟨hnew, by rw [size_bindAll]; omega, ?_⟩
      intro name hname
      by_cases hl : name ∈ code.locals
      · obtain ⟨c', hc', hnew', -⟩ := hlocal name hl
        cases hname.symm.trans hc'
        exact Nat.not_lt_of_le hnew' hlt
      · rw [hother name hl] at hname
        exact hfree name hname
  · intro l c hl hc
    obtain ⟨c', hc', -, hvalue⟩ := hlocal l hl
    cases hc.symm.trans hc'
    exact hvalue
  · rw [size_bindAll]
    exact Nat.le_trans h.size (Nat.le_add_right _ _)
  · intro c hc
    rw [read_bindAll_of_lt b entries (Nat.lt_of_lt_of_le hc h.size)]
    exact h.kept c hc

/-- The variables of an activation are bound as specified. -/
theorem binds_bindArguments
    (s : Store) (args : List Value) (names : List String)
    (hparams : code.params.Nodup)
    (hlocals : ∀ l ∈ code.locals, l ∉ code.params) :
    s.Binds code (Arguments.split args names) (s.bindArguments code args names).1
      (s.bindArguments code args names).2 := by
  let bare : Code := { code with locals := [] }
  have hbare : bare.params.Nodup := hparams
  have hpositional := binds_bindParameters s (Arguments.split args names).positional hbare rfl
  exact (hpositional.bindKeywords rfl (Arguments.split args names).keyword).bindLocals hlocals

end Store

/-! ## Faults -/

namespace Code

variable {code : Code} {args : List Value} {names : List String} {f : Fault}

/-- A keyword argument is a name with the argument in its place. -/
theorem getElem?_keyword
    {i : Nat} {name : String} {v : Value}
    (args : List Value) (names : List String) :
    (Arguments.split args names).keyword[i]? = some (name, v) ↔
      names[i]? = some name ∧ args[args.length - names.length + i]? = some v := by
  simp [Arguments.split, List.getElem?_zip_eq_some]

theorem argumentFault?_eq_none_iff :
    code.argumentFault? args names = none ↔
      names.length ≤ args.length ∧ ∀ n ∈ names, n ∈ code.params := by
  unfold argumentFault?
  by_cases hlength : args.length < names.length
  · rw [if_pos hlength]
    exact iff_of_false nofun fun h => Nat.not_lt_of_le h.1 hlength
  · have hle := Nat.le_of_not_lt hlength
    rw [if_neg hlength, Option.map_eq_none_iff, List.find?_eq_none]
    have hmap : (Arguments.split args names).keyword.map (·.1) = names := by
      refine List.map_fst_zip ?_
      rw [List.length_drop]
      omega
    constructor
    · intro h
      refine ⟨hle, ?_⟩
      intro n hn
      rw [← hmap] at hn
      obtain ⟨k, hk, rfl⟩ := List.mem_map.mp hn
      simpa using h k hk
    · rintro ⟨-, h⟩ k hk
      have hmem : k.1 ∈ names := hmap ▸ List.mem_map_of_mem hk
      simpa using h k.1 hmem

theorem argumentFault?_eq_some_iff :
    code.argumentFault? args names = some f ↔ code.Misnames args names f := by
  constructor
  · intro h
    unfold argumentFault? at h
    split at h
    · rename_i hlength
      cases h
      exact .tooMany hlength
    · rename_i hlength
      obtain ⟨⟨name, v⟩, hfind, rfl⟩ := Option.map_eq_some_iff.mp h
      obtain ⟨hunknown, i, hi, heq, hfirst⟩ := List.find?_eq_some_iff_getElem.mp hfind
      obtain ⟨hname, hvalue⟩ := (getElem?_keyword args names).mp (List.getElem?_eq_some_iff.mpr ⟨hi, heq⟩)
      refine .unknown (Nat.le_of_not_lt hlength) hname (by simpa using hunknown) ?_ hvalue
      intro j hj n hn
      have hkeyword : (Arguments.split args names).keyword[j] =
          ((Arguments.split args names).keyword[j].1, (Arguments.split args names).keyword[j].2) := rfl
      obtain ⟨hn', -⟩ := (getElem?_keyword args names).mp
        (List.getElem?_eq_some_iff.mpr ⟨Nat.lt_trans hj hi, hkeyword⟩)
      cases hn.symm.trans hn'
      simpa using hfirst j hj
  · intro h
    cases h with
    | tooMany hlength => rw [argumentFault?, if_pos hlength]
    | unknown hlength hname hunknown hfirst hvalue =>
        rename_i i name v
        have hentry := (getElem?_keyword args names).mpr ⟨hname, hvalue⟩
        obtain ⟨hi, heq⟩ := List.getElem?_eq_some_iff.mp hentry
        rw [argumentFault?, if_neg (Nat.not_lt_of_le hlength)]
        refine Option.map_eq_some_iff.mpr ⟨(name, v), ?_, rfl⟩
        refine List.find?_eq_some_iff_getElem.mpr ⟨by simpa using hunknown, i, hi, heq, ?_⟩
        intro j hj
        have hkeyword : (Arguments.split args names).keyword[j] =
            ((Arguments.split args names).keyword[j].1, (Arguments.split args names).keyword[j].2) := rfl
        obtain ⟨hn, -⟩ := (getElem?_keyword args names).mp
          (List.getElem?_eq_some_iff.mpr ⟨Nat.lt_trans hj hi, hkeyword⟩)
        simpa using hfirst j hj _ hn

end Code

/-- A call raises a malfunction exactly if there are more names than arguments, and otherwise an exception exactly
if some name is that of no parameter, with the value of the first such name.  If neither is the case, its
frame starts with every parameter and every local in a cell of its own, bound as `Store.Binds` says. -/
theorem arguments_bound
    (s : Store) (code : Code) (args : List Value) (names : List String)
    (hparams : code.params.Nodup)
    (hlocals : ∀ l ∈ code.locals, l ∉ code.params) :
    (∀ f, code.argumentFault? args names = some f ↔ code.Misnames args names f) ∧
    ((∃ m, code.argumentFault? args names = some (.malfunction m)) ↔ args.length < names.length) ∧
    ((∃ cause offending, code.argumentFault? args names = some (.exception cause offending)) ↔
      names.length ≤ args.length ∧ ∃ n ∈ names, n ∉ code.params) ∧
    (code.argumentFault? args names = none →
      s.Binds code (Arguments.split args names) (s.bindArguments code args names).1
        (s.bindArguments code args names).2) ∧
    ∀ (stack : List Context) (environment : Environment) (p : Procedure), p.code = code →
      (∀ f, code.argumentFault? args names = some f →
        Machine.enter s stack environment p args names = Machine.raise s stack f) ∧
      (code.argumentFault? args names = none →
        (Machine.enter s stack environment p args names).store =
          ((s.bindArguments code args names).2.newFrame
            (.new environment p args (s.bindArguments code args names).1)).2) := by
  have hnone := @Code.argumentFault?_eq_none_iff code args names
  refine ⟨fun f => Code.argumentFault?_eq_some_iff, ?_, ?_, ?_, ?_⟩
  · constructor
    · rintro ⟨m, hm⟩
      cases Code.argumentFault?_eq_some_iff.mp hm with
      | tooMany hlength => exact hlength
    · exact fun hlength => ⟨_, Code.argumentFault?_eq_some_iff.mpr (.tooMany hlength)⟩
  · constructor
    · rintro ⟨cause, offending, hf⟩
      cases Code.argumentFault?_eq_some_iff.mp hf with
      | unknown hlength hname hunknown hfirst hvalue =>
          exact ⟨hlength, _, List.mem_of_getElem? hname, hunknown⟩
    · rintro ⟨hlength, n, hn, hunknown⟩
      cases hf : code.argumentFault? args names with
      | none => exact absurd ((hnone.mp hf).2 n hn) hunknown
      | some f =>
          cases Code.argumentFault?_eq_some_iff.mp hf with
          | tooMany hlength' => exact absurd hlength' (Nat.not_lt_of_le hlength)
          | unknown => exact ⟨_, _, rfl⟩
  · exact fun _ => s.binds_bindArguments args names hparams hlocals
  · rintro stack environment p rfl
    refine ⟨?_, ?_⟩
    · intro f hf
      rw [Machine.enter, hf]
    · intro hf
      rw [Machine.enter, hf]
      dsimp only
      split
      · rfl
      · exact Machine.store_leave ..

/-- A variadic procedure of two parameters with a local. -/
def Code.gather : Code where
  name := "gather"
  qualified := "gather"
  namespaceName := ""
  params := ["first", "rest"]
  locals := ["x"]
  statics := []
  variadic := true
  temps := 0
  entry := "start"
  deps := []
  chunks := []

/-- The first parameter is named twice, and two arguments are left over. -/
theorem arguments_bound_gather :
    Code.gather.params.Nodup ∧ (∀ l ∈ Code.gather.locals, l ∉ Code.gather.params) ∧
      ({} : Store).Binds Code.gather
        (Arguments.split [.text "a", .text "b", .text "c", .text "d", .text "e"] ["first", "first"])
        (({} : Store).bindArguments Code.gather [.text "a", .text "b", .text "c", .text "d", .text "e"]
          ["first", "first"]).1
        (({} : Store).bindArguments Code.gather [.text "a", .text "b", .text "c", .text "d", .text "e"]
          ["first", "first"]).2 :=
  ⟨by decide, by decide,
    (arguments_bound {} Code.gather [.text "a", .text "b", .text "c", .text "d", .text "e"] ["first", "first"]
      (by decide) (by decide)).2.2.2.1 (by decide)⟩

end Arguments

end GoalDirected
