import GoalDirected.Proofs.Store.Arguments

/-!
# Constructors and procedures take arguments alike

**Input.** A call of a constructor, and the same call of a procedure that has the fields of the record as its parameters.

**Argument.** A constructor fills the values of its fields place by place before it makes any cell, a procedure writes
into the cells that its parameters have already.  Either way the last value for a name stays.  They part where there
are more names than arguments: the procedure refuses the call, and the constructor passes over the names that have
no argument.

**Results.**
* `Store.fillFields_eq_error_iff`, `Store.getElem?_of_fillFields`: the keyword arguments of a constructor.
* `Store.allocateAll_eq`: cells for several values.
* `Store.bindsAlike_iff`: the two agree on a call exactly if it has an argument for each of its names.
-/

namespace GoalDirected

section Defs

/-- A constructor and a procedure make the same of a call: both refuse it with a fault of one kind, or both accept it
and have the same value for every name. -/
inductive Store.BindsAlike
    (s : Store)
    (record : String)
    (code : Code)
    (args : List Value)
    (names : List String) : Prop
  | refused
      {f g : Fault}
      (hprocedure : code.argumentFault? args names = some f)
      (hconstructor : s.construct record code.params args names = .error g)
      (hkind : g.isMalfunction = f.isMalfunction) :
      BindsAlike s record code args names
  | bound
      {id : Nat} {t : Store}
      (hprocedure : code.argumentFault? args names = none)
      (hconstructor : s.construct record code.params args names = .ok (.record id, t))
      (hvalues : ∀ name ∈ code.params, ∃ c d,
        (s.bindArguments code args names).1.get? name = some c ∧ (t.record id).fields.get? name = some d ∧
          t.read d = (s.bindArguments code args names).2.read c) :
      BindsAlike s record code args names

end Defs

section Constructors

namespace Store

variable {record name : String} {fields names : List String} {values filled : List Value}
  {keyword : List (String × Value)} {f : Fault}

/-! ## Keyword arguments -/

theorem findIdx?_eq_some_of_nodup
    {i : Nat}
    (hnodup : fields.Nodup)
    (hi : fields[i]? = some name) :
    fields.findIdx? (· == name) = some i := by
  obtain ⟨hlt, rfl⟩ := List.getElem?_eq_some_iff.mp hi
  refine List.findIdx?_eq_some_iff_getElem.mpr ⟨hlt, by simp, ?_⟩
  intro j hj
  simpa [hnodup.getElem_inj_iff] using Nat.ne_of_lt hj

/-- A constructor refuses the first name that is not that of a field, with the value given for it. -/
theorem fillFields_eq_error_iff :
    fillFields record fields values keyword = .error f ↔
      ∃ k, keyword.find? (fun k => !fields.contains k.1) = some k ∧ f = .exception (.noField record k.1) [k.2] := by
  induction keyword generalizing values with
  | nil => simp [fillFields]
  | cons k rest ih =>
      obtain ⟨n, v⟩ := k
      by_cases hn : n ∈ fields
      · obtain ⟨i, hi⟩ := Option.isSome_iff_exists.mp
          ((List.findIdx?_isSome (p := (· == n))).trans (by simpa using hn))
        simp only [fillFields, hi, ih]
        simp [hn]
      · have hnone : fields.findIdx? (· == n) = none := by
          refine List.findIdx?_eq_none_iff.mpr fun x hx => ?_
          simpa using fun h : x = n => hn (h ▸ hx)
        simp [fillFields, hnone, hn, eq_comm]

theorem length_of_fillFields
    (h : fillFields record fields values keyword = .ok filled) :
    filled.length = values.length := by
  induction keyword generalizing values with
  | nil =>
      cases h
      rfl
  | cons k rest ih =>
      obtain ⟨n, v⟩ := k
      simp only [fillFields] at h
      split at h
      · rw [ih h, List.length_set]
      · cases h

/-- A field gets the last value given for its name, and otherwise keeps its positional one. -/
theorem getElem?_of_fillFields
    {i : Nat}
    (hnodup : fields.Nodup)
    (h : fillFields record fields values keyword = .ok filled)
    (hi : fields[i]? = some name) :
    filled[i]? = values[i]?.map fun v => (lastNamed? name keyword).getD v := by
  induction keyword generalizing values with
  | nil =>
      cases h
      simp [lastNamed?]
  | cons k rest ih =>
      obtain ⟨n, v⟩ := k
      simp only [fillFields] at h
      split at h
      · rename_i j hj
        rw [ih h, lastNamed?_cons]
        by_cases hn : name = n
        · subst hn
          obtain rfl : i = j := Option.some.inj ((findIdx?_eq_some_of_nodup hnodup hi).symm.trans hj)
          rw [List.getElem?_set_self']
          cases values[i]? <;> cases lastNamed? name rest <;> simp
        · have hij : j ≠ i := by
            rintro rfl
            obtain ⟨hlt, hp, -⟩ := List.findIdx?_eq_some_iff_getElem.mp hj
            rw [List.getElem?_eq_getElem hlt] at hi
            cases hi
            exact hn (by simpa using hp)
          simp [List.getElem?_set_ne hij, hn]
      · cases h

/-! ## Fields -/

/-- Cells for several values stand one behind the other. -/
theorem allocateAll_eq (s : Store) (values : List Value) :
    s.allocateAll values =
      (List.range' s.cells.size values.length, { s with cells := s.cells ++ values.toArray }) := by
  induction values generalizing s with
  | nil => simp [allocateAll]
  | cons v rest ih => simp [allocateAll, allocate, ih, List.range'_succ]

theorem get?_zip
    {i : Nat}
    (cells : List CellId)
    (hnodup : names.Nodup)
    (hi : names[i]? = some name) :
    Bindings.get? (names.zip cells) name = cells[i]? := by
  induction names generalizing cells i with
  | nil => simp at hi
  | cons n rest ih =>
      obtain ⟨hn, hrest⟩ := List.nodup_cons.mp hnodup
      cases cells with
      | nil => rfl
      | cons c cells =>
          cases i with
          | zero =>
              cases hi
              simp [Bindings.get?]
          | succ i =>
              have hne : (name == n) = false := by
                simpa using fun h : name = n => hn (h ▸ List.mem_of_getElem? hi)
              simpa [Bindings.get?, List.lookup_cons, hne] using ih cells hrest hi

/-- A new record has the listed value in the field of each name. -/
theorem read_newRecord
    {i : Nat} {v : Value}
    (s : Store) (record : String)
    (hnodup : names.Nodup)
    (hlength : values.length = names.length)
    (hi : names[i]? = some name)
    (hv : values[i]? = some v) :
    ∃ d, ((s.newRecord record (names.zip values)).2.record s.records.size).fields.get? name = some d ∧
      (s.newRecord record (names.zip values)).2.read d = v := by
  have hnames : (names.zip values).map (·.1) = names := List.map_fst_zip (Nat.le_of_eq hlength.symm)
  have hvalues : (names.zip values).map (·.2) = values := List.map_snd_zip (Nat.le_of_eq hlength)
  obtain ⟨hlt, -⟩ := List.getElem?_eq_some_iff.mp hv
  refine ⟨s.cells.size + i, ?_, ?_⟩
  · simp only [newRecord, hnames, hvalues, allocateAll_eq, Store.record]
    simpa [hlt] using get?_zip (List.range' s.cells.size values.length) hnodup hi
  · simp [newRecord, hvalues, allocateAll_eq, read, Array.getD_eq_getD_getElem?, Array.getElem?_append_right, hv]

/-- A constructor that accepts a call makes a record with the last value given for each name, or else the positional
one. -/
theorem construct_eq_ok
    {args : List Value}
    (s : Store) (record : String)
    (hnodup : fields.Nodup)
    (hnames : ∀ k ∈ (Arguments.split args names).keyword, k.1 ∈ fields) :
    ∃ t, s.construct record fields args names = .ok (.record s.records.size, t) ∧
      ∀ (i : Nat) (name : String), fields[i]? = some name → ∃ d, (t.record s.records.size).fields.get? name = some d ∧
        t.read d = (lastNamed? name (Arguments.split args names).keyword).getD
          ((Arguments.split args names).positional[i]?.getD .nil) := by
  simp only [construct]
  generalize Arguments.split args names = a at hnames
  have hsize : ((parameters fields a.positional).map (·.2)).length = fields.length := by
    rw [List.length_map, ← List.length_map (f := (·.1)), map_fst_parameters]
  cases hfill : fillFields record fields ((parameters fields a.positional).map (·.2)) a.keyword with
  | error f =>
      obtain ⟨k, hk, -⟩ := fillFields_eq_error_iff.mp hfill
      have hunknown := List.find?_some hk
      simp [hnames k (List.mem_of_find?_eq_some hk)] at hunknown
  | ok filled =>
      have hlength : filled.length = fields.length := (length_of_fillFields hfill).trans hsize
      have hrecord : (s.newRecord record (fields.zip filled)).1 = .record s.records.size := by
        simp [newRecord, allocateAll_eq]
      refine ⟨(s.newRecord record (fields.zip filled)).2, congrArg Except.ok (Prod.ext hrecord rfl), ?_⟩
      intro i name hi
      refine read_newRecord s record hnodup hlength hi ?_
      simp [getElem?_of_fillFields hnodup hfill hi, getElem?_parameters, hi]

/-- What a parameter of a procedure that is not variadic holds. -/
theorem Binds.read_param
    {s t : Store} {code : Code} {a : Arguments} {b : Bindings} {i : Nat}
    (h : s.Binds code a b t)
    (hvariadic : code.variadic = false)
    (hi : code.params[i]? = some name) :
    ∃ c, b.get? name = some c ∧ t.read c = (lastNamed? name a.keyword).getD (a.positional[i]?.getD .nil) := by
  obtain ⟨hlt, -⟩ := List.getElem?_eq_some_iff.mp hi
  have hmem : name ∈ code.params := List.mem_of_getElem? hi
  obtain ⟨c, hc⟩ := (h.named name).mpr (Or.inl hmem)
  refine ⟨c, hc, ?_⟩
  cases hlast : lastNamed? name a.keyword with
  | some v => exact h.keyword name c v hmem hc hlast
  | none => exact h.fixed i name c (by simpa [Code.fixed, hvariadic] using hlt) hi hc hlast

/-! ## Calls -/

variable {code : Code} {args : List Value}

/-- Of more names than arguments only the first ones are given a value. -/
theorem split_take
    (h : args.length < names.length) :
    Arguments.split args names = Arguments.split args (names.take args.length) := by
  have hle := Nat.le_of_lt h
  have hzip : names.zip args = (names.take args.length).zip args := by
    rw [List.zip_eq_zip_take_min, Nat.min_eq_right hle, List.take_length]
  simp [Arguments.split, Nat.sub_eq_zero_of_le hle, Nat.min_eq_left hle, hzip]

/-- The names of keyword arguments are names of the call. -/
theorem mem_of_mem_keyword
    {k : String × Value}
    (h : k ∈ (Arguments.split args names).keyword) :
    k.1 ∈ names :=
  (List.of_mem_zip h).1

/-- No constructor raises a malfunction. -/
theorem isMalfunction_construct
    {s : Store}
    (h : s.construct record fields args names = .error f) :
    f.isMalfunction = false := by
  simp only [construct] at h
  split at h
  · rename_i g hfill
    cases h
    obtain ⟨k, -, rfl⟩ := fillFields_eq_error_iff.mp hfill
    rfl
  · cases h

/-- With an argument for each name, a constructor and a procedure go through the same names in the same order. -/
theorem bindsAlike_of_length_le
    (s : Store) (record : String)
    (hparams : code.params.Nodup)
    (hvariadic : code.variadic = false)
    (hlocals : code.locals = [])
    (hlength : names.length ≤ args.length) :
    s.BindsAlike record code args names := by
  cases hfault : code.argumentFault? args names with
  | some f =>
      have hfind := hfault
      rw [Code.argumentFault?, if_neg (Nat.not_lt_of_le hlength)] at hfind
      obtain ⟨k, hk, rfl⟩ := Option.map_eq_some_iff.mp hfind
      refine .refused (g := .exception (.noField record k.1) [k.2]) hfault ?_ rfl
      simp only [construct, fillFields_eq_error_iff.mpr ⟨k, hk, rfl⟩]
  | none =>
      have hknown := (Code.argumentFault?_eq_none_iff.mp hfault).2
      obtain ⟨t, hconstruct, hfields⟩ := s.construct_eq_ok record hparams
        fun k hk => hknown k.1 (mem_of_mem_keyword hk)
      have hbinds := s.binds_bindArguments args names hparams (by simp [hlocals])
      refine .bound hfault hconstruct ?_
      intro name hname
      obtain ⟨i, hi⟩ := List.mem_iff_getElem?.mp hname
      obtain ⟨c, hc, hparam⟩ := hbinds.read_param hvariadic hi
      obtain ⟨d, hd, hfield⟩ := hfields i name hi
      exact ⟨c, d, hc, hd, hfield.trans hparam.symm⟩

end Store

/-- A constructor and a procedure agree on a call exactly if it has an argument for each of its names.  Of a call with
more names than arguments the procedure makes a malfunction; the constructor takes it for the call with as many names
as there are arguments, and on that they agree. -/
theorem Store.bindsAlike_iff
    (s : Store) (record : String) (code : Code) (args : List Value) (names : List String)
    (hparams : code.params.Nodup)
    (hvariadic : code.variadic = false)
    (hlocals : code.locals = []) :
    (s.BindsAlike record code args names ↔ names.length ≤ args.length) ∧
    (args.length < names.length →
      code.argumentFault? args names = some (.malfunction (.tooManyNames code.qualified names.length args.length)) ∧
      s.construct record code.params args names = s.construct record code.params args (names.take args.length) ∧
      s.BindsAlike record code args (names.take args.length)) := by
  have hrefused : args.length < names.length →
      code.argumentFault? args names = some (.malfunction (.tooManyNames code.qualified names.length args.length)) :=
    fun h => Code.argumentFault?_eq_some_iff.mpr (.tooMany h)
  refine ⟨⟨?_, Store.bindsAlike_of_length_le s record hparams hvariadic hlocals⟩, ?_⟩
  · intro h
    by_contra hlength
    have hfault := hrefused (Nat.lt_of_not_le hlength)
    cases h with
    | refused hprocedure hconstructor hkind =>
        cases hfault.symm.trans hprocedure
        rw [Store.isMalfunction_construct hconstructor] at hkind
        cases hkind
    | bound hprocedure => cases hfault.symm.trans hprocedure
  · intro h
    refine ⟨hrefused h, ?_, Store.bindsAlike_of_length_le s record hparams hvariadic hlocals (List.length_take_le _ _)⟩
    simp only [Store.construct, Store.split_take h]

/-- A procedure of two parameters. -/
def Code.pair : Code where
  name := "pair"
  qualified := "pair"
  namespaceName := ""
  params := ["x", "y"]
  locals := []
  statics := []
  variadic := false
  temps := 0
  entry := "start"
  deps := []
  chunks := []

/-- The second parameter is named twice; then there is one argument for two names. -/
theorem Store.bindsAlike_iff_pair :
    Code.pair.params.Nodup ∧ Code.pair.variadic = false ∧ Code.pair.locals = [] ∧
      ({} : Store).BindsAlike "point" Code.pair [.text "a", .text "b", .text "c"] ["y", "y"] ∧
      ({} : Store).BindsAlike "point" Code.pair [.text "a"] (["x", "y"].take 1) :=
  ⟨by decide, rfl, rfl,
    (Store.bindsAlike_iff {} "point" Code.pair [.text "a", .text "b", .text "c"] ["y", "y"]
      (by decide) rfl rfl).1.mpr (by decide),
    ((Store.bindsAlike_iff {} "point" Code.pair [.text "a"] ["x", "y"] (by decide) rfl rfl).2 (by decide)).2.2⟩

/-- With one argument for two names the procedure makes a malfunction, and the constructor a record. -/
theorem Store.not_bindsAlike_pair :
    Code.pair.argumentFault? [.text "a"] ["x", "y"] = some (.malfunction (.tooManyNames "pair" 2 1)) ∧
      (∃ id t, ({} : Store).construct "point" Code.pair.params [.text "a"] ["x", "y"] = .ok (.record id, t)) ∧
      ¬ ({} : Store).BindsAlike "point" Code.pair [.text "a"] ["x", "y"] := by
  refine ⟨rfl, ⟨_, _, rfl⟩, ?_⟩
  intro h
  cases h with
  | refused hprocedure hconstructor hkind => cases hconstructor
  | bound hprocedure => cases hprocedure

end Constructors

end GoalDirected
