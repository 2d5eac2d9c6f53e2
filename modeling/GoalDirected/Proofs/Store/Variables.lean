import GoalDirected.Proofs.Store.Changes

/-!
# The cells of variables

Parameters, locals and scope variables have cells of their own.  Calls, scopes and copies of frames make new
ones for them, and nothing else leads to these.

* `Reserves s t c`: the cell is new, and is not shared.
* `changes_bindArguments`, `changes_enterScope`, `changes_duplicateFrame`: what a call, a scope and a copy of
  a frame own in addition is reserved for them, and no other cell has a new content.
* `Frame.owns_leaveScope`: closing a scope adds nothing.
-/

namespace GoalDirected

section Variables

namespace Store

variable {s t u : Store} {W X : CellId → Prop}

/-! ## Reserved cells -/

/-- A new cell that nothing shares. -/
def Reserves (s t : Store) (c : Nat) : Prop :=
  s.IsNew t c ∧ (t.Shares c → s.Shares c)

theorem Reserves.changes
    {c : Nat}
    (h : s.Reserves t c)
    (h' : t.Changes W u) :
    s.Reserves u c := by
  refine ⟨⟨h.1.1, Nat.lt_of_lt_of_le h.1.2 h'.size⟩, ?_⟩
  intro hc
  rcases h'.shares c hc with hc | hc
  · exact h.2 hc
  · exact absurd h.1.2 (Nat.not_lt_of_le hc.1)

theorem Changes.reserves
    {c : Nat}
    (h : s.Changes W t)
    (h' : t.Reserves u c) :
    s.Reserves u c := by
  refine ⟨⟨Nat.le_trans h.size h'.1.1, h'.1.2⟩, ?_⟩
  intro hc
  rcases h.shares c (h'.2 hc) with hc | hc
  · exact hc
  · exact absurd hc.2 (Nat.not_lt_of_le h'.1.1)

theorem reserves_allocate (s : Store) (v : Value) :
    s.Reserves (s.allocate v).2 (s.allocate v).1 :=
  ⟨⟨Nat.le_refl _, by simp [allocate]⟩, fun hc => hc.of_sharing rfl⟩

end Store

/-! ## Bindings -/

theorem Bindings.mem_bind
    {b : Bindings} {name other : String} {cell c : CellId}
    (h : (other, c) ∈ b.bind name cell) :
    (other, c) ∈ b ∨ c = cell := by
  induction b with
  | nil =>
      cases List.mem_singleton.mp h
      exact Or.inr rfl
  | cons entry rest ih =>
      obtain ⟨n, d⟩ := entry
      simp only [Bindings.bind] at h
      split at h
      · rcases List.mem_cons.mp h with heq | h
        · cases heq
          exact Or.inr rfl
        · exact Or.inl (List.mem_cons_of_mem _ h)
      · rcases List.mem_cons.mp h with heq | h
        · cases heq
          exact Or.inl List.mem_cons_self
        · rcases ih h with h | h
          · exact Or.inl (List.mem_cons_of_mem _ h)
          · exact Or.inr h

theorem Bindings.mem_of_get?
    {b : Bindings} {name : String} {c : CellId}
    (h : b.get? name = some c) :
    ∃ n, (n, c) ∈ b := by
  induction b with
  | nil => cases h
  | cons entry rest ih =>
      obtain ⟨n, d⟩ := entry
      simp only [Bindings.get?, List.lookup_cons] at h
      split at h
      · cases h
        exact ⟨n, List.mem_cons_self⟩
      · obtain ⟨n', hn'⟩ := ih h
        exact ⟨n', List.mem_cons_of_mem _ hn'⟩

theorem Bindings.mem_unbind
    {b : Bindings} {name other : String} {c : CellId}
    (h : (other, c) ∈ b.unbind name) :
    (other, c) ∈ b := by
  induction b with
  | nil => cases h
  | cons entry rest ih =>
      obtain ⟨n, d⟩ := entry
      simp only [Bindings.unbind] at h
      split at h
      · exact List.mem_cons_of_mem _ (ih h)
      · rcases List.mem_cons.mp h with heq | h
        · cases heq
          exact List.mem_cons_self
        · exact List.mem_cons_of_mem _ (ih h)

namespace Store

variable {s t u : Store} {W X : CellId → Prop}

/-! ## Arguments -/

/-- Binding names makes new cells for them. -/
theorem changes_bindAll
    (hs : s.IsFlat)
    (b : Bindings) (entries : List (String × Value))
    (hentries : ∀ x ∈ entries, x.2.isRef = false) :
    s.Changes W (s.bindAll b entries).2 ∧
      ∀ name c, (name, c) ∈ (s.bindAll b entries).1 →
        (name, c) ∈ b ∨ s.Reserves (s.bindAll b entries).2 c := by
  induction entries generalizing s b with
  | nil => exact ⟨Changes.refl hs, fun _ _ h => Or.inl h⟩
  | cons entry rest ih =>
      obtain ⟨n, v⟩ := entry
      have hv := changes_allocate (W := W) hs (hentries (n, v) List.mem_cons_self)
      obtain ⟨hrest, hmem⟩ := ih hv.flat (b.bind n (s.allocate v).1)
        (fun x hx => hentries x (List.mem_cons_of_mem _ hx))
      refine ⟨hv.trans hrest, ?_⟩
      intro name c hc
      rcases hmem name c hc with hc | hc
      · rcases Bindings.mem_bind hc with hc | rfl
        · exact Or.inl hc
        · exact Or.inr ((s.reserves_allocate v).changes hrest)
      · exact Or.inr (hv.reserves hc)

theorem changes_bindKeywords
    {entries : List (String × Value)}
    (hs : s.IsFlat)
    (b : Bindings)
    (hentries : ∀ x ∈ entries, x.2.isRef = false) :
    s.Changes (fun c => ∃ name, (name, c) ∈ b) (s.bindKeywords b entries) := by
  induction entries generalizing s with
  | nil => exact Changes.refl hs
  | cons entry rest ih =>
      obtain ⟨n, v⟩ := entry
      have hrest : ∀ x ∈ rest, x.2.isRef = false :=
        fun x hx => hentries x (List.mem_cons_of_mem _ hx)
      simp only [bindKeywords]
      split
      · rename_i cell hcell
        have hwrite := (changes_write hs cell (hentries (n, v) List.mem_cons_self)).mono
          (X := fun c => ∃ name, (name, c) ∈ b)
          fun c hc => by rw [hc]; exact Bindings.mem_of_get? hcell
        exact hwrite.trans (ih hwrite.flat hrest)
      · exact ih hs hrest

/-- A parameter gets one of the values, or nil. -/
theorem mem_parameters
    {names : List String} {values : List Value} {x : String × Value}
    (h : x ∈ parameters names values) :
    x.2 = .nil ∨ x.2 ∈ values := by
  induction names generalizing values with
  | nil => cases h
  | cons name rest ih =>
      cases values with
      | nil =>
          rcases List.mem_cons.mp h with rfl | h
          · exact Or.inl rfl
          · exact ih h
      | cons v vs =>
          rcases List.mem_cons.mp h with rfl | h
          · exact Or.inr List.mem_cons_self
          · exact (ih h).imp_right (List.mem_cons_of_mem v)

theorem isRef_of_mem_parameters
    {names : List String} {values : List Value}
    (h : ∀ v ∈ values, v.isRef = false) :
    ∀ x ∈ parameters names values, x.2.isRef = false := by
  intro x hx
  rcases mem_parameters hx with hnil | hmem
  · rw [hnil]
    rfl
  · exact h x.2 hmem

theorem changes_bindParameters
    (hs : s.IsFlat)
    (code : Code) (positional : List Value)
    (hpositional : ∀ v ∈ positional, v.isRef = false) :
    s.Changes W (s.bindParameters code positional).2 ∧
      ∀ name c, (name, c) ∈ (s.bindParameters code positional).1 →
        s.Reserves (s.bindParameters code positional).2 c := by
  simp only [bindParameters]
  generalize (if code.variadic then code.params.length - 1 else code.params.length) = fixed
  have hfixed : ∀ x ∈ parameters (code.params.take fixed) (positional.take fixed),
      x.2.isRef = false :=
    isRef_of_mem_parameters fun v hv => hpositional v (List.mem_of_mem_take hv)
  obtain ⟨hbind, hmem⟩ := changes_bindAll (W := W) hs [] _ hfixed
  generalize s.bindAll [] (parameters (code.params.take fixed) (positional.take fixed)) = bound
    at hbind hmem
  have hmem' : ∀ name c, (name, c) ∈ bound.1 → s.Reserves bound.2 c :=
    fun name c hc => (hmem name c hc).resolve_left List.not_mem_nil
  split
  · rename_i last _ _
    have hlist := changes_newList (W := W) hbind.flat (positional.drop fixed).toArray
      fun v hv => hpositional v (List.mem_of_mem_drop (by simpa using hv))
    generalize hnew : bound.2.newList (positional.drop fixed).toArray = new at hlist
    have hvalue : new.1.isRef = false := by
      rw [← hnew]
      rfl
    obtain ⟨hlast, hmemlast⟩ := changes_bindAll (W := W) hlist.flat bound.1 [(last, new.1)]
      (by simpa using hvalue)
    refine ⟨(hbind.trans hlist).trans hlast, ?_⟩
    intro name c hc
    rcases hmemlast name c hc with hc | hc
    · exact (hmem' name c hc).changes (hlist.trans hlast)
    · exact (hbind.trans hlist).reserves hc
  · exact ⟨hbind, hmem'⟩

/-- Binding the arguments of a call makes new cells for parameters and locals, and changes no other cell. -/
theorem changes_bindArguments
    (hs : s.IsFlat)
    (code : Code) {args : List Value} (names : List String)
    (hargs : ∀ v ∈ args, v.isRef = false) :
    s.Changes W (s.bindArguments code args names).2 ∧
      ∀ name c, (name, c) ∈ (s.bindArguments code args names).1 →
        s.Reserves (s.bindArguments code args names).2 c := by
  simp only [bindArguments]
  have hpositional : ∀ v ∈ (Arguments.split args names).positional, v.isRef = false :=
    fun v hv => hargs v (List.mem_of_mem_take hv)
  have hkeyword : ∀ x ∈ (Arguments.split args names).keyword, x.2.isRef = false :=
    fun x hx => hargs x.2 (List.mem_of_mem_drop (List.of_mem_zip hx).2)
  generalize Arguments.split args names = arguments at hpositional hkeyword
  obtain ⟨hparams, hmem⟩ := changes_bindParameters (W := W) hs code _ hpositional
  generalize s.bindParameters code arguments.positional = bound at hparams hmem
  have hkeywords := changes_bindKeywords hparams.flat bound.1 hkeyword
  -- The cells that keyword arguments are written to are the new ones of the parameters.
  have hwritten : s.Changes W (bound.2.bindKeywords bound.1 arguments.keyword) := by
    refine hparams.trans_new hkeywords ?_
    rintro c hc ⟨name, hname⟩
    exact absurd hc (Nat.not_lt_of_le (hmem name c hname).1.1)
  obtain ⟨hlocals, hmemlocals⟩ := changes_bindAll (W := W) hwritten.flat bound.1
    (code.locals.map fun l => (l, .nil)) (by simp [Value.isRef])
  refine ⟨hwritten.trans hlocals, ?_⟩
  intro name c hc
  rcases hmemlocals name c hc with hc | hc
  · exact ((hmem name c hc).changes hkeywords).changes hlocals
  · exact hwritten.reserves hc

theorem isRef_of_fillFields
    {record : String} {fields : List String} {values filled : List Value}
    {keyword : List (String × Value)}
    (h : fillFields record fields values keyword = .ok filled)
    (hvalues : ∀ v ∈ values, v.isRef = false)
    (hkeyword : ∀ x ∈ keyword, x.2.isRef = false) :
    ∀ v ∈ filled, v.isRef = false := by
  induction keyword generalizing values with
  | nil =>
      cases h
      exact hvalues
  | cons entry rest ih =>
      obtain ⟨name, v⟩ := entry
      simp only [fillFields] at h
      split at h
      · refine ih h ?_ fun x hx => hkeyword x (List.mem_cons_of_mem _ hx)
        intro w hw
        rcases List.mem_or_eq_of_mem_set hw with hw | rfl
        · exact hvalues w hw
        · exact hkeyword (name, w) List.mem_cons_self
      · cases h

theorem changes_construct
    {record : String} {fields : List String} {args : List Value} {names : List String} {v : Value}
    (hs : s.IsFlat)
    (hargs : ∀ v ∈ args, v.isRef = false)
    (h : s.construct record fields args names = .ok (v, t)) :
    s.Changes W t ∧ v.isRef = false := by
  have hpositional : ∀ v ∈ (Arguments.split args names).positional, v.isRef = false :=
    fun v hv => hargs v (List.mem_of_mem_take hv)
  have hkeyword : ∀ x ∈ (Arguments.split args names).keyword, x.2.isRef = false :=
    fun x hx => hargs x.2 (List.mem_of_mem_drop (List.of_mem_zip hx).2)
  simp only [construct] at h
  split at h
  · cases h
  · rename_i values hfill
    have hvalues := isRef_of_fillFields hfill (by
      intro v hv
      obtain ⟨x, hx, rfl⟩ := List.mem_map.mp hv
      exact isRef_of_mem_parameters hpositional x hx) hkeyword
    have hrecord := changes_newRecord (W := W) hs record (fields.zip values)
      fun x hx => hvalues x.2 (List.of_mem_zip hx).2
    cases h
    exact ⟨hrecord, rfl⟩

/-! ## Scopes -/

/-- A scope displaces cells of variables, and binds new ones. -/
theorem changes_shadow
    (hs : s.IsFlat)
    (vars : Bindings) (names : List String) :
    s.Changes W (s.shadow vars names).2.2 ∧
      (∀ name c, (name, c) ∈ (s.shadow vars names).2.1 →
        (∃ n, (n, c) ∈ vars) ∨ s.Reserves (s.shadow vars names).2.2 c) ∧
      ∀ name c, (name, some c) ∈ (s.shadow vars names).1 →
        (∃ n, (n, c) ∈ vars) ∨ s.Reserves (s.shadow vars names).2.2 c := by
  induction names generalizing s vars with
  | nil => exact ⟨Changes.refl hs, fun n c h => Or.inl ⟨n, h⟩, fun _ _ h => by cases h⟩
  | cons name rest ih =>
      have halloc := changes_allocate (W := W) (v := .nil) hs rfl
      obtain ⟨hrest, hvars, hshadowed⟩ := ih halloc.flat (vars.bind name (s.allocate .nil).1)
      have hnew := (s.reserves_allocate .nil).changes hrest
      -- What was bound before the rest is what was bound before, or the new cell.
      have hbefore : ∀ c, (∃ n, (n, c) ∈ vars.bind name (s.allocate .nil).1) →
          (∃ n, (n, c) ∈ vars) ∨ s.Reserves (s.shadow vars (name :: rest)).2.2 c := by
        rintro c ⟨n, hn⟩
        rcases Bindings.mem_bind hn with hn | rfl
        · exact Or.inl ⟨n, hn⟩
        · exact Or.inr hnew
      refine ⟨halloc.trans hrest, ?_, ?_⟩
      · intro n c hc
        rcases hvars n c hc with hc | hc
        · exact hbefore c hc
        · exact Or.inr (halloc.reserves hc)
      · intro n c hc
        rcases List.mem_cons.mp hc with heq | hc
        · simp only [Prod.mk.injEq] at heq
          exact Or.inl (Bindings.mem_of_get? heq.2.symm)
        · rcases hshadowed n c hc with hc | hc
          · exact hbefore c hc
          · exact Or.inr (halloc.reserves hc)

end Store

/-- The cells of an activation's parameters, locals and scope variables, displaced ones included. -/
def Frame.Owns (f : Frame) (c : CellId) : Prop :=
  (∃ name, (name, c) ∈ f.vars) ∨ ∃ scope ∈ f.scopes, ∃ name, (name, some c) ∈ scope.shadowed

theorem Bindings.mem_restoreAll
    {b : Bindings} {shadowed : List (String × Option CellId)} {name : String} {c : CellId}
    (h : (name, c) ∈ b.restoreAll shadowed) :
    (∃ n, (n, c) ∈ b) ∨ ∃ n, (n, some c) ∈ shadowed := by
  induction shadowed generalizing b with
  | nil => exact Or.inl ⟨name, h⟩
  | cons entry rest ih =>
      obtain ⟨n, previous⟩ := entry
      rcases ih h with ⟨n', hn'⟩ | ⟨n', hn'⟩
      · cases previous with
        | none => exact Or.inl ⟨n', Bindings.mem_unbind hn'⟩
        | some cell =>
            rcases Bindings.mem_bind hn' with hn' | rfl
            · exact Or.inl ⟨n', hn'⟩
            · exact Or.inr ⟨n, List.mem_cons_self⟩
      · exact Or.inr ⟨n', List.mem_cons_of_mem _ hn'⟩

/-- Closing a scope gives back cells that the frame has owned all along. -/
theorem Frame.owns_leaveScope
    {f : Frame} {name : String} {c : CellId}
    (h : (f.leaveScope name).2.Owns c) :
    f.Owns c := by
  unfold Frame.leaveScope at h
  split at h
  · exact h
  · rename_i scope outer hscopes
    have houter : ∀ other ∈ outer, other ∈ f.scopes := by
      intro other hother
      rw [hscopes]
      exact List.mem_cons_of_mem scope hother
    dsimp only at h
    split at h
    · rcases h with ⟨n, hn⟩ | ⟨other, hother, hn⟩
      · rcases Bindings.mem_restoreAll hn with hn | hn
        · exact Or.inl hn
        · exact Or.inr ⟨scope, by simp [hscopes], hn⟩
      · exact Or.inr ⟨other, houter other hother, hn⟩
    · rcases h with hn | ⟨other, hother, hn⟩
      · exact Or.inl hn
      · exact Or.inr ⟨other, houter other hother, hn⟩

namespace Store

variable {s t u : Store} {W X : CellId → Prop}

theorem changes_enterScope
    (hs : s.IsFlat)
    (f : Frame) (name : String) (names dynamics : List String) :
    s.Changes W (s.enterScope f name names dynamics).2 ∧
      ∀ c, (s.enterScope f name names dynamics).1.Owns c →
        f.Owns c ∨ s.Reserves (s.enterScope f name names dynamics).2 c := by
  obtain ⟨hshadow, hvars, hshadowed⟩ := changes_shadow (W := W) hs f.vars names
  simp only [enterScope]
  generalize s.shadow f.vars names = shadowed at hshadow hvars hshadowed
  have howns : ∀ (g : Frame) (outer : Option Environment) (c : CellId), g.vars = shadowed.2.1 →
      g.scopes = ⟨name, shadowed.1, outer⟩ :: f.scopes → g.Owns c →
      f.Owns c ∨ s.Reserves shadowed.2.2 c := by
    rintro g outer c hgvars hgscopes (⟨n, hn⟩ | ⟨scope, hscope, n, hn⟩)
    · rcases hvars n c (hgvars ▸ hn) with hc | hc
      · exact Or.inl (Or.inl hc)
      · exact Or.inr hc
    · rcases List.mem_cons.mp (hgscopes ▸ hscope) with rfl | hscope
      · rcases hshadowed n c hn with hc | hc
        · exact Or.inl (Or.inl hc)
        · exact Or.inr hc
      · exact Or.inl (Or.inr ⟨scope, hscope, n, hn⟩)
  split
  · exact ⟨hshadow, fun c => howns _ _ c rfl rfl⟩
  · have hnode := changes_newNode (W := W) hshadow.flat
      (n := ⟨shadowed.2.2.taskOf f.environment, dynamics.map fun n => (n, none)⟩) (by simp)
    refine ⟨hshadow.trans hnode, ?_⟩
    intro c hc
    rcases howns _ _ c rfl rfl hc with hc | hc
    · exact Or.inl hc
    · exact Or.inr (hc.changes hnode)

/-! ## Copies of frames -/

theorem changes_duplicateBindings
    (hs : s.IsFlat)
    (b : Bindings) :
    s.Changes W (s.duplicateBindings b).2 ∧
      ∀ name c, (name, c) ∈ (s.duplicateBindings b).1 → s.Reserves (s.duplicateBindings b).2 c := by
  induction b generalizing s with
  | nil => exact ⟨Changes.refl hs, fun _ _ h => by cases h⟩
  | cons entry rest ih =>
      obtain ⟨n, cell⟩ := entry
      have halloc := changes_allocate (W := W) hs (hs.read cell)
      obtain ⟨hrest, hmem⟩ := ih halloc.flat
      refine ⟨halloc.trans hrest, ?_⟩
      intro name c hc
      rcases List.mem_cons.mp hc with heq | hc
      · cases heq
        exact (s.reserves_allocate (s.read cell)).changes hrest
      · exact halloc.reserves (hmem name c hc)

theorem changes_duplicateShadowed
    (hs : s.IsFlat)
    (shadowed : List (String × Option CellId)) :
    s.Changes W (s.duplicateShadowed shadowed).2 ∧
      ∀ name c, (name, some c) ∈ (s.duplicateShadowed shadowed).1 →
        s.Reserves (s.duplicateShadowed shadowed).2 c := by
  induction shadowed generalizing s with
  | nil => exact ⟨Changes.refl hs, fun _ _ h => by cases h⟩
  | cons entry rest ih =>
      obtain ⟨n, _ | cell⟩ := entry
      · obtain ⟨hrest, hmem⟩ := ih hs
        refine ⟨hrest, ?_⟩
        intro name c hc
        rcases List.mem_cons.mp hc with heq | hc
        · cases heq
        · exact hmem name c hc
      · have halloc := changes_allocate (W := W) hs (hs.read cell)
        obtain ⟨hrest, hmem⟩ := ih halloc.flat
        refine ⟨halloc.trans hrest, ?_⟩
        intro name c hc
        rcases List.mem_cons.mp hc with heq | hc
        · cases heq
          exact (s.reserves_allocate (s.read cell)).changes hrest
        · exact halloc.reserves (hmem name c hc)

theorem changes_duplicateScopes
    (hs : s.IsFlat)
    (scopes : List Scope) :
    s.Changes W (s.duplicateScopes scopes).2 ∧
      ∀ scope ∈ (s.duplicateScopes scopes).1, ∀ name c, (name, some c) ∈ scope.shadowed →
        s.Reserves (s.duplicateScopes scopes).2 c := by
  induction scopes generalizing s with
  | nil => exact ⟨Changes.refl hs, fun _ h => by cases h⟩
  | cons scope rest ih =>
      obtain ⟨hshadowed, hmem⟩ := changes_duplicateShadowed (W := W) hs scope.shadowed
      obtain ⟨hrest, hmemrest⟩ := ih hshadowed.flat
      refine ⟨hshadowed.trans hrest, ?_⟩
      intro other hother name c hc
      rcases List.mem_cons.mp hother with rfl | hother
      · exact (hmem name c hc).changes hrest
      · exact hshadowed.reserves (hmemrest other hother name c hc)

/-- The copy of a frame has new cells for all variables of the frame. -/
theorem changes_duplicateFrame
    (hs : s.IsFlat)
    (f : Frame) (environment : Environment) :
    s.Changes W (s.duplicateFrame f environment).2 ∧
      ∀ c, (s.duplicateFrame f environment).1.Owns c →
        s.Reserves (s.duplicateFrame f environment).2 c := by
  obtain ⟨hvars, hmemvars⟩ := changes_duplicateBindings (W := W) hs f.vars
  obtain ⟨hscopes, hmemscopes⟩ := changes_duplicateScopes (W := W) hvars.flat f.scopes
  refine ⟨hvars.trans hscopes, ?_⟩
  rintro c (⟨name, hname⟩ | ⟨scope, hscope, name, hname⟩)
  · exact (hmemvars name c hname).changes hscopes
  · exact hvars.reserves (hmemscopes scope hscope name c hname)

end Store

end Variables

end GoalDirected
