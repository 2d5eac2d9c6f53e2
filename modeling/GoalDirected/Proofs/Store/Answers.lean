import GoalDirected.Proofs.Store.Variables

/-!
# What the primitives hand out

References are handed out by operators only, and only to cells that are shared or that a reference among the
arguments leads to already.  Procedures of the library and constructors hand out none, and no fault carries
one.

* `Yields`, `Reply.Gives`: what a computation and a reply come to, where faults are to be flat.
* `operate_gives`, `invoke_gives`: an operator changes only cells that its arguments refer to.
* `builtin_gives`: a procedure of the library changes no cell.
-/

namespace GoalDirected

section Answers

/-- The fault carries no reference. -/
def Fault.IsFlat : Fault → Prop
  | .exception cause offending => cause.value.isRef = false ∧ ∀ v ∈ offending, v.isRef = false
  | .malfunction _ => True

/-- The outcome gives no reference, now or later. -/
def Outcome.IsFlat (o : Outcome) : Prop :=
  (∀ v, o.value? = some v → v.isRef = false) ∧
    ∀ k, o.next? = some k → ∃ frame label, k = .activation frame label

/-- The outcome holds a reference to a cell. -/
def Outcome.Mentions (o : Outcome) (c : CellId) : Prop :=
  o.value? = some (.ref c) ∨ ∃ rest, o.next? = some (.values rest) ∧ .ref c ∈ rest

/-- A computation comes to a result with a given property, or to a flat fault. -/
def Yields {α : Type} (P : α → Prop) : Except Fault α → Prop
  | .ok a => P a
  | .error f => f.IsFlat

/-- A reply is an outcome with a given property, or a flat fault. -/
def Reply.Gives (P : Outcome → Prop) : Reply → Prop
  | .outcome o => P o
  | .fault f => f.IsFlat
  | .halt _ => True

def Answer.Gives (P : Outcome → Prop) : Answer → Prop
  | .reply r => r.Gives P
  | .activate _ => True

/-- All references in the outcome lead to shared cells, or come from the arguments. -/
def Outcome.IsLent (s : Store) (args : List Value) (o : Outcome) : Prop :=
  ∀ c, o.Mentions c → s.Shares c ∨ .ref c ∈ args

/-! ## Outcomes -/

theorem Outcome.isFlat_fail : Outcome.fail.IsFlat :=
  ⟨nofun, nofun⟩

theorem Outcome.isFlat_result
    {v : Value}
    (h : v.isRef = false) :
    (Outcome.result v).IsFlat := by
  refine ⟨?_, nofun⟩
  intro w hw
  cases hw
  exact h

theorem Outcome.IsFlat.not_mentions
    {o : Outcome}
    (h : o.IsFlat)
    (c : CellId) :
    ¬ o.Mentions c := by
  rintro (hvalue | ⟨rest, hnext, -⟩)
  · cases h.1 _ hvalue
  · obtain ⟨frame, label, hk⟩ := h.2 _ hnext
    cases hk

theorem Outcome.IsFlat.isLent
    {o : Outcome}
    (h : o.IsFlat)
    (s : Store) (args : List Value) :
    o.IsLent s args :=
  fun c hc => absurd hc (h.not_mentions c)

/-- A value with no continuation. -/
theorem Outcome.isLent_result
    {s : Store} {args : List Value} {v : Value}
    (h : ∀ c, v = .ref c → s.Shares c ∨ .ref c ∈ args) :
    (Outcome.result v).IsLent s args := by
  rintro c (hvalue | ⟨rest, hnext, -⟩)
  · cases hvalue
    exact h c rfl
  · cases hnext

theorem isLent_valuesFrom
    {s : Store} {args values : List Value}
    (h : ∀ c, .ref c ∈ values → s.Shares c) :
    (valuesFrom values).IsLent s args := by
  cases values with
  | nil => exact Outcome.isFlat_fail.isLent s args
  | cons v rest =>
      rintro c (hvalue | ⟨others, hnext, hc⟩)
      · cases hvalue
        exact Or.inl (h c List.mem_cons_self)
      · cases hnext
        exact Or.inl (h c (List.mem_cons_of_mem v hc))

/-! ## Computations -/

theorem yields_bind
    {α β : Type} {P : α → Prop} {Q : β → Prop} {e : Except Fault α} {g : α → Except Fault β}
    (he : Yields P e)
    (hg : ∀ a, P a → Yields Q (g a)) :
    Yields Q (e >>= g) := by
  cases e with
  | error f => exact he
  | ok a => exact hg a he

theorem yields_map
    {α β : Type} {P : α → Prop} {Q : β → Prop} {e : Except Fault α} {g : α → β}
    (he : Yields P e)
    (hg : ∀ a, P a → Q (g a)) :
    Yields Q (e.map g) := by
  cases e with
  | error f => exact he
  | ok a => exact hg a he

theorem Reply.gives_ofExcept
    {P : Outcome → Prop} {e : Except Fault Outcome}
    (h : Yields P e) :
    (Reply.ofExcept e).Gives P := by
  cases e with
  | error f => exact h
  | ok o => exact h

theorem Fault.isFlat_exception
    {cause : Cause} {offending : List Value}
    (hcause : ∀ v text, cause ≠ .thrown v text)
    (hoffending : ∀ v ∈ offending, v.isRef = false) :
    (Fault.exception cause offending).IsFlat := by
  refine ⟨?_, hoffending⟩
  cases cause with
  | thrown v text => exact absurd rfl (hcause v text)
  | _ => rfl

namespace Store

variable {s : Store}

theorem yields_toNumber
    (hs : s.IsFlat)
    (v : Value) :
    Yields (fun _ => True) (s.toNumber v) := by
  have hv := hs.deref v
  unfold toNumber
  split
  · trivial
  · split
    · trivial
    · exact Fault.isFlat_exception nofun (by simp [Value.isRef])
  · exact Fault.isFlat_exception nofun (by simpa using hv)

theorem yields_toText
    (hs : s.IsFlat)
    (v : Value) :
    Yields (fun _ => True) (s.toText v) := by
  have hv := hs.deref v
  unfold toText
  split
  · trivial
  · trivial
  · exact Fault.isFlat_exception nofun (by simpa using hv)

theorem yields_numbers
    (hs : s.IsFlat)
    (a b : Value) :
    Yields (fun _ => True) (s.numbers a b) :=
  yields_bind (yields_toNumber hs a) fun _ _ =>
    yields_bind (yields_toNumber hs b) fun _ _ => trivial

/-! ## Operators -/

theorem yields_arithmetic
    (hs : s.IsFlat)
    (f : Float → Float → Float) (a b : Value) :
    Yields Outcome.IsFlat (s.arithmetic f a b) :=
  yields_bind (yields_numbers hs a b) fun _ _ => Outcome.isFlat_result rfl

theorem yields_division
    {a b : Value}
    (hs : s.IsFlat)
    (f : Float → Float → Float)
    (ha : a.isRef = false)
    (hb : b.isRef = false) :
    Yields Outcome.IsFlat (s.division f a b) := by
  refine yields_bind (yields_numbers hs a b) ?_
  rintro ⟨x, y⟩ _
  dsimp only
  split
  · exact Fault.isFlat_exception nofun (by simp [ha, hb])
  · exact Outcome.isFlat_result rfl

theorem yields_comparison
    (hs : s.IsFlat)
    (holds : Float → Float → Bool) (a b : Value) :
    Yields Outcome.IsFlat (s.comparison holds a b) := by
  refine yields_bind (yields_numbers hs a b) ?_
  intro xy _
  show Outcome.IsFlat _
  split
  · exact Outcome.isFlat_result rfl
  · exact Outcome.isFlat_fail

theorem yields_textComparison
    (hs : s.IsFlat)
    (equal : Bool) (a b : Value) :
    Yields Outcome.IsFlat (s.textComparison equal a b) := by
  refine yields_bind (yields_toText hs a) fun x _ => yields_bind (yields_toText hs b) fun y _ => ?_
  show Outcome.IsFlat _
  split
  · exact Outcome.isFlat_result rfl
  · exact Outcome.isFlat_fail

theorem yields_concatenate
    (hs : s.IsFlat)
    (a b : Value) :
    Yields Outcome.IsFlat (s.concatenate a b) :=
  yields_bind (yields_toText hs a) fun _ _ =>
    yields_bind (yields_toText hs b) fun _ _ => Outcome.isFlat_result rfl

theorem shares_of_mem_listCells
    {id : Nat} {c : CellId}
    (h : c ∈ s.listCells id) :
    s.Shares c := by
  unfold listCells at h
  rw [Array.getD_eq_getD_getElem?] at h
  cases hlist : s.lists[id]? with
  | none => simp [hlist] at h
  | some cells =>
      rw [hlist] at h
      exact .element hlist h

theorem shares_of_mem_fields
    {id : Nat} {name : String} {c : CellId}
    (h : (name, c) ∈ (s.record id).fields) :
    s.Shares c := by
  unfold record at h
  rw [Array.getD_eq_getD_getElem?] at h
  cases hrecord : s.records[id]? with
  | none => simp [hrecord] at h
  | some r =>
      rw [hrecord] at h
      exact .field hrecord h

theorem isLent_placeOrFail
    {args : List Value} {cell : Option CellId}
    (h : ∀ c, cell = some c → s.Shares c) :
    (placeOrFail cell).IsLent s args := by
  cases cell with
  | none => exact Outcome.isFlat_fail.isLent s args
  | some cell =>
      refine Outcome.isLent_result fun c hc => Or.inl ?_
      cases hc
      exact h _ rfl

theorem isRef_of_mem_characters
    {text : String} {v : Value}
    (h : v ∈ characters text) :
    v.isRef = false := by
  obtain ⟨c, -, rfl⟩ := List.mem_map.mp h
  rfl

theorem yields_subscript
    (hs : s.IsFlat)
    (args : List Value) (v i : Value) :
    Yields (Outcome.IsLent s args) (s.subscript v i) := by
  have hv := hs.deref v
  unfold subscript
  split
  · refine yields_bind (yields_toNumber hs i) fun x _ => isLent_placeOrFail ?_
    intro c hc
    obtain ⟨k, -, hk⟩ := Option.bind_eq_some_iff.mp hc
    exact shares_of_mem_listCells (Array.mem_of_getElem? hk)
  · refine yields_bind (yields_toNumber hs i) fun x _ => ?_
    show Outcome.IsLent s args _
    split
    · rename_i item hitem
      obtain ⟨k, -, hk⟩ := Option.bind_eq_some_iff.mp hitem
      exact (Outcome.isFlat_result (isRef_of_mem_characters (List.mem_of_getElem? hk))).isLent s args
    · exact Outcome.isFlat_fail.isLent s args
  · dsimp only
    split
    · refine isLent_placeOrFail fun c hc => ?_
      obtain ⟨name, hname⟩ := Bindings.mem_of_get? hc
      exact shares_of_mem_fields hname
    · refine yields_bind (yields_toNumber hs i) fun x _ => isLent_placeOrFail ?_
      intro c hc
      obtain ⟨k, -, hk⟩ := Option.bind_eq_some_iff.mp hc
      obtain ⟨⟨name, c'⟩, hfield, rfl⟩ := Option.map_eq_some_iff.mp hk
      exact shares_of_mem_fields (List.mem_of_getElem? hfield)
  · exact Fault.isFlat_exception nofun (by simpa using hv)

theorem IsFlat.isRef_of_mem_listValues
    {id : Nat} {v : Value}
    (hs : s.IsFlat)
    (h : v ∈ s.listValues id) :
    v.isRef = false := by
  obtain ⟨c, -, rfl⟩ := Array.mem_map.mp h
  exact hs.read c

/-- A slice is a new list or a text. -/
theorem yields_slice
    {W : CellId → Prop}
    (hs : s.IsFlat)
    (v i j : Value) :
    Yields (fun (o, t) => s.Changes W t ∧ o.IsFlat) (s.slice v i j) := by
  have hv := hs.deref v
  have hbounds : ∀ n, Yields (fun _ => True) (s.bounds i j n) := fun n =>
    yields_bind (yields_numbers hs i j) fun _ _ => trivial
  unfold slice
  split
  · refine yields_bind (hbounds _) ?_
    intro range _
    split
    · refine ⟨changes_newList hs _ ?_, Outcome.isFlat_result rfl⟩
      intro w hw
      obtain ⟨k, hk, rfl⟩ := Array.mem_extract_iff_getElem.mp hw
      exact hs.isRef_of_mem_listValues (Array.getElem_mem _)
    · exact ⟨Changes.refl hs, Outcome.isFlat_fail⟩
  · refine yields_bind (hbounds _) ?_
    intro range _
    split
    · exact ⟨Changes.refl hs, Outcome.isFlat_result rfl⟩
    · exact ⟨Changes.refl hs, Outcome.isFlat_fail⟩
  · exact Fault.isFlat_exception nofun (by simpa using hv)

theorem yields_sizeOf
    {v : Value}
    (s : Store)
    (hv : v.isRef = false) :
    Yields Outcome.IsFlat (s.sizeOf v) := by
  unfold sizeOf
  split
  · exact Outcome.isFlat_result rfl
  · exact Outcome.isFlat_result rfl
  · exact Outcome.isFlat_result rfl
  · exact Fault.isFlat_exception nofun (by simpa using hv)

theorem isLent_elementsFrom (s : Store) (args : List Value) (id position : Nat) :
    (s.elementsFrom id position).IsLent s args := by
  unfold elementsFrom
  split
  · rename_i cell hcell
    rintro c (hvalue | ⟨rest, hnext, -⟩)
    · cases hvalue
      exact Or.inl (shares_of_mem_listCells (Array.mem_of_getElem? hcell))
    · cases hnext
  · exact Outcome.isFlat_fail.isLent s args

theorem yields_elements
    {v : Value}
    (s : Store) (args : List Value)
    (hv : v.isRef = false) :
    Yields (Outcome.IsLent s args) (s.elements v) := by
  unfold elements
  split
  · exact isLent_elementsFrom s args _ 0
  · refine isLent_valuesFrom fun c hc => ?_
    obtain ⟨⟨name, c'⟩, hfield, heq⟩ := List.mem_map.mp hc
    cases heq
    exact shares_of_mem_fields hfield
  · refine isLent_valuesFrom fun c hc => ?_
    cases isRef_of_mem_characters hc
  · exact Fault.isFlat_exception nofun (by simpa using hv)

theorem isLent_countFrom (s : Store) (args : List Value) (low high : Float) :
    (countFrom low high).IsLent s args := by
  unfold countFrom
  split
  · exact Outcome.isFlat_fail.isLent s args
  · rintro c (hvalue | ⟨rest, hnext, -⟩)
    · cases hvalue
    · cases hnext

theorem receiveFrom_gives
    {W : CellId → Prop}
    (hs : s.IsFlat)
    (id : Nat) :
    s.Changes W (s.receiveFrom id).2 ∧ (s.receiveFrom id).1.Gives Outcome.IsFlat := by
  unfold receiveFrom
  split
  · rename_i v c hreceive
    obtain ⟨d, hchannel, hdone⟩ := Option.map_eq_some_iff.mp hreceive
    have hqueue := Channel.queue_of_receive hdone
    have hflat := hs.channel? hchannel
    rw [hqueue] at hflat
    exact ⟨changes_setChannel hs id fun w hw => hflat w (List.mem_cons_of_mem v hw),
      Outcome.isFlat_result (hflat v List.mem_cons_self)⟩
  · exact ⟨Changes.refl hs, Outcome.isFlat_fail⟩
  · exact ⟨Changes.refl hs, trivial⟩
  · exact ⟨Changes.refl hs, Outcome.isFlat_fail⟩

end Store

/-- The argument places of an operation that see a reference as it stands. -/
def Operation.raw : Operation → List Nat
  | .assign => [0]
  | .swap => [0, 1]
  | .subscript => [0]
  | .slice => [0]
  | .same => [0]
  | .notSame => [0]
  | _ => []

theorem Operator.raw_eq
    {op : Operator}
    (h : op ∈ Operator.table) :
    op.raw = op.operation.raw := by
  revert op
  simp [Operator.table, Operation.raw]

theorem Reply.Gives.mono
    {P Q : Outcome → Prop} {r : Reply}
    (h : r.Gives P)
    (hPQ : ∀ o, P o → Q o) :
    r.Gives Q := by
  cases r with
  | outcome o => exact hPQ o h
  | fault f => exact h
  | halt reason => trivial

theorem Answer.Gives.mono
    {P Q : Outcome → Prop} {a : Answer}
    (h : a.Gives P)
    (hPQ : ∀ o, P o → Q o) :
    a.Gives Q := by
  cases a with
  | reply r => exact Reply.Gives.mono h hPQ
  | activate id => trivial

theorem isRef_of_ne_ref
    {v : Value}
    (h : ∀ c, v = .ref c → False) :
    v.isRef = false := by
  cases v with
  | ref c => exact (h c rfl).elim
  | _ => rfl

namespace Store

variable {s : Store}

/-- Arguments as an operation gets them: no references but at its raw places. -/
def Operands (op : Operation) (args : List Value) : Prop :=
  ∀ (i : Nat) (v : Value), args[i]? = some v → i ∉ op.raw → v.isRef = false

/-- A reply that leaves the store as it is. -/
theorem gives_refl
    {args : List Value} {e : Except Fault Outcome}
    (hs : s.IsFlat)
    (h : Yields Outcome.IsFlat e) :
    s.Changes (.ref · ∈ args) s ∧ (Answer.ofExcept e).Gives (Outcome.IsLent s args) := by
  refine ⟨Changes.refl hs, ?_⟩
  cases e with
  | error f => exact h
  | ok o => exact h.isLent s args

/-- An operation changes only cells that its arguments refer to, and hands out references to shared cells or to
these. -/
theorem operate_gives
    {op : Operation} {args : List Value}
    (hs : s.IsFlat)
    (hargs : Operands op args) :
    s.Changes (.ref · ∈ args) (s.operate op args).2 ∧
      (s.operate op args).1.Gives (Outcome.IsLent (s.operate op args).2 args) := by
  unfold operate
  -- One case for each operation, in the order of the definition.
  split
  · exact gives_refl hs (yields_arithmetic hs _ _ _)
  · exact gives_refl hs (yields_arithmetic hs _ _ _)
  · exact gives_refl hs (yields_arithmetic hs _ _ _)
  · exact gives_refl hs (yields_division hs _ (hargs 0 _ rfl nofun) (hargs 1 _ rfl nofun))
  · exact gives_refl hs (yields_division hs _ (hargs 0 _ rfl nofun) (hargs 1 _ rfl nofun))
  · exact gives_refl hs (yields_arithmetic hs _ _ _)
  · exact gives_refl hs (yields_map (yields_toNumber hs _) fun _ _ => Outcome.isFlat_result rfl)
  · exact gives_refl hs (yields_map (yields_toNumber hs _) fun _ _ => Outcome.isFlat_result rfl)
  · exact gives_refl hs (yields_comparison hs _ _ _)
  · exact gives_refl hs (yields_comparison hs _ _ _)
  · exact gives_refl hs (yields_comparison hs _ _ _)
  · exact gives_refl hs (yields_comparison hs _ _ _)
  · exact gives_refl hs (yields_comparison hs _ _ _)
  · exact gives_refl hs (yields_comparison hs _ _ _)
  · exact gives_refl hs (yields_concatenate hs _ _)
  · exact gives_refl hs (yields_textComparison hs _ _ _)
  · exact gives_refl hs (yields_textComparison hs _ _ _)
  · rename_i a b
    have hb := hargs 1 b rfl (by simp [Operation.raw])
    split
    · rename_i cell
      refine ⟨(changes_write hs cell hb).mono ?_, Outcome.isLent_result ?_⟩
      · rintro c rfl
        exact List.mem_cons_self
      · rintro c hc
        rw [← hc]
        exact Or.inr List.mem_cons_self
    · rename_i hother
      refine ⟨Changes.refl hs, Fault.isFlat_exception nofun ?_⟩
      intro v hv
      cases List.mem_singleton.mp hv
      exact isRef_of_ne_ref hother
  · rename_i a b
    split
    · rename_i c d
      have hwrite := changes_write hs c (hs.read d)
      have hwrites := (hwrite.mono (X := (.ref · ∈ [Value.ref c, .ref d])) (by
        rintro x rfl
        exact List.mem_cons_self)).trans ((changes_write hwrite.flat d (hs.read c)).mono (by
        rintro x rfl
        exact List.mem_cons_of_mem _ List.mem_cons_self))
      refine ⟨hwrites, Outcome.isLent_result ?_⟩
      rintro x hx
      rw [← hx]
      exact Or.inr List.mem_cons_self
    · rename_i c hother
      refine ⟨Changes.refl hs, Fault.isFlat_exception nofun ?_⟩
      intro v hv
      cases List.mem_singleton.mp hv
      exact isRef_of_ne_ref hother
    · rename_i hother _
      refine ⟨Changes.refl hs, Fault.isFlat_exception nofun ?_⟩
      intro v hv
      cases List.mem_singleton.mp hv
      exact isRef_of_ne_ref hother
  · exact ⟨Changes.refl hs, Reply.gives_ofExcept (yields_subscript hs _ _ _)⟩
  · rename_i v i j
    have hslice := yields_slice (W := (.ref · ∈ [v, i, j])) hs v i j
    split
    · rename_i heq
      rw [heq] at hslice
      exact ⟨hslice.1, hslice.2.isLent _ _⟩
    · rename_i heq
      rw [heq] at hslice
      exact ⟨Changes.refl hs, hslice⟩
  · refine ⟨Changes.refl hs, ?_⟩
    show Outcome.IsLent s _ _
    split
    · exact Outcome.isLent_result fun c hc => Or.inr (by simp [hc])
    · exact Outcome.isFlat_fail.isLent _ _
  · refine ⟨Changes.refl hs, ?_⟩
    show Outcome.IsLent s _ _
    split
    · exact Outcome.isFlat_fail.isLent _ _
    · exact Outcome.isLent_result fun c hc => Or.inr (by simp [hc])
  · exact gives_refl hs (yields_sizeOf s (hargs 0 _ rfl nofun))
  · refine ⟨Changes.refl hs, ?_⟩
    show Outcome.IsLent s _ _
    split
    · exact (Outcome.isFlat_result rfl).isLent _ _
    · exact Outcome.isFlat_fail.isLent _ _
  · refine ⟨Changes.refl hs, ?_⟩
    show Outcome.IsLent s _ _
    split
    · exact Outcome.isFlat_fail.isLent _ _
    · exact (Outcome.isFlat_result (hargs 0 _ rfl nofun)).isLent _ _
  · exact ⟨Changes.refl hs, Reply.gives_ofExcept (yields_elements s _ (hargs 0 _ rfl nofun))⟩
  · refine ⟨Changes.refl hs, Reply.gives_ofExcept (yields_map (yields_numbers hs _ _) ?_)⟩
    rintro ⟨x, y⟩ _
    exact isLent_countFrom s _ x y
  · rename_i a
    split
    · exact ⟨Changes.refl hs, trivial⟩
    · rename_i id
      obtain ⟨hchanges, hgives⟩ := receiveFrom_gives (W := (.ref · ∈ [Value.channel id])) hs id
      exact ⟨hchanges, hgives.mono fun o ho => ho.isLent _ _⟩
    · refine ⟨Changes.refl hs, Fault.isFlat_exception nofun ?_⟩
      intro v hv
      cases List.mem_singleton.mp hv
      exact hargs 0 _ rfl nofun
  · exact ⟨Changes.refl hs, Outcome.isFlat_fail.isLent _ _⟩

theorem operands_operands
    {op : Operator}
    (hs : s.IsFlat)
    (args : List Value)
    (hop : op ∈ Operator.table) :
    Operands op.operation (s.operands op.raw args) := by
  intro i v hv hi
  rw [← Operator.raw_eq hop] at hi
  simp only [operands, List.getElem?_mapIdx, Option.map_eq_some_iff] at hv
  obtain ⟨w, -, rfl⟩ := hv
  simpa [hi] using hs.deref w

/-- A reference among the operands was among the arguments. -/
theorem ref_mem_of_mem_operands
    {raw : List Nat} {args : List Value} {c : CellId}
    (hs : s.IsFlat)
    (h : .ref c ∈ s.operands raw args) :
    .ref c ∈ args := by
  obtain ⟨i, hi, heq⟩ := List.mem_mapIdx.mp h
  split at heq
  · rw [← heq]
    exact List.getElem_mem hi
  · have hderef := hs.deref args[i]
    rw [heq] at hderef
    cases hderef

/-- An operator changes only cells that its arguments refer to, and hands out references to shared cells or to
these. -/
theorem invoke_gives
    (hs : s.IsFlat)
    (name : String) (args : List Value) :
    s.Changes (.ref · ∈ args) (s.invoke name args).2 ∧
      (s.invoke name args).1.Gives (Outcome.IsLent (s.invoke name args).2 args) := by
  unfold invoke
  split
  · rename_i op hlookup
    have hop : op ∈ Operator.table := List.mem_of_find?_eq_some hlookup
    obtain ⟨hchanges, hgives⟩ := operate_gives hs (operands_operands hs args hop)
    refine ⟨hchanges.mono fun c hc => ref_mem_of_mem_operands hs hc, hgives.mono ?_⟩
    intro o ho c hc
    rcases ho c hc with hc | hc
    · exact Or.inl hc
    · exact Or.inr (ref_mem_of_mem_operands hs hc)
  · exact ⟨Changes.refl hs, trivial⟩

/-! ## The library -/

theorem yields_sizeArgument
    (hs : s.IsFlat)
    (v : Value) :
    Yields (fun _ => True) (s.sizeArgument v) := by
  unfold sizeArgument
  split
  · trivial
  · exact yields_map (yields_toNumber hs _) fun _ _ => trivial

theorem isRef_getD
    {args : List Value}
    (h : ∀ v ∈ args, v.isRef = false)
    (i : Nat) :
    (args.getD i .nil).isRef = false := by
  rw [List.getD_eq_getElem?_getD]
  cases hi : args[i]? with
  | none => rfl
  | some v => exact h v (List.mem_of_getElem? hi)

/-- A procedure of the library that is given no references changes no cell and hands out no reference. -/
theorem builtin_gives
    {W : CellId → Prop} {args : List Value}
    (hs : s.IsFlat)
    (b : Builtin)
    (hargs : ∀ v ∈ args, v.isRef = false) :
    s.Changes W (s.builtin b args).2 ∧ (s.builtin b args).1.Gives Outcome.IsFlat := by
  have hfirst := isRef_getD hargs 0
  have hsecond := isRef_getD hargs 1
  have hwrites : ∀ ending, s.Changes W (s.writeAll args ending).2 ∧
      (s.writeAll args ending).1.Gives Outcome.IsFlat := by
    intro ending
    refine ⟨.of_eq hs rfl rfl rfl, Outcome.isFlat_result ?_⟩
    cases hlast : args.getLast? with
    | none => rfl
    | some v => exact hargs v (List.mem_of_getLast? hlast)
  have hplain : ∀ e, Yields Outcome.IsFlat e →
      s.Changes W s ∧ (Reply.ofExcept e).Gives Outcome.IsFlat :=
    fun e he => ⟨Changes.refl hs, Reply.gives_ofExcept he⟩
  cases b with
  | write => exact hwrites "\n"
  | writes => exact hwrites ""
  | channel =>
      have hsize := yields_sizeArgument hs (args.getD 0 .nil)
      simp only [builtin, makeChannel]
      split
      · rename_i heq
        rw [heq] at hsize
        exact ⟨Changes.refl hs, hsize⟩
      · split
        · exact ⟨Changes.refl hs, trivial⟩
        · exact ⟨changes_newChannel hs _, Outcome.isFlat_result rfl⟩
  | send =>
      simp only [builtin, sendTo]
      split
      · split
        · rename_i c hsend
          obtain ⟨d, hchannel, hdone⟩ := Option.map_eq_some_iff.mp hsend
          refine ⟨changes_setChannel hs _ ?_, Outcome.isFlat_result hsecond⟩
          rw [Channel.queue_of_send hdone]
          intro w hw
          rcases List.mem_append.mp hw with hw | hw
          · exact hs.channel? hchannel w hw
          · cases List.mem_singleton.mp hw
            exact hsecond
        · exact ⟨Changes.refl hs, trivial⟩
        · exact ⟨Changes.refl hs, Fault.isFlat_exception (by simp) (by simp)⟩
      · exact ⟨Changes.refl hs, Fault.isFlat_exception (by simp) (by simpa using hfirst)⟩
  | receive =>
      simp only [builtin]
      split
      · exact receiveFrom_gives hs _
      · exact ⟨Changes.refl hs, Fault.isFlat_exception (by simp) (by simpa using hfirst)⟩
  | close =>
      simp only [builtin, closeValue]
      split
      · split
        · rename_i c hchannel
          exact ⟨changes_setChannel hs _ fun v hv => hs.channel? hchannel v hv, Outcome.isFlat_result hfirst⟩
        · exact ⟨Changes.refl hs, Outcome.isFlat_result hfirst⟩
      · rename_i id _
        have hend : s.Changes W (s.endProducer id) := by cases id <;> exact .of_eq hs rfl rfl rfl
        split
        · exact ⟨Changes.refl hs, trivial⟩
        · unfold abandon
          split
          · exact ⟨hend, Outcome.isFlat_result hfirst⟩
          · exact ⟨hend, Outcome.isFlat_result hfirst⟩
          · exact ⟨Changes.refl hs, Outcome.isFlat_result hfirst⟩
      · exact ⟨Changes.refl hs, Fault.isFlat_exception (by simp) (by simpa using hfirst)⟩
  | throw =>
      exact ⟨Changes.refl hs, hfirst, fun v hv => hargs v (List.mem_of_mem_drop hv)⟩
  | exit =>
      have hnumber := yields_toNumber hs (args.getD 0 .nil)
      simp only [builtin]
      split
      · exact ⟨Changes.refl hs, trivial⟩
      · split
        · exact ⟨Changes.refl hs, trivial⟩
        · rename_i heq
          rw [heq] at hnumber
          exact ⟨Changes.refl hs, hnumber⟩
  | list =>
      have hsize := yields_sizeArgument hs (args.getD 0 .nil)
      simp only [builtin, makeList]
      split
      · rename_i heq
        rw [heq] at hsize
        exact ⟨Changes.refl hs, hsize⟩
      · split
        · exact ⟨Changes.refl hs, Fault.isFlat_exception (by simp) (by simpa using hfirst)⟩
        · refine ⟨changes_newList hs _ ?_, Outcome.isFlat_result rfl⟩
          intro v hv
          rw [(Array.mem_replicate.mp hv).2]
          exact hsecond
  | abs => exact hplain _ (yields_map (yields_toNumber hs _) fun _ _ => Outcome.isFlat_result rfl)
  | sqrt =>
      refine hplain _ (yields_bind (yields_toNumber hs _) ?_)
      intro x _
      unfold root
      split
      · exact Fault.isFlat_exception (by simp) (by simp [Value.isRef])
      · exact Outcome.isFlat_result rfl
  | string => exact hplain _ (yields_map (yields_toText hs _) fun _ _ => Outcome.isFlat_result rfl)
  | number =>
      simp only [builtin]
      split
      · exact ⟨Changes.refl hs, Outcome.isFlat_result rfl⟩
      · exact ⟨Changes.refl hs, Outcome.isFlat_fail⟩
  | max => exact hplain _ (yields_map (yields_numbers hs _ _) fun _ _ => Outcome.isFlat_result rfl)
  | min => exact hplain _ (yields_map (yields_numbers hs _ _) fun _ _ => Outcome.isFlat_result rfl)
  | repl =>
      refine hplain _ (yields_bind (yields_toText hs _) fun t _ =>
        yields_bind (yields_toNumber hs _) fun x _ => ?_)
      unfold repeated
      split
      · exact Fault.isFlat_exception (by simp) (by simp [Value.isRef])
      · split
        · exact Outcome.isFlat_result rfl
        · exact Fault.isFlat_exception (by simp) (by simp [Value.isRef])

end Store

end Answers

end GoalDirected
