import GoalDirected.Proofs.Machine.Replies
import GoalDirected.Proofs.Operator.Dispatch
import GoalDirected.Proofs.Sequence.Slices
import GoalDirected.Proofs.Store.Answers
import GoalDirected.Proofs.Store.Dereferencing

/-!
# What operators see and change

**Input.** Any operator with any arguments, some of which may be references.

**Specification.** Assignment sees its first operand as a variable, exchange both.  All other operands of all
operators are seen by their values.  Assignment changes its variable, exchange its two variables; an operator that
runs no co-expression changes nothing else, and neither do its generators.

**Argument.** Besides assignment and exchange four operations get their first operand as it stands.  Each of them
follows the references of that operand before it looks at it.  What an operation does to the store is one of the few
ways of `Store.Operates`, and which of them it can be is read off the table.

**Results.**
* `Store.operate_cons`: the operations that follow references by themselves.
* `Store.exchange_exchange`: to exchange two variables twice changes nothing.
* `Store.operators_byValue`: all of this for every operator name, all arguments and every stack.
-/

namespace GoalDirected

section Defs

/-- The operator assigns to the variable at this place. -/
def Operator.Assigns (name : String) (i : Nat) : Prop :=
  name = ":=" ∧ i = 0 ∨ name = ":=:" ∧ i ≤ 1

instance (name : String) (i : Nat) : Decidable (Operator.Assigns name i) :=
  inferInstanceAs (Decidable (_ ∨ _))

namespace Store

/-- The contents of two cells in each other's place. -/
def exchange (s : Store) (c d : CellId) : Store :=
  (s.write c (s.read d)).write d (s.read c)

/-- Another store is the same but for the contents of some cells. -/
structure Rewrites (W : CellId → Prop) (s t : Store) : Prop where
  eq : t = { s with cells := t.cells }
  size : t.cells.size = s.cells.size
  read : ∀ c, ¬ W c → t.read c = s.read c

/-- Operators of a store see variables only where they assign to them, and change no others. -/
structure OperatesByValue (s : Store) : Prop where
  /-- An operand that is not assigned to may as well be given by the value that it leads to. -/
  byValue :
    ∀ (stack : List Context) (name : String) (args : List Value) (i : Nat) (v w : Value),
      args[i]? = some v → s.Leads v w → ¬ Operator.Assigns name i →
      Machine.invoke s stack name (args.set i w) = Machine.invoke s stack name args
  /-- What neither assigns nor activates comes to an outcome or a fault at once and leaves all cells as they are, and
  what its outcome leaves to be resumed does so too. -/
  quiet :
    ∀ (stack : List Context) (name : String) (args : List Value), name ≠ ":=" → name ≠ ":=:" → name ≠ "@" →
      ∃ t, s.Extends t ∧
        ((∃ o, Machine.invoke s stack name args = ⟨t, stack, .returning o⟩ ∧
            ∀ k, o.Leaves k → ∀ u below, ∃ o', Machine.resume u below k = ⟨u, below, .returning o'⟩) ∨
          ∃ r, Machine.invoke s stack name args = ⟨t, stack, .raising r⟩)
  assign :
    ∀ (stack : List Context) (c : CellId) (v : Value), c < s.cells.size →
      ∃ t, Machine.invoke s stack ":=" [.ref c, v] = ⟨t, stack, .returning (.result (.ref c))⟩ ∧
        t.read c = s.deref v ∧ s.Rewrites (· = c) t
  swap :
    ∀ (stack : List Context) (c d : CellId), c < s.cells.size → d < s.cells.size →
      ∃ t, Machine.invoke s stack ":=:" [.ref c, .ref d] = ⟨t, stack, .returning (.result (.ref c))⟩ ∧
        t.read c = s.read d ∧ t.read d = s.read c ∧ s.Rewrites (fun e => e = c ∨ e = d) t ∧ (c = d → t = s) ∧
        Machine.invoke t stack ":=:" [.ref c, .ref d] = ⟨s, stack, .returning (.result (.ref c))⟩
  /-- Without variables to assign to there is a fault, and nothing changes. -/
  refused :
    ∀ (stack : List Context) (name : String) (args : List Value),
      name = ":=" ∧ (∀ c v, args ≠ [.ref c, v]) ∨ name = ":=:" ∧ (∀ c d, args ≠ [.ref c, .ref d]) →
      ∃ r, Machine.invoke s stack name args = ⟨s, stack, .raising r⟩

end Store

end Defs

section Operands

/-! ## The table -/

namespace Operator

variable {op : Operator}

/-- A place that sees references and is not assigned to is the first one of an operation that follows them. -/
theorem raw_cases :
    op ∈ table → ∀ i ∈ op.raw, ¬ Assigns op.name i →
      i = 0 ∧ (op.operation = .subscript ∨ op.operation = .slice ∨ op.operation = .same ∨ op.operation = .notSame) := by
  revert op
  decide

theorem arity_eq_two : op ∈ table → op.name = ":=" ∨ op.name = ":=:" → op.arity = 2 := by
  revert op
  decide

end Operator

namespace Store

variable {s t u : Store} {W : CellId → Prop} {op : Operation} {args : List Value} {v w : Value} {c d : CellId} {i : Nat}

/-! ## Operands by value -/

theorem Leads.deref_eq
    (h : s.Leads v w) :
    s.deref w = s.deref v := by
  obtain ⟨hderef, hw⟩ := leads_iff.mp h
  rw [hderef, deref, s.derefWithin_of_not_isRef _ hw]

theorem operands_set (s : Store) (raw : List Nat) (args : List Value) (i : Nat) (w : Value) :
    s.operands raw (args.set i w) = (s.operands raw args).set i (if raw.contains i then w else s.deref w) :=
  List.mapIdx_set

/-- An operand that the operator dereferences is the same for a value as for a reference to it. -/
theorem operands_set_of_not_mem
    {raw : List Nat}
    (hv : args[i]? = some v)
    (hderef : s.deref w = s.deref v)
    (hraw : i ∉ raw) :
    s.operands raw (args.set i w) = s.operands raw args := by
  have hraw' : raw.contains i = false := by simpa using hraw
  have hsame : (s.operands raw args)[i]? = some (s.deref w) := by
    simp only [operands, List.getElem?_mapIdx, hv, Option.map_some, hraw', hderef, Bool.false_eq_true, if_false]
  obtain ⟨hi, hget⟩ := List.getElem?_eq_some_iff.mp hsame
  rw [operands_set, hraw', if_neg Bool.false_ne_true, ← hget, List.set_getElem_self]

/-- The operations that get a reference as it stands and are no assignment follow it by themselves. -/
theorem operate_cons
    (hop : op = .subscript ∨ op = .slice ∨ op = .same ∨ op = .notSame)
    (hderef : s.deref w = s.deref v)
    (rest : List Value) :
    s.operate op (w :: rest) = s.operate op (v :: rest) := by
  have hsubscript : ∀ x, s.subscript w x = s.subscript v x := fun x => by
    simp only [subscript, hderef]
  have hslice : ∀ x y, s.slice w x y = s.slice v x y := fun x y => by
    simp only [slice, hderef]
  -- With another number of operands an operation looks at none of them.
  rcases hop with rfl | rfl | rfl | rfl
  · rcases rest with _ | ⟨x, _ | ⟨y, rest⟩⟩
    · rfl
    · simp only [operate, hsubscript]
    · rfl
  · rcases rest with _ | ⟨x, _ | ⟨y, _ | ⟨z, rest⟩⟩⟩
    · rfl
    · rfl
    · simp only [operate, hslice]
    · rfl
  · rcases rest with _ | ⟨x, _ | ⟨y, rest⟩⟩
    · rfl
    · simp only [operate, hderef]
    · rfl
  · rcases rest with _ | ⟨x, _ | ⟨y, rest⟩⟩
    · rfl
    · simp only [operate, hderef]
    · rfl

theorem operate_set_zero
    (hop : op = .subscript ∨ op = .slice ∨ op = .same ∨ op = .notSame)
    (hv : args[0]? = some v)
    (hderef : s.deref w = s.deref v) :
    s.operate op (args.set 0 w) = s.operate op args := by
  cases args with
  | nil => cases hv
  | cons first rest =>
      cases hv
      exact operate_cons hop hderef rest

theorem invoke_set
    {name : String}
    (hv : args[i]? = some v)
    (h : s.Leads v w)
    (hassigns : ¬ Operator.Assigns name i) :
    s.invoke name (args.set i w) = s.invoke name args := by
  unfold invoke
  rw [List.length_set]
  split
  · rename_i op hlookup
    obtain ⟨hop, rfl, -⟩ := Operator.lookup?_eq_some_iff.mp hlookup
    by_cases hraw : i ∈ op.raw
    · obtain ⟨rfl, hoperation⟩ := Operator.raw_cases hop i hraw hassigns
      rw [operands_set, if_pos (by simpa using hraw)]
      refine operate_set_zero hoperation (v := v) ?_ h.deref_eq
      simp [operands, hv, hraw]
    · rw [operands_set_of_not_mem hv h.deref_eq hraw]
  · rfl

/-! ## Contents that change -/

theorem Rewrites.trans
    (h : s.Rewrites W t)
    (h' : t.Rewrites W u) :
    s.Rewrites W u := by
  refine ⟨h'.eq.trans ?_, h'.size.trans h.size, fun e he => (h'.read e he).trans (h.read e he)⟩
  rw [h.eq]

theorem rewrites_write (s : Store) (v : Value) (hc : W c) : s.Rewrites W (s.write c v) where
  eq := rfl
  size := s.size_write c v
  read := fun _ he => s.read_write_of_ne v fun heq => he (heq ▸ hc)

/-- If in the end no content differs, nothing has changed. -/
theorem Rewrites.eq_of_read
    (h : s.Rewrites W t)
    (hread : ∀ e, t.read e = s.read e) :
    t = s := by
  have hcells : t.cells = s.cells := by
    refine Array.ext h.size ?_
    intro e ht hs
    simpa [Store.read, Array.getD, ht, hs] using hread e
  rw [h.eq, hcells]

/-! ## Exchange -/

theorem rewrites_exchange (s : Store) (c d : CellId) : s.Rewrites (fun e => e = c ∨ e = d) (s.exchange c d) :=
  (s.rewrites_write _ (Or.inl rfl)).trans (rewrites_write _ _ (Or.inr rfl))

theorem read_exchange_right
    (hd : d < s.cells.size) :
    (s.exchange c d).read d = s.read c :=
  read_write_self _ _ (by rwa [size_write])

theorem read_exchange_left
    (hc : c < s.cells.size) :
    (s.exchange c d).read c = s.read d := by
  by_cases heq : c = d
  · subst heq
    exact read_exchange_right hc
  · rw [exchange, read_write_of_ne _ _ heq, read_write_self s _ hc]

theorem exchange_self
    (hc : c < s.cells.size) :
    s.exchange c c = s := by
  refine (s.rewrites_exchange c c).eq_of_read fun e => ?_
  by_cases he : e = c
  · rw [he, read_exchange_right hc]
  · exact (s.rewrites_exchange c c).read e (by simp [he])

/-- What is exchanged twice is in its old place. -/
theorem exchange_exchange
    (hc : c < s.cells.size)
    (hd : d < s.cells.size) :
    (s.exchange c d).exchange c d = s := by
  have honce := s.rewrites_exchange c d
  have htwice := (s.exchange c d).rewrites_exchange c d
  refine (honce.trans htwice).eq_of_read fun e => ?_
  by_cases he : e = c ∨ e = d
  · rcases he with rfl | rfl
    · rw [read_exchange_left (by rwa [honce.size]), read_exchange_right hd]
    · rw [read_exchange_right (by rwa [honce.size]), read_exchange_left hc]
  · rw [htwice.read e he, honce.read e he]

theorem invoke_swap (s : Store) (c d : CellId) :
    s.invoke ":=:" [.ref c, .ref d] = (.outcome (.result (.ref c)), s.exchange c d) := by
  have hlookup : Operator.lookup? ":=:" 2 = some ⟨":=:", 2, [0, 1], .swap⟩ := rfl
  exact s.invoke_of_lookup? [.ref c, .ref d] hlookup

/-! ## Everything else -/

/-- What is neither an assignment nor an activation answers by itself and leaves all cells as they are. -/
theorem Operates.quiet
    {a : Answer}
    (h : s.Operates op args a t)
    (hassign : op ≠ .assign)
    (hswap : op ≠ .swap)
    (hactivate : op ≠ .activate) :
    s.Extends t ∧ ((∃ o, a = .outcome o ∧ o.IsDetached) ∨ ∃ f, a = .fault f) := by
  cases h with
  | outcome _ _ ho => exact ⟨.refl s, Or.inl ⟨_, rfl, ho⟩⟩
  | exception => exact ⟨.refl s, Or.inr ⟨_, rfl⟩⟩
  | assign => exact absurd rfl hassign
  | swap => exact absurd rfl hswap
  | slice _ values => exact ⟨s.extends_newList values, Or.inl ⟨_, rfl, Outcome.isDetached_result _⟩⟩
  | receive => exact absurd rfl hactivate
  | activate => exact absurd rfl hactivate

theorem invoke_quiet
    {name : String}
    (s : Store) (args : List Value)
    (hassign : name ≠ ":=")
    (hswap : name ≠ ":=:")
    (hactivate : name ≠ "@") :
    ∃ a t, s.invoke name args = (a, t) ∧ s.Extends t ∧
      ((∃ o, a = .outcome o ∧ o.IsDetached) ∨ ∃ f, a = .fault f) := by
  unfold invoke
  split
  · rename_i op hlookup
    obtain ⟨hop, rfl, -⟩ := Operator.lookup?_eq_some_iff.mp hlookup
    refine ⟨_, _, rfl, (s.operates_operate _ _).quiet ?_ ?_ ?_⟩
    · exact mt (Operator.operation_eq_assign_iff hop).mp hassign
    · exact mt (Operator.operation_eq_swap_iff hop).mp hswap
    · exact mt (Operator.operation_eq_activate_iff hop).mp hactivate
  · exact ⟨_, _, rfl, .refl s, Or.inr ⟨_, rfl⟩⟩

/-- Without variables, assignment and exchange do nothing but complain. -/
theorem invoke_refused
    {name : String}
    (s : Store)
    (h : name = ":=" ∧ (∀ c v, args ≠ [.ref c, v]) ∨ name = ":=:" ∧ ∀ c d, args ≠ [.ref c, .ref d]) :
    ∃ f, s.invoke name args = (.fault f, s) := by
  unfold invoke
  split
  · rename_i op hlookup
    obtain ⟨hop, rfl, harity⟩ := Operator.lookup?_eq_some_iff.mp hlookup
    have hlength : args.length = 2 := harity.symm.trans (Operator.arity_eq_two hop (h.imp And.left And.left))
    obtain ⟨a, b, rfl⟩ := List.length_eq_two.mp hlength
    rcases h with ⟨hname, hargs⟩ | ⟨hname, hargs⟩
    · rw [Operator.raw_eq hop, (Operator.operation_eq_assign_iff hop).mpr hname]
      cases a with
      | ref c => exact absurd rfl (hargs c b)
      | _ => exact ⟨_, rfl⟩
    · rw [Operator.raw_eq hop, (Operator.operation_eq_swap_iff hop).mpr hname]
      cases a with
      | ref c =>
          cases b with
          | ref d => exact absurd rfl (hargs c d)
          | _ => exact ⟨_, rfl⟩
      | _ => exact ⟨_, rfl⟩
  · exact ⟨_, rfl⟩

/-! ## Operators -/

/-- Assignment and exchange see variables, and change no others.  All other operands of all operators may as well be
given by their values, and all other operators but activation change no cell. -/
theorem operators_byValue (s : Store) : s.OperatesByValue where
  byValue := by
    intro stack name args i v w hv hleads hassigns
    unfold Machine.invoke
    rw [s.invoke_set hv hleads hassigns]
  quiet := by
    intro stack name args hassign hswap hactivate
    obtain ⟨a, t, hinvoke, hextends, hanswer⟩ := s.invoke_quiet args hassign hswap hactivate
    refine ⟨t, hextends, ?_⟩
    rcases hanswer with ⟨o, rfl, ho⟩ | ⟨f, rfl⟩
    · exact Or.inl ⟨o, machine_invoke_outcome hinvoke stack, fun k hk => hk.resume_eq ho⟩
    · exact Or.inr ⟨_, machine_invoke_fault hinvoke stack⟩
  assign := by
    intro stack c v hc
    refine ⟨_, machine_invoke_outcome (s.invoke_assign c v) stack, s.read_write_self _ hc, ?_⟩
    exact s.rewrites_write _ rfl
  swap := by
    intro stack c d hc hd
    refine ⟨_, machine_invoke_outcome (s.invoke_swap c d) stack, read_exchange_left hc, read_exchange_right hd,
      s.rewrites_exchange c d, ?_, ?_⟩
    · rintro rfl
      exact exchange_self hc
    · rw [machine_invoke_outcome ((s.exchange c d).invoke_swap c d) stack, exchange_exchange hc hd]
  refused := by
    intro stack name args h
    obtain ⟨f, hinvoke⟩ := s.invoke_refused h
    exact ⟨_, machine_invoke_fault hinvoke stack⟩

/-- A variable that refers to another one is seen by the value behind both, and the two can be exchanged. -/
theorem operators_byValue_chain :
    let s : Store := { cells := #[.text "a", .ref 0] }
    s.Leads (.ref 1) (.text "a") ∧
      Machine.invoke s [] "===" [.text "a", .ref 1] = Machine.invoke s [] "===" [.ref 1, .ref 1] ∧
      ∃ t, Machine.invoke s [] ":=:" [.ref 0, .ref 1] = ⟨t, [], .returning (.result (.ref 0))⟩ ∧
        t.read 0 = .ref 0 ∧ t.read 1 = .text "a" := by
  intro s
  have hleads : s.Leads (.ref 1) (.text "a") := .ref (.ref (.value rfl))
  obtain ⟨t, hinvoke, hfirst, hsecond, -⟩ := (operators_byValue s).swap [] 0 1 (by decide) (by decide)
  exact ⟨hleads, (operators_byValue s).byValue [] "===" [.ref 1, .ref 1] 0 (.ref 1) (.text "a") rfl hleads (by decide),
    t, hinvoke, hfirst, hsecond⟩

end Store

end Operands

end GoalDirected
