import GoalDirected.Proofs.Coexpression.Forwarding
import GoalDirected.Proofs.Machine.Replies
import GoalDirected.Proofs.Operator.Dispatch
import GoalDirected.Proofs.Sequence.Elements
import GoalDirected.Proofs.Store.Answers

/-!
# What operators raise

**Input.** Any name with any arguments, and what comes of applying the operator.

**Specification.** An operator that does not exist is a malfunction.  An activation raises what the producer
forwards.  Everything else that operators raise is an exception, so that a recovery procedure can catch it.

**Argument.** Each operation by itself raises exceptions only, and so do the coercions of its operands.  An activation
comes to an end with an outcome that cannot be resumed, or with a fault that the body forwards.  Generators answer at
once.

**Results.**
* `Store.invoke_cases`: all answers of operators.
* `Store.ends_of_iterate`: all that the application of an operator can come to.
* `operators_dispatched`: which operators exist, and which of their errors are malfunctions.
-/

namespace GoalDirected

section Defs

namespace Store

/-- The operator comes to an end with a fault. -/
def Raises (s : Store) (name : String) (args : List Value) (r : Raised) : Prop :=
  ∃ j t, Machine.step^[j] (Machine.invoke s [] name args) = ⟨t, [], .raising r⟩

/-- The operator activates a co-expression whose producer forwards a fault. -/
def Relays (s : Store) (name : String) (args : List Value) (c : Nat) (r : Raised) : Prop :=
  name = "@" ∧ ∃ v, args = [v] ∧ s.deref v = .coexpression c ∧ s.Forwards c r

/-- What is raised in the application of an operator. -/
structure ClassifiesErrors (s : Store) (name : String) (args : List Value) : Prop where
  malfunction :
    (∃ r, s.Raises name args r ∧ r.fault.isMalfunction = true) ↔
      Operator.lookup? name args.length = none ∨ ∃ c r, s.Relays name args c r ∧ r.fault.isMalfunction = true
  raised :
    ∀ r, s.Raises name args r →
      (Operator.lookup? name args.length = none ∧ r = ⟨.malfunction (.noOperator name args.length), []⟩) ∨
        (∃ c r', s.Relays name args c r' ∧ r = r'.leave (producerEntry c)) ∨
        ∃ cause offending, r = ⟨.exception cause offending, []⟩
  /-- What an outcome leaves has an outcome whenever it is resumed, and raises nothing. -/
  resumed :
    ∀ j t o, Machine.step^[j] (Machine.invoke s [] name args) = ⟨t, [], .returning o⟩ →
      ∀ k, o.Leaves k → ∀ u below, ∃ o', Machine.resume u below k = ⟨u, below, .returning o'⟩

end Store

end Defs

section Errors

namespace Store

variable {s t : Store} {name : String} {args : List Value} {v : Value} {c : Nat}

/-! ## Answers -/

theorem operands_nil (s : Store) (args : List Value) : s.operands [] args = args.map s.deref :=
  List.ext_getElem? fun i => by simp [operands]

theorem invoke_activate
    (hv : s.deref v = .coexpression c) :
    s.invoke "@" [v] = (.activate c, s) := by
  have hlookup : Operator.lookup? "@" 1 = some ⟨"@", 1, [], .activate⟩ := rfl
  rw [s.invoke_of_lookup? [v] hlookup, operands_nil, List.map_singleton, hv]
  rfl

/-- An operation answers with an outcome or an exception, waits for a channel, or activates. -/
theorem Operates.answer_cases
    {op : Operation} {a : Answer}
    (h : s.Operates op args a t) :
    (∃ o, a = .outcome o ∧ o.IsDetached) ∨ (∃ cause offending, a = .fault (.exception cause offending)) ∨
      a = .reply (.halt .blocked) ∨ ∃ c, op = .activate ∧ args = [.coexpression c] := by
  cases h with
  | outcome _ _ ho => exact Or.inl ⟨_, rfl, ho⟩
  | exception => exact Or.inr (Or.inl ⟨_, _, rfl⟩)
  | assign => exact Or.inl ⟨_, rfl, Outcome.isDetached_result _⟩
  | swap => exact Or.inl ⟨_, rfl, Outcome.isDetached_result _⟩
  | slice => exact Or.inl ⟨_, rfl, Outcome.isDetached_result _⟩
  | receive id =>
      rcases s.receiveFrom_cases id with ⟨o, hreply, ho⟩ | hreply
      · exact Or.inl ⟨o, congrArg Answer.reply hreply, ho⟩
      · exact Or.inr (Or.inr (Or.inl (congrArg Answer.reply hreply)))
  | activate c => exact Or.inr (Or.inr (Or.inr ⟨c, rfl, rfl⟩))

/-- All that an operator can answer to its arguments, whether it exists or not. -/
theorem invoke_cases (s : Store) (name : String) (args : List Value) :
    (Operator.lookup? name args.length = none ∧
        s.invoke name args = (.fault (.malfunction (.noOperator name args.length)), s)) ∨
      (∃ o t, s.invoke name args = (.outcome o, t) ∧ o.IsDetached) ∨
      (∃ cause offending t, s.invoke name args = (.fault (.exception cause offending), t)) ∨
      (∃ t, s.invoke name args = (.reply (.halt .blocked), t)) ∨
      ∃ v c, name = "@" ∧ args = [v] ∧ s.deref v = .coexpression c := by
  cases hlookup : Operator.lookup? name args.length with
  | none => exact Or.inl ⟨rfl, by simp only [invoke, hlookup]⟩
  | some op =>
      obtain ⟨hop, rfl, -⟩ := Operator.lookup?_eq_some_iff.mp hlookup
      refine Or.inr ?_
      have hoperates := s.operates_operate op.operation (s.operands op.raw args)
      rw [s.invoke_of_lookup? args hlookup]
      generalize s.operate op.operation (s.operands op.raw args) = p at hoperates ⊢
      obtain ⟨a, t⟩ := p
      rcases hoperates.answer_cases with ⟨o, rfl, ho⟩ | ⟨cause, offending, rfl⟩ | rfl | ⟨c, hoperation, hargs⟩
      · exact Or.inl ⟨o, t, rfl, ho⟩
      · exact Or.inr (Or.inl ⟨cause, offending, t, rfl⟩)
      · exact Or.inr (Or.inr (Or.inl ⟨t, rfl⟩))
      · have hraw : op.raw = [] := by
          rw [Operator.raw_eq hop, hoperation]
          rfl
        rw [hraw, operands_nil] at hargs
        obtain ⟨v, rfl, hv⟩ := List.map_eq_singleton_iff.mp hargs
        exact Or.inr (Or.inr (Or.inr ⟨v, c, (Operator.operation_eq_activate_iff hop).mp hoperation, rfl, hv⟩))

/-! ## Runs -/

/-- What an operator comes to when it comes to an end. -/
inductive Ends (s : Store) (name : String) (args : List Value) : Control → Prop
  | missing
      (hlookup : Operator.lookup? name args.length = none) :
      Ends s name args (.raising ⟨.malfunction (.noOperator name args.length), []⟩)
  | outcome
      {o : Outcome}
      (ho : o.IsDetached) :
      Ends s name args (.returning o)
  | exception (cause : Cause) (offending : List Value) : Ends s name args (.raising ⟨.exception cause offending, []⟩)
  | relayed
      {c : Nat} {r : Raised}
      (hrelays : s.Relays name args c r) :
      Ends s name args (.raising (r.leave (producerEntry c)))
  | halted (reason : Halt) : Ends s name args (.halted reason)

/-- An operator that is no activation is at its end at once. -/
theorem ends_of_isFinished
    {m : Machine} {j : Nat}
    (hm : m.isFinished = true)
    (h : s.Ends name args m.control) :
    s.Ends name args (Machine.step^[j] m).control := by
  rwa [Function.iterate_fixed (Machine.step_of_isFinished hm)]

theorem machine_invoke_activate
    (hv : s.deref v = .coexpression c)
    (stack : List Context) :
    Machine.invoke s stack "@" [v] = Machine.activate s stack c := by
  simp only [Machine.invoke, invoke_activate hv]

theorem machine_invoke_blocked
    (h : s.invoke name args = (.reply (.halt .blocked), t)) :
    Machine.invoke s [] name args = ⟨t, [], .halted .blocked⟩ := by
  simp only [Machine.invoke, h, Machine.reply, Machine.halt]

/-- An operator that has come to an end has done so in one of these ways. -/
theorem ends_of_iterate
    {m : Machine} {j : Nat}
    (hrun : Machine.step^[j] (Machine.invoke s [] name args) = m)
    (hstack : m.stack = []) :
    s.Ends name args m.control := by
  rcases s.invoke_cases name args with ⟨hlookup, hinvoke⟩ | ⟨o, t, hinvoke, ho⟩ | ⟨cause, offending, t, hinvoke⟩ |
    ⟨t, hinvoke⟩ | ⟨v, c, rfl, rfl, hv⟩
  · rw [← hrun, machine_invoke_fault hinvoke]
    exact ends_of_isFinished rfl (.missing hlookup)
  · rw [← hrun, machine_invoke_outcome hinvoke]
    exact ends_of_isFinished rfl (.outcome ho)
  · rw [← hrun, machine_invoke_fault hinvoke]
    exact ends_of_isFinished rfl (.exception cause offending)
  · rw [← hrun, machine_invoke_blocked hinvoke]
    exact ends_of_isFinished rfl (.halted .blocked)
  · rw [machine_invoke_activate hv] at hrun
    rcases activate_ends hrun hstack with ⟨reason, hcontrol⟩ | ⟨o, hcontrol, ho⟩ | ⟨r, hforwards, hcontrol⟩
    · rw [hcontrol]
      exact .halted reason
    · rw [hcontrol]
      exact .outcome (Outcome.isDetached_of_next?_eq_none ho)
    · rw [hcontrol]
      exact .relayed ⟨rfl, v, rfl, hv, hforwards⟩

theorem raises_of_lookup?_eq_none
    (h : Operator.lookup? name args.length = none) :
    s.Raises name args ⟨.malfunction (.noOperator name args.length), []⟩ := by
  have hinvoke : s.invoke name args = (.fault (.malfunction (.noOperator name args.length)), s) := by
    simp only [invoke, h]
  exact ⟨0, s, machine_invoke_fault hinvoke []⟩

theorem Relays.raises
    {r : Raised}
    (h : s.Relays name args c r) :
    s.Raises name args (r.leave (producerEntry c)) := by
  obtain ⟨rfl, v, rfl, hv, hforwards⟩ := h
  obtain ⟨j, t, hrun⟩ := activate_raises_iff.mpr ⟨r, hforwards, rfl⟩
  exact ⟨j, t, by rw [machine_invoke_activate hv, hrun]⟩

theorem classifiesErrors (s : Store) (name : String) (args : List Value) : s.ClassifiesErrors name args where
  malfunction := by
    constructor
    · rintro ⟨r, ⟨j, t, hrun⟩, hr⟩
      have hends := ends_of_iterate hrun rfl
      cases hends with
      | missing hlookup => exact Or.inl hlookup
      | exception cause offending => cases hr
      | relayed hrelays => exact Or.inr ⟨_, _, hrelays, hr⟩
    · rintro (hlookup | ⟨c, r, hrelays, hr⟩)
      · exact ⟨_, raises_of_lookup?_eq_none hlookup, rfl⟩
      · exact ⟨_, hrelays.raises, hr⟩
  raised := by
    rintro r ⟨j, t, hrun⟩
    have hends := ends_of_iterate hrun rfl
    cases hends with
    | missing hlookup => exact Or.inl ⟨hlookup, rfl⟩
    | exception cause offending => exact Or.inr (Or.inr ⟨cause, offending, rfl⟩)
    | relayed hrelays => exact Or.inr (Or.inl ⟨_, _, hrelays, rfl⟩)
  resumed := by
    intro j t o hrun k hk
    have hends := ends_of_iterate hrun rfl
    cases hends with
    | outcome ho => exact hk.resume_eq ho

end Store

/-- An operator is found exactly if the table has its name and its arity.  Of what operators raise, a malfunction
is what is not found and what a producer forwards as one; all else are exceptions. -/
theorem operators_dispatched :
    (∀ (name : String) (arity : Nat) (op : Operator),
      Operator.lookup? name arity = some op ↔ op ∈ Operator.table ∧ op.name = name ∧ op.arity = arity) ∧
    ∀ (s : Store) (name : String) (args : List Value), s.ClassifiesErrors name args :=
  ⟨fun _ _ _ => Operator.lookup?_eq_some_iff, Store.classifiesErrors⟩

/-- A procedure with a co-expression whose body applies an operator that does not exist. -/
def astray : Ir.Procedure where
  name := "astray"
  namespaceName := ""
  params := []
  locals := []
  statics := []
  variadic := false
  temps := 1
  entry := "start"
  chunks := [⟨"start", [.create 0 "body", .fail]⟩, ⟨"body", [.operator ⟨none, none, none⟩ "?" [], .exhaust]⟩]
  deps := []

/-- The store in which the procedure has created the co-expression. -/
def strayed : Store :=
  ((Machine.call ((Program.new 1).link ⟨[astray], [], []⟩).2.store [] Program.rootEnvironment
    (.procedure Builtin.all.length) [] []).run 1).store

/-- A malfunction has come down to the consumer of the co-expression. -/
def isForwarding (c : Nat) : Machine → Bool
  | ⟨_, [.consuming id], .raising r⟩ => id == c && r.fault.isMalfunction
  | _ => false

theorem exists_of_isForwarding
    {c : Nat} {m : Machine}
    (h : isForwarding c m = true) :
    ∃ t r, m = ⟨t, [.consuming c], .raising r⟩ ∧ r.fault.isMalfunction = true := by
  unfold isForwarding at h
  split at h
  · rename_i t id r
    obtain ⟨hid, hr⟩ := Bool.and_eq_true_iff.mp h
    exact ⟨t, r, by rw [beq_iff_eq.mp hid], hr⟩
  · cases h

/-- An activation raises the malfunction of the body. -/
theorem operators_dispatched_strayed :
    Operator.lookup? "?" 0 = none ∧
      ∃ r, strayed.Raises "@" [.coexpression 1] r ∧ r.fault.isMalfunction = true := by
  obtain ⟨-, hclassified⟩ := operators_dispatched
  have hplace : Rendezvous.place? strayed 1 = some ⟨1, "body"⟩ := by decide +kernel
  have hforwarding : isForwarding 1 (Machine.step^[2] (Rendezvous.begin 1 strayed ⟨1, "body"⟩)) = true := by
    decide +kernel
  obtain ⟨t, r, hrun, hr⟩ := exists_of_isForwarding hforwarding
  refine ⟨rfl, (hclassified strayed "@" [.coexpression 1]).malfunction.mpr (Or.inr ⟨1, r, ?_, hr⟩)⟩
  exact ⟨rfl, _, rfl, rfl, ⟨1, "body"⟩, 2, t, hplace, hrun⟩

end Errors

end GoalDirected
