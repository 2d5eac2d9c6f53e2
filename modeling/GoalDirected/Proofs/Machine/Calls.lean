import GoalDirected.Machine.Basic

/-!
# What a call comes to

A call is refused, enters a procedure, makes a record, or is answered by the library.  A fault that leaves an
activation goes on, or stops everything.  What a call or a fault does to any part of a machine is read off these
cases, which `called_call` and `leave_cases` go through once.
-/

namespace GoalDirected
namespace Machine

section Calls

/-- The ways in which a call can go. -/
inductive Called
    (s : Store) (stack : List Context) (environment : Environment) (callee : Value) (args : List Value)
    (names : List String) : Machine → Prop
  | unknown :
      Called s stack environment callee args names (raise s stack (.exception .procedureExpected [s.deref callee]))
  | procedure
      {id : Nat} {p : Procedure}
      (hcallee : s.deref callee = .procedure id)
      (hcallable : s.callables[id]? = some (.procedure p)) :
      Called s stack environment callee args names (enter s stack environment p args names)
  | misfit
      {record : String} {fields : List String} {f : Fault}
      (hconstruct : s.construct record fields args names = .error f) :
      Called s stack environment callee args names (raise s stack f)
  | record
      {record : String} {fields : List String} {v : Value} {t : Store}
      (hconstruct : s.construct record fields args names = .ok (v, t)) :
      Called s stack environment callee args names ⟨t, stack, .returning (.result v)⟩
  | keywords (b : Builtin) :
      Called s stack environment callee args names (raise s stack (.exception (.noKeywords b.name) []))
  | builtin
      {id : Nat} {b : Builtin}
      (hcallee : s.deref callee = .procedure id)
      (hcallable : s.callables[id]? = some (.builtin b))
      (hnames : names.isEmpty = true) :
      Called s stack environment callee args names
        (reply (s.builtin b (args.map s.deref)).2 stack (s.builtin b (args.map s.deref)).1)

theorem called_call
    (s : Store) (stack : List Context) (environment : Environment) (callee : Value) (args : List Value)
    (names : List String) :
    Called s stack environment callee args names (call s stack environment callee args names) := by
  unfold call
  split
  · rename_i id hcallee
    split
    · rename_i callable hcallable
      cases callable with
      | procedure p => exact .procedure hcallee hcallable
      | constructor record fields =>
          simp only [callCallable]
          split
          · rename_i hconstruct
            exact .misfit hconstruct
          · rename_i hconstruct
            exact .record hconstruct
      | builtin b =>
          simp only [callCallable]
          split
          · rename_i hnames
            exact .builtin hcallee hcallable hnames
          · exact .keywords b
    · rw [← hcallee]
      exact .unknown
  · exact .unknown

/-- A fault that leaves an activation goes on, unless the entry of the activation would show a value that has no
image. -/
theorem leave_cases (s : Store) (stack : List Context) (frame : Nat) (r : Raised) :
    (∃ trace, leave s stack frame r = ⟨s, stack, .raising ⟨r.fault, trace⟩⟩) ∨
    leave s stack frame r = ⟨s, stack, .aborted r⟩ := by
  unfold leave
  split
  · split
    · exact Or.inl ⟨_, rfl⟩
    · exact Or.inr rfl
  · exact Or.inl ⟨r.trace, rfl⟩

@[simp] theorem store_leave (s : Store) (stack : List Context) (frame : Nat) (r : Raised) :
    (leave s stack frame r).store = s := by
  rcases leave_cases s stack frame r with ⟨trace, heq⟩ | heq <;> rw [heq]

end Calls

end Machine
end GoalDirected
