import GoalDirected.Machine.Execution

/-!
# The machine

**Input.** A store, and something to do: call a value, invoke an operator, resume a continuation.

**Algorithm.** A state of the machine is a store, a stack of contexts and a control. The control runs
the instructions of a frame, or carries an outcome or a fault to the innermost context. A context is
an activation that waits for an outcome, an activation whose recovery procedure runs, or the boundary
between a co-expression and its consumer. `step` makes one step and leaves a finished state as it is;
`run` repeats it.

**Results.** Every step is a total function of the state, and activations share nothing but the
store.
-/

namespace GoalDirected

section Defs

/-- Who waits for the outcome of what runs above. -/
inductive Context where
  /-- A frame in the middle of a chunk, with the place that the outcome goes to. -/
  | awaiting (frame : Nat) (label : Ir.Label) (rest : List Ir.Instruction) (d : Ir.Destination)
  /-- A frame whose recovery procedure runs in its stead. -/
  | recovering (frame : Nat)
  /-- The consumer of a co-expression. -/
  | consuming (coexpression : Nat)
  /-- A frame that runs on its own: its faults are not recovered and leave no trace. -/
  | bare

inductive Control where
  /-- The rest of a chunk of a frame. -/
  | running (frame : Nat) (label : Ir.Label) (rest : List Ir.Instruction)
  | returning (o : Outcome)
  | raising (r : Raised)
  | halted (h : Halt)
  /-- A recursion without an end has used up the stack: the entry of an activation in the trace would show a value
  that holds itself. -/
  | aborted (r : Raised)

structure Machine where
  store : Store
  /-- The contexts, innermost first. -/
  stack : List Context
  control : Control

namespace Machine

/-! ## Calls -/

/-- Carries a new fault to the innermost context. -/
def raise (s : Store) (stack : List Context) (f : Fault) : Machine :=
  ⟨s, stack, .raising ⟨f, []⟩⟩

/-- The innermost co-expression that runs, with the contexts of its consumer. -/
def innermostConsumer? : List Context → Option (Nat × List Context)
  | [] => none
  | .consuming id :: rest => some (id, rest)
  | _ :: rest => innermostConsumer? rest

/-- Stops everything, except that a request for an impossible queue only ends the co-expression that
made it; its place in the pool is not given back. -/
def halt (s : Store) (stack : List Context) (h : Halt) : Machine :=
  match h, innermostConsumer? stack with
  | .impossibleQueue, some (id, rest) => ⟨s.setProducer id .ended, rest, .returning .fail⟩
  | h, _ => ⟨s, stack, .halted h⟩

/-- A fault leaves an activation for good, with an entry of the activation in its trace, if all that the entry
shows has an image. -/
def leave (s : Store) (stack : List Context) (frame : Nat) (r : Raised) : Machine :=
  match s.frames[frame]? with
  | some f =>
      if s.areShown f.shown then ⟨s, stack, .raising (r.leave (s.traceEntry f))⟩
      else ⟨s, stack, .aborted r⟩
  | none => ⟨s, stack, .raising r⟩

/-- A procedure at its start. Faults in the binding of arguments belong to the caller. -/
def enter (s : Store) (stack : List Context) (environment : Environment) (p : Procedure)
    (args : List Value) (names : List String) : Machine :=
  match p.code.argumentFault? args names with
  | some f => raise s stack f
  | none =>
      let (vars, s) := s.bindArguments p.code args names
      let (frame, s) := s.newFrame (.new environment p args vars)
      match p.code.chunk? p.code.entry with
      | some body => ⟨s, stack, .running frame p.code.entry body⟩
      | none => leave s stack frame ⟨.malfunction (.noChunk p.code.entry p.code.qualified), []⟩

/-- Carries a reply to the innermost context. -/
def reply (s : Store) (stack : List Context) : Reply → Machine
  | .outcome o => ⟨s, stack, .returning o⟩
  | .fault f => raise s stack f
  | .halt h => halt s stack h

/-- Calls a callable. -/
def callCallable (s : Store) (stack : List Context) (environment : Environment) (c : Callable)
    (args : List Value) (names : List String) : Machine :=
  match c with
  | .procedure p => enter s stack environment p args names
  | .constructor record fields =>
      match s.construct record fields args names with
      | .error f => raise s stack f
      | .ok (v, s) => ⟨s, stack, .returning (.result v)⟩
  | .builtin b =>
      if names.isEmpty then
        let (r, s) := s.builtin b (args.map s.deref)
        reply s stack r
      else raise s stack (.exception (.noKeywords b.name) [])

/-- Calls a value. -/
def call (s : Store) (stack : List Context) (environment : Environment) (callee : Value)
    (args : List Value) (names : List String) : Machine :=
  match s.deref callee with
  | .procedure id =>
      match s.callables[id]? with
      | some c => callCallable s stack environment c args names
      | none => raise s stack (.exception .procedureExpected [.procedure id])
  | v => raise s stack (.exception .procedureExpected [v])

/-! ## Faults -/

/-- A fault arises in a frame. An exception goes to the recovery procedure if there is one, which is
used up by that; every other fault leaves the activation. -/
def fault (s : Store) (stack : List Context) (frame : Nat) (r : Raised) : Machine :=
  match stack, s.frames[frame]?, r.fault with
  | .bare :: rest, _, _ => ⟨s, rest, .raising r⟩
  | _, some f, .exception cause offending =>
      let f := { f with offender := f.offender.or offending.head? }
      match f.recovery with
      | some handler =>
          call (s.setFrame frame { f with recovery := none }) (.recovering frame :: stack)
            f.environment handler (cause.value :: offending) []
      | none => leave (s.setFrame frame f) stack frame r
  | _, _, _ => leave s stack frame r

def malfunction (s : Store) (stack : List Context) (frame : Nat) (m : Malfunction) : Machine :=
  fault s stack frame ⟨.malfunction m, []⟩

/-! ## Jumps and deliveries -/

/-- Goes on at a chunk of a frame. -/
def jump (s : Store) (stack : List Context) (frame : Nat) (label : Ir.Label) : Machine :=
  match s.frames[frame]? with
  | none => ⟨s, stack, .returning .fail⟩
  | some f =>
      match f.procedure.code.chunk? label with
      | some body => ⟨s, stack, .running frame label body⟩
      | none => malfunction s stack frame (.noChunk label f.place)

/-- An instruction of a frame has failed. -/
def failed (s : Store) (stack : List Context) (frame : Nat) : Option Ir.Label → Machine
  | some label => jump s stack frame label
  | none => ⟨s, stack, .returning .fail⟩

/-- Stores the parts of an outcome in the slots of a frame. A failure only empties the slot of the
continuation. -/
def storeOutcome (f : Frame) (d : Ir.Destination) (o : Outcome) : Except Malfunction Frame :=
  let stored : Except Malfunction Frame := match d.value, o.value? with
    | some slot, some v => f.set slot v
    | _, _ => .ok f
  stored.bind fun f => match d.next with
    | some slot => f.setNext slot o.next?
    | none => .ok f

/-- An outcome reaches the frame that waits for it. -/
def deliver (s : Store) (stack : List Context) (frame : Nat) (label : Ir.Label)
    (rest : List Ir.Instruction) (d : Ir.Destination) (o : Outcome) : Machine :=
  match s.frames[frame]? with
  | none => ⟨s, stack, .returning .fail⟩
  | some f =>
      match storeOutcome f d o, o with
      | .error m, _ => malfunction s stack frame m
      | .ok f, .fail => failed (s.setFrame frame f) stack frame d.onFail
      | .ok f, _ => ⟨s.setFrame frame f, stack, .running frame label rest⟩

/-- Resumes a continuation. -/
def resume (s : Store) (stack : List Context) : Continuation → Machine
  | .activation frame label => jump s stack frame label
  | .elements list position => ⟨s, stack, .returning (s.elementsFrom list position)⟩
  | .values rest => ⟨s, stack, .returning (valuesFrom rest)⟩
  | .count low high => ⟨s, stack, .returning (countFrom low high)⟩

/-- Asks a co-expression for its next value. One that is running already would wait for itself. -/
def activate (s : Store) (stack : List Context) (id : Nat) : Machine :=
  match s.producer id with
  | .fresh frame label => jump (s.setProducer id .running) (.consuming id :: stack) frame label
  | .waiting frame label => jump (s.setProducer id .running) (.consuming id :: stack) frame label
  | .running => halt s stack .blocked
  | .ended => ⟨s, stack, .returning .fail⟩

/-- Applies an operator. -/
def invoke (s : Store) (stack : List Context) (op : String) (args : List Value) : Machine :=
  match s.invoke op args with
  | (.reply r, s) => reply s stack r
  | (.activate id, s) => activate s stack id

/-! ## Steps -/

/-- Does what an instruction of a frame has asked for. -/
def perform (s : Store) (stack : List Context) (frame : Nat) (label : Ir.Label)
    (rest : List Ir.Instruction) (environment : Environment) : Effect → Machine
  | .next => ⟨s, stack, .running frame label rest⟩
  | .goto target => jump s stack frame target
  | .failed onFail => failed s stack frame onFail
  | .succeed v none => ⟨s, stack, .returning (.result v)⟩
  | .succeed v (some again) => ⟨s, stack, .returning (.suspended v (.activation frame again))⟩
  | .call d callee args names =>
      call s (.awaiting frame label rest d :: stack) environment callee args names
  | .operator d op args => invoke s (.awaiting frame label rest d :: stack) op args
  | .resume d (some k) => resume s (.awaiting frame label rest d :: stack) k
  | .resume d none => ⟨s, .awaiting frame label rest d :: stack, .returning .fail⟩
  | .produce v again =>
      match stack with
      | .consuming id :: below => ⟨s.setProducer id (.waiting frame again), below, .returning (.result v)⟩
      | _ => malfunction s stack frame .produceOutside
  | .exhaust =>
      match stack with
      | .consuming _ :: _ => ⟨s, stack, .returning .fail⟩
      | _ => malfunction s stack frame .exhaustOutside
  | .halt h => halt s stack h
  | .fault f => fault s stack frame ⟨f, []⟩

/-- Executes the next instruction of a frame. -/
def advance (s : Store) (stack : List Context) (frame : Nat) (label : Ir.Label)
    (rest : List Ir.Instruction) : Machine :=
  match s.frames[frame]?, rest with
  | none, _ => ⟨s, stack, .returning .fail⟩
  | some f, [] => malfunction s stack frame (.fellOffEnd label f.place)
  | some f, i :: rest =>
      let (effect, f, s) := s.execute f i
      perform (s.setFrame frame f) stack frame label rest f.environment effect

/-- An outcome reaches a context. What a co-expression ends with is its last value. -/
def returnTo (s : Store) (o : Outcome) (stack : List Context) : Context → Machine
  | .awaiting frame label rest d => deliver s stack frame label rest d o
  | .recovering _ => ⟨s, stack, .returning o⟩
  | .bare => ⟨s, stack, .returning o⟩
  | .consuming id =>
      ⟨s.endProducer id, stack, .returning (.ofParts (o.value?.map s.deref) none)⟩

/-- A fault reaches a context. -/
def raiseTo (s : Store) (r : Raised) (stack : List Context) : Context → Machine
  | .awaiting frame _ _ _ => fault s stack frame r
  | .recovering frame => leave s stack frame r
  | .bare => ⟨s, stack, .raising r⟩
  | .consuming id => ⟨s.endProducer id, stack, .raising (r.leave (Store.producerEntry id))⟩

/-- Nothing is left to do: there is no context for what the control carries, or the machine has
been stopped. -/
def isFinished : Machine → Bool
  | ⟨_, _, .halted _⟩ => true
  | ⟨_, _, .aborted _⟩ => true
  | ⟨_, [], .returning _⟩ => true
  | ⟨_, [], .raising _⟩ => true
  | _ => false

/-- One step. A finished state stays as it is. -/
def step : Machine → Machine
  | ⟨s, stack, .running frame label rest⟩ => advance s stack frame label rest
  | ⟨s, c :: stack, .returning o⟩ => returnTo s o stack c
  | ⟨s, c :: stack, .raising r⟩ => raiseTo s r stack c
  | m => m

/-- Steps until the state is finished, but at most `fuel` of them. -/
def run : Nat → Machine → Machine
  | 0, m => m
  | fuel + 1, m => if m.isFinished then m else run fuel m.step

theorem step_of_isFinished {m : Machine} (h : m.isFinished = true) : m.step = m := by
  obtain ⟨s, stack, control⟩ := m
  cases control <;> cases stack <;> simp_all [isFinished, step]

theorem run_of_isFinished {m : Machine} (h : m.isFinished = true) (fuel : Nat) :
    m.run fuel = m := by
  cases fuel <;> simp [run, h]

/-- A run can be cut in two. -/
theorem run_add (m : Machine) (a b : Nat) : m.run (a + b) = (m.run a).run b := by
  induction a generalizing m with
  | zero => simp [run]
  | succ a ih =>
      rw [Nat.succ_add]
      by_cases h : m.isFinished = true
      · simp [run, h, run_of_isFinished h]
      · simp [run, h, ih]

/-! ## Results -/

/-- Why a run has no outcome. -/
inductive Stop where
  | raised (r : Raised)
  | halted (h : Halt)

/-- The result of a finished state; a state that is not finished has not come to an end. -/
def result (m : Machine) : Except Stop Outcome :=
  match m with
  | ⟨_, [], .returning o⟩ => .ok o
  | ⟨_, [], .raising r⟩ => .error (.raised r)
  | ⟨_, _, .halted h⟩ => .error (.halted h)
  | ⟨_, _, .aborted _⟩ => .error (.halted .overflow)
  | _ => .error (.halted .blocked)

/-- The number of steps after which a run is given up. -/
def stepLimit : Nat := 0x1000000000000000

/-- Runs to the end. -/
def finish (m : Machine) : Except Stop Outcome × Store :=
  let m := m.run stepLimit
  (m.result, m.store)

/-- Runs a frame from a chunk, without recovery and without a trace. -/
def bareRun (s : Store) (frame : Nat) (label : Ir.Label) : Machine :=
  jump s [.bare] frame label

end Machine

end Defs

end GoalDirected
