import GoalDirected.Machine.Producer
import GoalDirected.Primitive.Library
import GoalDirected.Primitive.Select

/-!
# Execution of instructions

**Input.** A frame and one instruction of its procedure.

**Algorithm.** An instruction changes the frame and the store, and asks the machine for what remains:
to go on, to jump, to end the activation, to run something else first, or to raise a fault.

**Results.** `Store.execute` is one instruction; it never looks at another activation.
-/

namespace GoalDirected

section Defs

/-- What an instruction asks for. -/
inductive Effect where
  /-- Go on with the next instruction. -/
  | next
  | goto (label : Ir.Label)
  /-- The instruction has failed: jump, or fail the activation. -/
  | failed (onFail : Option Ir.Label)
  /-- End with a value; with a label the activation can be resumed there. -/
  | succeed (v : Value) (resume : Option Ir.Label)
  | call (d : Ir.Destination) (callee : Value) (args : List Value) (names : List String)
  | operator (d : Ir.Destination) (op : String) (args : List Value)
  | resume (d : Ir.Destination) (k : Option Continuation)
  /-- Hand a value to the consumer, then go on at a chunk. -/
  | produce (v : Value) (label : Ir.Label)
  | exhaust
  | halt (h : Halt)
  | fault (f : Fault)

/-- What an instruction asks for, with the frame and the store after it. -/
abbrev Executed := Effect × Frame × Store

/-- The value of a constant. -/
def Ir.Literal.value : Ir.Literal → Value
  | .nil => .nil
  | .number x => .number x
  | .text t => .text t

namespace Store

/-- A change of the frame alone, after which the next instruction follows. -/
def changed (s : Store) (f : Frame) : Except Malfunction Frame → Executed
  | .ok f => (.next, f, s)
  | .error m => (.fault (.malfunction m), f, s)

/-- The channel in a slot. -/
def channelOperand (s : Store) (f : Frame) (slot : Nat) : Except Fault Nat :=
  match f.value slot with
  | .error m => .error (.malfunction m)
  | .ok v =>
      match s.deref v with
      | .channel id => .ok id
      | other => .error (.exception .channelExpected [other])

/-- A case of a select with its operands. -/
def waitCase (s : Store) (f : Frame) : Ir.Case → Except Fault WaitCase
  | .send channel value _ =>
      match s.channelOperand f channel, f.value value with
      | .error e, _ => .error e
      | .ok _, .error m => .error (.malfunction m)
      | .ok id, .ok v => .ok (.send id (s.deref v))
  | .receive channel _ _ => (s.channelOperand f channel).map .receive
  | .default _ => .ok .default

def waitCases (s : Store) (f : Frame) : List Ir.Case → Except Fault (List WaitCase)
  | [] => .ok []
  | c :: rest =>
      match s.waitCase f c with
      | .error e => .error e
      | .ok w => (s.waitCases f rest).map (w :: ·)

/-- Stores the value that a select has received: in the place that its slot holds, or in the slot. -/
def storeReceived (s : Store) (f : Frame) (slot : Nat) (v : Value) (body : Ir.Label) : Executed :=
  match f.value slot with
  | .ok (.ref cell) => (.goto body, f, s.write cell v)
  | _ =>
      match f.set slot v with
      | .ok f => (.goto body, f, s)
      | .error m => (.fault (.malfunction m), f, s)

def executeSelect (s : Store) (f : Frame) (cases : List Ir.Case) (onFail : Option Ir.Label) :
    Executed :=
  match s.waitCases f cases with
  | .error e => (.fault e, f, s)
  | .ok waits =>
      match s.choose waits with
      | (.fail, s) => (.failed onFail, f, s)
      | (.blocked, s) => (.halt .blocked, f, s)
      | (.chosen i received, s) =>
          match cases[i]?, received with
          | some (.receive _ slot body), some v => s.storeReceived f slot v body
          | some c, _ => (.goto c.body, f, s)
          | none, _ => (.failed onFail, f, s)

/-- Selects a field of the record in a slot. -/
def executeField (s : Store) (f : Frame) (target record : Nat) (field : String)
    (assignable : Bool) (onFail : Option Ir.Label) : Executed :=
  match f.value record with
  | .error m => (.fault (.malfunction m), f, s)
  | .ok v =>
      match s.deref v with
      | .record id =>
          match (s.record id).fields.get? field with
          | some cell =>
              s.changed f (f.set target (if assignable then .ref cell else s.read cell))
          | none => (.failed onFail, f, s)
      | other => (.fault (.exception .recordExpected [other]), f, s)

/-- Executes one instruction. -/
def execute (s : Store) (f : Frame) : Ir.Instruction → Executed
  | .literal target value => s.changed f (f.set target value.value)
  | .name target name => s.changed f ((s.lookupName f name).bind (f.set target))
  | .dynamic target name assignable =>
      match s.resolve f.environment name assignable with
      | .ok (v, s) => s.changed f (f.set target v)
      | .error m => (.fault (.malfunction m), f, s)
  | .field target record field assignable onFail =>
      s.executeField f target record field assignable onFail
  | .call d callee args names =>
      match f.value callee, f.values args with
      | .error m, _ => (.fault (.malfunction m), f, s)
      | .ok _, .error m => (.fault (.malfunction m), f, s)
      | .ok callee, .ok args => (.call d callee (args.map s.deref) names, f, s)
  | .operator d op args =>
      match f.values args with
      | .ok args => (.operator d op args, f, s)
      | .error m => (.fault (.malfunction m), f, s)
  | .resume d source =>
      match f.takeNext source with
      | .ok (k, f) => (.resume d k, f, s)
      | .error m => (.fault (.malfunction m), f, s)
  | .move target source => s.changed f ((f.value source).bind (f.set target))
  | .deref target source =>
      s.changed f ((f.value source).bind fun v => f.set target (s.deref v))
  | .moveLabel target label => s.changed f (f.setLabel target label)
  | .goto target => (.goto target, f, s)
  | .indirect source targets =>
      match f.label source with
      | .error m => (.fault (.malfunction m), f, s)
      | .ok label =>
          if targets.contains label then (.goto label, f, s)
          else (.fault (.malfunction (.jumpOutside label f.place)), f, s)
  | .succeed none resume => (.succeed .nil resume, f, s)
  | .succeed (some slot) resume =>
      match f.value slot with
      | .ok v => (.succeed (s.deref v) resume, f, s)
      | .error m => (.fault (.malfunction m), f, s)
  | .fail => (.failed none, f, s)
  | .enter scope names dynamics =>
      let (f, s) := s.enterScope f scope names dynamics
      (.next, f, s)
  | .leave scope =>
      match f.leaveScope scope with
      | (none, f) => (.next, f, s)
      | (some m, f) => (.fault (.malfunction m), f, s)
  | .create target entry =>
      match s.createProducer f entry with
      | .ok (v, s) => s.changed f (f.set target v)
      | .error e => (.fault e, f, s)
  | .produce value resume =>
      match f.value value with
      | .ok v => (.produce (s.deref v) resume, f, s)
      | .error m => (.fault (.malfunction m), f, s)
  | .exhaust => (.exhaust, f, s)
  | .select cases onFail => s.executeSelect f cases onFail
  | .recover handler =>
      match f.value handler with
      | .ok v => (.next, { f with recovery := some (s.deref v) }, s)
      | .error m => (.fault (.malfunction m), f, s)
  | .coordinate coord => (.next, { f with coord := coord }, s)

end Store

end Defs

end GoalDirected
