import GoalDirected.Primitive.Operator

/-!
# The library

**Input.** Arguments of a call, dereferenced; a missing argument is nil.

**Results.** `Store.builtin` is what each procedure of the library does.
-/

namespace GoalDirected

section Defs

/-- The largest list and the largest text, in bytes, that the library makes. -/
def sizeLimit : Nat := 0x1000000

/-- The largest capacity of a channel. -/
def capacityLimit : Nat := 0x1fffffffffffffff

/-- A text repeated. -/
def repeatText (t : String) (n : Nat) : String :=
  n.fold (fun _ _ acc => acc ++ t) ""

namespace Store

/-- A size given as an argument: nil is zero, negative numbers are zero. -/
def sizeArgument (s : Store) : Value → Except Fault Nat
  | .nil => .ok 0
  | v => (s.toNumber v).map Number.count

/-- Writes texts of values, and gives the last value. -/
def writeAll (s : Store) (args : List Value) (ending : String) : Reply × Store :=
  let written := args.foldl (fun acc v => acc ++ s.text v) s.output
  (.outcome (.result (args.getLast?.getD .nil)), { s with output := written ++ ending })

def makeChannel (s : Store) (capacity : Value) : Reply × Store :=
  match s.sizeArgument capacity with
  | .error f => (.fault f, s)
  | .ok n =>
      if capacityLimit < n then (.halt .impossibleQueue, s)
      else
        let (channel, s) := s.newChannel n
        (.outcome (.result channel), s)

def sendTo (s : Store) (channel v : Value) : Reply × Store :=
  match channel with
  | .channel id =>
      match (s.channel? id).map (Channel.send · v) with
      | some (.done c) => (.outcome (.result v), s.setChannel id c)
      | some .waits => (.halt .blocked, s)
      | _ => (.fault (.exception .sendOnClosed []), s)
  | other => (.fault (.exception .channelExpected [other]), s)

/-- Closes a channel, or abandons a co-expression. One that runs would wait for itself. -/
def closeValue (s : Store) (v : Value) : Reply × Store :=
  match v with
  | .channel id =>
      match s.channel? id with
      | some c => (.outcome (.result v), s.setChannel id c.close)
      | none => (.outcome (.result v), s)
  | .coexpression id =>
      match s.producer id with
      | .running => (.halt .blocked, s)
      | _ => (.outcome (.result v), s.abandon id)
  | other => (.fault (.exception .channelExpected [other]), s)

def makeList (s : Store) (size fill : Value) : Reply × Store :=
  match s.sizeArgument size with
  | .error f => (.fault f, s)
  | .ok n =>
      if sizeLimit < n then (.fault (.exception .listTooLarge [size]), s)
      else
        let (list, s) := s.newList (Array.replicate n fill)
        (.outcome (.result list), s)

def root (x : Float) : Except Fault Outcome :=
  if x < 0.0 then .error (.exception .negativeRoot [.number x])
  else .ok (.result (.number x.sqrt))

def repeated (t : String) (n : Int) : Except Fault Outcome :=
  if n < 0 then .error (.exception .negativeRepeat [.number (Float.ofInt n)])
  else if t.utf8ByteSize * n.toNat ≤ sizeLimit then
    .ok (.result (.text (if t.isEmpty then "" else repeatText t n.toNat)))
  else .error (.exception .textTooLarge [.number (Float.ofInt n)])

/-- Calls a procedure of the library. -/
def builtin (s : Store) (b : Builtin) (args : List Value) : Reply × Store :=
  let first := args.getD 0 .nil
  let second := args.getD 1 .nil
  match b with
  | .write => s.writeAll args "\n"
  | .writes => s.writeAll args ""
  | .channel => s.makeChannel first
  | .send => s.sendTo first second
  | .receive =>
      match first with
      | .channel id => s.receiveFrom id
      | other => (.fault (.exception .channelExpected [other]), s)
  | .close => s.closeValue first
  | .throw => (.fault (.exception (.thrown first (s.text first)) (args.drop 1)), s)
  | .exit =>
      match first with
      | .nil => (.halt (.exit 0), s)
      | v =>
          match s.toNumber v with
          | .ok x => (.halt (.exit x.toInt32.toInt), s)
          | .error f => (.fault f, s)
  | .list => s.makeList first second
  | .abs => (.ofExcept ((s.toNumber first).map fun x => .result (.number x.abs)), s)
  | .sqrt => (.ofExcept ((s.toNumber first).bind root), s)
  | .string => (.ofExcept ((s.toText first).map fun t => .result (.text t)), s)
  | .number =>
      match s.toNumber first with
      | .ok x => (.outcome (.result (.number x)), s)
      | .error _ => (.outcome .fail, s)
  | .max => (.ofExcept ((s.numbers first second).map fun (x, y) =>
      .result (.number (Number.larger x y))), s)
  | .min => (.ofExcept ((s.numbers first second).map fun (x, y) =>
      .result (.number (Number.smaller x y))), s)
  | .repl =>
      (.ofExcept (do
        let t ← s.toText first
        let x ← s.toNumber second
        repeated t (Number.truncated x)), s)

end Store

end Defs

end GoalDirected
