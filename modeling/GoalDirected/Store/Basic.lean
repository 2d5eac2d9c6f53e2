import GoalDirected.Number
import GoalDirected.Store.Channel
import GoalDirected.Store.Frame
import GoalDirected.Text.Quoted

/-!
# The store

**Results.** `Store` holds everything that a running program can change: cells, lists, records,
callables, environment nodes, namespaces, channels, co-expressions, frames, the rotation of selects
and the text written so far. Tables only grow, so a number once given out keeps its meaning.
-/

namespace GoalDirected

section Defs

/-- A record: its type's name and its fields in the order of their declaration. -/
structure Record where
  name : String
  fields : Bindings

/-- A node of the environment tree. A variable without a cell is declared and not yet assigned. -/
structure EnvironmentNode where
  task : Nat
  vars : List (String × Option CellId) := []

/-- A table of global names in the order of their declaration. -/
structure Namespace where
  name : String
  entries : Bindings := []

/-- The state of a co-expression. -/
inductive Producer where
  /-- Never activated: starts with its frame at a chunk. -/
  | fresh (frame : Nat) (entry : Ir.Label)
  /-- Has handed over a value: goes on at a chunk. -/
  | waiting (frame : Nat) (label : Ir.Label)
  | running
  | ended

structure Store where
  cells : Array Value := #[]
  lists : Array (Array CellId) := #[]
  records : Array Record := #[]
  callables : Array Callable := #[]
  nodes : Array EnvironmentNode := #[]
  namespaces : Array Namespace := #[]
  channels : Array Channel := #[]
  /-- The co-expression with number `n + 1` stands at index `n`. -/
  producers : Array Producer := #[]
  frames : Array Frame := #[]
  /-- The number of places that co-expressions take. -/
  active : Nat := 0
  /-- The largest number of places. -/
  limit : Nat := 1
  /-- A co-expression that ends gives its place back at once. The scheduler decides: the task of one that
  is slower does so later, by `release`. -/
  prompt : Bool := true
  /-- The number of selects made so far. -/
  rotation : Nat := 0
  output : String := ""

namespace Store

/-! ## Cells -/

def read (s : Store) (cell : CellId) : Value :=
  s.cells.getD cell .nil

def write (s : Store) (cell : CellId) (v : Value) : Store :=
  { s with cells := s.cells.setIfInBounds cell v }

/-- A new cell. -/
def allocate (s : Store) (v : Value) : CellId × Store :=
  (s.cells.size, { s with cells := s.cells.push v })

/-- New cells for several values, in order. -/
def allocateAll (s : Store) : List Value → List CellId × Store
  | [] => ([], s)
  | v :: rest =>
      let (cell, s) := s.allocate v
      let (cells, s) := s.allocateAll rest
      (cell :: cells, s)

/-- Follows references, at most `fuel` of them. -/
def derefWithin (s : Store) : Nat → Value → Value
  | 0, v => v
  | fuel + 1, .ref cell => s.derefWithin fuel (s.read cell)
  | _, v => v

/-- The value behind any number of references. A chain of references without a cycle has no more
links than there are cells. -/
def deref (s : Store) (v : Value) : Value :=
  s.derefWithin (s.cells.size + 1) v

@[simp] theorem size_write (s : Store) (cell : CellId) (v : Value) :
    (s.write cell v).cells.size = s.cells.size := by
  simp [write]

theorem read_write_self (s : Store) {cell : Nat} (v : Value) (h : cell < s.cells.size) :
    (s.write cell v).read cell = v := by
  simp [read, write, Array.getD, h]

theorem read_write_of_ne (s : Store) {cell other : Nat} (v : Value) (h : other ≠ cell) :
    (s.write cell v).read other = s.read other := by
  simp only [read, write, Array.getD_eq_getD_getElem?]
  rw [Array.getElem?_setIfInBounds_ne (Ne.symm h)]

@[simp] theorem size_allocate (s : Store) (v : Value) :
    (s.allocate v).2.cells.size = s.cells.size + 1 := by
  simp [allocate]

@[simp] theorem read_allocate_self (s : Store) (v : Value) :
    (s.allocate v).2.read (s.allocate v).1 = v := by
  simp [read, allocate, Array.getD]

theorem read_allocate_of_lt (s : Store) {cell : Nat} (v : Value) (h : cell < s.cells.size) :
    (s.allocate v).2.read cell = s.read cell := by
  have h' : cell < s.cells.size + 1 := by omega
  simp [read, allocate, Array.getD, h, h', Array.getElem_push]

/-! ## Lists and records -/

/-- A new list with its own cells. The cells of a list are consecutive. -/
def newList (s : Store) (values : Array Value) : Value × Store :=
  let first := s.cells.size
  (.list s.lists.size,
    { s with
      cells := s.cells ++ values
      lists := s.lists.push (Array.range' first values.size) })

/-- The cells of a list. -/
def listCells (s : Store) (id : Nat) : Array CellId :=
  s.lists.getD id #[]

def listValues (s : Store) (id : Nat) : Array Value :=
  (s.listCells id).map s.read

/-- Puts a value in a new cell at the end of a list. -/
def push (s : Store) (id : Nat) (v : Value) : Store :=
  let (cell, s) := s.allocate v
  { s with lists := s.lists.setIfInBounds id ((s.listCells id).push cell) }

/-- A new record with its own cells. -/
def newRecord (s : Store) (name : String) (fields : List (String × Value)) : Value × Store :=
  let (cells, s) := s.allocateAll (fields.map (·.2))
  (.record s.records.size,
    { s with records := s.records.push ⟨name, (fields.map (·.1)).zip cells⟩ })

def record (s : Store) (id : Nat) : Record :=
  s.records.getD id ⟨"", []⟩

/-! ## Callables and channels -/

def newCallable (s : Store) (c : Callable) : Value × Store :=
  (.procedure s.callables.size, { s with callables := s.callables.push c })

/-- A new open channel; channels are numbered from one. -/
def newChannel (s : Store) (capacity : Nat) : Value × Store :=
  (.channel (s.channels.size + 1), { s with channels := s.channels.push (.new capacity) })

def channel? (s : Store) (id : Nat) : Option Channel :=
  s.channels[id - 1]?

def setChannel (s : Store) (id : Nat) (c : Channel) : Store :=
  { s with channels := s.channels.setIfInBounds (id - 1) c }

/-! ## Co-expressions and frames -/

/-- The state of a co-expression; a number that has not been given out stands for an ended one. -/
def producer (s : Store) : Nat → Producer
  | 0 => .ended
  | n + 1 => s.producers.getD n .ended

def setProducer (s : Store) (id : Nat) (p : Producer) : Store :=
  match id with
  | 0 => s
  | n + 1 => { s with producers := s.producers.setIfInBounds n p }

/-- The task of a co-expression that has ended is over, and gives its place back. -/
def release (s : Store) : Store :=
  { s with active := s.active - 1 }

/-- Ends a co-expression. Its place is given back now if its task is prompt, and by `release` if not. -/
def endProducer (s : Store) (id : Nat) : Store :=
  { s.setProducer id .ended with active := if s.prompt then s.active - 1 else s.active }

/-- Abandons a co-expression: one that is at rest ends, without running any further. This is what becomes
of it when it is closed, and when the last handle to it is dropped. -/
def abandon (s : Store) (id : Nat) : Store :=
  match s.producer id with
  | .fresh _ _ => s.endProducer id
  | .waiting _ _ => s.endProducer id
  | _ => s

def newFrame (s : Store) (f : Frame) : Nat × Store :=
  (s.frames.size, { s with frames := s.frames.push f })

def setFrame (s : Store) (id : Nat) (f : Frame) : Store :=
  { s with frames := s.frames.setIfInBounds id f }

/-! ## Texts of values -/

/-- The text of a value, through at most `fuel` references. -/
def textWithin (s : Store) : Nat → Value → String
  | _, .nil => "nil"
  | _, .number x => Number.text x
  | _, .text t => t
  | _, .list id => "list(" ++ toString (s.listCells id).size ++ ")"
  | _, .record id => "record " ++ (s.record id).name
  | _, .procedure id => "procedure " ++ (s.callables[id]?.map Callable.name).getD ""
  | _, .coexpression id => "co-expression #" ++ toString id
  | _, .channel id => "channel #" ++ toString id
  | 0, .ref _ => ""
  | fuel + 1, .ref cell => s.textWithin fuel (s.read cell)

/-- The text of a value, as written to the output. -/
def text (s : Store) (v : Value) : String :=
  s.textWithin (s.cells.size + 1) v

/-- The printable image of a value, if it has no more than `fuel` levels. -/
def imageWithin (s : Store) : Nat → Value → Option String
  | _, .text t => some (Text.quote t)
  | 0, .list _ => none
  | 0, .ref _ => none
  | fuel + 1, .list id =>
      ((s.listValues id).toList.mapM (s.imageWithin fuel)).map fun images =>
        "[" ++ ", ".intercalate images ++ "]"
  | fuel + 1, .ref cell =>
      (s.imageWithin fuel (s.read cell)).map fun image => "(variable = " ++ image ++ ")"
  | _, v => some (s.textWithin 0 v)

/-- The printable image of a value: texts are quoted and lists are shown with their elements. A value in
which something holds itself has none; every other one has fewer levels than there are cells. -/
def image? (s : Store) (v : Value) : Option String :=
  s.imageWithin (s.cells.size + 1) v

/-- The printable image of a value that has one. -/
def image (s : Store) (v : Value) : String :=
  (s.image? v).getD ""

/-- All of the values have images. -/
def areShown (s : Store) (values : List Value) : Bool :=
  values.all fun v => (s.image? v).isSome

/-! ## Coercions -/

/-- The number that a value stands for; a text is read as one. -/
def toNumber (s : Store) (v : Value) : Except Fault Float :=
  match s.deref v with
  | .number x => .ok x
  | .text t =>
      match Number.ofText? t with
      | some x => .ok x
      | none => .error (.exception .numberExpected [.text t])
  | other => .error (.exception .numberExpected [other])

/-- The text that a value stands for; a number is written as one. -/
def toText (s : Store) (v : Value) : Except Fault String :=
  match s.deref v with
  | .text t => .ok t
  | .number x => .ok (Number.text x)
  | other => .error (.exception .textExpected [other])

/-! ## Reports

A value without an image cannot be shown: `Machine.leave` and the command line look first. -/

/-- The entry of a frame in a traceback: the procedure, its arguments, the place in the text of the program,
and what has been found offending. -/
def traceEntry (s : Store) (f : Frame) : TraceEntry where
  procedure := f.place
  args := f.args.map s.image
  coord := f.coord
  offender := f.offender.map s.image

/-- A fault in one line. -/
def display (s : Store) : Fault → String
  | .exception cause [] => cause.message
  | .exception cause offending =>
      cause.message ++ " (offending: " ++ ", ".intercalate (offending.map s.image) ++ ")"
  | .malfunction reason => "malfunction: " ++ reason.message

/-- The first lines of a report: the message and the offending values. -/
def reportHead (s : Store) : Fault → List String
  | .exception cause offending =>
      ("Run-time error: " ++ cause.message) :: offending.map fun v => "Offending value: " ++ s.image v
  | .malfunction reason => ["Internal malfunction: " ++ reason.message]

/-- The traceback of a report, with at most `limit` entries. -/
def reportTrace (trace : List TraceEntry) (limit : Nat) : List String :=
  if trace.isEmpty then []
  else
    let more :=
      if limit < trace.length then ["  ... " ++ toString (trace.length - limit) ++ " more"] else []
    "Traceback:" :: (trace.take limit).map (fun t => "  " ++ t.line) ++ more

/-- The report on a fault that nothing has caught. -/
def report (s : Store) (r : Raised) (limit : Nat) : String :=
  "\n".intercalate (s.reportHead r.fault ++ reportTrace r.trace limit)

end Store

end Defs

end GoalDirected
