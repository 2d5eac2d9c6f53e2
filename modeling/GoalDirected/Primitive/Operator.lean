import GoalDirected.Store.Basic

/-!
# Operators

**Input.** An operator is known by its name and its arity.

**Algorithm.** The table lists, for each operator, the argument places that see a reference as it
stands; at all other places references are followed first. Comparisons succeed with their right
operand or fail, subscripts count from one or, if negative, from the end, and generators give a value
with a continuation.

**Results.** `Operator.lookup?` finds an operator by the key made of its arity and its name, and
`Store.invoke` applies one.
-/

namespace GoalDirected

section Defs

/-! ## The table -/

/-- What an operator does, apart from its name. -/
inductive Operation where
  | add | subtract | multiply | divide | remainder | power | negate | affirm
  | less | lessEqual | greater | greaterEqual | equal | unequal
  | concatenate | sameText | otherText
  | assign | swap | subscript | slice | same | notSame
  | size | isNil | notNil | elements | range | activate
deriving DecidableEq

structure Operator where
  name : String
  arity : Nat
  /-- The argument places that are not dereferenced. -/
  raw : List Nat
  operation : Operation

namespace Operator

/-- All operators. -/
def table : List Operator :=
  [⟨"+", 2, [], .add⟩, ⟨"-", 2, [], .subtract⟩, ⟨"*", 2, [], .multiply⟩, ⟨"/", 2, [], .divide⟩,
    ⟨"%", 2, [], .remainder⟩, ⟨"^", 2, [], .power⟩, ⟨"-", 1, [], .negate⟩, ⟨"+", 1, [], .affirm⟩,
    ⟨"<", 2, [], .less⟩, ⟨"<=", 2, [], .lessEqual⟩, ⟨">", 2, [], .greater⟩,
    ⟨">=", 2, [], .greaterEqual⟩, ⟨"=", 2, [], .equal⟩, ⟨"~=", 2, [], .unequal⟩,
    ⟨"||", 2, [], .concatenate⟩, ⟨"==", 2, [], .sameText⟩, ⟨"~==", 2, [], .otherText⟩,
    ⟨":=", 2, [0], .assign⟩, ⟨":=:", 2, [0, 1], .swap⟩, ⟨"[]", 2, [0], .subscript⟩,
    ⟨"[:]", 3, [0], .slice⟩, ⟨"===", 2, [0], .same⟩, ⟨"~===", 2, [0], .notSame⟩,
    ⟨"*", 1, [], .size⟩, ⟨"/", 1, [], .isNil⟩, ⟨"\\", 1, [], .notNil⟩, ⟨"!", 1, [], .elements⟩,
    ⟨"to", 2, [], .range⟩, ⟨"@", 1, [], .activate⟩]

/-- The arity in decimal digits, followed by the name. -/
def keyOf (name : String) (arity : Nat) : String :=
  toString arity ++ name

def key (op : Operator) : String :=
  keyOf op.name op.arity

/-- The operator with a given name and arity, found by its key. -/
def lookup? (name : String) (arity : Nat) : Option Operator :=
  table.find? fun op => op.key == keyOf name arity

end Operator

/-! ## Positions -/

/-- The index of an element by its subscript: from one on, or from the end if negative. -/
def elementIndex (i : Int) (length : Nat) : Option Nat :=
  let k := if 0 < i then i - 1 else length + i
  if i ≠ 0 ∧ 0 ≤ k ∧ k < length then some k.toNat else none

/-- The position between elements that a bound stands for: from one to one past the end, where zero
and negative bounds count from the end. -/
def boundPosition (p : Int) (length : Nat) : Option Nat :=
  let k := if 0 < p then p else length + 1 + p
  if 1 ≤ k ∧ k ≤ length + 1 then some k.toNat else none

/-- The range of indices between two bounds, in either order. -/
def sliceRange (i j : Int) (length : Nat) : Option (Nat × Nat) :=
  match boundPosition i length, boundPosition j length with
  | some a, some b => some (min a b - 1, max a b - 1)
  | _, _ => none

/-! ## Answers -/

/-- Why a computation cannot go on. -/
inductive Halt where
  /-- It waits for something that nobody can do any more. -/
  | blocked
  /-- It asked for a queue that cannot be made. -/
  | impossibleQueue
  /-- The process ends: the program has ended itself, or has been aborted. -/
  | exit (code : Int)

/-- The code of an aborted process. -/
def Halt.overflowCode : Nat := 134

/-- A recursion that never ends has used up the stack, and the process is aborted. -/
def Halt.overflow : Halt :=
  .exit overflowCode

/-- What a procedure of the library answers. -/
inductive Reply where
  | outcome (o : Outcome)
  | fault (f : Fault)
  | halt (h : Halt)

/-- An outcome, or the fault that kept it from being made. -/
def Reply.ofExcept : Except Fault Outcome → Reply
  | .ok o => .outcome o
  | .error f => .fault f

/-- What an operator answers: a reply, or that it needs the next value of a co-expression. -/
inductive Answer where
  | reply (r : Reply)
  | activate (coexpression : Nat)

namespace Answer

def outcome (o : Outcome) : Answer :=
  .reply (.outcome o)

def fault (f : Fault) : Answer :=
  .reply (.fault f)

def ofExcept (e : Except Fault Outcome) : Answer :=
  .reply (.ofExcept e)

end Answer

namespace Store

/-! ## Generators -/

/-- The next outcome of a continuation that is not an activation. -/
def elementsFrom (s : Store) (list position : Nat) : Outcome :=
  match (s.listCells list)[position]? with
  | some cell => .suspended (.ref cell) (.elements list (position + 1))
  | none => .fail

end Store

def valuesFrom : List Value → Outcome
  | [] => .fail
  | v :: rest => .suspended v (.values rest)

def countFrom (low high : Float) : Outcome :=
  if high < low then .fail else .suspended (.number low) (.count (low + 1.0) high)

/-- The characters of a text as texts. -/
def characters (t : String) : List Value :=
  t.toList.map fun c => .text (.singleton c)

namespace Store

/-! ## Operations -/

def numbers (s : Store) (a b : Value) : Except Fault (Float × Float) := do
  let x ← s.toNumber a
  let y ← s.toNumber b
  return (x, y)

/-- A number made of two. -/
def arithmetic (s : Store) (f : Float → Float → Float) (a b : Value) : Except Fault Outcome := do
  let (x, y) ← s.numbers a b
  return .result (.number (f x y))

/-- A number made of two, the second of which must not be zero. -/
def division (s : Store) (f : Float → Float → Float) (a b : Value) : Except Fault Outcome := do
  let (x, y) ← s.numbers a b
  if y == 0.0 then .error (.exception .divisionByZero [a, b])
  else return .result (.number (f x y))

/-- The right operand if the numbers compare as asked. -/
def comparison (s : Store) (holds : Float → Float → Bool) (a b : Value) :
    Except Fault Outcome := do
  let (x, y) ← s.numbers a b
  return if holds x y then .result (.number y) else .fail

/-- The right operand if the texts are equal, or if they are not. -/
def textComparison (s : Store) (equal : Bool) (a b : Value) : Except Fault Outcome := do
  let x ← s.toText a
  let y ← s.toText b
  return if (x == y) == equal then .result (.text y) else .fail

def concatenate (s : Store) (a b : Value) : Except Fault Outcome := do
  let x ← s.toText a
  let y ← s.toText b
  return .result (.text (x ++ y))

/-- The place of a cell, or failure if there is none. -/
def placeOrFail : Option CellId → Outcome
  | some cell => .result (.ref cell)
  | none => .fail

/-- The element of a list, a text or a record at a subscript; a field also by its name. -/
def subscript (s : Store) (v i : Value) : Except Fault Outcome :=
  match s.deref v with
  | .list id => do
      let cells := s.listCells id
      let x ← s.toNumber i
      return placeOrFail ((elementIndex (Number.truncated x) cells.size).bind fun k => cells[k]?)
  | .text t => do
      let items := characters t
      let x ← s.toNumber i
      return match (elementIndex (Number.truncated x) items.length).bind fun k => items[k]? with
        | some item => .result item
        | none => .fail
  | .record id =>
      let fields := (s.record id).fields
      match i with
      | .text name => .ok (placeOrFail (fields.get? name))
      | i => do
          let x ← s.toNumber i
          return placeOrFail
            ((elementIndex (Number.truncated x) fields.length).bind fun k =>
              (fields[k]?).map (·.2))
  | other => .error (.exception .notIndexable [other])

/-- The bounds of a slice of a sequence of given length. -/
def bounds (s : Store) (i j : Value) (length : Nat) : Except Fault (Option (Nat × Nat)) := do
  let (x, y) ← s.numbers i j
  return sliceRange (Number.truncated x) (Number.truncated y) length

/-- The elements of a list or the characters of a text between two positions, copied. -/
def slice (s : Store) (v i j : Value) : Except Fault (Outcome × Store) :=
  match s.deref v with
  | .list id => do
      let values := s.listValues id
      match ← s.bounds i j values.size with
      | some (low, high) =>
          let (list, s) := s.newList (values.extract low high)
          return (.result list, s)
      | none => return (.fail, s)
  | .text t => do
      let chars := t.toList
      match ← s.bounds i j chars.length with
      | some (low, high) => return (.result (.text (.ofList ((chars.take high).drop low))), s)
      | none => return (.fail, s)
  | other => .error (.exception .notSliceable [other])

def sizeOf (s : Store) : Value → Except Fault Outcome
  | .list id => .ok (.result (.number (Float.ofNat (s.listCells id).size)))
  | .text t => .ok (.result (.number (Float.ofNat t.length)))
  | .record id => .ok (.result (.number (Float.ofNat (s.record id).fields.length)))
  | other => .error (.exception .noSize [other])

/-- Generates the elements: places for lists and records, one-character texts for texts. -/
def elements (s : Store) : Value → Except Fault Outcome
  | .list id => .ok (s.elementsFrom id 0)
  | .record id => .ok (valuesFrom ((s.record id).fields.map fun f => .ref f.2))
  | .text t => .ok (valuesFrom (characters t))
  | other => .error (.exception .noElements [other])

/-- Takes a value out of a channel. -/
def receiveFrom (s : Store) (id : Nat) : Reply × Store :=
  match (s.channel? id).map Channel.receive with
  | some (.done (v, c)) => (.outcome (.result v), s.setChannel id c)
  | some .refused => (.outcome .fail, s)
  | some .waits => (.halt .blocked, s)
  | none => (.outcome .fail, s)

/-- Applies an operation to arguments that have been dereferenced where they should be. -/
def operate (s : Store) : Operation → List Value → Answer × Store
  | .add, [a, b] => (.ofExcept (s.arithmetic (· + ·) a b), s)
  | .subtract, [a, b] => (.ofExcept (s.arithmetic (· - ·) a b), s)
  | .multiply, [a, b] => (.ofExcept (s.arithmetic (· * ·) a b), s)
  | .divide, [a, b] => (.ofExcept (s.division (· / ·) a b), s)
  | .remainder, [a, b] => (.ofExcept (s.division Number.remainder a b), s)
  | .power, [a, b] => (.ofExcept (s.arithmetic Float.pow a b), s)
  | .negate, [a] => (.ofExcept ((s.toNumber a).map fun x => .result (.number (-x))), s)
  | .affirm, [a] => (.ofExcept ((s.toNumber a).map fun x => .result (.number x)), s)
  | .less, [a, b] => (.ofExcept (s.comparison (fun x y => x < y) a b), s)
  | .lessEqual, [a, b] => (.ofExcept (s.comparison (fun x y => x ≤ y) a b), s)
  | .greater, [a, b] => (.ofExcept (s.comparison (fun x y => y < x) a b), s)
  | .greaterEqual, [a, b] => (.ofExcept (s.comparison (fun x y => y ≤ x) a b), s)
  | .equal, [a, b] => (.ofExcept (s.comparison (· == ·) a b), s)
  | .unequal, [a, b] => (.ofExcept (s.comparison (· != ·) a b), s)
  | .concatenate, [a, b] => (.ofExcept (s.concatenate a b), s)
  | .sameText, [a, b] => (.ofExcept (s.textComparison true a b), s)
  | .otherText, [a, b] => (.ofExcept (s.textComparison false a b), s)
  | .assign, [a, b] =>
      match a with
      | .ref cell => (.outcome (.result a), s.write cell b)
      | other => (.fault (.exception .variableExpected [other]), s)
  | .swap, [a, b] =>
      match a, b with
      | .ref c, .ref d =>
          let old := s.read c
          (.outcome (.result a), (s.write c (s.read d)).write d old)
      | .ref _, other => (.fault (.exception .variableExpected [other]), s)
      | other, _ => (.fault (.exception .variableExpected [other]), s)
  | .subscript, [v, i] => (.ofExcept (s.subscript v i), s)
  | .slice, [v, i, j] =>
      match s.slice v i j with
      | .ok (o, s) => (.outcome o, s)
      | .error f => (.fault f, s)
  | .same, [a, b] => (.outcome (if (s.deref a).identical b then .result b else .fail), s)
  | .notSame, [a, b] => (.outcome (if (s.deref a).identical b then .fail else .result b), s)
  | .size, [a] => (.ofExcept (s.sizeOf a), s)
  | .isNil, [a] => (.outcome (if a.isNil then .result .nil else .fail), s)
  | .notNil, [a] => (.outcome (if a.isNil then .fail else .result a), s)
  | .elements, [a] => (.ofExcept (s.elements a), s)
  | .range, [a, b] => (.ofExcept ((s.numbers a b).map fun (x, y) => countFrom x y), s)
  | .activate, [a] =>
      match a with
      | .coexpression id => (.activate id, s)
      | .channel id =>
          let (r, s) := s.receiveFrom id
          (.reply r, s)
      | other => (.fault (.exception .coexpressionExpected [other]), s)
  | _, _ => (.outcome .fail, s)

/-- The arguments as an operator sees them: dereferenced, except at its raw places. -/
def operands (s : Store) (raw : List Nat) (args : List Value) : List Value :=
  args.mapIdx fun i v => if raw.contains i then v else s.deref v

/-- Applies an operator. An operator that is not in the table is a malfunction. -/
def invoke (s : Store) (name : String) (args : List Value) : Answer × Store :=
  match Operator.lookup? name args.length with
  | some op => s.operate op.operation (s.operands op.raw args)
  | none => (.fault (.malfunction (.noOperator name args.length)), s)

end Store

end Defs

end GoalDirected
