import GoalDirected.Store.Basic

/-!
# Dynamic variables

**Input.** An environment is the list of its nodes, innermost first; the last one is the root.

**Algorithm.** A dynamic variable belongs to the nearest node that declares it. Reading it needs a
cell there. Taking it as a place makes the cell if there is none yet, at the declaring node, or at
the innermost node if no node declares it.

**Results.** `Store.lookup`, `Store.resolve` and the two ways to extend an environment.
-/

namespace GoalDirected
namespace Store

section Defs

def node (s : Store) (id : Nat) : EnvironmentNode :=
  s.nodes.getD id ⟨0, []⟩

/-- The task that an environment belongs to. -/
def taskOf (s : Store) (e : Environment) : Nat :=
  match e with
  | [] => 0
  | id :: _ => (s.node id).task

def newNode (s : Store) (n : EnvironmentNode) : Nat × Store :=
  (s.nodes.size, { s with nodes := s.nodes.push n })

/-- The environment of a new task. -/
def taskEnvironment (s : Store) (outer : Environment) (task : Nat) : Environment × Store :=
  let (id, s) := s.newNode ⟨task, []⟩
  (id :: outer, s)

/-- An environment that declares the given dynamic variables, none of them assigned. -/
def nestedEnvironment (s : Store) (outer : Environment) (names : List String) :
    Environment × Store :=
  let (id, s) := s.newNode ⟨s.taskOf outer, names.map fun n => (n, none)⟩
  (id :: outer, s)

/-- The nearest node that declares a name, with the cell of the variable if it has one. -/
def declaring? (s : Store) (name : String) : Environment → Option (Nat × Option CellId)
  | [] => none
  | id :: outer =>
      match (s.node id).vars.lookup name with
      | some slot => some (id, slot)
      | none => s.declaring? name outer

/-- The variables of a node after one of them has got a cell. -/
def bindVar : List (String × Option CellId) → String → CellId → List (String × Option CellId)
  | [], name, cell => [(name, some cell)]
  | (n, c) :: rest, name, cell =>
      if n = name then (n, some cell) :: rest else (n, c) :: bindVar rest name cell

/-- Gives a dynamic variable a new cell at a node. -/
def declareAt (s : Store) (id : Nat) (name : String) (v : Value) : CellId × Store :=
  let (cell, s) := s.allocate v
  let n := s.node id
  (cell, { s with nodes := s.nodes.setIfInBounds id { n with vars := bindVar n.vars name cell } })

/-- Gives a dynamic variable a new cell at the innermost node. -/
def declareDynamic (s : Store) (e : Environment) (name : String) (v : Value) : CellId × Store :=
  s.declareAt (e.headD 0) name v

/-- The cell of a dynamic variable, if the nearest node that declares it has one. -/
def lookup (s : Store) (e : Environment) (name : String) : Option CellId :=
  match s.declaring? name e with
  | some (_, slot) => slot
  | none => none

/-- A dynamic variable as a value, or as a place when `assignable` holds. -/
def resolve (s : Store) (e : Environment) (name : String) (assignable : Bool) :
    Except Malfunction (Value × Store) :=
  match s.declaring? name e, assignable with
  | some (_, some cell), true => .ok (.ref cell, s)
  | some (_, some cell), false => .ok (s.read cell, s)
  | some (id, none), true =>
      let (cell, s) := s.declareAt id name .nil
      .ok (.ref cell, s)
  | some (_, none), false => .error (.unassignedDynamic name)
  | none, true =>
      let (cell, s) := s.declareDynamic e name .nil
      .ok (.ref cell, s)
  | none, false => .error (.undeclaredDynamic name)

end Defs

end Store
end GoalDirected
