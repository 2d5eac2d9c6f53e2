import GoalDirected.Fault

/-!
# Order of initialization

**Input.** A list of items: global variables with an initializer, and procedures or globals without
one. Each item lists the names that it depends on.

**Algorithm.** A name stands for the first item of that name, and names of no item are passed over. The
status of a pending item comes from a walk along dependencies through pending items. If the walk
meets a pending initializer, or the item's own one, the item waits on a global; if it meets only
procedures, it waits on a procedure; otherwise it is ready. The first ready item comes next, or else
the first one that waits on a procedure; if all wait on globals, initializers form a cycle.

**Results.** `Schedule.order` is the order, or the items of the stuck remainder.
-/

namespace GoalDirected

section Defs

/-- Something to be put in order; `init` is what there is to run, if anything. -/
structure Item (α : Type) where
  name : String
  init : Option α
  deps : List String

namespace Schedule

/-- What an item waits for. -/
inductive Status where
  | ready
  | waitingOnProcedure
  | waitingOnGlobal
deriving DecidableEq

/-- An item with its dependencies as indices of items. -/
structure Node where
  hasInit : Bool
  deps : List Nat

/-- The items as a graph on their indices. -/
abbrev Graph := Array Node

namespace Graph

def hasInit (g : Graph) (i : Nat) : Bool :=
  (g[i]?.map (·.hasInit)).getD false

def deps (g : Graph) (i : Nat) : List Nat :=
  (g[i]?.map (·.deps)).getD []

/-- Walks from `root` through the items in `unvisited`, with `todo` still to be looked at. -/
def walk (g : Graph) (root : Nat) (unvisited todo : List Nat) (status : Status) : Status :=
  match todo with
  | [] => status
  | i :: rest =>
      if i = root then
        if g.hasInit root then .waitingOnGlobal else g.walk root unvisited rest status
      else if i ∈ unvisited then
        if g.hasInit i then .waitingOnGlobal
        else g.walk root (unvisited.erase i) (g.deps i ++ rest) .waitingOnProcedure
      else g.walk root unvisited rest status
termination_by (unvisited.length, todo.length)
decreasing_by
  · exact Prod.Lex.right _ (Nat.lt_succ_self _)
  · rename_i h _
    have := List.length_erase_of_mem h
    have := List.length_pos_of_mem h
    exact Prod.Lex.left _ _ (by omega)
  · exact Prod.Lex.right _ (Nat.lt_succ_self _)

/-- The status of an item, given the items that are pending. -/
def status (g : Graph) (pending : List Nat) (i : Nat) : Status :=
  g.walk i pending (g.deps i) .ready

/-- The item that comes next. -/
def next? (g : Graph) (pending : List Nat) : Option Nat :=
  (pending.find? fun i => g.status pending i = .ready).or
    (pending.find? fun i => g.status pending i = .waitingOnProcedure)

/-- The pending items in order, or those that are stuck; `rounds` is at least their number. -/
def orderFrom (g : Graph) : Nat → List Nat → Except (List Nat) (List Nat)
  | 0, _ => .ok []
  | rounds + 1, pending =>
      match g.next? pending with
      | some i => (g.orderFrom rounds (pending.erase i)).map (i :: ·)
      | none => if pending.isEmpty then .ok [] else .error pending

/-- All items in order, or those that are stuck. -/
def order (g : Graph) : Except (List Nat) (List Nat) :=
  g.orderFrom g.size (List.range g.size)

end Graph

variable {α : Type}

/-- The index of the first item of a name. -/
def index? (items : List (Item α)) (name : String) : Option Nat :=
  items.findIdx? fun item => item.name == name

/-- The graph of a list of items. -/
def graph (items : List (Item α)) : Graph :=
  (items.map fun item => ⟨item.init.isSome, item.deps.filterMap (index? items)⟩).toArray

/-- The items at given indices. -/
def pick (items : List (Item α)) (indices : List Nat) : List (Item α) :=
  indices.filterMap fun i => items[i]?

/-- The items in order; initializers that wait for each other are an exception. -/
def order (items : List (Item α)) : Except Fault (List (Item α)) :=
  match (graph items).order with
  | .ok indices => .ok (pick items indices)
  | .error stuck =>
      let names := (pick items stuck).map (·.name)
      .error (.exception (.circular names) (names.map .text))

/-- Runs the initializers of items in order, until one of them stops the run. -/
def run {σ ε : Type} (execute : σ → String → α → Option ε × σ) :
    σ → List (Item α) → Option ε × σ
  | s, [] => (none, s)
  | s, item :: rest =>
      match item.init with
      | none => run execute s rest
      | some init =>
          match execute s item.name init with
          | (none, s) => run execute s rest
          | (some e, s) => (some e, s)

end Schedule

end Defs

end GoalDirected
