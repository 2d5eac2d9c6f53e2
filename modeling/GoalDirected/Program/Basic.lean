import GoalDirected.Machine.Basic
import GoalDirected.Program.Schedule

/-!
# Programs

**Results.** A program is made with the library in place, is linked from its intermediate form, runs
the initializers of its globals in dependency order, and then calls `main`.
-/

namespace GoalDirected

section Defs

/-- The initializer of a global: its result goes to the cell. -/
structure Initializer where
  cell : CellId
  procedure : Procedure

structure Program where
  store : Store
  /-- Procedures and globals in the order of their declaration, until they are initialized. -/
  pending : List (Item Initializer) := []

namespace Program

/-- The environment of the main task. -/
def rootEnvironment : Environment := [0]

/-- Declares procedures of the library in the root namespace. -/
def install (s : Store) : List Builtin → Store
  | [] => s
  | b :: rest =>
      let (v, s) := s.newCallable (.builtin b)
      install (s.declare "" b.name v).2 rest

/-- A program with nothing but the library; at least one co-expression may be live. -/
def new (maxTasks : Nat) : Program where
  store :=
    install
      { nodes := #[⟨0, []⟩]
        namespaces := #[⟨"", []⟩]
        limit := max 1 maxTasks }
      Builtin.all

/-! ## Linking -/

/-- Links a procedure and makes its static variables. -/
def linkProcedure (s : Store) (p : Ir.Procedure) : Except Malfunction Procedure × Store :=
  let (home, s) := s.namespaceIndex p.namespaceName
  match p.link with
  | .error m => (.error m, s)
  | .ok code =>
      let (statics, s) := s.bindAll [] (code.statics.map fun n => (n, .nil))
      (.ok ⟨code, statics, home⟩, s)

def linkRecord (p : Program) (r : Ir.Record) : Except Malfunction Unit × Program :=
  let (v, s) := p.store.newCallable (.constructor (qualify r.namespaceName r.name) r.fields)
  let (declared, s) := s.declare r.namespaceName r.name v
  (declared.map fun _ => (), { p with store := s })

def linkDeclaration (p : Program) (ir : Ir.Procedure) : Except Malfunction Unit × Program :=
  match linkProcedure p.store ir with
  | (.error m, s) => (.error m, { p with store := s })
  | (.ok procedure, s) =>
      let code := procedure.code
      let (v, s) := s.newCallable (.procedure procedure)
      match s.declare code.namespaceName code.name v with
      | (.error m, s) => (.error m, { p with store := s })
      | (.ok _, s) =>
          (.ok (), { p with store := s, pending := p.pending ++ [⟨code.qualified, none, code.deps⟩] })

/-- Declares a global; its initializer is linked after it has been declared. -/
def linkGlobal (p : Program) (g : Ir.Global) : Except Malfunction Unit × Program :=
  let add (s : Store) (init : Option Initializer) : Program :=
    { p with
      store := s
      pending := p.pending ++ [⟨qualify g.namespaceName g.name, init, g.deps⟩] }
  match p.store.declare g.namespaceName g.name .nil, g.init with
  | (.error m, s), _ => (.error m, { p with store := s })
  | (.ok _, s), none => (.ok (), add s none)
  | (.ok cell, s), some ir =>
      match linkProcedure s ir with
      | (.error m, s) => (.error m, { p with store := s })
      | (.ok procedure, s) => (.ok (), add s (some ⟨cell, procedure⟩))

/-- Links parts one after the other, up to the first malfunction. -/
def linkAll {α : Type} (link : Program → α → Except Malfunction Unit × Program) (p : Program) :
    List α → Except Malfunction Unit × Program
  | [] => (.ok (), p)
  | a :: rest =>
      match link p a with
      | (.ok _, p) => linkAll link p rest
      | (.error m, p) => (.error m, p)

/-- Declares everything of a program: records, procedures, then globals. What was declared before a
malfunction stays declared. -/
def link (p : Program) (ir : Ir.Program) : Except Malfunction Unit × Program :=
  match linkAll linkRecord p ir.records with
  | (.error m, p) => (.error m, p)
  | (.ok _, p) =>
      match linkAll linkDeclaration p ir.procedures with
      | (.error m, p) => (.error m, p)
      | (.ok _, p) => linkAll linkGlobal p ir.globals

/-! ## Initialization -/

/-- The names of pending procedures and globals in the order of initialization. -/
def initializationOrder (p : Program) : Except Fault (List String) :=
  (Schedule.order p.pending).map fun items => items.map (·.name)

/-- Runs one initializer. One that fails leaves its global as it is. -/
def runInitializer (s : Store) (_name : String) (init : Initializer) : Option Machine.Stop × Store :=
  match (Machine.enter s [] rootEnvironment init.procedure [] []).finish with
  | (.error e, s) => (some e, s)
  | (.ok o, s) =>
      match o.value? with
      | some v => (none, s.write init.cell (s.deref v))
      | none => (none, s)

/-- Runs all pending initializers in dependency order; afterwards nothing is pending. -/
def runInitializers (p : Program) : Except Machine.Stop Unit × Program :=
  match Schedule.order p.pending with
  | .error f => (.error (.raised ⟨f, []⟩), { p with pending := [] })
  | .ok items =>
      match Schedule.run runInitializer p.store items with
      | (none, s) => (.ok (), ⟨s, []⟩)
      | (some e, s) => (.error e, ⟨s, []⟩)

/-! ## Calls -/

/-- Calls a value in an environment. -/
def call (p : Program) (environment : Environment) (callee : Value) (args : List Value)
    (names : List String) : Except Machine.Stop Outcome × Program :=
  let (o, s) := (Machine.call p.store [] environment callee args names).finish
  (o, { p with store := s })

/-- Applies an operator. -/
def invoke (p : Program) (op : String) (args : List Value) :
    Except Machine.Stop Outcome × Program :=
  let (o, s) := (Machine.invoke p.store [] op args).finish
  (o, { p with store := s })

/-- Calls `main` with the list of its arguments, for its first value. -/
def runMain (p : Program) (args : List String) : Except Machine.Stop (Option Value) × Program :=
  let malfunction (m : Malfunction) : Except Machine.Stop (Option Value) × Program :=
    (.error (.raised ⟨.malfunction m, []⟩), p)
  match (p.store.rootGlobal? "main").map p.store.read with
  | none => malfunction .noMain
  | some (.procedure id) =>
      let (list, s) := p.store.newList (args.map Value.text).toArray
      match (Machine.call s [] rootEnvironment (.procedure id) [list] []).finish with
      | (.ok o, s) => (.ok (o.value?.map s.deref), { p with store := s })
      | (.error e, s) => (.error e, { p with store := s })
  | some _ => malfunction .mainNotProcedure

end Program

end Defs

end GoalDirected
