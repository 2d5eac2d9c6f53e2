import GoalDirected.Store.Dynamics
import GoalDirected.Store.Globals

/-!
# Activations

**Results.** How an activation comes about and what it does with its names: binding of arguments to
parameters, construction of records, resolution of names, scopes, and the copy of a frame that a
co-expression starts with.
-/

namespace GoalDirected

section Defs

/-! ## Arguments -/

/-- The arguments of a call: those given by place, and those given by name. -/
structure Arguments where
  positional : List Value
  keyword : List (String × Value)

/-- Splits the last arguments off, as many as there are names. -/
def Arguments.split (args : List Value) (names : List String) : Arguments :=
  let fixed := args.length - names.length
  ⟨args.take fixed, names.zip (args.drop fixed)⟩

namespace Store

/-- New cells for names with values; a later name takes the place of an equal earlier one. -/
def bindAll (s : Store) (b : Bindings) : List (String × Value) → Bindings × Store
  | [] => (b, s)
  | (name, v) :: rest =>
      let (cell, s) := s.allocate v
      s.bindAll (b.bind name cell) rest

/-- Writes keyword arguments into the cells of their parameters. -/
def bindKeywords (s : Store) (b : Bindings) : List (String × Value) → Store
  | [] => s
  | (name, v) :: rest =>
      match b.get? name with
      | some cell => (s.write cell v).bindKeywords b rest
      | none => s.bindKeywords b rest

/-- Parameters with their positional arguments; a parameter without one is nil. -/
def parameters : List String → List Value → List (String × Value)
  | [], _ => []
  | p :: ps, [] => (p, .nil) :: parameters ps []
  | p :: ps, v :: vs => (p, v) :: parameters ps vs

end Store

/-- Why arguments cannot be bound: there are more names than arguments, or a name is not that of a
parameter. -/
def Code.argumentFault? (code : Code) (args : List Value) (names : List String) : Option Fault :=
  if args.length < names.length then
    some (.malfunction (.tooManyNames code.qualified names.length args.length))
  else
    ((Arguments.split args names).keyword.find? fun k => !code.params.contains k.1).map fun k =>
      .exception (.noParameter code.qualified k.1) [k.2]

namespace Store

/-- Binds arguments to fresh parameters. The last parameter of a variadic procedure is the list of
the arguments that are left. -/
def bindParameters (s : Store) (code : Code) (positional : List Value) : Bindings × Store :=
  let fixed := if code.variadic then code.params.length - 1 else code.params.length
  let (b, s) := s.bindAll [] (parameters (code.params.take fixed) (positional.take fixed))
  match code.variadic, code.params.getLast? with
  | true, some rest =>
      let (list, s) := s.newList (positional.drop fixed).toArray
      s.bindAll b [(rest, list)]
  | _, _ => (b, s)

/-- Binds the arguments of a call to fresh parameters and locals. -/
def bindArguments (s : Store) (code : Code) (args : List Value) (names : List String) :
    Bindings × Store :=
  let split := Arguments.split args names
  let (b, s) := s.bindParameters code split.positional
  (s.bindKeywords b split.keyword).bindAll b (code.locals.map fun l => (l, .nil))

/-- Puts keyword arguments into the fields of a record under construction. -/
def fillFields (record : String) (fields : List String) (values : List Value) :
    List (String × Value) → Except Fault (List Value)
  | [] => .ok values
  | (name, v) :: rest =>
      match fields.findIdx? (· == name) with
      | some i => fillFields record fields (values.set i v) rest
      | none => .error (.exception (.noField record name) [v])

/-- Makes a record from the arguments of a call of its constructor. Missing fields are nil, and
positional arguments beyond the fields are passed over. -/
def construct (s : Store) (record : String) (fields : List String) (args : List Value)
    (names : List String) : Except Fault (Value × Store) :=
  let split := Arguments.split args names
  let values := (parameters fields split.positional).map (·.2)
  match fillFields record fields values split.keyword with
  | .error fault => .error fault
  | .ok values => .ok (s.newRecord record (fields.zip values))

/-! ## Names and scopes -/

/-- The place that a name stands for in an activation. -/
def lookupName (s : Store) (f : Frame) (name : String) : Except Malfunction Value :=
  match (f.vars.get? name).or (s.procedureCell? f.procedure name) with
  | some cell => .ok (.ref cell)
  | none => .error (.unresolvedName name f.place)

/-- Binds each name to a fresh cell, and notes what it was bound to before. -/
def shadow (s : Store) (vars : Bindings) :
    List String → List (String × Option CellId) × Bindings × Store
  | [] => ([], vars, s)
  | name :: rest =>
      let (cell, s) := s.allocate .nil
      let (shadowed, after, s) := s.shadow (vars.bind name cell) rest
      ((name, vars.get? name) :: shadowed, after, s)

/-- Opens a scope with fresh locals, and with an environment of its own if it declares dynamic
variables. -/
def enterScope (s : Store) (f : Frame) (name : String) (names dynamics : List String) :
    Frame × Store :=
  let (shadowed, vars, s) := s.shadow f.vars names
  if dynamics.isEmpty then
    ({ f with vars := vars, scopes := ⟨name, shadowed, none⟩ :: f.scopes }, s)
  else
    let (inner, s) := s.nestedEnvironment f.environment dynamics
    ({ f with
        vars := vars
        environment := inner
        scopes := ⟨name, shadowed, some f.environment⟩ :: f.scopes }, s)

end Store

/-- Gives names back what they were bound to, first to last. -/
def Bindings.restoreAll (b : Bindings) : List (String × Option CellId) → Bindings
  | [] => b
  | (name, previous) :: rest => (b.restore name previous).restoreAll rest

/-- Closes the innermost scope, which has to be the named one. It is closed in either case. -/
def Frame.leaveScope (f : Frame) (name : String) : Option Malfunction × Frame :=
  match f.scopes with
  | [] => (some (.noOpenScope name f.place), f)
  | scope :: outer =>
      let f := { f with scopes := outer }
      if scope.name = name then
        (none,
          { f with
            vars := f.vars.restoreAll scope.shadowed
            environment := scope.outer.getD f.environment })
      else (some (.wrongScope name scope.name f.place), f)

namespace Store

/-! ## Duplication -/

/-- A fresh cell with the content of another one. -/
def duplicate (s : Store) (cell : CellId) : CellId × Store :=
  s.allocate (s.read cell)

def duplicateBindings (s : Store) : Bindings → Bindings × Store
  | [] => ([], s)
  | (name, cell) :: rest =>
      let (cell, s) := s.duplicate cell
      let (rest, s) := s.duplicateBindings rest
      ((name, cell) :: rest, s)

def duplicateShadowed (s : Store) :
    List (String × Option CellId) → List (String × Option CellId) × Store
  | [] => ([], s)
  | (name, none) :: rest =>
      let (rest, s) := s.duplicateShadowed rest
      ((name, none) :: rest, s)
  | (name, some cell) :: rest =>
      let (cell, s) := s.duplicate cell
      let (rest, s) := s.duplicateShadowed rest
      ((name, some cell) :: rest, s)

def duplicateScopes (s : Store) : List Scope → List Scope × Store
  | [] => ([], s)
  | scope :: rest =>
      let (shadowed, s) := s.duplicateShadowed scope.shadowed
      let (rest, s) := s.duplicateScopes rest
      ({ scope with shadowed := shadowed } :: rest, s)

/-- The frame that a co-expression starts with: fresh cells with the same contents, the same values
and labels in the temporaries, and no continuation. -/
def duplicateFrame (s : Store) (f : Frame) (environment : Environment) : Frame × Store :=
  let (vars, s) := s.duplicateBindings f.vars
  let (scopes, s) := s.duplicateScopes f.scopes
  ({ f with
      environment := environment
      vars := vars
      scopes := scopes
      temps := f.temps.map fun
        | .next _ => .empty
        | t => t
      offender := none }, s)

end Store

end Defs

end GoalDirected
