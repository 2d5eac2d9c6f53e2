import GoalDirected.Ir.Linking
import GoalDirected.Store.Bindings

/-!
# Callables

**Results.** `Callable` is everything that can be called: procedures, record constructors and the
procedures of the library.
-/

namespace GoalDirected

section Defs

/-- A linked procedure: its code, the cells of its static variables, and the namespace in which it
looks for global names before it turns to the root. -/
structure Procedure where
  code : Code
  statics : Bindings
  home : Nat

/-- A procedure of the library. -/
inductive Builtin where
  | write
  | writes
  | channel
  | send
  | receive
  | close
  | throw
  | exit
  | list
  | abs
  | sqrt
  | string
  | number
  | max
  | min
  | repl
deriving DecidableEq

namespace Builtin

def name : Builtin → String
  | .write => "write"
  | .writes => "writes"
  | .channel => "channel"
  | .send => "send"
  | .receive => "receive"
  | .close => "close"
  | .throw => "throw"
  | .exit => "exit"
  | .list => "list"
  | .abs => "abs"
  | .sqrt => "sqrt"
  | .string => "string"
  | .number => "number"
  | .max => "max"
  | .min => "min"
  | .repl => "repl"

/-- The library in the order of its declaration. -/
def all : List Builtin :=
  [.write, .writes, .channel, .send, .receive, .close, .throw, .exit, .list, .abs, .sqrt, .string,
    .number, .max, .min, .repl]

end Builtin

/-- Everything that a call can invoke. -/
inductive Callable where
  | procedure (p : Procedure)
  | constructor (record : String) (fields : List String)
  | builtin (b : Builtin)

def Callable.name : Callable → String
  | .procedure p => p.code.qualified
  | .constructor record _ => record
  | .builtin b => b.name

end Defs

end GoalDirected
