/-!
# Values

**Results.** `Value` is the set of things that a program computes with. Scalars carry their content;
everything that can change or that has an identity is a number into one of the tables of the store.
-/

namespace GoalDirected

section Defs

/-- The number of a storage cell. -/
abbrev CellId := Nat

inductive Value where
  | nil
  | number (x : Float)
  | text (s : String)
  | list (id : Nat)
  | record (id : Nat)
  | procedure (id : Nat)
  | coexpression (id : Nat)
  | channel (id : Nat)
  /-- An assignable place; most consumers look at its content. -/
  | ref (cell : CellId)

instance : Inhabited Value := ⟨.nil⟩

namespace Value

/-- The name of a value's type. -/
def typeName : Value → String
  | .nil => "nil"
  | .number _ => "number"
  | .text _ => "string"
  | .list _ => "list"
  | .record _ => "record"
  | .procedure _ => "procedure"
  | .coexpression _ => "co-expression"
  | .channel _ => "channel"
  | .ref _ => "variable"

def isNil : Value → Bool
  | .nil => true
  | _ => false

def isRef : Value → Bool
  | .ref _ => true
  | _ => false

/-- Sameness: scalars by content, everything else by identity. -/
def identical : Value → Value → Bool
  | .nil, .nil => true
  | .number a, .number b => a == b
  | .text a, .text b => a == b
  | .list a, .list b => a == b
  | .record a, .record b => a == b
  | .procedure a, .procedure b => a == b
  | .coexpression a, .coexpression b => a == b
  | .channel a, .channel b => a == b
  | .ref a, .ref b => a == b
  | _, _ => false

end Value

end Defs

end GoalDirected
