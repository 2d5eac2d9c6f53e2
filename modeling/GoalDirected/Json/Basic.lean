/-!
# JSON trees

**Results.** `Json` is the tree of a JSON text. Members of an object keep their order and their
repetitions, because a reader may have to refuse a repeated one. Numbers keep the class that their
text gives them: a natural number, a negative integer, or a double. A text may be well formed and
still hold a part that stands for nothing; such a part is harmless as long as nobody looks at it, and
`isMeaningful` says that a tree has none.
-/

namespace GoalDirected

section Defs

/-- A JSON number by the class of its text. -/
inductive Json.Number where
  /-- A whole number without a sign, below `2 ^ 64`. -/
  | natural (n : Nat)
  /-- The integer `-n` for a positive `n`, not below `-2 ^ 63`. -/
  | negative (n : Nat)
  /-- Every other number. -/
  | real (x : Float)

inductive Json where
  /-- A well-formed part that stands for nothing: a number above all doubles, a text or an object
  with a key in which half of a surrogate pair stands alone, or an array or an object inside too many
  others. -/
  | meaningless
  | null
  | bool (b : Bool)
  | number (n : Json.Number)
  | text (s : String)
  | array (items : List Json)
  | object (members : List (String × Json))

instance : Inhabited Json := ⟨.null⟩

namespace Json

/-- The value of the last member with a given key. -/
def member? (key : String) : Json → Option Json
  | .object members => (members.reverse.find? fun m => m.1 == key).map (·.2)
  | _ => none

mutual

/-- Whether every part of a tree stands for something. -/
def isMeaningful : Json → Bool
  | .meaningless => false
  | .array items => areMeaningful items
  | .object members => membersAreMeaningful members
  | _ => true

def areMeaningful : List Json → Bool
  | [] => true
  | j :: rest => j.isMeaningful && areMeaningful rest

def membersAreMeaningful : List (String × Json) → Bool
  | [] => true
  | (_, j) :: rest => j.isMeaningful && membersAreMeaningful rest

end

/-- The double that a number stands for. -/
def Number.toFloat : Number → Float
  | .natural n => Float.ofNat n
  | .negative n => -(Float.ofNat n)
  | .real x => x

end Json

end Defs

end GoalDirected
