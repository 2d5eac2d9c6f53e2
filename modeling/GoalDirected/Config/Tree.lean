/-!
# Trees of settings

**Results.** `Tree` is what a configuration file holds, whatever its format: scalars, lists and
tables. A table keeps the order of its entries; `Tree.lastEntries` keeps the last one of each key.
-/

namespace GoalDirected

section Defs

inductive Tree where
  | nothing
  | bool (b : Bool)
  | integer (n : Int)
  | real (x : Float)
  | text (s : String)
  | list (items : List Tree)
  | table (entries : List (String × Tree))

namespace Tree

/-- The last entry of each key. -/
def lastEntries {α : Type} : List (String × α) → List (String × α)
  | [] => []
  | (key, a) :: rest =>
      if rest.any fun e => e.1 == key then lastEntries rest else (key, a) :: lastEntries rest

/-- The entries of a table. -/
def entries? : Tree → Option (List (String × Tree))
  | .table entries => some entries
  | _ => none

end Tree

end Defs

end GoalDirected
