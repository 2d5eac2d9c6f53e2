import GoalDirected.Value

/-!
# Bindings

**Results.** `Bindings` maps names to storage cells. A name is bound at most once; binding it again
replaces its cell and keeps its place.
-/

namespace GoalDirected

section Defs

/-- Names with their cells. -/
abbrev Bindings := List (String × CellId)

namespace Bindings

def get? (b : Bindings) (name : String) : Option CellId :=
  b.lookup name

/-- Binds a name, instead of an earlier binding of it. -/
def bind : Bindings → String → CellId → Bindings
  | [], name, cell => [(name, cell)]
  | (n, c) :: rest, name, cell =>
      if n = name then (n, cell) :: rest else (n, c) :: bind rest name cell

/-- Removes the binding of a name. -/
def unbind : Bindings → String → Bindings
  | [], _ => []
  | (n, c) :: rest, name => if n = name then unbind rest name else (n, c) :: unbind rest name

/-- Binds a name to a cell, or removes its binding. -/
def restore (b : Bindings) (name : String) : Option CellId → Bindings
  | some cell => b.bind name cell
  | none => b.unbind name

@[simp] theorem get?_bind_self (b : Bindings) (name : String) (cell : CellId) :
    (b.bind name cell).get? name = some cell := by
  induction b with
  | nil => simp [bind, get?]
  | cons entry rest ih =>
      obtain ⟨n, c⟩ := entry
      by_cases h : n = name
      · simp [bind, get?, h]
      · have h' : (name == n) = false := by simpa using fun e => h e.symm
        simpa [bind, get?, h, List.lookup_cons, h'] using ih

theorem get?_bind_of_ne (b : Bindings) {name other : String} (cell : CellId) (h : other ≠ name) :
    (b.bind name cell).get? other = b.get? other := by
  have h' : (other == name) = false := by simpa using h
  induction b with
  | nil => simp [bind, get?, List.lookup_cons, h']
  | cons entry rest ih =>
      obtain ⟨n, c⟩ := entry
      by_cases hn : n = name
      · simp [bind, get?, List.lookup_cons, hn, h']
      · simp only [bind, hn, if_false, get?, List.lookup_cons]
        split
        · rfl
        · exact ih

@[simp] theorem get?_unbind_self (b : Bindings) (name : String) :
    (b.unbind name).get? name = none := by
  induction b with
  | nil => rfl
  | cons entry rest ih =>
      obtain ⟨n, c⟩ := entry
      by_cases h : n = name
      · simpa [unbind, h] using ih
      · have h' : (name == n) = false := by simpa using fun e => h e.symm
        simpa [unbind, h, get?, List.lookup_cons, h'] using ih

theorem get?_unbind_of_ne (b : Bindings) {name other : String} (h : other ≠ name) :
    (b.unbind name).get? other = b.get? other := by
  induction b with
  | nil => rfl
  | cons entry rest ih =>
      obtain ⟨n, c⟩ := entry
      by_cases hn : n = name
      · subst hn
        have h' : (other == n) = false := by simpa using h
        simpa [unbind, get?, List.lookup_cons, h'] using ih
      · simp only [unbind, hn, if_false, get?, List.lookup_cons]
        split
        · rfl
        · exact ih

@[simp] theorem get?_restore_self (b : Bindings) (name : String) (cell : Option CellId) :
    (b.restore name cell).get? name = cell := by
  cases cell <;> simp [restore]

theorem get?_restore_of_ne (b : Bindings) {name other : String} (cell : Option CellId)
    (h : other ≠ name) : (b.restore name cell).get? other = b.get? other := by
  cases cell with
  | none => exact b.get?_unbind_of_ne h
  | some c => exact b.get?_bind_of_ne c h

end Bindings

end Defs

end GoalDirected
