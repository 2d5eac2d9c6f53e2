import GoalDirected.Store.Basic

/-!
# Global names

**Results.** A namespace is a table of global names; the root namespace has the empty name and comes
first. A name declared in another namespace is also reachable from the root under its qualified
name, and both names share one cell. A name can be declared once.
-/

namespace GoalDirected
namespace Store

section Defs

/-- The index of the root namespace. -/
def rootNamespace : Nat := 0

def entries (s : Store) (ns : Nat) : Bindings :=
  (s.namespaces[ns]?.map (·.entries)).getD []

/-- The cell of a name in a namespace. -/
def global? (s : Store) (ns : Nat) (name : String) : Option CellId :=
  (s.entries ns).get? name

/-- The cell of a name that may be qualified, as seen from the root. -/
def rootGlobal? (s : Store) (name : String) : Option CellId :=
  s.global? rootNamespace name

/-- The index of the namespace with a given name, which is made at its first use. -/
def namespaceIndex (s : Store) (name : String) : Nat × Store :=
  match s.namespaces.findIdx? fun n => n.name == name with
  | some i => (i, s)
  | none => (s.namespaces.size, { s with namespaces := s.namespaces.push ⟨name, []⟩ })

/-- Adds an entry at the end of a namespace. -/
def addEntry (s : Store) (ns : Nat) (name : String) (cell : CellId) : Store :=
  match s.namespaces[ns]? with
  | some n =>
      { s with
        namespaces := s.namespaces.setIfInBounds ns { n with entries := n.entries ++ [(name, cell)] } }
  | none => s

/-- Declares a global name. Outside the root the qualified name is declared in the root as well; if
that name is taken, the entry in the namespace stays. -/
def declare (s : Store) (namespaceName name : String) (v : Value) :
    Except Malfunction CellId × Store :=
  let qualified := qualify namespaceName name
  let (ns, s) := s.namespaceIndex namespaceName
  if (s.global? ns name).isSome then (.error (.duplicateDeclaration qualified), s)
  else
    let (cell, s) := s.allocate v
    let s := s.addEntry ns name cell
    if namespaceName = "" then (.ok cell, s)
    else if (s.rootGlobal? qualified).isSome then (.error (.duplicateDeclaration qualified), s)
    else (.ok cell, s.addEntry rootNamespace qualified cell)

/-- The names of a namespace in the order of their declaration. -/
def names (s : Store) (ns : Nat) : List String :=
  (s.entries ns).map (·.1)

/-- The cell that a name stands for in the code of a procedure: a static variable, a global of its
namespace, or a global of the root. -/
def procedureCell? (s : Store) (p : Procedure) (name : String) : Option CellId :=
  (p.statics.get? name).or ((s.global? p.home name).or (s.rootGlobal? name))

end Defs

end Store
end GoalDirected
