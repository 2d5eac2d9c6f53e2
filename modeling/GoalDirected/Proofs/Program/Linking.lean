import GoalDirected.Proofs.Program.Course
import GoalDirected.Proofs.Store.Variables

/-!
# What linking does to data

Linking makes cells for global names and for statics.  It leaves every other cell as it is, and the statics of
the initializers that it adds are new cells.

* `Program.Extends`: the store has changed by additions only, and so have the statics of what is pending.
* `extends_link`: linking a program does no more than that, whether or not it succeeds.
* `isFlat_new`: a new program has no references anywhere.
* `Spares.link`: a part of the store that the operations of linking leave alone is left alone by linking.
-/

namespace GoalDirected

section Linking

/-- A static of an initializer that is still to run. -/
def HasStatic (pending : List (Item Initializer)) (c : CellId) : Prop :=
  ∃ item ∈ pending, ∃ init, item.init = some init ∧ ∃ name, (name, c) ∈ init.procedure.statics

theorem hasStatic_append
    {before after : List (Item Initializer)} {c : CellId} :
    HasStatic (before ++ after) c ↔ HasStatic before c ∨ HasStatic after c := by
  constructor
  · rintro ⟨item, hitem, hstatic⟩
    rcases List.mem_append.mp hitem with hitem | hitem
    · exact Or.inl ⟨item, hitem, hstatic⟩
    · exact Or.inr ⟨item, hitem, hstatic⟩
  · rintro (⟨item, hitem, hstatic⟩ | ⟨item, hitem, hstatic⟩)
    · exact ⟨item, List.mem_append_left _ hitem, hstatic⟩
    · exact ⟨item, List.mem_append_right _ hitem, hstatic⟩

/-- The cell of a global that is still to be initialized. -/
def IsTarget (pending : List (Item Initializer)) (c : CellId) : Prop :=
  ∃ item ∈ pending, ∃ init, item.init = some init ∧ init.cell = c

/-- The cell of a global that has been declared is new. -/
theorem Store.isNew_declare
    {s t : Store} {namespaceName name : String} {v : Value} {cell : CellId}
    (h : s.declare namespaceName name v = (.ok cell, t)) :
    s.IsNew t cell := by
  have hindex : (s.namespaceIndex namespaceName).2.cells = s.cells := by
    unfold Store.namespaceIndex
    split <;> rfl
  simp only [Store.declare] at h
  split at h
  · cases h
  · split at h
    · cases h
      simp [Store.IsNew, Store.size_addEntry, Store.allocate, hindex]
    · split at h
      · cases h
      · cases h
        simp [Store.IsNew, Store.size_addEntry, Store.allocate, hindex]

namespace Program

/-- Only additions have been made. -/
structure Extends (p q : Program) : Prop where
  changes : p.store.Changes Store.Nowhere q.store
  statics : ∀ c, HasStatic q.pending c → HasStatic p.pending c ∨ p.store.IsNew q.store c
  targets : ∀ c, IsTarget q.pending c → IsTarget p.pending c ∨ p.store.IsNew q.store c

theorem Extends.refl
    {p : Program}
    (hp : p.store.IsFlat) :
    p.Extends p :=
  ⟨.refl hp, fun _ hc => Or.inl hc, fun _ hc => Or.inl hc⟩

theorem Extends.trans
    {p q r : Program}
    (h : p.Extends q)
    (h' : q.Extends r) :
    p.Extends r := by
  have hnew : ∀ c, q.store.IsNew r.store c → p.store.IsNew r.store c :=
    fun c hc => ⟨Nat.le_trans h.changes.size hc.1, hc.2⟩
  have hold : ∀ c, p.store.IsNew q.store c → p.store.IsNew r.store c :=
    fun c hc => ⟨hc.1, Nat.lt_of_lt_of_le hc.2 h'.changes.size⟩
  refine ⟨h.changes.trans h'.changes, ?_, ?_⟩
  · intro c hc
    rcases h'.statics c hc with hc | hc
    · exact (h.statics c hc).imp_right (hold c)
    · exact Or.inr (hnew c hc)
  · intro c hc
    rcases h'.targets c hc with hc | hc
    · exact (h.targets c hc).imp_right (hold c)
    · exact Or.inr (hnew c hc)

/-- Nothing has become pending that has an initializer. -/
theorem Extends.of_store
    {p q : Program}
    (hchanges : p.store.Changes Store.Nowhere q.store)
    (hpending : ∀ item ∈ q.pending, ∀ init, item.init = some init → item ∈ p.pending) :
    p.Extends q := by
  refine ⟨hchanges, ?_, ?_⟩
  · rintro c ⟨item, hitem, init, hinit, hc⟩
    exact Or.inl ⟨item, hpending item hitem init hinit, init, hinit, hc⟩
  · rintro c ⟨item, hitem, init, hinit, hc⟩
    exact Or.inl ⟨item, hpending item hitem init hinit, init, hinit, hc⟩

/-- What has become pending has no initializer. -/
theorem Extends.of_declared
    {p : Program} {s : Store} {item : Item Initializer}
    (hchanges : p.store.Changes Store.Nowhere s)
    (hitem : item.init = none) :
    p.Extends { p with store := s, pending := p.pending ++ [item] } := by
  refine .of_store hchanges ?_
  intro other hother init hinit
  rcases List.mem_append.mp hother with hother | hother
  · exact hother
  · cases List.mem_singleton.mp hother
    cases hitem.symm.trans hinit

theorem changes_install
    {s : Store}
    (hs : s.IsFlat)
    (builtins : List Builtin) :
    s.Changes Store.Nowhere (install s builtins) := by
  induction builtins generalizing s with
  | nil => exact .refl hs
  | cons b rest ih =>
      have hcallable := (Store.Changes.refl (W := Store.Nowhere) hs).newCallable (.builtin b) nofun
      have hdeclare := hcallable.trans (Store.changes_declare (v := (s.newCallable (.builtin b)).1)
        hcallable.flat "" b.name rfl)
      exact hdeclare.trans (ih hdeclare.flat)

/-- No cell and no queue of a new program holds a reference. -/
theorem isFlat_new (maxTasks : Nat) : (Program.new maxTasks).store.IsFlat := by
  refine (changes_install ?_ Builtin.all).flat
  exact ⟨by simp, by simp⟩

/-- The statics of a linked procedure are new. -/
theorem changes_linkProcedure
    {s : Store} {W : CellId → Prop}
    (hs : s.IsFlat)
    (ir : Ir.Procedure) :
    s.Changes W (linkProcedure s ir).2 ∧
      ∀ p, (linkProcedure s ir).1 = .ok p →
        ∀ name c, (name, c) ∈ p.statics → s.IsNew (linkProcedure s ir).2 c := by
  have hindex := Store.changes_namespaceIndex (W := W) hs ir.namespaceName
  simp only [linkProcedure]
  split
  · exact ⟨hindex, by rintro _ ⟨⟩⟩
  · rename_i code _
    obtain ⟨hstatics, hmem⟩ := Store.changes_bindAll (W := W) hindex.flat []
      (code.statics.map fun n => (n, .nil)) (by simp [Value.isRef])
    refine ⟨hindex.trans hstatics, ?_⟩
    intro p hp name c hc
    cases hp
    exact (hindex.reserves ((hmem name c hc).resolve_left List.not_mem_nil)).1

theorem extends_linkRecord
    {p : Program}
    (hp : p.store.IsFlat)
    (r : Ir.Record) :
    p.Extends (linkRecord p r).2 := by
  have hcallable := (Store.Changes.refl (W := Store.Nowhere) hp).newCallable
    (.constructor (qualify r.namespaceName r.name) r.fields) nofun
  exact .of_store (hcallable.trans (Store.changes_declare hcallable.flat r.namespaceName r.name rfl))
    fun _ hitem _ _ => hitem

theorem extends_linkDeclaration
    {p : Program}
    (hp : p.store.IsFlat)
    (ir : Ir.Procedure) :
    p.Extends (linkDeclaration p ir).2 := by
  obtain ⟨hlinked, hstatics⟩ := changes_linkProcedure (W := Store.Nowhere) hp ir
  unfold linkDeclaration
  split
  · rename_i heq
    rw [heq] at hlinked
    exact .of_store hlinked fun _ hitem _ _ => hitem
  · rename_i procedure s heq
    rw [heq] at hlinked hstatics
    have hcallable := hlinked.newCallable (.procedure procedure) (by
      intro p' hp' name c hc
      cases hp'
      exact Or.inr (hstatics procedure rfl name c hc))
    have hdeclare := hcallable.trans (Store.changes_declare
      (v := (s.newCallable (.procedure procedure)).1) hcallable.flat procedure.code.namespaceName
      procedure.code.name rfl)
    dsimp only
    split
    · rename_i hdeclared
      rw [hdeclared] at hdeclare
      exact .of_store hdeclare fun _ hitem _ _ => hitem
    · rename_i hdeclared
      rw [hdeclared] at hdeclare
      exact .of_declared hdeclare rfl

theorem extends_linkGlobal
    {p : Program}
    (hp : p.store.IsFlat)
    (g : Ir.Global) :
    p.Extends (linkGlobal p g).2 := by
  have hdeclare := Store.changes_declare (W := Store.Nowhere) (v := .nil) hp g.namespaceName g.name rfl
  unfold linkGlobal
  dsimp only
  split
  · rename_i hdeclared
    rw [hdeclared] at hdeclare
    exact .of_store hdeclare fun _ hitem _ _ => hitem
  · rename_i hdeclared _
    rw [hdeclared] at hdeclare
    exact .of_declared hdeclare rfl
  · rename_i cell s ir hdeclared _
    have hcell := Store.isNew_declare hdeclared
    rw [hdeclared] at hdeclare
    obtain ⟨hlinked, hstatics⟩ := changes_linkProcedure (W := Store.Nowhere) hdeclare.flat ir
    split
    · rename_i heq
      rw [heq] at hlinked
      exact .of_store (hdeclare.trans hlinked) fun _ hitem _ _ => hitem
    · rename_i procedure t heq
      rw [heq] at hlinked hstatics
      refine ⟨hdeclare.trans hlinked, ?_, ?_⟩
      · intro c hc
        rcases hasStatic_append.mp hc with hc | ⟨item, hitem, init, hinit, name, hname⟩
        · exact Or.inl hc
        · cases List.mem_singleton.mp hitem
          cases hinit
          have hnew := hstatics procedure rfl name c hname
          exact Or.inr ⟨Nat.le_trans hdeclare.size hnew.1, hnew.2⟩
      · rintro c ⟨item, hitem, init, hinit, rfl⟩
        rcases List.mem_append.mp hitem with hitem | hitem
        · exact Or.inl ⟨item, hitem, init, hinit, rfl⟩
        · cases List.mem_singleton.mp hitem
          cases hinit
          exact Or.inr ⟨hcell.1, Nat.lt_of_lt_of_le hcell.2 hlinked.size⟩

theorem extends_linkAll
    {α : Type} {link : Program → α → Except Malfunction Unit × Program}
    (hlink : ∀ (p : Program) (a : α), p.store.IsFlat → p.Extends (link p a).2)
    {p : Program}
    (hp : p.store.IsFlat)
    (parts : List α) :
    p.Extends (linkAll link p parts).2 := by
  induction parts generalizing p with
  | nil => exact .refl hp
  | cons a rest ih =>
      have ha := hlink p a hp
      simp only [linkAll]
      split
      · rename_i hok
        rw [hok] at ha
        exact ha.trans (ih ha.changes.flat)
      · rename_i herror
        rw [herror] at ha
        exact ha

/-- Linking only adds, up to its first malfunction. -/
theorem extends_link
    {p : Program}
    (hp : p.store.IsFlat)
    (ir : Ir.Program) :
    p.Extends (p.link ir).2 := by
  have hrecords := extends_linkAll (fun _ r h => extends_linkRecord h r) hp ir.records
  unfold link
  split
  · rename_i herror
    rw [herror] at hrecords
    exact hrecords
  · rename_i p' hok
    rw [hok] at hrecords
    have hprocedures := hrecords.trans
      (extends_linkAll (fun _ d h => extends_linkDeclaration h d) hrecords.changes.flat ir.procedures)
    split
    · rename_i herror
      rw [herror] at hprocedures
      exact hprocedures
    · rename_i p'' hok'
      rw [hok'] at hprocedures
      exact hprocedures.trans
        (extends_linkAll (fun _ g h => extends_linkGlobal h g) hprocedures.changes.flat ir.globals)

/-! ## What linking leaves alone -/

/-- A part of the store that none of the operations of linking changes. -/
structure Spares {α : Type} (part : Store → α) : Prop where
  newCallable : ∀ (s : Store) (c : Callable), part (s.newCallable c).2 = part s
  declare : ∀ (s : Store) (namespaceName name : String) (v : Value),
    part (s.declare namespaceName name v).2 = part s
  namespaceIndex : ∀ (s : Store) (name : String), part (s.namespaceIndex name).2 = part s
  bindAll : ∀ (s : Store) (b : Bindings) (entries : List (String × Value)),
    part (s.bindAll b entries).2 = part s

namespace Spares

variable {α : Type} {part : Store → α}

theorem install
    (h : Spares part)
    (s : Store) (builtins : List Builtin) :
    part (Program.install s builtins) = part s := by
  induction builtins generalizing s with
  | nil => rfl
  | cons b rest ih =>
      exact (ih _).trans ((h.declare _ "" b.name _).trans (h.newCallable s (.builtin b)))

theorem linkProcedure
    (h : Spares part)
    (s : Store) (ir : Ir.Procedure) :
    part (Program.linkProcedure s ir).2 = part s := by
  have hindex := h.namespaceIndex s ir.namespaceName
  simp only [Program.linkProcedure]
  cases ir.link with
  | error m => exact hindex
  | ok code => exact (h.bindAll _ [] _).trans hindex

theorem linkRecord
    (h : Spares part)
    (p : Program) (r : Ir.Record) :
    part (Program.linkRecord p r).2.store = part p.store :=
  (h.declare _ r.namespaceName r.name _).trans (h.newCallable p.store _)

theorem linkDeclaration
    (h : Spares part)
    (p : Program) (ir : Ir.Procedure) :
    part (Program.linkDeclaration p ir).2.store = part p.store := by
  have hlink := h.linkProcedure p.store ir
  unfold Program.linkDeclaration
  split <;> rename_i heq <;> rw [heq] at hlink
  · exact hlink
  · rename_i procedure s
    have hdeclare := h.declare (s.newCallable (.procedure procedure)).2 procedure.code.namespaceName
      procedure.code.name (s.newCallable (.procedure procedure)).1
    rw [h.newCallable, hlink] at hdeclare
    dsimp only
    split <;> rename_i heq' <;> rw [heq'] at hdeclare <;> exact hdeclare

theorem linkGlobal
    (h : Spares part)
    (p : Program) (g : Ir.Global) :
    part (Program.linkGlobal p g).2.store = part p.store := by
  have hdeclare := h.declare p.store g.namespaceName g.name .nil
  unfold Program.linkGlobal
  dsimp only
  split
  · rename_i heq
    rw [heq] at hdeclare
    exact hdeclare
  · rename_i heq _
    rw [heq] at hdeclare
    exact hdeclare
  · rename_i s ir heq _
    rw [heq] at hdeclare
    have hlink := h.linkProcedure s ir
    split <;> rename_i heq' <;> rw [heq'] at hlink <;> exact hlink.trans hdeclare

theorem linkAll
    {β : Type} {link : Program → β → Except Malfunction Unit × Program}
    (hlink : ∀ (p : Program) (b : β), part (link p b).2.store = part p.store)
    (p : Program) (parts : List β) :
    part (Program.linkAll link p parts).2.store = part p.store := by
  induction parts generalizing p with
  | nil => rfl
  | cons b rest ih =>
      have hb := hlink p b
      simp only [Program.linkAll]
      split <;> rename_i heq <;> rw [heq] at hb
      · exact (ih _).trans hb
      · exact hb

theorem link
    (h : Spares part)
    (p : Program) (ir : Ir.Program) :
    part (p.link ir).2.store = part p.store := by
  have hrecords := linkAll h.linkRecord p ir.records
  unfold Program.link
  split <;> rename_i heq <;> rw [heq] at hrecords
  · exact hrecords
  · rename_i p'
    have hprocedures := linkAll h.linkDeclaration p' ir.procedures
    split <;> rename_i heq' <;> rw [heq'] at hprocedures
    · exact hprocedures.trans hrecords
    · exact (linkAll h.linkGlobal _ ir.globals).trans (hprocedures.trans hrecords)

end Spares

end Program

end Linking

end GoalDirected
