import GoalDirected.Proofs.Machine.Twins
import Mathlib.Data.List.Perm.Subperm

/-!
# Copies of frames

**Input.** A frame with any number of open scopes, and the copy of it that a co-expression starts with.

**Specification.** `Frame.Faithful` says that one frame is a copy of another: its variables are in cells of their own
with the same contents, everything else that a name can stand for is shared, and no continuation is carried over.

**Argument.** The copy is the mirror image of the frame (`Frame.Mirrors`): every cell, displaced ones included, has
been replaced by a new one with the same content (`Store.IsCopy`).  The new cells are consecutive (`Store.Lays`), so
that no two of them are the same.  Closing a scope treats a frame and its image alike (`Frame.Mirrors.leaveScope`),
and it only moves cells around (`Frame.cells_leaveScope`).  A sequence of such calls follows by induction.

**Results.**
* `Frame.Mirrors.leaveScopes`: closing scopes, by any names, succeeds and fails alike and keeps the images.
* `Store.mirrors_duplicateFrame`, `Store.lays_duplicateFrame`: what a copy is when it is made.
* `Frame.faithful_duplicateFrame`: a copy stays faithful while scopes are closed in both.
-/

namespace GoalDirected

section Defs

namespace Frame

/-- Closes scopes one after the other, whatever the calls raise. -/
def leaveScopes (f : Frame) : List String → List (Option Malfunction) × Frame
  | [] => ([], f)
  | name :: rest =>
      let (raised, f) := f.leaveScope name
      let (others, f) := f.leaveScopes rest
      (raised :: others, f)

end Frame

/-- The cells that a scope has displaced. -/
def Scope.cells (scope : Scope) : List CellId :=
  scope.shadowed.filterMap (·.2)

/-- The cells of the variables of a frame and of those that its scopes have displaced. -/
def Frame.cells (f : Frame) : List CellId :=
  f.vars.map (·.2) ++ f.scopes.flatMap Scope.cells

/-- A frame in store `t` is a copy of a frame in store `s`. -/
structure Frame.Faithful (s t : Store) (f g : Frame) : Prop where
  /-- Every variable is in another cell, a new one, with the content that it had. -/
  bound : ∀ name c, f.vars.get? name = some c →
    ∃ d, g.vars.get? name = some d ∧ s.IsNew t d ∧ d ≠ c ∧ t.read d = s.read c
  /-- Every other name stands for what it stood for: a static variable, a global one, or nothing. -/
  unbound : ∀ name, f.vars.get? name = none → g.vars.get? name = none ∧
    t.lookupName f name = s.lookupName f name ∧ t.lookupName g name = s.lookupName f name
  /-- No two of its variables, displaced ones included, are in one cell. -/
  apart : g.cells.Nodup
  size : g.temps.size = f.temps.size
  values : ∀ slot, g.value slot = f.value slot
  labels : ∀ slot, g.label slot = f.label slot
  /-- A continuation is not carried over, and the attempt to resume it fails. -/
  suspended : ∀ (slot : Nat) (k : Continuation), f.temps[slot]? = some (.next k) → g.temps[slot]? = some .empty ∧
    ∀ (u : Store) (n : Nat) stack label rest d, u.frames[n]? = some g →
      Machine.step ⟨u, stack, .running n label (.resume d slot :: rest)⟩ =
        ⟨u.setFrame n g, .awaiting n label rest d :: stack, .returning .fail⟩

/-! ## Mirror images -/

/-- A temporary without a continuation. -/
def Temp.resting : Temp → Temp
  | .next _ => .empty
  | t => t

/-- Scopes of one name, that have displaced the same names. -/
structure Scope.Mirrors (R : CellId → CellId → Prop) (x y : Scope) : Prop where
  name : y.name = x.name
  shadowed : Displaced R x.shadowed y.shadowed

/-- Frames of one procedure with corresponding cells for the same names, in the same scopes.  The second one has no
continuations. -/
structure Frame.Mirrors (R : CellId → CellId → Prop) (f g : Frame) : Prop where
  procedure : g.procedure = f.procedure
  vars : f.vars.Alike R g.vars
  scopes : List.Forall₂ (Scope.Mirrors R) f.scopes g.scopes
  temps : g.temps = f.temps.map Temp.resting

namespace Store

/-- Cells are added, and nothing else changes. -/
def Adds (s t : Store) : Prop :=
  ∃ values : Array Value, t = { s with cells := s.cells ++ values }

/-- The cells that are added are these, in order. -/
structure Lays (s t : Store) (cells : List CellId) : Prop where
  adds : s.Adds t
  size : t.cells.size = s.cells.size + cells.length
  consecutive : cells = List.range' s.cells.size cells.length

/-- A new cell with the content of an old one. -/
structure IsCopy (s t : Store) (c d : CellId) : Prop where
  old : c < s.cells.size
  new : s.IsNew t d
  read : t.read d = s.read c

end Store

end Defs

section Duplication

namespace Store

variable {r s t u : Store} {c d : CellId} {cells cells' : List CellId}

/-! ## New cells -/

theorem Adds.refl (s : Store) : s.Adds s :=
  ⟨#[], by simp⟩

theorem Adds.trans
    (h : s.Adds t)
    (h' : t.Adds u) :
    s.Adds u := by
  obtain ⟨values, rfl⟩ := h
  obtain ⟨values', rfl⟩ := h'
  exact ⟨values ++ values', by simp⟩

theorem Adds.size_le
    (h : s.Adds t) :
    s.cells.size ≤ t.cells.size := by
  obtain ⟨values, rfl⟩ := h
  simp

theorem Adds.read
    (h : s.Adds t)
    (hc : c < s.cells.size) :
    t.read c = s.read c := by
  obtain ⟨values, rfl⟩ := h
  simp [Store.read, Array.getD_eq_getD_getElem?, Array.getElem?_append_left hc]

theorem Adds.procedureCell?
    (h : s.Adds t)
    (p : Procedure) (name : String) :
    t.procedureCell? p name = s.procedureCell? p name := by
  obtain ⟨values, rfl⟩ := h
  rfl

theorem adds_allocate (s : Store) (v : Value) : s.Adds (s.allocate v).2 :=
  ⟨#[v], by simp [allocate]⟩

theorem lays_nil (s : Store) : s.Lays s [] :=
  ⟨Adds.refl s, rfl, rfl⟩

theorem Lays.append
    (h : s.Lays t cells)
    (h' : t.Lays u cells') :
    s.Lays u (cells ++ cells') where
  adds := h.adds.trans h'.adds
  size := by
    rw [h'.size, h.size, List.length_append]
    omega
  consecutive := by
    have hcells' := h'.consecutive
    rw [h.size] at hcells'
    rw [List.length_append, ← List.range'_append_1, ← h.consecutive, ← hcells']

theorem lays_duplicate (s : Store) (c : CellId) : s.Lays (s.duplicate c).2 [(s.duplicate c).1] where
  adds := adds_allocate s (s.read c)
  size := size_allocate s (s.read c)
  consecutive := rfl

theorem Lays.nodup
    (h : s.Lays t cells) :
    cells.Nodup := by
  rw [h.consecutive]
  exact List.nodup_range'

theorem IsCopy.later
    (h : s.IsCopy t c d)
    (hafter : t.Adds u) :
    s.IsCopy u c d where
  old := h.old
  new := ⟨h.new.1, Nat.lt_of_lt_of_le h.new.2 hafter.size_le⟩
  read := by rw [hafter.read h.new.2, h.read]

/-- A copy of a cell that was already there in an earlier store. -/
theorem isCopy_duplicate
    (hbefore : r.Adds s)
    (hc : c < r.cells.size) :
    r.IsCopy (s.duplicate c).2 c (s.duplicate c).1 where
  old := hc
  new := ⟨hbefore.size_le, by simp [duplicate, allocate]⟩
  read := (read_allocate_self s (s.read c)).trans (hbefore.read hc)

/-! ## Duplication -/

theorem lays_duplicateBindings (s : Store) (b : Bindings) :
    s.Lays (s.duplicateBindings b).2 ((s.duplicateBindings b).1.map (·.2)) := by
  induction b generalizing s with
  | nil => exact lays_nil s
  | cons entry rest ih => exact (lays_duplicate s entry.2).append (ih (s.duplicate entry.2).2)

theorem alike_duplicateBindings
    {b : Bindings}
    (hbefore : r.Adds s)
    (hb : ∀ entry ∈ b, entry.2 < r.cells.size) :
    b.Alike (r.IsCopy (s.duplicateBindings b).2) (s.duplicateBindings b).1 := by
  -- Every cell moves the store on, but the cells to be copied stay those of the first store `r`.
  induction b generalizing s with
  | nil => exact .nil
  | cons entry rest ih =>
      have hcopy := isCopy_duplicate hbefore (hb entry List.mem_cons_self)
      have hrest := lays_duplicateBindings (s.duplicate entry.2).2 rest
      refine .cons ⟨rfl, hcopy.later hrest.adds⟩ ?_
      exact ih (hbefore.trans (lays_duplicate s entry.2).adds) fun other hother =>
        hb other (List.mem_cons_of_mem entry hother)

theorem lays_duplicateShadowed (s : Store) (l : List (String × Option CellId)) :
    s.Lays (s.duplicateShadowed l).2 ((s.duplicateShadowed l).1.filterMap (·.2)) := by
  induction l generalizing s with
  | nil => exact lays_nil s
  | cons entry rest ih =>
      obtain ⟨name, _ | cell⟩ := entry
      · exact ih s
      · exact (lays_duplicate s cell).append (ih (s.duplicate cell).2)

theorem displaced_duplicateShadowed
    {l : List (String × Option CellId)}
    (hbefore : r.Adds s)
    (hl : ∀ name cell, (name, some cell) ∈ l → cell < r.cells.size) :
    Displaced (r.IsCopy (s.duplicateShadowed l).2) l (s.duplicateShadowed l).1 := by
  induction l generalizing s with
  | nil => exact .nil
  | cons entry rest ih =>
      have hrest : ∀ name cell, (name, some cell) ∈ rest → cell < r.cells.size := fun name cell hcell =>
        hl name cell (List.mem_cons_of_mem entry hcell)
      obtain ⟨name, _ | cell⟩ := entry
      · exact .cons ⟨rfl, .none⟩ (ih hbefore hrest)
      · have hcopy := isCopy_duplicate hbefore (hl name cell List.mem_cons_self)
        have hlays := lays_duplicateShadowed (s.duplicate cell).2 rest
        exact .cons ⟨rfl, .some (hcopy.later hlays.adds)⟩
          (ih (hbefore.trans (lays_duplicate s cell).adds) hrest)

theorem lays_duplicateScopes (s : Store) (scopes : List Scope) :
    s.Lays (s.duplicateScopes scopes).2 ((s.duplicateScopes scopes).1.flatMap Scope.cells) := by
  induction scopes generalizing s with
  | nil => exact lays_nil s
  | cons scope rest ih =>
      exact (lays_duplicateShadowed s scope.shadowed).append (ih (s.duplicateShadowed scope.shadowed).2)

theorem mirrors_duplicateScopes
    {scopes : List Scope}
    (hbefore : r.Adds s)
    (hscopes : ∀ scope ∈ scopes, ∀ name cell, (name, some cell) ∈ scope.shadowed → cell < r.cells.size) :
    List.Forall₂ (Scope.Mirrors (r.IsCopy (s.duplicateScopes scopes).2)) scopes (s.duplicateScopes scopes).1 := by
  induction scopes generalizing s with
  | nil => exact .nil
  | cons scope rest ih =>
      have hshadowed := displaced_duplicateShadowed hbefore (hscopes scope List.mem_cons_self)
      have hrest := lays_duplicateScopes (s.duplicateShadowed scope.shadowed).2 rest
      refine .cons ⟨rfl, hshadowed.mono fun c d hcopy => hcopy.later hrest.adds⟩ ?_
      exact ih (hbefore.trans (lays_duplicateShadowed s scope.shadowed).adds) fun other hother =>
        hscopes other (List.mem_cons_of_mem scope hother)

/-- The cells of a copy are new, and no two of them are the same. -/
theorem lays_duplicateFrame (s : Store) (f : Frame) (environment : Environment) :
    s.Lays (s.duplicateFrame f environment).2 (s.duplicateFrame f environment).1.cells :=
  (lays_duplicateBindings s f.vars).append (lays_duplicateScopes (s.duplicateBindings f.vars).2 f.scopes)

/-- A copy is the image of the frame. -/
theorem mirrors_duplicateFrame
    {f : Frame}
    (hf : ∀ c, f.Owns c → c < s.cells.size)
    (environment : Environment) :
    f.Mirrors (s.IsCopy (s.duplicateFrame f environment).2) (s.duplicateFrame f environment).1 := by
  have hvars := alike_duplicateBindings (Adds.refl s) fun entry hentry => hf entry.2 (Or.inl ⟨entry.1, hentry⟩)
  have hlays := lays_duplicateBindings s f.vars
  have hscopes := lays_duplicateScopes (s.duplicateBindings f.vars).2 f.scopes
  refine ⟨rfl, hvars.mono fun c d hcopy => hcopy.later hscopes.adds, ?_, ?_⟩
  · exact mirrors_duplicateScopes hlays.adds fun scope hscope name cell hcell =>
      hf cell (Or.inr ⟨scope, hscope, name, hcell⟩)
  · refine congrArg (fun g => f.temps.map g) (funext fun x => ?_)
    cases x <;> rfl

end Store

/-! ## Scopes -/

namespace Bindings

/-- A cell is bound instead of another one, or as well. -/
theorem cells_bind (b : Bindings) (name : String) (c : CellId) :
    ((b.bind name c).map (·.2)).Subperm (b.map (·.2) ++ [c]) := by
  induction b with
  | nil => exact List.Subperm.refl _
  | cons entry rest ih =>
      obtain ⟨n, old⟩ := entry
      rw [Bindings.bind]
      split
      · have hperm : (c :: rest.map (·.2)).Subperm (rest.map (·.2) ++ [c]) :=
          (List.perm_append_singleton c _).symm.subperm
        exact hperm.cons_right old
      · exact (List.subperm_cons old).mpr ih

theorem cells_unbind (b : Bindings) (name : String) :
    ((b.unbind name).map (·.2)).Sublist (b.map (·.2)) := by
  induction b with
  | nil => exact List.Sublist.refl _
  | cons entry rest ih =>
      obtain ⟨n, old⟩ := entry
      rw [Bindings.unbind]
      split
      · exact ih.cons old
      · exact ih.cons_cons old

/-- Cells that are given back are bound instead of others. -/
theorem cells_restoreAll (b : Bindings) (l : List (String × Option CellId)) :
    ((b.restoreAll l).map (·.2)).Subperm (b.map (·.2) ++ l.filterMap (·.2)) := by
  induction l generalizing b with
  | nil => exact (List.append_nil _).symm ▸ List.Subperm.refl _
  | cons entry rest ih =>
      obtain ⟨name, _ | cell⟩ := entry
      · exact (ih _).trans ((List.subperm_append_right _).mpr (b.cells_unbind name).subperm)
      · have hbind := (List.subperm_append_right (rest.filterMap (·.2))).mpr (b.cells_bind name cell)
        rw [List.append_assoc] at hbind
        exact (ih _).trans hbind

end Bindings

namespace Frame

variable {R : CellId → CellId → Prop} {f g : Frame}

/-- Closing a scope makes no new cells, and does not bind two names to one. -/
theorem cells_leaveScope (f : Frame) (name : String) : (f.leaveScope name).2.cells.Subperm f.cells := by
  unfold Frame.leaveScope
  split
  · exact List.Subperm.refl _
  · rename_i scope outer hscopes
    have hcells : f.cells = f.vars.map (·.2) ++ scope.cells ++ outer.flatMap Scope.cells := by
      rw [Frame.cells, hscopes, List.flatMap_cons, List.append_assoc]
    rw [hcells]
    dsimp only
    split
    · exact (List.subperm_append_right _).mpr (f.vars.cells_restoreAll scope.shadowed)
    · exact ((List.sublist_append_left _ _).append_right _).subperm

theorem cells_leaveScopes (f : Frame) (names : List String) : (f.leaveScopes names).2.cells.Subperm f.cells := by
  induction names generalizing f with
  | nil => exact List.Subperm.refl _
  | cons name rest ih => exact (ih (f.leaveScope name).2).trans (f.cells_leaveScope name)

theorem Mirrors.place
    (h : f.Mirrors R g) :
    g.place = f.place := by
  rw [Frame.place, h.procedure, Frame.place]

/-- One call treats a frame and its image alike. -/
theorem Mirrors.leaveScope
    (h : f.Mirrors R g)
    (name : String) :
    (g.leaveScope name).1 = (f.leaveScope name).1 ∧ (f.leaveScope name).2.Mirrors R (g.leaveScope name).2 := by
  have hplace := h.place
  obtain ⟨hprocedure, hvars, hscopes, htemps⟩ := h
  unfold Frame.leaveScope
  generalize hf : f.scopes = fs at hscopes
  generalize hg : g.scopes = gs at hscopes
  cases hscopes with
  | nil =>
      refine ⟨by simp only [hplace], hprocedure, hvars, ?_, htemps⟩
      rw [hf, hg]
      exact .nil
  | @cons x y xs ys hxy hrest =>
      dsimp only
      rw [hxy.name]
      split
      · exact ⟨rfl, hprocedure, hvars.restoreAll hxy.shadowed, hrest, htemps⟩
      · have hraised : some (Malfunction.wrongScope name x.name g.place) = some (.wrongScope name x.name f.place) := by
          rw [hplace]
        exact ⟨hraised, hprocedure, hvars, hrest, htemps⟩

/-- So does any sequence of calls. -/
theorem Mirrors.leaveScopes
    (h : f.Mirrors R g)
    (names : List String) :
    (g.leaveScopes names).1 = (f.leaveScopes names).1 ∧ (f.leaveScopes names).2.Mirrors R (g.leaveScopes names).2 := by
  induction names generalizing f g with
  | nil => exact ⟨rfl, h⟩
  | cons name rest ih =>
      obtain ⟨hraised, hone⟩ := h.leaveScope name
      obtain ⟨hothers, hall⟩ := ih hone
      exact ⟨congrArg₂ List.cons hraised hothers, hall⟩

/-! ## Temporaries -/

theorem Mirrors.getElem?
    (h : f.Mirrors R g)
    (slot : Nat) :
    g.temps[slot]? = f.temps[slot]?.map Temp.resting := by
  rw [h.temps, Array.getElem?_map]

theorem Mirrors.value
    (h : f.Mirrors R g)
    (slot : Nat) :
    g.value slot = f.value slot := by
  simp only [Frame.value, h.getElem? slot, h.place]
  rcases f.temps[slot]? with _ | _ | v | k | l <;> rfl

theorem Mirrors.label
    (h : f.Mirrors R g)
    (slot : Nat) :
    g.label slot = f.label slot := by
  simp only [Frame.label, h.getElem? slot, h.place]
  rcases f.temps[slot]? with _ | _ | v | k | l <;> rfl

/-- An empty slot fails when it is resumed. -/
theorem resume_of_empty
    {u : Store} {n : Nat} {slot : Nat} {stack : List Context} {label : Ir.Label} {rest : List Ir.Instruction}
    {d : Ir.Destination}
    (hg : g.temps[slot]? = some .empty)
    (hframe : u.frames[n]? = some g) :
    Machine.step ⟨u, stack, .running n label (.resume d slot :: rest)⟩ =
      ⟨u.setFrame n g, .awaiting n label rest d :: stack, .returning .fail⟩ := by
  have htake : g.takeNext slot = .ok (none, g) := by simp only [takeNext, hg]
  simp only [Machine.step, Machine.advance, hframe, Store.execute, htake, Machine.perform]

end Frame

/-- The image of a frame is a copy of it. -/
theorem Frame.Mirrors.faithful
    {s t : Store} {f g : Frame}
    (h : f.Mirrors (s.IsCopy t) g)
    (hadds : s.Adds t)
    (hnodup : g.cells.Nodup) :
    Frame.Faithful s t f g where
  bound := by
    intro name c hc
    have hvars := h.vars.get? name
    rw [hc] at hvars
    generalize g.vars.get? name = found at hvars
    cases hvars with
    | some hcopy =>
        exact ⟨_, rfl, hcopy.new, Nat.ne_of_gt (Nat.lt_of_lt_of_le hcopy.old hcopy.new.1), hcopy.read⟩
  unbound := by
    intro name hnone
    have hvars := h.vars.get? name
    rw [hnone] at hvars
    have hg : g.vars.get? name = none := by
      generalize g.vars.get? name = found at hvars
      cases hvars
      rfl
    have hcell := hadds.procedureCell? f.procedure name
    refine ⟨hg, ?_, ?_⟩
    · simp only [Store.lookupName, hcell]
    · simp only [Store.lookupName, hnone, hg, h.procedure, hcell, h.place]
  apart := hnodup
  size := by rw [h.temps, Array.size_map]
  values := h.value
  labels := h.label
  suspended := by
    intro slot k hk
    have hempty : g.temps[slot]? = some .empty := by
      rw [h.getElem? slot, hk]
      rfl
    exact ⟨hempty, fun u n stack label rest d hframe => resume_of_empty hempty hframe⟩

/-- However the scopes of a frame and of its copy are closed, the calls succeed and raise alike, and the copy stays
faithful. -/
theorem Frame.faithful_duplicateFrame
    {s : Store} {f : Frame}
    (hf : ∀ c, f.Owns c → c < s.cells.size)
    (environment : Environment) (names : List String) :
    let copy := s.duplicateFrame f environment
    (copy.1.leaveScopes names).1 = (f.leaveScopes names).1 ∧
      Frame.Faithful s copy.2 (f.leaveScopes names).2 (copy.1.leaveScopes names).2 := by
  intro copy
  have hlays := s.lays_duplicateFrame f environment
  obtain ⟨hraised, hmirrors⟩ := (Store.mirrors_duplicateFrame hf environment).leaveScopes names
  obtain ⟨cells, hperm, hsublist⟩ := copy.1.cells_leaveScopes names
  have hnodup := hperm.nodup_iff.mp (hlays.nodup.sublist hsublist)
  exact ⟨hraised, hmirrors.faithful hlays.adds hnodup⟩

/-- A procedure with a local variable and two temporaries. -/
def Code.scoped : Code where
  name := "scoped"
  qualified := "scoped"
  namespaceName := ""
  params := []
  locals := ["x"]
  statics := []
  variadic := false
  temps := 2
  entry := "start"
  deps := []
  chunks := []

/-- An activation in the scope `inner`, whose variable `x` has displaced another one. -/
def Frame.shadowing : Frame where
  environment := []
  procedure := ⟨Code.scoped, [], 0⟩
  args := []
  vars := [("x", 1)]
  scopes := [⟨"inner", [("x", some 0)], none⟩]
  temps := #[.next (.values [.nil]), .value (.text "c")]

/-- The copy has the variables in cells 2 and 3, and gets the second one back from the scope. -/
theorem Frame.faithful_duplicateFrame_shadowing :
    let s : Store := { cells := #[.text "a", .text "b"] }
    let copy := s.duplicateFrame Frame.shadowing []
    (∀ c, Frame.shadowing.Owns c → c < s.cells.size) ∧ copy.1.vars.get? "x" = some 2 ∧
      ((copy.1.leaveScopes ["inner", "inner"]).1 = (Frame.shadowing.leaveScopes ["inner", "inner"]).1 ∧
        Frame.Faithful s copy.2 (Frame.shadowing.leaveScopes ["inner", "inner"]).2
          (copy.1.leaveScopes ["inner", "inner"]).2) ∧
      (copy.1.leaveScopes ["inner", "inner"]).2.vars.get? "x" = some 3 ∧ copy.2.read 3 = .text "a" := by
  intro s copy
  have howns : ∀ c, Frame.shadowing.Owns c → c < s.cells.size := by
    rintro c (⟨name, hname⟩ | ⟨scope, hscope, name, hname⟩)
    · cases List.mem_singleton.mp hname
      decide
    · cases List.mem_singleton.mp hscope
      cases List.mem_singleton.mp hname
      decide
  exact ⟨howns, rfl, Frame.faithful_duplicateFrame howns [] ["inner", "inner"], rfl, rfl⟩

end Duplication

end GoalDirected
