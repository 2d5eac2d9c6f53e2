import GoalDirected.Proofs.Machine.Handling
import GoalDirected.Proofs.Store.Likeness

/-!
# Frames that look alike

**Input.** Two frames of one procedure, in two stores with a relation between their cells.

**Argument.** Names of the one and of the other frame are bound to cells that correspond, and so are the references
in their slots; everything else in them is the same.  An instruction that only looks at its own frame, at its own
variables and at the generators of scalars in its slots then asks for the same in both.  New cells of a scope come
to correspond in the order in which they are made.

**Results.**
* `Frame.Alike`: frames that cannot be told apart.
* `Store.Allows`: the instructions that keep to their frame.
* `Store.Tandem`: changes of two stores after which these are alike again.
* `execute_alike`: an allowed instruction asks for the same in both frames.
-/

namespace GoalDirected

section Twins

/-! ## Bindings -/

/-- The same names, bound to cells that correspond. -/
def Bindings.Alike (R : CellId → CellId → Prop) (b b' : Bindings) : Prop :=
  List.Forall₂ (fun x y => y.1 = x.1 ∧ R x.2 y.2) b b'

/-- The same names, displaced from cells that correspond or from none. -/
def Displaced (R : CellId → CellId → Prop) (l l' : List (String × Option CellId)) : Prop :=
  List.Forall₂ (fun x y => y.1 = x.1 ∧ Option.Rel R x.2 y.2) l l'

namespace Bindings

variable {R S : CellId → CellId → Prop} {b b' : Bindings}

theorem Alike.mono
    (h : b.Alike R b')
    (hRS : ∀ c d, R c d → S c d) :
    b.Alike S b' :=
  List.Forall₂.imp (fun _ _ hxy => ⟨hxy.1, hRS _ _ hxy.2⟩) h

theorem Alike.get?
    (h : b.Alike R b')
    (name : String) :
    Option.Rel R (b.get? name) (b'.get? name) := by
  induction h with
  | nil => exact .none
  | @cons x y rest rest' hxy _ ih =>
      obtain ⟨n, c⟩ := x
      obtain ⟨n', d⟩ := y
      obtain ⟨rfl, hcd⟩ := hxy
      simp only [Bindings.get?, List.lookup_cons] at ih ⊢
      split
      · exact .some hcd
      · exact ih

theorem Alike.bind
    {c d : CellId}
    (h : b.Alike R b')
    (name : String)
    (hcd : R c d) :
    (b.bind name c).Alike R (b'.bind name d) := by
  induction h with
  | nil => exact .cons ⟨rfl, hcd⟩ .nil
  | @cons x y rest rest' hxy hrest ih =>
      obtain ⟨n, c'⟩ := x
      obtain ⟨n', d'⟩ := y
      obtain ⟨rfl, hcd'⟩ := hxy
      simp only [Bindings.bind]
      split
      · exact .cons ⟨rfl, hcd⟩ hrest
      · exact .cons ⟨rfl, hcd'⟩ ih

theorem Alike.unbind
    (h : b.Alike R b')
    (name : String) :
    (b.unbind name).Alike R (b'.unbind name) := by
  induction h with
  | nil => exact .nil
  | @cons x y rest rest' hxy hrest ih =>
      obtain ⟨n, c⟩ := x
      obtain ⟨n', d⟩ := y
      obtain ⟨rfl, hcd⟩ := hxy
      simp only [Bindings.unbind]
      split
      · exact ih
      · exact .cons ⟨rfl, hcd⟩ ih

theorem Alike.restore
    {c d : Option CellId}
    (h : b.Alike R b')
    (name : String)
    (hcd : Option.Rel R c d) :
    (b.restore name c).Alike R (b'.restore name d) := by
  cases hcd with
  | none => exact h.unbind name
  | some hcd => exact h.bind name hcd

theorem Alike.restoreAll
    {l l' : List (String × Option CellId)}
    (h : b.Alike R b')
    (hl : Displaced R l l') :
    (b.restoreAll l).Alike R (b'.restoreAll l') := by
  induction hl generalizing b b' with
  | nil => exact h
  | @cons x y rest rest' hxy _ ih =>
      obtain ⟨n, c⟩ := x
      obtain ⟨n', d⟩ := y
      obtain ⟨rfl, hcd⟩ := hxy
      exact ih (h.restore _ hcd)

end Bindings

theorem rel_mono
    {α β : Type} {P Q : α → β → Prop} {x : Option α} {y : Option β}
    (h : Option.Rel P x y)
    (hPQ : ∀ a b, P a b → Q a b) :
    Option.Rel Q x y := by
  cases h with
  | none => exact .none
  | some h => exact .some (hPQ _ _ h)

theorem Displaced.mono
    {R S : CellId → CellId → Prop} {l l' : List (String × Option CellId)}
    (h : Displaced R l l')
    (hRS : ∀ c d, R c d → S c d) :
    Displaced S l l' :=
  List.Forall₂.imp (fun _ _ hxy => ⟨hxy.1, rel_mono hxy.2 hRS⟩) h

/-! ## Frames -/

/-- Contents of slots that cannot be told apart. -/
inductive Temp.Alike (R : CellId → CellId → Prop) : Temp → Temp → Prop
  | empty : Temp.Alike R .empty .empty
  | value
      {v w : Value}
      (h : v.Alike R w) :
      Temp.Alike R (.value v) (.value w)
  | next
      {k : Continuation}
      (hk : k.IsPure) :
      Temp.Alike R (.next k) (.next k)
  | label (l : Ir.Label) : Temp.Alike R (.label l) (.label l)

/-- Scopes of one name without dynamic variables, that have displaced the same names. -/
structure Scope.Alike (R : CellId → CellId → Prop) (x y : Scope) : Prop where
  name : y.name = x.name
  shadowed : Displaced R x.shadowed y.shadowed
  left : x.outer = none
  right : y.outer = none

/-- Frames that cannot be told apart.  They have no recovery procedure. -/
structure Frame.Alike (R : CellId → CellId → Prop) (f g : Frame) : Prop where
  procedure : g.procedure = f.procedure
  args : g.args = f.args
  vars : f.vars.Alike R g.vars
  scopes : List.Forall₂ (Scope.Alike R) f.scopes g.scopes
  size : g.temps.size = f.temps.size
  temps : ∀ slot : Nat, Option.Rel (Temp.Alike R) f.temps[slot]? g.temps[slot]?
  coord : g.coord = f.coord
  offender : g.offender = f.offender
  plainArgs : ∀ v ∈ f.args, v.isScalar = true
  plainOffender : ∀ v, f.offender = some v → v.isScalar = true
  left : f.recovery = none
  right : g.recovery = none

theorem Temp.Alike.mono
    {R S : CellId → CellId → Prop} {x y : Temp}
    (h : x.Alike R y)
    (hRS : ∀ c d, R c d → S c d) :
    x.Alike S y := by
  cases h with
  | empty => exact .empty
  | value h => exact .value (h.mono hRS)
  | next hk => exact .next hk
  | label l => exact .label l

theorem Scope.Alike.mono
    {R S : CellId → CellId → Prop} {x y : Scope}
    (h : x.Alike R y)
    (hRS : ∀ c d, R c d → S c d) :
    x.Alike S y :=
  ⟨h.name, h.shadowed.mono hRS, h.left, h.right⟩

namespace Frame

/-- No malfunction is ruled out. -/
abbrev Any : Malfunction → Prop := fun _ => True

variable {R S : CellId → CellId → Prop} {f g : Frame}

theorem Alike.mono
    (h : f.Alike R g)
    (hRS : ∀ c d, R c d → S c d) :
    f.Alike S g where
  procedure := h.procedure
  args := h.args
  vars := h.vars.mono hRS
  scopes := h.scopes.imp fun _ _ hxy => hxy.mono hRS
  size := h.size
  temps := fun slot => rel_mono (h.temps slot) fun _ _ hxy => hxy.mono hRS
  coord := h.coord
  offender := h.offender
  plainArgs := h.plainArgs
  plainOffender := h.plainOffender
  left := h.left
  right := h.right

theorem Alike.place
    (h : f.Alike R g) :
    g.place = f.place := by
  rw [Frame.place, h.procedure, Frame.place]

theorem Alike.value
    (h : f.Alike R g)
    (slot : Nat) :
    Agrees Any (Value.Alike R) (f.value slot) (g.value slot) := by
  unfold Frame.value
  rw [h.place]
  have htemp := h.temps slot
  generalize f.temps[slot]? = x at htemp
  generalize g.temps[slot]? = y at htemp
  rcases htemp with htemp | -
  · cases htemp with
    | value hv => exact .ok hv
    | _ => exact .error trivial
  · exact .error trivial

theorem Alike.values
    (h : f.Alike R g)
    (slots : List Nat) :
    Agrees Any (List.Forall₂ (Value.Alike R)) (f.values slots) (g.values slots) := by
  induction slots with
  | nil => exact .ok .nil
  | cons slot rest ih =>
      refine (h.value slot).bind fun v w hv => ?_
      exact ih.bind fun vs ws hvs => .ok (.cons hv hvs)

theorem Alike.label
    (h : f.Alike R g)
    (slot : Nat) :
    Agrees Any Eq (f.label slot) (g.label slot) := by
  unfold Frame.label
  rw [h.place]
  have htemp := h.temps slot
  generalize f.temps[slot]? = x at htemp
  generalize g.temps[slot]? = y at htemp
  rcases htemp with htemp | -
  · cases htemp with
    | label l => exact .ok rfl
    | _ => exact .error trivial
  · exact .error trivial

/-- A slot of both frames has been given new content. -/
theorem Alike.setTemp
    {x y : Temp}
    (h : f.Alike R g)
    (slot : Nat)
    (hxy : x.Alike R y) :
    Frame.Alike R { f with temps := f.temps.setIfInBounds slot x } { g with temps := g.temps.setIfInBounds slot y } where
  procedure := h.procedure
  args := h.args
  vars := h.vars
  scopes := h.scopes
  size := by simp [h.size]
  temps := by
    intro other
    simp only [Array.getElem?_setIfInBounds, h.size]
    split
    · split
      · exact .some hxy
      · exact .none
    · exact h.temps other
  coord := h.coord
  offender := h.offender
  plainArgs := h.plainArgs
  plainOffender := h.plainOffender
  left := h.left
  right := h.right

theorem Alike.put
    {x y : Temp}
    (h : f.Alike R g)
    (slot : Nat)
    (hxy : x.Alike R y) :
    Agrees Any (Frame.Alike R) (f.put slot x) (g.put slot y) := by
  unfold Frame.put
  rw [h.size, h.place]
  split
  · exact .ok (h.setTemp slot hxy)
  · exact .error trivial

theorem Alike.set
    {v w : Value}
    (h : f.Alike R g)
    (slot : Nat)
    (hvw : v.Alike R w) :
    Agrees Any (Frame.Alike R) (f.set slot v) (g.set slot w) :=
  h.put slot (.value hvw)

theorem Alike.setNext
    {k : Option Continuation}
    (h : f.Alike R g)
    (slot : Nat)
    (hk : ∀ k', k = some k' → k'.IsPure) :
    Agrees Any (Frame.Alike R) (f.setNext slot k) (g.setNext slot k) := by
  cases k with
  | none => exact h.put slot .empty
  | some k => exact h.put slot (.next (hk k rfl))

theorem Alike.takeNext
    (h : f.Alike R g)
    (slot : Nat) :
    Agrees Any (fun x y => y.1 = x.1 ∧ (∀ k, x.1 = some k → k.IsPure) ∧ x.2.Alike R y.2) (f.takeNext slot)
      (g.takeNext slot) := by
  unfold Frame.takeNext
  rw [h.size, h.place]
  have htemp := h.temps slot
  generalize f.temps[slot]? = x at htemp
  generalize g.temps[slot]? = y at htemp
  rcases htemp with htemp | -
  · cases htemp with
    | empty => exact .ok ⟨rfl, nofun, h⟩
    | next hk =>
        refine .ok ⟨rfl, ?_, h.setTemp slot .empty⟩
        rintro _ ⟨⟩
        exact hk
    | _ => exact .error trivial
  · exact .error trivial

/-- A scope is closed in both frames. -/
theorem Alike.leaveScope
    (h : f.Alike R g)
    (name : String) :
    (g.leaveScope name).1 = (f.leaveScope name).1 ∧ (f.leaveScope name).2.Alike R (g.leaveScope name).2 := by
  have hplace := h.place
  have hscopes := h.scopes
  have hclosed : ∀ outer outer', List.Forall₂ (Scope.Alike R) outer outer' →
      Frame.Alike R { f with scopes := outer } { g with scopes := outer' } := fun outer outer' houter =>
    ⟨h.procedure, h.args, h.vars, houter, h.size, h.temps, h.coord, h.offender, h.plainArgs, h.plainOffender,
      h.left, h.right⟩
  unfold Frame.leaveScope
  rcases hf : f.scopes with _ | ⟨x, outer⟩ <;> rcases hg : g.scopes with _ | ⟨y, outer'⟩ <;>
    rw [hf, hg] at hscopes <;> cases hscopes
  · exact ⟨by rw [hplace], h⟩
  · rename_i hxy houter
    dsimp only
    rw [hxy.name, hxy.left, hxy.right]
    split
    · have hrestored := h.vars.restoreAll hxy.shadowed
      exact ⟨rfl, h.procedure, h.args, hrestored, houter, h.size, h.temps, h.coord, h.offender, h.plainArgs,
        h.plainOffender, h.left, h.right⟩
    · exact ⟨by rw [(hclosed outer outer' houter).place], hclosed outer outer' houter⟩

end Frame

/-- The frames show nothing but scalars. -/
theorem Frame.Alike.areShown
    {R : CellId → CellId → Prop} {f g : Frame}
    (h : f.Alike R g)
    (s t : Store) :
    s.areShown f.shown = true ∧ t.areShown g.shown = true := by
  have hplain : ∀ v ∈ f.shown, v.isScalar = true := by
    intro v hv
    rcases List.mem_append.mp hv with harg | hoffender
    · exact h.plainArgs v harg
    · exact h.plainOffender v (Option.mem_toList.mp hoffender)
  have hsame : g.shown = f.shown := by simp only [Frame.shown, h.args, h.offender]
  rw [hsame]
  exact ⟨s.areShown_of_isScalar hplain, t.areShown_of_isScalar hplain⟩

/-- The frames have the same entry in a traceback. -/
theorem Frame.Alike.traceEntry
    {R : CellId → CellId → Prop} {f g : Frame}
    (h : f.Alike R g)
    (s t : Store) :
    t.traceEntry g = s.traceEntry f := by
  have hargs : f.args.map t.image = f.args.map s.image :=
    List.map_congr_left fun v hv => t.image_of_isScalar s (h.plainArgs v hv)
  have hoffender : f.offender.map t.image = f.offender.map s.image := by
    cases ho : f.offender with
    | none => rfl
    | some v => exact congrArg some (t.image_of_isScalar s (h.plainOffender v ho))
  simp only [Store.traceEntry, h.place, h.args, h.coord, h.offender, hargs, hoffender]

/-! ## Stores -/

/-- The second relation has more pairs than the first, and these are of new cells. -/
structure Widens (R S : CellId → CellId → Prop) (s t : Store) : Prop where
  mono : ∀ c d, R c d → S c d
  fresh : ∀ c d : Nat, S c d → R c d ∨ (s.cells.size ≤ c ∧ t.cells.size ≤ d)

/-- Both stores have changed, in the frame `n` and in cells that correspond, and are alike again. -/
structure Store.Tandem (n : Nat) (R S : CellId → CellId → Prop) (s t s' t' : Store) : Prop where
  alike : s'.Alike S t'
  widens : Widens R S s t
  left : s.Local n (Left R) s'
  right : t.Local n (Right R) t'

namespace Store

variable {R S T : CellId → CellId → Prop} {s t s' t' s'' t'' : Store} {n : Nat}

theorem Tandem.refl
    (h : s.Alike R t)
    (n : Nat) :
    Tandem n R R s t s t :=
  ⟨h, ⟨fun _ _ => id, fun _ _ => Or.inl⟩, .refl n _ s, .refl n _ t⟩

theorem Tandem.trans
    (h : Tandem n R S s t s' t')
    (h' : Tandem n S T s' t' s'' t'') :
    Tandem n R T s t s'' t'' := by
  refine ⟨h'.alike, ⟨fun c d hcd => h'.widens.mono c d (h.widens.mono c d hcd), ?_⟩, ?_, ?_⟩
  · intro c d hcd
    rcases h'.widens.fresh c d hcd with hcd | hnew
    · exact h.widens.fresh c d hcd
    · exact Or.inr ⟨Nat.le_trans h.left.size hnew.1, Nat.le_trans h.right.size hnew.2⟩
  · refine h.left.trans h'.left ?_
    rintro c ⟨d, hcd⟩
    exact (h.widens.fresh c d hcd).imp (fun hcd => ⟨d, hcd⟩) And.left
  · refine h.right.trans h'.right ?_
    rintro d ⟨c, hcd⟩
    exact (h.widens.fresh c d hcd).imp (fun hcd => ⟨c, hcd⟩) And.right

/-- A frame is replaced in both stores. -/
theorem Tandem.setFrame
    (h : s.Alike R t)
    (n : Nat) (f g : Frame) :
    Tandem n R R s t (s.setFrame n f) (t.setFrame n g) :=
  ⟨⟨h.functional, h.injective, h.bounded, h.content⟩, ⟨fun _ _ => id, fun _ _ => Or.inl⟩, .setFrame s n _ f,
    .setFrame t n _ g⟩

/-- The relation in which two more cells correspond. -/
def Extend (R : CellId → CellId → Prop) (a b : Nat) (c d : CellId) : Prop :=
  R c d ∨ (c = a ∧ d = b)

/-- The new cells of two allocations correspond. -/
theorem tandem_allocate
    {v : Value}
    (h : s.Alike R t)
    (hv : v.isScalar = true)
    (n : Nat) :
    Tandem n R (Extend R s.cells.size t.cells.size) s t (s.allocate v).2 (t.allocate v).2 := by
  refine ⟨⟨?_, ?_, ?_, ?_⟩, ⟨fun _ _ => Or.inl, ?_⟩, ?_, ?_⟩
  · rintro c d d' (hcd | ⟨rfl, rfl⟩) (hcd' | ⟨hc, rfl⟩)
    · exact h.functional c d d' hcd hcd'
    · exact absurd (hc ▸ (h.bounded c d hcd).1) (Nat.lt_irrefl _)
    · exact absurd (h.bounded _ d' hcd').1 (Nat.lt_irrefl _)
    · rfl
  · rintro c c' d (hcd | ⟨rfl, rfl⟩) (hcd' | ⟨rfl, hd⟩)
    · exact h.injective c c' d hcd hcd'
    · exact absurd (hd ▸ (h.bounded c d hcd).2) (Nat.lt_irrefl _)
    · exact absurd (h.bounded c' _ hcd').2 (Nat.lt_irrefl _)
    · rfl
  · rintro c d (hcd | ⟨rfl, rfl⟩)
    · obtain ⟨hc, hd⟩ := h.bounded c d hcd
      rw [size_allocate, size_allocate]
      omega
    · rw [size_allocate, size_allocate]
      omega
  · rintro c d (hcd | ⟨rfl, rfl⟩)
    · obtain ⟨hc, hd⟩ := h.bounded c d hcd
      rw [s.read_allocate_of_lt v hc, t.read_allocate_of_lt v hd]
      exact h.content c d hcd
    · have hleft : (s.allocate v).2.read s.cells.size = v := s.read_allocate_self v
      have hright : (t.allocate v).2.read t.cells.size = v := t.read_allocate_self v
      rw [hleft, hright]
      exact ⟨rfl, hv⟩
  · rintro c d (hcd | ⟨rfl, rfl⟩)
    · exact Or.inl hcd
    · exact Or.inr ⟨Nat.le_refl _, Nat.le_refl _⟩
  · exact ⟨by simp, fun c hc _ => s.read_allocate_of_lt v hc, fun _ _ => rfl, rfl⟩
  · exact ⟨by simp, fun c hc _ => t.read_allocate_of_lt v hc, fun _ _ => rfl, rfl⟩

/-- A binding stays when another name is bound, or is the one that is displaced. -/
theorem Bindings.mem_bind_or
    {b : Bindings} {x : String} {c : CellId}
    (h : (x, c) ∈ b)
    (name : String) (d : CellId) :
    (x, c) ∈ b.bind name d ∨ b.get? name = some c := by
  induction b with
  | nil => cases h
  | cons entry rest ih =>
      obtain ⟨n, e⟩ := entry
      by_cases hn : n = name
      · subst hn
        rcases List.mem_cons.mp h with heq | h
        · cases heq
          exact Or.inr (by simp [Bindings.get?])
        · exact Or.inl (by simp [Bindings.bind, h])
      · have hname : (name == n) = false := by simpa using fun heq => hn heq.symm
        simp only [Bindings.bind, if_neg hn, Bindings.get?, List.lookup_cons, hname]
        rcases List.mem_cons.mp h with heq | h
        · exact Or.inl (heq ▸ List.mem_cons_self)
        · exact (ih h).imp_left (List.mem_cons_of_mem _)

/-- A cell that was bound is still bound, or has been displaced. -/
theorem mem_shadow
    {vars : Bindings} {x : String} {c : CellId}
    (h : (x, c) ∈ vars)
    (s : Store) (names : List String) :
    (∃ y, (y, c) ∈ (s.shadow vars names).2.1) ∨ ∃ y, (y, some c) ∈ (s.shadow vars names).1 := by
  induction names generalizing s vars x with
  | nil => exact Or.inl ⟨x, h⟩
  | cons name rest ih =>
      rcases Bindings.mem_bind_or h name (s.allocate .nil).1 with hbound | hdisplaced
      · rcases ih hbound (s.allocate .nil).2 with hkept | ⟨y, hy⟩
        · exact Or.inl hkept
        · exact Or.inr ⟨y, List.mem_cons_of_mem _ hy⟩
      · exact Or.inr ⟨name, by simp only [shadow, hdisplaced, List.mem_cons_self]⟩

/-- A scope binds its names to new cells that correspond. -/
theorem tandem_shadow
    {vars vars' : Bindings}
    (h : s.Alike R t)
    (hvars : vars.Alike R vars')
    (names : List String) (n : Nat) :
    ∃ S, Tandem n R S s t (s.shadow vars names).2.2 (t.shadow vars' names).2.2 ∧
      Displaced S (s.shadow vars names).1 (t.shadow vars' names).1 ∧
      (s.shadow vars names).2.1.Alike S (t.shadow vars' names).2.1 ∧
      ∀ c d, S c d → R c d ∨ (∃ x, (x, c) ∈ (s.shadow vars names).2.1) ∨
        ∃ x, (x, some c) ∈ (s.shadow vars names).1 := by
  induction names generalizing s t vars vars' R with
  | nil => exact ⟨R, .refl h n, .nil, hvars, fun _ _ => Or.inl⟩
  | cons name rest ih =>
      have hallocate := tandem_allocate (v := .nil) h rfl n
      have hbound := (hvars.mono hallocate.widens.mono).bind name (Or.inr ⟨rfl, rfl⟩)
      obtain ⟨S, hrest, hdisplaced, hafter, howned⟩ := ih hallocate.alike hbound
      have hprevious : Option.Rel S (vars.get? name) (vars'.get? name) :=
        rel_mono (hvars.get? name) fun c d hcd => hrest.widens.mono c d (hallocate.widens.mono c d hcd)
      refine ⟨S, hallocate.trans hrest, .cons ⟨rfl, hprevious⟩ hdisplaced, hafter, ?_⟩
      intro c d hcd
      have hlater : ((∃ x, (x, c) ∈ ((s.allocate .nil).2.shadow (vars.bind name (s.allocate .nil).1) rest).2.1) ∨
          ∃ x, (x, some c) ∈ ((s.allocate .nil).2.shadow (vars.bind name (s.allocate .nil).1) rest).1) →
          (∃ x, (x, c) ∈ (s.shadow vars (name :: rest)).2.1) ∨
            ∃ x, (x, some c) ∈ (s.shadow vars (name :: rest)).1 :=
        Or.imp_right fun ⟨x, hx⟩ => ⟨x, List.mem_cons_of_mem _ hx⟩
      rcases howned c d hcd with (hcd | ⟨rfl, -⟩) | howned
      · exact Or.inl hcd
      · obtain ⟨x, hx⟩ := Bindings.mem_of_get? (vars.get?_bind_self name (s.allocate .nil).1)
        exact Or.inr (hlater (mem_shadow hx _ rest))
      · exact Or.inr (hlater howned)

/-- A scope without dynamic variables is opened in both frames. -/
theorem tandem_enterScope
    {f g : Frame}
    (h : s.Alike R t)
    (hfg : f.Alike R g)
    (name : String) (names : List String) (n : Nat) :
    ∃ S, Tandem n R S s t (s.enterScope f name names []).2 (t.enterScope g name names []).2 ∧
      (s.enterScope f name names []).1.Alike S (t.enterScope g name names []).1 ∧
      ∀ c d, S c d → R c d ∨ (s.enterScope f name names []).1.Owns c := by
  obtain ⟨S, htandem, hdisplaced, hafter, howned⟩ := tandem_shadow h hfg.vars names n
  have hmono := hfg.mono htandem.widens.mono
  refine ⟨S, htandem, ⟨hmono.procedure, hmono.args, hafter, .cons ⟨rfl, hdisplaced, rfl, rfl⟩ hmono.scopes,
    hmono.size, hmono.temps, hmono.coord, hmono.offender, hmono.plainArgs, hmono.plainOffender, hmono.left,
    hmono.right⟩, ?_⟩
  intro c d hcd
  rcases howned c d hcd with hcd | hvar | ⟨x, hx⟩
  · exact Or.inl hcd
  · exact Or.inr (Or.inl hvar)
  · exact Or.inr (Or.inr ⟨_, List.mem_cons_self, x, hx⟩)

/-! ## Instructions -/

/-- The instruction keeps to its frame: a name stands for a variable of the frame if it stands for anything, and
only operators are applied and only generators of the frame's slots are resumed. -/
def Allows (s : Store) (f : Frame) : Ir.Instruction → Prop
  | .name _ name => f.vars.get? name = none → s.procedureCell? f.procedure name = none
  | .operator _ op _ => op ≠ "@"
  | .enter _ _ dynamics => dynamics = []
  | .literal .. | .resume .. | .move .. | .deref .. | .moveLabel .. | .goto .. | .indirect .. | .succeed ..
  | .fail | .leave .. | .coordinate .. => True
  | .dynamic .. | .field .. | .call .. | .create .. | .produce .. | .exhaust | .select .. | .recover .. => False

instance (s : Store) (f : Frame) : DecidablePred (s.Allows f)
  | .name _ name => inferInstanceAs (Decidable (f.vars.get? name = none → s.procedureCell? f.procedure name = none))
  | .operator _ op _ => inferInstanceAs (Decidable (op ≠ "@"))
  | .enter _ _ dynamics => inferInstanceAs (Decidable (dynamics = []))
  | .literal .. | .resume .. | .move .. | .deref .. | .moveLabel .. | .goto .. | .indirect .. | .succeed ..
  | .fail | .leave .. | .coordinate .. => .isTrue trivial
  | .dynamic .. | .field .. | .call .. | .create .. | .produce .. | .exhaust | .select .. | .recover .. => .isFalse id

end Store

/-- What allowed instructions ask for in frames that are alike. -/
inductive Effect.Alike (R : CellId → CellId → Prop) : Effect → Effect → Prop
  | next : Effect.Alike R .next .next
  | goto (label : Ir.Label) : Effect.Alike R (.goto label) (.goto label)
  | failed : Effect.Alike R (.failed none) (.failed none)
  | succeed
      {v : Value}
      (hv : v.isScalar = true)
      (again : Option Ir.Label) :
      Effect.Alike R (.succeed v again) (.succeed v again)
  | operator
      {op : String} {args args' : List Value}
      (hop : op ≠ "@")
      (hargs : List.Forall₂ (Value.Alike R) args args')
      (d : Ir.Destination) :
      Effect.Alike R (.operator d op args) (.operator d op args')
  | resume
      {k : Option Continuation}
      (hk : ∀ k', k = some k' → k'.IsPure)
      (d : Ir.Destination) :
      Effect.Alike R (.resume d k) (.resume d k)
  | fault
      {e : Fault}
      (he : e.IsScalar) :
      Effect.Alike R (.fault e) (.fault e)

namespace Store

/-- An instruction has been executed on both sides.  If cells have come to correspond, then the frame owns them, and
goes on with its next instruction. -/
structure Repeats (n : Nat) (R S : CellId → CellId → Prop) (s t : Store) (x y : Executed) : Prop where
  effect : x.1.Alike S y.1
  frame : x.2.1.Alike S y.2.1
  tandem : Tandem n R S s t x.2.2 y.2.2
  owned : ∀ c d, S c d → R c d ∨ (x.1 = .next ∧ x.2.1.Owns c)

variable {R : CellId → CellId → Prop} {s t : Store} {f g : Frame} {n : Nat}

/-- Nothing has happened but to the frames. -/
theorem Repeats.of_frame
    {e e' : Effect} {f' g' : Frame}
    (h : s.Alike R t)
    (heffect : e.Alike R e')
    (hframe : f'.Alike R g')
    (n : Nat) :
    Repeats n R R s t (e, f', s) (e', g', t) :=
  ⟨heffect, hframe, .refl h n, fun _ _ => Or.inl⟩

theorem Repeats.of_malfunction
    (h : s.Alike R t)
    (hfg : f.Alike R g)
    (m : Malfunction) (n : Nat) :
    Repeats n R R s t (.fault (.malfunction m), f, s) (.fault (.malfunction m), g, t) :=
  .of_frame h (.fault (e := .malfunction m) trivial) hfg n

theorem Repeats.of_changed
    {x y : Except Malfunction Frame}
    (h : s.Alike R t)
    (hfg : f.Alike R g)
    (hxy : Agrees Frame.Any (Frame.Alike R) x y)
    (n : Nat) :
    Repeats n R R s t (s.changed f x) (t.changed g y) := by
  cases hxy with
  | ok hframe => exact .of_frame h .next hframe n
  | error _ => exact .of_malfunction h hfg _ n

theorem procedureCell?_congr
    {p : Procedure}
    (h : t.namespaces = s.namespaces)
    (name : String) :
    t.procedureCell? p name = s.procedureCell? p name := by
  simp only [procedureCell?, global?, rootGlobal?, entries, h]

/-- A name that is no global or static stands for variables that correspond. -/
theorem agrees_lookupName
    {name : String}
    (hnamespaces : t.namespaces = s.namespaces)
    (hfg : f.Alike R g)
    (hname : f.vars.get? name = none → s.procedureCell? f.procedure name = none) :
    Agrees Frame.Any (Value.Alike R) (s.lookupName f name) (t.lookupName g name) := by
  have hget := hfg.vars.get? name
  unfold lookupName
  rw [hfg.procedure, procedureCell?_congr hnamespaces, hfg.place]
  generalize f.vars.get? name = x at hget hname
  generalize g.vars.get? name = y at hget
  cases hget with
  | none =>
      rw [hname rfl]
      exact .error trivial
  | some hcd => exact .ok (.ref hcd)

/-- An allowed instruction asks for the same in frames that are alike. -/
theorem execute_alike
    {i : Ir.Instruction}
    (h : s.Alike R t)
    (hnamespaces : t.namespaces = s.namespaces)
    (hfg : f.Alike R g)
    (hi : s.Allows f i)
    (n : Nat) :
    ∃ S, Repeats n R S s t (s.execute f i) (t.execute g i) := by
  cases i with
  | literal target value =>
      refine ⟨R, .of_changed h hfg (hfg.set target (.scalar ?_)) n⟩
      cases value <;> rfl
  | name target name =>
      have hplace := agrees_lookupName hnamespaces hfg hi
      exact ⟨R, .of_changed h hfg (hplace.bind fun v w hvw => hfg.set target hvw) n⟩
  | operator d op args =>
      have hargs := hfg.values args
      simp only [execute]
      generalize f.values args = x at hargs
      generalize g.values args = y at hargs
      cases hargs with
      | ok hargs => exact ⟨R, .of_frame h (.operator hi hargs d) hfg n⟩
      | error _ => exact ⟨R, .of_malfunction h hfg _ n⟩
  | resume d source =>
      have htake := hfg.takeNext source
      simp only [execute]
      generalize f.takeNext source = x at htake
      generalize g.takeNext source = y at htake
      cases htake with
      | error _ => exact ⟨R, .of_malfunction h hfg _ n⟩
      | @ok x y hxy =>
          obtain ⟨k, f'⟩ := x
          obtain ⟨k', g'⟩ := y
          obtain ⟨rfl, hk, hframe⟩ := hxy
          exact ⟨R, .of_frame h (.resume hk d) hframe n⟩
  | move target source =>
      exact ⟨R, .of_changed h hfg ((hfg.value source).bind fun v w hvw => hfg.set target hvw) n⟩
  | deref target source =>
      refine ⟨R, .of_changed h hfg ((hfg.value source).bind fun v w hvw => ?_) n⟩
      obtain ⟨heq, hscalar⟩ := h.deref hvw
      rw [heq]
      exact hfg.set target (.scalar hscalar)
  | moveLabel target label => exact ⟨R, .of_changed h hfg (hfg.put target (.label label)) n⟩
  | goto target => exact ⟨R, .of_frame h (.goto target) hfg n⟩
  | indirect source targets =>
      have hlabel := hfg.label source
      simp only [execute]
      generalize f.label source = x at hlabel
      generalize g.label source = y at hlabel
      cases hlabel with
      | error _ => exact ⟨R, .of_malfunction h hfg _ n⟩
      | ok heq =>
          subst heq
          dsimp only
          rw [hfg.place]
          split
          · exact ⟨R, .of_frame h (.goto _) hfg n⟩
          · exact ⟨R, .of_malfunction h hfg _ n⟩
  | succeed value again =>
      cases value with
      | none => exact ⟨R, .of_frame h (.succeed rfl again) hfg n⟩
      | some slot =>
          have hvalue := hfg.value slot
          simp only [execute]
          generalize f.value slot = x at hvalue
          generalize g.value slot = y at hvalue
          cases hvalue with
          | error _ => exact ⟨R, .of_malfunction h hfg _ n⟩
          | ok hvw =>
              obtain ⟨heq, hscalar⟩ := h.deref hvw
              dsimp only
              rw [heq]
              exact ⟨R, .of_frame h (.succeed hscalar again) hfg n⟩
  | fail => exact ⟨R, .of_frame h .failed hfg n⟩
  | enter scope names dynamics =>
      cases hi
      obtain ⟨S, htandem, hframe, howned⟩ := tandem_enterScope h hfg scope names n
      exact ⟨S, .next, hframe, htandem, fun c d hcd => (howned c d hcd).imp_right fun hc => ⟨rfl, hc⟩⟩
  | leave scope =>
      obtain ⟨heq, hframe⟩ := hfg.leaveScope scope
      simp only [execute]
      generalize f.leaveScope scope = x at heq hframe
      generalize g.leaveScope scope = y at heq hframe
      obtain ⟨e, f'⟩ := x
      obtain ⟨e', g'⟩ := y
      cases heq
      cases e with
      | none => exact ⟨R, .of_frame h .next hframe n⟩
      | some m => exact ⟨R, .of_malfunction h hframe m n⟩
  | coordinate coord =>
      refine ⟨R, .of_frame h .next ?_ n⟩
      exact ⟨hfg.procedure, hfg.args, hfg.vars, hfg.scopes, hfg.size, hfg.temps, rfl, hfg.offender, hfg.plainArgs,
        hfg.plainOffender, hfg.left, hfg.right⟩
  | _ => exact hi.elim

end Store

end Twins

end GoalDirected
