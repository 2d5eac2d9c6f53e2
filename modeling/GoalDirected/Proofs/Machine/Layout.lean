import GoalDirected.Proofs.Machine.Handling

/-!
# Who gets at which cells

A frame owns the cells of its variables, and holds those that its slots refer to.  Other cells are shared.  A
frame reaches a cell when it owns it, holds it, or comes upon it because it is shared.

* `Layout`: which cells there are, what they contain, and which frames own and hold them.
* `Grows W X l k`: cells and frames are only added; none but the cells in `W` has a new content; a frame that
  was there reaches no more old cells than before, and a new frame only shared ones and those in `X`; and no
  two frames reach a new cell that one of them owns.
* `grows_handles`: an instruction makes the layout grow.  The cells in `W` are held by its frame, and those in
  `X` are the values of its slots.
-/

namespace GoalDirected

section Layout

/-- Which cells there are, and which frames get at them. -/
structure Layout where
  cells : Nat
  content : CellId → Value
  frames : Nat
  /-- The cells that every frame may come upon. -/
  shares : CellId → Prop
  /-- The cells of the variables of a frame. -/
  owns : Nat → CellId → Prop
  /-- The cells that a frame has references to. -/
  holds : Nat → CellId → Prop

namespace Layout

/-- The frame may come to read or to write the cell. -/
def Reaches (l : Layout) (n : Nat) (c : CellId) : Prop :=
  l.holds n c ∨ l.owns n c ∨ l.shares c

/-- A cell of one layout that an earlier one had not. -/
def IsNew (l k : Layout) (c : Nat) : Prop :=
  l.cells ≤ c ∧ c < k.cells

/-- All cells that frames reach are there. -/
def Bounded (l : Layout) : Prop :=
  ∀ (n c : Nat), l.Reaches n c → c < l.cells

/-- One layout has come out of another. -/
structure Grows (W X : CellId → Prop) (l k : Layout) : Prop where
  cells : l.cells ≤ k.cells
  frames : l.frames ≤ k.frames
  content : ∀ c : Nat, c < l.cells → ¬ W c → k.content c = l.content c
  shares : ∀ c, k.shares c → l.shares c ∨ l.IsNew k c
  owns : ∀ n c, k.owns n c → l.owns n c ∨ l.IsNew k c
  reaches : ∀ n c, k.Reaches n c →
    l.Reaches n c ∨ (l.frames ≤ n ∧ X c) ∨
      (l.IsNew k c ∧ ∀ m, k.owns m c → m = n ∧ ¬ k.shares c)

variable {l k j : Layout} {W V X Y : CellId → Prop}

theorem Bounded.not_reaches
    {c : Nat}
    (hl : l.Bounded)
    (hc : l.IsNew k c)
    (n : Nat) :
    ¬ l.Reaches n c :=
  fun hreaches => Nat.not_lt_of_le hc.1 (hl n c hreaches)

/-- At most one frame has got new cells to own, and these are not shared. -/
theorem Grows.of_owner
    (hl : l.Bounded)
    (owner : Nat)
    (hcells : l.cells ≤ k.cells)
    (hframes : l.frames ≤ k.frames)
    (hcontent : ∀ c : Nat, c < l.cells → ¬ W c → k.content c = l.content c)
    (hshares : ∀ c, k.shares c → l.shares c ∨ l.IsNew k c)
    (howns : ∀ n c, k.owns n c → l.owns n c ∨ (n = owner ∧ l.IsNew k c ∧ ¬ k.shares c))
    (hholds : ∀ n c, k.holds n c →
      l.Reaches n c ∨ k.shares c ∨ (l.frames ≤ n ∧ X c) ∨ (l.IsNew k c ∧ ∀ m, ¬ k.owns m c)) :
    Grows W X l k := by
  have hnew : ∀ n c, l.IsNew k c → k.owns n c → n = owner ∧ ¬ k.shares c := by
    intro n c hc hn
    rcases howns n c hn with hn | ⟨hn, -, hshared⟩
    · exact absurd (Or.inr (Or.inl hn)) (hl.not_reaches hc n)
    · exact ⟨hn, hshared⟩
  have hshared : ∀ n c, k.shares c → l.Reaches n c ∨ (l.frames ≤ n ∧ X c) ∨
      (l.IsNew k c ∧ ∀ m, k.owns m c → m = n ∧ ¬ k.shares c) := by
    intro n c hc
    rcases hshares c hc with hold | hc'
    · exact Or.inl (Or.inr (Or.inr hold))
    · exact Or.inr (Or.inr ⟨hc', fun m hm => absurd hc (hnew m c hc' hm).2⟩)
  refine ⟨hcells, hframes, hcontent, hshares, ?_, ?_⟩
  · intro n c hn
    rcases howns n c hn with hn | ⟨-, hc, -⟩
    · exact Or.inl hn
    · exact Or.inr hc
  · rintro n c (hn | hn | hc)
    · rcases hholds n c hn with hn | hc | hn | ⟨hc, hnone⟩
      · exact Or.inl hn
      · exact hshared n c hc
      · exact Or.inr (Or.inl hn)
      · exact Or.inr (Or.inr ⟨hc, fun m hm => absurd hm (hnone m)⟩)
    · rcases howns n c hn with hn | ⟨rfl, hc, -⟩
      · exact Or.inl (Or.inr (Or.inl hn))
      · exact Or.inr (Or.inr ⟨hc, fun m hm => hnew m c hc hm⟩)
    · exact hshared n c hc

theorem Grows.refl (W X : CellId → Prop) (l : Layout) : Grows W X l l :=
  ⟨Nat.le_refl _, Nat.le_refl _, fun _ _ _ => rfl, fun _ => Or.inl, fun _ _ => Or.inl, fun _ _ => Or.inl⟩

theorem Grows.trans
    (h : Grows W X l k)
    (h' : Grows W X k j) :
    Grows W X l j := by
  have hold : ∀ c, l.IsNew k c → l.IsNew j c := fun c hc => ⟨hc.1, Nat.lt_of_lt_of_le hc.2 h'.cells⟩
  have hlate : ∀ c, k.IsNew j c → l.IsNew j c := fun c hc => ⟨Nat.le_trans h.cells hc.1, hc.2⟩
  refine ⟨Nat.le_trans h.cells h'.cells, Nat.le_trans h.frames h'.frames, ?_, ?_, ?_, ?_⟩
  · intro c hc hW
    rw [h'.content c (Nat.lt_of_lt_of_le hc h.cells) hW, h.content c hc hW]
  · intro c hc
    rcases h'.shares c hc with hc | hc
    · exact (h.shares c hc).imp_right (hold c)
    · exact Or.inr (hlate c hc)
  · intro n c hn
    rcases h'.owns n c hn with hn | hc
    · exact (h.owns n c hn).imp_right (hold c)
    · exact Or.inr (hlate c hc)
  · intro n c hn
    rcases h'.reaches n c hn with hn | ⟨hframes, hX⟩ | ⟨hc, howns⟩
    · rcases h.reaches n c hn with hn | hX | ⟨hc, howns⟩
      · exact Or.inl hn
      · exact Or.inr (Or.inl hX)
      · -- What is new after the first part has the same owners after the second.
        refine Or.inr (Or.inr ⟨hold c hc, ?_⟩)
        intro m hm
        have hk : k.owns m c := (h'.owns m c hm).resolve_right fun hc' => Nat.not_lt_of_le hc'.1 hc.2
        refine ⟨(howns m hk).1, fun hshared => (howns m hk).2 ?_⟩
        exact (h'.shares c hshared).resolve_right fun hc' => Nat.not_lt_of_le hc'.1 hc.2
    · exact Or.inr (Or.inl ⟨Nat.le_trans h.frames hframes, hX⟩)
    · exact Or.inr (Or.inr ⟨hlate c hc, howns⟩)

theorem Grows.mono
    (h : Grows W X l k)
    (hW : ∀ c, W c → V c)
    (hX : ∀ c, X c → Y c) :
    Grows V Y l k := by
  refine ⟨h.cells, h.frames, fun c hc hV => h.content c hc fun hc' => hV (hW c hc'), h.shares, h.owns, ?_⟩
  intro n c hn
  rcases h.reaches n c hn with hn | ⟨hframes, hc⟩ | hn
  · exact Or.inl hn
  · exact Or.inr (Or.inl ⟨hframes, hX c hc⟩)
  · exact Or.inr (Or.inr hn)

theorem Grows.bounded
    (h : Grows W X l k)
    (hl : l.Bounded)
    (hX : ∀ c : Nat, X c → c < l.cells) :
    k.Bounded := by
  intro n c hn
  rcases h.reaches n c hn with hn | ⟨-, hc⟩ | ⟨hc, -⟩
  · exact Nat.lt_of_lt_of_le (hl n c hn) h.cells
  · exact Nat.lt_of_lt_of_le (hX c hc) h.cells
  · exact hc.2

/-- A layout whose new frames reach shared cells only owes nothing to the cells in `X`. -/
theorem Grows.narrow
    (h : Grows W X l k)
    (hX : ∀ c : Nat, X c → c < l.cells)
    (hframes : ∀ n c, l.frames ≤ n → k.Reaches n c → k.shares c) :
    Grows W Store.Nowhere l k := by
  refine ⟨h.cells, h.frames, h.content, h.shares, h.owns, ?_⟩
  intro n c hn
  rcases h.reaches n c hn with hold | ⟨hnew, hc⟩ | hsole
  · exact Or.inl hold
  · rcases h.shares c (hframes n c hnew hn) with hshared | hfresh
    · exact Or.inl (Or.inr (Or.inr hshared))
    · exact absurd (hX c hc) (Nat.not_lt_of_le hfresh.1)
  · exact Or.inr (Or.inr hsole)

/-- Nothing is overwritten, and new frames reach nothing old that is not shared. -/
abbrev Extends : Layout → Layout → Prop :=
  Grows Store.Nowhere Store.Nowhere

theorem Extends.grows
    (h : l.Extends k)
    (W X : CellId → Prop) :
    Grows W X l k :=
  h.mono nofun nofun

theorem Extends.bounded
    (h : l.Extends k)
    (hl : l.Bounded) :
    k.Bounded :=
  Grows.bounded h hl nofun

/-- A frame that was there does not come to reach an old cell. -/
theorem Grows.not_reaches
    {n c : Nat}
    (h : Grows W X l k)
    (hn : n < l.frames)
    (hc : c < l.cells)
    (hnot : ¬ l.Reaches n c) :
    ¬ k.Reaches n c := by
  intro hreaches
  rcases h.reaches n c hreaches with hreaches | ⟨hframes, -⟩ | ⟨hnew, -⟩
  · exact hnot hreaches
  · exact Nat.not_lt_of_le hframes hn
  · exact Nat.not_lt_of_le hnew.1 hc

/-- Without exceptions, no frame comes to reach an old cell. -/
theorem Grows.reaches_of_lt
    {n c : Nat}
    (h : Grows W Store.Nowhere l k)
    (hc : c < l.cells)
    (hreaches : k.Reaches n c) :
    l.Reaches n c := by
  rcases h.reaches n c hreaches with hreaches | ⟨-, hnowhere⟩ | ⟨hnew, -⟩
  · exact hreaches
  · exact hnowhere.elim
  · exact absurd hc (Nat.not_lt_of_le hnew.1)

/-- No other frame reaches a new cell that a frame owns. -/
theorem Grows.not_reaches_new
    {m n c : Nat}
    (h : Grows W X l k)
    (hl : l.Bounded)
    (hX : ∀ c : Nat, X c → c < l.cells)
    (hne : m ≠ n)
    (howns : k.owns m c)
    (hc : l.IsNew k c) :
    ¬ k.Reaches n c := by
  intro hreaches
  rcases h.reaches n c hreaches with hreaches | ⟨-, hold⟩ | ⟨-, hsole⟩
  · exact hl.not_reaches hc n hreaches
  · exact Nat.not_lt_of_le hc.1 (hX c hold)
  · exact hne (hsole m howns).1

/-- No frame owns what is shared. -/
def Separate (l : Layout) : Prop :=
  ∀ n c, l.owns n c → ¬ l.shares c

theorem Grows.separate
    (h : Grows W X l k)
    (hl : l.Bounded)
    (hX : ∀ c : Nat, X c → c < l.cells)
    (hseparate : l.Separate) :
    k.Separate := by
  intro n c hn hshared
  rcases h.owns n c hn with hold | hc
  · rcases h.shares c hshared with hshared | hc
    · exact hseparate n c hold hshared
    · exact hl.not_reaches hc n (Or.inr (Or.inl hold))
  · rcases h.reaches n c (Or.inr (Or.inl hn)) with hreaches | ⟨-, hold⟩ | ⟨-, hsole⟩
    · exact hl.not_reaches hc n hreaches
    · exact Nat.not_lt_of_le hc.1 (hX c hold)
    · exact (hsole n hn).2 hshared

/-- One frame reaches none of the cells that the other owns, with exceptions. -/
def Apart (E : CellId → Prop) (n m : Nat) (l : Layout) : Prop :=
  ∀ c, l.owns m c → E c ∨ ¬ l.Reaches n c

theorem Grows.apart
    {E : CellId → Prop} {n m : Nat}
    (h : Grows W X l k)
    (hl : l.Bounded)
    (hX : ∀ c : Nat, X c → c < l.cells)
    (hn : n < l.frames)
    (hne : m ≠ n)
    (hapart : l.Apart E n m) :
    k.Apart E n m := by
  intro c hc
  rcases h.owns m c hc with hold | hnew
  · exact (hapart c hold).imp_right (h.not_reaches hn (hl m c (Or.inr (Or.inl hold))))
  · exact Or.inr (h.not_reaches_new hl hX hne hc hnew)

/-- No frame reaches what another one owns. -/
def Confined (l : Layout) : Prop :=
  ∀ m n c, l.owns m c → l.Reaches n c → m = n

theorem Grows.confined
    (h : Grows W Store.Nowhere l k)
    (hl : l.Bounded)
    (hconfined : l.Confined) :
    k.Confined := by
  intro m n c howns hreaches
  rcases h.owns m c howns with hold | hnew
  · exact hconfined m n c hold (h.reaches_of_lt (hl m c (Or.inr (Or.inl hold))) hreaches)
  · exact Decidable.byContradiction fun hne => h.not_reaches_new hl nofun hne howns hnew hreaches

end Layout

/-! ## Stores -/

/-- No reference is on its way. -/
def Nobody : Nat → CellId → Prop := fun _ _ => False

/-- The layout of a store.  Besides what the store says, the cells in `P` are shared, and frames hold the cells
in `F`. -/
def Store.layout (P : CellId → Prop) (F : Nat → CellId → Prop) (s : Store) : Layout where
  cells := s.cells.size
  content := s.read
  frames := s.frames.size
  shares c := s.Shares c ∨ P c
  owns n c := ∃ f, s.frames[n]? = some f ∧ f.Owns c
  holds n c := (∃ f, s.frames[n]? = some f ∧ f.Holds c) ∨ F n c

namespace Store

open Layout

variable {s t : Store} {f g : Frame} {n : Nat} {W X P : CellId → Prop} {F : Nat → CellId → Prop}

theorem extends_of_eq
    (h : t = s) :
    (s.layout P F).Extends (t.layout P F) := by
  rw [h]
  exact .refl _ _ _

/-- What was on its way is not any more. -/
theorem extends_forget (P : CellId → Prop) (F : Nat → CellId → Prop) (s : Store) :
    (s.layout P F).Extends (s.layout P Nobody) := by
  refine ⟨Nat.le_refl _, Nat.le_refl _, fun _ _ _ => rfl, fun _ => Or.inl, fun _ _ => Or.inl, ?_⟩
  rintro w c ((hw | hw) | hw | hc)
  · exact Or.inl (Or.inl (Or.inl hw))
  · exact hw.elim
  · exact Or.inl (Or.inr (Or.inl hw))
  · exact Or.inl (Or.inr (Or.inr hc))

theorem shares_layout
    (h : s.Changes W t)
    {c : CellId}
    (hc : t.Shares c ∨ P c) :
    (s.Shares c ∨ P c) ∨ s.IsNew t c := by
  rcases hc with hc | hc
  · exact (h.shares c hc).imp_left Or.inl
  · exact Or.inl (Or.inr hc)

/-- A reserved cell is not shared. -/
theorem Reserves.not_shares
    {c : Nat}
    (h : s.Reserves t c)
    (hs : (s.layout P F).Bounded) :
    ¬ (t.Shares c ∨ P c) := by
  rintro (hc | hc)
  · exact Nat.not_lt_of_le h.1.1 (hs 0 c (Or.inr (Or.inr (Or.inl (h.2 hc)))))
  · exact Nat.not_lt_of_le h.1.1 (hs 0 c (Or.inr (Or.inr (Or.inr hc))))

/-- Data changes, but frames do not. -/
theorem grows_of_changes
    (hs : (s.layout P Nobody).Bounded)
    (h : s.Changes W t)
    (hframes : t.frames = s.frames) :
    Grows W Nowhere (s.layout P Nobody) (t.layout P Nobody) := by
  refine .of_owner hs 0 h.size ?_ h.read (fun c => shares_layout h) ?_ ?_
  · exact Nat.le_of_eq (congrArg Array.size hframes.symm)
  · rintro w c ⟨f, hf, hc⟩
    exact Or.inl ⟨f, hframes ▸ hf, hc⟩
  · rintro w c (⟨f, hf, hc⟩ | hc)
    · exact Or.inl (Or.inl (Or.inl ⟨f, hframes ▸ hf, hc⟩))
    · exact hc.elim

/-- A frame may have got what was on its way to it. -/
theorem extends_setFrame
    (hflat : s.IsFlat)
    (hs : (s.layout P F).Bounded)
    (hf : s.frames[n]? = some f)
    (hkeeps : f.Keeps g)
    (hholds : ∀ c, g.Holds c → f.Holds c ∨ F n c) :
    (s.layout P F).Extends ((s.setFrame n g).layout P Nobody) := by
  have hchanges := changes_setFrame (W := Nowhere) hflat hf hkeeps.procedure
  refine .of_owner hs 0 (Nat.le_refl _) ?_ (fun _ _ _ => rfl) (fun c => shares_layout hchanges) ?_ ?_
  · exact Nat.le_of_eq (size_frames_setFrame s n g).symm
  · rintro w c ⟨h, hh, hc⟩
    rcases getElem?_frames_setFrame hh with ⟨rfl, rfl⟩ | hh
    · exact Or.inl ⟨f, hf, hkeeps.owns hc⟩
    · exact Or.inl ⟨h, hh, hc⟩
  · rintro w c (⟨h, hh, hc⟩ | hc)
    · rcases getElem?_frames_setFrame hh with ⟨rfl, rfl⟩ | hh
      · rcases hholds c hc with hc | hc
        · exact Or.inl (Or.inl (Or.inl ⟨f, hf, hc⟩))
        · exact Or.inl (Or.inl (Or.inr hc))
      · exact Or.inl (Or.inl (Or.inl ⟨h, hh, hc⟩))
    · exact hc.elim

/-- A frame is added whose variables are new, and which has no references in its slots. -/
theorem extends_newFrame
    (hs : (s.layout P Nobody).Bounded)
    (h : s.Changes Nowhere t)
    (hframes : t.frames = s.frames)
    (hstatics : ∀ name c, (name, c) ∈ f.procedure.statics → s.Shares c ∨ P c)
    (howns : ∀ c, f.Owns c → s.Reserves t c)
    (hholds : ∀ c, ¬ f.Holds c) :
    (s.layout P Nobody).Extends ((t.newFrame f).2.layout P Nobody) := by
  have hshares : ∀ c, (t.newFrame f).2.Shares c ∨ P c → t.Shares c ∨ s.Shares c ∨ P c := by
    rintro c (hc | hc)
    · exact (shares_newFrame hc).imp_right fun ⟨name, hc⟩ => hstatics name c hc
    · exact Or.inr (Or.inr hc)
  refine .of_owner hs s.frames.size h.size ?_ h.read ?_ ?_ ?_
  · simp [layout, newFrame, hframes]
  · intro c hc
    rcases hshares c hc with hc | hc
    · exact (h.shares c hc).imp_left Or.inl
    · exact Or.inl hc
  · rintro w c ⟨g, hg, hc⟩
    rcases getElem?_frames_newFrame hg with ⟨rfl, rfl⟩ | hg
    · have hreserves := howns c hc
      refine Or.inr ⟨by rw [hframes], hreserves.1, fun hshared => ?_⟩
      rcases hshares c hshared with hshared | hshared
      · exact hreserves.not_shares hs (Or.inl hshared)
      · exact Nat.not_lt_of_le hreserves.1.1 (hs 0 c (Or.inr (Or.inr hshared)))
    · exact Or.inl ⟨g, hframes ▸ hg, hc⟩
  · rintro w c (⟨g, hg, hc⟩ | hc)
    · rcases getElem?_frames_newFrame hg with ⟨rfl, rfl⟩ | hg
      · exact absurd hc (hholds c)
      · exact Or.inl (Or.inl (Or.inl ⟨g, hframes ▸ hg, hc⟩))
    · exact hc.elim

/-! ## Instructions -/

/-- Who owns what after an instruction: at most one frame owns new cells. -/
theorem owns_handles
    {x : Executed}
    (hf : s.frames[n]? = some f)
    (h : s.Handles f x) :
    ∃ owner, ∀ w c, ((x.2.2.setFrame n x.2.1).layout P Nobody).owns w c →
      (s.layout P Nobody).owns w c ∨ (w = owner ∧ s.Reserves x.2.2 c) := by
  cases h.furnishes with
  | own hframes howns =>
      refine ⟨n, ?_⟩
      rintro w c ⟨g, hg, hc⟩
      rcases getElem?_frames_setFrame hg with ⟨rfl, rfl⟩ | hg
      · exact (howns c hc).imp (fun hc => ⟨f, hf, hc⟩) fun hc => ⟨rfl, hc⟩
      · exact Or.inl ⟨g, hframes ▸ hg, hc⟩
  | copy copy hframes howns hprocedure hcopy hholds =>
      refine ⟨s.frames.size, ?_⟩
      rintro w c ⟨g, hg, hc⟩
      rcases getElem?_frames_setFrame hg with ⟨rfl, rfl⟩ | hg
      · exact Or.inl ⟨f, hf, howns c hc⟩
      · rw [hframes] at hg
        rcases getElem?_frames_newFrame hg with ⟨rfl, rfl⟩ | hg
        · exact Or.inr ⟨rfl, hcopy c hc⟩
        · exact Or.inl ⟨g, hg, hc⟩

/-- Who holds what after an instruction: the copy of a frame holds what the values of its slots refer to. -/
theorem holds_handles
    {x : Executed}
    (hf : s.frames[n]? = some f)
    (h : s.Handles f x)
    {w : Nat} {c : CellId}
    (hc : ((x.2.2.setFrame n x.2.1).layout P Nobody).holds w c) :
    (s.layout P Nobody).Reaches w c ∨ x.2.2.Shares c ∨ s.Strays f x.2.1 x.2.2 c ∨
      (s.frames.size ≤ w ∧ ∃ slot, f.value slot = .ok (.ref c)) := by
  rcases hc with ⟨g, hg, hc⟩ | hc
  · rcases getElem?_frames_setFrame hg with ⟨rfl, rfl⟩ | hg
    · rcases h.holds c hc with hc | hc | hc | hc
      · exact Or.inl (Or.inl (Or.inl ⟨f, hf, hc⟩))
      · exact Or.inl (Or.inr (Or.inl ⟨f, hf, hc⟩))
      · exact Or.inr (Or.inl hc)
      · exact Or.inr (Or.inr (Or.inl hc))
    · cases h.furnishes with
      | own hframes howns => exact Or.inl (Or.inl (Or.inl ⟨g, hframes ▸ hg, hc⟩))
      | copy copy hframes howns hprocedure hcopy hholds =>
          rw [hframes] at hg
          rcases getElem?_frames_newFrame hg with ⟨rfl, rfl⟩ | hg
          · exact Or.inr (Or.inr (Or.inr ⟨Nat.le_refl _, hholds c hc⟩))
          · exact Or.inl (Or.inl (Or.inl ⟨g, hg, hc⟩))
  · exact hc.elim

/-- An instruction changes cells that its frame holds. -/
theorem grows_handles
    {x : Executed}
    (hs : (s.layout P Nobody).Bounded)
    (hf : s.frames[n]? = some f)
    (hframe : x.2.2.frames[n]? = some f)
    (h : s.Handles f x) :
    Grows f.Holds (fun c => ∃ slot, f.value slot = .ok (.ref c)) (s.layout P Nobody)
      ((x.2.2.setFrame n x.2.1).layout P Nobody) := by
  obtain ⟨owner, howns⟩ := owns_handles (P := P) hf h
  have hset := changes_setFrame (W := f.Holds) h.changes.flat hframe h.procedure
  have hchanges := h.changes.trans hset
  have hframes : s.frames.size ≤ (x.2.2.setFrame n x.2.1).frames.size := by
    rw [size_frames_setFrame]
    cases h.furnishes with
    | own hframes _ => exact Nat.le_of_eq (congrArg Array.size hframes.symm)
    | copy _ hframes => simp [hframes]
  have hold : ∀ c, s.IsNew x.2.2 c → ∀ w, ¬ (s.layout P Nobody).owns w c :=
    fun c hnew w hw => hs.not_reaches (k := x.2.2.layout P Nobody) hnew w (Or.inr (Or.inl hw))
  refine .of_owner hs owner hchanges.size hframes hchanges.read (fun c => shares_layout hchanges) ?_ ?_
  · intro w c hw
    rcases howns w c hw with hw | ⟨hw, hc⟩
    · exact Or.inl hw
    · exact Or.inr ⟨hw, hc.1, (hc.changes hset).not_shares hs⟩
  · intro w c hw
    rcases holds_handles hf h hw with hw | hc | hc | hc
    · exact Or.inl hw
    · rcases h.changes.shares c hc with hold | hnew
      · exact Or.inl (Or.inr (Or.inr (Or.inl hold)))
      · -- A new cell that is shared is nobody's.
        refine Or.inr (Or.inr (Or.inr ⟨hnew, fun m hm => ?_⟩))
        rcases howns m c hm with hm | ⟨-, hreserves⟩
        · exact hold c hnew m hm
        · exact hreserves.not_shares hs (Or.inl hc)
    · obtain ⟨hnew, hsame, hkept⟩ := hc
      refine Or.inr (Or.inr (Or.inr ⟨hnew, ?_⟩))
      rintro m ⟨g, hg, hc⟩
      rcases getElem?_frames_setFrame hg with ⟨rfl, rfl⟩ | hg
      · exact hold c hnew m ⟨f, hf, hkept c hc⟩
      · exact hold c hnew m ⟨g, hsame ▸ hg, hc⟩
    · exact Or.inr (Or.inr (Or.inl hc))

end Store

end Layout

end GoalDirected
