import GoalDirected.Store.Basic
import Mathlib.Data.List.Perm.Subperm
import Mathlib.Logic.Relation

/-!
# Images of values

**Input.** A value, which may be a list whose elements are lists in their turn, and so on.

**Specification.** `Store.Shows` says what the image of a value is, with no bound on its levels.  `Store.Unfolds`
says that nothing in the value holds itself.

**Argument.** What a list or a reference holds is read from a cell.  If nothing holds itself, a way down passes no
cell twice, so it is no longer than the number of cells.

**Results.**
* `image?_eq_some_iff`: `Store.image?` gives the image that a value has.
* `isSome_image?_iff`: a value has an image exactly if nothing in it holds itself.
* `tells_traceEntry`: what the entry of a frame in a traceback says.
-/

namespace GoalDirected

section Images

/-- A list holds its elements, and a reference what its cell contains. -/
inductive Store.Holds (s : Store) : Value → Value → Prop
  | element
      {id : Nat} {v : Value}
      (h : v ∈ (s.listValues id).toList) :
      Holds s (.list id) v
  | content (cell : CellId) : Holds s (.ref cell) (s.read cell)

/-- Nothing in the value holds itself. -/
def Store.Unfolds (s : Store) (v : Value) : Prop :=
  ∀ w, Relation.ReflTransGen s.Holds v w → ¬ Relation.TransGen s.Holds w w

/-- The image of a value: texts are quoted, and lists and references show what they hold. -/
inductive Store.Shows (s : Store) : Value → String → Prop
  | nil : Shows s .nil "nil"
  | number (x : Float) : Shows s (.number x) (Number.text x)
  | text (t : String) : Shows s (.text t) (Text.quote t)
  | list
      {id : Nat} {shown : List (Value × String)}
      (helements : shown.map Prod.fst = (s.listValues id).toList)
      (hshown : ∀ p ∈ shown, Shows s p.1 p.2) :
      Shows s (.list id) ("[" ++ ", ".intercalate (shown.map Prod.snd) ++ "]")
  | record (id : Nat) : Shows s (.record id) ("record " ++ (s.record id).name)
  | procedure (id : Nat) :
      Shows s (.procedure id) ("procedure " ++ (s.callables[id]?.map Callable.name).getD "")
  | coexpression (id : Nat) : Shows s (.coexpression id) ("co-expression #" ++ toString id)
  | channel (id : Nat) : Shows s (.channel id) ("channel #" ++ toString id)
  | ref
      {cell : CellId} {t : String}
      (h : Shows s (s.read cell) t) :
      Shows s (.ref cell) ("(variable = " ++ t ++ ")")

/-- The entry says what it has to say of the frame: its procedure, its arguments, where it is in the text of the
program, and what it has found offending. -/
structure Store.Tells (s : Store) (f : Frame) (entry : TraceEntry) : Prop where
  procedure : entry.procedure = f.procedure.code.qualified
  args : List.Forall₂ s.Shows f.args entry.args
  coord : entry.coord = f.coord
  offender : Option.Rel s.Shows f.offender entry.offender

namespace Store

variable {s : Store} {v w : Value} {t : String} {n : Nat}

/-! ## Lists of images -/

theorem mapM_eq_none_iff
    {α β : Type} {f : α → Option β} {xs : List α} :
    xs.mapM f = none ↔ ∃ x ∈ xs, f x = none := by
  induction xs with
  | nil => simp
  | cons x xs ih =>
      cases hx : f x with
      | none => simp [hx]
      | some y => cases hxs : xs.mapM f <;> simp_all

/-- Images that are found one by one are found together. -/
theorem mapM_of_forall
    {f : Value → Option String} {shown : List (Value × String)}
    (h : ∀ p ∈ shown, f p.1 = some p.2) :
    (shown.map Prod.fst).mapM f = some (shown.map Prod.snd) := by
  induction shown with
  | nil => rfl
  | cons p shown ih =>
      have hp := h p List.mem_cons_self
      have hrest := ih fun q hq => h q (List.mem_cons_of_mem p hq)
      simp [hp, hrest]

theorem exists_of_mapM
    {f : Value → Option String} {values : List Value} {images : List String}
    (h : values.mapM f = some images) :
    ∃ shown : List (Value × String), shown.map Prod.fst = values ∧ shown.map Prod.snd = images ∧
      ∀ p ∈ shown, f p.1 = some p.2 := by
  induction values generalizing images with
  | nil =>
      cases h
      exact ⟨[], rfl, rfl, nofun⟩
  | cons v values ih =>
      simp only [List.mapM_cons, Option.bind_eq_bind, Option.bind_eq_some_iff] at h
      obtain ⟨image, hv, others, hothers, himages⟩ := h
      cases himages
      obtain ⟨shown, hvalues, himages, hshown⟩ := ih hothers
      refine ⟨(v, image) :: shown, by simp [hvalues], by simp [himages], ?_⟩
      intro p hp
      rcases List.mem_cons.mp hp with rfl | hp
      · exact hv
      · exact hshown p hp

/-! ## Ways down -/

/-- What is held is read from a cell, and nothing but a cell of the store holds anything. -/
theorem Holds.exists_cell
    (h : s.Holds v w) :
    ∃ cell, s.read cell = w := by
  cases h with
  | content cell => exact ⟨cell, rfl⟩
  | element h =>
      obtain ⟨cell, -, hcell⟩ := by simpa [listValues] using h
      exact ⟨cell, hcell⟩

theorem exists_holds_of_imageWithin
    (h : s.imageWithin (n + 1) v = none) :
    ∃ w, s.Holds v w ∧ s.imageWithin n w = none := by
  cases v with
  | list id =>
      simp only [imageWithin, Option.map_eq_none_iff, mapM_eq_none_iff] at h
      obtain ⟨w, hw, hnone⟩ := h
      exact ⟨w, .element hw, hnone⟩
  | ref cell =>
      simp only [imageWithin, Option.map_eq_none_iff] at h
      exact ⟨_, .content cell, h⟩
  | _ => cases h

/-- A cell with a content that has no image is a cell of the store. -/
theorem lt_size_of_imageWithin
    {cell : Nat}
    (h : s.imageWithin n (s.read cell) = none) :
    cell < s.cells.size := by
  by_contra hcell
  have hnil : s.read cell = .nil := by simp [read, Array.getD, hcell]
  rw [hnil] at h
  cases n <;> cases h

/-- A value with too many levels has a way down through as many cells. -/
theorem exists_cells_of_imageWithin
    (h : s.imageWithin n v = none) :
    ∃ cells : List CellId, cells.length = n ∧
      (∀ cell ∈ cells, cell < s.cells.size ∧ Relation.TransGen s.Holds v (s.read cell)) ∧
      cells.Pairwise fun c d => Relation.TransGen s.Holds (s.read c) (s.read d) := by
  induction n generalizing v with
  | zero => exact ⟨[], rfl, nofun, .nil⟩
  | succ n ih =>
      obtain ⟨w, hw, hnone⟩ := exists_holds_of_imageWithin h
      obtain ⟨cell, rfl⟩ := hw.exists_cell
      obtain ⟨cells, hlength, hcells, hordered⟩ := ih hnone
      refine ⟨cell :: cells, by rw [List.length_cons, hlength], ?_, ?_⟩
      · intro other hother
        rcases List.mem_cons.mp hother with rfl | hother
        · exact ⟨lt_size_of_imageWithin hnone, .single hw⟩
        · exact ⟨(hcells other hother).1, .head hw (hcells other hother).2⟩
      · exact List.Pairwise.cons (fun other hother => (hcells other hother).2) hordered

/-- If nothing in a value holds itself, it has no more levels than there are cells. -/
theorem Unfolds.image?_ne_none
    (h : s.Unfolds v) :
    s.image? v ≠ none := by
  intro hnone
  obtain ⟨cells, hlength, hcells, hordered⟩ := exists_cells_of_imageWithin hnone
  have hnodup : cells.Nodup := by
    refine hordered.imp_of_mem fun {c d} hc _ hholds heq => ?_
    subst heq
    exact h _ (hcells c hc).2.to_reflTransGen hholds
  have hsubset : cells ⊆ List.range s.cells.size := fun c hc => List.mem_range.mpr (hcells c hc).1
  have hle := (List.subperm_of_subset hnodup hsubset).length_le
  rw [hlength, List.length_range] at hle
  omega

/-! ## Images -/

theorem shows_of_imageWithin
    (h : s.imageWithin n v = some t) :
    s.Shows v t := by
  induction n generalizing v t with
  | zero => cases v <;> cases h <;> constructor
  | succ n ih =>
      cases v with
      | list id =>
          obtain ⟨images, himages, rfl⟩ := Option.map_eq_some_iff.mp h
          obtain ⟨shown, hvalues, rfl, hshown⟩ := exists_of_mapM himages
          exact .list hvalues fun p hp => ih (hshown p hp)
      | ref cell =>
          obtain ⟨image, himage, rfl⟩ := Option.map_eq_some_iff.mp h
          exact .ref (ih himage)
      | _ => cases h; constructor

/-- An image that is found at all is the one that the value has. -/
theorem Shows.imageWithin
    (h : s.Shows v t)
    (hsome : s.imageWithin n v ≠ none) :
    s.imageWithin n v = some t := by
  induction h generalizing n with
  | @list id shown helements _ ih =>
      cases n with
      | zero => exact absurd rfl hsome
      | succ n =>
          simp only [Store.imageWithin, ← helements, ne_eq, Option.map_eq_none_iff, mapM_eq_none_iff] at hsome ⊢
          rw [mapM_of_forall fun p hp => ih p hp fun hnone => hsome ⟨p.1, List.mem_map_of_mem hp, hnone⟩]
          rfl
  | ref _ ih =>
      cases n with
      | zero => exact absurd rfl hsome
      | succ n =>
          simp only [Store.imageWithin, ne_eq, Option.map_eq_none_iff] at hsome ⊢
          rw [ih hsome]
          rfl
  | _ => cases n <;> rfl

/-- A value with an image is built up from below. -/
theorem Shows.acc
    (h : s.Shows v t) :
    Acc (Function.swap s.Holds) v := by
  induction h with
  | list helements _ ih =>
      refine ⟨_, fun w hw => ?_⟩
      cases hw with
      | element hw =>
          rw [← helements] at hw
          obtain ⟨p, hp, rfl⟩ := List.mem_map.mp hw
          exact ih p hp
  | ref _ ih =>
      refine ⟨_, fun w hw => ?_⟩
      cases hw
      exact ih
  | _ => exact ⟨_, fun w hw => nomatch hw⟩

/-- What is built up from below does not hold itself. -/
theorem Shows.unfolds
    (h : s.Shows v t) :
    s.Unfolds v := by
  intro w hw
  have hbelow : Acc (Relation.TransGen (Function.swap s.Holds)) w := by
    refine Acc.transGen ?_
    induction hw with
    | refl => exact h.acc
    | tail _ hlast ih => exact ih.inv hlast
  clear hw
  induction hbelow with
  | intro w _ ih => exact fun hself => ih w (Relation.transGen_swap.mpr hself) hself

/-- The image that is computed is the one that the value has. -/
theorem image?_eq_some_iff : s.image? v = some t ↔ s.Shows v t :=
  ⟨shows_of_imageWithin, fun h => h.imageWithin h.unfolds.image?_ne_none⟩

/-- A value has an image exactly if nothing in it holds itself. -/
theorem isSome_image?_iff : (s.image? v).isSome = true ↔ s.Unfolds v := by
  constructor
  · intro h
    obtain ⟨t, ht⟩ := Option.isSome_iff_exists.mp h
    exact (image?_eq_some_iff.mp ht).unfolds
  · exact fun h => Option.isSome_iff_ne_none.mpr h.image?_ne_none

/-! ## Stores with the same images -/

section Congr

variable {t : Store}

theorem shows_congr
    (h : t.image? = s.image?) :
    t.Shows = s.Shows := by
  funext v image
  rw [← image?_eq_some_iff (s := t), ← image?_eq_some_iff (s := s), h]

theorem unfolds_congr
    (h : t.image? = s.image?) :
    t.Unfolds = s.Unfolds := by
  funext v
  rw [← isSome_image?_iff (s := t), ← isSome_image?_iff (s := s), h]

theorem tells_congr
    (h : t.image? = s.image?)
    {f : Frame} {entry : TraceEntry} :
    t.Tells f entry ↔ s.Tells f entry := by
  have hshows := shows_congr h
  refine ⟨fun htells => ?_, fun htells => ?_⟩
  · exact ⟨htells.procedure, hshows ▸ htells.args, htells.coord, hshows ▸ htells.offender⟩
  · exact ⟨htells.procedure, hshows ▸ htells.args, htells.coord, hshows ▸ htells.offender⟩

end Congr

/-! ## Entries of frames -/

variable {f : Frame}

theorem areShown_iff : s.areShown f.shown = true ↔ ∀ v ∈ f.shown, s.Unfolds v := by
  simp only [areShown, List.all_eq_true, isSome_image?_iff]

theorem shows_image
    (h : s.Unfolds v) :
    s.Shows v (s.image v) := by
  obtain ⟨t, ht⟩ := Option.ne_none_iff_exists'.mp h.image?_ne_none
  rw [image, ht]
  exact image?_eq_some_iff.mp ht

/-- The entry of a frame in a traceback says what it has to say of the frame. -/
theorem tells_traceEntry
    (h : ∀ v ∈ f.shown, s.Unfolds v) :
    s.Tells f (s.traceEntry f) where
  procedure := rfl
  args := by
    refine List.forall₂_map_right_iff.mpr (List.forall₂_same.mpr fun v hv => ?_)
    exact shows_image (h v (List.mem_append_left _ hv))
  coord := rfl
  offender := by
    simp only [traceEntry]
    cases hoffender : f.offender with
    | none => exact .none
    | some v => exact .some (shows_image (h v (by simp [Frame.shown, hoffender])))

end Store

end Images

end GoalDirected
