import GoalDirected.Proofs.Select.Choice

/-!
# How the primitives change data

A store is flat when no cell and no queue holds a reference.  A cell is shared when a list, a record, an
environment, a namespace or the statics of a procedure lead to it, so that every activation may come upon
it; the other cells are those of variables.

* `Changes W s t`: both stores are flat, cells are only added, none but those in `W` has a new content, and
  whatever is shared now was shared before or is new.
* `changes_newList`, `changes_newRecord`, `changes_resolve`, `changes_declare`, `changes_choose`: lists, records,
  dynamic variables, global names and selects make no other changes.
-/

namespace GoalDirected

section Changes

namespace Store

/-! ## Flat stores -/

/-- No cell and no queue holds a reference. -/
structure IsFlat (s : Store) : Prop where
  cells : ∀ (c : CellId) (v : Value), s.cells[c]? = some v → v.isRef = false
  queues : ∀ (n : Nat) (c : Channel), s.channels[n]? = some c → ∀ v ∈ c.queue, v.isRef = false

theorem IsFlat.read
    {s : Store}
    (h : s.IsFlat)
    (c : CellId) :
    (s.read c).isRef = false := by
  unfold Store.read
  rw [Array.getD_eq_getD_getElem?]
  cases hc : s.cells[c]? with
  | none => rfl
  | some v => exact h.cells c v hc

/-- A value that is no reference is its own content. -/
theorem derefWithin_of_not_isRef
    (s : Store) {v : Value} (fuel : Nat)
    (h : v.isRef = false) :
    s.derefWithin fuel v = v := by
  cases fuel with
  | zero => rfl
  | succ fuel =>
      cases v with
      | ref cell => cases h
      | _ => rfl

/-- One reference leads to something that is none. -/
theorem IsFlat.derefWithin_succ
    {s : Store}
    (h : s.IsFlat)
    (fuel : Nat) (v : Value) :
    s.derefWithin (fuel + 1) v = s.derefWithin 1 v := by
  cases v with
  | ref cell => exact (s.derefWithin_of_not_isRef fuel (h.read cell)).trans rfl
  | _ => rfl

theorem IsFlat.deref
    {s : Store}
    (h : s.IsFlat)
    (v : Value) :
    (s.deref v).isRef = false := by
  have hone : s.deref v = s.derefWithin 1 v := h.derefWithin_succ _ v
  rw [hone]
  cases v with
  | ref cell => exact h.read cell
  | _ => rfl

theorem IsFlat.map_deref
    {s : Store}
    (h : s.IsFlat)
    (args : List Value) :
    ∀ v ∈ args.map s.deref, v.isRef = false := by
  intro v hv
  obtain ⟨w, -, rfl⟩ := List.mem_map.mp hv
  exact h.deref w

/-! ## Shared cells -/

/-- A cell that is not only a variable of an activation. -/
inductive Shares (s : Store) : CellId → Prop
  | element
      {id : Nat} {cells : Array CellId} {c : CellId}
      (hlist : s.lists[id]? = some cells)
      (hc : c ∈ cells) :
      Shares s c
  | field
      {id : Nat} {r : Record} {name : String} {c : CellId}
      (hrecord : s.records[id]? = some r)
      (hc : (name, c) ∈ r.fields) :
      Shares s c
  | dynamic
      {id : Nat} {n : EnvironmentNode} {name : String} {c : CellId}
      (hnode : s.nodes[id]? = some n)
      (hc : (name, some c) ∈ n.vars) :
      Shares s c
  | global
      {id : Nat} {n : Namespace} {name : String} {c : CellId}
      (hnamespace : s.namespaces[id]? = some n)
      (hc : (name, c) ∈ n.entries) :
      Shares s c
  | static
      {id : Nat} {p : Procedure} {name : String} {c : CellId}
      (hcallable : s.callables[id]? = some (.procedure p))
      (hc : (name, c) ∈ p.statics) :
      Shares s c
  /-- A static of a procedure that runs, which need not be declared. -/
  | running
      {id : Nat} {f : Frame} {name : String} {c : CellId}
      (hframe : s.frames[id]? = some f)
      (hc : (name, c) ∈ f.procedure.statics) :
      Shares s c

/-- The part of a store that says what is shared. -/
structure Sharing where
  lists : Array (Array CellId)
  records : Array Record
  nodes : Array EnvironmentNode
  namespaces : Array Namespace
  callables : Array Callable
  frames : Array Frame

def sharing (s : Store) : Sharing :=
  ⟨s.lists, s.records, s.nodes, s.namespaces, s.callables, s.frames⟩

theorem Shares.of_sharing
    {s t : Store} {c : CellId}
    (h : t.Shares c)
    (hsharing : t.sharing = s.sharing) :
    s.Shares c := by
  simp only [sharing, Sharing.mk.injEq] at hsharing
  obtain ⟨hlists, hrecords, hnodes, hnamespaces, hcallables, hframes⟩ := hsharing
  cases h with
  | element hlist hc => exact .element (hlists ▸ hlist) hc
  | field hrecord hc => exact .field (hrecords ▸ hrecord) hc
  | dynamic hnode hc => exact .dynamic (hnodes ▸ hnode) hc
  | global hnamespace hc => exact .global (hnamespaces ▸ hnamespace) hc
  | static hcallable hc => exact .static (hcallables ▸ hcallable) hc
  | running hframe hc => exact .running (hframes ▸ hframe) hc

/-! ## Changes -/

/-- A cell that one store has and an earlier one had not. -/
def IsNew (s t : Store) (c : Nat) : Prop :=
  s.cells.size ≤ c ∧ c < t.cells.size

/-- Data has changed, and no old cell outside `W` has a new content. -/
structure Changes (W : CellId → Prop) (s t : Store) : Prop where
  flat : t.IsFlat
  size : s.cells.size ≤ t.cells.size
  read : ∀ c : Nat, c < s.cells.size → ¬ W c → t.read c = s.read c
  shares : ∀ c, t.Shares c → s.Shares c ∨ s.IsNew t c

/-- No cell. -/
def Nowhere : CellId → Prop := fun _ => False

variable {s t u : Store} {W X : CellId → Prop}

theorem Changes.refl
    (hs : s.IsFlat) :
    s.Changes W s :=
  ⟨hs, Nat.le_refl _, fun _ _ _ => rfl, fun _ h => Or.inl h⟩

/-- Only the old cells count. -/
theorem Changes.trans_new
    (h : s.Changes W t)
    (h' : t.Changes X u)
    (hX : ∀ c : Nat, c < s.cells.size → X c → W c) :
    s.Changes W u := by
  refine ⟨h'.flat, Nat.le_trans h.size h'.size, ?_, ?_⟩
  · intro c hc hW
    rw [h'.read c (Nat.lt_of_lt_of_le hc h.size) fun hc' => hW (hX c hc hc'), h.read c hc hW]
  · intro c hc
    rcases h'.shares c hc with hc | hc
    · rcases h.shares c hc with hc | hc
      · exact Or.inl hc
      · exact Or.inr ⟨hc.1, Nat.lt_of_lt_of_le hc.2 h'.size⟩
    · exact Or.inr ⟨Nat.le_trans h.size hc.1, hc.2⟩

theorem Changes.trans
    (h : s.Changes W t)
    (h' : t.Changes W u) :
    s.Changes W u :=
  h.trans_new h' fun _ _ hc => hc

theorem Changes.mono
    (h : s.Changes W t)
    (hW : ∀ c, W c → X c) :
    s.Changes X t :=
  ⟨h.flat, h.size, fun c hc hX => h.read c hc fun hc' => hX (hW c hc'), h.shares⟩

/-- Nothing has changed but what data does not depend on. -/
theorem Changes.of_eq
    (hs : s.IsFlat)
    (hcells : t.cells = s.cells)
    (hchannels : t.channels = s.channels)
    (hsharing : t.sharing = s.sharing) :
    s.Changes W t := by
  refine ⟨⟨?_, ?_⟩, by simp [hcells], ?_, fun c hc => Or.inl (hc.of_sharing hsharing)⟩
  · rw [hcells]
    exact hs.cells
  · rw [hchannels]
    exact hs.queues
  · intro c _ _
    simp only [Store.read, hcells]

/-! ## Cells, lists, records, channels -/

theorem changes_write
    {v : Value}
    (hs : s.IsFlat)
    (cell : CellId)
    (hv : v.isRef = false) :
    s.Changes (· = cell) (s.write cell v) := by
  refine ⟨⟨?_, hs.queues⟩, by simp, ?_, fun c hc => Or.inl (hc.of_sharing rfl)⟩
  · intro c w hc
    simp only [Store.write, Array.getElem?_setIfInBounds] at hc
    split at hc
    · split at hc
      · cases hc
        exact hv
      · cases hc
    · exact hs.cells c w hc
  · intro c _ hc
    exact s.read_write_of_ne v hc

@[simp] theorem sharing_allocate (s : Store) (v : Value) :
    (s.allocate v).2.sharing = s.sharing := rfl

theorem changes_allocate
    {v : Value}
    (hs : s.IsFlat)
    (hv : v.isRef = false) :
    s.Changes W (s.allocate v).2 := by
  refine ⟨⟨?_, hs.queues⟩, by simp, ?_, fun c hc => Or.inl (hc.of_sharing rfl)⟩
  · intro c w hc
    simp only [Store.allocate, Array.getElem?_push] at hc
    split at hc
    · cases hc
      exact hv
    · exact hs.cells c w hc
  · intro c hc _
    exact s.read_allocate_of_lt v hc

@[simp] theorem sharing_allocateAll (s : Store) (values : List Value) :
    (s.allocateAll values).2.sharing = s.sharing := by
  induction values generalizing s with
  | nil => rfl
  | cons v rest ih => simp [allocateAll, ih]

theorem changes_allocateAll
    {values : List Value}
    (hs : s.IsFlat)
    (hvalues : ∀ v ∈ values, v.isRef = false) :
    s.Changes W (s.allocateAll values).2 := by
  induction values generalizing s with
  | nil => exact Changes.refl hs
  | cons v rest ih =>
      have hv := changes_allocate (W := W) hs (hvalues v List.mem_cons_self)
      exact hv.trans (ih hv.flat fun w hw => hvalues w (List.mem_cons_of_mem v hw))

theorem size_allocateAll (s : Store) (values : List Value) :
    (s.allocateAll values).2.cells.size = s.cells.size + values.length := by
  induction values generalizing s with
  | nil => rfl
  | cons v rest ih =>
      simp only [allocateAll, List.length_cons, ih, size_allocate]
      omega

theorem isNew_of_mem_allocateAll
    {values : List Value} {c : CellId}
    (h : c ∈ (s.allocateAll values).1) :
    s.IsNew (s.allocateAll values).2 c := by
  induction values generalizing s with
  | nil => cases h
  | cons v rest ih =>
      have hsize := size_allocateAll s (v :: rest)
      rw [List.length_cons] at hsize
      rcases List.mem_cons.mp h with rfl | h
      · exact ⟨Nat.le_refl _, by rw [hsize]; exact Nat.lt_add_of_pos_right (Nat.succ_pos _)⟩
      · obtain ⟨hle, hlt⟩ := ih h
        exact ⟨Nat.le_trans (by simp) hle, hlt⟩

theorem changes_newList
    (hs : s.IsFlat)
    (values : Array Value)
    (hvalues : ∀ v ∈ values, v.isRef = false) :
    s.Changes W (s.newList values).2 := by
  refine ⟨⟨?_, hs.queues⟩, by simp [newList], ?_, ?_⟩
  · intro c w hc
    simp only [newList, Array.getElem?_append] at hc
    split at hc
    · exact hs.cells c w hc
    · exact hvalues w (Array.mem_of_getElem? hc)
  · intro c hc _
    simp [Store.read, newList, Array.getD_eq_getD_getElem?, Array.getElem?_append_left hc]
  · intro c hc
    cases hc with
    | element hlist hc =>
        simp only [newList, Array.getElem?_push] at hlist
        split at hlist
        · cases hlist
          obtain ⟨k, hk, rfl⟩ := Array.mem_range'.mp hc
          have hsize : (s.newList values).2.cells.size = s.cells.size + values.size := Array.size_append
          exact Or.inr ⟨by omega, by rw [hsize]; omega⟩
        · exact Or.inl (.element hlist hc)
    | field hrecord hc => exact Or.inl (.field hrecord hc)
    | dynamic hnode hc => exact Or.inl (.dynamic hnode hc)
    | global hnamespace hc => exact Or.inl (.global hnamespace hc)
    | static hcallable hc => exact Or.inl (.static hcallable hc)
    | running hframe hc => exact Or.inl (.running hframe hc)

theorem changes_newRecord
    (hs : s.IsFlat)
    (name : String) (fields : List (String × Value))
    (hfields : ∀ x ∈ fields, x.2.isRef = false) :
    s.Changes W (s.newRecord name fields).2 := by
  have hvalues : ∀ v ∈ fields.map (·.2), v.isRef = false := by
    intro v hv
    obtain ⟨x, hx, rfl⟩ := List.mem_map.mp hv
    exact hfields x hx
  have halloc := changes_allocateAll (W := W) hs hvalues
  refine ⟨⟨halloc.flat.cells, halloc.flat.queues⟩, halloc.size, halloc.read, ?_⟩
  intro c hc
  have hsharing := s.sharing_allocateAll (fields.map (·.2))
  simp only [sharing, Sharing.mk.injEq] at hsharing
  obtain ⟨hlists, hrecords, hnodes, hnamespaces, hcallables, hframes⟩ := hsharing
  cases hc with
  | field hrecord hc =>
      simp only [newRecord, Array.getElem?_push, hrecords] at hrecord
      split at hrecord
      · cases hrecord
        exact Or.inr (isNew_of_mem_allocateAll (List.of_mem_zip hc).2)
      · exact Or.inl (.field hrecord hc)
  | element hlist hc => exact Or.inl (.element (hlists ▸ hlist) hc)
  | dynamic hnode hc => exact Or.inl (.dynamic (hnodes ▸ hnode) hc)
  | global hnamespace hc => exact Or.inl (.global (hnamespaces ▸ hnamespace) hc)
  | static hcallable hc => exact Or.inl (.static (hcallables ▸ hcallable) hc)
  | running hframe hc => exact Or.inl (.running (hframes ▸ hframe) hc)

theorem changes_setChannel
    {c : Channel}
    (hs : s.IsFlat)
    (id : Nat)
    (hc : ∀ v ∈ c.queue, v.isRef = false) :
    s.Changes W (s.setChannel id c) := by
  refine ⟨⟨hs.cells, ?_⟩, Nat.le_refl _, fun _ _ _ => rfl, fun c hc => Or.inl (hc.of_sharing rfl)⟩
  intro n d hd
  simp only [setChannel, Array.getElem?_setIfInBounds] at hd
  split at hd
  · split at hd
    · cases hd
      exact hc
    · cases hd
  · exact hs.queues n d hd

theorem changes_newChannel
    (hs : s.IsFlat)
    (capacity : Nat) :
    s.Changes W (s.newChannel capacity).2 := by
  refine ⟨⟨hs.cells, ?_⟩, Nat.le_refl _, fun _ _ _ => rfl, fun c hc => Or.inl (hc.of_sharing rfl)⟩
  intro n d hd
  simp only [newChannel, Array.getElem?_push] at hd
  split at hd
  · cases hd
    intro v hv
    cases hv
  · exact hs.queues n d hd

/-! ## Environments and names -/

theorem changes_newNode
    {n : EnvironmentNode}
    (hs : s.IsFlat)
    (hn : ∀ name c, (name, some c) ∉ n.vars) :
    s.Changes W (s.newNode n).2 := by
  refine ⟨⟨hs.cells, hs.queues⟩, Nat.le_refl _, fun _ _ _ => rfl, ?_⟩
  intro c hc
  cases hc with
  | dynamic hnode hc =>
      simp only [newNode, Array.getElem?_push] at hnode
      split at hnode
      · cases hnode
        exact absurd hc (hn _ _)
      · exact Or.inl (.dynamic hnode hc)
  | element hlist hc => exact Or.inl (.element hlist hc)
  | field hrecord hc => exact Or.inl (.field hrecord hc)
  | global hnamespace hc => exact Or.inl (.global hnamespace hc)
  | static hcallable hc => exact Or.inl (.static hcallable hc)
  | running hframe hc => exact Or.inl (.running hframe hc)

theorem mem_bindVar
    {vars : List (String × Option CellId)} {name other : String} {cell : CellId}
    {slot : Option CellId}
    (h : (other, slot) ∈ bindVar vars name cell) :
    (other, slot) ∈ vars ∨ slot = some cell := by
  induction vars with
  | nil =>
      cases List.mem_singleton.mp h
      exact Or.inr rfl
  | cons entry rest ih =>
      obtain ⟨n, c⟩ := entry
      simp only [bindVar] at h
      split at h
      · rcases List.mem_cons.mp h with heq | h
        · cases heq
          exact Or.inr rfl
        · exact Or.inl (List.mem_cons_of_mem _ h)
      · rcases List.mem_cons.mp h with heq | h
        · cases heq
          exact Or.inl List.mem_cons_self
        · rcases ih h with h | h
          · exact Or.inl (List.mem_cons_of_mem _ h)
          · exact Or.inr h

theorem changes_declareAt
    {v : Value}
    (hs : s.IsFlat)
    (id : Nat) (name : String)
    (hv : v.isRef = false) :
    s.Changes W (s.declareAt id name v).2 := by
  have halloc := changes_allocate (W := W) hs hv
  refine ⟨⟨halloc.flat.cells, halloc.flat.queues⟩, halloc.size, halloc.read, ?_⟩
  intro c hc
  cases hc with
  | dynamic hnode hc =>
      simp only [declareAt, allocate, Array.getElem?_setIfInBounds] at hnode
      split at hnode
      · rename_i hid
        subst hid
        split at hnode
        · rename_i hlt
          cases hnode
          rcases mem_bindVar hc with hc | hc
          · have hnode : s.nodes[id]? = some (s.node id) := by
              have hlt' : id < s.nodes.size := hlt
              simp [node, Array.getD_eq_getD_getElem?, hlt']
            exact Or.inl (.dynamic hnode hc)
          · cases hc
            exact Or.inr ⟨Nat.le_refl _, by simp [declareAt, allocate]⟩
        · cases hnode
      · exact Or.inl (.dynamic hnode hc)
  | element hlist hc => exact Or.inl (.element hlist hc)
  | field hrecord hc => exact Or.inl (.field hrecord hc)
  | global hnamespace hc => exact Or.inl (.global hnamespace hc)
  | static hcallable hc => exact Or.inl (.static hcallable hc)
  | running hframe hc => exact Or.inl (.running hframe hc)

theorem changes_resolve
    {e : Environment} {name : String} {assignable : Bool} {v : Value}
    (hs : s.IsFlat)
    (h : s.resolve e name assignable = .ok (v, t)) :
    s.Changes W t := by
  unfold resolve at h
  split at h <;> cases h
  · exact Changes.refl hs
  · exact Changes.refl hs
  · exact changes_declareAt hs _ name rfl
  · exact changes_declareAt hs _ name rfl

theorem changes_namespaceIndex
    (hs : s.IsFlat)
    (name : String) :
    s.Changes W (s.namespaceIndex name).2 := by
  unfold namespaceIndex
  split
  · exact Changes.refl hs
  · refine ⟨⟨hs.cells, hs.queues⟩, Nat.le_refl _, fun _ _ _ => rfl, ?_⟩
    intro c hc
    cases hc with
    | global hnamespace hc =>
        simp only [Array.getElem?_push] at hnamespace
        split at hnamespace
        · cases hnamespace
          cases hc
        · exact Or.inl (.global hnamespace hc)
    | element hlist hc => exact Or.inl (.element hlist hc)
    | field hrecord hc => exact Or.inl (.field hrecord hc)
    | dynamic hnode hc => exact Or.inl (.dynamic hnode hc)
    | static hcallable hc => exact Or.inl (.static hcallable hc)
    | running hframe hc => exact Or.inl (.running hframe hc)

/-- A new cell gets a global name. -/
theorem Changes.addEntry
    {cell : CellId}
    (h : s.Changes W t)
    (ns : Nat) (name : String)
    (hcell : s.IsNew t cell) :
    s.Changes W (t.addEntry ns name cell) := by
  unfold Store.addEntry
  split
  · rename_i n hn
    refine ⟨⟨h.flat.cells, h.flat.queues⟩, h.size, h.read, ?_⟩
    intro c hc
    cases hc with
    | global hnamespace hc =>
        simp only [Array.getElem?_setIfInBounds] at hnamespace
        split at hnamespace
        · split at hnamespace
          · cases hnamespace
            rcases List.mem_append.mp hc with hc | hc
            · exact h.shares c (.global hn hc)
            · cases List.mem_singleton.mp hc
              exact Or.inr hcell
          · cases hnamespace
        · exact h.shares c (.global hnamespace hc)
    | element hlist hc => exact h.shares c (.element hlist hc)
    | field hrecord hc => exact h.shares c (.field hrecord hc)
    | dynamic hnode hc => exact h.shares c (.dynamic hnode hc)
    | static hcallable hc => exact h.shares c (.static hcallable hc)
    | running hframe hc => exact h.shares c (.running hframe hc)
  · exact h

theorem size_addEntry (s : Store) (ns : Nat) (name : String) (cell : CellId) :
    (s.addEntry ns name cell).cells.size = s.cells.size := by
  unfold addEntry
  split <;> rfl

theorem changes_declare
    {v : Value}
    (hs : s.IsFlat)
    (namespaceName name : String)
    (hv : v.isRef = false) :
    s.Changes W (s.declare namespaceName name v).2 := by
  have hindex := changes_namespaceIndex (W := W) hs namespaceName
  have halloc := hindex.trans (changes_allocate hindex.flat hv)
  have hnew : s.IsNew ((s.namespaceIndex namespaceName).2.allocate v).2
      ((s.namespaceIndex namespaceName).2.allocate v).1 := ⟨hindex.size, by simp [allocate]⟩
  have hentry := halloc.addEntry (s.namespaceIndex namespaceName).1 name hnew
  simp only [declare]
  split
  · exact hindex
  · split
    · exact hentry
    · split
      · exact hentry
      · exact hentry.addEntry _ _ ⟨hnew.1, by rw [size_addEntry]; exact hnew.2⟩

/-- A new callable, whose statics are new or shared already. -/
theorem Changes.newCallable
    (h : s.Changes W t)
    (callable : Callable)
    (hstatics : ∀ p, callable = .procedure p → ∀ name c, (name, c) ∈ p.statics →
      s.Shares c ∨ s.IsNew t c) :
    s.Changes W (t.newCallable callable).2 := by
  refine ⟨⟨h.flat.cells, h.flat.queues⟩, h.size, h.read, ?_⟩
  intro c hc
  cases hc with
  | static hcallable hc =>
      simp only [Store.newCallable, Array.getElem?_push] at hcallable
      split at hcallable
      · cases hcallable
        exact hstatics _ rfl _ c hc
      · exact h.shares c (.static hcallable hc)
  | element hlist hc => exact h.shares c (.element hlist hc)
  | field hrecord hc => exact h.shares c (.field hrecord hc)
  | dynamic hnode hc => exact h.shares c (.dynamic hnode hc)
  | global hnamespace hc => exact h.shares c (.global hnamespace hc)
  | running hframe hc => exact h.shares c (.running hframe hc)

/-! ## Frames -/

/-- A new frame shares the statics of its procedure. -/
theorem shares_newFrame
    {f : Frame} {c : CellId}
    (h : (s.newFrame f).2.Shares c) :
    s.Shares c ∨ ∃ name, (name, c) ∈ f.procedure.statics := by
  cases h with
  | running hframe hc =>
      simp only [Store.newFrame, Array.getElem?_push] at hframe
      split at hframe
      · cases hframe
        exact Or.inr ⟨_, hc⟩
      · exact Or.inl (.running hframe hc)
  | element hlist hc => exact Or.inl (.element hlist hc)
  | field hrecord hc => exact Or.inl (.field hrecord hc)
  | dynamic hnode hc => exact Or.inl (.dynamic hnode hc)
  | global hnamespace hc => exact Or.inl (.global hnamespace hc)
  | static hcallable hc => exact Or.inl (.static hcallable hc)

/-- A new frame, whose procedure has statics that are new or shared already. -/
theorem Changes.newFrame
    {f : Frame}
    (h : s.Changes W t)
    (hstatics : ∀ name c, (name, c) ∈ f.procedure.statics → s.Shares c ∨ s.IsNew t c) :
    s.Changes W (t.newFrame f).2 := by
  refine ⟨⟨h.flat.cells, h.flat.queues⟩, h.size, h.read, ?_⟩
  intro c hc
  rcases shares_newFrame hc with hc | ⟨name, hc⟩
  · exact h.shares c hc
  · exact hstatics name c hc

/-- A frame changes in anything but its procedure. -/
theorem changes_setFrame
    {n : Nat} {f g : Frame}
    (hs : s.IsFlat)
    (hf : s.frames[n]? = some f)
    (hg : g.procedure = f.procedure) :
    s.Changes W (s.setFrame n g) := by
  refine ⟨⟨hs.cells, hs.queues⟩, Nat.le_refl _, fun _ _ _ => rfl, fun c hc => Or.inl ?_⟩
  cases hc with
  | running hframe hc =>
      simp only [setFrame, Array.getElem?_setIfInBounds] at hframe
      split at hframe
      · split at hframe
        · cases hframe
          exact .running hf (hg ▸ hc)
        · cases hframe
      · exact .running hframe hc
  | element hlist hc => exact .element hlist hc
  | field hrecord hc => exact .field hrecord hc
  | dynamic hnode hc => exact .dynamic hnode hc
  | global hnamespace hc => exact .global hnamespace hc
  | static hcallable hc => exact .static hcallable hc

/-! ## Selects -/

theorem IsFlat.channel?
    {id : Nat} {c : Channel}
    (hs : s.IsFlat)
    (h : s.channel? id = some c) :
    ∀ v ∈ c.queue, v.isRef = false :=
  hs.queues (id - 1) c h

end Store

/-- What a case sends is no reference. -/
def WaitCase.IsFlat : WaitCase → Prop
  | .send _ v => v.isRef = false
  | _ => True

namespace Store

variable {s t u : Store} {W X : CellId → Prop}

theorem changes_turned
    (hs : s.IsFlat) :
    s.Changes W s.turned :=
  .of_eq hs rfl rfl rfl

/-- A case moves one value into a queue or out of one. -/
theorem changes_happens
    {c : WaitCase} {received : Option Value}
    (hs : s.IsFlat)
    (hc : c.IsFlat)
    (h : c.Happens s received t) :
    s.Changes W t ∧ ∀ v, received = some v → v.isRef = false := by
  cases h with
  | send v hchannel hopen hroom =>
      refine ⟨changes_setChannel hs _ ?_, fun v hv => by cases hv⟩
      intro w hw
      rcases List.mem_append.mp hw with hw | hw
      · exact hs.channel? hchannel w hw
      · cases List.mem_singleton.mp hw
        exact hc
  | receive hchannel hqueue =>
      have hflat := hs.channel? hchannel
      rw [hqueue] at hflat
      refine ⟨changes_setChannel hs _ fun w hw => hflat w (List.mem_cons_of_mem _ hw), ?_⟩
      intro v hv
      cases hv
      exact hflat _ List.mem_cons_self

theorem changes_choose
    {waits : List WaitCase}
    (hs : s.IsFlat)
    (hwaits : ∀ w ∈ waits, w.IsFlat) :
    s.Changes W (s.choose waits).2 ∧
      ∀ i v, (s.choose waits).1 = .chosen i (some v) → v.isRef = false := by
  have hturned := changes_turned (W := W) hs
  rw [choose_eq]
  split
  · rename_i i received u hfirst
    obtain ⟨k, c, hk, -, hhappens⟩ := firstReady_eq_some_iff.mp hfirst
    have hc : c.IsFlat := forall_rotated_iff.mpr hwaits (i, c) (List.mem_of_getElem? hk)
    obtain ⟨hchanges, hreceived⟩ := changes_happens (W := W) hturned.flat hc hhappens
    refine ⟨hturned.trans hchanges, ?_⟩
    intro j v hv
    cases hv
    exact hreceived v rfl
  · split
    · exact ⟨hturned, by simp⟩
    · split <;> exact ⟨hturned, by simp⟩

end Store

end Changes

end GoalDirected
