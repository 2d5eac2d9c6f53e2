import GoalDirected.Proofs.Coexpression.Shifts
import GoalDirected.Proofs.Machine.Repertoire
import GoalDirected.Proofs.Store.Nodes

/-!
# Where references come from

**Input.** A step that creates no co-expression, of a frame whose environment exists.

**Argument.** The instruction and the delivery of an outcome put references into slots; everything else leaves
slots alone.  A new cell gets into a slot only as the place of a dynamic variable, which is then in its node.

**Results.**
* `grows_step_own`: the step exposes nothing, so that new frames reach shared cells only.
* `holds_step`: a reference that the step puts into a slot leads to a cell that the frame reached before, or to
  a shared one.
-/

namespace GoalDirected

section References

def Ir.Instruction.isCreate : Ir.Instruction → Bool
  | .create _ _ => true
  | _ => false

theorem Ir.Instruction.ne_create
    {i : Ir.Instruction}
    (h : i.isCreate = false)
    (target : Ir.Slot) (entry : Ir.Label) :
    i ≠ .create target entry := by
  rintro rfl
  cases h

/-- The instruction may add cells: it makes variables, or a place for one. -/
def Ir.Instruction.allocates : Ir.Instruction → Bool
  | .dynamic _ _ _ => true
  | .enter _ _ _ => true
  | .create _ _ => true
  | _ => false

/-! ## Instructions -/

namespace Store

variable {s t : Store} {f : Frame} {n : Nat} {c : CellId}

theorem mem_of_declaring?
    {name : String} {e : Environment} {id : Nat} {slot : Option CellId}
    (h : s.declaring? name e = some (id, slot)) :
    id ∈ e := by
  induction e with
  | nil => cases h
  | cons head outer ih =>
      simp only [declaring?] at h
      split at h
      · cases h
        exact List.mem_cons_self
      · exact List.mem_cons_of_mem _ (ih h)

/-- A variable that gets a cell at a node that exists is shared from then on. -/
theorem shares_declareAt
    {id : Nat}
    (h : id < s.nodes.size)
    (name : String) (v : Value) :
    (s.declareAt id name v).2.Shares s.cells.size := by
  have hdeclaring : (s.declareAt id name v).2.declaring? name [id] = some (id, some s.cells.size) := by
    simp only [declaring?, node_declareAt_self h, lookup_bindVar]
  exact shares_of_declaring? hdeclaring

/-- In an environment that exists, a dynamic variable leads to a shared cell. -/
theorem shares_of_resolve
    {e : Environment} {name : String} {assignable : Bool}
    (hs : s.IsFlat)
    (hroot : 0 < s.nodes.size)
    (he : ∀ id ∈ e, id < s.nodes.size)
    (h : s.resolve e name assignable = .ok (.ref c, t)) :
    t.Shares c := by
  unfold resolve at h
  split at h
  · rename_i hdeclaring
    cases h
    exact shares_of_declaring? hdeclaring
  · rename_i cell _
    simp only [Except.ok.injEq, Prod.mk.injEq] at h
    exact absurd h.1 (ne_ref_of_isRef (hs.read cell))
  · rename_i id hdeclaring
    cases h
    exact shares_declareAt (he id (mem_of_declaring? hdeclaring)) name .nil
  · cases h
  · cases h
    refine shares_declareAt ?_ name .nil
    cases e with
    | nil => exact hroot
    | cons id outer => exact he id List.mem_cons_self
  · cases h

theorem cells_choose (s : Store) (waits : List WaitCase) :
    (s.choose waits).2.cells = s.cells := by
  rw [choose_eq]
  split
  · rename_i hfirst
    obtain ⟨k, w, -, -, hhappens⟩ := firstReady_eq_some_iff.mp hfirst
    cases hhappens <;> rfl
  · split
    · rfl
    · split <;> rfl

theorem size_executeSelect (s : Store) (f : Frame) (cases : List Ir.Case) (onFail : Option Ir.Label) :
    (s.executeSelect f cases onFail).2.2.cells.size = s.cells.size := by
  unfold executeSelect
  split
  · rfl
  · rename_i waits _
    have hchoose := congrArg Array.size (s.cells_choose waits)
    split <;> rename_i heq <;> rw [heq] at hchoose
    · exact hchoose
    · exact hchoose
    · split
      · unfold storeReceived
        split
        · exact (size_write _ _ _).trans hchoose
        · split <;> exact hchoose
      · exact hchoose
      · exact hchoose

theorem size_endProducer (s : Store) (id : Nat) : (s.endProducer id).cells.size = s.cells.size := by
  cases id <;> rfl

theorem store_changed (s : Store) (f : Frame) (e : Except Malfunction Frame) :
    (s.changed f e).2.2 = s := by
  cases e <;> rfl

theorem size_execute
    (s : Store) (f : Frame) {i : Ir.Instruction}
    (h : i.allocates = false) :
    (s.execute f i).2.2.cells.size = s.cells.size := by
  have hchanged : ∀ e, (s.changed f e).2.2.cells.size = s.cells.size := fun e => by rw [store_changed]
  cases i with
  | dynamic target name assignable => cases h
  | enter scope names dynamics => cases h
  | create target entry => cases h
  | literal target value => exact hchanged _
  | name target name => exact hchanged _
  | move target source => exact hchanged _
  | deref target source => exact hchanged _
  | moveLabel target label => exact hchanged _
  | field target record field assignable onFail =>
      simp only [execute, executeField]
      split
      · rfl
      · split
        · split
          · exact hchanged _
          · rfl
        · rfl
  | call d callee args names =>
      simp only [execute]
      split <;> rfl
  | operator d op args =>
      simp only [execute]
      split <;> rfl
  | resume d source =>
      simp only [execute]
      split <;> rfl
  | goto target => rfl
  | indirect source targets =>
      simp only [execute]
      split
      · rfl
      · split <;> rfl
  | succeed value again =>
      cases value with
      | none => rfl
      | some slot =>
          simp only [execute]
          split <;> rfl
  | fail => rfl
  | leave scope =>
      simp only [execute]
      split <;> rfl
  | produce value again =>
      simp only [execute]
      split <;> rfl
  | exhaust => rfl
  | select cases onFail => exact size_executeSelect s f cases onFail
  | recover handler =>
      simp only [execute]
      split <;> rfl
  | coordinate coord => rfl

/-- An instruction puts references to variables of its frame and to shared cells into slots, and moves those that
are there. -/
theorem holds_execute
    {i : Ir.Instruction}
    (hs : s.IsFlat)
    (hf : s.frames[n]? = some f)
    (hi : i.isCreate = false)
    (hroot : 0 < s.nodes.size)
    (henvironment : ∀ id ∈ f.environment, id < s.nodes.size)
    (hc : (s.execute f i).2.1.Holds c) :
    f.Holds c ∨ f.Owns c ∨ s.Shares c ∨ ((s.execute f i).1 = .next ∧ (s.execute f i).2.2.Shares c) := by
  have hhandles := handles_execute hs hf i
  have hold : f.Holds c ∨ f.Owns c ∨ s.Shares c ∨ s.IsNew (s.execute f i).2.2 c := by
    rcases hhandles.holds c hc with hold | hown | hshared | ⟨hnew, -⟩
    · exact Or.inl hold
    · exact Or.inr (Or.inl hown)
    · exact Or.inr (Or.inr (hhandles.changes.shares c hshared))
    · exact Or.inr (Or.inr (Or.inr hnew))
  rcases hold with hold | hown | hshared | hnew
  · exact Or.inl hold
  · exact Or.inr (Or.inl hown)
  · exact Or.inr (Or.inr (Or.inl hshared))
  · -- The instruction has added a cell.
    cases hallocates : i.allocates with
    | false =>
        rw [IsNew, size_execute s f hallocates] at hnew
        exact absurd hnew.2 (Nat.not_lt_of_le hnew.1)
    | true =>
        cases i with
        | create target entry => cases hi
        | enter scope names dynamics =>
            exact Or.inl (hc.of_temps_eq (s.temps_enterScope f scope names dynamics))
        | dynamic target name assignable =>
            simp only [execute] at hc ⊢
            split at hc
            · rename_i v t hresolve
              cases hset : f.set target v with
              | error m =>
                  rw [hset] at hc
                  exact Or.inl hc
              | ok g =>
                  rw [hset] at hc
                  rcases (Frame.holds_put hset).2 c hc with hold | heq
                  · exact Or.inl hold
                  · rw [show v = .ref c from heq] at hresolve
                    exact Or.inr (Or.inr (Or.inr ⟨rfl, shares_of_resolve hs hroot henvironment hresolve⟩))
            · exact Or.inl hc
        | _ => cases hallocates

/-- A frame that takes the place of another one of the same procedure changes nothing about what is shared. -/
theorem Shares.setFrame
    {g : Frame}
    (hc : s.Shares c)
    (hf : s.frames[n]? = some f)
    (hprocedure : g.procedure = f.procedure) :
    (s.setFrame n g).Shares c := by
  cases hc with
  | element hlist hc => exact .element hlist hc
  | field hrecord hc => exact .field hrecord hc
  | dynamic hnode hc => exact .dynamic hnode hc
  | global hnamespace hc => exact .global hnamespace hc
  | static hcallable hc => exact .static hcallable hc
  | @running id h name _ hframe hc =>
      by_cases hid : id = n
      · subst hid
        cases hf.symm.trans hframe
        exact .running (getElem?_frames_setFrame_self hf g) (hprocedure ▸ hc)
      · exact .running ((getElem?_frames_setFrame_of_ne hid g).trans hframe) hc

end Store

/-! ## Steps -/

namespace Machine

open Layout

variable {P : CellId → Prop} {m : Machine} {s : Store} {n : Nat} {c : CellId}

/-- A step that creates no co-expression exposes nothing. -/
theorem grows_step_alone
    (hflat : m.IsFlatAbove [])
    (hm : (m.layout P).Bounded)
    (hcreate : ∀ n label i rest, m.control = .running n label (i :: rest) → i.isCreate = false) :
    Grows m.Grasps Store.Nowhere (m.layout P) (m.step.layout P) := by
  have hs := (Store.extends_forget P m.Carries m.store).bounded hm
  refine grows_step_of hflat hm nofun ?_
  intro n label rest f i hcontrol hf hi
  obtain ⟨rest, rfl⟩ := List.head?_eq_some_iff.mp hi
  have hframes := Store.frames_eq_of_activity
    (Store.activity_execute m.store f (Ir.Instruction.ne_create (hcreate n label i rest hcontrol)))
  refine (Store.grows_handles hs hf (m.store.getElem?_frames_execute f i hf)
    (Store.handles_execute hflat.store hf i)).narrow ?_ ?_
  · rintro c ⟨slot, hslot⟩
    exact hs n c (Or.inl (Or.inl ⟨f, hf, Frame.holds_of_value hslot⟩))
  · -- There are as many frames as before.
    have hnone : ∀ w g, m.store.frames.size ≤ w →
        ((m.store.execute f i).2.2.setFrame n (m.store.execute f i).2.1).frames[w]? ≠ some g := by
      intro w g hw hg
      obtain ⟨hlt, -⟩ := Array.getElem?_eq_some_iff.mp hg
      rw [Store.size_frames_setFrame, hframes] at hlt
      exact Nat.not_lt_of_le hw hlt
    rintro w c hw ((⟨g, hg, -⟩ | hc) | ⟨g, hg, -⟩ | hc)
    · exact absurd hg (hnone w g hw)
    · exact hc.elim
    · exact absurd hg (hnone w g hw)
    · exact hc

theorem grows_step_own
    (hflat : m.IsFlatAbove [])
    (hm : (m.layout P).Bounded)
    (hwritten : m.WrittenIn (·.isCreate = false)) :
    Grows m.Grasps Store.Nowhere (m.layout P) (m.step.layout P) :=
  grows_step_alone hflat hm fun n label i _ hcontrol =>
    hwritten.control n label _ hcontrol i List.mem_cons_self

/-- Nothing is on its way, and slots have what they had. -/
theorem holds_of_continues
    {Q : Procedure → Prop}
    (hflat : m.IsFlat)
    (hstore : s.Continues Q m.store)
    (hc : (m.layout P).holds n c) :
    ∃ f, s.frames[n]? = some f ∧ f.Holds c := by
  rcases hc with ⟨g, hg, hc⟩ | hc
  · exact hstore.holds hg hc
  · exact absurd hc (hflat.not_carries n c)

/-- A step in which an instruction is executed. -/
theorem holds_instruction
    {f : Frame} {label : Ir.Label} {i : Ir.Instruction} {rest : List Ir.Instruction} {stack : List Context} {w : Nat}
    (hflat : s.IsFlat)
    (hs : (s.layout P Nobody).Bounded)
    (hf : s.frames[w]? = some f)
    (hi : i.isCreate = false)
    (hroot : 0 < s.nodes.size)
    (henvironment : ∀ id ∈ f.environment, id < s.nodes.size)
    (hc : ((advance s stack w label (i :: rest)).layout P).holds n c) :
    (s.layout P Nobody).Reaches n c ∨ ((advance s stack w label (i :: rest)).layout P).shares c := by
  have hhandles := Store.handles_execute hflat hf i
  have hframe := s.getElem?_frames_execute f i hf
  have hbounded := (Store.grows_handles hs hf hframe hhandles).bounded hs (by
    rintro c ⟨slot, hslot⟩
    exact hs w c (Or.inl (Or.inl ⟨f, hf, Frame.holds_of_value hslot⟩)))
  have hframes := Store.frames_eq_of_activity (Store.activity_execute s f (Ir.Instruction.ne_create hi))
  have hcarries := (grows_perform (H := f.Holds)
    (isFlat_setFrame hhandles.changes.flat w (s.execute f i).2.1) hbounded hhandles.flat
    hhandles.passes stack w label rest (s.execute f i).2.1.environment).2
  simp only [advance, hf] at hc ⊢
  rcases hc with ⟨g, hg, hc⟩ | hc
  · obtain ⟨h, hh, hc⟩ := (continues_perform (Q := fun _ => True) (fun _ _ _ => trivial) stack w label rest
      _ _).holds hg hc
    rcases Store.getElem?_frames_setFrame hh with ⟨rfl, rfl⟩ | hh
    · rcases Store.holds_execute hflat hf hi hroot henvironment hc with hold | hown | hshared | ⟨hnext, hshared⟩
      · exact Or.inl (Or.inl (Or.inl ⟨f, hf, hold⟩))
      · exact Or.inl (Or.inr (Or.inl ⟨f, hf, hown⟩))
      · exact Or.inl (Or.inr (Or.inr (Or.inl hshared)))
      · -- A new place of a dynamic variable: nothing else happens in the step, so it is still in its node.
        rw [hnext]
        exact Or.inr (Or.inl (hshared.setFrame hframe hhandles.procedure))
    · exact Or.inl (Or.inl (Or.inl ⟨h, hframes ▸ hh, hc⟩))
  · rcases hcarries n c hc with hshared | ⟨rfl, hholds⟩
    · exact Or.inr (Or.inl hshared)
    · exact Or.inl (Or.inl (Or.inl ⟨f, hf, hholds⟩))

theorem size_deliver
    (s : Store) (stack : List Context) (n : Nat) (label : Ir.Label) (rest : List Ir.Instruction)
    (d : Ir.Destination) (o : Outcome) :
    (deliver s stack n label rest d o).store.cells.size = s.cells.size := by
  unfold deliver
  split
  · rfl
  · split
    · rw [store_malfunction]
    · rw [store_failed]
      rfl
    · rfl

/-- A step adds cells only if it executes an instruction, or calls a recovery procedure for a fault. -/
theorem size_step
    (hrunning : ∀ n label i rest, m.control ≠ .running n label (i :: rest))
    (hraising : ∀ r, m.control = .raising r →
      ∀ n label rest d, m.stack.head? ≠ some (.awaiting n label rest d)) :
    m.step.store.cells.size = m.store.cells.size := by
  obtain ⟨s, stack, control⟩ := m
  cases control with
  | halted reason => rfl
  | aborted r => rfl
  | running n label rest =>
      cases rest with
      | cons i rest => exact absurd rfl (hrunning n label i rest)
      | nil =>
          simp only [step, advance]
          split
          · rfl
          · rw [store_malfunction]
          · rename_i heq
            cases heq
  | raising r =>
      cases stack with
      | nil => rfl
      | cons x stack =>
          cases x with
          | awaiting n label rest d => exact absurd rfl (hraising r rfl n label rest d)
          | recovering n => simp only [step, raiseTo, store_leave]
          | bare => rfl
          | consuming id => exact s.size_endProducer id
  | returning o =>
      cases stack with
      | nil => rfl
      | cons x stack =>
          cases x with
          | awaiting n label rest d => exact size_deliver s stack n label rest d o
          | recovering n => rfl
          | bare => rfl
          | consuming id => exact s.size_endProducer id

/-- What a frame has references to after a step, it reached before, or it is shared. -/
theorem holds_step
    (hflat : m.IsFlatAbove [])
    (hm : (m.layout P).Bounded)
    (hwritten : m.WrittenIn (·.isCreate = false))
    (hroot : 0 < m.store.nodes.size)
    (henvironment : ∀ (n : Nat) (f : Frame), m.store.frames[n]? = some f →
      ∀ id ∈ f.environment, id < m.store.nodes.size)
    (hc : (m.step.layout P).holds n c) :
    (m.layout P).Reaches n c ∨ (m.step.layout P).shares c := by
  have hgrows := grows_step_own hflat hm hwritten
  have hbounded := hgrows.bounded hm nofun
  -- Where no cell is added, the growth of the layout says it all.
  have hold : m.step.store.cells.size = m.store.cells.size →
      (m.layout P).Reaches n c ∨ (m.step.layout P).shares c :=
    fun hsize => Or.inl (hgrows.reaches_of_lt (Nat.lt_of_lt_of_eq (hbounded n c (Or.inl hc)) hsize) (Or.inl hc))
  obtain ⟨s, stack, control⟩ := m
  cases control with
  | halted reason => exact hold rfl
  | aborted r => exact hold rfl
  | returning o => exact hold (size_step (by simp) (by simp))
  | raising r =>
      cases stack with
      | nil => exact hold rfl
      | cons x stack =>
          cases x with
          | awaiting w label rest d =>
              have hfault := ensues_fault (Q := fun _ => True) (s := s) (fun _ _ _ => trivial) stack w r
              obtain ⟨f, hf, hholds⟩ := holds_of_continues
                (isFlat_fault hflat.store stack w (hflat.raising r rfl)) hfault.store hc
              exact Or.inl (Or.inl (Or.inl ⟨f, hf, hholds⟩))
          | _ => exact hold (size_step (by simp) (by simp))
  | running w label rest =>
      cases rest with
      | nil => exact hold (size_step (by simp) (by simp))
      | cons i rest =>
          cases hf : s.frames[w]? with
          | none => exact hold (by simp only [step, advance, hf])
          | some f =>
              have hs := (Store.extends_forget P (Carries ⟨s, stack, .running w label (i :: rest)⟩) s).bounded hm
              have hi := hwritten.control w label _ rfl i List.mem_cons_self
              rcases holds_instruction hflat.store hs hf hi hroot (henvironment w f hf) hc with
                ((hframe | hnobody) | hreaches) | hshared
              · exact Or.inl (Or.inl (Or.inl hframe))
              · exact hnobody.elim
              · exact Or.inl (Or.inr hreaches)
              · exact Or.inr hshared

end Machine

end References

end GoalDirected
