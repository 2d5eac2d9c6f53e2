import GoalDirected.Proofs.Machine.Layout
import GoalDirected.Proofs.Program.Flatness

/-!
# How steps make a layout grow

A step executes an instruction of the frame that runs, and may then call a value, apply an operator, resume a
continuation or carry an outcome or a fault to the innermost context.  The variables of an activation that a
call starts are new, a call passes no references, and what an operator hands out was shared or held before.

* `Carries`: a reference on its way to the frame that has asked for it, which counts as held by that frame.
* `grows_perform`, `extends_call`, `extends_fault`, `extends_deliver`: the parts of a step.
* `grows_step`: a step changes only cells that the running frame holds, and a new frame reaches only shared cells
  and those that the values of the running frame's slots refer to.
-/

namespace GoalDirected

section Growth

namespace Machine

open Layout

/-- An outcome that is on its way to a frame has a reference to the cell. -/
def Carries (m : Machine) (n : Nat) (c : CellId) : Prop :=
  ∃ label rest d below o,
    m.stack = .awaiting n label rest d :: below ∧ m.control = .returning o ∧ o.Mentions c

def layout (P : CellId → Prop) (m : Machine) : Layout :=
  m.store.layout P m.Carries

/-- The frame whose instruction the next step executes. -/
def running? (m : Machine) : Option Nat :=
  match m.control with
  | .running n _ _ => some n
  | _ => none

/-- The cells that the running frame holds. -/
def Grasps (m : Machine) (c : CellId) : Prop :=
  ∃ n f, m.running? = some n ∧ m.store.frames[n]? = some f ∧ f.Holds c

/-- The cells that the values of the running frame's slots refer to. -/
def Exposes (m : Machine) (c : CellId) : Prop :=
  ∃ n f slot, m.running? = some n ∧ m.store.frames[n]? = some f ∧ f.value slot = .ok (.ref c)

variable {s t : Store} {stack : List Context} {f : Frame} {n : Nat} {W X P : CellId → Prop} {l : Layout}
  {m : Machine}

theorem grows_of_carries
    (h : Grows W X l (m.store.layout P Nobody))
    (hcarries : ∀ n c, m.Carries n c → l.Reaches n c ∨ m.store.Shares c) :
    Grows W X l (m.layout P) := by
  refine ⟨h.cells, h.frames, h.content, h.shares, h.owns, ?_⟩
  rintro w c ((hw | hw) | hw | hc)
  · exact h.reaches w c (Or.inl (Or.inl hw))
  · rcases hcarries w c hw with hw | hc
    · exact Or.inl hw
    · exact h.reaches w c (Or.inr (Or.inr (Or.inl hc)))
  · exact h.reaches w c (Or.inr (Or.inl hw))
  · exact h.reaches w c (Or.inr (Or.inr hc))

/-- A flat machine has no reference on its way. -/
theorem IsFlat.not_carries
    (hflat : m.IsFlat)
    (n : Nat) (c : CellId) :
    ¬ m.Carries n c := by
  rintro ⟨_, _, _, _, o, -, hcontrol, hc⟩
  exact (hflat.returning o hcontrol).not_mentions c hc

theorem IsFlat.grows
    (hflat : m.IsFlat)
    (h : Grows W X l (m.store.layout P Nobody)) :
    Grows W X l (m.layout P) :=
  grows_of_carries h fun n c hc => absurd hc (hflat.not_carries n c)

/-! ### Stores that stay as they are -/

@[simp] theorem store_malfunction (s : Store) (stack : List Context) (n : Nat) (e : Malfunction) :
    (malfunction s stack n e).store = s := by
  unfold malfunction fault
  split
  · rfl
  · rename_i hfault
    cases hfault
  · exact store_leave ..

@[simp] theorem store_jump (s : Store) (stack : List Context) (n : Nat) (label : Ir.Label) :
    (jump s stack n label).store = s := by
  unfold jump
  split
  · rfl
  · split
    · rfl
    · exact store_malfunction ..

@[simp] theorem store_failed (s : Store) (stack : List Context) (n : Nat) (onFail : Option Ir.Label) :
    (failed s stack n onFail).store = s := by
  cases onFail with
  | none => rfl
  | some label => exact store_jump ..

/-! ### Components of a step -/

theorem extends_setProducer
    (hflat : s.IsFlat)
    (hs : (s.layout P Nobody).Bounded)
    (id : Nat) (p : Producer) :
    (s.layout P Nobody).Extends ((s.setProducer id p).layout P Nobody) := by
  refine Store.grows_of_changes hs ?_ ?_
  · cases id <;> exact .of_eq hflat rfl rfl rfl
  · cases id <;> rfl

theorem extends_endProducer
    (hflat : s.IsFlat)
    (hs : (s.layout P Nobody).Bounded)
    (id : Nat) :
    (s.layout P Nobody).Extends ((s.endProducer id).layout P Nobody) := by
  refine Store.grows_of_changes hs ?_ ?_
  · cases id <;> exact .of_eq hflat rfl rfl rfl
  · cases id <;> rfl

theorem extends_halt
    (hflat : s.IsFlat)
    (hs : (s.layout P Nobody).Bounded)
    (stack : List Context) (reason : Halt) :
    (s.layout P Nobody).Extends ((halt s stack reason).store.layout P Nobody) := by
  unfold halt
  split
  · exact extends_setProducer hflat hs _ _
  · exact .refl _ _ _

theorem extends_reply
    (hflat : s.IsFlat)
    (hs : (s.layout P Nobody).Bounded)
    (stack : List Context) (r : Reply) :
    (s.layout P Nobody).Extends ((reply s stack r).store.layout P Nobody) := by
  cases r with
  | outcome o => exact .refl _ _ _
  | fault e => exact .refl _ _ _
  | halt reason => exact extends_halt hflat hs stack reason

theorem not_holds_new
    (environment : Environment) (p : Procedure) (args : List Value) (vars : Bindings) (c : CellId) :
    ¬ (Frame.new environment p args vars).Holds c := by
  rintro ⟨slot, u, hu, hc⟩
  simp only [Frame.new, Array.getElem?_replicate] at hu
  split at hu
  · cases hu
    exact hc
  · cases hu

/-- The variables of a procedure that is entered are new. -/
theorem extends_enter
    {args : List Value} {p : Procedure}
    (hflat : s.IsFlat)
    (hs : (s.layout P Nobody).Bounded)
    (hstatics : ∀ name c, (name, c) ∈ p.statics → s.Shares c ∨ P c)
    (stack : List Context) (environment : Environment) (names : List String)
    (hargs : ∀ v ∈ args, v.isRef = false) :
    (s.layout P Nobody).Extends ((enter s stack environment p args names).store.layout P Nobody) := by
  unfold enter
  split
  · exact .refl _ _ _
  · obtain ⟨hchanges, hvars⟩ := Store.changes_bindArguments (W := Store.Nowhere) hflat p.code names hargs
    have hframes := Store.frames_eq_of_activity (s.activity_bindArguments p.code args names)
    have hnew := Store.extends_newFrame hs hchanges hframes (f := .new environment p args
      (s.bindArguments p.code args names).1) hstatics ?_ (not_holds_new environment p args _)
    · dsimp only
      split
      · exact hnew
      · rw [store_leave]
        exact hnew
    · rintro c (⟨name, hc⟩ | ⟨scope, hscope, -⟩)
      · exact hvars name c hc
      · cases hscope

theorem frames_builtin (s : Store) (b : Builtin) (args : List Value) :
    (s.builtin b args).2.frames = s.frames := by
  rcases s.activity_builtin b args with h | ⟨-, id, -, -, h⟩
  · exact Store.frames_eq_of_activity h
  · rw [h]
    cases id <;> rfl

theorem extends_call
    {args : List Value}
    (hflat : s.IsFlat)
    (hs : (s.layout P Nobody).Bounded)
    (stack : List Context) (environment : Environment) (callee : Value) (names : List String)
    (hargs : ∀ v ∈ args, v.isRef = false) :
    (s.layout P Nobody).Extends ((call s stack environment callee args names).store.layout P Nobody) := by
  have hcalled := called_call s stack environment callee args names
  generalize call s stack environment callee args names = m at hcalled ⊢
  cases hcalled with
  | procedure hcallee hcallable =>
      exact extends_enter hflat hs (fun name c hc => Or.inl (.static hcallable hc)) stack environment names hargs
  | record hconstruct =>
      obtain ⟨hchanges, -⟩ := Store.changes_construct (W := Store.Nowhere) hflat hargs hconstruct
      exact Store.grows_of_changes hs hchanges
        (Store.frames_eq_of_activity (Store.activity_construct hconstruct))
  | @builtin _ b =>
      obtain ⟨hchanges, -⟩ := Store.builtin_gives (W := Store.Nowhere) hflat b (hflat.map_deref args)
      have hextends := Store.grows_of_changes hs hchanges (frames_builtin s b _)
      exact hextends.trans (extends_reply hchanges.flat (Extends.bounded hextends hs) stack _)
  | _ => exact .refl _ _ _

theorem extends_fault
    {r : Raised}
    (hflat : s.IsFlat)
    (hs : (s.layout P Nobody).Bounded)
    (stack : List Context) (n : Nat)
    (hr : r.fault.IsFlat) :
    (s.layout P Nobody).Extends ((fault s stack n r).store.layout P Nobody) := by
  unfold fault
  split
  · exact .refl _ _ _
  · rename_i f cause offending _ hf hfault
    rw [hfault] at hr
    have hset : ∀ recovery, (s.layout P Nobody).Extends ((s.setFrame n
        { f with offender := f.offender.or offending.head?, recovery := recovery }).layout P Nobody) :=
      fun recovery => Store.extends_setFrame hflat hs hf ⟨rfl, rfl, rfl⟩ fun c hc => Or.inl hc
    dsimp only
    split
    · refine (hset none).trans (extends_call (isFlat_setFrame hflat _ _)
        (Extends.bounded (hset none) hs) _ _ _ [] ?_)
      intro v hv
      rcases List.mem_cons.mp hv with rfl | hv
      · exact hr.1
      · exact hr.2 v hv
    · rw [store_leave]
      exact hset f.recovery
  · rw [store_leave]
    exact .refl _ _ _

theorem extends_activate
    (hflat : s.IsFlat)
    (hs : (s.layout P Nobody).Bounded)
    (stack : List Context) (id : Nat) :
    (s.layout P Nobody).Extends ((activate s stack id).store.layout P Nobody) := by
  unfold activate
  split
  · rw [store_jump]
    exact extends_setProducer hflat hs _ _
  · rw [store_jump]
    exact extends_setProducer hflat hs _ _
  · exact extends_halt hflat hs stack .blocked
  · exact .refl _ _ _

/-! ### Steps -/

/-- An operator changes cells that its arguments refer to. -/
theorem grows_invoke
    (hflat : s.IsFlat)
    (hs : (s.layout P Nobody).Bounded)
    (stack : List Context) (op : String) (args : List Value) :
    Grows (.ref · ∈ args) Store.Nowhere (s.layout P Nobody) ((invoke s stack op args).store.layout P Nobody) := by
  obtain ⟨hchanges, -⟩ := Store.invoke_gives hflat op args
  have hframes := Store.frames_eq_of_activity (s.activity_invoke op args)
  have hgrows := Store.grows_of_changes hs hchanges hframes
  have hbounded := hgrows.bounded hs nofun
  unfold invoke
  split
  · rename_i r t heq
    rw [heq] at hchanges hgrows hbounded
    exact hgrows.trans ((extends_reply hchanges.flat hbounded stack r).grows _ _)
  · rename_i id t heq
    rw [heq] at hchanges hgrows hbounded
    exact hgrows.trans ((extends_activate hchanges.flat hbounded stack id).grows _ _)

/-- What an operator hands out leads to shared cells, or comes from its arguments. -/
theorem carries_invoke
    {op : String} {args : List Value} {w : Nat} {c : CellId} {label : Ir.Label}
    {rest : List Ir.Instruction} {d : Ir.Destination}
    (hflat : s.IsFlat)
    (h : (invoke s (.awaiting n label rest d :: stack) op args).Carries w c) :
    (invoke s (.awaiting n label rest d :: stack) op args).store.Shares c ∨ (w = n ∧ .ref c ∈ args) := by
  obtain ⟨hchanges, hgives⟩ := Store.invoke_gives hflat op args
  unfold invoke at h ⊢
  split at h
  · rename_i r t heq
    rw [heq] at hgives hchanges
    cases r with
    | outcome o =>
        obtain ⟨_, _, _, _, o', hstack, hcontrol, hc⟩ := h
        cases hstack
        cases hcontrol
        exact (hgives c hc).imp_right fun hc => ⟨rfl, hc⟩
    | fault e => exact absurd h ((isFlat_raising (r := ⟨e, []⟩) hchanges.flat _ hgives).not_carries w c)
    | halt reason => exact absurd h ((isFlat_halt hchanges.flat _ reason).not_carries w c)
  · rename_i id t heq
    rw [heq] at hchanges
    exact absurd h ((isFlat_activate hchanges.flat _ id).not_carries w c)

theorem store_resume (s : Store) (stack : List Context) (k : Continuation) :
    (resume s stack k).store = s := by
  cases k with
  | activation n label => exact store_jump ..
  | _ => rfl

/-- A continuation gives what it holds, or elements of a list. -/
theorem carries_resume
    {k : Continuation} {w : Nat} {c : CellId} {label : Ir.Label}
    {rest : List Ir.Instruction} {d : Ir.Destination}
    (hflat : s.IsFlat)
    (h : (resume s (.awaiting n label rest d :: stack) k).Carries w c) :
    s.Shares c ∨ (w = n ∧ k.Holds c) := by
  cases k with
  | activation frame again => exact absurd h ((isFlat_jump hflat _ frame again).not_carries w c)
  | elements list position =>
      obtain ⟨_, _, _, _, o, hstack, hcontrol, hc⟩ := h
      cases hcontrol
      exact Or.inl ((Store.isLent_elementsFrom s [] list position c hc).resolve_right List.not_mem_nil)
  | values values =>
      obtain ⟨_, _, _, _, o, hstack, hcontrol, hc⟩ := h
      cases hstack
      cases hcontrol
      refine Or.inr ⟨rfl, ?_⟩
      cases values with
      | nil => exact absurd hc (Outcome.isFlat_fail.not_mentions c)
      | cons v others =>
          rcases hc with hvalue | ⟨others', hnext, hc⟩
          · cases hvalue
            exact List.mem_cons_self
          · cases hnext
            exact List.mem_cons_of_mem v hc
  | count low high =>
      obtain ⟨_, _, _, _, o, hstack, hcontrol, hc⟩ := h
      cases hcontrol
      exact Or.inl ((Store.isLent_countFrom s [] low high c hc).resolve_right List.not_mem_nil)

/-- What reaches a frame goes into its slots. -/
theorem holds_storeOutcome
    {g : Frame} {d : Ir.Destination} {o : Outcome}
    (h : storeOutcome f d o = .ok g) :
    f.Keeps g ∧ ∀ c, g.Holds c → f.Holds c ∨ o.Mentions c := by
  unfold storeOutcome at h
  simp only [Except.bind] at h
  split at h
  · cases h
  · rename_i f' hf'
    have hvalue : f.Keeps f' ∧ ∀ c, f'.Holds c → f.Holds c ∨ o.Mentions c := by
      split at hf'
      · rename_i slot v _ hv
        obtain ⟨hkeeps, hholds⟩ := Frame.holds_put hf'
        refine ⟨hkeeps, fun c hc => (hholds c hc).imp_right fun hc => Or.inl ?_⟩
        rw [hv, ← (show v = .ref c from hc)]
      · cases hf'
        exact ⟨⟨rfl, rfl, rfl⟩, fun c hc => Or.inl hc⟩
    obtain ⟨hkeeps, hholds⟩ := hvalue
    split at h
    · rename_i slot _
      have hnext : f'.Keeps g ∧ ∀ c, g.Holds c → f'.Holds c ∨ o.Mentions c := by
        cases hk : o.next? with
        | none =>
            rw [hk] at h
            obtain ⟨hkeeps, hholds⟩ := Frame.holds_put h
            exact ⟨hkeeps, fun c hc => Or.inl ((hholds c hc).resolve_right id)⟩
        | some k =>
            rw [hk] at h
            obtain ⟨hkeeps, hholds⟩ := Frame.holds_put h
            refine ⟨hkeeps, fun c hc => (hholds c hc).imp_right fun hc => Or.inr ?_⟩
            cases k with
            | values values => exact ⟨values, hk, hc⟩
            | activation frame label => exact hc.elim
            | elements list position => exact hc.elim
            | count low high => exact hc.elim
      refine ⟨hkeeps.trans hnext.1, fun c hc => ?_⟩
      rcases hnext.2 c hc with hc | hc
      · exact hholds c hc
      · exact Or.inr hc
    · cases h
      exact ⟨hkeeps, hholds⟩

theorem extends_deliver
    {o : Outcome} {F : Nat → CellId → Prop}
    (hflat : s.IsFlat)
    (hs : (s.layout P F).Bounded)
    (hF : ∀ c, o.Mentions c → F n c)
    (stack : List Context) (label : Ir.Label) (rest : List Ir.Instruction) (d : Ir.Destination) :
    (s.layout P F).Extends ((deliver s stack n label rest d o).store.layout P Nobody) := by
  unfold deliver
  split
  · exact Store.extends_forget P F s
  · rename_i f hf
    have hset : ∀ g, storeOutcome f d o = .ok g →
        (s.layout P F).Extends ((s.setFrame n g).layout P Nobody) := by
      intro g hg
      obtain ⟨hkeeps, hholds⟩ := holds_storeOutcome hg
      exact Store.extends_setFrame hflat hs hf hkeeps fun c hc => (hholds c hc).imp_right (hF c)
    split
    · rw [store_malfunction]
      exact Store.extends_forget P F s
    · rename_i g hg
      rw [store_failed]
      exact hset g hg
    · rename_i g _ hg
      exact hset g hg

theorem grows_perform
    {e : Effect} {H : CellId → Prop}
    (hflat : s.IsFlat)
    (hs : (s.layout P Nobody).Bounded)
    (he : e.IsFlat)
    (hpasses : ∀ c, e.Passes c → H c)
    (stack : List Context) (n : Nat) (label : Ir.Label) (rest : List Ir.Instruction)
    (environment : Environment) :
    Grows H Store.Nowhere (s.layout P Nobody)
        ((perform s stack n label rest environment e).store.layout P Nobody) ∧
      ∀ w c, (perform s stack n label rest environment e).Carries w c →
        (perform s stack n label rest environment e).store.Shares c ∨ (w = n ∧ H c) := by
  have hquiet : ∀ m : Machine, m.IsFlat → (s.layout P Nobody).Extends (m.store.layout P Nobody) →
      Grows H Store.Nowhere (s.layout P Nobody) (m.store.layout P Nobody) ∧
        ∀ w c, m.Carries w c → m.store.Shares c ∨ (w = n ∧ H c) :=
    fun m hm hextends => ⟨hextends.grows _ _, fun w c hc => absurd hc (hm.not_carries w c)⟩
  have hsame : ∀ m : Machine, m.IsFlat → m.store = s →
      Grows H Store.Nowhere (s.layout P Nobody) (m.store.layout P Nobody) ∧
        ∀ w c, m.Carries w c → m.store.Shares c ∨ (w = n ∧ H c) := by
    intro m hm hstore
    exact hquiet m hm (Store.extends_of_eq hstore)
  cases e with
  | next => exact hsame _ (isFlat_running hflat _ _ _ _) rfl
  | goto target => exact hsame _ (isFlat_jump hflat stack n target) (store_jump ..)
  | failed onFail => exact hsame _ (isFlat_failed hflat stack n onFail) (store_failed ..)
  | succeed v again =>
      cases again with
      | none => exact hsame _ (isFlat_returning hflat stack (Outcome.isFlat_result he)) rfl
      | some again =>
          refine hsame _ (isFlat_returning hflat stack ?_) rfl
          refine ⟨?_, ?_⟩
          · intro w hw
            cases hw
            exact he
          · intro k hk
            cases hk
            exact ⟨n, again, rfl⟩
  | call d callee args names =>
      exact hquiet _ (isFlat_call hflat _ environment callee names he) (extends_call hflat hs _ _ _ _ he)
  | operator d op args =>
      refine ⟨(grows_invoke hflat hs _ op args).mono hpasses nofun, fun w c hc => ?_⟩
      exact (carries_invoke hflat hc).imp_right fun hc => ⟨hc.1, hpasses c hc.2⟩
  | resume d k =>
      cases k with
      | none => exact hsame _ (isFlat_returning hflat _ Outcome.isFlat_fail) rfl
      | some k =>
          have hstore := store_resume s (.awaiting n label rest d :: stack) k
          simp only [perform]
          rw [hstore]
          refine ⟨.refl _ _ _, fun w c hc => ?_⟩
          exact (carries_resume hflat hc).imp_right fun hc => ⟨hc.1, hpasses c hc.2⟩
  | produce v again =>
      simp only [perform]
      split
      · exact hquiet _ (isFlat_returning (isFlat_setProducer hflat _ _) _ (Outcome.isFlat_result he))
          (extends_setProducer hflat hs _ _)
      · exact hsame _ (isFlat_fault hflat stack n trivial) (store_malfunction ..)
  | exhaust =>
      simp only [perform]
      split
      · exact hsame _ (isFlat_returning hflat _ Outcome.isFlat_fail) rfl
      · exact hsame _ (isFlat_fault hflat stack n trivial) (store_malfunction ..)
  | halt reason => exact hquiet _ (isFlat_halt hflat stack reason) (extends_halt hflat hs stack reason)
  | fault e =>
      exact hquiet _ (isFlat_fault (r := ⟨e, []⟩) hflat stack n he) (extends_fault hflat hs stack n he)

/-- An instruction changes cells that its frame holds, and what it asks for adds nothing to that. -/
theorem grows_instruction
    {i : Ir.Instruction}
    (hflat : s.IsFlat)
    (hs : (s.layout P Nobody).Bounded)
    (hf : s.frames[n]? = some f)
    (hexecute : Grows f.Holds X (s.layout P Nobody)
      (((s.execute f i).2.2.setFrame n (s.execute f i).2.1).layout P Nobody))
    (hX : ∀ c : Nat, X c → c < s.cells.size)
    (stack : List Context) (label : Ir.Label) (rest : List Ir.Instruction) :
    Grows f.Holds X (s.layout P Nobody) ((advance s stack n label (i :: rest)).layout P) := by
  have hhandles := Store.handles_execute hflat hf i
  obtain ⟨hperform, hcarries⟩ := grows_perform (H := f.Holds)
    (isFlat_setFrame hhandles.changes.flat n (s.execute f i).2.1) (hexecute.bounded hs hX) hhandles.flat
    hhandles.passes stack n label rest (s.execute f i).2.1.environment
  simp only [advance, hf]
  refine grows_of_carries (hexecute.trans (hperform.mono (fun _ hc => hc) fun _ hc => hc.elim)) ?_
  intro w c hw
  rcases hcarries w c hw with hc | ⟨rfl, hc⟩
  · exact Or.inr hc
  · exact Or.inl (Or.inl (Or.inl ⟨f, hf, hc⟩))

/-- A frame that executes its next instruction makes the layout grow as the instruction does. -/
theorem grows_advance
    {Y : CellId → Prop}
    (hflat : s.IsFlat)
    (hs : (s.layout P Nobody).Bounded)
    (stack : List Context) (n : Nat) (label : Ir.Label) {rest : List Ir.Instruction}
    (hY : ∀ c : Nat, Y c → c < s.cells.size)
    (hexecute : ∀ f i, s.frames[n]? = some f → rest.head? = some i →
      Grows f.Holds Y (s.layout P Nobody)
        (((s.execute f i).2.2.setFrame n (s.execute f i).2.1).layout P Nobody)) :
    Grows (Grasps ⟨s, stack, .running n label rest⟩) Y (s.layout P Nobody)
      ((advance s stack n label rest).layout P) := by
  cases hf : s.frames[n]? with
  | none =>
      simp only [advance, hf]
      exact (isFlat_returning hflat stack Outcome.isFlat_fail).grows (.refl _ _ _)
  | some f =>
      cases rest with
      | nil =>
          simp only [advance, hf]
          exact (isFlat_fault (r := ⟨.malfunction _, []⟩) hflat stack n trivial).grows
            ((Store.extends_of_eq (store_malfunction ..)).grows _ _)
      | cons i rest =>
          refine (grows_instruction hflat hs hf (hexecute f i hf rfl) hY stack label rest).mono ?_ fun _ hc => hc
          exact fun c hc => ⟨n, f, rfl, hf, hc⟩

/-- Every step makes the layout grow, as the instruction does that it executes. -/
theorem grows_step_of
    (hflat : m.IsFlatAbove [])
    (hm : (m.layout P).Bounded)
    (hX : ∀ c : Nat, X c → c < m.store.cells.size)
    (hexecute : ∀ n label rest f i, m.control = .running n label rest → m.store.frames[n]? = some f →
      rest.head? = some i → Grows f.Holds X (m.store.layout P Nobody)
        (((m.store.execute f i).2.2.setFrame n (m.store.execute f i).2.1).layout P Nobody)) :
    Grows m.Grasps X (m.layout P) (m.step.layout P) := by
  obtain ⟨s, stack, control⟩ := m
  have hforget := Store.extends_forget P (Carries ⟨s, stack, control⟩) s
  have hs : (s.layout P Nobody).Bounded := hforget.bounded hm
  -- Whatever was on its way to a frame has arrived, or there was nothing.
  have hquiet : ∀ m' : Machine, m'.IsFlat → (s.layout P Nobody).Extends (m'.store.layout P Nobody) →
      Grows (Grasps ⟨s, stack, control⟩) X (layout P ⟨s, stack, control⟩) (m'.layout P) :=
    fun m' hm' hextends => hm'.grows (Extends.grows (hforget.trans hextends) _ _)
  have hreturning : ∀ o, control = .returning o → (∀ n label rest d below,
      stack ≠ .awaiting n label rest d :: below) → o.IsFlat := by
    intro o ho hstack
    refine (hflat.returning o ho).resolve_right ?_
    rintro ⟨n, label, rest, d, below, heq, -⟩
    exact hstack n label rest d below heq
  cases control with
  | running n label rest =>
      refine (hforget.grows _ _).trans (grows_advance hflat.store hs stack n label hX ?_)
      exact fun f i hf hi => hexecute n label rest f i rfl hf hi
  | halted reason => exact .refl _ _ _
  | aborted r => exact .refl _ _ _
  | raising r =>
      have hr := hflat.raising r rfl
      cases stack with
      | nil => exact .refl _ _ _
      | cons x stack =>
          cases x with
          | awaiting n label rest d =>
              exact hquiet _ (isFlat_fault hflat.store stack n hr) (extends_fault hflat.store hs stack n hr)
          | recovering n =>
              exact hquiet _ (isFlat_leave hflat.store stack n hr) (Store.extends_of_eq (store_leave ..))
          | bare => exact hquiet _ (isFlat_raising hflat.store stack hr) (.refl _ _ _)
          | consuming id =>
              exact hquiet _ (isFlat_raising (isFlat_endProducer hflat.store id) stack hr)
                (extends_endProducer hflat.store hs id)
  | returning o =>
      cases stack with
      | nil => exact .refl _ _ _
      | cons x stack =>
          cases x with
          | awaiting n label rest d =>
              refine (isFlat_deliver hflat.store stack n label rest d o).grows ?_
              refine Extends.grows (extends_deliver hflat.store hm ?_ stack label rest d) _ _
              exact fun c hc => ⟨label, rest, d, stack, o, rfl, rfl, hc⟩
          | recovering n =>
              exact hquiet _ (isFlat_returning hflat.store stack (hreturning o rfl nofun)) (.refl _ _ _)
          | bare =>
              exact hquiet _ (isFlat_returning hflat.store stack (hreturning o rfl nofun)) (.refl _ _ _)
          | consuming id =>
              refine hquiet _ (isFlat_returning (isFlat_endProducer hflat.store id) stack ?_)
                (extends_endProducer hflat.store hs id)
              cases o with
              | fail => exact Outcome.isFlat_fail
              | result v => exact Outcome.isFlat_result (hflat.store.deref v)
              | suspended v k => exact Outcome.isFlat_result (hflat.store.deref v)

/-- Every step makes the layout grow. -/
theorem grows_step
    (hflat : m.IsFlatAbove [])
    (hm : (m.layout P).Bounded) :
    Grows m.Grasps m.Exposes (m.layout P) (m.step.layout P) := by
  have hs := (Store.extends_forget P m.Carries m.store).bounded hm
  refine grows_step_of hflat hm ?_ ?_
  · rintro c ⟨n, f, slot, -, hf, hslot⟩
    exact hm n c (Or.inl (Or.inl ⟨f, hf, Frame.holds_of_value hslot⟩))
  · intro n label rest f i hcontrol hf hi
    refine (Store.grows_handles hs hf (m.store.getElem?_frames_execute f i hf)
      (Store.handles_execute hflat.store hf i)).mono (fun _ hc => hc) ?_
    rintro c ⟨slot, hslot⟩
    exact ⟨n, f, slot, by rw [running?, hcontrol], hf, hslot⟩

end Machine

end Growth

end GoalDirected
