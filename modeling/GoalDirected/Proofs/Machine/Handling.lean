import GoalDirected.Proofs.Machine.Execution
import GoalDirected.Proofs.Store.Answers

/-!
# What an instruction does with cells

An instruction works on its frame and on the store.  It can change the content of a cell only through a
reference in a slot of the frame; the references that it puts into slots lead to variables of the frame or to
shared cells, or stood in a slot before; and the variables that it adds have new cells.

* `Frame.Holds`: a slot of the frame has a reference to the cell.
* `Handles`: all that an instruction does, apart from control; `handles_execute`: every instruction keeps to it.
-/

namespace GoalDirected

section Handling

/-! ## References in slots -/

/-- The continuation gives a reference to the cell. -/
def Continuation.Holds (c : CellId) : Continuation → Prop
  | .values rest => .ref c ∈ rest
  | _ => False

def Temp.Holds (c : CellId) : Temp → Prop
  | .value v => v = .ref c
  | .next k => k.Holds c
  | _ => False

/-- A slot of the frame has a reference to the cell. -/
def Frame.Holds (f : Frame) (c : CellId) : Prop :=
  ∃ (slot : Nat) (t : Temp), f.temps[slot]? = some t ∧ t.Holds c

namespace Frame

theorem holds_of_value
    {f : Frame} {slot : Nat} {c : CellId}
    (h : f.value slot = .ok (.ref c)) :
    f.Holds c :=
  ⟨slot, _, value_eq_ok_iff.mp h, rfl⟩

theorem holds_of_values
    {f : Frame} {slots : List Nat} {values : List Value} {c : CellId}
    (h : f.values slots = .ok values)
    (hc : .ref c ∈ values) :
    f.Holds c := by
  induction slots generalizing values with
  | nil =>
      cases h
      cases hc
  | cons slot rest ih =>
      simp only [Frame.values, bind, Except.bind] at h
      split at h
      · cases h
      · rename_i v hv
        split at h
        · cases h
        · rename_i vs hvs
          cases h
          rcases List.mem_cons.mp hc with rfl | hc
          · exact holds_of_value hv
          · exact ih hvs hc

/-- The procedure and the variables of a frame stay as they are. -/
structure Keeps (f g : Frame) : Prop where
  procedure : g.procedure = f.procedure
  vars : g.vars = f.vars
  scopes : g.scopes = f.scopes

theorem Keeps.trans
    {f g h : Frame}
    (hfg : f.Keeps g)
    (hgh : g.Keeps h) :
    f.Keeps h :=
  ⟨hgh.procedure.trans hfg.procedure, hgh.vars.trans hfg.vars, hgh.scopes.trans hfg.scopes⟩

theorem Keeps.owns
    {f g : Frame} {c : CellId}
    (h : f.Keeps g)
    (hc : g.Owns c) :
    f.Owns c := by
  rw [Owns, h.vars, h.scopes] at hc
  exact hc

theorem Holds.of_temps_eq
    {f g : Frame} {c : CellId}
    (h : g.Holds c)
    (htemps : g.temps = f.temps) :
    f.Holds c := by
  rw [Holds, htemps] at h
  exact h

theorem temps_leaveScope (f : Frame) (name : String) :
    (f.leaveScope name).2.temps = f.temps := by
  unfold leaveScope
  split
  · rfl
  · simp only
    split <;> rfl

theorem holds_put
    {f g : Frame} {slot : Nat} {t : Temp}
    (h : f.put slot t = .ok g) :
    f.Keeps g ∧ ∀ c, g.Holds c → f.Holds c ∨ t.Holds c := by
  obtain ⟨-, rfl⟩ := getElem?_put h
  refine ⟨⟨rfl, rfl, rfl⟩, ?_⟩
  rintro c ⟨other, u, hu, hc⟩
  rw [Array.getElem?_setIfInBounds] at hu
  split at hu
  · split at hu
    · cases hu
      exact Or.inr hc
    · cases hu
  · exact Or.inl ⟨other, u, hu, hc⟩

theorem holds_takeNext
    {f g : Frame} {slot : Nat} {k : Option Continuation}
    (h : f.takeNext slot = .ok (k, g)) :
    f.Keeps g ∧ (∀ c, g.Holds c → f.Holds c) ∧ ∀ k', k = some k' → ∀ c, k'.Holds c → f.Holds c := by
  unfold takeNext at h
  split at h
  · rename_i k' hslot
    cases h
    refine ⟨⟨rfl, rfl, rfl⟩, ?_, ?_⟩
    · rintro c ⟨other, u, hu, hc⟩
      rw [Array.getElem?_setIfInBounds] at hu
      split at hu
      · split at hu
        · cases hu
          exact hc.elim
        · cases hu
      · exact ⟨other, u, hu, hc⟩
    · intro k'' hk c hc
      cases hk
      exact ⟨slot, _, hslot, hc⟩
  · cases h
    exact ⟨⟨rfl, rfl, rfl⟩, fun _ hc => hc, nofun⟩
  · cases h
  · cases h

end Frame

/-! ## Effects -/

/-- The values that an effect carries to another activation are no references. -/
def Effect.IsFlat : Effect → Prop
  | .succeed v _ => v.isRef = false
  | .call _ _ args _ => ∀ v ∈ args, v.isRef = false
  | .produce v _ => v.isRef = false
  | .fault f => f.IsFlat
  | _ => True

/-- The effect hands a reference to an operator or to a continuation. -/
def Effect.Passes (c : CellId) : Effect → Prop
  | .operator _ _ args => .ref c ∈ args
  | .resume _ (some k) => k.Holds c
  | _ => False

namespace Store

/-- The variables of a frame after an instruction, and those of the copy that it may have made. -/
inductive Furnishes (s : Store) (f g : Frame) (t : Store) : Prop
  | own
      (hframes : t.frames = s.frames)
      (howns : ∀ c, g.Owns c → f.Owns c ∨ s.Reserves t c)
  | copy
      (copy : Frame)
      (hframes : t.frames = s.frames.push copy)
      (howns : ∀ c, g.Owns c → f.Owns c)
      (hprocedure : copy.procedure = f.procedure)
      (hcopy : ∀ c, copy.Owns c → s.Reserves t c)
      (hholds : ∀ c, copy.Holds c → ∃ slot, f.value slot = .ok (.ref c))

/-- A new cell that belongs to nothing, by an instruction that adds no variables. -/
def Strays (s : Store) (f g : Frame) (t : Store) (c : CellId) : Prop :=
  s.IsNew t c ∧ t.frames = s.frames ∧ ∀ c, g.Owns c → f.Owns c

/-- All that an instruction does with cells. -/
structure Handles (s : Store) (f : Frame) (x : Executed) : Prop where
  changes : s.Changes f.Holds x.2.2
  flat : x.1.IsFlat
  passes : ∀ c, x.1.Passes c → f.Holds c
  procedure : x.2.1.procedure = f.procedure
  holds : ∀ c, x.2.1.Holds c →
    f.Holds c ∨ f.Owns c ∨ x.2.2.Shares c ∨ s.Strays f x.2.1 x.2.2 c
  furnishes : s.Furnishes f x.2.1 x.2.2

variable {s t : Store} {f : Frame}

/-! ## Shapes of instructions -/

/-- The frame stays as it is. -/
theorem Handles.of_effect
    {e : Effect}
    (hchanges : s.Changes f.Holds t)
    (hframes : t.frames = s.frames)
    (hflat : e.IsFlat)
    (hpasses : ∀ c, e.Passes c → f.Holds c) :
    Handles s f (e, f, t) :=
  ⟨hchanges, hflat, hpasses, rfl, fun _ hc => Or.inl hc, .own hframes fun _ hc => Or.inl hc⟩

theorem Handles.of_malfunction
    (hchanges : s.Changes f.Holds t)
    (hframes : t.frames = s.frames)
    (m : Malfunction) :
    Handles s f (.fault (.malfunction m), f, t) :=
  .of_effect hchanges hframes trivial nofun

/-- A slot may have a new content. -/
theorem Handles.of_changed
    {e : Except Malfunction Frame}
    (hchanges : s.Changes f.Holds t)
    (hframes : t.frames = s.frames)
    (he : ∀ g, e = .ok g → f.Keeps g ∧ ∀ c, g.Holds c →
      f.Holds c ∨ f.Owns c ∨ t.Shares c ∨ s.IsNew t c) :
    Handles s f (t.changed f e) := by
  cases e with
  | error m => exact .of_malfunction hchanges hframes m
  | ok g =>
      obtain ⟨hkeeps, hholds⟩ := he g rfl
      refine ⟨hchanges, trivial, nofun, hkeeps.procedure, ?_,
        .own hframes fun c hc => Or.inl (hkeeps.owns hc)⟩
      intro c hc
      rcases hholds c hc with hc | hc | hc | hc
      · exact Or.inl hc
      · exact Or.inr (Or.inl hc)
      · exact Or.inr (Or.inr (Or.inl hc))
      · exact Or.inr (Or.inr (Or.inr ⟨hc, hframes, fun _ => hkeeps.owns⟩))

/-- A value is put into a slot. -/
theorem Handles.of_set
    {slot : Nat} {v : Value}
    (hchanges : s.Changes f.Holds t)
    (hframes : t.frames = s.frames)
    (hv : ∀ c, v = .ref c → f.Holds c ∨ f.Owns c ∨ t.Shares c ∨ s.IsNew t c) :
    Handles s f (t.changed f (f.set slot v)) := by
  refine .of_changed hchanges hframes ?_
  intro g hg
  obtain ⟨hkeeps, hholds⟩ := Frame.holds_put hg
  refine ⟨hkeeps, ?_⟩
  intro c hc
  rcases hholds c hc with hc | hc
  · exact Or.inl hc
  · exact hv c hc

/-- A value that may not be had is put into a slot. -/
theorem Handles.of_bind_set
    {slot : Nat} {e : Except Malfunction Value} {g : Value → Value}
    (hs : s.IsFlat)
    (he : ∀ v, e = .ok v → ∀ c, g v = .ref c → f.Holds c ∨ f.Owns c ∨ s.Shares c) :
    Handles s f (s.changed f (e.bind fun v => f.set slot (g v))) := by
  cases e with
  | error m => exact .of_malfunction (Changes.refl hs) rfl m
  | ok v =>
      refine .of_set (Changes.refl hs) rfl ?_
      intro c hc
      rcases he v rfl c hc with hc | hc | hc
      · exact Or.inl hc
      · exact Or.inr (Or.inl hc)
      · exact Or.inr (Or.inr (Or.inl hc))

theorem ne_ref_of_isRef
    {v : Value} {c : CellId}
    (h : v.isRef = false) :
    v ≠ .ref c := by
  rintro rfl
  cases h

/-! ## Names -/

theorem shares_of_global?
    {ns : Nat} {name : String} {c : CellId}
    (h : s.global? ns name = some c) :
    s.Shares c := by
  obtain ⟨n, hn⟩ := Bindings.mem_of_get? h
  unfold entries at hn
  cases hnamespace : s.namespaces[ns]? with
  | none => simp [hnamespace] at hn
  | some found =>
      rw [hnamespace] at hn
      exact .global hnamespace hn

/-- A name leads to a variable of the frame, or to a shared cell. -/
theorem lookupName_eq_ok
    {n : Nat} {name : String} {v : Value} {c : CellId}
    (hf : s.frames[n]? = some f)
    (h : s.lookupName f name = .ok v)
    (hv : v = .ref c) :
    f.Owns c ∨ s.Shares c := by
  subst hv
  unfold lookupName at h
  split at h
  · rename_i cell hcell
    cases h
    rcases Option.or_eq_some_iff.mp hcell with hvar | ⟨-, hcell⟩
    · exact Or.inl (Or.inl (Bindings.mem_of_get? hvar))
    · right
      unfold procedureCell? at hcell
      rcases Option.or_eq_some_iff.mp hcell with hstatic | ⟨-, hcell⟩
      · obtain ⟨x, hx⟩ := Bindings.mem_of_get? hstatic
        exact .running hf hx
      · rcases Option.or_eq_some_iff.mp hcell with hhome | ⟨-, hroot⟩
        · exact shares_of_global? hhome
        · exact shares_of_global? hroot
  · cases h

theorem mem_of_lookup
    {α : Type} {l : List (String × α)} {name : String} {a : α}
    (h : l.lookup name = some a) :
    (name, a) ∈ l := by
  induction l with
  | nil => cases h
  | cons entry rest ih =>
      obtain ⟨n, b⟩ := entry
      simp only [List.lookup_cons] at h
      split at h
      · rename_i heq
        cases h
        rw [eq_of_beq heq]
        exact List.mem_cons_self
      · exact List.mem_cons_of_mem _ (ih h)

theorem shares_of_declaring?
    {name : String} {e : Environment} {id : Nat} {c : CellId}
    (h : s.declaring? name e = some (id, some c)) :
    s.Shares c := by
  induction e with
  | nil => cases h
  | cons n outer ih =>
      simp only [declaring?] at h
      split at h
      · rename_i slot hslot
        cases h
        have hmem := mem_of_lookup hslot
        unfold node at hmem
        rw [Array.getD_eq_getD_getElem?] at hmem
        cases hnode : s.nodes[id]? with
        | none => simp [hnode] at hmem
        | some found =>
            rw [hnode] at hmem
            exact .dynamic hnode hmem
      · exact ih h

/-- A dynamic variable leads to a shared cell, or to one that has just been made. -/
theorem resolve_eq_ok
    {e : Environment} {name : String} {assignable : Bool} {v : Value} {c : CellId}
    (hs : s.IsFlat)
    (h : s.resolve e name assignable = .ok (v, t))
    (hv : v = .ref c) :
    t.Shares c ∨ s.IsNew t c := by
  subst hv
  unfold resolve at h
  split at h
  · rename_i hdeclaring
    cases h
    exact Or.inl (shares_of_declaring? hdeclaring)
  · rename_i cell hdeclaring
    simp only [Except.ok.injEq, Prod.mk.injEq] at h
    exact absurd h.1 (ne_ref_of_isRef (hs.read cell))
  · cases h
    exact Or.inr ⟨Nat.le_refl _, by simp⟩
  · cases h
  · cases h
    exact Or.inr ⟨Nat.le_refl _, by simp⟩
  · cases h

/-! ## Co-expressions -/

/-- The copy of a frame has the references that are values of slots, but no continuations. -/
theorem holds_duplicateFrame
    {environment : Environment} {c : CellId}
    (h : (s.duplicateFrame f environment).1.Holds c) :
    ∃ slot, f.value slot = .ok (.ref c) := by
  obtain ⟨slot, u, hu, hc⟩ := h
  simp only [duplicateFrame, Array.getElem?_map, Option.map_eq_some_iff] at hu
  obtain ⟨u', hu', rfl⟩ := hu
  cases u' with
  | next k => exact hc.elim
  | empty => exact hc.elim
  | label l => exact hc.elim
  | value v =>
      cases hc
      exact ⟨slot, Frame.value_eq_ok_iff.mpr hu'⟩

/-- A co-expression starts with new cells for all variables, and with the references in the slots. -/
theorem furnishes_createProducer
    {n : Nat} {entry : Ir.Label} {v : Value}
    (hs : s.IsFlat)
    (hf : s.frames[n]? = some f)
    (h : s.createProducer f entry = .ok (v, t)) :
    s.Changes f.Holds t ∧ v.isRef = false ∧
      ∃ copy, t.frames = s.frames.push copy ∧ copy.procedure = f.procedure ∧
        (∀ c, copy.Owns c → s.Reserves t c) ∧
        ∀ c, copy.Holds c → ∃ slot, f.value slot = .ok (.ref c) := by
  unfold createProducer at h
  split at h
  · simp only [Except.ok.injEq, Prod.mk.injEq] at h
    obtain ⟨hv, ht⟩ := h
    have hnode := changes_newNode (W := f.Holds) (n := ⟨s.producers.size + 1, []⟩) hs nofun
    have hactivity := s.activity_taskEnvironment f.environment (s.producers.size + 1)
    simp only [taskEnvironment] at ht hactivity
    generalize s.newNode ⟨s.producers.size + 1, []⟩ = node at hnode hactivity ht
    obtain ⟨hcopy, howns⟩ := changes_duplicateFrame (W := f.Holds) hnode.flat f (node.1 :: f.environment)
    have hframes := frames_eq_of_activity
      ((node.2.activity_duplicateFrame f (node.1 :: f.environment)).trans hactivity)
    have hholds : ∀ c, (node.2.duplicateFrame f (node.1 :: f.environment)).1.Holds c →
        ∃ slot, f.value slot = .ok (.ref c) :=
      fun c => holds_duplicateFrame
    have hprocedure : (node.2.duplicateFrame f (node.1 :: f.environment)).1.procedure = f.procedure := rfl
    generalize node.2.duplicateFrame f (node.1 :: f.environment) = copy at hcopy howns hframes hholds hprocedure ht
    have hadd : copy.2.Changes f.Holds t := by
      have hnew := (Changes.refl (W := f.Holds) hcopy.flat).newFrame (f := copy.1)
        fun name c hc => Or.inl (.running (hframes ▸ hf) (hprocedure ▸ hc))
      rw [← ht]
      exact hnew.trans (.of_eq hnew.flat rfl rfl rfl)
    refine ⟨(hnode.trans hcopy).trans hadd, by rw [← hv]; rfl, copy.1, ?_, hprocedure, ?_, hholds⟩
    · rw [← ht, ← hframes]
      rfl
    · intro c hc
      exact (hnode.reserves (howns c hc)).changes hadd
  · cases h

/-! ## Selects -/

theorem yields_channelOperand
    (hs : s.IsFlat)
    (slot : Nat) :
    Yields (fun _ => True) (s.channelOperand f slot) := by
  unfold channelOperand
  split
  · trivial
  · rename_i v _
    have hv := hs.deref v
    split
    · trivial
    · exact Fault.isFlat_exception nofun (by simpa using hv)

theorem yields_waitCase
    (hs : s.IsFlat)
    (f : Frame) (c : Ir.Case) :
    Yields WaitCase.IsFlat (s.waitCase f c) := by
  cases c with
  | send channel value body =>
      have hchannel := yields_channelOperand (f := f) hs channel
      simp only [waitCase]
      split
      · rename_i heq
        rw [heq] at hchannel
        exact hchannel
      · trivial
      · exact hs.deref _
  | receive channel target body =>
      exact yields_map (yields_channelOperand hs channel) fun _ _ => trivial
  | default body => trivial

theorem yields_waitCases
    (hs : s.IsFlat)
    (f : Frame) (cases : List Ir.Case) :
    Yields (fun waits => ∀ w ∈ waits, w.IsFlat) (s.waitCases f cases) := by
  induction cases with
  | nil => exact nofun
  | cons c rest ih =>
      have hc := yields_waitCase hs f c
      simp only [waitCases]
      split
      · rename_i heq
        rw [heq] at hc
        exact hc
      · rename_i w heq
        rw [heq] at hc
        refine yields_map ih ?_
        intro waits hwaits x hx
        rcases List.mem_cons.mp hx with rfl | hx
        · exact hc
        · exact hwaits x hx

theorem handles_storeReceived
    {v : Value} {slot : Nat}
    (hchanges : s.Changes f.Holds t)
    (hframes : t.frames = s.frames)
    (hv : v.isRef = false)
    (body : Ir.Label) :
    Handles s f (t.storeReceived f slot v body) := by
  unfold storeReceived
  split
  · rename_i cell hcell
    have hwrite := (changes_write hchanges.flat cell hv).mono (X := f.Holds) (by
      rintro c rfl
      exact Frame.holds_of_value hcell)
    exact .of_effect (hchanges.trans hwrite) hframes trivial nofun
  · split
    · rename_i g hset
      obtain ⟨hkeeps, hholds⟩ := Frame.holds_put hset
      refine ⟨hchanges, trivial, nofun, hkeeps.procedure, ?_,
        .own hframes fun c hc => Or.inl (hkeeps.owns hc)⟩
      intro c hc
      rcases hholds c hc with hc | hc
      · exact Or.inl hc
      · exact absurd hc (ne_ref_of_isRef hv)
    · exact .of_malfunction hchanges hframes _

theorem handles_executeSelect
    (hs : s.IsFlat)
    (f : Frame) (cases : List Ir.Case) (onFail : Option Ir.Label) :
    Handles s f (s.executeSelect f cases onFail) := by
  have hwaits := yields_waitCases hs f cases
  unfold executeSelect
  split
  · rename_i e heq
    rw [heq] at hwaits
    exact .of_effect (Changes.refl hs) rfl hwaits nofun
  · rename_i waits heq
    rw [heq] at hwaits
    obtain ⟨hchanges, hreceived⟩ := changes_choose (W := f.Holds) hs hwaits
    have hframes := frames_eq_of_activity (s.activity_choose waits)
    split
    · rename_i hchoose
      rw [hchoose] at hchanges hframes
      exact .of_effect hchanges hframes trivial nofun
    · rename_i hchoose
      rw [hchoose] at hchanges hframes
      exact .of_effect hchanges hframes trivial nofun
    · rename_i i received t hchoose
      rw [hchoose] at hchanges hframes hreceived
      split
      · exact handles_storeReceived hchanges hframes (hreceived i _ rfl) _
      · exact .of_effect hchanges hframes trivial nofun
      · exact .of_effect hchanges hframes trivial nofun

theorem handles_executeField
    (hs : s.IsFlat)
    (f : Frame) (target record : Nat) (field : String) (assignable : Bool)
    (onFail : Option Ir.Label) :
    Handles s f (s.executeField f target record field assignable onFail) := by
  unfold executeField
  split
  · exact .of_malfunction (Changes.refl hs) rfl _
  · rename_i v _
    have hv := hs.deref v
    split
    · rename_i id _
      split
      · rename_i cell hcell
        refine .of_set (Changes.refl hs) rfl ?_
        intro c hc
        split at hc
        · cases hc
          obtain ⟨name, hname⟩ := Bindings.mem_of_get? hcell
          exact Or.inr (Or.inr (Or.inl (shares_of_mem_fields hname)))
        · exact absurd hc (ne_ref_of_isRef (hs.read cell))
      · exact .of_effect (Changes.refl hs) rfl trivial nofun
    · refine .of_effect (Changes.refl hs) rfl (Fault.isFlat_exception nofun ?_) nofun
      simpa using hv

/-! ## Instructions -/

theorem temps_enterScope (s : Store) (f : Frame) (name : String) (names dynamics : List String) :
    (s.enterScope f name names dynamics).1.temps = f.temps := by
  simp only [enterScope]
  split <;> rfl

/-- Every instruction keeps to `Handles`, one case for each kind of instruction. -/
theorem handles_execute
    {n : Nat}
    (hs : s.IsFlat)
    (hf : s.frames[n]? = some f)
    (i : Ir.Instruction) :
    Handles s f (s.execute f i) := by
  have hrefl := Changes.refl (W := f.Holds) hs
  cases i with
  | literal target value =>
      refine .of_set hrefl rfl fun c hc => ?_
      cases value <;> cases hc
  | name target name =>
      exact .of_bind_set (g := id) hs fun v hv c hc => Or.inr (lookupName_eq_ok hf hv hc)
  | dynamic target name assignable =>
      simp only [execute]
      split
      · rename_i v t hresolve
        refine .of_set (changes_resolve hs hresolve)
          (frames_eq_of_activity (activity_resolve hresolve)) fun c hc => ?_
        exact Or.inr (Or.inr (resolve_eq_ok hs hresolve hc))
      · exact .of_malfunction hrefl rfl _
  | field target record field assignable onFail =>
      exact handles_executeField hs f target record field assignable onFail
  | call d callee args names =>
      simp only [execute]
      split
      · exact .of_malfunction hrefl rfl _
      · exact .of_malfunction hrefl rfl _
      · refine .of_effect hrefl rfl ?_ (by rintro _ ⟨⟩)
        intro v hv
        obtain ⟨w, -, rfl⟩ := List.mem_map.mp hv
        exact hs.deref w
  | operator d op args =>
      simp only [execute]
      split
      · rename_i values hvalues
        exact .of_effect hrefl rfl trivial fun c hc => Frame.holds_of_values hvalues hc
      · exact .of_malfunction hrefl rfl _
  | resume d source =>
      simp only [execute]
      split
      · rename_i k g htake
        obtain ⟨hkeeps, hholds, hpasses⟩ := Frame.holds_takeNext htake
        refine ⟨hrefl, trivial, ?_, hkeeps.procedure,
          fun c hc => Or.inl (hholds c hc), .own rfl fun c hc => Or.inl (hkeeps.owns hc)⟩
        intro c hc
        cases k with
        | none => exact hc.elim
        | some k => exact hpasses k rfl c hc
      · exact .of_malfunction hrefl rfl _
  | move target source =>
      refine .of_bind_set (g := id) hs fun v hv c hc => Or.inl ?_
      cases hc
      exact Frame.holds_of_value hv
  | deref target source =>
      exact .of_bind_set (g := s.deref) hs fun v hv c hc => absurd hc (ne_ref_of_isRef (hs.deref v))
  | moveLabel target label =>
      refine .of_changed hrefl rfl fun g hg => ?_
      obtain ⟨hkeeps, hholds⟩ := Frame.holds_put hg
      refine ⟨hkeeps, fun c hc => Or.inl ?_⟩
      rcases hholds c hc with hc | hc
      · exact hc
      · exact hc.elim
  | goto target => exact .of_effect hrefl rfl trivial (by rintro _ ⟨⟩)
  | indirect source targets =>
      simp only [execute]
      split
      · exact .of_malfunction hrefl rfl _
      · split
        · exact .of_effect hrefl rfl trivial (by rintro _ ⟨⟩)
        · exact .of_malfunction hrefl rfl _
  | succeed value again =>
      cases value with
      | none => exact .of_effect hrefl rfl rfl (by rintro _ ⟨⟩)
      | some slot =>
          simp only [execute]
          split
          · exact .of_effect hrefl rfl (hs.deref _) (by rintro _ ⟨⟩)
          · exact .of_malfunction hrefl rfl _
  | fail => exact .of_effect hrefl rfl trivial (by rintro _ ⟨⟩)
  | enter scope names dynamics =>
      obtain ⟨hchanges, howns⟩ := changes_enterScope (W := f.Holds) hs f scope names dynamics
      have hframes := frames_eq_of_activity (s.activity_enterScope f scope names dynamics)
      have hfollows := follows_enterScope s f scope names dynamics []
      refine ⟨hchanges, trivial, (by rintro _ ⟨⟩), hfollows.procedure, ?_, .own hframes howns⟩
      intro c hc
      exact Or.inl (hc.of_temps_eq (s.temps_enterScope f scope names dynamics))
  | leave scope =>
      have howns : ∀ c, (f.leaveScope scope).2.Owns c → f.Owns c := fun c => Frame.owns_leaveScope
      have htemps := Frame.temps_leaveScope f scope
      have hfollows := follows_leaveScope f scope []
      simp only [execute]
      split
      · rename_i g hleave
        rw [hleave] at howns htemps hfollows
        exact ⟨hrefl, trivial, (by rintro _ ⟨⟩), hfollows.procedure, fun c hc => Or.inl (hc.of_temps_eq htemps),
          .own rfl fun c hc => Or.inl (howns c hc)⟩
      · rename_i m g hleave
        rw [hleave] at howns htemps hfollows
        exact ⟨hrefl, trivial, (by rintro _ ⟨⟩), hfollows.procedure, fun c hc => Or.inl (hc.of_temps_eq htemps),
          .own rfl fun c hc => Or.inl (howns c hc)⟩
  | create target entry =>
      simp only [execute]
      split
      · rename_i v t hcreate
        obtain ⟨hchanges, hv, copy, hframes, hprocedure, howns, hholds⟩ :=
          furnishes_createProducer hs hf hcreate
        cases hset : f.set target v with
        | error m =>
            exact ⟨hchanges, trivial, (by rintro _ ⟨⟩), rfl, fun c hc => Or.inl hc,
              .copy copy hframes (fun _ hc => hc) hprocedure howns hholds⟩
        | ok g =>
            obtain ⟨hkeeps, hslots⟩ := Frame.holds_put hset
            refine ⟨hchanges, trivial, (by rintro _ ⟨⟩), hkeeps.procedure, ?_,
              .copy copy hframes (fun _ => hkeeps.owns) hprocedure howns hholds⟩
            intro c hc
            rcases hslots c hc with hc | hc
            · exact Or.inl hc
            · exact absurd hc (ne_ref_of_isRef hv)
      · rename_i e hcreate
        refine .of_effect hrefl rfl ?_ (by rintro _ ⟨⟩)
        unfold createProducer at hcreate
        split at hcreate <;> cases hcreate
        exact Fault.isFlat_exception (by simp) (by simp)
  | produce value again =>
      simp only [execute]
      split
      · exact .of_effect hrefl rfl (hs.deref _) (by rintro _ ⟨⟩)
      · exact .of_malfunction hrefl rfl _
  | exhaust => exact .of_effect hrefl rfl trivial (by rintro _ ⟨⟩)
  | select cases onFail => exact handles_executeSelect hs f cases onFail
  | recover handler =>
      simp only [execute]
      split
      · exact ⟨hrefl, trivial, (by rintro _ ⟨⟩), rfl, fun c hc => Or.inl hc, .own rfl fun c hc => Or.inl hc⟩
      · exact .of_malfunction hrefl rfl _
  | coordinate coord =>
      exact ⟨hrefl, trivial, (by rintro _ ⟨⟩), rfl, fun c hc => Or.inl hc, .own rfl fun c hc => Or.inl hc⟩

end Store

end Handling

end GoalDirected
