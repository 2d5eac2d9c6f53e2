import GoalDirected.Proofs.Machine.Activity
import GoalDirected.Proofs.Machine.Calls

/-!
# What one instruction does

The results about whole runs need to know of an instruction only what it hands on: the labels and the
slots of its effect, what it leaves in the temporaries of its frame, and what it adds to the store.

* `Frame.Follows`: the frame keeps its procedure and the number of its temporaries, and no slot gets
  a continuation.
* `Executes`: an effect only names labels and slots of its instruction, a continuation that is to be
  resumed was in a slot, and only `create` changes what can run.
* `executes_execute`: every instruction is executed in this way.
* `createProducer_eq_ok`, `receives_storeOutcome`: what `create` adds to a store, and what a delivery
  leaves in a frame.
-/

namespace GoalDirected

section Execution

/-- The labels that an effect may hand on. -/
def Effect.labels : Effect → List Ir.Label
  | .goto label => [label]
  | .failed onFail => onFail.toList
  | .succeed _ again => again.toList
  | .call d _ _ _ => d.onFail.toList
  | .operator d _ _ => d.onFail.toList
  | .resume d _ => d.onFail.toList
  | .produce _ label => [label]
  | _ => []

/-- The slots that an effect may have filled later. -/
def Effect.slots : Effect → List Ir.Slot
  | .call d _ _ _ => d.slots
  | .operator d _ _ => d.slots
  | .resume d _ => d.slots
  | _ => []

/-- The effect is neither a fault nor the resumption of a continuation. -/
def Effect.isPlain : Effect → Bool
  | .resume _ (some _) => false
  | .fault _ => false
  | _ => true

/-- Linking is meant to rule these malfunctions out. -/
def Malfunction.IsLinkage : Malfunction → Prop
  | .noChunk _ _ => True
  | .slotOutOfRange _ _ _ => True
  | _ => False

namespace Frame

/-- A content that an instruction with given labels may put into a slot by itself. -/
def Puts (labels : List Ir.Label) : Temp → Prop
  | .empty => True
  | .value _ => True
  | .label l => l ∈ labels
  | .next _ => False

/-- Frame `g` has come out of frame `f` by an instruction with given labels: a slot holds what it
held before, or what such an instruction puts there. -/
structure Follows (f : Frame) (labels : List Ir.Label) (g : Frame) : Prop where
  procedure : g.procedure = f.procedure
  size : g.temps.size = f.temps.size
  temps : ∀ (slot : Nat) (t : Temp), g.temps[slot]? = some t →
    f.temps[slot]? = some t ∨ Puts labels t

theorem Follows.of_temps_eq
    {f g : Frame} {labels : List Ir.Label}
    (hprocedure : g.procedure = f.procedure)
    (htemps : g.temps = f.temps) :
    f.Follows labels g where
  procedure := hprocedure
  size := by rw [htemps]
  temps := by
    intro slot t h
    rw [htemps] at h
    exact Or.inl h

theorem Follows.refl (f : Frame) (labels : List Ir.Label) : f.Follows labels f :=
  Follows.of_temps_eq rfl rfl

/-- What a slot holds after its content has been replaced. -/
theorem getElem?_put
    {f g : Frame} {slot : Nat} {t : Temp}
    (h : f.put slot t = .ok g) :
    slot < f.temps.size ∧ g = { f with temps := f.temps.setIfInBounds slot t } := by
  unfold put at h
  split at h
  · rename_i hlt
    cases h
    exact ⟨hlt, rfl⟩
  · cases h

theorem follows_put
    {f g : Frame} {labels : List Ir.Label} {slot : Nat} {t : Temp}
    (ht : Puts labels t)
    (h : f.put slot t = .ok g) :
    f.Follows labels g := by
  obtain ⟨_, rfl⟩ := getElem?_put h
  refine ⟨rfl, by simp, ?_⟩
  intro other u hu
  rw [Array.getElem?_setIfInBounds] at hu
  split at hu
  · cases hu
    exact Or.inr ht
  · exact Or.inl hu

theorem follows_set
    {f g : Frame} {slot : Nat} {v : Value} (labels : List Ir.Label)
    (h : f.set slot v = .ok g) :
    f.Follows labels g :=
  follows_put (t := .value v) trivial h

theorem follows_takeNext
    {f g : Frame} {slot : Nat} {k : Option Continuation} (labels : List Ir.Label)
    (h : f.takeNext slot = .ok (k, g)) :
    f.Follows labels g := by
  unfold takeNext at h
  split at h
  · cases h
    refine ⟨rfl, by simp, ?_⟩
    intro other u hu
    rw [Array.getElem?_setIfInBounds] at hu
    split at hu
    · split at hu
      · cases hu
        exact Or.inr trivial
      · cases hu
    · exact Or.inl hu
  · cases h
    exact Follows.refl f labels
  · cases h
  · cases h

/-- Only a slot beyond the temporaries cannot be filled. -/
theorem put_eq_error
    {f : Frame} {slot : Nat} {t : Temp} {m : Malfunction}
    (h : f.put slot t = .error m) :
    f.temps.size ≤ slot := by
  unfold put at h
  split at h
  · cases h
  · rename_i hlt
    exact Nat.le_of_not_lt hlt

theorem takeNext_eq_error
    {f : Frame} {slot : Nat} {m : Malfunction}
    (h : f.takeNext slot = .error m)
    (hm : m.IsLinkage) :
    f.temps.size ≤ slot := by
  unfold takeNext at h
  split at h
  · cases h
  · cases h
  · cases h
    exact absurd hm id
  · rename_i hnone
    exact Array.getElem?_eq_none_iff.mp hnone

theorem value_eq_ok_iff
    {f : Frame} {slot : Nat} {v : Value} :
    f.value slot = .ok v ↔ f.temps[slot]? = some (.value v) := by
  unfold value
  split
  · rename_i w hw
    simp [hw]
  · rename_i hnone
    simpa using hnone v

theorem value_eq_error
    {f : Frame} {slot : Nat} {m : Malfunction}
    (h : f.value slot = .error m) :
    ¬ m.IsLinkage := by
  unfold value at h
  split at h <;> cases h
  exact id

theorem label_eq_error
    {f : Frame} {slot : Nat} {m : Malfunction}
    (h : f.label slot = .error m) :
    ¬ m.IsLinkage := by
  unfold label at h
  split at h <;> cases h
  exact id

theorem values_eq_error
    {f : Frame} {slots : List Nat} {m : Malfunction}
    (h : f.values slots = .error m) :
    ¬ m.IsLinkage := by
  induction slots with
  | nil => cases h
  | cons slot rest ih =>
      simp only [values, bind, Except.bind] at h
      split at h
      · rename_i hvalue
        cases h
        exact value_eq_error hvalue
      · split at h
        · rename_i hrest
          cases h
          exact ih hrest
        · cases h

theorem takeNext_eq_some
    {f g : Frame} {slot : Nat} {k : Continuation}
    (h : f.takeNext slot = .ok (some k, g)) :
    f.temps[slot]? = some (.next k) := by
  unfold takeNext at h
  split at h
  · rename_i hslot
    cases h
    exact hslot
  · cases h
  · cases h
  · cases h

end Frame

/-- What the execution of an instruction can come to. -/
structure Executes (s : Store) (f : Frame) (i : Ir.Instruction) (r : Executed) : Prop where
  follows : f.Follows i.labels r.2.1
  labels : r.1.labels ⊆ i.labels
  slots : r.1.slots ⊆ i.slots
  resumes : ∀ d k, r.1 = .resume d (some k) → ∃ slot : Nat, f.temps[slot]? = some (.next k)
  activity : r.2.2.activity = s.activity ∨
    ∃ entry v, entry ∈ i.labels ∧ s.createProducer f entry = .ok (v, r.2.2)
  faults : ∀ m, r.1 = .fault (.malfunction m) → m.IsLinkage →
    ∃ slot, slot ∈ i.slots ∧ f.temps.size ≤ slot

namespace Executes

variable {s t : Store} {f g : Frame} {i : Ir.Instruction}

/-- The instruction raises a fault. -/
theorem of_fault
    (ht : t.activity = s.activity)
    {e : Fault}
    (he : ∀ m, e = .malfunction m → ¬ m.IsLinkage) :
    Executes s f i (.fault e, f, t) where
  follows := Frame.Follows.refl f _
  labels := by simp [Effect.labels]
  slots := by simp [Effect.slots]
  resumes := by simp
  activity := Or.inl ht
  faults := by
    intro m hm hlinkage
    simp only [Effect.fault.injEq] at hm
    exact absurd hlinkage (he m hm)

/-- The instruction raises a malfunction that linking does not rule out. -/
theorem of_malfunction
    (ht : t.activity = s.activity)
    {m : Malfunction}
    (hm : ¬ m.IsLinkage) :
    Executes s f i (.fault (.malfunction m), f, t) := by
  refine of_fault ht ?_
  intro m' h
  cases h
  exact hm

/-- The instruction asks for something that is neither a fault nor a resumption. -/
theorem of_effect
    {e : Effect}
    (ht : t.activity = s.activity)
    (hg : f.Follows i.labels g)
    (hlabels : e.labels ⊆ i.labels)
    (hslots : e.slots ⊆ i.slots)
    (hplain : e.isPlain = true) :
    Executes s f i (e, g, t) where
  follows := hg
  labels := hlabels
  slots := hslots
  resumes := by
    rintro d k rfl
    cases hplain
  activity := Or.inl ht
  faults := by
    rintro m rfl
    cases hplain

/-- The instruction asks for something that hands on nothing. -/
theorem of_silent
    {e : Effect}
    (ht : t.activity = s.activity)
    (hg : f.Follows i.labels g)
    (hlabels : e.labels = [])
    (hslots : e.slots = [])
    (hplain : e.isPlain = true) :
    Executes s f i (e, g, t) :=
  of_effect ht hg (by simp [hlabels]) (by simp [hslots]) hplain

/-- The instruction changes its frame alone, or fails to. -/
theorem of_changed
    (ht : t.activity = s.activity ∨
      ∃ entry v, entry ∈ i.labels ∧ s.createProducer f entry = .ok (v, t))
    {e : Except Malfunction Frame}
    (hok : ∀ g, e = .ok g → f.Follows i.labels g)
    (herror : ∀ m, e = .error m → m.IsLinkage → ∃ slot, slot ∈ i.slots ∧ f.temps.size ≤ slot) :
    Executes s f i (t.changed f e) := by
  cases e with
  | ok g =>
      exact
        { follows := hok g rfl
          labels := by simp [Store.changed, Effect.labels]
          slots := by simp [Store.changed, Effect.slots]
          resumes := by simp [Store.changed]
          activity := ht
          faults := by simp [Store.changed] }
  | error m =>
      exact
        { follows := Frame.Follows.refl f _
          labels := by simp [Store.changed, Effect.labels]
          slots := by simp [Store.changed, Effect.slots]
          resumes := by simp [Store.changed]
          activity := ht
          faults := by
            intro m' hm hlinkage
            simp only [Store.changed, Effect.fault.injEq, Fault.malfunction.injEq] at hm
            subst hm
            exact herror m rfl hlinkage }

/-- The instruction stores a value in a slot of its own. -/
theorem of_set
    (ht : t.activity = s.activity)
    {slot : Nat} {v : Value}
    (hslot : slot ∈ i.slots) :
    Executes s f i (t.changed f (f.set slot v)) :=
  of_changed (Or.inl ht) (fun _ hg => Frame.follows_set _ hg)
    (fun _ hm _ => ⟨slot, hslot, Frame.put_eq_error hm⟩)

/-- The instruction computes a value, and stores it in a slot of its own. -/
theorem of_bind_set
    (ht : t.activity = s.activity)
    {e : Except Malfunction Value} {slot : Nat} {h : Value → Value}
    (he : ∀ m, e = .error m → ¬ m.IsLinkage)
    (hslot : slot ∈ i.slots) :
    Executes s f i (t.changed f (e.bind fun v => f.set slot (h v))) := by
  cases e with
  | ok v => exact of_set ht hslot
  | error m => exact of_malfunction ht (he m rfl)

end Executes

namespace Store

theorem lookupName_eq_error
    {s : Store} {f : Frame} {name : String} {m : Malfunction}
    (h : s.lookupName f name = .error m) :
    ¬ m.IsLinkage := by
  unfold lookupName at h
  split at h <;> cases h
  exact id

theorem resolve_eq_error
    {s : Store} {e : Environment} {name : String} {assignable : Bool} {m : Malfunction}
    (h : s.resolve e name assignable = .error m) :
    ¬ m.IsLinkage := by
  unfold resolve at h
  split at h <;> cases h <;> exact id

theorem leaveScope_eq_some
    {f g : Frame} {name : String} {m : Malfunction}
    (h : f.leaveScope name = (some m, g)) :
    ¬ m.IsLinkage := by
  unfold Frame.leaveScope at h
  split at h
  · cases h
    exact id
  · simp only at h
    split at h <;> cases h
    exact id

theorem follows_enterScope
    (s : Store) (f : Frame) (name : String) (names dynamics : List String)
    (labels : List Ir.Label) :
    f.Follows labels (s.enterScope f name names dynamics).1 := by
  simp only [enterScope]
  split <;> exact Frame.Follows.of_temps_eq rfl rfl

theorem follows_leaveScope (f : Frame) (name : String) (labels : List Ir.Label) :
    f.Follows labels (f.leaveScope name).2 := by
  unfold Frame.leaveScope
  split
  · exact Frame.Follows.refl f labels
  · simp only
    split <;> exact Frame.Follows.of_temps_eq rfl rfl

theorem channelOperand_eq_error
    {s : Store} {f : Frame} {slot : Nat} {e : Fault}
    (h : s.channelOperand f slot = .error e) :
    ∀ m, e = .malfunction m → ¬ m.IsLinkage := by
  rintro m rfl
  unfold channelOperand at h
  split at h
  · rename_i hvalue
    cases h
    exact Frame.value_eq_error hvalue
  · split at h <;> cases h

theorem waitCases_eq_error
    {s : Store} {f : Frame} {cases' : List Ir.Case} {e : Fault}
    (h : s.waitCases f cases' = .error e) :
    ∀ m, e = .malfunction m → ¬ m.IsLinkage := by
  induction cases' with
  | nil => cases h
  | cons c rest ih =>
      simp only [waitCases] at h
      split at h
      · rename_i hcase
        cases h
        cases c with
        | send channel value body =>
            simp only [waitCase] at hcase
            split at hcase
            · rename_i hchannel
              cases hcase
              exact channelOperand_eq_error hchannel
            · rename_i hvalue
              cases hcase
              rintro m hm
              cases hm
              exact Frame.value_eq_error hvalue
            · cases hcase
        | receive channel target body =>
            simp only [waitCase] at hcase
            cases hchannel : s.channelOperand f channel with
            | ok id => simp [hchannel, Except.map] at hcase
            | error e' =>
                simp only [hchannel, Except.map, Except.error.injEq] at hcase
                subst hcase
                exact channelOperand_eq_error hchannel
        | default body => cases hcase
      · cases hrest : s.waitCases f rest with
        | ok waits => simp [hrest, Except.map] at h
        | error e' =>
            simp only [hrest, Except.map, Except.error.injEq] at h
            subst h
            exact ih hrest

theorem executes_executeField
    (s : Store) (f : Frame) (target record : Nat) (field : String) (assignable : Bool)
    (onFail : Option Ir.Label) :
    Executes s f (.field target record field assignable onFail)
      (s.executeField f target record field assignable onFail) := by
  unfold executeField
  split
  · rename_i hvalue
    exact Executes.of_malfunction rfl (Frame.value_eq_error hvalue)
  · split
    · split
      · exact Executes.of_set rfl (by simp [Ir.Instruction.slots])
      · exact Executes.of_effect rfl (Frame.Follows.refl f _)
          (by simp [Effect.labels, Ir.Instruction.labels]) (by simp [Effect.slots]) rfl
    · exact Executes.of_fault rfl (by simp)

theorem executes_storeReceived
    {s t : Store} {f : Frame} {i : Ir.Instruction} {slot : Nat} {v : Value} {body : Ir.Label}
    (ht : t.activity = s.activity)
    (hslot : slot ∈ i.slots)
    (hbody : body ∈ i.labels) :
    Executes s f i (t.storeReceived f slot v body) := by
  have hgoto : ∀ (g : Frame) (u : Store), u.activity = s.activity → f.Follows i.labels g →
      Executes s f i (.goto body, g, u) := fun g u hu hg =>
    Executes.of_effect hu hg (by simpa [Effect.labels] using hbody) (by simp [Effect.slots]) rfl
  unfold storeReceived
  split
  · exact hgoto f _ ht (Frame.Follows.refl f _)
  · cases hset : f.set slot v with
    | ok g => exact hgoto g t ht (Frame.follows_set _ hset)
    | error m =>
        have hchanged : Executes s f i (t.changed f (f.set slot v)) := Executes.of_set ht hslot
        rw [hset] at hchanged
        exact hchanged

theorem executes_executeSelect
    (s : Store) (f : Frame) (cases' : List Ir.Case) (onFail : Option Ir.Label) :
    Executes s f (.select cases' onFail) (s.executeSelect f cases' onFail) := by
  unfold executeSelect
  split
  · rename_i hwaits
    exact Executes.of_fault rfl (waitCases_eq_error hwaits)
  · rename_i waits _
    have hchoose := s.activity_choose waits
    have hbody : ∀ (k : Nat) (c : Ir.Case), cases'[k]? = some c →
        c.body ∈ (Ir.Instruction.select cases' onFail).labels := by
      intro k c hc
      have hmem : c ∈ cases' := List.mem_of_getElem? hc
      simp only [Ir.Instruction.labels, List.mem_append, List.mem_map]
      exact Or.inl ⟨c, hmem, rfl⟩
    have hfailed : ∀ t : Store, t.activity = s.activity →
        Executes s f (.select cases' onFail) (.failed onFail, f, t) := by
      intro t ht
      refine Executes.of_effect ht (Frame.Follows.refl f _) ?_ (by simp [Effect.slots]) rfl
      simp [Effect.labels, Ir.Instruction.labels]
    split
    · rename_i hchosen
      rw [hchosen] at hchoose
      exact hfailed _ hchoose
    · rename_i hchosen
      rw [hchosen] at hchoose
      exact Executes.of_silent hchoose (Frame.Follows.refl f _) rfl rfl rfl
    · rename_i k received t hchosen
      rw [hchosen] at hchoose
      split
      · rename_i channel slot body v hcase
        refine executes_storeReceived hchoose ?_ (hbody k _ hcase)
        simp only [Ir.Instruction.slots, List.mem_flatMap]
        exact ⟨_, List.mem_of_getElem? hcase, by simp [Ir.Case.slots]⟩
      · rename_i c hcase _
        exact Executes.of_effect hchoose (Frame.Follows.refl f _)
          (by simpa [Effect.labels] using hbody k c hcase) (by simp [Effect.slots]) rfl
      · exact hfailed _ hchoose

/-- Every instruction is executed as `Executes` says, one case for each kind of instruction. -/
theorem executes_execute (s : Store) (f : Frame) (i : Ir.Instruction) :
    Executes s f i (s.execute f i) := by
  cases i with
  | literal target value =>
      exact Executes.of_set rfl (by simp [Ir.Instruction.slots])
  | name target name =>
      exact Executes.of_bind_set (h := id) rfl (fun m hm => lookupName_eq_error hm)
        (by simp [Ir.Instruction.slots])
  | dynamic target name assignable =>
      simp only [execute]
      split
      · rename_i hresolve
        exact Executes.of_set (activity_resolve hresolve) (by simp [Ir.Instruction.slots])
      · rename_i hresolve
        exact Executes.of_malfunction rfl (resolve_eq_error hresolve)
  | field target record field assignable onFail =>
      exact executes_executeField s f target record field assignable onFail
  | call d callee args names =>
      simp only [execute]
      split
      · rename_i hvalue
        exact Executes.of_malfunction rfl (Frame.value_eq_error hvalue)
      · rename_i hvalues
        exact Executes.of_malfunction rfl (Frame.values_eq_error hvalues)
      · exact Executes.of_effect rfl (Frame.Follows.refl f _)
          (by simp [Effect.labels, Ir.Instruction.labels])
          (by simp [Effect.slots, Ir.Instruction.slots]) rfl
  | operator d op args =>
      simp only [execute]
      split
      · exact Executes.of_effect rfl (Frame.Follows.refl f _)
          (by simp [Effect.labels, Ir.Instruction.labels])
          (by simp [Effect.slots, Ir.Instruction.slots]) rfl
      · rename_i hvalues
        exact Executes.of_malfunction rfl (Frame.values_eq_error hvalues)
  | resume d source =>
      simp only [execute]
      split
      · rename_i k g htake
        exact
          { follows := Frame.follows_takeNext _ htake
            labels := by simp [Effect.labels, Ir.Instruction.labels]
            slots := by simp [Effect.slots, Ir.Instruction.slots]
            resumes := by
              intro d' k' hk
              cases hk
              exact ⟨source, Frame.takeNext_eq_some htake⟩
            activity := Or.inl rfl
            faults := by simp }
      · rename_i m htake
        exact Executes.of_changed (e := .error m) (Or.inl rfl) (by simp) (by
          intro m' hm hlinkage
          cases hm
          exact ⟨source, by simp [Ir.Instruction.slots], Frame.takeNext_eq_error htake hlinkage⟩)
  | move target source =>
      exact Executes.of_bind_set (h := id) rfl (fun m hm => Frame.value_eq_error hm)
        (by simp [Ir.Instruction.slots])
  | deref target source =>
      exact Executes.of_bind_set (h := s.deref) rfl (fun m hm => Frame.value_eq_error hm)
        (by simp [Ir.Instruction.slots])
  | moveLabel target label =>
      exact Executes.of_changed (Or.inl rfl)
        (fun g hg => Frame.follows_put (t := .label label) (List.mem_singleton.mpr rfl) hg)
        (fun m hm _ => ⟨target, by simp [Ir.Instruction.slots], Frame.put_eq_error hm⟩)
  | goto target =>
      exact Executes.of_effect rfl (Frame.Follows.refl f _)
        (by simp [Effect.labels, Ir.Instruction.labels]) (by simp [Effect.slots]) rfl
  | indirect source targets =>
      simp only [execute]
      split
      · rename_i hlabel
        exact Executes.of_malfunction rfl (Frame.label_eq_error hlabel)
      · split
        · rename_i htarget
          exact Executes.of_effect rfl (Frame.Follows.refl f _)
            (by simpa [Effect.labels, Ir.Instruction.labels] using htarget)
            (by simp [Effect.slots]) rfl
        · exact Executes.of_malfunction rfl id
  | succeed value again =>
      have hsucceed : ∀ v : Value, Executes s f (.succeed value again) (.succeed v again, f, s) :=
        fun v => Executes.of_effect rfl (Frame.Follows.refl f _)
          (by simp [Effect.labels, Ir.Instruction.labels]) (by simp [Effect.slots]) rfl
      cases value with
      | none => exact hsucceed .nil
      | some slot =>
          simp only [execute]
          split
          · exact hsucceed _
          · rename_i hvalue
            exact Executes.of_malfunction rfl (Frame.value_eq_error hvalue)
  | fail =>
      exact Executes.of_silent rfl (Frame.Follows.refl f _) rfl rfl rfl
  | enter scope names dynamics =>
      exact Executes.of_silent (s.activity_enterScope f scope names dynamics)
        (follows_enterScope s f scope names dynamics _) rfl rfl rfl
  | leave scope =>
      have hfollows := follows_leaveScope f scope []
      simp only [execute]
      split
      · rename_i hleave
        rw [hleave] at hfollows
        exact Executes.of_silent rfl hfollows rfl rfl rfl
      · rename_i m g hleave
        rw [hleave] at hfollows
        exact
          { follows := hfollows
            labels := by simp [Effect.labels]
            slots := by simp [Effect.slots]
            resumes := by simp
            activity := Or.inl rfl
            faults := by
              intro m' hm hlinkage
              cases hm
              exact absurd hlinkage (leaveScope_eq_some hleave) }
  | create target entry =>
      simp only [execute]
      split
      · rename_i v t hcreate
        exact Executes.of_changed
          (Or.inr ⟨entry, v, by simp [Ir.Instruction.labels], hcreate⟩)
          (fun g hg => Frame.follows_set _ hg)
          (fun m hm _ => ⟨target, by simp [Ir.Instruction.slots], Frame.put_eq_error hm⟩)
      · rename_i e hcreate
        refine Executes.of_fault rfl ?_
        rintro m rfl
        unfold createProducer at hcreate
        split at hcreate <;> cases hcreate
  | produce value again =>
      simp only [execute]
      split
      · exact Executes.of_effect rfl (Frame.Follows.refl f _)
          (by simp [Effect.labels, Ir.Instruction.labels]) (by simp [Effect.slots]) rfl
      · rename_i hvalue
        exact Executes.of_malfunction rfl (Frame.value_eq_error hvalue)
  | exhaust =>
      exact Executes.of_silent rfl (Frame.Follows.refl f _) rfl rfl rfl
  | select cases' onFail => exact executes_executeSelect s f cases' onFail
  | recover handler =>
      simp only [execute]
      split
      · exact Executes.of_silent rfl (Frame.Follows.of_temps_eq rfl rfl) rfl rfl rfl
      · rename_i hvalue
        exact Executes.of_malfunction rfl (Frame.value_eq_error hvalue)
  | coordinate coord =>
      exact Executes.of_silent rfl (Frame.Follows.of_temps_eq rfl rfl) rfl rfl rfl

/-! ## Co-expressions -/

/-- The copy of a frame has the same code and temporaries, but no continuation. -/
theorem follows_duplicateFrame (s : Store) (f : Frame) (environment : Environment) :
    f.Follows [] (s.duplicateFrame f environment).1 ∧
      ∀ (slot : Nat) (k : Continuation),
        (s.duplicateFrame f environment).1.temps[slot]? ≠ some (.next k) := by
  refine ⟨⟨rfl, by simp [duplicateFrame], ?_⟩, ?_⟩
  · intro slot t h
    simp only [duplicateFrame, Array.getElem?_map, Option.map_eq_some_iff] at h
    obtain ⟨u, hu, rfl⟩ := h
    cases u with
    | next k => exact Or.inr trivial
    | empty => exact Or.inl hu
    | value v => exact Or.inl hu
    | label l => exact Or.inl hu
  · intro slot k h
    simp only [duplicateFrame, Array.getElem?_map, Option.map_eq_some_iff] at h
    obtain ⟨u, -, hu⟩ := h
    cases u <;> cases hu

/-- What `create` adds: a copy of the frame without continuations, and a co-expression that starts
with it and has the next number. -/
theorem createProducer_eq_ok
    {s t : Store} {f : Frame} {entry : Ir.Label} {v : Value}
    (h : s.createProducer f entry = .ok (v, t)) :
    ∃ copy : Frame,
      f.Follows [] copy ∧ (∀ (slot : Nat) (k : Continuation), copy.temps[slot]? ≠ some (.next k)) ∧
      t.frames = s.frames.push copy ∧
      t.producers = s.producers.push (.fresh s.frames.size entry) ∧
      t.callables = s.callables ∧ v = .coexpression (s.producers.size + 1) := by
  unfold createProducer at h
  split at h
  · simp only [Except.ok.injEq, Prod.mk.injEq] at h
    obtain ⟨hv, rfl⟩ := h
    let node := s.taskEnvironment f.environment (s.producers.size + 1)
    obtain ⟨hcopy, hnext⟩ := follows_duplicateFrame node.2 f node.1
    have hactivity : (node.2.duplicateFrame f node.1).2.activity = s.activity :=
      (node.2.activity_duplicateFrame f node.1).trans
        (s.activity_taskEnvironment f.environment (s.producers.size + 1))
    have hframes := frames_eq_of_activity hactivity
    have hproducers := producers_eq_of_activity hactivity
    have hcallables := callables_eq_of_activity hactivity
    refine ⟨(node.2.duplicateFrame f node.1).1, hcopy, hnext, ?_, ?_, hcallables, hv.symm⟩
    · exact congrArg (fun frames => frames.push (node.2.duplicateFrame f node.1).1) hframes
    · change (node.2.duplicateFrame f node.1).2.producers.push
        (.fresh (node.2.duplicateFrame f node.1).2.frames.size entry) = _
      rw [hproducers, hframes]
  · cases h

/-- An instruction does not touch the frames that the store has. -/
theorem getElem?_frames_execute
    (s : Store) (f : Frame) (i : Ir.Instruction) {n : Nat} {g : Frame}
    (h : s.frames[n]? = some g) :
    (s.execute f i).2.2.frames[n]? = some g := by
  rcases (s.executes_execute f i).activity with hactivity | ⟨entry, v, -, hcreate⟩
  · rw [frames_eq_of_activity hactivity]
    exact h
  · obtain ⟨copy, -, -, hframes, -⟩ := createProducer_eq_ok hcreate
    obtain ⟨hlt, -⟩ := Array.getElem?_eq_some_iff.mp h
    rw [hframes, Array.getElem?_push, if_neg (Nat.ne_of_lt hlt)]
    exact h

end Store

/-! ## Deliveries -/

/-- Frame `g` has come out of frame `f` by the delivery of an outcome with a given continuation. -/
structure Frame.Receives (f : Frame) (next : Option Continuation) (g : Frame) : Prop where
  procedure : g.procedure = f.procedure
  size : g.temps.size = f.temps.size
  temps : ∀ (slot : Nat) (t : Temp), g.temps[slot]? = some t →
    f.temps[slot]? = some t ∨ Puts [] t ∨ ∃ k, next = some k ∧ t = .next k

theorem Frame.receives_setNext
    {f g : Frame} {slot : Nat} {next : Option Continuation}
    (h : f.setNext slot next = .ok g) :
    f.Receives next g := by
  cases next with
  | none =>
      have hfollows : f.Follows [] g := follows_put (t := .empty) trivial h
      refine ⟨hfollows.procedure, hfollows.size, ?_⟩
      intro other t ht
      rcases hfollows.temps other t ht with hold | hputs
      · exact Or.inl hold
      · exact Or.inr (Or.inl hputs)
  | some k =>
      obtain ⟨-, rfl⟩ := getElem?_put h
      refine ⟨rfl, by simp, ?_⟩
      intro other t ht
      simp only [Array.getElem?_setIfInBounds] at ht
      split at ht
      · split at ht
        · cases ht
          exact Or.inr (Or.inr ⟨k, rfl, rfl⟩)
        · cases ht
      · exact Or.inl ht

namespace Machine

/-- The two stages of a delivery: the value, then the continuation. -/
theorem storeOutcome_eq
    (f : Frame) (d : Ir.Destination) (o : Outcome) :
    (∃ stored : Except Malfunction Frame,
      (stored = .ok f ∨ ∃ slot v, d.value = some slot ∧ stored = f.set slot v) ∧
      storeOutcome f d o = stored.bind fun g => match d.next with
        | some slot => g.setNext slot o.next?
        | none => .ok g) := by
  refine ⟨_, ?_, rfl⟩
  split
  · rename_i slot v hslot hv
    exact Or.inr ⟨slot, v, hslot, rfl⟩
  · exact Or.inl rfl

theorem receives_storeOutcome
    {f g : Frame} {d : Ir.Destination} {o : Outcome}
    (h : storeOutcome f d o = .ok g) :
    f.Receives o.next? g := by
  obtain ⟨stored, hstored, heq⟩ := storeOutcome_eq f d o
  rw [heq] at h
  cases stored with
  | error m => cases h
  | ok f' =>
      have hfollows : f.Follows [] f' := by
        rcases hstored with hsame | ⟨slot, v, -, hset⟩
        · cases hsame
          exact Frame.Follows.refl f []
        · exact Frame.follows_set [] hset.symm
      have hnext : f'.Receives o.next? g := by
        simp only [Except.bind] at h
        split at h
        · exact Frame.receives_setNext h
        · cases h
          exact ⟨rfl, rfl, fun _ _ ht => Or.inl ht⟩
      refine ⟨hnext.procedure.trans hfollows.procedure, hnext.size.trans hfollows.size, ?_⟩
      intro slot t ht
      rcases hnext.temps slot t ht with hold | hnew
      · rcases hfollows.temps slot t hold with hold | hputs
        · exact Or.inl hold
        · exact Or.inr (Or.inl hputs)
      · exact Or.inr hnew

/-- Only a slot beyond the temporaries keeps an outcome from being stored. -/
theorem storeOutcome_eq_error
    {f : Frame} {d : Ir.Destination} {o : Outcome} {m : Malfunction}
    (h : storeOutcome f d o = .error m) :
    ∃ slot, slot ∈ d.slots ∧ f.temps.size ≤ slot := by
  obtain ⟨stored, hstored, heq⟩ := storeOutcome_eq f d o
  rw [heq] at h
  cases stored with
  | error m' =>
      rcases hstored with hsame | ⟨slot, v, hslot, hset⟩
      · cases hsame
      · exact ⟨slot, by simp [Ir.Destination.slots, hslot], Frame.put_eq_error hset.symm⟩
  | ok f' =>
      have hsize : f'.temps.size = f.temps.size := by
        rcases hstored with hsame | ⟨slot, v, -, hset⟩
        · cases hsame
          rfl
        · exact (Frame.follows_set [] hset.symm).size
      simp only [Except.bind] at h
      split at h
      · rename_i slot hslot
        refine ⟨slot, by simp [Ir.Destination.slots, hslot], ?_⟩
        rw [← hsize]
        cases hnext : o.next? with
        | none =>
            rw [hnext] at h
            exact Frame.put_eq_error h
        | some k =>
            rw [hnext] at h
            exact Frame.put_eq_error h
      · cases h

/-- A step of a running frame executes its next instruction and performs the effect. -/
theorem step_running
    {s t : Store} {stack : List Context} {frame : Nat} {label : Ir.Label} {i : Ir.Instruction}
    {rest : List Ir.Instruction} {f g : Frame} {effect : Effect}
    (hframe : s.frames[frame]? = some f)
    (hexecute : s.execute f i = (effect, g, t)) :
    step ⟨s, stack, .running frame label (i :: rest)⟩ =
      perform (t.setFrame frame g) stack frame label rest g.environment effect := by
  simp only [step, advance, hframe, hexecute]

end Machine

end Execution

end GoalDirected
