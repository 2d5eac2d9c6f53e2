import GoalDirected.Proofs.Machine.Calls
import GoalDirected.Proofs.Machine.Execution
import GoalDirected.Proofs.Store.Images
import Mathlib.Logic.Function.Iterate

/-!
# Faults on their way out

A fault goes from context to context until a recovery procedure is called for it.  An activation that has none is
left, and adds its entry to the trace.  If the entry would show a value that holds itself, the search for the image
of the value does not end, and the process is aborted.

* `Machine.Raises`: a fault is on its way to a stack of contexts, or the next step raises it in an activation.
* `Left`: what becomes of a fault that leaves an activation.
* `Passable`: contexts of activations that a fault leaves one after the other.
* `iterate_passable`: what has become of the fault, of the store and of the stack after it has passed them.
* `iterate_unshown`: where an activation cannot be shown, the fault gets no further.
* `iterate_catch`: the first activation with a recovery procedure calls it.
-/

namespace GoalDirected

section Unwinding

/-! ## Frames and contexts -/

/-- The activation that a context belongs to. -/
def Context.activation? : Context → Option Nat
  | .awaiting n _ _ _ => some n
  | .recovering n => some n
  | _ => none

namespace Frame

/-- A frame notes the first value that a fault complains about, unless it has noted one before. -/
def noting (e : Fault) (f : Frame) : Frame :=
  { f with offender := f.offender.or e.offending.head? }

theorem noting_noting (e : Fault) (f : Frame) : (f.noting e).noting e = f.noting e := by
  simp [noting, Option.or_assoc]

theorem noting_malfunction (reason : Malfunction) (f : Frame) : f.noting (.malfunction reason) = f := by
  simp [noting, Fault.offending]

end Frame

/-! ## Stores -/

namespace Store

variable {s : Store} {e : Fault} {c : Context} {n : Nat} {f g : Frame}

/-- What a fault leaves behind in the context that it passes: an activation that waits notes what is offending. -/
def pass (e : Fault) (s : Store) : Context → Store
  | .awaiting n _ _ _ =>
      match s.frames[n]? with
      | some f => s.setFrame n (f.noting e)
      | none => s
  | _ => s

/-- What a fault leaves behind in all contexts that it passes. -/
def passAll (e : Fault) (s : Store) (chain : List Context) : Store :=
  chain.foldl (pass e) s

/-- The context belongs to an activation, and nothing that the activation's entry shows holds itself. -/
def Showable (s : Store) (c : Context) : Prop :=
  ∃ n f, c.activation? = some n ∧ s.frames[n]? = some f ∧ ∀ v ∈ f.shown, s.Unfolds v

/-- The entry says what it has to say of the activation that the context belongs to. -/
def Records (s : Store) (c : Context) (entry : TraceEntry) : Prop :=
  ∃ n f, c.activation? = some n ∧ s.frames[n]? = some f ∧ s.Tells f entry

/-- The recovery procedure of an activation that waits. -/
def handler? (s : Store) : Context → Option Value
  | .awaiting n _ _ _ => s.frames[n]?.bind Frame.recovery
  | _ => none

/-! ### Images do not depend on frames -/

theorem textWithin_setFrame (s : Store) (n : Nat) (g : Frame) (fuel : Nat) (v : Value) :
    (s.setFrame n g).textWithin fuel v = s.textWithin fuel v := by
  induction fuel generalizing v with
  | zero => cases v <;> rfl
  | succ fuel ih =>
      cases v with
      | ref cell => exact ih (s.read cell)
      | _ => rfl

theorem imageWithin_setFrame (s : Store) (n : Nat) (g : Frame) (fuel : Nat) (v : Value) :
    (s.setFrame n g).imageWithin fuel v = s.imageWithin fuel v := by
  induction fuel generalizing v with
  | zero => cases v <;> rfl
  | succ fuel ih =>
      cases v with
      | list id =>
          have hrest : (s.setFrame n g).imageWithin fuel = s.imageWithin fuel := funext ih
          simp only [imageWithin, hrest]
          rfl
      | ref cell =>
          simp only [imageWithin, ih]
          rfl
      | text t => rfl
      | _ => exact congrArg some (textWithin_setFrame ..)

theorem image?_setFrame (s : Store) (n : Nat) (g : Frame) : (s.setFrame n g).image? = s.image? :=
  funext (s.imageWithin_setFrame n g (s.cells.size + 1))

theorem areShown_setFrame (s : Store) (n : Nat) (g : Frame) : (s.setFrame n g).areShown = s.areShown := by
  funext values
  simp only [areShown, image?_setFrame]

theorem traceEntry_setFrame (s : Store) (n : Nat) (g f : Frame) :
    (s.setFrame n g).traceEntry f = s.traceEntry f := by
  have himage : (s.setFrame n g).image = s.image := by
    funext v
    rw [image, image?_setFrame, image]
  simp only [traceEntry, himage]

/-! ### What a fault leaves behind -/

theorem pass_awaiting
    (h : s.frames[n]? = some f)
    (e : Fault) (label : Ir.Label) (rest : List Ir.Instruction) (d : Ir.Destination) :
    s.pass e (.awaiting n label rest d) = s.setFrame n (f.noting e) := by
  simp only [pass, h]

theorem image?_pass (s : Store) (e : Fault) (c : Context) : (s.pass e c).image? = s.image? := by
  cases c with
  | awaiting n label rest d =>
      simp only [pass]
      split
      · exact s.image?_setFrame n _
      · rfl
  | _ => rfl

theorem image?_passAll (s : Store) (e : Fault) (chain : List Context) : (s.passAll e chain).image? = s.image? := by
  induction chain generalizing s with
  | nil => rfl
  | cons c chain ih => exact (ih (s.pass e c)).trans (s.image?_pass e c)

/-- A context is passed by changes of its own frame alone, which keep the recovery procedure. -/
theorem getElem?_frames_pass
    (h : s.frames[n]? = some f)
    (e : Fault) (c : Context) :
    (s.pass e c).frames[n]? = some f ∨
      (s.pass e c).frames[n]? = some (f.noting e) ∧ ∃ label rest d, c = .awaiting n label rest d := by
  cases c with
  | awaiting k label rest d =>
      by_cases hk : n = k
      · subst hk
        rw [pass_awaiting h, getElem?_frames_setFrame_self h]
        exact Or.inr ⟨rfl, label, rest, d, rfl⟩
      · left
        simp only [pass]
        split
        · rw [getElem?_frames_setFrame_of_ne hk]
          exact h
        · exact h
  | _ => exact Or.inl h

theorem exists_frame_pass
    (h : s.frames[n]? = some f)
    (e : Fault) (c : Context) :
    ∃ g, (s.pass e c).frames[n]? = some g ∧ g.recovery = f.recovery := by
  rcases getElem?_frames_pass h e c with hkept | ⟨hnoted, -⟩
  · exact ⟨f, hkept, rfl⟩
  · exact ⟨f.noting e, hnoted, rfl⟩

theorem size_frames_pass (s : Store) (e : Fault) (c : Context) :
    (s.pass e c).frames.size = s.frames.size := by
  cases c with
  | awaiting n label rest d =>
      simp only [pass]
      split
      · exact s.size_frames_setFrame n _
      · rfl
  | _ => rfl

theorem handler?_pass (s : Store) (e : Fault) (c d : Context) :
    (s.pass e c).handler? d = s.handler? d := by
  cases d with
  | awaiting n label rest d =>
      simp only [handler?]
      cases hf : s.frames[n]? with
      | none =>
          have hsize := s.size_frames_pass e c
          have hnone := Array.getElem?_eq_none_iff.mp hf
          rw [Array.getElem?_eq_none (by omega)]
      | some f =>
          obtain ⟨g, hg, hrecovery⟩ := exists_frame_pass hf e c
          rw [hg]
          exact hrecovery
  | _ => rfl

/-- A frame that nothing more is noted in stays as it is. -/
theorem getElem?_frames_passAll
    {chain : List Context}
    (h : s.frames[n]? = some f)
    (hsettled : f.noting e = f ∨ ∀ label rest d, .awaiting n label rest d ∉ chain) :
    (s.passAll e chain).frames[n]? = some f := by
  induction chain generalizing s with
  | nil => exact h
  | cons c chain ih =>
      have hrest : f.noting e = f ∨ ∀ label rest d, .awaiting n label rest d ∉ chain :=
        hsettled.imp_right fun hchain label rest d hmem => hchain label rest d (List.mem_cons_of_mem c hmem)
      refine ih ?_ hrest
      rcases getElem?_frames_pass h e c with hkept | ⟨hnoted, label, rest, d, rfl⟩
      · exact hkept
      · rcases hsettled with hf | hchain
        · rw [hnoted, hf]
        · exact absurd List.mem_cons_self (hchain label rest d)

end Store

/-! ## One activation -/

namespace Machine

variable {s : Store} {stack below : List Context} {n : Nat} {f : Frame} {r : Raised} {c : Context}

/-- What becomes of a fault that leaves an activation: it gets an entry that tells of the frame, or the process is
aborted in the attempt to make one. -/
inductive Left (s : Store) (stack : List Context) (f : Frame) (r : Raised) : Machine → Prop
  | told
      {entry : TraceEntry}
      (hshown : ∀ v ∈ f.shown, s.Unfolds v)
      (htells : s.Tells f entry) :
      Left s stack f r ⟨s, stack, .raising ⟨r.fault, r.trace ++ [entry]⟩⟩
  | unshown
      {v : Value}
      (hv : v ∈ f.shown)
      (hself : ¬ s.Unfolds v) :
      Left s stack f r ⟨s, stack, .aborted r⟩

theorem left_leave
    (hf : s.frames[n]? = some f)
    (stack : List Context) (r : Raised) :
    Left s stack f r (leave s stack n r) := by
  simp only [leave, hf]
  split
  · rename_i hshown
    have hunfolds := Store.areShown_iff.mp hshown
    exact .told hunfolds (Store.tells_traceEntry hunfolds)
  · rename_i hshown
    rw [Store.areShown_iff] at hshown
    push Not at hshown
    obtain ⟨v, hv, hself⟩ := hshown
    exact .unshown hv hself

/-- An activation without a recovery procedure for the fault is left. -/
theorem fault_pass
    (hbare : stack.head? ≠ some .bare)
    (hf : s.frames[n]? = some f)
    (hquiet : r.fault.isMalfunction = true ∨ f.recovery = none) :
    fault s stack n r = leave (s.setFrame n (f.noting r.fault)) stack n r := by
  obtain ⟨e, trace⟩ := r
  unfold fault
  split
  · exact absurd rfl hbare
  · rename_i f' cause offending _ hf' hfault
    cases hf.symm.trans hf'
    cases hfault
    have hrecovery : f.recovery = none := hquiet.resolve_left (by simp [Fault.isMalfunction])
    dsimp only
    split
    · rename_i handler hhandler
      cases hrecovery.symm.trans hhandler
    · rfl
  · rename_i hexception
    cases e with
    | exception cause offending => exact absurd rfl (hexception f cause offending hf)
    | malfunction reason => rw [Frame.noting_malfunction, Store.setFrame_of_getElem? hf]

/-- A recovery procedure is called for an exception, and used up by that. -/
theorem fault_catch
    {cause : Cause} {offending : List Value} {handler : Value}
    (hbare : stack.head? ≠ some .bare)
    (hf : s.frames[n]? = some f)
    (hfault : r.fault = .exception cause offending)
    (hrecovery : f.recovery = some handler) :
    fault s stack n r =
      call (s.setFrame n { f.noting r.fault with recovery := none }) (.recovering n :: stack) f.environment
        handler (cause.value :: offending) [] := by
  obtain ⟨e, trace⟩ := r
  cases hfault
  unfold fault
  split
  · exact absurd rfl hbare
  · rename_i f' cause' offending' _ hf' hfault
    cases hf.symm.trans hf'
    cases hfault
    simp only [hrecovery]
    rfl
  · rename_i hexception
    exact absurd rfl (hexception f cause offending hf)

theorem fault_absent
    (hbare : stack.head? ≠ some .bare)
    (hf : s.frames[n]? = none) :
    fault s stack n r = ⟨s, stack, .raising r⟩ := by
  unfold fault
  split
  · exact absurd rfl hbare
  · rename_i hf' _
    cases hf.symm.trans hf'
  · simp only [leave, hf]

/-- The ways in which a fault in an activation can go. -/
inductive Faulted (s : Store) (stack : List Context) (n : Nat) (r : Raised) : Machine → Prop
  | bare
      {rest : List Context}
      (hstack : stack = .bare :: rest) :
      Faulted s stack n r ⟨s, rest, .raising r⟩
  | absent
      (hbare : stack.head? ≠ some .bare)
      (hf : s.frames[n]? = none) :
      Faulted s stack n r ⟨s, stack, .raising r⟩
  | passed
      {f : Frame}
      (hbare : stack.head? ≠ some .bare)
      (hf : s.frames[n]? = some f)
      (hquiet : r.fault.isMalfunction = true ∨ f.recovery = none) :
      Faulted s stack n r (leave (s.setFrame n (f.noting r.fault)) stack n r)
  | caught
      {f : Frame} {cause : Cause} {offending : List Value} {handler : Value}
      (hbare : stack.head? ≠ some .bare)
      (hf : s.frames[n]? = some f)
      (hfault : r.fault = .exception cause offending)
      (hrecovery : f.recovery = some handler) :
      Faulted s stack n r
        (call (s.setFrame n { f.noting r.fault with recovery := none }) (.recovering n :: stack) f.environment
          handler (cause.value :: offending) [])

theorem faulted_fault (s : Store) (stack : List Context) (n : Nat) (r : Raised) :
    Faulted s stack n r (fault s stack n r) := by
  by_cases hbare : stack.head? = some .bare
  · obtain ⟨rest, rfl⟩ := List.head?_eq_some_iff.mp hbare
    exact .bare rfl
  cases hf : s.frames[n]? with
  | none =>
      rw [fault_absent hbare hf]
      exact .absent hbare hf
  | some f =>
      by_cases hquiet : r.fault.isMalfunction = true ∨ f.recovery = none
      · rw [fault_pass hbare hf hquiet]
        exact .passed hbare hf hquiet
      · obtain ⟨hexception, hrecovery⟩ := not_or.mp hquiet
        obtain ⟨handler, hhandler⟩ := Option.ne_none_iff_exists'.mp hrecovery
        cases hfault : r.fault with
        | malfunction reason =>
            rw [hfault] at hexception
            exact absurd rfl hexception
        | exception cause offending =>
            rw [fault_catch hbare hf hfault hhandler]
            exact .caught hbare hf hfault hhandler

/-- A context without a recovery procedure for the fault is passed. -/
theorem step_pass
    (hc : c.activation? = some n)
    (hf : s.frames[n]? = some f)
    (hbare : stack.head? ≠ some .bare)
    (hquiet : r.fault.isMalfunction = true ∨ s.handler? c = none) :
    step ⟨s, c :: stack, .raising r⟩ = leave (s.pass r.fault c) stack n r := by
  cases c with
  | awaiting k label rest d =>
      cases hc
      have hrecovery : r.fault.isMalfunction = true ∨ f.recovery = none :=
        hquiet.imp_right fun hnone => by simpa [Store.handler?, hf] using hnone
      rw [Store.pass_awaiting hf]
      exact fault_pass hbare hf hrecovery
  | recovering k =>
      cases hc
      rfl
  | _ => cases hc

/-! ## Many activations -/

/-- Contexts of activations none of which has a recovery procedure for the fault.  The recovery procedure of an
activation does not run inside of the activation itself. -/
structure Passable (e : Fault) (s : Store) (chain : List Context) : Prop where
  present : ∀ c ∈ chain, ∃ n f, c.activation? = some n ∧ s.frames[n]? = some f
  quiet : e.isMalfunction = true ∨ ∀ c ∈ chain, s.handler? c = none
  order : chain.Pairwise fun c c' => ∀ n label rest d, c = .recovering n → c' ≠ .awaiting n label rest d

theorem Passable.tail
    {e : Fault} {chain : List Context}
    (h : Passable e s (c :: chain)) :
    Passable e (s.pass e c) chain where
  present := by
    intro c' hc'
    obtain ⟨n, f, hactivation, hf⟩ := h.present c' (List.mem_cons_of_mem c hc')
    obtain ⟨g, hg, -⟩ := Store.exists_frame_pass hf e c
    exact ⟨n, g, hactivation, hg⟩
  quiet := by
    refine h.quiet.imp_right fun hnone c' hc' => ?_
    rw [Store.handler?_pass]
    exact hnone c' (List.mem_cons_of_mem c hc')
  order := h.order.of_cons

theorem Passable.cons
    {e : Fault} {chain : List Context} {label : Ir.Label} {rest : List Ir.Instruction} {d : Ir.Destination}
    (hf : s.frames[n]? = some f)
    (hquiet : e.isMalfunction = true ∨ s.handler? (.awaiting n label rest d) = none)
    (h : Passable e (s.pass e (.awaiting n label rest d)) chain) :
    Passable e s (.awaiting n label rest d :: chain) where
  present := by
    intro c hc
    rcases List.mem_cons.mp hc with rfl | hc
    · exact ⟨n, f, rfl, hf⟩
    · obtain ⟨k, g, hactivation, hg⟩ := h.present c hc
      have hlt := (Array.getElem?_eq_some_iff.mp hg).1
      rw [Store.size_frames_pass] at hlt
      exact ⟨k, _, hactivation, Array.getElem?_eq_getElem hlt⟩
  quiet := by
    rcases hquiet with hmalfunction | hnone
    · exact Or.inl hmalfunction
    · refine h.quiet.imp_right fun hrest c hc => ?_
      rcases List.mem_cons.mp hc with rfl | hc
      · exact hnone
      · rw [← s.handler?_pass e (.awaiting n label rest d)]
        exact hrest c hc
  order := List.Pairwise.cons (fun c _ k label rest d hc => nomatch hc) h.order

theorem Passable.sublist
    {e : Fault} {chain part : List Context}
    (h : Passable e s chain)
    (hpart : part.Sublist chain) :
    Passable e s part where
  present := fun c hc => h.present c (hpart.mem hc)
  quiet := h.quiet.imp_right fun hnone c hc => hnone c (hpart.mem hc)
  order := h.order.sublist hpart

theorem Passable.head?_ne_bare
    {e : Fault} {chain : List Context}
    (h : Passable e s chain)
    (hbelow : below.head? ≠ some .bare) :
    (chain ++ below).head? ≠ some .bare := by
  cases chain with
  | nil => exact hbelow
  | cons c chain =>
      rintro heq
      cases heq
      obtain ⟨n, f, hactivation, -⟩ := h.present .bare List.mem_cons_self
      cases hactivation

/-- A fault leaves the innermost activation.  What the later ones leave behind does not change its frame. -/
theorem step_passable
    {chain : List Context}
    (h : Passable r.fault s (c :: chain))
    (hbelow : below.head? ≠ some .bare) :
    ∃ n g, c.activation? = some n ∧ (s.passAll r.fault (c :: chain)).frames[n]? = some g ∧
      Left (s.pass r.fault c) (chain ++ below) g r (step ⟨s, c :: (chain ++ below), .raising r⟩) := by
  obtain ⟨n, f, hc, hf⟩ := h.present c List.mem_cons_self
  have hquiet := h.quiet.imp_right fun hnone => hnone c List.mem_cons_self
  have hstep := step_pass hc hf (h.tail.head?_ne_bare hbelow) hquiet
  cases c with
  | awaiting k label rest d =>
      cases hc
      have hg : (s.pass r.fault (.awaiting n label rest d)).frames[n]? = some (f.noting r.fault) := by
        rw [Store.pass_awaiting hf, Store.getElem?_frames_setFrame_self hf]
      refine ⟨n, f.noting r.fault, rfl, ?_, hstep ▸ left_leave hg _ r⟩
      exact Store.getElem?_frames_passAll (s := s.pass r.fault _) hg (Or.inl (Frame.noting_noting r.fault f))
  | recovering k =>
      cases hc
      refine ⟨n, f, rfl, ?_, hstep ▸ left_leave hf _ r⟩
      change (s.passAll r.fault chain).frames[n]? = some f
      refine Store.getElem?_frames_passAll hf (Or.inr fun label rest d hmem => ?_)
      exact List.rel_of_pairwise_cons h.order hmem _ label rest d rfl rfl
  | _ => cases hc

/-- A fault leaves one activation after the other, and each adds its entry to the trace. -/
theorem iterate_passable
    {chain : List Context}
    (h : Passable r.fault s chain)
    (hbelow : below.head? ≠ some .bare)
    (hshown : ∀ c ∈ chain, (s.passAll r.fault chain).Showable c) :
    ∃ entries, List.Forall₂ (s.passAll r.fault chain).Records chain entries ∧
      step^[chain.length] ⟨s, chain ++ below, .raising r⟩ =
        ⟨s.passAll r.fault chain, below, .raising ⟨r.fault, r.trace ++ entries⟩⟩ := by
  induction chain generalizing s r with
  | nil => exact ⟨[], .nil, by simp [Store.passAll]⟩
  | cons c chain ih =>
      obtain ⟨n, g, hc, hg, hleft⟩ := step_passable h hbelow
      have himages : (s.passAll r.fault (c :: chain)).image? = (s.pass r.fault c).image? :=
        Store.image?_passAll (s.pass r.fault c) r.fault chain
      rw [List.length_cons, Function.iterate_succ_apply, List.cons_append]
      generalize step ⟨s, c :: (chain ++ below), .raising r⟩ = next at hleft
      cases hleft with
      | @told entry hunfolds htells =>
          obtain ⟨entries, hentries, hrest⟩ := ih (r := ⟨r.fault, r.trace ++ [entry]⟩) h.tail
            fun c' hc' => hshown c' (List.mem_cons_of_mem c hc')
          refine ⟨entry :: entries, .cons ⟨n, g, hc, hg, (Store.tells_congr himages).mpr htells⟩ hentries, ?_⟩
          rw [hrest, List.append_assoc, List.singleton_append]
          rfl
      | @unshown v hv hself =>
          obtain ⟨k, f, hk, hf, hunfolds⟩ := hshown c List.mem_cons_self
          cases hc.symm.trans hk
          cases hg.symm.trans hf
          rw [Store.unfolds_congr himages] at hunfolds
          exact absurd (hunfolds v hv) hself

/-- Where an activation cannot be shown, the fault gets no further. -/
theorem iterate_unshown
    {chain : List Context}
    (h : Passable r.fault s chain)
    (hbelow : below.head? ≠ some .bare)
    (hunshown : ∃ c ∈ chain, ¬ (s.passAll r.fault chain).Showable c) :
    ∃ trace, (step^[chain.length] ⟨s, chain ++ below, .raising r⟩).control = .aborted ⟨r.fault, trace⟩ := by
  induction chain generalizing s r with
  | nil =>
      obtain ⟨c, hc, -⟩ := hunshown
      cases hc
  | cons c chain ih =>
      obtain ⟨n, g, hc, hg, hleft⟩ := step_passable h hbelow
      have himages : (s.passAll r.fault (c :: chain)).image? = (s.pass r.fault c).image? :=
        Store.image?_passAll (s.pass r.fault c) r.fault chain
      rw [List.length_cons, Function.iterate_succ_apply, List.cons_append]
      generalize step ⟨s, c :: (chain ++ below), .raising r⟩ = next at hleft
      cases hleft with
      | @told entry hunfolds htells =>
          refine ih (r := ⟨r.fault, r.trace ++ [entry]⟩) h.tail ?_
          obtain ⟨c', hc', hunshown'⟩ := hunshown
          rcases List.mem_cons.mp hc' with rfl | hc'
          · rw [← Store.unfolds_congr himages] at hunfolds
            exact absurd ⟨n, g, hc, hg, hunfolds⟩ hunshown'
          · exact ⟨c', hc', hunshown'⟩
      | unshown hv hself =>
          rw [Function.iterate_fixed (step_of_isFinished rfl)]
          exact ⟨r.trace, rfl⟩

/-- A fault is on its way to a stack of contexts.  An activation that raises it is the innermost of them. -/
inductive Raises : Store → Raised → List Context → Machine → Prop
  | carried (s : Store) (r : Raised) (stack : List Context) : Raises s r stack ⟨s, stack, .raising r⟩
  /-- An instruction raises the fault. -/
  | instruction
      {s t : Store} {stack : List Context} {n : Nat} {label : Ir.Label} {i : Ir.Instruction}
      {rest : List Ir.Instruction} {f g : Frame} {e : Fault}
      (d : Ir.Destination)
      (hframe : s.frames[n]? = some f)
      (hexecute : s.execute f i = (.fault e, g, t)) :
      Raises (t.setFrame n g) ⟨e, []⟩ (.awaiting n label rest d :: stack) ⟨s, stack, .running n label (i :: rest)⟩
  /-- An activation cannot go on. -/
  | malfunction
      {m : Machine} {s : Store} {stack : List Context} {n : Nat} {f : Frame} {reason : Malfunction}
      (label : Ir.Label) (rest : List Ir.Instruction) (d : Ir.Destination)
      (hframe : s.frames[n]? = some f)
      (hbare : stack.head? ≠ some .bare)
      (hstep : m.step = Machine.malfunction s stack n reason) :
      Raises s ⟨.malfunction reason, []⟩ (.awaiting n label rest d :: stack) m

theorem Raises.innermost
    {m : Machine}
    (h : Raises s r stack m) :
    m = ⟨s, stack, .raising r⟩ ∨
      ∃ n label rest d caller f, stack = .awaiting n label rest d :: caller ∧ s.frames[n]? = some f := by
  cases h with
  | carried => exact Or.inl rfl
  | @instruction s t stack n label i rest f g e d hframe hexecute =>
      have hkept := s.getElem?_frames_execute f i hframe
      rw [hexecute] at hkept
      exact Or.inr ⟨_, _, _, d, _, _, rfl, Store.getElem?_frames_setFrame_self hkept _⟩
  | malfunction label rest d hframe hbare hstep => exact Or.inr ⟨_, label, rest, d, _, _, rfl, hframe⟩

theorem Raises.iterate
    {m : Machine}
    (h : Raises s r stack m)
    (j : Nat) :
    step^[j + 1] m = step^[j + 1] ⟨s, stack, .raising r⟩ := by
  rw [Function.iterate_succ_apply, Function.iterate_succ_apply]
  congr 1
  cases h with
  | carried => rfl
  | instruction d hframe hexecute => exact step_running hframe hexecute
  | malfunction label rest d hframe hbare hstep => exact hstep

/-- A fault leaves the activations of a chain one after the other.  Each of them adds one entry to the trace, which
tells of its frame; but where one of them cannot be shown, the fault gets no further, and the process is aborted. -/
def Passes (s : Store) (r : Raised) (chain below : List Context) (m : Machine) : Prop :=
  ∀ passed ahead, chain = passed ++ ahead → passed ≠ [] →
    ((∀ c ∈ passed, (s.passAll r.fault passed).Showable c) →
      ∃ entries, List.Forall₂ (s.passAll r.fault passed).Records passed entries ∧
        step^[passed.length] m =
          ⟨s.passAll r.fault passed, ahead ++ below, .raising ⟨r.fault, r.trace ++ entries⟩⟩) ∧
    ((∃ c ∈ passed, ¬ (s.passAll r.fault passed).Showable c) →
      ∃ trace, (step^[passed.length] m).control = .aborted ⟨r.fault, trace⟩)

theorem Raises.passes
    {m : Machine} {chain : List Context}
    (h : Raises s r (chain ++ below) m)
    (hchain : Passable r.fault s chain)
    (hbelow : below.head? ≠ some .bare) :
    Passes s r chain below m := by
  rintro passed ahead rfl hpassed
  have hbefore : Passable r.fault s passed := hchain.sublist (List.sublist_append_left passed ahead)
  have hafter : Passable r.fault s ahead := hchain.sublist (List.sublist_append_right passed ahead)
  have hhead := hafter.head?_ne_bare hbelow
  obtain ⟨j, hj⟩ := Nat.exists_eq_add_one.mpr (List.length_pos_iff.mpr hpassed)
  rw [hj, h.iterate j, ← hj, List.append_assoc]
  exact ⟨iterate_passable hbefore hhead, iterate_unshown hbefore hhead⟩

end Machine

end Unwinding

end GoalDirected
