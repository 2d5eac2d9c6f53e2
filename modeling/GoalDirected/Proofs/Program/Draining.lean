import GoalDirected.Proofs.Machine.Bystanders
import GoalDirected.Proofs.Program.Independence

/-!
# Ways to drain a generator

**Input.** An outcome, and a store.  The outcome is collected; or its first value is taken and its continuation goes
into a register that is resumed again and again; or the register is a slot of a frame, and the frame executes the
instruction that resumes it.

**Argument.** The first two run the same continuations in the same stores, one after the other.  The frame runs them
above itself.  While it executes it is the only way to go on with itself, so what runs above does not notice it.

**Results.**
* `Drain.collect_eq`: `collect` gives what its loop has gathered.
* `Drain.turns_of_gather`: a register gives the same, value by value.
* `iterate_resume`: a frame that resumes its slot does what the resumption of a register does.
* `Turns.iterate_places`: so it gets the same values when it does so again and again.
* `drains_agree`: all ways give the same values, and the same fault; and then only failure.
-/

namespace GoalDirected

section Draining

namespace Drain

/-! ## Loops -/

/-- The values that a loop has collected when it stops, and why it has stopped unless the outcome has come to an end. -/
def gather (s : Store) : Nat → Outcome → List Value × Option Machine.Stop × Store
  | _, .fail => ([], none, s)
  | _, .result v => ([v], none, s)
  | 0, .suspended v _ => ([v], some (.halted .blocked), s)
  | fuel + 1, .suspended v k =>
      match (Machine.resume s [] k).finish with
      | (.ok o, s) =>
          let (values, stop, s) := gather s fuel o
          (v :: values, stop, s)
      | (.error e, s) => ([v], some e, s)

/-- The values that `collect` has collected when it stops. -/
def collected (s : Store) (o : Outcome) : List Value :=
  (gather s Machine.stepLimit o).1

theorem collectOnto_eq (s : Store) (values : List Value) (fuel : Nat) (o : Outcome) :
    collectOnto s values fuel o =
      match gather s fuel o with
      | (more, none, t) => (.ok (more.reverse ++ values), t)
      | (_, some e, t) => (.error e, t) := by
  induction fuel generalizing s values o with
  | zero => cases o <;> rfl
  | succ fuel ih =>
      cases o with
      | fail => rfl
      | result v => rfl
      | suspended v k =>
          simp only [collectOnto, gather]
          generalize (Machine.resume s [] k).finish = x
          obtain ⟨result, t⟩ := x
          cases result with
          | error e => rfl
          | ok o =>
              dsimp only
              rw [ih]
              generalize gather t fuel o = y
              obtain ⟨more, stop, u⟩ := y
              cases stop <;> simp

/-- The loop gives what it has collected, unless it is stopped. -/
theorem collect_eq (s : Store) (o : Outcome) :
    collect s o =
      match gather s Machine.stepLimit o with
      | (values, none, t) => (.ok values, t)
      | (_, some e, t) => (.error e, t) := by
  simp only [collect, collectOnto_eq]
  split <;> simp [Except.map]

/-! ## Registers -/

/-- What a register and the store have become after some resumptions. -/
def after (s : Store) (slot : Option Continuation) : Nat → Option Continuation × Store
  | 0 => (slot, s)
  | count + 1 =>
      let (_, slot, s) := resumeSlot s slot
      after s slot count

/-- What the next resumption gives. -/
def drawAfter (s : Store) (slot : Option Continuation) (count : Nat) : Draw :=
  (resumeSlot (after s slot count).2 (after s slot count).1).1

/-- Values in order, then a fault if there is one, then failure. -/
def script (values : List Value) (fault : Option Raised) (i : Nat) : Draw :=
  (values.map (fun v => .ok (some v)) ++ fault.toList.map (fun r => .error (.raised r)))[i]?.getD (.ok none)

theorem script_ne_halted (values : List Value) (fault : Option Raised) (i : Nat) (reason : Halt) :
    script values fault i ≠ .error (.halted reason) := by
  intro h
  induction values generalizing i with
  | nil =>
      cases fault with
      | none => cases h
      | some r => cases i <;> cases h
  | cons v values ih =>
      cases i with
      | zero => cases h
      | succ i => exact ih i h

theorem script_of_lt
    {values : List Value} {i : Nat}
    (h : i < values.length)
    (fault : Option Raised) :
    script values fault i = .ok (some values[i]) := by
  rw [script, List.getElem?_append_left (by simpa using h), List.getElem?_map, List.getElem?_eq_getElem h]
  rfl

theorem after_none (s : Store) (count : Nat) : after s none count = (none, s) := by
  induction count with
  | zero => rfl
  | succ count ih => exact ih

theorem after_succ (s : Store) (slot : Option Continuation) (count : Nat) :
    after s slot (count + 1) = (resumeSlot (after s slot count).2 (after s slot count).1).2 := by
  induction count generalizing s slot with
  | zero => rfl
  | succ count ih => exact ih (resumeSlot s slot).2.2 (resumeSlot s slot).2.1

theorem draws_eq (s : Store) (slot : Option Continuation) (count : Nat) :
    draws s slot count = (List.range count).map (drawAfter s slot) := by
  induction count generalizing s slot with
  | zero => rfl
  | succ count ih =>
      rw [List.range_succ_eq_map, List.map_cons, List.map_map]
      exact congrArg (_ :: ·) (ih (resumeSlot s slot).2.2 (resumeSlot s slot).2.1)

/-- The register gives the values that the loop gathers, and the fault that it stops with.  After that it is empty. -/
structure Turns (s : Store) (o : Outcome) (values : List Value) (fault : Option Raised) (t : Store) : Prop where
  first : o.value? = values.head?
  draw : ∀ i, drawAfter s o.next? i = script values.tail fault i
  empty : ∀ count, values.tail.length < count → after s o.next? count = (none, t)

theorem resumeSlot_of_finish
    {s t : Store} {k : Continuation} {o : Outcome}
    (h : (Machine.resume s [] k).finish = (.ok o, t)) :
    resumeSlot s (some k) = (.ok o.value?, o.next?, t) := by
  simp only [resumeSlot, h]

theorem resumeSlot_of_finish_error
    {s t : Store} {k : Continuation} {e : Machine.Stop}
    (h : (Machine.resume s [] k).finish = (.error e, t)) :
    resumeSlot s (some k) = (.error e, none, t) := by
  simp only [resumeSlot, h]

theorem drawAfter_none (s : Store) (count : Nat) : drawAfter s none count = .ok none := by
  rw [drawAfter, after_none]
  rfl

/-- An outcome without a continuation. -/
theorem turns_of_next?
    {o : Outcome}
    (h : o.next? = none)
    (s : Store) :
    Turns s o o.value?.toList none s where
  first := by cases o <;> rfl
  draw := by
    intro i
    rw [h, drawAfter_none]
    cases o <;> rfl
  empty := by
    intro count _
    rw [h, after_none]

/-- A continuation that has an outcome. -/
theorem Turns.suspended
    {s t u : Store} {v : Value} {k : Continuation} {o : Outcome} {values : List Value} {fault : Option Raised}
    (h : Turns u o values fault t)
    (hfinish : (Machine.resume s [] k).finish = (.ok o, u)) :
    Turns s (.suspended v k) (v :: values) fault t := by
  have hslot := resumeSlot_of_finish hfinish
  have hzero : drawAfter s (some k) 0 = .ok o.value? := by rw [drawAfter, after, hslot]
  have hsucc : ∀ i, drawAfter s (some k) (i + 1) = drawAfter u o.next? i := by
    intro i
    simp only [drawAfter, after, hslot]
  have hafter : ∀ count, after s (some k) (count + 1) = after u o.next? count := by
    intro count
    simp only [after, hslot]
  cases values with
  | cons w values =>
      refine ⟨rfl, ?_, ?_⟩
      · rintro (- | i)
        · exact hzero.trans (congrArg Except.ok h.first)
        · exact (hsucc i).trans (h.draw i)
      · rintro (- | count) hcount
        · cases hcount
        · exact (hafter count).trans (h.empty count (Nat.lt_of_succ_lt_succ hcount))
  | nil =>
      -- The outcome is a failure, after which there is neither a fault nor a change.
      obtain rfl : o = .fail := by
        cases o with
        | fail => rfl
        | _ => cases h.first
      obtain rfl : fault = none := by
        cases fault with
        | none => rfl
        | some r => cases (drawAfter_none u 0).symm.trans (h.draw 0)
      obtain rfl : u = t := by
        have hone : after u none 1 = (none, t) := h.empty 1 Nat.one_pos
        exact congrArg Prod.snd ((after_none u 1).symm.trans hone)
      refine ⟨rfl, ?_, ?_⟩
      · rintro (- | i)
        · exact hzero
        · exact (hsucc i).trans (h.draw i)
      · rintro (- | count) hcount
        · cases hcount
        · exact (hafter count).trans (after_none u count)

/-- A continuation that raises a fault. -/
theorem turns_of_raised
    {s t : Store} {k : Continuation} {r : Raised}
    (h : (Machine.resume s [] k).finish = (.error (.raised r), t))
    (v : Value) :
    Turns s (.suspended v k) [v] (some r) t := by
  have hslot := resumeSlot_of_finish_error h
  refine ⟨rfl, ?_, ?_⟩
  · rintro (- | i)
    · rw [Outcome.next?, drawAfter, after, hslot]
      rfl
    · simp only [Outcome.next?, drawAfter, after, hslot, after_none]
      rfl
  · rintro (- | count) hcount
    · cases hcount
    · simp only [Outcome.next?, after, hslot, after_none]

theorem gather_of_next?
    {o : Outcome}
    (h : o.next? = none)
    (s : Store) (fuel : Nat) :
    gather s fuel o = (o.value?.toList, none, s) := by
  cases o with
  | suspended v k => cases h
  | _ => cases fuel <;> rfl

/-- A register gives what the loop gathers. -/
theorem turns_of_gather
    {s t : Store} {fuel : Nat} {o : Outcome} {values : List Value} {fault : Option Raised}
    (h : gather s fuel o = (values, fault.map .raised, t)) :
    Turns s o values fault t := by
  have hend : ∀ {s : Store} {fuel : Nat} {o : Outcome} {values : List Value}, o.next? = none →
      gather s fuel o = (values, fault.map .raised, t) → Turns s o values fault t := by
    intro s fuel o values hnext h
    rw [gather_of_next? hnext] at h
    cases fault with
    | some r => cases h
    | none =>
        cases h
        exact turns_of_next? hnext _
  induction fuel generalizing s o values with
  | zero =>
      cases o with
      | suspended v k => cases fault <;> cases h
      | _ => exact hend rfl h
  | succ fuel ih =>
      cases o with
      | suspended v k =>
          simp only [gather] at h
          cases hfinish : (Machine.resume s [] k).finish with
          | mk result u =>
              rw [hfinish] at h
              cases result with
              | ok o =>
                  simp only [Prod.mk.injEq] at h
                  obtain ⟨rfl, hstop, hstore⟩ := h
                  exact (ih (Prod.ext rfl (Prod.ext hstop hstore))).suspended hfinish
              | error e =>
                  cases fault with
                  | none => cases h
                  | some r =>
                      cases h
                      exact turns_of_raised hfinish v
      | _ => exact hend rfl h

end Drain

open Drain

/-! ## Slots of frames -/

/-- A register as a slot of a frame has it. -/
def Temp.ofNext : Option Continuation → Temp
  | some k => .next k
  | none => .empty

namespace Frame

variable {f : Frame} {slot : Nat} {k : Option Continuation}

/-- The frame with a slot emptied. -/
def emptied (f : Frame) (slot : Nat) : Frame :=
  { f with temps := f.temps.setIfInBounds slot .empty }

/-- The frame with a value in one slot, if there is a place for it, and then a register in another. -/
def storing (f : Frame) (target : Option Nat) (v : Value) (slot : Nat) (k : Option Continuation) : Frame :=
  let temps := match target with
    | some place => f.temps.setIfInBounds place (.value v)
    | none => f.temps
  { f with temps := temps.setIfInBounds slot (.ofNext k) }

theorem emptied_of_empty
    (h : f.temps[slot]? = some .empty) :
    f.emptied slot = f := by
  obtain ⟨hlt, heq⟩ := Array.getElem?_eq_some_iff.mp h
  have htemps : f.temps.setIfInBounds slot .empty = f.temps := by
    rw [Array.setIfInBounds, dif_pos hlt, ← heq, Array.set_getElem_self]
  rw [emptied, htemps]

theorem getElem?_emptied_self
    (h : slot < f.temps.size) :
    (f.emptied slot).temps[slot]? = some .empty := by
  simp [emptied, h]

theorem getElem?_emptied_of_ne
    {other : Nat}
    (h : other ≠ slot) :
    (f.emptied slot).temps[other]? = f.temps[other]? := by
  simp [emptied, Ne.symm h]

theorem size_emptied (f : Frame) (slot : Nat) : (f.emptied slot).temps.size = f.temps.size := by
  simp [emptied]

theorem getElem?_storing_self
    (h : slot < f.temps.size)
    (target : Option Nat) (v : Value) :
    (f.storing target v slot k).temps[slot]? = some (.ofNext k) := by
  cases target <;> simp [storing, h]

theorem value_storing
    {place : Nat}
    (h : place < f.temps.size)
    (hne : place ≠ slot)
    (v : Value) :
    (f.storing (some place) v slot k).value place = .ok v := by
  simp [value, storing, h, Ne.symm hne]

theorem getElem?_storing_of_ne
    {place other : Nat}
    (hplace : other ≠ place)
    (hslot : other ≠ slot)
    (v : Value) :
    (f.storing (some place) v slot k).temps[other]? = f.temps[other]? := by
  simp [storing, Ne.symm hplace, Ne.symm hslot]

theorem size_storing (f : Frame) (target : Option Nat) (v : Value) (slot : Nat) (k : Option Continuation) :
    (f.storing target v slot k).temps.size = f.temps.size := by
  cases target <;> simp [storing]

theorem takeNext_ofNext
    (h : f.temps[slot]? = some (.ofNext k)) :
    f.takeNext slot = .ok (k, f.emptied slot) := by
  cases k with
  | none =>
      rw [emptied_of_empty h]
      simp only [takeNext, h, Temp.ofNext]
  | some k => simp only [takeNext, h, Temp.ofNext, emptied]

theorem setNext_eq
    (h : slot < f.temps.size)
    (k : Option Continuation) :
    f.setNext slot k = .ok { f with temps := f.temps.setIfInBounds slot (.ofNext k) } := by
  cases k <;> exact if_pos h

end Frame

namespace Machine

variable {s : Store} {base : List Context} {n slot : Nat} {label : Ir.Label} {rest : List Ir.Instruction}
  {d : Ir.Destination} {f : Frame}

theorem storeOutcome_fail
    (hd : d.next = some slot)
    (hslot : slot < f.temps.size) :
    storeOutcome f d .fail = .ok (f.emptied slot) := by
  have hvalue : storeOutcome f d .fail = f.setNext slot none := by
    simp only [storeOutcome, hd, Outcome.value?, Outcome.next?]
    cases d.value <;> rfl
  rw [hvalue, Frame.setNext_eq hslot]
  rfl

theorem storeOutcome_value
    {o : Outcome} {v : Value}
    (hd : d.next = some slot)
    (hslot : slot < f.temps.size)
    (htarget : ∀ place, d.value = some place → place < f.temps.size)
    (ho : o.value? = some v) :
    storeOutcome f d o = .ok (f.storing d.value v slot o.next?) := by
  cases hplace : d.value with
  | none =>
      simp only [storeOutcome, hd, hplace, Except.bind]
      exact Frame.setNext_eq hslot o.next?
  | some place =>
      simp only [storeOutcome, hd, hplace, ho, Frame.set, Frame.put, if_pos (htarget place hplace), Except.bind]
      exact Frame.setNext_eq (by simpa using hslot) o.next?

/-- Where a frame goes on that has resumed one of its slots, which has been emptied by that: after the instruction with
a value in its place, at the label for failures, or with a fault.  With a value the slot takes what the register has
become. -/
def afterDraw (s : Store) (base : List Context) (n : Nat) (label : Ir.Label) (rest : List Ir.Instruction)
    (d : Ir.Destination) (slot : Nat) (f : Frame) (k : Option Continuation) : Draw → Machine
  | .ok (some v) => ⟨s.setFrame n (f.storing d.value v slot k), base, .running n label rest⟩
  | .ok none => failed (s.setFrame n f) base n d.onFail
  | .error (.raised r) => fault (s.setFrame n f) base n r
  | .error (.halted reason) => ⟨s.setFrame n f, base, .halted reason⟩

theorem deliver_fail
    (hn : n < s.frames.size)
    (hd : d.next = some slot)
    (hf : f.temps[slot]? = some .empty)
    (base : List Context) (label : Ir.Label) (rest : List Ir.Instruction) :
    deliver (s.setFrame n f) base n label rest d .fail = failed (s.setFrame n f) base n d.onFail := by
  have hframe : (s.setFrame n f).frames[n]? = some f :=
    Store.getElem?_frames_setFrame_self (Array.getElem?_eq_getElem hn) f
  have hslot : slot < f.temps.size := (Array.getElem?_eq_some_iff.mp hf).1
  simp only [deliver, hframe, storeOutcome_fail hd hslot, Frame.emptied_of_empty hf, Store.setFrame_setFrame]

theorem deliver_eq
    (hn : n < s.frames.size)
    (hd : d.next = some slot)
    (hf : f.temps[slot]? = some .empty)
    (htarget : ∀ place, d.value = some place → place < f.temps.size)
    (base : List Context) (label : Ir.Label) (rest : List Ir.Instruction) (o : Outcome) :
    deliver (s.setFrame n f) base n label rest d o =
      afterDraw s base n label rest d slot f o.next? (.ok o.value?) := by
  have hframe : (s.setFrame n f).frames[n]? = some f :=
    Store.getElem?_frames_setFrame_self (Array.getElem?_eq_getElem hn) f
  have hslot : slot < f.temps.size := (Array.getElem?_eq_some_iff.mp hf).1
  cases o with
  | fail => exact deliver_fail hn hd hf base label rest
  | result v =>
      simp only [deliver, hframe, storeOutcome_value (o := .result v) hd hslot htarget rfl, Store.setFrame_setFrame]
      rfl
  | suspended v k =>
      simp only [deliver, hframe, storeOutcome_value (o := .suspended v k) hd hslot htarget rfl,
        Store.setFrame_setFrame]
      rfl

end Machine

theorem Outcome.uses_next?
    {o : Outcome} {n : Nat}
    (h : o.uses n = 0)
    (k : Continuation)
    (hk : o.next? = some k) :
    k.uses n = 0 := by
  cases o with
  | suspended v k' =>
      cases hk
      exact h
  | _ => cases hk

/-- The frame is there, and who runs it is the only one who can go on with it. -/
structure Store.Entrusts (s : Store) (n : Nat) (slot : Option Continuation) : Prop where
  lt : n < s.frames.size
  uses : s.uses n = 0
  slot : ∀ k, slot = some k → k.uses n = 0

namespace Machine

variable {s : Store} {base : List Context} {n x : Nat} {label : Ir.Label} {rest : List Ir.Instruction}
  {d : Ir.Destination} {f : Frame} {slot : Option Continuation}

theorem step_resume
    (hn : n < s.frames.size)
    (hf : f.temps[x]? = some (.ofNext slot)) :
    step ⟨s.setFrame n f, base, .running n label (.resume d x :: rest)⟩ =
      perform (s.setFrame n (f.emptied x)) base n label rest f.environment (.resume d slot) := by
  have hframe : (s.setFrame n f).frames[n]? = some f :=
    Store.getElem?_frames_setFrame_self (Array.getElem?_eq_getElem hn) f
  simp only [step, advance, hframe, Store.execute, Frame.takeNext_ofNext hf, Store.setFrame_setFrame]
  rfl

/-- A frame whose slot is empty fails at once, and nothing changes. -/
theorem iterate_resume_none
    (hn : n < s.frames.size)
    (hf : f.temps[x]? = some .empty)
    (hd : d.next = some x)
    (base : List Context) (label : Ir.Label) (rest : List Ir.Instruction) :
    step^[2] ⟨s.setFrame n f, base, .running n label (.resume d x :: rest)⟩ =
      failed (s.setFrame n f) base n d.onFail := by
  have hslot : f.temps[x]? = some (.ofNext none) := hf
  rw [Function.iterate_succ_apply, step_resume hn hslot, Frame.emptied_of_empty hf]
  exact deliver_fail hn hd hf base label rest

/-- A continuation that is resumed on its own does not go on with the frame. -/
theorem uses_resume
    {k : Continuation}
    (hn : n < s.frames.size)
    (hs : s.uses n = 0)
    (hk : k.uses n = 0) :
    n < (resume s [] k).store.frames.size ∧ (resume s [] k).uses 1 n = 0 := by
  have hresume := within_resume (n := n) (Nat.le_refl 1) s [] k
  simp only [load, hs, hk, weigh_nil] at hresume
  exact hresume.unused hn

/-- What a continuation does that is resumed on its own, it does above a frame that waits for it. -/
theorem iterate_run
    {k : Continuation}
    (hn : n < s.frames.size)
    (hs : s.uses n = 0)
    (hk : k.uses n = 0)
    (fuel : Nat)
    (hgoes : ∀ reason, ((resume s [] k).run fuel).control ≠ .halted reason)
    (g : Frame) (base : List Context) (label : Ir.Label) (rest : List Ir.Instruction) (d : Ir.Destination) :
    ∃ j, step^[j] (resume (s.setFrame n g) (.awaiting n label rest d :: base) k) =
      ((resume s [] k).run fuel).atop n g (.awaiting n label rest d :: base) := by
  have hbelow : IsWaiting (.awaiting n label rest d :: base) := ⟨n, label, rest, d, base, rfl⟩
  have hstart : ∀ reason, (resume s [] k).control ≠ .halted reason := by
    intro reason hhalted
    rw [run_of_isFinished (isFinished_of_halted hhalted)] at hgoes
    exact hgoes reason hhalted
  have hecho := echoes_resume hbelow hn hk [] (g := g) hstart
  rw [List.nil_append] at hecho
  obtain ⟨hsize, huses⟩ := uses_resume hn hs hk
  rw [hecho]
  exact iterate_atop hbelow hsize huses fuel hgoes

theorem run_of_finish
    {m : Machine} {t : Store} {o : Outcome}
    (h : m.finish = (.ok o, t)) :
    m.run stepLimit = ⟨t, [], .returning o⟩ := by
  simp only [finish, Prod.mk.injEq] at h
  obtain ⟨hresult, rfl⟩ := h
  generalize m.run stepLimit = m' at hresult
  unfold result at hresult
  split at hresult <;> cases hresult
  rfl

theorem run_of_finish_raised
    {m : Machine} {t : Store} {r : Raised}
    (h : m.finish = (.error (.raised r), t)) :
    m.run stepLimit = ⟨t, [], .raising r⟩ := by
  simp only [finish, Prod.mk.injEq] at h
  obtain ⟨hresult, rfl⟩ := h
  generalize m.run stepLimit = m' at hresult
  unfold result at hresult
  split at hresult <;> cases hresult
  rfl

/-- What is left after a resumption does not go on with the frame either. -/
theorem entrusts_resumeSlot
    (h : s.Entrusts n slot) :
    (resumeSlot s slot).2.2.Entrusts n (resumeSlot s slot).2.1 := by
  cases slot with
  | none => exact h
  | some k =>
      obtain ⟨hsize, huses⟩ := uses_resume h.lt h.uses (h.slot k rfl)
      obtain ⟨hsize', huses'⟩ := uses_run hsize huses stepLimit
      obtain ⟨⟨hstore, -⟩, hcontrol⟩ := by simpa only [Machine.uses, Nat.add_eq_zero_iff] using huses'
      cases hfinish : (resume s [] k).finish with
      | mk result t =>
          obtain rfl : ((resume s [] k).run stepLimit).store = t := congrArg Prod.snd hfinish
          cases result with
          | ok o =>
              rw [resumeSlot_of_finish hfinish]
              rw [run_of_finish hfinish] at hcontrol
              exact ⟨hsize', hstore, Outcome.uses_next? hcontrol⟩
          | error e =>
              rw [resumeSlot_of_finish_error hfinish]
              refine ⟨hsize', hstore, ?_⟩
              rintro k' hk'
              cases hk'

/-- Resuming a slot of a frame is resuming the register that it holds. -/
theorem iterate_resume
    (h : s.Entrusts n slot)
    (hgoes : ∀ reason, (resumeSlot s slot).1 ≠ .error (.halted reason))
    (hf : f.temps[x]? = some (.ofNext slot))
    (hd : d.next = some x)
    (htarget : ∀ place, d.value = some place → place < f.temps.size)
    (base : List Context) (label : Ir.Label) (rest : List Ir.Instruction) :
    ∃ j, step^[j] ⟨s.setFrame n f, base, .running n label (.resume d x :: rest)⟩ =
      afterDraw (resumeSlot s slot).2.2 base n label rest d x (f.emptied x) (resumeSlot s slot).2.1
        (resumeSlot s slot).1 := by
  have hx : x < f.temps.size := (Array.getElem?_eq_some_iff.mp hf).1
  have hempty := Frame.getElem?_emptied_self hx
  have htarget' : ∀ place, d.value = some place → place < (f.emptied x).temps.size := by
    rw [Frame.size_emptied]
    exact htarget
  have hsize := (entrusts_resumeSlot h).lt
  cases slot with
  | none =>
      refine ⟨2, ?_⟩
      rw [iterate_resume_none h.lt hf hd, Frame.emptied_of_empty hf]
      rfl
  | some k =>
      -- One step starts the continuation, and one step brings to the frame what it has come to.
      have hlast : ∀ {m m' : Machine}, m.step = m' →
          (∃ j, step^[j] (resume (s.setFrame n (f.emptied x)) (.awaiting n label rest d :: base) k) = m) →
          ∃ j, step^[j] ⟨s.setFrame n f, base, .running n label (.resume d x :: rest)⟩ = m' := by
        rintro m m' rfl ⟨j, hj⟩
        refine ⟨j + 1 + 1, ?_⟩
        rw [Function.iterate_succ_apply, step_resume h.lt hf, Function.iterate_succ_apply']
        exact congrArg step hj
      have hrun := iterate_run h.lt h.uses (h.slot k rfl) stepLimit
      cases hfinish : (resume s [] k).finish with
      | mk result t =>
          cases result with
          | ok o =>
              rw [run_of_finish hfinish] at hrun
              rw [resumeSlot_of_finish hfinish] at hsize ⊢
              have hdeliver := deliver_eq hsize hd hempty htarget' base label rest o
              exact hlast (m := ⟨t.setFrame n (f.emptied x), .awaiting n label rest d :: base, .returning o⟩)
                hdeliver (hrun (fun _ => nofun) (f.emptied x) base label rest d)
          | error e =>
              cases e with
              | halted reason => exact absurd (congrArg Prod.fst (resumeSlot_of_finish_error hfinish)) (hgoes reason)
              | raised r =>
                  rw [run_of_finish_raised hfinish] at hrun
                  rw [resumeSlot_of_finish_error hfinish]
                  exact hlast rfl (hrun (fun _ => nofun) (f.emptied x) base label rest d)

end Machine

/-! ## Agreement -/

/-- All ways to drain an outcome give the values, then the fault if there is one, and then only failure. -/
structure Drain.Agreement (s : Store) (o : Outcome) (values : List Value) (fault : Option Raised) (t : Store) : Prop
    extends Turns s o values fault t where
  draws : ∀ count, draws s o.next? count = (List.range count).map (script values.tail fault)
  /-- A frame whose slot holds the register gets what is next, whatever else it has in its slots. -/
  turn : ∀ {n x count : Nat} {d : Ir.Destination} {f : Frame},
    s.Entrusts n o.next? → f.temps[x]? = some (.ofNext (after s o.next? count).1) → d.next = some x →
      (∀ place, d.value = some place → place < f.temps.size) →
      ∀ base label rest, ∃ j,
        Machine.step^[j] ⟨(after s o.next? count).2.setFrame n f, base, .running n label (.resume d x :: rest)⟩ =
          Machine.afterDraw (after s o.next? (count + 1)).2 base n label rest d x (f.emptied x)
            (after s o.next? (count + 1)).1 (script values.tail fault count)
  /-- A frame that resumes the slot for one place after the other has the values there. -/
  turns : ∀ {n x : Nat} {f : Frame} {places : List Nat},
    s.Entrusts n o.next? → f.temps[x]? = some (.ofNext o.next?) → places.Nodup →
      (∀ p ∈ places, p ≠ x ∧ p < f.temps.size) → places.length ≤ values.tail.length →
      ∀ onFail base label rest, ∃ j g,
        Machine.step^[j] ⟨s.setFrame n f, base,
            .running n label (places.map (fun p => .resume ⟨some p, some x, onFail⟩ x) ++ rest)⟩ =
          ⟨(after s o.next? places.length).2.setFrame n g, base, .running n label rest⟩ ∧
        g.temps[x]? = some (.ofNext (after s o.next? places.length).1) ∧
        places.map g.value = (values.tail.take places.length).map .ok
  /-- At the end the resumptions of the slot fail, and nothing is executed for them. -/
  rest : ∀ {n x : Nat} {d : Ir.Destination} {f : Frame},
    s.Entrusts n o.next? → f.temps[x]? = some .empty → d.next = some x →
      ∀ base label rest,
        Machine.step^[2] ⟨t.setFrame n f, base, .running n label (.resume d x :: rest)⟩ =
          Machine.failed (t.setFrame n f) base n d.onFail

theorem Store.Entrusts.after
    {s : Store} {slot : Option Continuation} {n : Nat}
    (h : s.Entrusts n slot)
    (count : Nat) :
    (Drain.after s slot count).2.Entrusts n (Drain.after s slot count).1 := by
  induction count with
  | zero => exact h
  | succ count ih =>
      rw [after_succ]
      exact Machine.entrusts_resumeSlot ih

/-- The turn of a frame is that of the register in its slot. -/
theorem Drain.Turns.iterate
    {s t : Store} {o : Outcome} {values : List Value} {fault : Option Raised} {n x count : Nat}
    {d : Ir.Destination} {f : Frame}
    (h : Turns s o values fault t)
    (hs : s.Entrusts n o.next?)
    (hf : f.temps[x]? = some (.ofNext (after s o.next? count).1))
    (hd : d.next = some x)
    (htarget : ∀ place, d.value = some place → place < f.temps.size)
    (base : List Context) (label : Ir.Label) (rest : List Ir.Instruction) :
    ∃ j, Machine.step^[j] ⟨(after s o.next? count).2.setFrame n f, base, .running n label (.resume d x :: rest)⟩ =
      Machine.afterDraw (after s o.next? (count + 1)).2 base n label rest d x (f.emptied x)
        (after s o.next? (count + 1)).1 (script values.tail fault count) := by
  have hdraw : (resumeSlot (after s o.next? count).2 (after s o.next? count).1).1 = script values.tail fault count :=
    h.draw count
  obtain ⟨j, hj⟩ := Machine.iterate_resume (hs.after count)
    (by rw [hdraw]; exact script_ne_halted _ _ _) hf hd htarget base label rest
  rw [← after_succ, hdraw] at hj
  exact ⟨j, hj⟩

/-- As long as there are values, a frame can resume its slot for one place after the other. -/
theorem Drain.Turns.iterate_places
    {s t : Store} {o : Outcome} {values : List Value} {fault : Option Raised} {n x count : Nat} {f : Frame}
    (h : Turns s o values fault t)
    (hs : s.Entrusts n o.next?)
    (hf : f.temps[x]? = some (.ofNext (after s o.next? count).1))
    {places : List Nat}
    (hnodup : places.Nodup)
    (hplaces : ∀ p ∈ places, p ≠ x ∧ p < f.temps.size)
    (hlength : count + places.length ≤ values.tail.length)
    (onFail : Option Ir.Label) (base : List Context) (label : Ir.Label) (rest : List Ir.Instruction) :
    ∃ j g,
      Machine.step^[j] ⟨(after s o.next? count).2.setFrame n f, base,
          .running n label (places.map (fun p => .resume ⟨some p, some x, onFail⟩ x) ++ rest)⟩ =
        ⟨(after s o.next? (count + places.length)).2.setFrame n g, base, .running n label rest⟩ ∧
      g.temps[x]? = some (.ofNext (after s o.next? (count + places.length)).1) ∧
      places.map g.value = ((values.tail.drop count).take places.length).map .ok ∧
      ∀ q, q ∉ places → q ≠ x → g.temps[q]? = f.temps[q]? := by
  induction places generalizing count f with
  | nil => exact ⟨0, f, rfl, hf, rfl, fun _ _ _ => rfl⟩
  | cons p places ih =>
      obtain ⟨hp, hnodup⟩ := List.nodup_cons.mp hnodup
      obtain ⟨hpx, hlt⟩ := hplaces p List.mem_cons_self
      have hcount : count < values.tail.length := by
        simp only [List.length_cons] at hlength
        omega
      have hx : x < f.temps.size := (Array.getElem?_eq_some_iff.mp hf).1
      -- The first turn brings its value to the first place, and the register back to the slot.
      have htarget : ∀ place, some p = some place → place < f.temps.size := by
        rintro _ ⟨⟩
        exact hlt
      obtain ⟨j, hj⟩ := h.iterate (d := ⟨some p, some x, onFail⟩) hs hf rfl htarget base label
        (places.map (fun p => .resume ⟨some p, some x, onFail⟩ x) ++ rest)
      rw [script_of_lt hcount] at hj
      let f' := (f.emptied x).storing (some p) values.tail[count] x (after s o.next? (count + 1)).1
      have hsize : f'.temps.size = f.temps.size := (Frame.size_storing ..).trans (f.size_emptied x)
      have hx' : x < (f.emptied x).temps.size := by rwa [Frame.size_emptied]
      have hp' : p < (f.emptied x).temps.size := by rwa [Frame.size_emptied]
      have hf' : f'.temps[x]? = some (.ofNext (after s o.next? (count + 1)).1) :=
        Frame.getElem?_storing_self hx' (some p) _
      obtain ⟨j', g, hj', hslot, hvalues, hothers⟩ := ih hf' hnodup
        (fun q hq => hsize ▸ hplaces q (List.mem_cons_of_mem p hq))
        (by simp only [List.length_cons] at hlength; omega)
      have hend : count + (p :: places).length = count + 1 + places.length := by
        simp only [List.length_cons]
        omega
      refine ⟨j' + j, g, ?_, hend ▸ hslot, ?_, ?_⟩
      · rw [Function.iterate_add_apply, hend]
        exact (congrArg _ hj).trans hj'
      · have hvalue : g.value p = .ok values.tail[count] := by
          have hkept := Frame.value_storing hp' hpx values.tail[count] (k := (after s o.next? (count + 1)).1)
          rw [Frame.value_eq_ok_iff] at hkept ⊢
          exact (hothers p hp hpx).trans hkept
        rw [List.map_cons, hvalue, hvalues, List.drop_eq_getElem_cons hcount, List.length_cons, List.take_succ_cons,
          List.map_cons]
      · intro q hq hqx
        have hqp := List.ne_of_not_mem_cons hq
        rw [hothers q (List.not_mem_of_not_mem_cons hq) hqx, Frame.getElem?_storing_of_ne hqp hqx,
          Frame.getElem?_emptied_of_ne hqx]

theorem Drain.Turns.agreement
    {s t : Store} {o : Outcome} {values : List Value} {fault : Option Raised}
    (h : Turns s o values fault t) :
    Agreement s o values fault t := by
  refine { h with draws := ?_, turn := ?_, turns := ?_, rest := ?_ }
  · intro count
    rw [draws_eq]
    exact List.map_congr_left fun i _ => h.draw i
  · exact fun hs hf hd htarget base label rest => h.iterate hs hf hd htarget base label rest
  · intro n x f places hs hf hnodup hplaces hlength onFail base label rest
    have hfirst : f.temps[x]? = some (.ofNext (after s o.next? 0).1) := hf
    obtain ⟨j, g, hj, hslot, hvalues, -⟩ := h.iterate_places hs hfirst hnodup hplaces
      (by rwa [Nat.zero_add]) onFail base label rest
    rw [Nat.zero_add] at hj hslot
    exact ⟨j, g, hj, hslot, hvalues⟩
  · intro n x d f hs hf hd base label rest
    have hentrusts := hs.after (values.tail.length + 1)
    rw [h.empty _ (Nat.lt_succ_self _)] at hentrusts
    exact Machine.iterate_resume_none hentrusts.lt hf hd base label rest

/-- While a frame runs nothing else can go on with it, and the register in its slot does not either. -/
theorem Course.Reachable.entrusts
    {admits : Value → Prop} {s : Store} {base : List Context} {n x : Nat} {label : Ir.Label}
    {rest : List Ir.Instruction} {held : List Continuation} {pending : List (Item Initializer)} {f : Frame}
    {slot : Option Continuation}
    (h : Course.Reachable admits ⟨⟨s, base, .running n label rest⟩, held, pending⟩)
    (hf : s.frames[n]? = some f)
    (hx : f.temps[x]? = some (.ofNext slot)) :
    s.Entrusts n slot := by
  have hsingle := h.sound.single n
  have hmark : mark n n = 1 := if_pos rfl
  simp only [Course.uses, Machine.uses, Control.uses, hmark] at hsingle
  have hs : s.uses n = 0 := by omega
  refine ⟨(Array.getElem?_eq_some_iff.mp hf).1, hs, ?_⟩
  rintro k rfl
  have hslot : k.uses n ≤ f.uses n :=
    le_weigh (w := Temp.uses n) (Array.mem_toList_iff.mpr (Array.mem_of_getElem? hx))
  have hframe : f.uses n ≤ weigh (Frame.uses n) s.frames.toList :=
    le_weigh (w := Frame.uses n) (Array.mem_toList_iff.mpr (Array.mem_of_getElem? hf))
  simp only [Store.uses] at hs
  omega

/-- Whatever an outcome is collected to, a register and a frame draw the same from it.  If it gives values, they draw
these values in order, and after that nothing but failure.  If it raises a fault, they draw the values that have been
collected by then, and raise the same fault; the register is empty then, and there is nothing but failure.  A frame
that executes is one that the store entrusts to nobody else. -/
theorem drains_agree (s : Store) (o : Outcome) :
    (∀ values t, collect s o = (.ok values, t) →
        collected s o = values ∧ Agreement s o values none t) ∧
      (∀ r t, collect s o = (.error (.raised r), t) → Agreement s o (collected s o) (some r) t) ∧
      ∀ (admits : Value → Prop) (base : List Context) (n x : Nat) (label : Ir.Label) (rest : List Ir.Instruction)
        (held : List Continuation) (pending : List (Item Initializer)) (f : Frame),
        Course.Reachable admits ⟨⟨s, base, .running n label rest⟩, held, pending⟩ → s.frames[n]? = some f →
          f.temps[x]? = some (.ofNext o.next?) → s.Entrusts n o.next? := by
  refine ⟨?_, ?_, fun _ _ _ _ _ _ _ _ _ h hf hx => h.entrusts hf hx⟩
  · intro values t h
    rw [collect_eq] at h
    split at h
    · rename_i heq
      cases h
      exact ⟨congrArg Prod.fst heq, (turns_of_gather heq).agreement⟩
    · cases h
  · intro r t h
    rw [collect_eq] at h
    split at h
    · cases h
    · rename_i values e u heq
      cases h
      rw [collected, heq]
      exact (turns_of_gather heq).agreement

/-! ## A generator that is at fault in the end -/

/-- A procedure that gives two letters, and then takes the size of the second one for a field. -/
def letters : Ir.Procedure where
  name := "letters"
  namespaceName := ""
  params := []
  locals := []
  statics := []
  variadic := false
  temps := 2
  entry := "start"
  chunks :=
    [⟨"start", [.literal 0 (.text "a"), .succeed (some 0) (some "second")]⟩,
      ⟨"second", [.literal 0 (.text "b"), .succeed (some 0) (some "third")]⟩,
      ⟨"third", [.field 1 0 "size" false none, .fail]⟩]
  deps := []

/-- A procedure that calls the other one, and then resumes its slot for one place after the other. -/
def lettersReader : Ir.Procedure where
  name := "reader"
  namespaceName := ""
  params := []
  locals := []
  statics := []
  variadic := false
  temps := 5
  entry := "start"
  chunks :=
    [⟨"start", [.name 0 "letters", .call ⟨some 1, some 2, none⟩ 0 [] [], .resume ⟨some 3, some 2, none⟩ 2,
      .resume ⟨some 4, some 2, none⟩ 2, .fail]⟩]
  deps := []

/-- The reader has got the first letter. -/
def lettersRead : Course :=
  ((Course.linked [lettersReader, letters]).calling []).running 5

/-- What it has got. -/
def firstLetter : Outcome :=
  .suspended (.text "a") (.activation 1 "second")

/-- The frame runs, and its slot resumes the other frame at a chunk. -/
def Machine.isAbout (m : Machine) (n x k : Nat) (label : Ir.Label) : Bool :=
  match m.control, m.store.frames[n]?.bind fun f => f.temps[x]? with
  | .running n' _ _, some (.next (.activation k' label')) => n' == n && k' == k && label' == label
  | _, _ => false

theorem Machine.entrusts_of_isAbout
    {admits : Value → Prop} {m : Machine} {held : List Continuation} {pending : List (Item Initializer)}
    {n x k : Nat} {label : Ir.Label}
    (h : Course.Reachable admits ⟨m, held, pending⟩)
    (habout : m.isAbout n x k label = true)
    (v : Value) :
    m.store.Entrusts n (Outcome.suspended v (.activation k label)).next? := by
  obtain ⟨s, base, control⟩ := m
  unfold isAbout at habout
  split at habout
  · rename_i n' label' rest k' label'' hcontrol htemp
    simp only [Bool.and_eq_true, beq_iff_eq] at habout
    obtain ⟨⟨rfl, rfl⟩, rfl⟩ := habout
    obtain ⟨f, hf, hx⟩ := Option.bind_eq_some_iff.mp htemp
    cases hcontrol
    exact h.entrusts hf hx
  · cases habout

/-- The reader gets the second letter, and then a fault. -/
theorem drains_agree_letters :
    ∃ r t, collect lettersRead.machine.store firstLetter = (.error (.raised r), t) ∧
      Agreement lettersRead.machine.store firstLetter (collected lettersRead.machine.store firstLetter) (some r) t ∧
      (collected lettersRead.machine.store firstLetter).map (fun v => Course.text? (.ok (some v))) =
        [some "a", some "b"] ∧
      lettersRead.machine.store.Entrusts 0 firstLetter.next? := by
  have hagree := drains_agree lettersRead.machine.store firstLetter
  have haccepts : (Course.linked [lettersReader, letters]).accepts [] = true := by decide +kernel
  have hlinked : Course.Reachable Course.Plain (Course.linked [lettersReader, letters]) :=
    ⟨1, .single (.link rfl ⟨[lettersReader, letters], [], []⟩)⟩
  have hread : Course.Reachable Course.Plain lettersRead :=
    (hlinked.leads (.single (Course.move_calling haccepts).1)).leads (Course.leads_run _ _ _ _ 5)
  have hraises : (match collect lettersRead.machine.store firstLetter with
      | (.error (.raised _), _) => true
      | _ => false) = true := by decide +kernel
  split at hraises
  · rename_i r t hcollect
    refine ⟨r, t, hcollect, hagree.2.1 r t hcollect, by decide +kernel, ?_⟩
    exact Machine.entrusts_of_isAbout (x := 2) hread (by decide +kernel) _
  · cases hraises

end Draining

end GoalDirected
