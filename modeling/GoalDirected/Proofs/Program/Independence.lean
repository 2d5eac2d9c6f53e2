import GoalDirected.Machine.Drain
import GoalDirected.Proofs.Program.Seclusion

/-!
# Independent generators

**Input.** Suspended activations that have been called with scalars and execute allowed instructions only, and the
order in which their registers are resumed.

**Argument.** Next to the one store in which the resumptions take turns there is, for each activation, a store in which
it is resumed alone.  The frame of the activation looks alike in both, since nobody else gets at its cells.  So a
resumption does the same in both, and it leaves the cells of the others alone.

**Results.**
* `Drain.interleave`, `Drain.draws`: what resumptions in turns give, and what resumptions of one register give.
* `Store.Twin.resumeSlot`: a resumption gives the same in stores in which the frame looks alike.
* `independent_resumptions`: in every interleaving each activation gives what it gives alone.
-/

namespace GoalDirected

section Independence

/-! ## Registers -/

namespace Drain

/-- What a resumption gives: a value, failure, or an error. -/
abbrev Draw := Except Machine.Stop (Option Value)

/-- What a register gives that is resumed several times. -/
def draws (s : Store) (slot : Option Continuation) : Nat → List Draw
  | 0 => []
  | count + 1 =>
      let (draw, slot, s) := resumeSlot s slot
      draw :: draws s slot count

/-- What registers give that are resumed in turns, each time with the register that it comes from. -/
def interleave {ι : Type} [DecidableEq ι] (s : Store) (slots : ι → Option Continuation) :
    List ι → List (ι × Draw)
  | [] => []
  | i :: rest =>
      let (draw, slot, s) := resumeSlot s (slots i)
      (i, draw) :: interleave s (Function.update slots i slot) rest

/-- What comes from one of the registers. -/
def drawsOf {ι : Type} [DecidableEq ι] (i : ι) (drawn : List (ι × Draw)) : List Draw :=
  (drawn.filter fun x => x.1 = i).map (·.2)

theorem drawsOf_cons_self
    {ι : Type} [DecidableEq ι]
    (i : ι) (draw : Draw) (rest : List (ι × Draw)) :
    drawsOf i ((i, draw) :: rest) = draw :: drawsOf i rest := by
  simp [drawsOf]

theorem drawsOf_cons_of_ne
    {ι : Type} [DecidableEq ι] {i j : ι}
    (h : j ≠ i)
    (draw : Draw) (rest : List (ι × Draw)) :
    drawsOf i ((j, draw) :: rest) = drawsOf i rest := by
  simp [drawsOf, h]

/-- When the register is resumed again and again, the machine comes by the state. -/
inductive Visits : Store → Option Continuation → Machine → Prop
  | now
      (s : Store) (k : Continuation) (fuel : Nat) :
      Visits s (some k) ((Machine.resume s [] k).run fuel)
  | later
      {s : Store} {slot : Option Continuation} {m : Machine}
      (h : Visits (resumeSlot s slot).2.2 (resumeSlot s slot).2.1 m) :
      Visits s slot m

/-- An empty register stays empty. -/
theorem Visits.ne_none
    {s : Store} {slot : Option Continuation} {m : Machine}
    (h : Visits s slot m) :
    slot ≠ none := by
  induction h with
  | now => exact nofun
  | later _ ih =>
      rintro rfl
      exact ih rfl

/-- The register is empty, or resumes the frame. -/
def IsSlotOf (n : Nat) (slot : Option Continuation) : Prop :=
  ∀ k, slot = some k → ∃ label, k = .activation n label

end Drain

open Drain

/-! ## Resumptions -/

/-- The frame gives the same in two stores in which it looks alike, and looks alike afterwards. -/
theorem Store.Twin.resumeSlot
    {n : Nat} {R : CellId → CellId → Prop} {s t : Store} {slot : Option Continuation}
    (h : s.Twin n R t)
    (hslot : IsSlotOf n slot)
    (hallows : ∀ m, Visits s slot m → m.Allows n) :
    (Drain.resumeSlot t slot).1 = (Drain.resumeSlot s slot).1 ∧
      (Drain.resumeSlot t slot).2.1 = (Drain.resumeSlot s slot).2.1 ∧
      IsSlotOf n (Drain.resumeSlot s slot).2.1 ∧
      ∃ S, (Drain.resumeSlot s slot).2.2.Twin n S (Drain.resumeSlot t slot).2.2 ∧
        Store.Tandem n R S s t (Drain.resumeSlot s slot).2.2 (Drain.resumeSlot t slot).2.2 := by
  cases slot with
  | none => exact ⟨rfl, rfl, nofun, R, h, .refl h.alike n⟩
  | some k =>
      obtain ⟨label, rfl⟩ := hslot k rfl
      have hbeside := Machine.beside_jump h [] label
      obtain ⟨hresult, hends, S, htwin, htandem⟩ :=
        finish_of_beside hbeside.control fun fuel => hallows _ (.now s (.activation n label) fuel)
      have hstart := hbeside.tandem.trans htandem
      simp only [Drain.resumeSlot, Machine.resume]
      generalize (Machine.jump s [] n label).finish = x at hresult hends htwin hstart
      generalize (Machine.jump t [] n label).finish = y at hresult htwin hstart
      obtain ⟨result, s'⟩ := x
      obtain ⟨result', t'⟩ := y
      cases hresult
      cases result with
      | error e => exact ⟨rfl, rfl, nofun, S, htwin, hstart⟩
      | ok o =>
          refine ⟨rfl, rfl, ?_, S, htwin, hstart⟩
          rintro k hk
          cases o with
          | fail => cases hk
          | result v => cases hk
          | suspended v k' =>
              cases hk
              exact (hends _ rfl).2

/-! ## Interleavings -/

/-- Registers of different frames.  Each frame looks in the one store as it does in a store of its own. -/
structure Concerted {ι : Type} (n : ι → Nat) (R : ι → CellId → CellId → Prop) (alone : ι → Store) (s : Store)
    (slots : ι → Option Continuation) : Prop where
  twin : ∀ i, (alone i).Twin (n i) (R i) s
  disjoint : ∀ i j d, Right (R i) d → Right (R j) d → i = j
  slot : ∀ i, IsSlotOf (n i) (slots i)
  allows : ∀ i m, Visits (alone i) (slots i) m → m.Allows (n i)

section Concert

variable {ι : Type} {n : ι → Nat} {R : ι → CellId → CellId → Prop} {alone : ι → Store} {s : Store}
  {slots : ι → Option Continuation}

/-- The frames of other registers look as they did. -/
theorem Concerted.twin_of_ne
    {i j : ι} {S : CellId → CellId → Prop} {s' t' : Store}
    (h : Concerted n R alone s slots)
    (hn : n.Injective)
    (htandem : Store.Tandem (n j) (R j) S (alone j) s s' t')
    (hij : i ≠ j) :
    (alone i).Twin (n i) (R i) t' := by
  refine (h.twin i).of_leaves ⟨Nat.le_refl _, fun _ _ => rfl, rfl⟩ ⟨htandem.right.size, ?_, ?_⟩ ?_
  · rintro d ⟨c, hcd⟩
    refine htandem.right.content d ((h.twin i).alike.bounded c d hcd).2 fun hd => hij ?_
    exact h.disjoint i j d ⟨c, hcd⟩ hd
  · exact htandem.right.frames (n i) fun heq => hij (hn heq)
  · rw [htandem.right.namespaces, (h.twin i).namespaces]

variable [DecidableEq ι]

/-- What has come to correspond to something is new in the one store, and so it is of one frame only. -/
theorem Concerted.disjoint_update
    {j : ι} {S : CellId → CellId → Prop}
    (h : Concerted n R alone s slots)
    (hwidens : Widens (R j) S (alone j) s)
    (i i' : ι) (d : CellId)
    (hd : Right (Function.update R j S i) d)
    (hd' : Right (Function.update R j S i') d) :
    i = i' := by
  have hold : ∀ i, Right (Function.update R j S i) d → Right (R i) d ∨ (i = j ∧ s.cells.size ≤ d) := by
    rintro i ⟨c, hcd⟩
    by_cases hij : i = j
    · subst hij
      rw [Function.update_self] at hcd
      rcases hwidens.fresh c d hcd with hcd | ⟨-, hnew⟩
      · exact Or.inl ⟨c, hcd⟩
      · exact Or.inr ⟨rfl, hnew⟩
    · rw [Function.update_of_ne hij] at hcd
      exact Or.inl ⟨c, hcd⟩
  have hlt : ∀ i, Right (R i) d → ¬ s.cells.size ≤ d := by
    rintro i ⟨c, hcd⟩
    exact Nat.not_le_of_lt ((h.twin i).alike.bounded c d hcd).2
  rcases hold i hd with hd | ⟨rfl, hnew⟩
  · rcases hold i' hd' with hd' | ⟨-, hnew⟩
    · exact h.disjoint i i' d hd hd'
    · exact absurd hnew (hlt i hd)
  · rcases hold i' hd' with hd' | ⟨heq, -⟩
    · exact absurd hnew (hlt i' hd')
    · exact heq.symm

/-- One of the registers is resumed, in the one store and in its own. -/
theorem Concerted.resume
    (h : Concerted n R alone s slots)
    (hn : n.Injective)
    (j : ι) :
    (resumeSlot s (slots j)).1 = (resumeSlot (alone j) (slots j)).1 ∧
      (resumeSlot s (slots j)).2.1 = (resumeSlot (alone j) (slots j)).2.1 ∧
      ∃ R', Concerted n R' (Function.update alone j (resumeSlot (alone j) (slots j)).2.2)
        (resumeSlot s (slots j)).2.2 (Function.update slots j (resumeSlot (alone j) (slots j)).2.1) := by
  obtain ⟨hdraw, hnext, hslot, S, htwin, htandem⟩ := (h.twin j).resumeSlot (h.slot j) (h.allows j)
  refine ⟨hdraw, hnext, Function.update R j S, ?_, h.disjoint_update htandem.widens, ?_, ?_⟩
  · intro i
    by_cases hij : i = j
    · subst hij
      simpa only [Function.update_self] using htwin
    · simpa only [Function.update_of_ne hij] using h.twin_of_ne hn htandem hij
  · exact (Function.forall_update_iff slots fun i slot => IsSlotOf (n i) slot).mpr ⟨hslot, fun i _ => h.slot i⟩
  · intro i m hvisits
    by_cases hij : i = j
    · subst hij
      simp only [Function.update_self] at hvisits
      exact h.allows i m (.later hvisits)
    · simp only [Function.update_of_ne hij] at hvisits
      exact h.allows i m hvisits

/-- Each register gives in turns with others what it gives in its own store. -/
theorem Concerted.drawsOf
    (h : Concerted n R alone s slots)
    (hn : n.Injective)
    (schedule : List ι) (i : ι) :
    Drain.drawsOf i (interleave s slots schedule) = draws (alone i) (slots i) (schedule.count i) := by
  induction schedule generalizing R alone s slots with
  | nil => rfl
  | cons j rest ih =>
      obtain ⟨hdraw, hnext, R', hconcerted⟩ := h.resume hn j
      have hrest := ih hconcerted
      simp only [interleave, hnext]
      by_cases hij : i = j
      · subst hij
        simp only [Function.update_self] at hrest
        rw [drawsOf_cons_self, hrest, hdraw, List.count_cons_self]
        rfl
      · have hne : j ≠ i := fun heq => hij heq.symm
        simp only [Function.update_of_ne hij] at hrest
        rw [drawsOf_cons_of_ne hne, hrest, List.count_cons_of_ne hne]

end Concert

namespace Course

/-- Independent generators do not interfere.  Activations have been called with scalars, and execute allowed
instructions only: as long as they have lived, and whenever they are resumed alone.  In whatever order their
registers are resumed, each gives the values, failures and errors that it gives when it is resumed alone. -/
theorem independent_resumptions
    {ι : Type} [DecidableEq ι] {σ : Course} {n : ι → Nat} {label : ι → Ir.Label}
    (hn : n.Injective)
    (hlives : ∀ i, Lives (n i) σ)
    (hallows : ∀ i m, Visits σ.machine.store (some (.activation (n i) (label i))) m → m.Allows (n i))
    (schedule : List ι) (i : ι) :
    drawsOf i (interleave σ.machine.store (fun i => some (.activation (n i) (label i))) schedule) =
      draws σ.machine.store (some (.activation (n i) (label i))) (schedule.count i) := by
  obtain ⟨D, htwin, hdisjoint⟩ := exists_territories hn hlives
  have hconcerted : Concerted n (fun i => Same (D i)) (fun _ => σ.machine.store) σ.machine.store
      fun i => some (.activation (n i) (label i)) := by
    refine ⟨htwin, ?_, ?_, hallows⟩
    · rintro i j d ⟨_, hd, rfl⟩ ⟨_, hd', rfl⟩
      exact hdisjoint i j _ hd hd'
    · rintro i k ⟨⟩
      exact ⟨label i, rfl⟩
  exact hconcerted.drawsOf hn schedule i

/-! ## Two activations of one procedure -/

/-- A program that is linked with some procedures, of which nothing runs. -/
def linked (procedures : List Ir.Procedure) : Course :=
  ⟨⟨((Program.new 1).link ⟨procedures, [], []⟩).2.store, [], .returning .fail⟩, [],
    ((Program.new 1).link ⟨procedures, [], []⟩).2.pending⟩

/-- The host calls the first procedure. -/
def calling (σ : Course) (args : List Value) : Course :=
  ⟨Machine.call σ.machine.store [] Program.rootEnvironment (.procedure Builtin.all.length) args [], σ.held,
    σ.pending⟩

def running (σ : Course) (fuel : Nat) : Course :=
  ⟨σ.machine.run fuel, σ.held, σ.pending⟩

/-- The host keeps the continuation of an outcome. -/
def keeping (σ : Course) : Course :=
  match σ.machine with
  | ⟨s, [], .returning (.suspended v k)⟩ => ⟨⟨s, [], .returning (.result v)⟩, k :: σ.held, σ.pending⟩
  | _ => σ

/-- The host can call the first procedure with the arguments. -/
def accepts (σ : Course) (args : List Value) : Bool :=
  match σ.machine, σ.machine.store.callables[Builtin.all.length]? with
  | ⟨_, [], control⟩, some (.procedure p) =>
      control.isIdle && !p.code.variadic && args.all (·.isScalar) && (p.code.argumentFault? args []).isNone
  | _, _ => false

variable {σ : Course} {n : Nat} {args : List Value}

theorem move_calling
    (h : σ.accepts args = true) :
    Move Plain σ (σ.calling args) ∧ Calls σ.size σ (σ.calling args) := by
  unfold accepts at h
  split at h
  · rename_i s control p hmachine hcallable
    obtain ⟨m, held, pending⟩ := σ
    cases hmachine
    simp only [Bool.and_eq_true, Bool.not_eq_true', List.all_eq_true, Option.isNone_iff_eq_none] at h
    obtain ⟨⟨⟨hidle, hvariadic⟩, hargs⟩, hfault⟩ := h
    refine ⟨.call hidle (fun v hv => Value.isRef_of_isScalar (hargs v hv)) _ _ [], ?_⟩
    have hcall : Machine.call s [] Program.rootEnvironment (.procedure Builtin.all.length) args [] =
        Machine.enter s [] Program.rootEnvironment p args [] := by
      have hderef : s.deref (.procedure Builtin.all.length) = .procedure Builtin.all.length :=
        s.derefWithin_of_not_isRef _ rfl
      simp only [Machine.call, hderef]
      dsimp only at hcallable
      simp only [hcallable, Machine.callCallable]
    simp only [calling, hcall]
    exact .enter rfl rfl hvariadic hargs hfault [] _ held pending
  · cases h

theorem Lives.running
    (h : Lives n σ)
    (fuel : Nat)
    (hallows : ∀ j < fuel, (σ.machine.run j).Allows n) :
    Lives n (σ.running fuel) := by
  induction fuel with
  | zero => exact h
  | succ fuel ih =>
      have hbefore := ih fun j hj => hallows j (Nat.lt_succ_of_lt hj)
      have hstep := hbefore.move (hallows fuel (Nat.lt_succ_self fuel)) (.step _ _ _)
      simp only [Course.running, Machine.run_succ]
      exact hstep

theorem Lives.keeping
    (h : Lives n σ) :
    Lives n σ.keeping := by
  obtain ⟨m, held, pending⟩ := σ
  unfold Course.keeping
  split
  · rename_i s v k hmachine
    cases hmachine
    refine h.move ?_ (.keep s v k held pending)
    rintro f hf i ⟨⟩
  · exact h

/-- A run that has come to an end stays allowed. -/
theorem allows_run
    {m : Machine}
    (bound : Nat)
    (hfinished : (m.run bound).isFinished = true)
    (hallows : ∀ fuel ≤ bound, (m.run fuel).Allows n)
    (fuel : Nat) :
    (m.run fuel).Allows n := by
  rcases Nat.le_total fuel bound with hle | hle
  · exact hallows fuel hle
  · obtain ⟨more, rfl⟩ := Nat.exists_eq_add_of_le hle
    rw [Machine.run_add, Machine.run_of_isFinished hfinished]
    exact hallows bound (Nat.le_refl bound)

/-- The resumption of an activation that does not suspend itself again is all that its register does. -/
theorem allows_of_visits
    {s : Store} {k : Continuation} {m : Machine}
    (hlast : (resumeSlot s (some k)).2.1.isNone = true)
    (hallows : ∀ fuel, ((Machine.resume s [] k).run fuel).Allows n)
    (h : Visits s (some k) m) :
    m.Allows n := by
  cases h with
  | now => exact hallows _
  | later h => exact absurd (Option.isNone_iff_eq_none.mp hlast) h.ne_none

/-- A procedure that gives its argument, and then assigns to its parameter and gives it again. -/
def repeater : Ir.Procedure where
  name := "repeater"
  namespaceName := ""
  params := ["x"]
  locals := []
  statics := []
  variadic := false
  temps := 3
  entry := "start"
  chunks :=
    [⟨"start", [.name 0 "x", .succeed (some 0) (some "again")]⟩,
      ⟨"again", [.literal 1 (.text "!"), .operator ⟨some 2, none, none⟩ "||" [0, 1],
        .operator ⟨none, none, none⟩ ":=" [0, 2], .succeed (some 0) none]⟩]
  deps := []

/-- The host has called it once. -/
def repeaterOnce : Course :=
  (((linked [repeater]).calling [.text "a"]).running 2).keeping

/-- The host has called it twice, and has kept both continuations. -/
def repeaterTwice : Course :=
  ((repeaterOnce.calling [.text "b"]).running 2).keeping

/-- The text that has been drawn, if it is one. -/
def text? : Draw → Option String
  | .ok (some (.text t)) => some t
  | _ => none

/-- Each of them appends to its own parameter, in whatever order they are resumed. -/
theorem independent_resumptions_repeater :
    repeaterTwice.held.map (Continuation.uses 0) = [0, 1] ∧
      repeaterTwice.held.map (Continuation.uses 1) = [1, 0] ∧
      (∀ (schedule : List Bool) (i : Bool),
        drawsOf i (interleave repeaterTwice.machine.store (fun i => some (.activation i.toNat "again")) schedule) =
          draws repeaterTwice.machine.store (some (.activation i.toNat "again")) (schedule.count i)) ∧
      ((draws repeaterTwice.machine.store (some (.activation 0 "again")) 2).map text?) = [some "a!", none] ∧
      ((draws repeaterTwice.machine.store (some (.activation 1 "again")) 2).map text?) = [some "b!", none] := by
  have hfirst : (linked [repeater]).accepts [.text "a"] = true := by decide +kernel
  have hsecond : repeaterOnce.accepts [.text "b"] = true := by decide +kernel
  obtain ⟨hmove, hcalls⟩ := move_calling hfirst
  obtain ⟨hmove', hcalls'⟩ := move_calling hsecond
  have hlinked : Reachable Plain (linked [repeater]) := ⟨1, .single (.link rfl ⟨[repeater], [], []⟩)⟩
  rw [show (linked [repeater]).size = 0 by decide +kernel] at hcalls
  rw [show repeaterOnce.size = 1 by decide +kernel] at hcalls'
  have honce : Lives 0 repeaterOnce :=
    ((Lives.called hlinked hmove hcalls).running 2 (by decide +kernel)).keeping
  have hlives : ∀ i : Bool, Lives i.toNat repeaterTwice := by
    intro i
    refine Lives.keeping (Lives.running ?_ 2 ?_)
    · cases i with
      | false => exact honce.move (by decide +kernel) hmove'
      | true => exact .called honce.reachable hmove' hcalls'
    · cases i <;> decide +kernel
  have hallows : ∀ (i : Bool) (m : Machine),
      Visits repeaterTwice.machine.store (some (.activation i.toNat "again")) m → m.Allows i.toNat := by
    intro i m hvisits
    refine allows_of_visits ?_ (allows_run 8 ?_ ?_) hvisits
    · cases i <;> decide +kernel
    · cases i <;> decide +kernel
    · cases i <;> decide +kernel
  refine ⟨by decide +kernel, by decide +kernel, ?_, by decide +kernel, by decide +kernel⟩
  have hinjective : ∀ i j : Bool, i.toNat = j.toNat → i = j := by decide
  exact independent_resumptions (fun i j => hinjective i j) hlives hallows

end Course

end Independence

end GoalDirected
