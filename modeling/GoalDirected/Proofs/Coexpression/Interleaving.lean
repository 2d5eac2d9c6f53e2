import GoalDirected.Proofs.Coexpression.Rendezvous
import Mathlib.Logic.Function.Iterate

/-!
# Interleavings of a co-expression with its holders

**Input.** Any sequence of steps of the parties of a rendezvous, from the creation of the co-expression on.

**Argument.** What holds of all states that mirror a state of the sequential machine holds of every state that the
parties come to.  The sequential machine makes the steps that the machine makes in an activation, as long as nobody
else changes the store meanwhile.

**Results.**
* `Orderly`: what is on its way, and whom it is for.
* `Returns`, `serial_of_returns`, `returns_of_serial`: activations of the machine and of the sequential machine.
* `interleavings_serial`: all of this for every sequence of steps, with any room for results.
-/

namespace GoalDirected
namespace Rendezvous

section Interleaving

open Coexpression

variable {c room : Nat} {p q : Parties} {x y z : Serial} {es fs : List Event}

/-! ## States -/

/-- The activation whose request the task is on. -/
def Task.request? : Task → Option Nat
  | .works n _ _ => some n
  | .sends n _ _ => some n
  | .drops n _ => some n
  | .lasts n _ => some n
  | _ => none

/-- Whom what is on its way is for. -/
structure Orderly (p : Parties) : Prop where
  /-- At most one request or result is on its way. -/
  single : p.requests.length + p.results.length ≤ 1
  /-- It belongs to the activation that waits. -/
  request : ∀ n ∈ p.requests, p.holder = .awaits n
  result : ∀ x ∈ p.results, p.holder = .awaits x.1
  /-- The task is on the request of the activation that waits.  What it puts in finds the queue empty and open. -/
  task : ∀ n, p.task.request? = some n →
    p.holder = .awaits n ∧ p.requests = [] ∧ p.results = [] ∧ p.link.listening = true
  /-- What an activation finds is the answer to its own request. -/
  found : ∀ n x, p.holder = .holds n (some x) → x.1 = n
  /-- When the link has been finished, the task is not on a request and gets none. -/
  finished : p.link.exhausted = true →
    p.link.asking = false ∧ p.requests = [] ∧ p.results = [] ∧ p.task.isQuiet = true

theorem Task.request?_of_isQuiet
    {t : Task}
    (h : t.isQuiet = true) :
    t.request? = none := by
  cases t with
  | waits b => rfl
  | leaves => rfl
  | gone => rfl
  | _ => cases h

/-- A state in which nothing is on its way and the task is not on a request. -/
theorem orderly_of_isQuiet
    {l : Link} {h : Holder} {t : Task} {k : Nat}
    (ht : t.isQuiet = true)
    (hfound : ∀ n x, h = .holds n (some x) → x.1 = n)
    (hfinished : l.exhausted = true → l.asking = false) :
    Orderly ⟨[], [], l, h, t, k⟩ where
  single := Nat.zero_le 1
  request := by simp
  result := by simp
  task := by simp [Task.request?_of_isQuiet ht]
  found := hfound
  finished := fun hexhausted => ⟨hfinished hexhausted, rfl, rfl, ht⟩

/-- A state in which the task is on the request of the activation that waits. -/
theorem orderly_of_request
    {t : Task} {n k : Nat}
    (ht : t.request? = some n) :
    Orderly ⟨[], [], .live, .awaits n, t, k⟩ where
  single := Nat.zero_le 1
  request := by simp
  result := by simp
  task := by
    intro m hm
    cases ht.symm.trans hm
    exact ⟨rfl, rfl, rfl, rfl⟩
  found := by simp
  finished := by simp [Link.live]

theorem Mirrors.orderly
    (h : Mirrors p z) :
    Orderly p := by
  have hlive : Link.live.exhausted = true → Link.live.asking = false := by simp [Link.live]
  cases h with
  | rest => exact orderly_of_isQuiet rfl (by simp) hlive
  | ended ht => exact orderly_of_isQuiet (Task.isQuiet_of_isLeaving ht) (by simp) hlive
  | finished ht => exact orderly_of_isQuiet ht (by simp) fun _ => rfl
  | closing hl ht =>
      rcases hl with rfl | rfl
      · exact orderly_of_isQuiet ht (by simp) hlive
      · exact orderly_of_isQuiet ht (by simp) fun _ => rfl
  | closed hl ht =>
      rcases hl with rfl | rfl
      · exact orderly_of_isQuiet ht (by simp) fun _ => rfl
      · exact orderly_of_isQuiet ht (by simp) fun _ => rfl
  | asking hh =>
      rcases hh with rfl | rfl
      · exact orderly_of_isQuiet rfl (by simp) hlive
      · exact orderly_of_isQuiet rfl (by simp) hlive
  | requested => exact ⟨by simp, by simp, by simp, by simp [Task.request?], by simp, by simp [Link.live]⟩
  | working => exact orderly_of_request rfl
  | sending => exact orderly_of_request rfl
  | sent => exact ⟨by simp, by simp, by simp, by simp [Task.request?], by simp, by simp [Link.live]⟩
  | holding => exact orderly_of_isQuiet rfl (by simp) hlive
  | ending ht => rcases ht with rfl | rfl <;> exact orderly_of_request rfl
  | sentLast ht =>
      refine ⟨by simp, by simp, by simp, ?_, by simp, by simp [Link.live]⟩
      simp [Task.request?_of_isQuiet (Task.isQuiet_of_isLeaving ht)]
  | silent ht => exact orderly_of_isQuiet (Task.isQuiet_of_isLeaving ht) (by simp) hlive
  | late hh ht =>
      refine orderly_of_isQuiet (Task.isQuiet_of_isLeaving ht) ?_ hlive
      rcases hh with rfl | rfl | rfl <;> simp
  | @holdingLast t n k found x hx ht =>
      refine orderly_of_isQuiet (Task.isQuiet_of_isLeaving ht) ?_ hlive
      subst hx
      cases found with
      | none => simp
      | some m => simp
  | shutting hd ht => exact orderly_of_isQuiet (Task.isQuiet_of_isLeaving ht) (by simp) hlive
  | finishing hd ht => exact orderly_of_isQuiet (Task.isQuiet_of_isLeaving ht) (by simp) fun _ => rfl
  | refused ht => exact orderly_of_isQuiet ht (by simp) fun _ => rfl

theorem mirrors_new (b : Place) : Mirrors (.new b) (.new b) :=
  .rest

/-! ## Numbers -/

/-- The number of an activation that begins. -/
def Event.asked? : Event → Option Nat
  | .asked n => some n
  | _ => none

/-- The number of an activation that is answered. -/
def Event.answered? : Event → Option Nat
  | .answered n _ => some n
  | _ => none

/-- The number of activations that have been answered. -/
def Serial.settled (z : Serial) : Nat :=
  match z.phase with
  | .idle _ => z.count
  | .pending n _ => n
  | .busy n _ _ => n
  | .handing n _ _ => n

/-- Activations have their numbers in the order in which they begin, and all but the last have been answered. -/
def Serial.IsNumbered (z : Serial) : Prop :=
  match z.phase with
  | .idle _ => True
  | .pending n _ => n + 1 = z.count
  | .busy n _ _ => n + 1 = z.count
  | .handing n _ _ => n + 1 = z.count

theorem Serial.IsNumbered.settled_le
    (h : z.IsNumbered) :
    z.settled ≤ z.count := by
  obtain ⟨phase, k⟩ := z
  cases phase with
  | idle b => exact Nat.le_refl k
  | pending n b => exact Nat.le_of_succ_le (Nat.le_of_eq h)
  | busy n stack control => exact Nat.le_of_succ_le (Nat.le_of_eq h)
  | handing n found b => exact Nat.le_of_succ_le (Nat.le_of_eq h)

theorem Serial.IsNumbered.count_le
    (h : z.IsNumbered) :
    z.count ≤ z.settled + 1 := by
  obtain ⟨phase, k⟩ := z
  cases phase with
  | idle b => exact Nat.le_succ k
  | pending n b => exact Nat.le_of_eq h.symm
  | busy n stack control => exact Nat.le_of_eq h.symm
  | handing n found b => exact Nat.le_of_eq h.symm

theorem Serial.isNumbered_after
    {n k : Nat}
    (h : n + 1 = k)
    (x : Turn) :
    Serial.IsNumbered ⟨.after n x, k⟩ ∧ Serial.settled ⟨.after n x, k⟩ = n := by
  cases x with
  | goesOn stack control => exact ⟨h, rfl⟩
  | hands v b => exact ⟨h, rfl⟩
  | ends last => exact ⟨h, rfl⟩

/-- One step gives out the next number, or settles it. -/
theorem Serial.Step.numbers
    {ev : Event}
    (h : Serial.Step c z ev y)
    (hz : z.IsNumbered) :
    y.IsNumbered ∧ List.range z.count ++ (ev.asked?).toList = List.range y.count ∧
      List.range z.settled ++ (ev.answered?).toList = List.range y.settled := by
  cases h with
  | ask => exact ⟨rfl, List.range_succ.symm, List.append_nil _⟩
  | askEnded => exact ⟨rfl, List.range_succ.symm, List.append_nil _⟩
  | close => exact ⟨trivial, List.append_nil _, List.append_nil _⟩
  | answer =>
      refine ⟨trivial, List.append_nil _, ?_⟩
      have hcount := congrArg List.range hz
      rw [List.range_succ] at hcount
      exact hcount
  | resume hturn =>
      obtain ⟨hnumbered, hsettled⟩ := Serial.isNumbered_after hz _
      exact ⟨hnumbered, List.append_nil _, by rw [hsettled]; exact List.append_nil _⟩
  | work hturn =>
      obtain ⟨hnumbered, hsettled⟩ := Serial.isNumbered_after hz _
      exact ⟨hnumbered, List.append_nil _, by rw [hsettled]; exact List.append_nil _⟩

theorem Serial.Run.numbers
    (h : Serial.Run c z es y)
    (hz : z.IsNumbered) :
    y.IsNumbered ∧ List.range z.count ++ es.filterMap Event.asked? = List.range y.count ∧
      List.range z.settled ++ es.filterMap Event.answered? = List.range y.settled := by
  induction h with
  | refl z => exact ⟨hz, List.append_nil _, List.append_nil _⟩
  | @step z y x es ev hstep _ ih =>
      obtain ⟨hy, hasked, hanswered⟩ := hstep.numbers hz
      obtain ⟨hx, hasked', hanswered'⟩ := ih hy
      refine ⟨hx, ?_, ?_⟩
      · rw [← hasked', ← hasked, List.append_assoc]
        cases ev <;> rfl
      · rw [← hanswered', ← hanswered, List.append_assoc]
        cases ev <;> rfl

theorem Mirrors.count_eq
    (h : Mirrors p z) :
    z.count = p.count := by
  cases h <;> rfl

theorem Mirrors.settled_of_free
    (h : Mirrors p z)
    (hfree : p.holder = .free) :
    z.settled = z.count := by
  cases h with
  | rest => rfl
  | ended ht => rfl
  | finished ht => rfl
  | asking hh => rcases hh with rfl | rfl <;> cases hfree
  | late hh ht => rcases hh with rfl | rfl | rfl <;> cases hfree
  | _ => cases hfree

/-! ## The end -/

/-- The body has ended for all activations from the given one on. -/
inductive Phase.Spent (k : Nat) : Phase → Prop
  | idle : Spent k (.idle none)
  | handing
      {n : Nat} {found : Option Message}
      (h : k ≤ n → found = none) :
      Spent k (.handing n found none)

theorem Serial.Step.spent
    {k : Nat} {ev : Event}
    (h : Serial.Step c z ev y)
    (hz : z.phase.Spent k) :
    y.phase.Spent k ∧ ev.isWork = false ∧ ∀ n d, ev = .answered n d → k ≤ n → d = .failure := by
  cases h with
  | ask => cases hz
  | askEnded => exact ⟨.handing fun _ => rfl, rfl, by simp⟩
  | close => exact ⟨.idle, rfl, by simp⟩
  | resume hturn => cases hz
  | work hturn => cases hz
  | answer =>
      cases hz with
      | handing hfound =>
          refine ⟨.idle, rfl, ?_⟩
          intro n d heq hk
          cases heq
          rw [hfound hk]
          rfl

theorem Serial.Run.spent
    {k : Nat}
    (h : Serial.Run c z es y)
    (hz : z.phase.Spent k) :
    ∀ ev ∈ es, ev.isWork = false ∧ ∀ n d, ev = .answered n d → k ≤ n → d = .failure := by
  induction h with
  | refl z => simp
  | step hstep _ ih =>
      obtain ⟨hy, hfirst⟩ := hstep.spent hz
      exact List.forall_mem_cons.mpr ⟨hfirst, ih hy⟩

/-- When the link has been finished, the body has ended for all activations to come. -/
theorem Mirrors.isSpent
    (h : Mirrors p z)
    (hz : z.IsNumbered)
    (hexhausted : p.link.exhausted = true) :
    z.phase.Spent p.count := by
  cases h with
  | finished ht => exact .idle
  | closing hl ht => exact .idle
  | closed hl ht => exact .idle
  | finishing hd ht =>
      refine .handing fun hk => ?_
      simp only [Serial.IsNumbered] at hz
      dsimp only at hk
      omega
  | refused ht => exact .handing fun _ => rfl
  | _ => cases hexhausted

/-! ## Progress -/

/-- A body is always taken up: its stack is the consumer, and it does not have to wait. -/
theorem begin_eq (c : Nat) (s : Store) (b : Place) :
    ∃ r control, begin c s b = ⟨r, [.consuming c], control⟩ ∧
      turn? c (begin c s b) = some (.goesOn [.consuming c] control) := by
  have hbegin : ∃ r control, begin c s b = ⟨r, [.consuming c], control⟩ ∧ ∀ reason, control ≠ .halted reason := by
    unfold begin Machine.jump
    split
    · exact ⟨_, _, rfl, by simp⟩
    · rename_i f hf
      split
      · exact ⟨_, _, rfl, by simp⟩
      · have hpass : Machine.malfunction _ [.consuming c] b.frame (.noChunk b.label f.place) = _ :=
          Machine.fault_pass (by simp) hf (Or.inl rfl)
        rcases Machine.leave_cases _ [.consuming c] b.frame _ with ⟨trace, hleave⟩ | hleave
        · exact ⟨_, _, hpass.trans hleave, by simp⟩
        · exact ⟨_, _, hpass.trans hleave, by simp⟩
  obtain ⟨r, control, hbegin, hrunning⟩ := hbegin
  refine ⟨r, control, hbegin, ?_⟩
  rw [hbegin]
  cases control with
  | halted reason => exact absurd rfl (hrunning reason)
  | _ => rfl

/-- While some holder has the lock, the parties can go on, unless the body is at work. -/
theorem Mirrors.advances
    (h : Mirrors p z)
    (c : Nat)
    (hroom : 0 < room)
    (hbusy : p.holder ≠ .free) :
    (∃ e q, Step c room p e q ∧ isInner e = true) ∨
      (∀ s, ∃ t q, Step c room p (some (.resumed s t)) q) ∨
      ∃ n stack control, p.task = .works n stack control ∧ p.holder = .awaits n := by
  rcases h.ready c hroom with ⟨q, hq⟩ | hready
  · exact Or.inl ⟨none, q, hq, rfl⟩
  cases hready with
  | rest => exact absurd rfl hbusy
  | ended hl => exact absurd rfl hbusy
  | @requested b n k =>
      refine Or.inr (Or.inl fun s => ?_)
      obtain ⟨r, control, -, hturn⟩ := begin_eq c s b
      exact ⟨_, _, .resume hturn⟩
  | working => exact Or.inr (Or.inr ⟨_, _, _, rfl, rfl⟩)
  | holding => exact Or.inl ⟨_, _, .hand, rfl⟩
  | finishing hd => exact Or.inl ⟨_, _, .finish, rfl⟩
  | refused => exact Or.inl ⟨_, _, .refuse rfl, rfl⟩

/-! ## Activations -/

/-- The body works while nobody else changes the store. -/
inductive Alone : Store → List Event → Store → Prop
  | nil (s : Store) : Alone s [] s
  | cons
      {s t u : Store} {es : List Event}
      (h : Alone t es u) :
      Alone s (.worked s t :: es) u

/-- After so many steps, a machine that runs the body comes back to its consumer. -/
structure Returns (c : Nat) (m : Machine) (j : Nat) (m' : Machine) : Prop where
  last : Machine.step^[j] m = m'
  within : ∀ i < j, Grounded c (Machine.step^[i] m).stack
  exits : m'.Exits c

variable {m m' : Machine} {s t : Store} {stack below : List Context} {control : Control} {i j : Nat}

theorem Grounded.ne_nil
    (h : Grounded c stack) :
    stack ≠ [] := by
  obtain ⟨a, rest, rfl⟩ := h.exists_cons
  exact List.cons_ne_nil a rest

theorem stack_of_exits
    (h : m.Exits c) :
    m.stack = [] := by
  cases h <;> rfl

/-- Within the body, a step goes on unless it has to wait. -/
theorem turn?_of_grounded
    (h : Grounded c m.stack) :
    (turn? c m = none ∧ ∃ reason, m.control = .halted reason) ∨
      turn? c m = some (.goesOn m.stack m.control) := by
  obtain ⟨s, stack, control⟩ := m
  obtain ⟨a, rest, rfl⟩ := h.exists_cons
  cases control with
  | halted reason => exact Or.inl ⟨rfl, reason, rfl⟩
  | _ => exact Or.inr rfl

theorem place?_setProducer_ended (s : Store) (c : Nat) :
    place? (s.setProducer c .ended) c = none := by
  cases c with
  | zero => rfl
  | succ n =>
      by_cases hn : n < s.producers.size
      · simp [place?, Store.producer, Store.setProducer, Array.getD_eq_getD_getElem?, hn]
      · simp [place?, Store.producer, Store.setProducer, Array.getD_eq_getD_getElem?, hn]

theorem place?_endProducer (s : Store) (c : Nat) :
    place? (s.endProducer c) c = none :=
  place?_setProducer_ended s c

/-- Out of the body, the activation gets what the machine carries, and the body goes on where the store says. -/
theorem turn?_of_exits
    (h : m.Exits c) :
    ∃ x found, turn? c m = some x ∧ (∀ n, Phase.after n x = .handing n found (place? m.store c)) ∧
      delivery? m.control = some (answer found) := by
  cases h with
  | hand s v frame label =>
      cases hplace : place? (s.setProducer c (.waiting frame label)) c with
      | none => exact ⟨.ends (some (.ok v)), some (.ok v), by simp [turn?, Outcome.value?, hplace], fun n => rfl, rfl⟩
      | some b => exact ⟨.hands v b, some (.ok v), by simp [turn?, Outcome.value?, hplace], fun n => rfl, rfl⟩
  | finish s o =>
      have hplace := place?_endProducer s c
      refine ⟨.ends (o.value?.map .ok), o.value?.map .ok, ?_, ?_, ?_⟩
      · cases hvalue : o.value? <;> simp [turn?, hvalue, hplace]
      · intro n
        rw [hplace]
        rfl
      · cases hvalue : o.value? <;> simp [delivery?, answer, hvalue]
  | raise s r =>
      have hplace := place?_endProducer s c
      refine ⟨.ends (some (.error r)), some (.error r), rfl, ?_, rfl⟩
      intro n
      rw [hplace]
      rfl
  | lose s =>
      have hplace := place?_setProducer_ended s c
      refine ⟨.ends none, none, by simp [turn?, Outcome.value?], ?_, rfl⟩
      intro n
      rw [hplace]
      rfl

theorem Returns.cons
    (h : Returns c m.step j m')
    (hm : Grounded c m.stack) :
    Returns c m (j + 1) m' := by
  refine ⟨h.last, ?_, h.exits⟩
  intro i hi
  cases i with
  | zero => exact hm
  | succ i => exact h.within i (Nat.lt_of_succ_lt_succ hi)

theorem Returns.of_step
    (h : m.step.Exits c)
    (hm : Grounded c m.stack) :
    Returns c m 1 m.step := by
  refine ⟨rfl, ?_, h⟩
  intro i hi
  cases Nat.lt_one_iff.mp hi
  exact hm

/-- The sequential machine and the machine leave the body together. -/
theorem returns_of_serial
    {n k k' n' : Nat} {found : Option Message} {b : Option Place}
    (halone : Alone s es t)
    (hrun : Serial.Run c ⟨.busy n stack control, k⟩ es ⟨.handing n' found b, k'⟩)
    (hstack : Grounded c stack) :
    ∃ m', Returns c ⟨s, stack, control⟩ es.length m' ∧ m'.store = t ∧
      delivery? m'.control = some (answer found) := by
  induction halone generalizing stack control with
  | nil s => cases hrun
  | @cons s t u es halone ih =>
      cases hrun with
      | step hstep hrun =>
          cases hstep with
          | @work n k stack control s x hturn =>
              generalize hm : Machine.step ⟨s, stack, control⟩ = m at hturn halone hrun ih
              rcases (Machine.rises_step hstack [] s control).stack with hwithin | hexits
              · rw [hm] at hwithin
                rcases turn?_of_grounded hwithin with ⟨hnone, -⟩ | hgoes
                · rw [hnone] at hturn
                  cases hturn
                · cases hturn.symm.trans hgoes
                  obtain ⟨m', hreturns, hstore, hdelivery⟩ := ih hrun hwithin
                  refine ⟨m', .cons ?_ hstack, hstore, hdelivery⟩
                  rw [hm]
                  exact hreturns
              · rw [hm] at hexits
                obtain ⟨x', found', hturn', hafter, hdelivery⟩ := turn?_of_exits hexits
                cases hturn.symm.trans hturn'
                rw [hafter] at hrun
                -- Nothing of the body is left, so the activation is about to be answered.
                cases halone with
                | nil =>
                    cases hrun
                    refine ⟨m, hm ▸ .of_step (hm ▸ hexits) hstack, rfl, hdelivery⟩
                | cons halone =>
                    cases hrun with
                    | step hstep _ => cases hstep

theorem serial_of_returns
    (h : Returns c ⟨s, stack, control⟩ j m')
    (hstack : Grounded c stack)
    (n k : Nat) :
    ∃ es found b, Alone s es m'.store ∧
      Serial.Run c ⟨.busy n stack control, k⟩ es ⟨.handing n found b, k⟩ ∧
      delivery? m'.control = some (answer found) := by
  induction j generalizing s stack control with
  | zero =>
      cases h.last
      exact absurd (stack_of_exits h.exits) (Grounded.ne_nil hstack)
  | succ j ih =>
      obtain ⟨hlast, hwithin, hexits⟩ := h
      rw [Function.iterate_succ_apply] at hlast
      have hlater : ∀ i < j, Grounded c (Machine.step^[i] (Machine.step ⟨s, stack, control⟩)).stack :=
        fun i hi => hwithin (i + 1) (Nat.succ_lt_succ hi)
      rcases (Machine.rises_step hstack [] s control).stack with hnext | hleft
      · rcases turn?_of_grounded hnext with ⟨-, reason, hhalted⟩ | hgoes
        · -- A machine that has halted stays within the body.
          have hfinished : (Machine.step ⟨s, stack, control⟩).isFinished = true := by
            generalize Machine.step ⟨s, stack, control⟩ = m at hhalted
            obtain ⟨s', stack', control'⟩ := m
            cases hhalted
            rfl
          rw [Function.iterate_fixed (Machine.step_of_isFinished hfinished)] at hlast
          cases hlast
          exact absurd (stack_of_exits hexits) (Grounded.ne_nil hnext)
        · obtain ⟨es, found, b, halone, hrun, hdelivery⟩ := ih ⟨hlast, hlater, hexits⟩ hnext
          exact ⟨_, found, b, .cons halone, .step (.work hgoes) hrun, hdelivery⟩
      · cases j with
        | succ j =>
            exact absurd (stack_of_exits hleft) (Grounded.ne_nil (hlater 0 (Nat.succ_pos j)))
        | zero =>
            cases hlast
            obtain ⟨x, found, hturn, hafter, hdelivery⟩ := turn?_of_exits hleft
            have hstep := Serial.Step.work (n := n) (k := k) hturn
            rw [hafter] at hstep
            exact ⟨_, found, _, .cons (.nil _), .single hstep, hdelivery⟩

/-- Whatever is below the consumer, the machine comes back to it in the same way. -/
theorem returns_iff
    {d : Delivery}
    (hm : Grounded c m.stack)
    (below : List Context) :
    (∃ j m', Returns c m j m' ∧ m'.store = t ∧ delivery? m'.control = some d) ↔
      ∃ j control, Machine.step^[j] (m.onto below) = ⟨t, below, control⟩ ∧
        (∀ i < j, (.consuming c :: below) <:+ (Machine.step^[i] (m.onto below)).stack) ∧
        delivery? control = some d := by
  have hgrounded : ∀ {stack : List Context}, Grounded c stack → (.consuming c :: below) <:+ stack ++ below := by
    rintro _ ⟨above, rfl⟩
    exact ⟨above, by simp⟩
  constructor
  · rintro ⟨j, m', ⟨rfl, hwithin, hexits⟩, hstore, hdelivery⟩
    have honto : ∀ i ≤ j, Machine.step^[i] (m.onto below) = (Machine.step^[i] m).onto below := by
      intro i hi
      induction i with
      | zero => rfl
      | succ i ih =>
          rw [Function.iterate_succ_apply', Function.iterate_succ_apply', ih (Nat.le_of_succ_le hi)]
          exact (Machine.rises_step (hwithin i hi) below _ _).eq
    refine ⟨j, (Machine.step^[j] m).control, ?_, ?_, hdelivery⟩
    · rw [honto j (Nat.le_refl j), Machine.onto, stack_of_exits hexits, ← hstore]
      rfl
    · intro i hi
      rw [honto i (Nat.le_of_lt hi)]
      exact hgrounded (hwithin i hi)
  · rintro ⟨j, control, hlast, hwithin, hdelivery⟩
    induction j generalizing m with
    | zero =>
        have hstack : m.stack ++ below = below := congrArg Machine.stack hlast
        exact absurd (List.append_left_eq_self.mp hstack) (Grounded.ne_nil hm)
    | succ j ih =>
        have hstep : (m.onto below).step = m.step.onto below := (Machine.rises_step hm below _ _).eq
        rw [Function.iterate_succ_apply, hstep] at hlast
        have hlater : ∀ i < j, (.consuming c :: below) <:+ (Machine.step^[i] (m.step.onto below)).stack := by
          intro i hi
          have h := hwithin (i + 1) (Nat.succ_lt_succ hi)
          rwa [Function.iterate_succ_apply, hstep] at h
        rcases (Machine.rises_step hm [] m.store m.control).stack with hnext | hexits
        · obtain ⟨i, m', hreturns, hm'⟩ := ih hnext hlast hlater
          exact ⟨i + 1, m', hreturns.cons hm, hm'⟩
        · cases j with
          | succ j =>
              -- The consumer is no longer on the stack.
              have hlength := (hlater 0 (Nat.succ_pos j)).length_le
              have hstack : m.step.stack = [] := stack_of_exits hexits
              simp only [Function.iterate_zero, id_eq, Machine.onto, hstack, List.nil_append,
                List.length_cons] at hlength
              exact absurd hlength (Nat.not_succ_le_self _)
          | zero =>
              have hstore := congrArg Machine.store hlast
              have hcontrol := congrArg Machine.control hlast
              refine ⟨1, m.step, .of_step hexits hm, hstore, ?_⟩
              rw [← hdelivery]
              exact congrArg delivery? hcontrol

/-- The machine starts an activation with the body on top of what waits. -/
theorem activate_eq
    {b : Place}
    (h : place? s c = some b)
    (below : List Context) :
    Machine.activate s below c = (begin c s b).onto below := by
  have hjump := (Machine.rises_jump (grounded_consuming c) below (s.setProducer c .running) b.frame b.label).eq
  cases hproducer : s.producer c with
  | fresh frame label =>
      simp only [place?, hproducer] at h
      cases h
      simp only [Machine.activate, hproducer]
      exact hjump
  | waiting frame label =>
      simp only [place?, hproducer] at h
      cases h
      simp only [Machine.activate, hproducer]
      exact hjump
  | running =>
      simp only [place?, hproducer] at h
      cases h
  | ended =>
      simp only [place?, hproducer] at h
      cases h

/-- The sequential machine answers an activation of a body that rests: it takes up the body, works, and hands over
what it has found. -/
theorem Serial.Run.activation
    {b : Place} {k : Nat} {d : Delivery} {x : Turn} {work : List Event}
    (h : Serial.Run c ⟨.idle (some b), k⟩ (.asked k :: .resumed s t :: (work ++ [.answered k d])) y)
    (hturn : turn? c (begin c s b) = some x) :
    t = (begin c s b).store ∧ ∃ found b' k',
      Serial.Run c ⟨.after k x, k + 1⟩ work ⟨.handing k found b', k'⟩ ∧ d = answer found := by
  cases h with
  | step hask h =>
      cases hask with
      | ask =>
          cases h with
          | step hresume h =>
              cases hresume with
              | resume hturn' =>
                  cases hturn.symm.trans hturn'
                  obtain ⟨z, hwork, hlast⟩ := h.split
                  cases hlast with
                  | step hanswer _ =>
                      cases hanswer with
                      | answer => exact ⟨rfl, _, _, _, hwork, rfl⟩

/-- The answers of the parties are those of the machine, while nobody else changes the store. -/
theorem activation_iff
    {b : Place} {k : Nat} {d : Delivery}
    (h : Mirrors p ⟨.idle (some b), k⟩)
    (hroom : 0 < room)
    (hplace : place? s c = some b)
    (below : List Context) :
    (∃ r work q, Alone r work t ∧
      Run c room p (.asked k :: .resumed s r :: (work ++ [.answered k d])) q) ↔
      ∃ j control, Machine.step^[j] (Machine.activate s below c) = ⟨t, below, control⟩ ∧
        (∀ i < j, (.consuming c :: below) <:+ (Machine.step^[i] (Machine.activate s below c)).stack) ∧
        delivery? control = some d := by
  obtain ⟨r, control, hbegin, hturn⟩ := begin_eq c s b
  have hstack : Grounded c (begin c s b).stack := by
    rw [hbegin]
    exact grounded_consuming c
  rw [activate_eq hplace, ← returns_iff hstack below]
  constructor
  · rintro ⟨r', work, q, halone, hrun⟩
    obtain ⟨y, hserial, -⟩ := h.run hrun
    obtain ⟨rfl, found, b', k', hwork, rfl⟩ := hserial.activation hturn
    rw [hbegin] at halone ⊢
    obtain ⟨m', hreturns, hm'⟩ := returns_of_serial halone hwork (grounded_consuming c)
    exact ⟨_, m', hreturns, hm'⟩
  · rintro ⟨j, m', hreturns, rfl, hdelivery⟩
    rw [hbegin] at hreturns
    obtain ⟨work, found, b', halone, hwork, hanswer⟩ :=
      serial_of_returns hreturns (grounded_consuming c) k (k + 1)
    cases hdelivery.symm.trans hanswer
    have hresume := Serial.Step.resume (n := k) (k := k + 1) hturn
    rw [hbegin] at hresume
    have hserial : Serial.Run c ⟨.idle (some b), k⟩
        (.asked k :: .resumed s r :: (work ++ [.answered k (answer found)])) ⟨.idle b', k + 1⟩ :=
      .step .ask (.step hresume (hwork.append (.single .answer)))
    obtain ⟨q, hq, -⟩ := h.realizes_run hroom hserial
    exact ⟨r, work, q, halone, hq⟩

/-! ## Interleavings -/

/-- A body rests that some activation may take up. -/
theorem Mirrors.of_resting
    {b : Place}
    (h : Mirrors p z)
    (hfree : p.holder = .free)
    (hexhausted : p.link.exhausted = false)
    (htask : p.task = .waits b) :
    Mirrors p ⟨.idle (some b), p.count⟩ := by
  cases h with
  | rest =>
      cases htask
      exact .rest
  | ended ht =>
      cases htask
      cases ht
  | finished ht => cases hexhausted
  | asking hh => rcases hh with rfl | rfl <;> cases hfree
  | late hh ht => rcases hh with rfl | rfl | rfl <;> cases hfree
  | _ => cases hfree

/-- The body has ended, and no activation is under way. -/
theorem Mirrors.of_ended
    (h : Mirrors p z)
    (hfree : p.holder = .free)
    (hended : p.link.exhausted = true ∨ p.task.isLeaving = true) :
    Mirrors p ⟨.idle none, p.count⟩ := by
  cases h with
  | rest => rcases hended with hended | hended <;> cases hended
  | ended ht => exact .ended ht
  | finished ht => exact .finished ht
  | asking hh => rcases hh with rfl | rfl <;> cases hfree
  | late hh ht => rcases hh with rfl | rfl | rfl <;> cases hfree
  | _ => cases hfree

/-- Then an activation fails, as it does in the machine. -/
theorem refusal_iff
    {k : Nat} {d : Delivery}
    (h : Mirrors p ⟨.idle none, k⟩)
    (hroom : 0 < room)
    (hended : s.producer c = .ended)
    (below : List Context) :
    (∃ q, Run c room p [.asked k, .answered k d] q) ↔
      ∃ control, Machine.activate s below c = ⟨s, below, control⟩ ∧ delivery? control = some d := by
  have hactivate : Machine.activate s below c = ⟨s, below, .returning .fail⟩ := by
    simp only [Machine.activate, hended]
  rw [hactivate]
  constructor
  · rintro ⟨q, hrun⟩
    obtain ⟨y, hserial, -⟩ := h.run hrun
    cases hserial with
    | step hask hserial =>
        cases hask with
        | askEnded =>
            cases hserial with
            | step hanswer _ =>
                cases hanswer with
                | answer => exact ⟨_, rfl, rfl⟩
  · rintro ⟨control, hcontrol, hdelivery⟩
    cases hcontrol
    cases hdelivery
    obtain ⟨q, hq, -⟩ := h.realizes_run hroom (.step .askEnded (.single .answer))
    exact ⟨q, hq⟩

/-- What holds of the parties at any time. -/
structure Sound (c room : Nat) (es : List Event) (p : Parties) : Prop where
  orderly : Orderly p
  /-- Activations are answered in their order, each once. -/
  asked : es.filterMap Event.asked? = List.range p.count
  answered : ∃ k, es.filterMap Event.answered? = List.range k ∧ k ≤ p.count ∧ p.count ≤ k + 1 ∧
    (p.holder = .free → k = p.count)
  /-- While some holder has the lock, the parties can go on, unless the body is at work. -/
  advances : p.holder ≠ .free →
    (∃ e q, Step c room p e q ∧ isInner e = true) ∨
      (∀ s, ∃ t q, Step c room p (some (.resumed s t)) q) ∨
      ∃ n stack control, p.task = .works n stack control ∧ p.holder = .awaits n
  /-- They do so for so many steps at most. -/
  bounded : ∀ e q, Step c room p e q → isInner e = true → q.measure < p.measure
  /-- When the link has been finished, the body makes no step any more, and later activations fail. -/
  silent : p.link.exhausted = true → ∀ fs q, Run c room p fs q →
    ∀ e ∈ fs, e.isWork = false ∧ ∀ n d, e = .answered n d → p.count ≤ n → d = .failure
  /-- Then the task ends. -/
  ends : p.link.exhausted = true → p.task = .gone ∨ ∃ q, Step c room p none q ∧ q.task.rank < p.task.rank

theorem sound_of_run
    {b : Place}
    (hroom : 0 < room)
    (hrun : Run c room (.new b) es p) :
    Sound c room es p := by
  obtain ⟨z, hserial, hmirrors⟩ := (mirrors_new b).run hrun
  obtain ⟨hnumbered, hasked, hanswered⟩ := hserial.numbers trivial
  have hcount := hmirrors.count_eq
  have horderly := hmirrors.orderly
  refine ⟨horderly, ?_, ⟨z.settled, hanswered, ?_⟩, fun hbusy => hmirrors.advances c hroom hbusy, ?_, ?_, ?_⟩
  · rw [← hcount]
    exact hasked
  · rw [← hcount]
    exact ⟨hnumbered.settled_le, hnumbered.count_le, hmirrors.settled_of_free⟩
  · exact fun e q hstep he => measure_lt_of_step hstep he
  · intro hexhausted fs q hlater
    obtain ⟨y, hy, -⟩ := hmirrors.run hlater
    exact hy.spent (hmirrors.isSpent hnumbered hexhausted)
  · intro hexhausted
    obtain ⟨hasking, hrequests, hresults, hquiet⟩ := horderly.finished hexhausted
    obtain ⟨qs, rs, l, h, t, k⟩ := p
    cases hrequests
    cases hresults
    rcases step_of_isQuiet hasking hquiet with hgone | ⟨t', hstep, hrank⟩
    · exact Or.inl hgone
    · exact Or.inr ⟨_, hstep, hrank⟩

/-- For every interleaving of the steps of the task, of activations and of closes, with any room for results: at most
one request or result is on its way, and it is for the activation that waits; what the task puts in finds the queue
empty; what an activation finds answers its own request; activations are answered, one after the other; and once the
link is finished the body makes no step, and the task ends.  What is seen of the parties is what is seen of the
sequential machine, whatever the room; and the answers are those of the machine, which runs the body within
the activation. -/
theorem interleavings_serial
    {c room : Nat}
    (hroom : 0 < room)
    (b : Place) :
    (∀ es p, Run c room (.new b) es p → Sound c room es p) ∧
    (∀ es, (∃ p, Run c room (.new b) es p) ↔ ∃ z, Serial.Run c (.new b) es z) ∧
    (∀ (es : List Event) (p : Parties) (b' : Place) (s t : Store) (d : Delivery) (below : List Context),
      Run c room (.new b) es p → p.holder = .free → p.link.exhausted = false → p.task = .waits b' →
      place? s c = some b' →
      ((∃ r work q, Alone r work t ∧
          Run c room p (.asked p.count :: .resumed s r :: (work ++ [.answered p.count d])) q) ↔
        ∃ j control, Machine.step^[j] (Machine.activate s below c) = ⟨t, below, control⟩ ∧
          (∀ i < j, (.consuming c :: below) <:+ (Machine.step^[i] (Machine.activate s below c)).stack) ∧
          delivery? control = some d)) ∧
    ∀ (es : List Event) (p : Parties) (s : Store) (d : Delivery) (below : List Context),
      Run c room (.new b) es p → p.holder = .free →
      (p.link.exhausted = true ∨ p.task.isLeaving = true) → s.producer c = .ended →
      ((∃ q, Run c room p [.asked p.count, .answered p.count d] q) ↔
        ∃ control, Machine.activate s below c = ⟨s, below, control⟩ ∧ delivery? control = some d) := by
  have hnew := mirrors_new b
  refine ⟨fun es p => sound_of_run hroom, ?_, ?_, ?_⟩
  · intro es
    constructor
    · rintro ⟨p, hrun⟩
      obtain ⟨z, hz, -⟩ := hnew.run hrun
      exact ⟨z, hz⟩
    · rintro ⟨z, hrun⟩
      obtain ⟨p, hp, -⟩ := hnew.realizes_run hroom hrun
      exact ⟨p, hp⟩
  · intro es p b' s t d below hrun hfree hexhausted htask hplace
    obtain ⟨z, -, hmirrors⟩ := hnew.run hrun
    exact activation_iff (hmirrors.of_resting hfree hexhausted htask) hroom hplace below
  · intro es p s d below hrun hfree hended hproducer
    obtain ⟨z, -, hmirrors⟩ := hnew.run hrun
    exact refusal_iff (hmirrors.of_ended hfree hended) hroom hproducer below

/-- A procedure with a co-expression that hands over one value. -/
def single : Ir.Procedure where
  name := "single"
  namespaceName := ""
  params := []
  locals := []
  statics := []
  variadic := false
  temps := 2
  entry := "start"
  chunks :=
    [⟨"start", [.create 0 "body", .fail]⟩, ⟨"body", [.literal 1 (.text "a"), .produce 1 "end"]⟩,
      ⟨"end", [.exhaust]⟩]
  deps := []

/-- The store in which the procedure has created the co-expression. -/
def created : Store :=
  ((Machine.call ((Program.new 1).link ⟨[single], [], []⟩).2.store [] Program.rootEnvironment
    (.procedure Builtin.all.length) [] []).run 1).store

/-- The text that an activation gets. -/
def text? : Delivery → Option String
  | .value (.text s) => some s
  | _ => none

/-- Nothing but the consumer of the co-expression is on the stack. -/
def isBottom (c : Nat) : List Context → Bool
  | [.consuming id] => id == c
  | _ => false

theorem eq_of_isBottom
    (h : isBottom c stack = true) :
    stack = [.consuming c] := by
  unfold isBottom at h
  split at h
  · rw [beq_iff_eq] at h
    rw [h]
  · cases h

/-- With room for three results, the first activation gets the value of the body. -/
theorem interleavings_serial_single :
    place? created 1 = some ⟨1, "body"⟩ ∧
    ∃ (r t : Store) (work : List Event) (d : Delivery) (q : Parties),
      Alone r work t ∧ text? d = some "a" ∧
      Run 1 3 (.new ⟨1, "body"⟩) (.asked 0 :: .resumed created r :: (work ++ [.answered 0 d])) q ∧
      Orderly q := by
  have hplace : place? created 1 = some ⟨1, "body"⟩ := by decide +kernel
  obtain ⟨hsound, -, hanswers, -⟩ := interleavings_serial (c := 1) (show 0 < 3 by decide) ⟨1, "body"⟩
  have hwithin : ∀ i < 2, [.consuming 1] <:+ (Machine.step^[i] (Machine.activate created [] 1)).stack := by
    intro i hi
    have hbottom : ∀ i < 2, isBottom 1 (Machine.step^[i] (Machine.activate created [] 1)).stack = true := by
      decide +kernel
    exact ⟨[], (eq_of_isBottom (hbottom i hi)).symm⟩
  have hstack : (Machine.step^[2] (Machine.activate created [] 1)).stack = [] := by
    rw [← List.isEmpty_iff]
    decide +kernel
  have htext : ((delivery? (Machine.step^[2] (Machine.activate created [] 1)).control).bind text?) = some "a" := by
    decide +kernel
  generalize hm : Machine.step^[2] (Machine.activate created [] 1) = m at hstack htext
  obtain ⟨t, stack, control⟩ := m
  cases hstack
  obtain ⟨d, hd, htext⟩ := Option.bind_eq_some_iff.mp htext
  obtain ⟨r, work, q, halone, hrun⟩ :=
    (hanswers [] (.new ⟨1, "body"⟩) ⟨1, "body"⟩ created t d [] (.refl _) rfl rfl rfl hplace).mpr
      ⟨2, control, hm, hwithin, hd⟩
  exact ⟨hplace, r, t, work, d, q, halone, htext, hrun, (hsound _ q hrun).orderly⟩

end Interleaving

end Rendezvous
end GoalDirected
