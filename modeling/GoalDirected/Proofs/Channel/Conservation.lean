import GoalDirected.Proofs.Select.Choice
import Mathlib.Logic.Basic

/-!
# What channels conserve

**Input.** A channel, and a sequence of operations on it that do not wait: sends and receives through the
library, receives through the operator `@`, selects with any cases, and closes.  Anything may happen in
between that leaves the channel alone.

**Argument.** `Does` says what one operation makes of the channel and what it is answered with.  Everything
else is read off it: values leave in the order in which they have come, and closing is final.

**Results.**
* `channel_conserved`: what has been sent is what has been received, followed by what is still queued; the
  queue is never longer than the capacity; and a closed channel refuses values, hands out what it has, and
  then has nothing for ever.
-/

namespace GoalDirected
namespace Channel

section Conservation

/-! ## Operations -/

/-- An operation on a channel. A select may have cases of other channels too. -/
inductive Deal where
  | send (v : Value)
  | receive
  | activate
  | select (waits : List WaitCase)
  | close

/-- What an operation is answered with. -/
inductive Response where
  | answer (a : Answer)
  | choice (c : Choice)

/-- The operation would have to wait, or stops the program. -/
def Response.isHalt : Response → Bool
  | .answer (.reply (.halt _)) => true
  | .choice .blocked => true
  | _ => false

/-- A reply of the library as a response. -/
def Response.ofReply (r : Reply) : Response :=
  .answer (.reply r)

/-- Carries out an operation on the channel with a given number. -/
def Deal.run (s : Store) (id : Nat) : Deal → Response × Store
  | .send v =>
      let (r, s) := s.builtin .send [.channel id, v]
      (.ofReply r, s)
  | .receive =>
      let (r, s) := s.builtin .receive [.channel id]
      (.ofReply r, s)
  | .activate =>
      let (a, s) := s.invoke "@" [.channel id]
      (.answer a, s)
  | .select waits =>
      let (choice, s) := s.choose waits
      (.choice choice, s)
  | .close =>
      let (r, s) := s.builtin .close [.channel id]
      (.ofReply r, s)

/-- The two numbers stand for the same channel. -/
def IsSame (id other : Nat) : Prop :=
  other - 1 = id - 1

instance (id other : Nat) : Decidable (IsSame id other) :=
  inferInstanceAs (Decidable (_ = _))

/-- The value that the channel has got by an operation. -/
def sent? (id : Nat) : Deal × Response → Option Value
  | (.send v, .answer (.reply (.outcome (.result _)))) => some v
  | (.select waits, .choice (.chosen i _)) =>
      match waits[i]? with
      | some (.send other v) => if IsSame id other then some v else none
      | _ => none
  | _ => none

/-- The value that an operation has got from the channel. -/
def received? (id : Nat) : Deal × Response → Option Value
  | (.receive, .answer (.reply (.outcome o))) => o.value?
  | (.activate, .answer (.reply (.outcome o))) => o.value?
  | (.select waits, .choice (.chosen i received)) =>
      match waits[i]? with
      | some (.receive other) => if IsSame id other then received else none
      | _ => none
  | _ => none

/-- The values sent, in order. -/
def sent (id : Nat) (log : List (Deal × Response)) : List Value :=
  log.filterMap (sent? id)

/-- The values received, in order. -/
def received (id : Nat) (log : List (Deal × Response)) : List Value :=
  log.filterMap (received? id)

/-- Operations on a channel with their responses, none of which has to wait. -/
inductive History (id : Nat) : Store → List (Deal × Response) → Store → Prop
  | start (s : Store) : History id s [] s
  | deal
      {s t u : Store} {log : List (Deal × Response)} {d : Deal} {r : Response}
      (hbefore : History id s log t)
      (hrun : d.run t id = (r, u))
      (hproceeds : r.isHalt = false) :
      History id s (log ++ [(d, r)]) u
  /-- Something that leaves the channel alone. -/
  | other
      {s t u : Store} {log : List (Deal × Response)}
      (hbefore : History id s log t)
      (hsame : u.channel? id = t.channel? id) :
      History id s log u

/-! ## One operation -/

/-- The operation takes a value out of the channel and does nothing else. -/
def Deal.isTake : Deal → Bool
  | .receive => true
  | .activate => true
  | _ => false

theorem Deal.eq_of_isTake
    {d : Deal}
    (h : d.isTake = true) :
    d = .receive ∨ d = .activate := by
  cases d with
  | receive => exact Or.inl rfl
  | activate => exact Or.inr rfl
  | send v => cases h
  | select waits => cases h
  | close => cases h

/-- The select has chosen a case of another channel, a default, or nothing. -/
def Passes (id : Nat) (waits : List WaitCase) (choice : Choice) : Prop :=
  ∀ i received other, choice = .chosen i received →
    waits[i]?.bind WaitCase.channel? = some other → ¬ IsSame id other

/-- What an operation makes of channel `c`, and what it is answered with. -/
inductive Does (id : Nat) (c : Channel) : Deal → Response → Channel → Prop
  | send
      (v : Value)
      (hopen : c.closed = false)
      (hroom : c.queue.length < c.capacity) :
      Does id c (.send v) (.ofReply (.outcome (.result v))) { c with queue := c.queue ++ [v] }
  | refuse
      (v : Value)
      (hclosed : c.closed = true) :
      Does id c (.send v) (.ofReply (.fault (.exception .sendOnClosed []))) c
  | take
      {d : Deal} {v : Value} {rest : List Value}
      (htake : d.isTake = true)
      (hqueue : c.queue = v :: rest) :
      Does id c d (.ofReply (.outcome (.result v))) { c with queue := rest }
  | drained
      {d : Deal}
      (htake : d.isTake = true)
      (hqueue : c.queue = [])
      (hclosed : c.closed = true) :
      Does id c d (.ofReply (.outcome .fail)) c
  | selectSend
      {waits : List WaitCase} {i other : Nat} {v : Value}
      (hcase : waits[i]? = some (.send other v))
      (hsame : IsSame id other)
      (hopen : c.closed = false)
      (hroom : c.queue.length < c.capacity) :
      Does id c (.select waits) (.choice (.chosen i none)) { c with queue := c.queue ++ [v] }
  | selectReceive
      {waits : List WaitCase} {i other : Nat} {v : Value} {rest : List Value}
      (hcase : waits[i]? = some (.receive other))
      (hsame : IsSame id other)
      (hqueue : c.queue = v :: rest) :
      Does id c (.select waits) (.choice (.chosen i (some v))) { c with queue := rest }
  | selectOther
      {waits : List WaitCase} {choice : Choice}
      (hpasses : Passes id waits choice) :
      Does id c (.select waits) (.choice choice) c
  | close :
      Does id c .close (.ofReply (.outcome (.result (.channel id)))) { c with closed := true }

variable {s t : Store} {id : Nat} {c : Channel}

theorem channel?_setChannel
    (h : s.channel? id = some c)
    (d : Channel) {other : Nat}
    (hsame : IsSame id other) :
    (s.setChannel other d).channel? id = some d := by
  obtain ⟨hlt, -⟩ := Array.getElem?_eq_some_iff.mp h
  simp only [IsSame] at hsame
  simp [Store.channel?, Store.setChannel, hsame, hlt]

theorem channel?_of_isSame
    {other : Nat}
    (hsame : IsSame id other) :
    s.channel? other = s.channel? id := by
  simp only [IsSame] at hsame
  simp only [Store.channel?, hsame]

/-- A send through the library. -/
theorem does_send
    {r : Response} {v : Value}
    (h : s.channel? id = some c)
    (hrun : (Deal.send v).run s id = (r, t))
    (hproceeds : r.isHalt = false) :
    ∃ d, t.channel? id = some d ∧ Does id c (.send v) r d := by
  have hreply : (Deal.send v).run s id =
      match c.send v with
      | .done d => (.ofReply (.outcome (.result v)), s.setChannel id d)
      | .waits => (.ofReply (.halt .blocked), s)
      | .refused => (.ofReply (.fault (.exception .sendOnClosed [])), s) := by
    simp only [Deal.run, Store.builtin, Store.sendTo, List.getD_cons_zero, List.getD_cons_succ, h,
      Option.map_some]
    cases c.send v <;> rfl
  rw [hreply] at hrun
  unfold Channel.send at hrun
  by_cases hclosed : c.closed = true
  · rw [if_pos hclosed] at hrun
    cases hrun
    exact ⟨c, h, .refuse v hclosed⟩
  · by_cases hroom : c.queue.length < c.capacity
    · rw [if_neg hclosed, if_pos hroom] at hrun
      cases hrun
      exact ⟨_, channel?_setChannel h _ rfl, .send v (by simpa using hclosed) hroom⟩
    · rw [if_neg hclosed, if_neg hroom] at hrun
      cases hrun
      cases hproceeds

theorem lookup?_activate : Operator.lookup? "@" 1 = some ⟨"@", 1, [], .activate⟩ :=
  rfl

/-- The two ways to take a value out of a channel are the same. -/
theorem run_take
    {d : Deal}
    (htake : d.isTake = true) :
    d.run s id = (.ofReply (s.receiveFrom id).1, (s.receiveFrom id).2) := by
  rcases Deal.eq_of_isTake htake with rfl | rfl
  · rfl
  · have hderef : s.deref (.channel id) = .channel id := rfl
    simp only [Deal.run, Store.invoke, List.length_singleton, lookup?_activate, Store.operands]
    simp [Store.operate, hderef, Response.ofReply]

/-- A receive through the library or the operator. -/
theorem does_take
    {d : Deal} {r : Response}
    (htake : d.isTake = true)
    (h : s.channel? id = some c)
    (hrun : d.run s id = (r, t))
    (hproceeds : r.isHalt = false) :
    ∃ e, t.channel? id = some e ∧ Does id c d r e := by
  rw [run_take htake] at hrun
  cases hqueue : c.queue with
  | cons v rest =>
      simp only [Store.receiveFrom, h, Option.map_some, Channel.receive, hqueue] at hrun
      cases hrun
      exact ⟨_, channel?_setChannel h _ rfl, .take htake hqueue⟩
  | nil =>
      by_cases hclosed : c.closed = true
      · simp only [Store.receiveFrom, h, Option.map_some, Channel.receive, hqueue, hclosed, if_true] at hrun
        cases hrun
        exact ⟨c, h, .drained htake hqueue hclosed⟩
      · simp only [Store.receiveFrom, h, Option.map_some, Channel.receive, hqueue, hclosed] at hrun
        cases hrun
        cases hproceeds

theorem channels_eq_of_passes
    {waits : List WaitCase} {choice : Choice}
    (h : Selects s waits choice t)
    (hpasses : Passes id waits choice) :
    t.channel? id = s.channel? id := by
  refine h.channels_eq ?_
  intro i received other hchoice hcase hsame
  exact hpasses i received other hchoice hcase hsame.symm

/-- A select, whatever it has chosen. -/
theorem does_select
    {waits : List WaitCase} {r : Response}
    (h : s.channel? id = some c)
    (hrun : (Deal.select waits).run s id = (r, t))
    (hproceeds : r.isHalt = false) :
    ∃ d, t.channel? id = some d ∧ Does id c (.select waits) r d := by
  cases hchoose : s.choose waits with
  | mk choice u =>
      simp only [Deal.run, hchoose] at hrun
      cases hrun
      have hblocked : choice ≠ .blocked := by
        rintro rfl
        cases hproceeds
      have hselects := (Store.choose_eq_iff hblocked).mp hchoose
      by_cases hpasses : Passes id waits choice
      · exact ⟨c, (channels_eq_of_passes hselects hpasses).trans h, .selectOther hpasses⟩
      · -- The chosen case is one of this channel.
        simp only [Passes, not_forall, not_not] at hpasses
        obtain ⟨i, received, other, rfl, hchannel, hsame⟩ := hpasses
        have hother := channel?_of_isSame (s := s) hsame
        cases hselects with
        | default hnone hdefault hfirst =>
            rw [hdefault] at hchannel
            cases hchannel
        | ready hk hcase hbefore hhappens =>
            rw [hcase] at hchannel
            cases hhappens with
            | send v hd hopen hroom =>
                cases hchannel
                cases (hother.trans h).symm.trans hd
                exact ⟨_, channel?_setChannel h _ hsame, .selectSend hcase hsame hopen hroom⟩
            | receive hd hqueue =>
                cases hchannel
                cases (hother.trans h).symm.trans hd
                exact ⟨_, channel?_setChannel h _ hsame, .selectReceive hcase hsame hqueue⟩

/-- Every operation that does not wait does what `Does` says. -/
theorem does_run
    {d : Deal} {r : Response}
    (h : s.channel? id = some c)
    (hrun : d.run s id = (r, t))
    (hproceeds : r.isHalt = false) :
    ∃ e, t.channel? id = some e ∧ Does id c d r e := by
  cases d with
  | send v => exact does_send h hrun hproceeds
  | receive => exact does_take rfl h hrun hproceeds
  | activate => exact does_take rfl h hrun hproceeds
  | select waits => exact does_select h hrun hproceeds
  | close =>
      simp only [Deal.run, Store.builtin, Store.closeValue, List.getD_cons_zero, h] at hrun
      cases hrun
      exact ⟨_, channel?_setChannel h _ rfl, .close⟩

namespace Does

variable {d : Deal} {r : Response} {e : Channel}

theorem sent?_of_passes
    {waits : List WaitCase} {choice : Choice}
    (h : Passes id waits choice) :
    sent? id (.select waits, .choice choice) = none := by
  unfold sent?
  split
  · rename_i heq
    cases heq
  · rename_i i received heq
    cases heq
    split
    · rename_i other v hcase
      exact if_neg (h i received other rfl (by rw [hcase]; rfl))
    · rfl
  · rfl

theorem received?_of_passes
    {waits : List WaitCase} {choice : Choice}
    (h : Passes id waits choice) :
    received? id (.select waits, .choice choice) = none := by
  unfold received?
  split
  · rename_i heq
    cases heq
  · rename_i heq
    cases heq
  · rename_i i received heq
    cases heq
    split
    · rename_i other hcase
      exact if_neg (h i received other rfl (by rw [hcase]; rfl))
    · rfl
  · rfl

/-- Values are put at the end of the queue and taken from its head. -/
theorem values
    (h : Does id c d r e) :
    c.queue ++ (sent? id (d, r)).toList = (received? id (d, r)).toList ++ e.queue := by
  cases h with
  | send v hopen hroom => rfl
  | refuse v hclosed => simp [sent?, received?, Response.ofReply]
  | take htake hqueue =>
      rcases Deal.eq_of_isTake htake with rfl | rfl <;>
        simp [sent?, received?, Response.ofReply, Outcome.value?, hqueue]
  | drained htake hqueue hclosed =>
      rcases Deal.eq_of_isTake htake with rfl | rfl <;>
        simp [sent?, received?, Response.ofReply, Outcome.value?]
  | selectSend hcase hsame hopen hroom => simp [sent?, received?, hcase, hsame]
  | selectReceive hcase hsame hqueue => simp [sent?, received?, hcase, hsame, hqueue]
  | selectOther hpasses => simp [sent?_of_passes hpasses, received?_of_passes hpasses]
  | close => simp [sent?, received?]

theorem capacity
    (h : Does id c d r e) :
    e.capacity = c.capacity := by
  cases h <;> rfl

/-- A value is put into the queue only if there is room for it. -/
theorem length_le
    (h : Does id c d r e)
    (hc : c.queue.length ≤ c.capacity) :
    e.queue.length ≤ e.capacity := by
  cases h with
  | send v hopen hroom => simpa using Nat.succ_le_of_lt hroom
  | refuse v hclosed => exact hc
  | take htake hqueue =>
      rw [hqueue, List.length_cons] at hc
      exact Nat.le_of_succ_le hc
  | drained htake hqueue hclosed => exact hc
  | selectSend hcase hsame hopen hroom => simpa using Nat.succ_le_of_lt hroom
  | selectReceive hcase hsame hqueue =>
      rw [hqueue, List.length_cons] at hc
      exact Nat.le_of_succ_le hc
  | selectOther hpasses => exact hc
  | close => exact hc

/-- Only a close closes a channel, and nothing opens it again. -/
theorem closed_iff
    (h : Does id c d r e) :
    e.closed = true ↔ c.closed = true ∨ d = .close := by
  cases h with
  | take htake hqueue => rcases Deal.eq_of_isTake htake with rfl | rfl <;> simp
  | drained htake hqueue hclosed => simp [hclosed]
  | _ => simp

/-- A closed channel gets no more values. -/
theorem sent?_of_closed
    (h : Does id c d r e)
    (hclosed : c.closed = true) :
    sent? id (d, r) = none := by
  cases h with
  | send v hopen hroom => rw [hclosed] at hopen; cases hopen
  | refuse v hclosed => rfl
  | take htake hqueue => rcases Deal.eq_of_isTake htake with rfl | rfl <;> rfl
  | drained htake hqueue hclosed => rcases Deal.eq_of_isTake htake with rfl | rfl <;> rfl
  | selectSend hcase hsame hopen hroom => rw [hclosed] at hopen; cases hopen
  | selectReceive hcase hsame hqueue => simp [sent?, hcase]
  | selectOther hpasses => exact sent?_of_passes hpasses
  | close => rfl

end Does

/-! ## Closed channels -/

/-- What an operation on a closed channel with some values left is answered with. -/
inductive Closing (id : Nat) : List Value → Deal → Response → Prop
  | refused (left : List Value) (v : Value) :
      Closing id left (.send v) (.ofReply (.fault (.exception .sendOnClosed [])))
  | delivered
      {d : Deal} (v : Value) (left : List Value)
      (htake : d.isTake = true) :
      Closing id (v :: left) d (.ofReply (.outcome (.result v)))
  | exhausted
      {d : Deal}
      (htake : d.isTake = true) :
      Closing id [] d (.ofReply (.outcome .fail))
  /-- A select passes over every case that sends to the channel. -/
  | selected
      (left : List Value) {waits : List WaitCase} {choice : Choice}
      (hpasses : ∀ i received other v, choice = .chosen i received →
        waits[i]? = some (.send other v) → ¬ IsSame id other) :
      Closing id left (.select waits) (.choice choice)
  | closed (left : List Value) :
      Closing id left .close (.ofReply (.outcome (.result (.channel id))))

theorem Does.closing
    {d : Deal} {r : Response} {e : Channel}
    (h : Does id c d r e)
    (hclosed : c.closed = true) :
    Closing id c.queue d r := by
  cases h with
  | send v hopen hroom => rw [hclosed] at hopen; cases hopen
  | refuse v hclosed => exact .refused _ v
  | take htake hqueue => rw [hqueue]; exact .delivered _ _ htake
  | drained htake hqueue hclosed => rw [hqueue]; exact .exhausted htake
  | selectSend hcase hsame hopen hroom => rw [hclosed] at hopen; cases hopen
  | selectReceive hcase hsame hqueue =>
      refine .selected _ ?_
      intro i received other v hchoice hsend
      cases hchoice
      rw [hcase] at hsend
      cases hsend
  | selectOther hpasses =>
      refine .selected _ ?_
      intro i received other v hchoice hsend
      exact hpasses i received other hchoice (by rw [hsend]; rfl)
  | close => exact .closed _

/-! ## Histories -/

variable {log before after : List (Deal × Response)} {d : Deal} {r : Response}

/-- A history can be cut at any of its operations. -/
theorem History.split
    (h : History id s log t)
    (hlog : log = before ++ (d, r) :: after) :
    ∃ u v, History id s before u ∧ d.run u id = (r, v) ∧ r.isHalt = false ∧ History id v after t := by
  induction h generalizing after with
  | start => simp at hlog
  | @deal u v log d' r' hbefore hrun hproceeds ih =>
      rcases List.eq_nil_or_concat after with rfl | ⟨rest, last, hafter⟩
      · obtain ⟨rfl, hlast⟩ := List.append_inj' hlog rfl
        cases hlast
        exact ⟨u, v, hbefore, hrun, hproceeds, .start v⟩
      · rw [List.concat_eq_append] at hafter
        subst hafter
        have hcut : log ++ [(d', r')] = (before ++ (d, r) :: rest) ++ [last] := by
          simpa using hlog
        obtain ⟨rfl, hlast⟩ := List.append_inj' hcut rfl
        cases hlast
        obtain ⟨x, y, hx, hxy, hr, hy⟩ := ih rfl
        exact ⟨x, y, hx, hxy, hr, hy.deal hrun hproceeds⟩
  | other hbefore hsame ih =>
      obtain ⟨x, y, hx, hxy, hr, hy⟩ := ih hlog
      exact ⟨x, y, hx, hxy, hr, hy.other hsame⟩

/-- What a history makes of a channel, by what its operations do one after the other. -/
theorem History.conserves
    (h : History id s log t)
    (hc : s.channel? id = some c) :
    ∃ e, t.channel? id = some e ∧
      c.queue ++ sent id log = received id log ++ e.queue ∧
      e.capacity = c.capacity ∧
      (c.queue.length ≤ c.capacity → e.queue.length ≤ e.capacity) ∧
      (e.closed = true ↔ c.closed = true ∨ ∃ r, (Deal.close, r) ∈ log) := by
  induction h with
  | start => exact ⟨c, hc, by simp [sent, received], rfl, fun h => h, by simp⟩
  | @deal u v log d r hbefore hrun hproceeds ih =>
      obtain ⟨e, he, hvalues, hcapacity, hlength, hclosed⟩ := ih
      obtain ⟨e', he', hdoes⟩ := does_run he hrun hproceeds
      refine ⟨e', he', ?_, hdoes.capacity.trans hcapacity, fun h => hdoes.length_le (hlength h), ?_⟩
      · have hsent : sent id (log ++ [(d, r)]) = sent id log ++ (sent? id (d, r)).toList := by
          cases hs : sent? id (d, r) <;> simp [sent, hs]
        have hreceived : received id (log ++ [(d, r)]) =
            received id log ++ (received? id (d, r)).toList := by
          cases hs : received? id (d, r) <;> simp [received, hs]
        calc c.queue ++ sent id (log ++ [(d, r)])
            = (c.queue ++ sent id log) ++ (sent? id (d, r)).toList := by
              rw [hsent, List.append_assoc]
          _ = received id log ++ (e.queue ++ (sent? id (d, r)).toList) := by
              rw [hvalues, List.append_assoc]
          _ = received id (log ++ [(d, r)]) ++ e'.queue := by
              rw [hdoes.values, hreceived, List.append_assoc]
      · rw [hdoes.closed_iff, hclosed]
        simp only [List.mem_append, List.mem_singleton, Prod.mk.injEq, exists_or]
        constructor
        · rintro ((h | h) | rfl)
          · exact Or.inl h
          · exact Or.inr (Or.inl h)
          · exact Or.inr (Or.inr ⟨r, rfl, rfl⟩)
        · rintro (h | h | ⟨-, rfl, -⟩)
          · exact Or.inl (Or.inl h)
          · exact Or.inl (Or.inr h)
          · exact Or.inr rfl
  | other hbefore hsame ih =>
      obtain ⟨e, he, hrest⟩ := ih
      exact ⟨e, hsame.trans he, hrest⟩

/-- Every operation on a closed channel finds what was queued, less what has been received. -/
theorem History.closing
    (h : History id s log t)
    (hc : s.channel? id = some c)
    (hclosed : c.closed = true)
    (hlog : log = before ++ (d, r) :: after) :
    sent? id (d, r) = none ∧
      Closing id (c.queue.drop (received id before).length) d r := by
  -- Induction on the number of operations before: none of them has added to the queue.
  induction hn : before.length using Nat.strongRecOn generalizing before d r after with
  | ind n ih =>
      obtain ⟨u, v, hbefore, hrun, hproceeds, -⟩ := h.split hlog
      obtain ⟨e, he, hvalues, -, -, hstill⟩ := hbefore.conserves hc
      have hnone : sent id before = [] := by
        rw [sent, List.filterMap_eq_nil_iff]
        intro x hx
        obtain ⟨past, future, rfl⟩ := List.append_of_mem hx
        have hshorter : past.length < n := by
          rw [← hn]
          simp
        have hcut : log = past ++ (x.1, x.2) :: (future ++ (d, r) :: after) := by
          simpa using hlog
        exact (ih past.length hshorter hcut rfl).1
      have hqueue : c.queue.drop (received id before).length = e.queue := by
        rw [hnone, List.append_nil] at hvalues
        rw [hvalues, List.drop_left]
      obtain ⟨e', -, hdoes⟩ := does_run he hrun hproceeds
      have hclosed' := hstill.mpr (Or.inl hclosed)
      exact ⟨hdoes.sent?_of_closed hclosed', hqueue ▸ hdoes.closing hclosed'⟩

theorem channel?_of_newChannel
    {capacity : Nat}
    (h : s.newChannel capacity = (.channel id, t)) :
    t.channel? id = some (.new capacity) := by
  unfold Store.newChannel at h
  cases h
  simp [Store.channel?]

/-- A send on a closed channel changes nothing. -/
theorem run_send_of_closed
    (h : s.channel? id = some c)
    (hclosed : c.closed = true)
    (v : Value) :
    (Deal.send v).run s id = (.ofReply (.fault (.exception .sendOnClosed [])), s) := by
  simp [Deal.run, Store.builtin, Store.sendTo, h, Channel.send, hclosed]

/-- A closed channel never makes a receive wait. -/
theorem closing_take
    (h : s.channel? id = some c)
    (hclosed : c.closed = true)
    (htake : d.isTake = true) :
    Closing id c.queue d (d.run s id).1 := by
  rw [run_take htake]
  cases hqueue : c.queue with
  | cons v rest =>
      simp only [Store.receiveFrom, h, Option.map_some, Channel.receive, hqueue]
      exact .delivered v rest htake
  | nil =>
      simp only [Store.receiveFrom, h, Option.map_some, Channel.receive, hqueue, hclosed, if_true]
      exact .exhausted htake

/-- A channel conserves values.  What has been sent is what has been received, followed by what is still
queued, and the queue is never longer than the capacity.  It is closed as soon as a close has happened, and
from then on sends are refused without any effect, selects pass over their sends, and receives hand out what
was queued in its order, and after that fail. -/
theorem channel_conserved
    {s t u : Store} {capacity id : Nat} {log : List (Deal × Response)}
    (hnew : s.newChannel capacity = (.channel id, t))
    (h : History id t log u) :
    ∃ e, u.channel? id = some e ∧
      sent id log = received id log ++ e.queue ∧
      e.queue.length ≤ max 1 capacity ∧
      (e.closed = true ↔ ∃ r, (Deal.close, r) ∈ log) ∧
      (e.closed = true → ∀ v, (Deal.send v).run u id =
        (.ofReply (.fault (.exception .sendOnClosed [])), u)) ∧
      (e.closed = true → ∀ d, d.isTake = true → Closing id e.queue d (d.run u id).1) ∧
      ∀ before r after, log = before ++ (.close, r) :: after →
        sent id after = [] ∧
        ∃ queued, sent id before = received id before ++ queued ∧
          ∀ past d r' future, after = past ++ (d, r') :: future →
            Closing id (queued.drop (received id past).length) d r' := by
  have hc := channel?_of_newChannel hnew
  obtain ⟨e, he, hvalues, hcapacity, hlength, hclosed⟩ := h.conserves hc
  have hbound : e.queue.length ≤ e.capacity := hlength (Nat.zero_le _)
  rw [hcapacity] at hbound
  refine ⟨e, he, hvalues, hbound, ?_, run_send_of_closed he, fun hclosed d => closing_take he hclosed, ?_⟩
  · rw [hclosed]
    simp [Channel.new]
  · intro before r after hlog
    obtain ⟨x, y, hbefore, hrun, hproceeds, hafter⟩ := h.split hlog
    obtain ⟨e₁, he₁, hvalues₁, -⟩ := hbefore.conserves hc
    obtain ⟨e₂, he₂, hdoes⟩ := does_run he₁ hrun hproceeds
    have hclosed₂ : e₂.closed = true := hdoes.closed_iff.mpr (Or.inr rfl)
    have hqueue : e₁.queue = e₂.queue := by
      cases hdoes with
      | take htake hqueue => cases htake
      | drained htake hqueue hclosed => rfl
      | close => rfl
    refine ⟨?_, e₁.queue, hvalues₁, ?_⟩
    · rw [sent, List.filterMap_eq_nil_iff]
      intro x hx
      obtain ⟨past, future, hsplit⟩ := List.append_of_mem hx
      exact (hafter.closing he₂ hclosed₂ hsplit).1
    · intro past d r' future hsplit
      rw [hqueue]
      exact (hafter.closing he₂ hclosed₂ hsplit).2

/-- Two values go in, by the library and by a select; after a close they come out, by both ways to take them. -/
def crossing : List (Deal × Response) :=
  [(.send (.text "a"), .ofReply (.outcome (.result (.text "a")))),
    (.select [.send 1 (.text "b")], .choice (.chosen 0 none)),
    (.close, .ofReply (.outcome (.result (.channel 1)))),
    (.send (.text "c"), .ofReply (.fault (.exception .sendOnClosed []))),
    (.receive, .ofReply (.outcome (.result (.text "a")))),
    (.activate, .ofReply (.outcome (.result (.text "b")))),
    (.receive, .ofReply (.outcome .fail))]

theorem channel_conserved_crossing :
    ∃ (u : Store) (e : Channel), History 1 (({} : Store).newChannel 2).2 crossing u ∧
      u.channel? 1 = some e ∧ sent 1 crossing = received 1 crossing ++ e.queue ∧ e.closed = true := by
  have h : ∃ u, History 1 (({} : Store).newChannel 2).2 crossing u :=
    ⟨_, .deal (.deal (.deal (.deal (.deal (.deal (.deal (.start _) rfl rfl) rfl rfl) rfl rfl) rfl rfl)
      rfl rfl) rfl rfl) rfl rfl⟩
  obtain ⟨u, hu⟩ := h
  have hnew : ({} : Store).newChannel 2 = (.channel 1, (({} : Store).newChannel 2).2) := rfl
  obtain ⟨e, he, hvalues, -, hclosed, -⟩ := channel_conserved hnew hu
  have hclose : ∃ r, (Deal.close, r) ∈ crossing := ⟨_, .tail _ (.tail _ (.head _))⟩
  exact ⟨u, e, hu, he, hvalues, hclosed.mpr hclose⟩

end Conservation

end Channel
end GoalDirected
