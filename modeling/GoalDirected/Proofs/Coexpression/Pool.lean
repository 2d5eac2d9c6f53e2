import GoalDirected.Proofs.Coexpression.Shifts
import GoalDirected.Proofs.Program.Linking
import Mathlib.Data.List.Nodup
import Mathlib.Data.List.Perm.Subperm
import Mathlib.Logic.Function.Iterate

/-!
# The balance of the pool

**Input.** A session that has started with a new program, with the co-expressions that have been created, that have
ended, and that have given their places back on its way.  Beside the moves of the session, `Tends` has what its
threads do by themselves: tasks that are over give places back, and handles are dropped.

**Argument.** `Balanced` ties the pool to what has happened before.  Every consumer on the stack waits for a
body that runs, and no two for the same, so no co-expression ends twice.

**Results.**
* `Balanced.shift`, `leaves_move`: every shift keeps the balance, and every move of a session is a shift.
* `Balanced.tend`: so does whatever happens beside the moves.
* `pool_balanced`: the number of places taken is that of the co-expressions created less that of the places given
  back, and is never beyond the limit; numbers are given out one after the other; and at the limit nothing is
  created.
-/

namespace GoalDirected

section Pool

/-! ## Balance -/

namespace Pool

open Session

/-- The pool is in balance with what has happened, while some co-expressions run. -/
structure Balanced (maxTasks : Nat) (es : List Event) (s : Store) (ids : List Nat) : Prop where
  limit : s.limit = max 1 maxTasks
  bounded : s.active ≤ s.limit
  numbers : created es = List.range' 1 s.producers.size
  count : s.active + (released es).length = s.producers.size
  back : ∀ id ∈ released es, id ∈ ended es
  single : (released es).Nodup
  once : (ended es ++ lost es).Nodup
  gone : ∀ id, id ∈ ended es ++ lost es ↔ (0 < id ∧ id ≤ s.producers.size) ∧ s.producer id = .ended
  running : ∀ id ∈ ids, s.producer id = .running
  distinct : ids.Nodup

variable {maxTasks id : Nat} {es : List Event} {s t : Store} {ids : List Nat}

theorem Balanced.of_pool
    (h : Balanced maxTasks es s ids)
    (hpool : t.pool = s.pool) :
    Balanced maxTasks es t ids := by
  have hproducers : t.producers = s.producers := congrArg Places.producers hpool
  have hactive : t.active = s.active := congrArg Places.active hpool
  have hlimit : t.limit = s.limit := congrArg Places.limit hpool
  have hproducer := Store.producer_of_pool hpool
  refine ⟨?_, ?_, ?_, ?_, h.back, h.single, h.once, ?_, ?_, h.distinct⟩
  · rw [hlimit]
    exact h.limit
  · rw [hactive, hlimit]
    exact h.bounded
  · rw [hproducers]
    exact h.numbers
  · rw [hactive, hproducers]
    exact h.count
  · intro id
    rw [hproducers, hproducer]
    exact h.gone id
  · intro id hid
    rw [hproducer]
    exact h.running id hid

/-- A co-expression that has not ended is not among those that have. -/
theorem Balanced.not_mem
    (h : Balanced maxTasks es s ids)
    (hlive : s.producer id ≠ .ended) :
    id ∉ ended es ++ lost es :=
  fun hmem => hlive ((h.gone id).mp hmem).2

/-- Co-expressions that have ended, and have not given their places back, still take them. -/
theorem Balanced.length_le_active
    {late : List Nat}
    (h : Balanced maxTasks es s ids)
    (hdistinct : late.Nodup)
    (hgone : late ⊆ ended es ++ lost es)
    (hlate : ∀ id ∈ late, id ∉ released es) :
    late.length ≤ s.active := by
  have hnodup : (late ++ released es).Nodup :=
    hdistinct.append h.single fun id hid hreleased => hlate id hid hreleased
  have hsubset : late ++ released es ⊆ List.range' 1 s.producers.size := by
    intro id hid
    have hover : id ∈ ended es ++ lost es := by
      rcases List.mem_append.mp hid with hid | hid
      · exact hgone hid
      · exact List.mem_append_left _ (h.back id hid)
    have hnumber := ((h.gone id).mp hover).1
    rw [List.mem_range'_1]
    omega
  have hlength := (List.subperm_of_subset hnodup hsubset).length_le
  have hcount := h.count
  simp only [List.length_append, List.length_range'] at hlength
  omega

/-- The co-expressions that run stay so when another one changes its state. -/
theorem Balanced.running_setProducer
    {inner : List Nat}
    (h : Balanced maxTasks es s ids)
    (hinner : ∀ other ∈ inner, other ∈ ids ∧ other ≠ id)
    (p : Producer) :
    ∀ other ∈ inner, (s.setProducer id p).producer other = .running := by
  intro other hother
  obtain ⟨hmem, hne⟩ := hinner other hother
  rw [Store.producer_setProducer_of_ne s p hne]
  exact h.running other hmem

/-- A live co-expression changes its state without coming to its end. -/
theorem Balanced.setProducer
    {p : Producer} {inner : List Nat}
    (h : Balanced maxTasks es s ids)
    (hlive : s.producer id ≠ .ended)
    (hp : p ≠ .ended)
    (hrunning : ∀ other ∈ inner, (s.setProducer id p).producer other = .running)
    (hdistinct : inner.Nodup) :
    Balanced maxTasks es (s.setProducer id p) inner := by
  have hsize := s.size_producers_setProducer id p
  refine ⟨?_, ?_, ?_, ?_, h.back, h.single, h.once, ?_, hrunning, hdistinct⟩
  · rw [Store.limit_setProducer]
    exact h.limit
  · rw [Store.active_setProducer, Store.limit_setProducer]
    exact h.bounded
  · rw [hsize]
    exact h.numbers
  · rw [Store.active_setProducer, hsize]
    exact h.count
  · intro other
    rw [h.gone other, hsize]
    by_cases hother : other = id
    · subst hother
      rw [Store.producer_setProducer_self (Store.number_of_ne_ended hlive)]
      exact ⟨fun hended => absurd hended.2 hlive, fun hended => absurd hended.2 hp⟩
    · rw [Store.producer_setProducer_of_ne s p hother]

/-- Those that have ended when one more ends. -/
theorem Balanced.gone_setProducer
    (h : Balanced maxTasks es s ids)
    (hlive : s.producer id ≠ .ended)
    (other : Nat) :
    other = id ∨ other ∈ ended es ++ lost es ↔
      (0 < other ∧ other ≤ (s.setProducer id .ended).producers.size) ∧
        (s.setProducer id .ended).producer other = .ended := by
  rw [h.gone other, s.size_producers_setProducer]
  by_cases hother : other = id
  · subst hother
    have hnumber := Store.number_of_ne_ended hlive
    rw [Store.producer_setProducer_self hnumber]
    exact ⟨fun _ => ⟨hnumber, rfl⟩, fun _ => Or.inl rfl⟩
  · rw [Store.producer_setProducer_of_ne s _ hother]
    exact ⟨fun hended => hended.resolve_left hother, Or.inr⟩

/-- One more co-expression has ended, with its place or without. -/
theorem perm_over
    {e : Event}
    (he : e = .ended id ∨ e = .lost id)
    (es : List Event) :
    (ended (es ++ [e]) ++ lost (es ++ [e])).Perm (id :: (ended es ++ lost es)) := by
  rcases he with rfl | rfl
  · have hended : ended (es ++ [.ended id]) = ended es ++ [id] := by simp [ended, Event.ended?]
    have hlost : lost (es ++ [.ended id]) = lost es := by simp [lost, Event.lost?]
    rw [hended, hlost, List.append_assoc, List.singleton_append]
    exact List.perm_middle
  · have hended : ended (es ++ [.lost id]) = ended es := by simp [ended, Event.ended?]
    have hlost : lost (es ++ [.lost id]) = lost es ++ [id] := by simp [lost, Event.lost?]
    rw [hended, hlost, ← List.append_assoc]
    exact List.perm_append_singleton id _

/-- A live co-expression ends.  Its place is still taken. -/
theorem Balanced.over
    {e : Event} {inner : List Nat}
    (h : Balanced maxTasks es s ids)
    (he : e = .ended id ∨ e = .lost id)
    (hlive : s.producer id ≠ .ended)
    (hinner : ∀ other ∈ inner, other ∈ ids ∧ other ≠ id)
    (hdistinct : inner.Nodup) :
    Balanced maxTasks (es ++ [e]) (s.setProducer id .ended) inner := by
  have hsize := s.size_producers_setProducer id .ended
  have hactive := s.active_setProducer id .ended
  have hlimit := s.limit_setProducer id .ended
  have hreleased : released (es ++ [e]) = released es := by
    rcases he with rfl | rfl <;> simp [released, Event.released?]
  have hcreated : created (es ++ [e]) = created es := by
    rcases he with rfl | rfl <;> simp [created, Event.created?]
  have hended : ended es ⊆ ended (es ++ [e]) := by
    rw [ended, ended, List.filterMap_append]
    exact List.subset_append_left _ _
  have hperm := perm_over he es
  refine ⟨hlimit.trans h.limit, ?_, ?_, ?_, ?_, ?_, ?_, ?_, h.running_setProducer hinner .ended, hdistinct⟩
  · rw [hactive, hlimit]
    exact h.bounded
  · rw [hcreated, hsize]
    exact h.numbers
  · rw [hreleased, hactive, hsize]
    exact h.count
  · rw [hreleased]
    exact fun id hid => hended (h.back id hid)
  · rw [hreleased]
    exact h.single
  · exact hperm.nodup_iff.mpr (List.nodup_cons.mpr ⟨h.not_mem hlive, h.once⟩)
  · intro other
    rw [hperm.mem_iff, List.mem_cons]
    exact h.gone_setProducer hlive other

/-- The task of a co-expression that has ended is over, and gives its place back. -/
theorem Balanced.release
    (h : Balanced maxTasks es s ids)
    (hended : id ∈ ended es)
    (hlate : id ∉ released es) :
    Balanced maxTasks (es ++ [.released id]) s.release ids := by
  have hpos : [id].length ≤ s.active := by
    refine h.length_le_active (List.nodup_singleton id) ?_ ?_
    · exact List.cons_subset.mpr ⟨List.mem_append_left _ hended, List.nil_subset _⟩
    · intro other hother
      rwa [List.mem_singleton.mp hother]
  have hbounded := h.bounded
  have hcount := h.count
  have hactive : s.release.active = s.active - 1 := rfl
  have hproducer : s.release.producer = s.producer := by
    funext other
    cases other <;> rfl
  have hreleased : released (es ++ [.released id]) = released es ++ [id] := by simp [released, Event.released?]
  have hkept : ended (es ++ [.released id]) = ended es := by simp [ended, Event.ended?]
  have hlost : lost (es ++ [.released id]) = lost es := by simp [lost, Event.lost?]
  have hcreated : created (es ++ [.released id]) = created es := by simp [created, Event.created?]
  refine ⟨h.limit, Nat.le_trans (Nat.sub_le _ _) hbounded, ?_, ?_, ?_, ?_, ?_, ?_, ?_, h.distinct⟩
  · rw [hcreated]
    exact h.numbers
  · rw [hreleased, hactive, List.length_append, List.length_singleton]
    rw [List.length_singleton] at hpos
    change _ = s.producers.size
    omega
  · rw [hreleased, hkept]
    intro other hother
    rcases List.mem_append.mp hother with hother | hother
    · exact h.back other hother
    · rwa [List.mem_singleton.mp hother]
  · rw [hreleased]
    exact List.nodup_append.mpr ⟨h.single, List.nodup_singleton id, by
      rintro other hother _ hid rfl
      exact hlate (List.mem_singleton.mp hid ▸ hother)⟩
  · rw [hkept, hlost]
    exact h.once
  · intro other
    rw [hkept, hlost, hproducer]
    exact h.gone other
  · rw [hproducer]
    exact h.running

/-- A live co-expression ends.  If its task is prompt, its place is given back. -/
theorem Balanced.finish
    {inner : List Nat}
    (h : Balanced maxTasks es s ids)
    (hlive : s.producer id ≠ .ended)
    (hinner : ∀ other ∈ inner, other ∈ ids ∧ other ≠ id)
    (hdistinct : inner.Nodup) :
    Balanced maxTasks (es ++ endings s id) (s.endProducer id) inner := by
  have hover := h.over (Or.inl rfl) hlive hinner hdistinct
  have hactive := s.active_setProducer id .ended
  cases hprompt : s.prompt with
  | false =>
      have hpool : (s.endProducer id).pool = (s.setProducer id .ended).pool := by
        simp [Store.endProducer, Store.pool, hprompt, hactive]
      simp only [endings, hprompt, Bool.false_eq_true, if_false]
      exact hover.of_pool hpool
  | true =>
      have hpool : (s.endProducer id).pool = (s.setProducer id .ended).release.pool := by
        simp [Store.endProducer, Store.release, Store.pool, hprompt, hactive]
      have hended : id ∈ ended (es ++ [.ended id]) := by simp [ended, Event.ended?]
      have hlate : id ∉ released (es ++ [.ended id]) := by
        intro hreleased
        have hmem : id ∈ released es := by simpa [released, Event.released?] using hreleased
        exact h.not_mem hlive (List.mem_append_left _ (h.back id hmem))
      have hreleased := hover.release hended hlate
      rw [List.append_assoc] at hreleased
      simp only [endings, hprompt, if_true]
      exact hreleased.of_pool hpool

/-- A new co-expression takes a place, and gets the next number. -/
theorem Balanced.create
    {frame : Nat} {entry : Ir.Label}
    (h : Balanced maxTasks es s ids)
    (hfree : s.active < s.limit)
    (hpool : t.pool = ⟨s.producers.push (.fresh frame entry), s.active + 1, s.limit, s.prompt⟩) :
    Balanced maxTasks (es ++ [.created (s.producers.size + 1)]) t ids := by
  have hproducers : t.producers = s.producers.push (.fresh frame entry) := congrArg Places.producers hpool
  have hactive : t.active = s.active + 1 := congrArg Places.active hpool
  have hlimit : t.limit = s.limit := congrArg Places.limit hpool
  have hsize : t.producers.size = s.producers.size + 1 := by simp [hproducers]
  have hkept : ∀ id, id ≤ s.producers.size → t.producer id = s.producer id :=
    fun id hid => Store.producer_push_of_le hproducers hid
  have hnew : t.producer (s.producers.size + 1) = .fresh frame entry := by
    simp [Store.producer, hproducers]
  have hcount := h.count
  have hreleased : released (es ++ [.created (s.producers.size + 1)]) = released es := by
    simp [released, Event.released?]
  have hended : ended (es ++ [.created (s.producers.size + 1)]) = ended es := by simp [ended, Event.ended?]
  have hlost : lost (es ++ [.created (s.producers.size + 1)]) = lost es := by simp [lost, Event.lost?]
  have hcreated : created (es ++ [.created (s.producers.size + 1)]) = created es ++ [s.producers.size + 1] := by
    simp [created, Event.created?]
  refine ⟨hlimit.trans h.limit, by omega, ?_, ?_, ?_, ?_, ?_, ?_, ?_, h.distinct⟩
  · rw [hcreated, h.numbers, hsize, List.range'_1_concat, Nat.add_comm 1]
  · rw [hreleased]
    omega
  · rw [hreleased, hended]
    exact h.back
  · rw [hreleased]
    exact h.single
  · rw [hended, hlost]
    exact h.once
  · intro id
    rw [hended, hlost, h.gone id, hsize]
    rcases Nat.lt_trichotomy id (s.producers.size + 1) with hlt | rfl | hgt
    · rw [hkept id (Nat.le_of_lt_succ hlt)]
      exact and_congr_left fun _ => by omega
    · constructor
      · rintro ⟨hnumber, -⟩
        omega
      · rintro ⟨-, hover⟩
        rw [hnew] at hover
        cases hover
    · omega
  · intro id hid
    have hrunning := h.running id hid
    have hlive : s.producer id ≠ .ended := by simp [hrunning]
    rw [hkept id (Store.number_of_ne_ended hlive).2]
    exact hrunning

/-- Every shift keeps the balance. -/
theorem Balanced.shift
    {fs : List Event} {ids' : List Nat}
    (h : Balanced maxTasks es s ids)
    (hshift : Shifts s ids fs t ids') :
    Balanced maxTasks (es ++ fs) t ids' := by
  -- A co-expression at rest is not among those that run, and the innermost one is not among the others.
  have hresting : ∀ {id}, (s.producer id).isAtRest = true →
      s.producer id ≠ .ended ∧ ∀ other ∈ ids, other ∈ ids ∧ other ≠ id := by
    intro id hrest
    refine ⟨fun hended => ?_, fun other hother => ⟨hother, ?_⟩⟩
    · rw [hended] at hrest
      cases hrest
    · rintro rfl
      rw [h.running other hother] at hrest
      cases hrest
  have hinnermost : ∀ {id outer}, ids = id :: outer →
      s.producer id ≠ .ended ∧ (∀ other ∈ outer, other ∈ ids ∧ other ≠ id) ∧ outer.Nodup := by
    rintro id outer rfl
    obtain ⟨hnot, hdistinct⟩ := List.nodup_cons.mp h.distinct
    refine ⟨?_, fun other hother => ⟨List.mem_cons_of_mem id hother, ?_⟩, hdistinct⟩
    · simp [h.running id List.mem_cons_self]
    · rintro rfl
      exact hnot hother
  cases hshift with
  | same hpool =>
      rw [List.append_nil]
      exact h.of_pool hpool
  | create hfree hpool => exact h.create hfree hpool
  | @start _ id hrest hpool =>
      obtain ⟨hlive, hothers⟩ := hresting hrest
      have hset := Store.producer_setProducer_self (Store.number_of_ne_ended hlive) .running
      have hfresh : id ∉ ids := fun hmem => (hothers id hmem).2 rfl
      rw [List.append_nil]
      refine Balanced.of_pool (s := s.setProducer id .running) ?_ hpool
      refine h.setProducer hlive (by simp) ?_ (List.nodup_cons.mpr ⟨hfresh, h.distinct⟩)
      intro other hother
      rcases List.mem_cons.mp hother with rfl | hother
      · exact hset
      · exact h.running_setProducer hothers .running other hother
  | @hand _ id frame label _ hids hpool =>
      obtain ⟨hlive, houter, hdistinct⟩ := hinnermost hids
      rw [List.append_nil]
      refine Balanced.of_pool (s := s.setProducer id (.waiting frame label)) ?_ hpool
      exact h.setProducer hlive (by simp) (h.running_setProducer houter _) hdistinct
  | finish hids hpool =>
      obtain ⟨hlive, houter, hdistinct⟩ := hinnermost hids
      exact (h.finish hlive houter hdistinct).of_pool hpool
  | lose hids hpool =>
      obtain ⟨hlive, houter, hdistinct⟩ := hinnermost hids
      exact (h.over (Or.inr rfl) hlive houter hdistinct).of_pool hpool
  | close hrest hpool =>
      obtain ⟨hlive, hothers⟩ := hresting hrest
      exact (h.finish hlive hothers h.distinct).of_pool hpool

/-! ## Sessions -/

/-- What happens to the pool beside the steps of the machine and the acts of the host.  The scheduler has its say about
the tasks of co-expressions, and handles get lost. -/
inductive Tends (es : List Event) (s : Store) : List Event → Store → Prop
  /-- Tasks become prompt, or slow. -/
  | schedule (prompt : Bool) : Tends es s [] { s with prompt := prompt }
  /-- The task of a co-expression that has ended is over. -/
  | release
      {id : Nat}
      (hended : id ∈ ended es)
      (hlate : id ∉ released es) :
      Tends es s [.released id] s.release
  /-- The last handle to a co-expression that is at rest is dropped.  Handles are not counted here, so there is no
  telling when that is. -/
  | drop
      {id : Nat}
      (hrest : (s.producer id).isAtRest = true) :
      Tends es s (endings s id) (s.abandon id)

/-- A session that has started with a new program, and what has happened to its pool.  The host has no way to
change the pool itself: while nothing runs, only what it asks for does. -/
inductive Accounts (maxTasks : Nat) : List Event → Session → Prop
  | new : Accounts maxTasks [] (Session.new maxTasks)
  | move
      {es : List Event} {σ τ : Session} {q : Option (Store × Request)}
      (hbefore : Accounts maxTasks es σ)
      (hmove : Move σ q τ)
      (hhost : σ.machine.isFinished = true → q = none →
        τ.machine.store.active = σ.machine.store.active ∧ τ.machine.store.limit = σ.machine.store.limit ∧
          τ.machine.store.prompt = σ.machine.store.prompt) :
      Accounts maxTasks (es ++ events σ.machine q) τ
  | tend
      {es fs : List Event} {s t : Store} {stack : List Context} {control : Control} {held : List Continuation}
      {own : List Nat}
      (hbefore : Accounts maxTasks es ⟨⟨s, stack, control⟩, held, own⟩)
      (htends : Tends es s fs t) :
      Accounts maxTasks (es ++ fs) ⟨⟨t, stack, control⟩, held, own⟩

/-- Whatever happens to the pool beside, its balance is kept. -/
theorem Balanced.tend
    {fs : List Event}
    (h : Balanced maxTasks es s ids)
    (htends : Tends es s fs t) :
    Balanced maxTasks (es ++ fs) t ids := by
  cases htends with
  | schedule prompt =>
      rw [List.append_nil]
      have hproducer : Store.producer { s with prompt := prompt } = s.producer := by
        funext id
        cases id <;> rfl
      refine ⟨h.limit, h.bounded, h.numbers, h.count, h.back, h.single, h.once, ?_, ?_, h.distinct⟩
      · rw [hproducer]
        exact h.gone
      · rw [hproducer]
        exact h.running
  | release hended hlate => exact h.release hended hlate
  | drop hrest =>
      rw [Store.abandon_of_isAtRest hrest]
      exact h.shift (.close hrest rfl)

/-- While nothing runs, a move does to the pool what it asks for. -/
theorem events_idle
    {control : Control}
    (hidle : control.isIdle = true)
    (s : Store) (q : Option (Store × Request)) :
    events ⟨s, [], control⟩ q = requestEvents [] q := by
  cases control with
  | returning o => rfl
  | raising r => rfl
  | running frame label rest => cases hidle
  | halted reason => cases hidle
  | aborted r => cases hidle

/-- Every step, and every act of the host, shifts the pool as its events say. -/
theorem leaves_move
    {σ τ : Session} {q : Option (Store × Request)}
    (hmove : Move σ q τ)
    (hhost : σ.machine.isFinished = true → q = none →
      τ.machine.store.active = σ.machine.store.active ∧ τ.machine.store.limit = σ.machine.store.limit ∧
        τ.machine.store.prompt = σ.machine.store.prompt) :
    Leaves σ.machine.store σ.machine.stack (events σ.machine q) τ.machine := by
  cases hmove with
  | step m held own => exact m.leaves_step
  | prepare hidle hprepares =>
      rw [events_idle hidle]
      obtain ⟨hactive, hlimit, hprompt⟩ := hhost (Machine.isFinished_of_isIdle hidle _) rfl
      refine leaves_same ?_ rfl
      rw [Store.pool, hprepares.producers, hactive, hlimit, hprompt, Store.pool]
  | keep s v k held own => exact leaves_same rfl rfl
  | request hidle environment q =>
      rw [events_idle hidle]
      exact Machine.leaves_start _ [] environment q
  | resume hidle before k after =>
      rw [events_idle hidle]
      exact (Machine.spares_resume _ [] k).leaves
  | enter hidle hlinked environment args names =>
      rw [events_idle hidle]
      exact (Machine.spares_enter _ [] environment _ args names).leaves
  | make hidle hlinked environment args vars =>
      rw [events_idle hidle]
      exact leaves_same rfl rfl
  | @copy s _ _ _ _ f hidle hown hframe environment =>
      have hcopy := Store.pool_of_activity (s.activity_duplicateFrame f environment)
      rw [events_idle hidle]
      exact leaves_same hcopy rfl
  | run hidle hown hframe hlabel =>
      rw [events_idle hidle]
      exact (Machine.spares_jump _ [.bare] _ _).leaves
  | activate hidle before after hframe hlabel =>
      rw [events_idle hidle]
      exact (Machine.spares_jump _ [] _ _).leaves

/-! ### Hosts -/

/-- Linking leaves the pool alone. -/
theorem spares_pool : Program.Spares Store.pool :=
  ⟨fun _ _ => rfl,
    fun s namespaceName name v => Store.pool_of_activity (s.activity_declare namespaceName name v),
    fun s name => Store.pool_of_activity (s.activity_namespaceIndex name),
    fun s b entries => Store.pool_of_activity (s.activity_bindAll b entries)⟩

theorem Accounts.balanced
    {σ : Session}
    (h : Accounts maxTasks es σ) :
    Balanced maxTasks es σ.machine.store (consumers σ.machine.stack) := by
  induction h with
  | new =>
      have hpool := spares_pool.install
        { nodes := #[⟨0, []⟩], namespaces := #[⟨"", []⟩], limit := max 1 maxTasks } Builtin.all
      refine Balanced.of_pool ?_ hpool
      refine ⟨rfl, Nat.zero_le _, rfl, rfl, nofun, List.nodup_nil, List.nodup_nil, ?_, by simp [consumers, Session.new],
        List.nodup_nil⟩
      intro id
      simp [ended, lost]
      omega
  | move hbefore hmove hhost ih => exact ih.shift (leaves_move hmove hhost)
  | tend hbefore htends ih => exact ih.tend htends

/-- At the limit nothing is created: an exception is raised, and neither the frame nor the store has changed. -/
theorem execute_create_at_limit
    (hfull : s.active = s.limit)
    (f : Frame) (target : Ir.Slot) (entry : Ir.Label) :
    s.execute f (.create target entry) =
      (.fault (.exception (.tooManyProducers s.active s.limit) []), f, s) := by
  have hnot : ¬ s.active < s.limit := by omega
  simp only [Store.execute, Store.createProducer, if_neg hnot]

/-- In every session, with any limit: the number of places taken is that of the co-expressions created less that of
those that have given their places back, and is never beyond the limit.  A place is given back once, by the task of a
co-expression that has ended; when all such tasks are over, the number of places taken is that of the co-expressions
created less that of those that have ended.  Those that have asked for an impossible queue do not count as ended, and
keep their places for ever.  Co-expressions get the numbers from one on; and a `create` at the limit raises an
exception, takes no number and no place, and leaves the frame and the store as they are. -/
theorem pool_balanced
    {maxTasks : Nat} {es : List Event} {σ : Session}
    (h : Accounts maxTasks es σ) :
    σ.machine.store.active + (released es).length = (created es).length ∧
    (released es).Nodup ∧
    (∀ id ∈ released es, id ∈ ended es) ∧
    ((∀ id ∈ ended es, id ∈ released es) → σ.machine.store.active + (ended es).length = (created es).length) ∧
    (lost es).length ≤ σ.machine.store.active ∧
    σ.machine.store.active ≤ max 1 maxTasks ∧
    σ.machine.store.limit = max 1 maxTasks ∧
    created es = List.range' 1 σ.machine.store.producers.size ∧
    (ended es ++ lost es).Nodup ∧
    (∀ id, id ∈ ended es ++ lost es ↔ id ∈ created es ∧ σ.machine.store.producer id = .ended) ∧
    ∀ (frame : Nat) (label : Ir.Label) (target : Ir.Slot) (entry : Ir.Label)
      (rest : List Ir.Instruction) (f : Frame),
      σ.machine.control = .running frame label (.create target entry :: rest) →
      σ.machine.store.frames[frame]? = some f →
      (σ.machine.store.active < max 1 maxTasks →
        creation? σ.machine = some (σ.machine.store.producers.size + 1)) ∧
      (σ.machine.store.active = max 1 maxTasks →
        let full : Fault := .exception (.tooManyProducers σ.machine.store.active (max 1 maxTasks)) []
        creation? σ.machine = none ∧
        σ.machine.store.execute f (.create target entry) = (.fault full, f, σ.machine.store) ∧
        σ.machine.step = Machine.fault σ.machine.store σ.machine.stack frame ⟨full, []⟩) := by
  have hbalanced := h.balanced
  have hlimit := hbalanced.limit
  have hcount : σ.machine.store.active + (released es).length = (created es).length := by
    rw [hbalanced.numbers, List.length_range']
    exact hbalanced.count
  obtain ⟨hended, hlost, hdisjoint⟩ := List.nodup_append.mp hbalanced.once
  refine ⟨hcount, hbalanced.single, hbalanced.back, ?_, ?_, ?_, hlimit, hbalanced.numbers, hbalanced.once, ?_, ?_⟩
  · intro hreleased
    have hperm : (ended es).Perm (released es) :=
      (List.perm_ext_iff_of_nodup hended hbalanced.single).mpr fun id => ⟨hreleased id, hbalanced.back id⟩
    rw [hperm.length_eq]
    exact hcount
  · refine hbalanced.length_le_active hlost (List.subset_append_right _ _) fun id hid hreleased => ?_
    exact hdisjoint id (hbalanced.back id hreleased) id hid rfl
  · rw [← hlimit]
    exact hbalanced.bounded
  · intro id
    rw [hbalanced.gone, hbalanced.numbers, List.mem_range'_1]
    exact and_congr_left fun _ => by omega
  · intro frame label target entry rest f hcontrol hframe
    obtain ⟨⟨s, stack, control⟩, held, own⟩ := σ
    dsimp only at hcontrol hframe hlimit ⊢
    subst hcontrol
    rw [← hlimit]
    constructor
    · intro hfree
      simp [creation?, hframe, Store.createProducer, hfree]
    · intro hfull
      have hexecute := execute_create_at_limit hfull f target entry
      have hnot : ¬ s.active < s.limit := by omega
      refine ⟨?_, hexecute, ?_⟩
      · simp [creation?, hframe, Store.createProducer, hnot]
      · rw [Machine.step_running hframe hexecute, Store.setFrame_of_getElem? hframe]
        rfl

/-! ### Runs -/

/-- What so many steps do to the pool. -/
def eventsWithin : Nat → Machine → List Event
  | 0, _ => []
  | n + 1, m => events m m.request? ++ eventsWithin n m.step

/-- Steps need no condition: the host has no part in them. -/
theorem Accounts.steps
    {m : Machine} {held : List Continuation} {own : List Nat}
    (h : Accounts maxTasks es ⟨m, held, own⟩)
    (n : Nat) :
    Accounts maxTasks (es ++ eventsWithin n m) ⟨Machine.step^[n] m, held, own⟩ := by
  induction n generalizing m es with
  | zero =>
      rw [eventsWithin, List.append_nil]
      exact h
  | succ n ih =>
      rw [eventsWithin, ← List.append_assoc]
      refine ih (h.move (Move.step m held own) ?_)
      intro hfinished _
      rw [Machine.step_of_isFinished hfinished]
      exact ⟨rfl, rfl, rfl⟩

/-- Linking needs none either. -/
theorem Accounts.link
    {control : Control} {held : List Continuation} {own : List Nat}
    (h : Accounts maxTasks es ⟨⟨s, [], control⟩, held, own⟩)
    (hidle : control.isIdle = true)
    (pending : List (Item Initializer)) (ir : Ir.Program) :
    Accounts maxTasks es ⟨⟨(Program.link ⟨s, pending⟩ ir).2.store, [], control⟩, held, own⟩ := by
  have hpool := spares_pool.link ⟨s, pending⟩ ir
  have hevents : events ⟨s, [], control⟩ none = [] := events_idle hidle s none
  have hmove := h.move (Move.prepare hidle (Program.prepares_link ⟨s, pending⟩ ir))
    fun _ _ => ⟨congrArg Places.active hpool, congrArg Places.limit hpool, congrArg Places.prompt hpool⟩
  rw [hevents, List.append_nil] at hmove
  exact hmove

/-- A procedure that runs a co-expression to its end, and creates another one. -/
def breeder : Ir.Procedure where
  name := "breeder"
  namespaceName := ""
  params := []
  locals := []
  statics := []
  variadic := false
  temps := 2
  entry := "start"
  chunks :=
    [⟨"start", [.create 0 "body", .operator ⟨some 1, none, some "again"⟩ "@" [0], .fail]⟩,
      ⟨"again", [.create 0 "body", .fail]⟩,
      ⟨"body", [.exhaust]⟩]
  deps := []

/-- A program with the procedure, with the least limit and slow tasks. -/
def slow : Store :=
  { ((Program.new 1).link ⟨[breeder], [], []⟩).2.store with prompt := false }

/-- The call of the procedure. -/
def bred : Machine :=
  Machine.call slow [] Program.rootEnvironment (.procedure Builtin.all.length) [] []

theorem accounts_bred :
    Accounts 1 (requestEvents [] (some (slow, .call (.procedure Builtin.all.length) [] []))) ⟨bred, [], []⟩ :=
  ((Accounts.new.link rfl [] ⟨[breeder], [], []⟩).tend (.schedule false)).move
    (Move.request rfl Program.rootEnvironment (.call (.procedure Builtin.all.length) [] [])) (by simp)

/-- The frame that is about to create a co-expression. -/
def creator? (m : Machine) : Option Nat :=
  match m.control with
  | .running frame _ (.create _ _ :: _) => some frame
  | _ => none

theorem control_of_creator?
    {m : Machine} {frame : Nat}
    (h : creator? m = some frame) :
    ∃ label target entry rest, m.control = .running frame label (.create target entry :: rest) := by
  unfold creator? at h
  split at h
  · rename_i hcontrol
    cases h
    exact ⟨_, _, _, _, hcontrol⟩
  · cases h

/-- The first co-expression has ended, but its task is not over, and the second one is refused.  It is created once the
task is over. -/
theorem pool_balanced_breeder :
    ∃ (es : List Event) (σ τ : Session), Accounts 1 es σ ∧ created es = [1] ∧ ended es = [1] ∧ released es = [] ∧
      σ.machine.store.active = 1 ∧ σ.machine.store.producer 1 = .ended ∧ creation? σ.machine = none ∧
      σ.machine.step = Machine.fault σ.machine.store σ.machine.stack 0
        ⟨.exception (.tooManyProducers σ.machine.store.active 1) [], []⟩ ∧
      Accounts 1 (es ++ [.released 1]) τ ∧ τ.machine.store.active = 0 ∧ creation? τ.machine = some 2 := by
  have haccounts := accounts_bred.steps 5
  generalize hes : requestEvents [] _ ++ eventsWithin 5 bred = es at haccounts
  have hcreated : created es = [1] := by
    rw [← hes]
    decide +kernel
  have hended : ended es = [1] := by
    rw [← hes]
    decide +kernel
  have hreleased : released es = [] := by
    rw [← hes]
    decide +kernel
  obtain ⟨label, target, entry, rest, hcontrol⟩ : ∃ label target entry rest,
      (Machine.step^[5] bred).control = .running 0 label (.create target entry :: rest) :=
    control_of_creator? (by decide +kernel)
  have hsize : (Machine.step^[5] bred).store.producers.size = 1 := by decide +kernel
  have hframe : 0 < (Machine.step^[5] bred).store.frames.size := by decide +kernel
  obtain ⟨f, hf⟩ : ∃ f, (Machine.step^[5] bred).store.frames[0]? = some f :=
    ⟨_, Array.getElem?_eq_getElem hframe⟩
  generalize Machine.step^[5] bred = m at haccounts hcontrol hsize hf
  obtain ⟨s, stack, control⟩ := m
  obtain ⟨hcount, -, -, -, -, -, -, -, -, hover, hcreate⟩ := pool_balanced haccounts
  rw [hcreated, hreleased] at hcount
  have hactive : s.active = 1 := hcount
  have hover' := ((hover 1).mp (by rw [hended]; exact List.mem_cons_self)).2
  obtain ⟨hnone, -, hstep⟩ := (hcreate 0 label target entry rest _ hcontrol hf).2 hactive
  -- the task is over
  have hlater : Accounts 1 (es ++ [.released 1]) ⟨⟨s.release, stack, control⟩, [], []⟩ :=
    haccounts.tend (.release (by simp [hended]) (by simp [hreleased]))
  have hfree : s.release.active = 0 := congrArg (· - 1) hactive
  obtain ⟨-, -, -, -, -, -, -, -, -, -, hcreate'⟩ := pool_balanced hlater
  have hsome := (hcreate' 0 label target entry rest _ hcontrol hf).1 (by rw [hfree]; decide)
  refine ⟨es, _, _, haccounts, hcreated, hended, hreleased, hactive, hover', hnone, hstep, hlater, hfree, ?_⟩
  rw [hsome]
  exact congrArg (fun n => some (n + 1)) hsize

end Pool

end Pool

end GoalDirected
