import GoalDirected.Proofs.Coexpression.Separation

/-!
# Shifts of the pool

**Input.** A step of the machine.

**Argument.** Each component of a step leaves the pool of co-expressions alone, or is a request, the end of a
body, or a creation.

**Results.**
* `events`: what a step does to the pool, read off the state before it and off what it asks for.
* `Shifts`: all that can become of the pool: a place is taken, given back or lost, or the control passes from one
  co-expression to another.
* `leaves_step`: every step shifts the pool as its events say.
-/

namespace GoalDirected

section Pool

/-! ## What happens to the pool -/

/-- The co-expression has not ended, and does not run. -/
def Producer.isAtRest : Producer → Bool
  | .fresh _ _ => true
  | .waiting _ _ => true
  | _ => false

theorem Store.abandon_of_isAtRest
    {s : Store} {id : Nat}
    (h : (s.producer id).isAtRest = true) :
    s.abandon id = s.endProducer id := by
  unfold abandon
  cases hproducer : s.producer id with
  | fresh frame label => rfl
  | waiting frame label => rfl
  | running =>
      rw [hproducer] at h
      cases h
  | ended =>
      rw [hproducer] at h
      cases h

/-- What stops the program instead of an answer to the request. -/
def Store.stops? (s : Store) : Request → Option Halt
  | .operator op args =>
      match (s.invoke op args).1 with
      | .reply (.halt h) => some h
      | _ => none
  | .call callee args names =>
      match s.deref callee with
      | .procedure id =>
          match s.callables[id]?, names.isEmpty with
          | some (.builtin b), true =>
              match (s.builtin b (args.map s.deref)).1 with
              | .halt h => some h
              | _ => none
          | _, _ => none
      | _ => none

namespace Pool

/-- What happens to the places of the pool. -/
inductive Event where
  | created (id : Nat)
  /-- The body has come to an end, or the co-expression has been closed or dropped. -/
  | ended (id : Nat)
  /-- The task of an ended co-expression is over, and has given its place back. -/
  | released (id : Nat)
  /-- The body has asked for an impossible queue, and its place is lost. -/
  | lost (id : Nat)

def Event.created? : Event → Option Nat
  | .created id => some id
  | _ => none

def Event.ended? : Event → Option Nat
  | .ended id => some id
  | _ => none

def Event.released? : Event → Option Nat
  | .released id => some id
  | _ => none

def Event.lost? : Event → Option Nat
  | .lost id => some id
  | _ => none

/-- The co-expressions that have been created, in order. -/
def created (es : List Event) : List Nat :=
  es.filterMap Event.created?

/-- The co-expressions that have ended without losing their places, in order. -/
def ended (es : List Event) : List Nat :=
  es.filterMap Event.ended?

/-- The co-expressions that have given their places back, in order. -/
def released (es : List Event) : List Nat :=
  es.filterMap Event.released?

/-- The co-expressions whose places are lost, in order. -/
def lost (es : List Event) : List Nat :=
  es.filterMap Event.lost?

/-- The end of a co-expression. A prompt task is over at once. -/
def endings (s : Store) (id : Nat) : List Event :=
  if s.prompt then [.ended id, .released id] else [.ended id]

/-- The co-expression that the next step creates. -/
def creation? : Machine → Option Nat
  | ⟨s, _, .running frame _ (.create _ entry :: _)⟩ =>
      match (s.frames[frame]?).map fun f => s.createProducer f entry with
      | some (.ok (.coexpression id, _)) => some id
      | _ => none
  | _ => none

/-- The co-expression whose body is at its end: an outcome or a fault has reached its consumer. -/
def ending? : Machine → Option Nat
  | ⟨_, .consuming id :: _, .returning _⟩ => some id
  | ⟨_, .consuming id :: _, .raising _⟩ => some id
  | _ => none

/-- What becomes of the innermost co-expression when something stops the program. -/
def losses (stack : List Context) : Option Halt → List Event
  | some .impossibleQueue => ((Machine.innermostConsumer? stack).map fun x => .lost x.1).toList
  | _ => []

/-- What becomes of the co-expression that a request closes. -/
def closings (s : Store) (q : Request) : List Event :=
  match s.closed? q with
  | some id => if (s.producer id).isAtRest then endings s id else []
  | none => []

/-- What a request does to the pool. -/
def requestEvents (stack : List Context) : Option (Store × Request) → List Event
  | some (s, q) => closings s q ++ losses stack (s.stops? q)
  | none => []

/-- What a move does to the pool, from its first state and from what it asks for. -/
def events (m : Machine) (q : Option (Store × Request)) : List Event :=
  (creation? m).toList.map .created ++ (ending? m).toList.flatMap (endings m.store) ++ requestEvents m.stack q

end Pool

/-! ## Shifts -/

/-- The state of the pool. -/
structure Places where
  producers : Array Producer
  active : Nat
  limit : Nat
  prompt : Bool

/-- The part of a store that belongs to the pool. -/
def Store.pool (s : Store) : Places :=
  ⟨s.producers, s.active, s.limit, s.prompt⟩

namespace Store

theorem pool_of_activity
    {s t : Store}
    (h : t.activity = s.activity) :
    t.pool = s.pool :=
  congrArg (fun a : Activity => Places.mk a.producers a.active a.limit a.prompt) h

theorem producer_of_pool
    {s t : Store}
    (h : t.pool = s.pool)
    (id : Nat) :
    t.producer id = s.producer id := by
  have hproducers : t.producers = s.producers := congrArg Places.producers h
  cases id <;> simp [producer, hproducers]

theorem pool_setProducer_congr
    {s t : Store}
    (h : t.pool = s.pool)
    (id : Nat) (p : Producer) :
    (t.setProducer id p).pool = (s.setProducer id p).pool := by
  simp only [pool, Places.mk.injEq] at h
  cases id <;> simp [setProducer, pool, h]

theorem pool_endProducer_congr
    {s t : Store}
    (h : t.pool = s.pool)
    (id : Nat) :
    (t.endProducer id).pool = (s.endProducer id).pool := by
  simp only [pool, Places.mk.injEq] at h
  cases id <;> simp [endProducer, setProducer, pool, h]

theorem active_setProducer (s : Store) (id : Nat) (p : Producer) :
    (s.setProducer id p).active = s.active := by
  cases id <;> rfl

theorem limit_setProducer (s : Store) (id : Nat) (p : Producer) :
    (s.setProducer id p).limit = s.limit := by
  cases id <;> rfl

/-- Only numbers that have been given out stand for co-expressions that have not ended. -/
theorem number_of_ne_ended
    {s : Store} {id : Nat}
    (h : s.producer id ≠ .ended) :
    0 < id ∧ id ≤ s.producers.size := by
  constructor
  · rcases Nat.eq_zero_or_pos id with rfl | hpos
    · exact absurd rfl h
    · exact hpos
  · exact Nat.le_of_not_lt fun hsize => h (producer_eq_ended hsize)

end Store

/-- The co-expression whose consumer the context is. -/
def Context.consumer? : Context → Option Nat
  | .consuming id => some id
  | _ => none

/-- The co-expressions that run, innermost first. -/
def consumers (stack : List Context) : List Nat :=
  stack.filterMap Context.consumer?

@[simp] theorem consumers_consuming (id : Nat) (stack : List Context) :
    consumers (.consuming id :: stack) = id :: consumers stack :=
  rfl

@[simp] theorem consumers_awaiting
    (frame : Nat) (label : Ir.Label) (rest : List Ir.Instruction) (d : Ir.Destination)
    (stack : List Context) :
    consumers (.awaiting frame label rest d :: stack) = consumers stack :=
  rfl

@[simp] theorem consumers_recovering (frame : Nat) (stack : List Context) :
    consumers (.recovering frame :: stack) = consumers stack :=
  rfl

@[simp] theorem consumers_bare (stack : List Context) :
    consumers (.bare :: stack) = consumers stack :=
  rfl

/-- The innermost consumer is the first one. -/
theorem consumers_of_innermostConsumer?
    {stack rest : List Context} {id : Nat}
    (h : Machine.innermostConsumer? stack = some (id, rest)) :
    consumers stack = id :: consumers rest := by
  induction stack with
  | nil => cases h
  | cons c stack ih =>
      cases c with
      | consuming other =>
          cases h
          rfl
      | _ => exact ih h

namespace Pool

/-- What a move can make of the pool and of the co-expressions that run. -/
inductive Shifts (s : Store) (ids : List Nat) : List Event → Store → List Nat → Prop
  | same
      {t : Store}
      (hpool : t.pool = s.pool) :
      Shifts s ids [] t ids
  | create
      {t : Store} {frame : Nat} {entry : Ir.Label}
      (hfree : s.active < s.limit)
      (hpool : t.pool = ⟨s.producers.push (.fresh frame entry), s.active + 1, s.limit, s.prompt⟩) :
      Shifts s ids [.created (s.producers.size + 1)] t ids
  /-- A co-expression goes on. -/
  | start
      {t : Store} {id : Nat}
      (hrest : (s.producer id).isAtRest = true)
      (hpool : t.pool = (s.setProducer id .running).pool) :
      Shifts s ids [] t (id :: ids)
  /-- The innermost co-expression hands a value over. -/
  | hand
      {t : Store} {id frame : Nat} {label : Ir.Label} {outer : List Nat}
      (hids : ids = id :: outer)
      (hpool : t.pool = (s.setProducer id (.waiting frame label)).pool) :
      Shifts s ids [] t outer
  | finish
      {t : Store} {id : Nat} {outer : List Nat}
      (hids : ids = id :: outer)
      (hpool : t.pool = (s.endProducer id).pool) :
      Shifts s ids (endings s id) t outer
  | lose
      {t : Store} {id : Nat} {outer : List Nat}
      (hids : ids = id :: outer)
      (hpool : t.pool = (s.setProducer id .ended).pool) :
      Shifts s ids [.lost id] t outer
  | close
      {t : Store} {id : Nat}
      (hrest : (s.producer id).isAtRest = true)
      (hpool : t.pool = (s.endProducer id).pool) :
      Shifts s ids (endings s id) t ids

/-- What a machine has made of the pool, from a store and a stack. -/
def Leaves (s : Store) (stack : List Context) (es : List Event) (m : Machine) : Prop :=
  Shifts s (consumers stack) es m.store (consumers m.stack)

variable {s t : Store} {stack : List Context} {es : List Event} {m : Machine} {ids ids' : List Nat}

/-- Before the shift something has happened that leaves the pool alone. -/
theorem Shifts.after
    {u : Store}
    (h : Shifts t ids es u ids')
    (hpool : t.pool = s.pool) :
    Shifts s ids es u ids' := by
  have hproducers : t.producers = s.producers := congrArg Places.producers hpool
  have hactive : t.active = s.active := congrArg Places.active hpool
  have hlimit : t.limit = s.limit := congrArg Places.limit hpool
  have hprompt : t.prompt = s.prompt := congrArg Places.prompt hpool
  have hendings : endings t = endings s := by
    funext id
    rw [endings, hprompt, endings]
  cases h with
  | same hu => exact .same (hu.trans hpool)
  | create hfree hu =>
      rw [hproducers, hactive, hlimit, hprompt] at hu
      rw [hactive, hlimit] at hfree
      rw [hproducers]
      exact .create hfree hu
  | start hrest hu =>
      rw [Store.producer_of_pool hpool] at hrest
      exact .start hrest (hu.trans (Store.pool_setProducer_congr hpool _ _))
  | hand hids hu => exact .hand hids (hu.trans (Store.pool_setProducer_congr hpool _ _))
  | finish hids hu =>
      rw [hendings]
      exact .finish hids (hu.trans (Store.pool_endProducer_congr hpool _))
  | lose hids hu => exact .lose hids (hu.trans (Store.pool_setProducer_congr hpool _ _))
  | close hrest hu =>
      rw [Store.producer_of_pool hpool] at hrest
      rw [hendings]
      exact .close hrest (hu.trans (Store.pool_endProducer_congr hpool _))

/-- A machine has left the pool alone, and has only changed contexts that are no consumers. -/
structure Spares (s : Store) (stack : List Context) (m : Machine) : Prop where
  pool : m.store.pool = s.pool
  consumers : consumers m.stack = consumers stack

theorem Spares.after
    (h : Spares t stack m)
    (hpool : t.pool = s.pool) :
    Spares s stack m :=
  ⟨h.pool.trans hpool, h.consumers⟩

theorem Spares.leaves
    (h : Spares s stack m) :
    Leaves s stack [] m := by
  unfold Leaves
  rw [h.consumers]
  exact .same h.pool

theorem leaves_same
    (hpool : m.store.pool = s.pool)
    (hstack : consumers m.stack = consumers stack) :
    Leaves s stack [] m :=
  Spares.leaves ⟨hpool, hstack⟩

end Pool

/-! ### Components of a step -/

namespace Machine

open Pool

variable {s t : Store} {stack : List Context}

theorem leaves_halt (s : Store) (stack : List Context) (h : Halt) :
    Leaves s stack (losses stack (some h)) (halt s stack h) := by
  cases h with
  | impossibleQueue =>
      cases hinnermost : innermostConsumer? stack with
      | none =>
          simp only [losses, halt, hinnermost, Option.map_none, Option.toList_none]
          exact leaves_same rfl rfl
      | some x =>
          simp only [losses, halt, hinnermost, Option.map_some, Option.toList_some]
          exact .lose (consumers_of_innermostConsumer? hinnermost) rfl
  | blocked => exact leaves_same rfl rfl
  | exit code => exact leaves_same rfl rfl

theorem spares_leave (s : Store) (stack : List Context) (frame : Nat) (r : Raised) :
    Spares s stack (leave s stack frame r) := by
  rcases leave_cases s stack frame r with ⟨trace, heq⟩ | heq <;> rw [heq] <;> exact ⟨rfl, rfl⟩

theorem spares_enter
    (s : Store) (stack : List Context) (environment : Environment) (p : Procedure)
    (args : List Value) (names : List String) :
    Spares s stack (enter s stack environment p args names) := by
  have hbind := Store.pool_of_activity (s.activity_bindArguments p.code args names)
  unfold enter
  split
  · exact ⟨rfl, rfl⟩
  · dsimp only
    split
    · exact ⟨hbind, rfl⟩
    · exact (spares_leave _ stack _ _).after hbind

/-- A reply that does not stop the program leaves the pool as the primitive has left it. -/
theorem leaves_reply (s : Store) (stack : List Context) (r : Reply) :
    Leaves s stack (losses stack (match r with | .halt h => some h | _ => none)) (reply s stack r) := by
  cases r with
  | outcome o => exact leaves_same rfl rfl
  | fault f => exact leaves_same rfl rfl
  | halt h => exact leaves_halt s stack h

/-- The events of a request that is a call of the library. -/
theorem requestEvents_builtin
    {callee : Value} {args : List Value} {names : List String} {id : Nat} {b : Builtin}
    (hcallee : s.deref callee = .procedure id)
    (hcallable : s.callables[id]? = some (.builtin b))
    (hnames : names.isEmpty = true) :
    requestEvents stack (some (s, .call callee args names)) =
      closings s (.call callee args names) ++
        losses stack (match (s.builtin b (args.map s.deref)).1 with | .halt h => some h | _ => none) := by
  simp only [requestEvents, Store.stops?, hcallee, hcallable, hnames]

/-- The call of a procedure of the library. -/
theorem leaves_builtin
    {callee : Value} {args : List Value} {names : List String} {id : Nat} {b : Builtin}
    (hcallee : s.deref callee = .procedure id)
    (hcallable : s.callables[id]? = some (.builtin b))
    (hnames : names.isEmpty = true) :
    Leaves s stack (requestEvents stack (some (s, .call callee args names)))
      (reply (s.builtin b (args.map s.deref)).2 stack (s.builtin b (args.map s.deref)).1) := by
  rw [requestEvents_builtin hcallee hcallable hnames]
  cases hclosed : s.closed? (.call callee args names) with
  | none =>
      -- Whatever is not a close of a co-expression leaves the pool alone.
      have hpool : (s.builtin b (args.map s.deref)).2.pool = s.pool := by
        rcases s.activity_builtin b (args.map s.deref) with hsame | ⟨rfl, c, hfirst, -⟩
        · exact Store.pool_of_activity hsame
        · simp only [Store.closed?, hcallee, hcallable, hnames, hfirst] at hclosed
          cases hclosed
      have hclosings : closings s (.call callee args names) = [] := by
        simp only [closings, hclosed]
      rw [hclosings, List.nil_append]
      exact Shifts.after (leaves_reply _ stack _) hpool
  | some c =>
      have hclosings : closings s (.call callee args names) =
          if (s.producer c).isAtRest then endings s c else [] := by
        simp only [closings, hclosed]
      rw [hclosings]
      simp only [Store.closed?, hcallee, hcallable, hnames] at hclosed
      split at hclosed
      · rename_i heq _ hfirst
        cases heq
        cases hclosed
        simp only [Store.builtin, hfirst, Store.closeValue, Store.abandon]
        cases hproducer : s.producer c with
        | fresh frame label =>
            simp only [losses, List.append_nil]
            exact .close (by rw [hproducer]; rfl) rfl
        | waiting frame label =>
            simp only [losses, List.append_nil]
            exact .close (by rw [hproducer]; rfl) rfl
        | running => exact leaves_same rfl rfl
        | ended => exact leaves_same rfl rfl
      · cases hclosed

theorem leaves_call
    (s : Store) (stack : List Context) (environment : Environment) (callee : Value)
    (args : List Value) (names : List String) :
    Leaves s stack (requestEvents stack (some (s, .call callee args names)))
      (call s stack environment callee args names) := by
  cases hcallee : s.deref callee with
  | procedure id =>
      cases hcallable : s.callables[id]? with
      | none =>
          simp only [requestEvents, closings, Store.closed?, Store.stops?, call, hcallee, hcallable]
          exact leaves_same rfl rfl
      | some c =>
          simp only [call, hcallee, hcallable]
          cases c with
          | procedure p =>
              simp only [requestEvents, closings, Store.closed?, Store.stops?, hcallee, hcallable]
              exact (spares_enter s stack environment p args names).leaves
          | constructor record fields =>
              simp only [requestEvents, closings, Store.closed?, Store.stops?, hcallee, hcallable,
                callCallable]
              split
              · exact leaves_same rfl rfl
              · rename_i hconstruct
                exact leaves_same (Store.pool_of_activity (Store.activity_construct hconstruct)) rfl
          | builtin b =>
              cases hnames : names.isEmpty with
              | true =>
                  simp only [callCallable, hnames, if_true]
                  exact leaves_builtin hcallee hcallable hnames
              | false =>
                  simp only [requestEvents, closings, Store.closed?, Store.stops?, hcallee, hcallable,
                    hnames, callCallable]
                  exact leaves_same rfl rfl
  | _ =>
      simp only [requestEvents, closings, Store.closed?, Store.stops?, call, hcallee]
      exact leaves_same rfl rfl

/-- A malfunction calls nothing. -/
theorem spares_malfunction (s : Store) (stack : List Context) (frame : Nat) (e : Malfunction) :
    Spares s stack (malfunction s stack frame e) := by
  unfold malfunction
  rcases fault_cases s stack frame ⟨.malfunction e, []⟩ with
    ⟨rest, rfl, -, hfault⟩ | ⟨f, g, q, environment, -, -, hrecovery, -⟩ | ⟨-, hfault⟩ |
    ⟨f, g, -, -, -, hfault⟩
  · rw [hfault]
    exact ⟨rfl, rfl⟩
  · rw [recovery?_malfunction] at hrecovery
    cases hrecovery
  · rw [hfault]
    exact spares_leave s stack frame _
  · rw [hfault]
    exact (spares_leave _ stack frame _).after rfl

theorem spares_jump (s : Store) (stack : List Context) (frame : Nat) (label : Ir.Label) :
    Spares s stack (jump s stack frame label) := by
  unfold jump
  split
  · exact ⟨rfl, rfl⟩
  · split
    · exact ⟨rfl, rfl⟩
    · exact spares_malfunction s stack frame _

theorem spares_failed (s : Store) (stack : List Context) (frame : Nat) (onFail : Option Ir.Label) :
    Spares s stack (failed s stack frame onFail) := by
  cases onFail with
  | none => exact ⟨rfl, rfl⟩
  | some label => exact spares_jump s stack frame label

theorem spares_resume (s : Store) (stack : List Context) (k : Continuation) :
    Spares s stack (resume s stack k) := by
  cases k with
  | activation frame label => exact spares_jump s stack frame label
  | _ => exact ⟨rfl, rfl⟩

theorem spares_deliver
    (s : Store) (stack : List Context) (frame : Nat) (label : Ir.Label) (rest : List Ir.Instruction)
    (d : Ir.Destination) (o : Outcome) :
    Spares s stack (deliver s stack frame label rest d o) := by
  unfold deliver
  split
  · exact ⟨rfl, rfl⟩
  · split
    · exact spares_malfunction s stack frame _
    · exact (spares_failed _ stack frame _).after rfl
    · exact ⟨rfl, rfl⟩

theorem leaves_activate (s : Store) (stack : List Context) (id : Nat) :
    Leaves s stack [] (activate s stack id) := by
  have hstart : (s.producer id).isAtRest = true → ∀ frame label,
      Leaves s stack [] (jump (s.setProducer id .running) (.consuming id :: stack) frame label) := by
    intro hrest frame label
    obtain ⟨hpool, hconsumers⟩ :=
      spares_jump (s.setProducer id .running) (.consuming id :: stack) frame label
    unfold Leaves
    rw [hconsumers]
    exact .start hrest hpool
  unfold activate
  split
  · rename_i frame label hproducer
    exact hstart (by rw [hproducer]; rfl) frame label
  · rename_i frame label hproducer
    exact hstart (by rw [hproducer]; rfl) frame label
  · exact leaves_halt s stack .blocked
  · exact leaves_same rfl rfl

theorem leaves_invoke (s : Store) (stack : List Context) (op : String) (args : List Value) :
    Leaves s stack (requestEvents stack (some (s, .operator op args))) (invoke s stack op args) := by
  have hpool := Store.pool_of_activity (s.activity_invoke op args)
  simp only [requestEvents, closings, Store.closed?, Store.stops?, List.nil_append]
  cases hinvoke : s.invoke op args with
  | mk answer t =>
      rw [hinvoke] at hpool
      cases answer with
      | reply r =>
          simp only [invoke, hinvoke]
          have h := Shifts.after (leaves_reply t stack r) hpool
          cases r <;> exact h
      | activate id =>
          simp only [invoke, hinvoke]
          exact Shifts.after (leaves_activate t stack id) hpool

theorem leaves_start
    (s : Store) (stack : List Context) (environment : Environment) (q : Request) :
    Leaves s stack (requestEvents stack (some (s, q))) (q.start s stack environment) := by
  cases q with
  | call callee args names => exact leaves_call s stack environment callee args names
  | operator op args => exact leaves_invoke s stack op args

theorem leaves_fault (s : Store) (stack : List Context) (frame : Nat) (r : Raised) :
    Leaves s stack (requestEvents stack (recovery? s stack frame r)) (fault s stack frame r) := by
  rcases fault_cases s stack frame r with
    ⟨rest, rfl, hnone, hfault⟩ | ⟨f, g, q, environment, -, -, hrecovery, hfault⟩ | ⟨hnone, hfault⟩ |
    ⟨f, g, -, -, hnone, hfault⟩
  · rw [hnone, hfault]
    exact leaves_same rfl rfl
  · rw [hrecovery, hfault]
    exact Shifts.after (leaves_start (s.setFrame frame g) (.recovering frame :: stack) environment q) rfl
  · rw [hnone, hfault]
    exact (spares_leave s stack frame r).leaves
  · rw [hnone, hfault]
    have hleave : Spares s stack (leave (s.setFrame frame g) stack frame r) :=
      (spares_leave _ stack frame r).after rfl
    exact hleave.leaves

end Machine

/-! ### Instructions -/

namespace Store

theorem activity_changed (s : Store) (f : Frame) (e : Except Malfunction Frame) :
    (s.changed f e).2.2.activity = s.activity := by
  cases e <;> rfl

theorem activity_executeSelect
    (s : Store) (f : Frame) (cases : List Ir.Case) (onFail : Option Ir.Label) :
    (s.executeSelect f cases onFail).2.2.activity = s.activity := by
  unfold executeSelect
  split
  · rfl
  · rename_i waits _
    have hchoose := s.activity_choose waits
    split <;> rename_i heq <;> rw [heq] at hchoose
    · exact hchoose
    · exact hchoose
    · split
      · unfold storeReceived
        split
        · exact hchoose
        · split <;> exact hchoose
      · exact hchoose
      · exact hchoose

/-- Only `create` changes what can run. -/
theorem activity_execute
    (s : Store) (f : Frame) {i : Ir.Instruction}
    (h : ∀ target entry, i ≠ .create target entry) :
    (s.execute f i).2.2.activity = s.activity := by
  cases i with
  | create target entry => exact absurd rfl (h target entry)
  | literal target value => exact activity_changed s f _
  | name target name => exact activity_changed s f _
  | move target source => exact activity_changed s f _
  | deref target source => exact activity_changed s f _
  | moveLabel target label => exact activity_changed s f _
  | dynamic target name assignable =>
      simp only [execute]
      split
      · rename_i v t hresolve
        exact (activity_changed t f _).trans (activity_resolve hresolve)
      · rfl
  | field target record field assignable onFail =>
      simp only [execute, executeField]
      split
      · rfl
      · split
        · split
          · exact activity_changed s f _
          · rfl
        · rfl
  | enter scope names dynamics => exact s.activity_enterScope f scope names dynamics
  | select cases onFail => exact s.activity_executeSelect f cases onFail
  | succeed value again =>
      cases value with
      | none => rfl
      | some slot =>
          simp only [execute]
          split <;> rfl
  | indirect source targets =>
      simp only [execute]
      split
      · rfl
      · split <;> rfl
  | goto target => rfl
  | fail => rfl
  | exhaust => rfl
  | coordinate coord => rfl
  | _ =>
      simp only [execute]
      split <;> rfl

theorem changed_ne_halt (s : Store) (f : Frame) (e : Except Malfunction Frame) (h : Halt) :
    (s.changed f e).1 ≠ .halt h := by
  cases e <;> simp [changed]

theorem storeReceived_ne_halt
    (s : Store) (f : Frame) (slot : Nat) (v : Value) (body : Ir.Label) (h : Halt) :
    (s.storeReceived f slot v body).1 ≠ .halt h := by
  unfold storeReceived
  split
  · simp
  · split <;> simp

/-- An instruction stops the program only when it would wait for ever. -/
theorem execute_eq_halt
    {s : Store} {f : Frame} {i : Ir.Instruction} {h : Halt}
    (heq : (s.execute f i).1 = .halt h) :
    h = .blocked := by
  cases i with
  | select cases onFail =>
      simp only [execute, executeSelect] at heq
      split at heq
      · cases heq
      · split at heq
        · cases heq
        · cases heq
          rfl
        · split at heq
          · exact absurd heq (storeReceived_ne_halt _ _ _ _ _ h)
          · cases heq
          · cases heq
  | literal target value => exact absurd heq (changed_ne_halt s f _ h)
  | name target name => exact absurd heq (changed_ne_halt s f _ h)
  | move target source => exact absurd heq (changed_ne_halt s f _ h)
  | deref target source => exact absurd heq (changed_ne_halt s f _ h)
  | moveLabel target label => exact absurd heq (changed_ne_halt s f _ h)
  | dynamic target name assignable =>
      simp only [execute] at heq
      split at heq
      · exact absurd heq (changed_ne_halt _ f _ h)
      · cases heq
  | create target entry =>
      simp only [execute] at heq
      split at heq
      · exact absurd heq (changed_ne_halt _ f _ h)
      · cases heq
  | field target record field assignable onFail =>
      simp only [execute, executeField] at heq
      split at heq
      · cases heq
      · split at heq
        · split at heq
          · exact absurd heq (changed_ne_halt _ f _ h)
          · cases heq
        · cases heq
  | succeed value again =>
      cases value with
      | none => cases heq
      | some slot =>
          simp only [execute] at heq
          split at heq <;> cases heq
  | indirect source targets =>
      simp only [execute] at heq
      split at heq
      · cases heq
      · split at heq <;> cases heq
  | enter scope names dynamics => cases heq
  | goto target => cases heq
  | fail => cases heq
  | exhaust => cases heq
  | coordinate coord => cases heq
  | _ =>
      simp only [execute] at heq
      split at heq <;> cases heq

end Store

namespace Machine

open Pool

variable {s t : Store} {stack : List Context}

/-- What an instruction has asked for, unless it stops the program for want of a queue. -/
theorem leaves_perform
    (s : Store) (stack : List Context) (frame : Nat) (label : Ir.Label) (rest : List Ir.Instruction)
    (environment : Environment) {e : Effect}
    (he : ∀ h, e = .halt h → h = .blocked) :
    Leaves s stack (requestEvents stack (effectRequest? s stack frame e))
      (perform s stack frame label rest environment e) := by
  cases e with
  | next => exact leaves_same rfl rfl
  | goto target => exact (spares_jump s stack frame target).leaves
  | failed onFail => exact (spares_failed s stack frame onFail).leaves
  | succeed v again => cases again <;> exact leaves_same rfl rfl
  | call d callee args names =>
      exact leaves_call s (.awaiting frame label rest d :: stack) environment callee args names
  | operator d op args => exact leaves_invoke s (.awaiting frame label rest d :: stack) op args
  | resume d k =>
      cases k with
      | none => exact leaves_same rfl rfl
      | some k => exact (spares_resume s (.awaiting frame label rest d :: stack) k).leaves
  | produce v again =>
      simp only [perform]
      split
      · exact .hand rfl rfl
      · exact (spares_malfunction s stack frame _).leaves
  | exhaust =>
      simp only [perform]
      split
      · exact leaves_same rfl rfl
      · exact (spares_malfunction s stack frame _).leaves
  | halt reason =>
      cases he reason rfl
      exact leaves_halt s stack .blocked
  | fault f => exact leaves_fault s stack frame ⟨f, []⟩

/-- The creation of a co-expression takes a place. -/
theorem pool_createProducer
    {f : Frame} {entry : Ir.Label} {v : Value}
    (h : s.createProducer f entry = .ok (v, t)) :
    s.active < s.limit ∧ v = .coexpression (s.producers.size + 1) ∧
      t.pool = ⟨s.producers.push (.fresh s.frames.size entry), s.active + 1, s.limit, s.prompt⟩ := by
  obtain ⟨copy, -, -, -, hproducers, -, rfl⟩ := Store.createProducer_eq_ok h
  unfold Store.createProducer at h
  split at h
  · rename_i hfree
    simp only [Except.ok.injEq, Prod.mk.injEq] at h
    obtain ⟨-, rfl⟩ := h
    let node := s.taskEnvironment f.environment (s.producers.size + 1)
    have hactivity : (node.2.duplicateFrame f node.1).2.activity = s.activity :=
      (node.2.activity_duplicateFrame f node.1).trans
        (s.activity_taskEnvironment f.environment (s.producers.size + 1))
    have hactive : (node.2.duplicateFrame f node.1).2.active = s.active :=
      congrArg Activity.active hactivity
    have hlimit : (node.2.duplicateFrame f node.1).2.limit = s.limit :=
      congrArg Activity.limit hactivity
    have hprompt : (node.2.duplicateFrame f node.1).2.prompt = s.prompt :=
      congrArg Activity.prompt hactivity
    refine ⟨hfree, rfl, Places.mk.injEq .. ▸ ⟨hproducers, ?_, hlimit, hprompt⟩⟩
    exact congrArg (· + 1) hactive
  · cases h

theorem ending?_running (s : Store) (stack : List Context) (frame : Nat) (label : Ir.Label)
    (rest : List Ir.Instruction) :
    ending? ⟨s, stack, .running frame label rest⟩ = none := by
  cases stack with
  | nil => rfl
  | cons c stack => cases c <;> rfl

/-- The creation of a co-expression, whether its number finds a slot or not. -/
theorem leaves_create
    {stack : List Context} {frame : Nat} {label entry : Ir.Label} {target : Ir.Slot}
    {rest : List Ir.Instruction} {f : Frame}
    (hframe : s.frames[frame]? = some f) :
    Leaves s stack (events ⟨s, stack, .running frame label (.create target entry :: rest)⟩
        (request? ⟨s, stack, .running frame label (.create target entry :: rest)⟩))
      (step ⟨s, stack, .running frame label (.create target entry :: rest)⟩) := by
  cases hcreate : s.createProducer f entry with
  | error e =>
      have hexecute : s.execute f (.create target entry) = (.fault e, f, s) := by
        simp only [Store.execute, hcreate]
      rw [step_running hframe hexecute]
      simp only [events, creation?, hframe, Option.map_some, hcreate, ending?_running, request?, hexecute]
      have hfault : ∀ h, Effect.fault e = .halt h → h = .blocked := by simp
      exact Shifts.after (leaves_perform (s.setFrame frame f) stack frame label rest f.environment hfault) rfl
  | ok created =>
      obtain ⟨v, t⟩ := created
      obtain ⟨hfree, rfl, hpool⟩ := pool_createProducer hcreate
      cases hset : f.set target (.coexpression (s.producers.size + 1)) with
      | ok g =>
          have hexecute : s.execute f (.create target entry) = (.next, g, t) := by
            simp only [Store.execute, hcreate, hset, Store.changed]
          rw [step_running hframe hexecute]
          simp only [events, creation?, hframe, Option.map_some, hcreate, ending?_running, request?, hexecute,
            effectRequest?]
          exact .create hfree hpool
      | error e =>
          have hexecute : s.execute f (.create target entry) = (.fault (.malfunction e), f, t) := by
            simp only [Store.execute, hcreate, hset, Store.changed]
          rw [step_running hframe hexecute]
          simp only [events, creation?, hframe, Option.map_some, hcreate, ending?_running, request?, hexecute,
            effectRequest?, recovery?_malfunction]
          obtain ⟨hspared, hconsumers⟩ := spares_malfunction (t.setFrame frame f) stack frame e
          unfold Leaves
          rw [show perform (t.setFrame frame f) stack frame label rest f.environment
            (.fault (.malfunction e)) = malfunction (t.setFrame frame f) stack frame e from rfl, hconsumers]
          exact .create hfree (hspared.trans hpool)

/-- The body of a co-expression is at its end. -/
theorem events_ending
    {id : Nat} {control : Control}
    (hcontrol : (∃ o, control = .returning o) ∨ ∃ r, control = .raising r) :
    events ⟨s, .consuming id :: stack, control⟩ none = endings s id := by
  rcases hcontrol with ⟨o, rfl⟩ | ⟨r, rfl⟩ <;> simp [events, creation?, ending?, requestEvents]

theorem creation?_of_ne
    {frame : Nat} {label : Ir.Label} {i : Ir.Instruction} {rest : List Ir.Instruction}
    (h : ∀ target entry, i ≠ .create target entry) :
    creation? ⟨s, stack, .running frame label (i :: rest)⟩ = none := by
  cases i with
  | create target entry => exact absurd rfl (h target entry)
  | _ => rfl

theorem leaves_advance
    (s : Store) (stack : List Context) (frame : Nat) (label : Ir.Label) (rest : List Ir.Instruction) :
    Leaves s stack (events ⟨s, stack, .running frame label rest⟩
        (request? ⟨s, stack, .running frame label rest⟩))
      (step ⟨s, stack, .running frame label rest⟩) := by
  cases rest with
  | nil =>
      simp only [events, creation?, ending?_running, request?, step, advance]
      split
      · exact leaves_same rfl rfl
      · exact (spares_malfunction s stack frame _).leaves
      · rename_i hrest
        cases hrest
  | cons i rest =>
      cases hframe : s.frames[frame]? with
      | none =>
          have hcreation : creation? ⟨s, stack, .running frame label (i :: rest)⟩ = none := by
            cases i with
            | create target entry => simp [creation?, hframe]
            | _ => rfl
          simp only [events, hcreation, ending?_running, request?, step, advance, hframe]
          exact leaves_same rfl rfl
      | some f =>
          by_cases hcreate : ∃ target entry, i = .create target entry
          · obtain ⟨target, entry, rfl⟩ := hcreate
            exact leaves_create hframe
          · have hne : ∀ target entry, i ≠ .create target entry :=
              fun target entry heq => hcreate ⟨target, entry, heq⟩
            have hpool := Store.pool_of_activity (s.activity_execute f hne)
            have hblocked : ∀ h, (s.execute f i).1 = .halt h → h = .blocked :=
              fun h => Store.execute_eq_halt
            simp only [events, creation?_of_ne hne, ending?_running, request?, step, advance, hframe]
            exact Shifts.after (leaves_perform _ stack frame label rest _ hblocked) hpool

/-- Every step shifts the pool as its events say. -/
theorem leaves_step (m : Machine) :
    Leaves m.store m.stack (events m m.request?) m.step := by
  obtain ⟨s, stack, control⟩ := m
  cases control with
  | running frame label rest => exact leaves_advance s stack frame label rest
  | halted reason =>
      cases stack with
      | nil => exact leaves_same rfl rfl
      | cons c stack => cases c <;> exact leaves_same rfl rfl
  | aborted r =>
      cases stack with
      | nil => exact leaves_same rfl rfl
      | cons c stack => cases c <;> exact leaves_same rfl rfl
  | returning o =>
      cases stack with
      | nil => exact leaves_same rfl rfl
      | cons c stack =>
          cases c with
          | awaiting frame label rest d => exact (spares_deliver s stack frame label rest d o).leaves
          | recovering frame => exact leaves_same rfl rfl
          | bare => exact leaves_same rfl rfl
          | consuming id =>
              have hevents : events ⟨s, .consuming id :: stack, .returning o⟩ none = endings s id :=
                events_ending (Or.inl ⟨o, rfl⟩)
              simp only [request?, hevents]
              exact .finish rfl rfl
  | raising r =>
      cases stack with
      | nil => exact leaves_same rfl rfl
      | cons c stack =>
          cases c with
          | awaiting frame label rest d => exact leaves_fault s stack frame r
          | recovering frame => exact (spares_leave s stack frame r).leaves
          | bare => exact leaves_same rfl rfl
          | consuming id =>
              have hevents : events ⟨s, .consuming id :: stack, .raising r⟩ none = endings s id :=
                events_ending (Or.inr ⟨r, rfl⟩)
              simp only [request?, hevents]
              exact .finish rfl rfl

end Machine

end Pool

end GoalDirected
