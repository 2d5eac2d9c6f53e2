import GoalDirected.Proofs.Coexpression.Observation
import GoalDirected.Proofs.Machine.Grounding

/-!
# The rendezvous of a co-expression

**Input.** A co-expression as a task of its own.  Its holders and its task share a queue of requests with room for
one, and a queue of results with some room.  An activation takes the lock of the link, puts in a request and waits
for a result; the task waits for a request, works on it, puts in the result and waits again.  Whoever holds the link
may close it.  What the task works on is the body that the machine runs, with the co-expressions that it activates in
its turn, in a store that others may change between any two of its steps.

**Argument.** All that a run can come to is listed in `Mirrors`, together with the state of a sequential machine that
works on the body only while an activation is pending.  Every step of either party keeps to that list, and shows what
a step of the sequential machine shows, or nothing.

**Results.**
* `Step`: what the parties do, each queue operation a step of its own.
* `Serial.Step`: the sequential machine.
* `Mirrors.step`: the parties do nothing that the sequential machine does not do.
* `Mirrors.ready`, `measure_lt_of_step`: no step but those of the body can be missing for long.
* `Mirrors.realizes`: the parties do all that the sequential machine does, with any room for results.
-/

namespace GoalDirected
namespace Rendezvous

section Defs

open Coexpression

/-! ## Bodies -/

/-- What the task puts into the queue of results. -/
abbrev Message := Except Raised Value

/-- What an activation gets for what it has found in the queue. -/
def answer : Option Message → Delivery
  | some (.ok v) => .value v
  | some (.error r) => .error r
  | none => .failure

/-- Where a body goes on: a chunk of its frame. -/
structure Place where
  frame : Nat
  label : Ir.Label
deriving DecidableEq

/-- Where the body of a co-expression will go on, if it has not ended and is not at work. -/
def place? (s : Store) (c : Nat) : Option Place :=
  match s.producer c with
  | .fresh frame label => some ⟨frame, label⟩
  | .waiting frame label => some ⟨frame, label⟩
  | .running => none
  | .ended => none

/-- What a step of a body comes to. -/
inductive Turn where
  | goesOn (stack : List Context) (control : Control)
  | hands (v : Value) (place : Place)
  | ends (last : Option Message)

/-- What a machine has come to that runs the body.  A body that has to wait makes no step; one that is in a recursion
without an end goes on with it. -/
def turn? (c : Nat) (m : Machine) : Option Turn :=
  match m.stack, m.control with
  | _, .halted _ => none
  | [], .returning o =>
      match o.value?, place? m.store c with
      | some v, some place => some (.hands v place)
      | v, _ => some (.ends (v.map .ok))
  | [], .raising r => some (.ends (some (.error r)))
  | stack, control => some (.goesOn stack control)

/-- The body at the place where it goes on, with nothing but its consumer below. -/
def begin (c : Nat) (s : Store) (b : Place) : Machine :=
  Machine.jump (s.setProducer c .running) [.consuming c] b.frame b.label

/-! ## Parties -/

/-- What can be seen: activations with their number and what they get, closes, and the steps of the body. -/
inductive Event where
  | asked (n : Nat)
  | answered (n : Nat) (d : Delivery)
  | closed
  /-- The body is taken up again. -/
  | resumed (s t : Store)
  /-- The body makes a step. -/
  | worked (s t : Store)

/-- The event is one of the body. -/
def Event.isWork : Event → Bool
  | .resumed _ _ => true
  | .worked _ _ => true
  | _ => false

/-- The holders' side of the two queues. -/
structure Link where
  exhausted : Bool
  /-- Requests can be put in. -/
  asking : Bool
  /-- Results are taken. -/
  listening : Bool

/-- A link of which no activation has seen the end. -/
def Link.live : Link := ⟨false, true, true⟩

/-- A link that takes no requests any more. -/
def Link.shut : Link := ⟨true, false, true⟩

/-- A link that has been finished. -/
def Link.finished : Link := ⟨true, false, false⟩

/-- Who has the lock of the link, and how far he has come. -/
inductive Holder where
  | free
  /-- Activation `n` has taken the lock. -/
  | looks (n : Nat)
  /-- It is about to put in its request. -/
  | asks (n : Nat)
  /-- It waits for a result. -/
  | awaits (n : Nat)
  /-- Its request was not taken: it looks for a result that has been left. -/
  | polls (n : Nat)
  /-- It has a message for some activation, or knows that there will be none. -/
  | holds (n : Nat) (found : Option (Nat × Message))
  /-- The link is to be finished, by a close or before an activation is answered. -/
  | shuts (reply : Option (Nat × Delivery))
  | closes (reply : Option (Nat × Delivery))

/-- How far the task has come. -/
inductive Task where
  /-- It waits for a request. -/
  | waits (b : Place)
  /-- It works on the request of activation `n`. -/
  | works (n : Nat) (stack : List Context) (control : Control)
  /-- It is about to put in a value. -/
  | sends (n : Nat) (v : Value) (b : Place)
  /-- The body has ended.  The frame goes first, and with it the end of the queue of requests. -/
  | drops (n : Nat) (last : Option Message)
  /-- It is about to put in its last message. -/
  | lasts (n : Nat) (last : Option Message)
  /-- It is about to leave its end of the queue of results. -/
  | leaves
  | gone

/-- Requests can be taken. -/
def Task.isReceiving : Task → Bool
  | .waits _ => true
  | .works _ _ _ => true
  | .sends _ _ _ => true
  | .drops _ _ => true
  | _ => false

/-- The task has done all that can be seen of it. -/
def Task.isLeaving : Task → Bool
  | .leaves => true
  | .gone => true
  | _ => false

/-- The task is not on a request. -/
def Task.isQuiet : Task → Bool
  | .waits _ => true
  | .leaves => true
  | .gone => true
  | _ => false

/-- What the task does after a step of the body. -/
def Task.after (n : Nat) : Turn → Task
  | .goesOn stack control => .works n stack control
  | .hands v b => .sends n v b
  | .ends last => .drops n last

structure Parties where
  /-- The requests on their way, each with the number of its activation. -/
  requests : List Nat
  /-- The results on their way, each with the number of the activation that has asked for it. -/
  results : List (Nat × Message)
  link : Link
  holder : Holder
  task : Task
  /-- The number of activations up to now. -/
  count : Nat

/-- A co-expression that has just been created. -/
def Parties.new (b : Place) : Parties :=
  ⟨[], [], .live, .free, .waits b, 0⟩

variable (c room : Nat)

/-- One step of one party, with what can be seen of it. -/
inductive Step : Parties → Option Event → Parties → Prop
  /-- Some holder takes the lock for an activation. -/
  | ask
      {qs : List Nat} {rs : List (Nat × Message)} {l : Link} {t : Task} {k : Nat} :
      Step ⟨qs, rs, l, .free, t, k⟩ (some (.asked k)) ⟨qs, rs, l, .looks k, t, k + 1⟩
  | refuse
      {qs : List Nat} {rs : List (Nat × Message)} {l : Link} {n : Nat} {t : Task} {k : Nat}
      (hexhausted : l.exhausted = true) :
      Step ⟨qs, rs, l, .looks n, t, k⟩ (some (.answered n .failure)) ⟨qs, rs, l, .free, t, k⟩
  | look
      {qs : List Nat} {rs : List (Nat × Message)} {l : Link} {n : Nat} {t : Task} {k : Nat}
      (hexhausted : l.exhausted = false) :
      Step ⟨qs, rs, l, .looks n, t, k⟩ none ⟨qs, rs, l, .asks n, t, k⟩
  | request
      {qs : List Nat} {rs : List (Nat × Message)} {l : Link} {n : Nat} {t : Task} {k : Nat}
      (hasking : l.asking = true)
      (hreceiving : t.isReceiving = true)
      (hroom : qs.length < 1) :
      Step ⟨qs, rs, l, .asks n, t, k⟩ none ⟨qs ++ [n], rs, l, .awaits n, t, k⟩
  | unheard
      {qs : List Nat} {rs : List (Nat × Message)} {l : Link} {n : Nat} {t : Task} {k : Nat}
      (hclosed : l.asking = false ∨ t.isReceiving = false) :
      Step ⟨qs, rs, l, .asks n, t, k⟩ none ⟨qs, rs, l, .polls n, t, k⟩
  | take
      {qs : List Nat} {x : Nat × Message} {rs : List (Nat × Message)} {l : Link} {n : Nat} {t : Task} {k : Nat} :
      Step ⟨qs, x :: rs, l, .awaits n, t, k⟩ none ⟨qs, rs, l, .holds n (some x), t, k⟩
  /-- Nobody is left who could put in a result. -/
  | miss
      {qs : List Nat} {l : Link} {n : Nat} {k : Nat} :
      Step ⟨qs, [], l, .awaits n, .gone, k⟩ none ⟨qs, [], l, .holds n none, .gone, k⟩
  | poll
      {qs : List Nat} {x : Nat × Message} {rs : List (Nat × Message)} {l : Link} {n : Nat} {t : Task} {k : Nat} :
      Step ⟨qs, x :: rs, l, .polls n, t, k⟩ none ⟨qs, rs, l, .holds n (some x), t, k⟩
  | pollNothing
      {qs : List Nat} {l : Link} {n : Nat} {t : Task} {k : Nat} :
      Step ⟨qs, [], l, .polls n, t, k⟩ none ⟨qs, [], l, .holds n none, t, k⟩
  | hand
      {qs : List Nat} {rs : List (Nat × Message)} {l : Link} {n m : Nat} {v : Value} {t : Task} {k : Nat} :
      Step ⟨qs, rs, l, .holds n (some (m, .ok v)), t, k⟩ (some (.answered n (.value v)))
        ⟨qs, rs, l, .free, t, k⟩
  | fail
      {qs : List Nat} {rs : List (Nat × Message)} {l : Link} {n m : Nat} {r : Raised} {t : Task} {k : Nat} :
      Step ⟨qs, rs, l, .holds n (some (m, .error r)), t, k⟩ none
        ⟨qs, rs, l, .shuts (some (n, .error r)), t, k⟩
  | stop
      {qs : List Nat} {rs : List (Nat × Message)} {l : Link} {n : Nat} {t : Task} {k : Nat} :
      Step ⟨qs, rs, l, .holds n none, t, k⟩ none ⟨qs, rs, l, .shuts (some (n, .failure)), t, k⟩
  /-- Some holder takes the lock to close the link.  Letting go of the last hold on it does the same. -/
  | close
      {qs : List Nat} {rs : List (Nat × Message)} {l : Link} {t : Task} {k : Nat} :
      Step ⟨qs, rs, l, .free, t, k⟩ (some .closed) ⟨qs, rs, l, .shuts none, t, k⟩
  | shut
      {qs : List Nat} {rs : List (Nat × Message)} {l : Link} {reply : Option (Nat × Delivery)} {t : Task} {k : Nat} :
      Step ⟨qs, rs, l, .shuts reply, t, k⟩ none
        ⟨qs, rs, { l with exhausted := true, asking := false }, .closes reply, t, k⟩
  | finish
      {qs : List Nat} {rs : List (Nat × Message)} {l : Link} {reply : Option (Nat × Delivery)} {t : Task} {k : Nat} :
      Step ⟨qs, rs, l, .closes reply, t, k⟩ (reply.map fun x => .answered x.1 x.2)
        ⟨qs, rs, { l with listening := false }, .free, t, k⟩
  | resume
      {n : Nat} {qs : List Nat} {rs : List (Nat × Message)} {l : Link} {h : Holder} {b : Place} {k : Nat}
      {s : Store} {x : Turn}
      (hturn : turn? c (begin c s b) = some x) :
      Step ⟨n :: qs, rs, l, h, .waits b, k⟩ (some (.resumed s (begin c s b).store))
        ⟨qs, rs, l, h, .after n x, k⟩
  /-- No request is left, and nobody can put one in. -/
  | abandon
      {rs : List (Nat × Message)} {l : Link} {h : Holder} {b : Place} {k : Nat}
      (hasking : l.asking = false) :
      Step ⟨[], rs, l, h, .waits b, k⟩ none ⟨[], rs, l, h, .leaves, k⟩
  | work
      {qs : List Nat} {rs : List (Nat × Message)} {l : Link} {h : Holder} {n k : Nat} {stack : List Context}
      {control : Control} {s : Store} {x : Turn}
      (hturn : turn? c (Machine.step ⟨s, stack, control⟩) = some x) :
      Step ⟨qs, rs, l, h, .works n stack control, k⟩
        (some (.worked s (Machine.step ⟨s, stack, control⟩).store)) ⟨qs, rs, l, h, .after n x, k⟩
  | send
      {qs : List Nat} {rs : List (Nat × Message)} {l : Link} {h : Holder} {n : Nat} {v : Value} {b : Place} {k : Nat}
      (hlistening : l.listening = true)
      (hroom : rs.length < room) :
      Step ⟨qs, rs, l, h, .sends n v b, k⟩ none ⟨qs, rs ++ [(n, .ok v)], l, h, .waits b, k⟩
  | unsent
      {qs : List Nat} {rs : List (Nat × Message)} {l : Link} {h : Holder} {n : Nat} {v : Value} {b : Place} {k : Nat}
      (hlistening : l.listening = false) :
      Step ⟨qs, rs, l, h, .sends n v b, k⟩ none ⟨qs, rs, l, h, .leaves, k⟩
  | drop
      {qs : List Nat} {rs : List (Nat × Message)} {l : Link} {h : Holder} {n : Nat} {last : Option Message} {k : Nat} :
      Step ⟨qs, rs, l, h, .drops n last, k⟩ none ⟨qs, rs, l, h, .lasts n last, k⟩
  | sendLast
      {qs : List Nat} {rs : List (Nat × Message)} {l : Link} {h : Holder} {n : Nat} {x : Message} {k : Nat}
      (hlistening : l.listening = true)
      (hroom : rs.length < room) :
      Step ⟨qs, rs, l, h, .lasts n (some x), k⟩ none ⟨qs, rs ++ [(n, x)], l, h, .leaves, k⟩
  | unsentLast
      {qs : List Nat} {rs : List (Nat × Message)} {l : Link} {h : Holder} {n : Nat} {x : Message} {k : Nat}
      (hlistening : l.listening = false) :
      Step ⟨qs, rs, l, h, .lasts n (some x), k⟩ none ⟨qs, rs, l, h, .leaves, k⟩
  | endSilently
      {qs : List Nat} {rs : List (Nat × Message)} {l : Link} {h : Holder} {n : Nat} {k : Nat} :
      Step ⟨qs, rs, l, h, .lasts n none, k⟩ none ⟨qs, rs, l, h, .leaves, k⟩
  | leave
      {qs : List Nat} {rs : List (Nat × Message)} {l : Link} {h : Holder} {k : Nat} :
      Step ⟨qs, rs, l, h, .leaves, k⟩ none ⟨qs, rs, l, h, .gone, k⟩

/-- A sequence of steps with what can be seen of it. -/
inductive Run : Parties → List Event → Parties → Prop
  | refl (p : Parties) : Run p [] p
  | step
      {p q r : Parties} {es : List Event} {e : Option Event}
      (hstep : Step c room p e q)
      (hrun : Run q es r) :
      Run p (e.toList ++ es) r

/-! ## The sequential machine -/

/-- How far a sequential machine has come. -/
inductive Phase where
  /-- Nobody asks.  The body will go on at the place, or it has ended. -/
  | idle (b : Option Place)
  | pending (n : Nat) (b : Place)
  /-- The body is at work for activation `n`. -/
  | busy (n : Nat) (stack : List Context) (control : Control)
  /-- Activation `n` is about to be answered. -/
  | handing (n : Nat) (found : Option Message) (b : Option Place)

/-- What a step of the body comes to for the activation. -/
def Phase.after (n : Nat) : Turn → Phase
  | .goesOn stack control => .busy n stack control
  | .hands v b => .handing n (some (.ok v)) (some b)
  | .ends last => .handing n last none

structure Serial where
  phase : Phase
  count : Nat

namespace Serial

def new (b : Place) : Serial :=
  ⟨.idle (some b), 0⟩

inductive Step : Serial → Event → Serial → Prop
  | ask {b : Place} {k : Nat} : Step ⟨.idle (some b), k⟩ (.asked k) ⟨.pending k b, k + 1⟩
  | askEnded {k : Nat} : Step ⟨.idle none, k⟩ (.asked k) ⟨.handing k none none, k + 1⟩
  | close {b : Option Place} {k : Nat} : Step ⟨.idle b, k⟩ .closed ⟨.idle none, k⟩
  | resume
      {n k : Nat} {b : Place} {s : Store} {x : Turn}
      (hturn : turn? c (begin c s b) = some x) :
      Step ⟨.pending n b, k⟩ (.resumed s (begin c s b).store) ⟨.after n x, k⟩
  | work
      {n k : Nat} {stack : List Context} {control : Control} {s : Store} {x : Turn}
      (hturn : turn? c (Machine.step ⟨s, stack, control⟩) = some x) :
      Step ⟨.busy n stack control, k⟩ (.worked s (Machine.step ⟨s, stack, control⟩).store) ⟨.after n x, k⟩
  | answer
      {n k : Nat} {found : Option Message} {b : Option Place} :
      Step ⟨.handing n found b, k⟩ (.answered n (answer found)) ⟨.idle b, k⟩

inductive Run : Serial → List Event → Serial → Prop
  | refl (z : Serial) : Run z [] z
  | step
      {z y x : Serial} {es : List Event} {e : Event}
      (hstep : Step c z e y)
      (hrun : Run y es x) :
      Run z (e :: es) x

end Serial

end Defs

/-! ## Simulation -/

section Simulation

open Coexpression

variable {c room : Nat} {p q : Parties} {z y : Serial} {e : Option Event} {es fs : List Event}

/-- All that the parties can come to, with the state of the sequential machine. -/
inductive Mirrors : Parties → Serial → Prop
  | rest {b : Place} {k : Nat} :
      Mirrors ⟨[], [], .live, .free, .waits b, k⟩ ⟨.idle (some b), k⟩
  /-- The body has ended with a value, and no activation has seen the end. -/
  | ended
      {t : Task} {k : Nat}
      (ht : t.isLeaving = true) :
      Mirrors ⟨[], [], .live, .free, t, k⟩ ⟨.idle none, k⟩
  | finished
      {t : Task} {k : Nat}
      (ht : t.isQuiet = true) :
      Mirrors ⟨[], [], .finished, .free, t, k⟩ ⟨.idle none, k⟩
  | closing
      {l : Link} {t : Task} {k : Nat}
      (hl : l = .live ∨ l = .finished)
      (ht : t.isQuiet = true) :
      Mirrors ⟨[], [], l, .shuts none, t, k⟩ ⟨.idle none, k⟩
  | closed
      {l : Link} {t : Task} {k : Nat}
      (hl : l = .shut ∨ l = .finished)
      (ht : t.isQuiet = true) :
      Mirrors ⟨[], [], l, .closes none, t, k⟩ ⟨.idle none, k⟩
  | asking
      {h : Holder} {b : Place} {n k : Nat}
      (hh : h = .looks n ∨ h = .asks n) :
      Mirrors ⟨[], [], .live, h, .waits b, k⟩ ⟨.pending n b, k⟩
  | requested {b : Place} {n k : Nat} :
      Mirrors ⟨[n], [], .live, .awaits n, .waits b, k⟩ ⟨.pending n b, k⟩
  | working {n k : Nat} {stack : List Context} {control : Control} :
      Mirrors ⟨[], [], .live, .awaits n, .works n stack control, k⟩ ⟨.busy n stack control, k⟩
  | sending {n k : Nat} {v : Value} {b : Place} :
      Mirrors ⟨[], [], .live, .awaits n, .sends n v b, k⟩ ⟨.handing n (some (.ok v)) (some b), k⟩
  | sent {n k : Nat} {v : Value} {b : Place} :
      Mirrors ⟨[], [(n, .ok v)], .live, .awaits n, .waits b, k⟩ ⟨.handing n (some (.ok v)) (some b), k⟩
  | holding {n k : Nat} {v : Value} {b : Place} :
      Mirrors ⟨[], [], .live, .holds n (some (n, .ok v)), .waits b, k⟩ ⟨.handing n (some (.ok v)) (some b), k⟩
  | ending
      {t : Task} {n k : Nat} {last : Option Message}
      (ht : t = .drops n last ∨ t = .lasts n last) :
      Mirrors ⟨[], [], .live, .awaits n, t, k⟩ ⟨.handing n last none, k⟩
  | sentLast
      {t : Task} {n k : Nat} {x : Message}
      (ht : t.isLeaving = true) :
      Mirrors ⟨[], [(n, x)], .live, .awaits n, t, k⟩ ⟨.handing n (some x) none, k⟩
  | silent
      {t : Task} {n k : Nat}
      (ht : t.isLeaving = true) :
      Mirrors ⟨[], [], .live, .awaits n, t, k⟩ ⟨.handing n none none, k⟩
  /-- An activation asks though the body has ended. -/
  | late
      {h : Holder} {t : Task} {n k : Nat}
      (hh : h = .looks n ∨ h = .asks n ∨ h = .polls n)
      (ht : t.isLeaving = true) :
      Mirrors ⟨[], [], .live, h, t, k⟩ ⟨.handing n none none, k⟩
  | holdingLast
      {t : Task} {n k : Nat} {found : Option Message} {x : Option (Nat × Message)}
      (hx : x = found.map fun m => (n, m))
      (ht : t.isLeaving = true) :
      Mirrors ⟨[], [], .live, .holds n x, t, k⟩ ⟨.handing n found none, k⟩
  | shutting
      {t : Task} {n k : Nat} {found : Option Message} {d : Delivery}
      (hd : d = answer found)
      (ht : t.isLeaving = true) :
      Mirrors ⟨[], [], .live, .shuts (some (n, d)), t, k⟩ ⟨.handing n found none, k⟩
  | finishing
      {t : Task} {n k : Nat} {found : Option Message} {d : Delivery}
      (hd : d = answer found)
      (ht : t.isLeaving = true) :
      Mirrors ⟨[], [], .shut, .closes (some (n, d)), t, k⟩ ⟨.handing n found none, k⟩
  | refused
      {t : Task} {n k : Nat}
      (ht : t.isQuiet = true) :
      Mirrors ⟨[], [], .finished, .looks n, t, k⟩ ⟨.handing n none none, k⟩

theorem Task.isQuiet_of_isLeaving
    {t : Task}
    (h : t.isLeaving = true) :
    t.isQuiet = true := by
  cases t with
  | leaves => rfl
  | gone => rfl
  | _ => cases h

theorem Task.isReceiving_of_isLeaving
    {t : Task}
    (h : t.isLeaving = true) :
    t.isReceiving = false := by
  cases t with
  | leaves => rfl
  | gone => rfl
  | _ => cases h

/-- The sequential machine makes the step that is seen, or none. -/
def Serial.Follows (c : Nat) (z : Serial) : Option Event → Serial → Prop
  | none, y => y = z
  | some e, y => Serial.Step c z e y

/-- After a step of the body, the task does what the activation is about to get. -/
theorem mirrors_after (n k : Nat) (x : Turn) :
    Mirrors ⟨[], [], .live, .awaits n, .after n x, k⟩ ⟨.after n x, k⟩ := by
  cases x with
  | goesOn stack control => exact .working
  | hands v b => exact .sending
  | ends last => exact .ending (Or.inl rfl)

/-- Every step of the parties is one of the sequential machine, or is not seen. -/
theorem Mirrors.step
    (h : Mirrors p z)
    (hstep : Step c room p e q) :
    ∃ y, Serial.Follows c z e y ∧ Mirrors q y := by
  cases h with
  | rest =>
      cases hstep with
      | ask => exact ⟨_, .ask, .asking (Or.inl rfl)⟩
      | close => exact ⟨_, .close, .closing (Or.inl rfl) rfl⟩
      | abandon hasking => cases hasking
  | ended ht =>
      cases hstep with
      | ask => exact ⟨_, .askEnded, .late (Or.inl rfl) ht⟩
      | close => exact ⟨_, .close, .closing (Or.inl rfl) (Task.isQuiet_of_isLeaving ht)⟩
      | leave => exact ⟨_, rfl, .ended rfl⟩
      | _ => cases ht
  | finished ht =>
      cases hstep with
      | ask => exact ⟨_, .askEnded, .refused ht⟩
      | close => exact ⟨_, .close, .closing (Or.inr rfl) ht⟩
      | abandon hasking => exact ⟨_, rfl, .finished rfl⟩
      | leave => exact ⟨_, rfl, .finished rfl⟩
      | _ => cases ht
  | closing hl ht =>
      cases hstep with
      | shut =>
          rcases hl with rfl | rfl
          · exact ⟨_, rfl, .closed (Or.inl rfl) ht⟩
          · exact ⟨_, rfl, .closed (Or.inr rfl) ht⟩
      | abandon hasking => exact ⟨_, rfl, .closing hl rfl⟩
      | leave => exact ⟨_, rfl, .closing hl rfl⟩
      | _ => cases ht
  | closed hl ht =>
      cases hstep with
      | finish =>
          rcases hl with rfl | rfl
          · exact ⟨_, rfl, .finished ht⟩
          · exact ⟨_, rfl, .finished ht⟩
      | abandon hasking => exact ⟨_, rfl, .closed hl rfl⟩
      | leave => exact ⟨_, rfl, .closed hl rfl⟩
      | _ => cases ht
  | asking hh =>
      rcases hh with rfl | rfl
      · cases hstep with
        | refuse hexhausted => cases hexhausted
        | look hexhausted => exact ⟨_, rfl, .asking (Or.inr rfl)⟩
        | abandon hasking => cases hasking
      · cases hstep with
        | request hasking hreceiving hroom => exact ⟨_, rfl, .requested⟩
        | unheard hclosed => rcases hclosed with hclosed | hclosed <;> cases hclosed
        | abandon hasking => cases hasking
  | requested =>
      cases hstep with
      | resume hturn => exact ⟨_, .resume hturn, mirrors_after _ _ _⟩
  | working =>
      cases hstep with
      | work hturn => exact ⟨_, .work hturn, mirrors_after _ _ _⟩
  | sending =>
      cases hstep with
      | send hlistening hroom => exact ⟨_, rfl, .sent⟩
      | unsent hlistening => cases hlistening
  | sent =>
      cases hstep with
      | take => exact ⟨_, rfl, .holding⟩
      | abandon hasking => cases hasking
  | holding =>
      cases hstep with
      | hand => exact ⟨_, .answer, .rest⟩
      | abandon hasking => cases hasking
  | ending ht =>
      rcases ht with rfl | rfl
      · cases hstep with
        | drop => exact ⟨_, rfl, .ending (Or.inr rfl)⟩
      · cases hstep with
        | sendLast hlistening hroom => exact ⟨_, rfl, .sentLast rfl⟩
        | unsentLast hlistening => cases hlistening
        | endSilently => exact ⟨_, rfl, .silent rfl⟩
  | sentLast ht =>
      cases hstep with
      | take => exact ⟨_, rfl, .holdingLast rfl ht⟩
      | leave => exact ⟨_, rfl, .sentLast rfl⟩
      | _ => cases ht
  | silent ht =>
      cases hstep with
      | miss => exact ⟨_, rfl, .holdingLast rfl rfl⟩
      | leave => exact ⟨_, rfl, .silent rfl⟩
      | _ => cases ht
  | late hh ht =>
      rcases hh with rfl | rfl | rfl
      · cases hstep with
        | refuse hexhausted => cases hexhausted
        | look hexhausted => exact ⟨_, rfl, .late (Or.inr (Or.inl rfl)) ht⟩
        | leave => exact ⟨_, rfl, .late (Or.inl rfl) rfl⟩
        | _ => cases ht
      · cases hstep with
        | request hasking hreceiving hroom =>
            rw [Task.isReceiving_of_isLeaving ht] at hreceiving
            cases hreceiving
        | unheard hclosed => exact ⟨_, rfl, .late (Or.inr (Or.inr rfl)) ht⟩
        | leave => exact ⟨_, rfl, .late (Or.inr (Or.inl rfl)) rfl⟩
        | _ => cases ht
      · cases hstep with
        | pollNothing => exact ⟨_, rfl, .holdingLast rfl ht⟩
        | leave => exact ⟨_, rfl, .late (Or.inr (Or.inr rfl)) rfl⟩
        | _ => cases ht
  | @holdingLast t n k found x hx ht =>
      subst hx
      rcases found with - | r | v
      · cases hstep with
        | stop => exact ⟨_, rfl, .shutting rfl ht⟩
        | leave => exact ⟨_, rfl, .holdingLast rfl rfl⟩
        | _ => cases ht
      · cases hstep with
        | fail => exact ⟨_, rfl, .shutting rfl ht⟩
        | leave => exact ⟨_, rfl, .holdingLast rfl rfl⟩
        | _ => cases ht
      · cases hstep with
        | hand => exact ⟨_, .answer, .ended ht⟩
        | leave => exact ⟨_, rfl, .holdingLast rfl rfl⟩
        | _ => cases ht
  | shutting hd ht =>
      cases hstep with
      | shut => exact ⟨_, rfl, .finishing hd ht⟩
      | leave => exact ⟨_, rfl, .shutting hd rfl⟩
      | _ => cases ht
  | finishing hd ht =>
      cases hstep with
      | finish =>
          subst hd
          exact ⟨_, .answer, .finished (Task.isQuiet_of_isLeaving ht)⟩
      | leave => exact ⟨_, rfl, .finishing hd rfl⟩
      | _ => cases ht
  | refused ht =>
      cases hstep with
      | refuse hexhausted => exact ⟨_, .answer, .finished ht⟩
      | look hexhausted => cases hexhausted
      | abandon hasking => exact ⟨_, rfl, .refused rfl⟩
      | leave => exact ⟨_, rfl, .refused rfl⟩
      | _ => cases ht

/-! ## Progress -/

/-- The step needs nobody from outside: it is a queue operation or an answer. -/
def isInner : Option Event → Bool
  | none => true
  | some (.answered _ _) => true
  | _ => false

/-- How many steps the holder of the lock can make at most, apart from waiting. -/
def Holder.rank : Holder → Nat
  | .free => 0
  | .closes _ => 1
  | .shuts _ => 2
  | .holds _ _ => 3
  | .awaits _ => 4
  | .polls _ => 4
  | .asks _ => 5
  | .looks _ => 6

/-- How many steps the task can make at most, apart from those of the body. -/
def Task.rank : Task → Nat
  | .gone => 0
  | .leaves => 1
  | .waits _ => 2
  | .sends _ _ _ => 3
  | .lasts _ _ => 3
  | .drops _ _ => 4
  | .works _ _ _ => 5

def Parties.measure (p : Parties) : Nat :=
  p.holder.rank + p.task.rank

/-- The parties cannot go on forever without the body and without new activations. -/
theorem measure_lt_of_step
    (hstep : Step c room p e q)
    (he : isInner e = true) :
    q.measure < p.measure := by
  cases hstep with
  | ask => cases he
  | close => cases he
  | resume hturn => cases he
  | work hturn => cases he
  | _ =>
      simp only [Parties.measure, Holder.rank, Task.rank]
      omega

/-- The states in which nothing happens unless the sequential machine makes a step. -/
inductive Ready : Parties → Serial → Prop
  | rest {b : Place} {k : Nat} :
      Ready ⟨[], [], .live, .free, .waits b, k⟩ ⟨.idle (some b), k⟩
  | ended
      {l : Link} {k : Nat}
      (hl : l = .live ∨ l = .finished) :
      Ready ⟨[], [], l, .free, .gone, k⟩ ⟨.idle none, k⟩
  | requested {b : Place} {n k : Nat} :
      Ready ⟨[n], [], .live, .awaits n, .waits b, k⟩ ⟨.pending n b, k⟩
  | working {n k : Nat} {stack : List Context} {control : Control} :
      Ready ⟨[], [], .live, .awaits n, .works n stack control, k⟩ ⟨.busy n stack control, k⟩
  | holding {n k : Nat} {v : Value} {t : Task} {b : Option Place} :
      Ready ⟨[], [], .live, .holds n (some (n, .ok v)), t, k⟩ ⟨.handing n (some (.ok v)) b, k⟩
  | finishing
      {n k : Nat} {found : Option Message} {d : Delivery}
      (hd : d = answer found) :
      Ready ⟨[], [], .shut, .closes (some (n, d)), .gone, k⟩ ⟨.handing n found none, k⟩
  | refused {n k : Nat} :
      Ready ⟨[], [], .finished, .looks n, .gone, k⟩ ⟨.handing n none none, k⟩

/-- A task that leaves can go on until it is gone. -/
theorem Task.leaves_or_gone
    {t : Task}
    (h : t.isLeaving = true) :
    t = .leaves ∨ t = .gone := by
  cases t with
  | leaves => exact Or.inl rfl
  | gone => exact Or.inr rfl
  | _ => cases h

/-- A task that is not on a request, and will get none, can go on until it is gone. -/
theorem step_of_isQuiet
    {l : Link} {h : Holder} {t : Task} {k : Nat}
    (hasking : l.asking = false)
    (ht : t.isQuiet = true) :
    t = .gone ∨ ∃ t' : Task, Step c room ⟨[], [], l, h, t, k⟩ none ⟨[], [], l, h, t', k⟩ ∧ t'.rank < t.rank := by
  cases t with
  | waits b => exact Or.inr ⟨.leaves, .abandon hasking, Nat.lt_succ_self 1⟩
  | leaves => exact Or.inr ⟨.gone, .leave, Nat.lt_succ_self 0⟩
  | gone => exact Or.inl rfl
  | _ => cases ht

/-- As long as there is room for one result, nothing stands in the way of a party but what it waits for. -/
theorem Mirrors.ready
    (h : Mirrors p z)
    (c : Nat)
    (hroom : 0 < room) :
    (∃ q, Step c room p none q) ∨ Ready p z := by
  cases h with
  | rest => exact Or.inr .rest
  | ended ht =>
      rcases Task.leaves_or_gone ht with rfl | rfl
      · exact Or.inl ⟨_, .leave⟩
      · exact Or.inr (.ended (Or.inl rfl))
  | finished ht =>
      rcases step_of_isQuiet (l := .finished) rfl ht with rfl | ⟨t', hstep, -⟩
      · exact Or.inr (.ended (Or.inr rfl))
      · exact Or.inl ⟨_, hstep⟩
  | closing hl ht => exact Or.inl ⟨_, .shut⟩
  | closed hl ht => exact Or.inl ⟨_, .finish⟩
  | asking hh =>
      rcases hh with rfl | rfl
      · exact Or.inl ⟨_, .look rfl⟩
      · exact Or.inl ⟨_, .request rfl rfl Nat.zero_lt_one⟩
  | requested => exact Or.inr .requested
  | working => exact Or.inr .working
  | sending => exact Or.inl ⟨_, .send rfl hroom⟩
  | sent => exact Or.inl ⟨_, .take⟩
  | holding => exact Or.inr .holding
  | @ending t n k last ht =>
      rcases ht with rfl | rfl
      · exact Or.inl ⟨_, .drop⟩
      · cases last with
        | none => exact Or.inl ⟨_, .endSilently⟩
        | some x => exact Or.inl ⟨_, .sendLast rfl hroom⟩
  | sentLast ht => exact Or.inl ⟨_, .take⟩
  | silent ht =>
      rcases Task.leaves_or_gone ht with rfl | rfl
      · exact Or.inl ⟨_, .leave⟩
      · exact Or.inl ⟨_, .miss⟩
  | late hh ht =>
      rcases hh with rfl | rfl | rfl
      · exact Or.inl ⟨_, .look rfl⟩
      · exact Or.inl ⟨_, .unheard (Or.inr (Task.isReceiving_of_isLeaving ht))⟩
      · exact Or.inl ⟨_, .pollNothing⟩
  | @holdingLast t n k found x hx ht =>
      subst hx
      rcases found with - | r | v
      · exact Or.inl ⟨_, .stop⟩
      · exact Or.inl ⟨_, .fail⟩
      · exact Or.inr .holding
  | shutting hd ht => exact Or.inl ⟨_, .shut⟩
  | finishing hd ht =>
      rcases Task.leaves_or_gone ht with rfl | rfl
      · exact Or.inl ⟨_, .leave⟩
      · exact Or.inr (.finishing hd)
  | refused ht =>
      rcases step_of_isQuiet (l := .finished) rfl ht with rfl | ⟨t', hstep, -⟩
      · exact Or.inr .refused
      · exact Or.inl ⟨_, hstep⟩

/-- In such a state the parties make any step that the sequential machine makes. -/
theorem Ready.realizes
    {ev : Event}
    (h : Ready p z)
    (hstep : Serial.Step c z ev y)
    (room : Nat) :
    ∃ q, Step c room p (some ev) q := by
  cases h with
  | rest =>
      cases hstep with
      | ask => exact ⟨_, .ask⟩
      | close => exact ⟨_, .close⟩
  | ended hl =>
      cases hstep with
      | askEnded => exact ⟨_, .ask⟩
      | close => exact ⟨_, .close⟩
  | requested =>
      cases hstep with
      | resume hturn => exact ⟨_, .resume hturn⟩
  | working =>
      cases hstep with
      | work hturn => exact ⟨_, .work hturn⟩
  | holding =>
      cases hstep with
      | answer => exact ⟨_, .hand⟩
  | finishing hd =>
      cases hstep with
      | answer =>
          subst hd
          exact ⟨_, .finish⟩
  | refused =>
      cases hstep with
      | answer => exact ⟨_, .refuse rfl⟩

/-- What is seen determines what the sequential machine does. -/
theorem Serial.Step.unique
    {ev : Event} {x : Serial}
    (h : Serial.Step c z ev y)
    (h' : Serial.Step c z ev x) :
    y = x := by
  cases h with
  | ask => cases h'; rfl
  | askEnded => cases h'; rfl
  | close => cases h'; rfl
  | answer => cases h'; rfl
  | resume hturn =>
      cases h' with
      | resume hturn' =>
          cases hturn.symm.trans hturn'
          rfl
  | work hturn =>
      cases h' with
      | work hturn' =>
          cases hturn.symm.trans hturn'
          rfl

end Simulation

/-! ## Runs -/

section Runs

variable {c room : Nat} {p q r : Parties} {x y z : Serial} {e : Option Event} {es fs : List Event}

theorem Run.append
    (h : Run c room p es q)
    (h' : Run c room q fs r) :
    Run c room p (es ++ fs) r := by
  induction h with
  | refl p => exact h'
  | step hstep _ ih =>
      rw [List.append_assoc]
      exact .step hstep (ih h')

theorem Run.single
    {ev : Event}
    (h : Step c room p (some ev) q) :
    Run c room p [ev] q :=
  .step h (.refl q)

theorem Serial.Run.append
    (h : Serial.Run c z es y)
    (h' : Serial.Run c y fs x) :
    Serial.Run c z (es ++ fs) x := by
  induction h with
  | refl z => exact h'
  | step hstep _ ih => exact .step hstep (ih h')

theorem Serial.Run.single
    {ev : Event}
    (h : Serial.Step c z ev y) :
    Serial.Run c z [ev] y :=
  .step h (.refl y)

/-- A run can be cut anywhere. -/
theorem Serial.Run.split
    (h : Serial.Run c z (es ++ fs) x) :
    ∃ y, Serial.Run c z es y ∧ Serial.Run c y fs x := by
  induction es generalizing z with
  | nil => exact ⟨z, .refl z, h⟩
  | cons ev es ih =>
      cases h with
      | step hstep hrun =>
          obtain ⟨y, hy, hx⟩ := ih hrun
          exact ⟨y, .step hstep hy, hx⟩

/-- The parties show nothing that the sequential machine does not show. -/
theorem Mirrors.run
    (h : Mirrors p z)
    (hrun : Run c room p es q) :
    ∃ y, Serial.Run c z es y ∧ Mirrors q y := by
  induction hrun generalizing z with
  | refl p => exact ⟨z, .refl z, h⟩
  | @step p q r es e hstep _ ih =>
      obtain ⟨y, hy, hq⟩ := h.step hstep
      obtain ⟨x, hx, hr⟩ := ih hq
      cases e with
      | none =>
          cases hy
          exact ⟨x, hx, hr⟩
      | some ev => exact ⟨x, .step hy hx, hr⟩

/-- The parties make every step of the sequential machine, after some steps that are not seen. -/
theorem Mirrors.realizes
    {ev : Event}
    (h : Mirrors p z)
    (hroom : 0 < room)
    (hstep : Serial.Step c z ev y) :
    ∃ q, Run c room p [ev] q ∧ Mirrors q y := by
  induction hp : p.measure using Nat.strongRecOn generalizing p with
  | ind k ih =>
      rcases h.ready c hroom with ⟨q, hq⟩ | hready
      · obtain ⟨x, hx, hmirrors⟩ := h.step hq
        cases hx
        obtain ⟨r, hr, hr'⟩ := ih q.measure (hp ▸ measure_lt_of_step hq rfl) hmirrors rfl
        exact ⟨r, .step hq hr, hr'⟩
      · obtain ⟨q, hq⟩ := hready.realizes hstep room
        obtain ⟨x, hx, hmirrors⟩ := h.step hq
        cases Serial.Step.unique hstep hx
        exact ⟨q, Run.single hq, hmirrors⟩

theorem Mirrors.realizes_run
    (h : Mirrors p z)
    (hroom : 0 < room)
    (hrun : Serial.Run c z es y) :
    ∃ q, Run c room p es q ∧ Mirrors q y := by
  induction hrun generalizing p with
  | refl z => exact ⟨p, .refl p, h⟩
  | step hstep _ ih =>
      obtain ⟨q, hq, hmirrors⟩ := h.realizes hroom hstep
      obtain ⟨r, hr, hr'⟩ := ih hmirrors
      exact ⟨r, hq.append hr, hr'⟩

end Runs

end Rendezvous
end GoalDirected
