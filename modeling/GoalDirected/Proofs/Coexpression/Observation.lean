import GoalDirected.Proofs.Coexpression.Law
import GoalDirected.Proofs.Machine.Session

/-!
# What is seen of a co-expression

**Input.** A move of a session, and one co-expression `c` with the frame `p` that it runs.

**Results.** `seen` is the list of events of `GoalDirected.Proofs.Coexpression.Law` that the move shows.
What the frame does is read off the state before the move; requests are those that the move is labelled
with; a fault has left the body when it stands right above the consumer; and an activation is answered by
the control of the first state in which its consumer no longer waits.  `Run` collects the events of a
sequence of moves, and `Creates` is the step that such a sequence starts with.
-/

namespace GoalDirected
namespace Coexpression

section Observation

/-- An activation of the co-expression waits. -/
def waits (c : Nat) (stack : List Context) : Bool :=
  stack.any fun
    | .consuming id => id == c
    | _ => false

/-- The value that an effect of the frame gives. What ends the body is read in the store after it. -/
def gives (t : Store) : Effect → List Event
  | .produce v _ => [.produced v]
  | .succeed v _ => [.finished (t.deref v)]
  | _ => []

/-- What frame `p` does in the step from a state: it executes an instruction, or its recovery procedure
has an outcome in its stead. -/
def acts (p : Nat) (m : Machine) (t : Store) : List Event :=
  match m with
  | ⟨s, _, .running frame _ (i :: _)⟩ =>
      match s.frames[frame]? with
      | some f => if frame = p then .executed i :: gives t (s.execute f i).1 else []
      | none => []
  | ⟨_, .recovering frame :: _, .returning o⟩ =>
      if frame = p then (o.value?.map fun v => Event.finished (t.deref v)).toList else []
  | _ => []

/-- The request activates the co-expression. -/
def isAsked (c : Nat) : Option (Store × Request) → Bool
  | some (s, q) => s.activated? q == some c
  | none => false

/-- The request closes the co-expression. -/
def isClosed (c : Nat) : Option (Store × Request) → Bool
  | some (s, q) => s.closed? q == some c
  | none => false

def requests (c : Nat) (q : Option (Store × Request)) : List Event :=
  (if isAsked c q then [.asked] else []) ++ (if isClosed c q then [.closed] else [])

/-- A fault has left the body when it stands right above the consumer. -/
def breaks (c : Nat) : Machine → List Event
  | ⟨_, .consuming id :: _, .raising r⟩ => if id = c then [.broken r] else []
  | _ => []

/-- What a control hands to those below. -/
def delivery? : Control → Option Delivery
  | .returning o =>
      match o.value? with
      | some v => some (.value v)
      | none => some .failure
  | .raising r => some (.error r)
  | _ => none

/-- What is seen of a move apart from what the frame does. -/
def answers (c : Nat) (q : Option (Store × Request)) (waited : Bool) (m : Machine) : List Event :=
  requests c q ++ breaks c m ++
    if (isAsked c q || waited) && !waits c m.stack then (delivery? m.control).toList.map .answered
    else []

/-- The events that a move from state `m` to state `m'` shows of co-expression `c` with frame `p`. -/
def seen (c p : Nat) (m : Machine) (q : Option (Store × Request)) (m' : Machine) : List Event :=
  acts p m m'.store ++ answers c q (waits c m.stack) m'

/-- A sequence of moves with the events that it shows. -/
inductive Run (c p : Nat) : Session → List Event → Session → Prop
  | refl (σ : Session) : Run c p σ [] σ
  | move
      {σ τ υ : Session} {es : List Event} {q : Option (Store × Request)}
      (hrun : Run c p σ es τ)
      (hmove : Session.Move τ q υ) :
      Run c p σ (es ++ seen c p τ.machine q υ.machine) υ

/-- The step that creates the co-expression. -/
inductive Creates (c p : Nat) : Session → Session → Prop
  | step
      {m : Machine} {t : Store} {frame : Nat} {label entry : Ir.Label} {target : Ir.Slot}
      {rest : List Ir.Instruction} {f : Frame}
      (hcontrol : m.control = .running frame label (.create target entry :: rest))
      (hframe : m.store.frames[frame]? = some f)
      (hcreate : m.store.createProducer f entry = .ok (.coexpression c, t))
      (hproducer : t.producer c = .fresh p entry)
      (held : List Continuation) (own : List Nat) :
      Creates c p ⟨m, held, own⟩ ⟨m.step, held, own⟩

/-! ## Stacks -/

@[simp] theorem waits_nil (c : Nat) : waits c [] = false := rfl

@[simp] theorem waits_consuming (c : Nat) (stack : List Context) :
    waits c (.consuming c :: stack) = true := by
  simp [waits]

end Observation

end Coexpression
end GoalDirected
