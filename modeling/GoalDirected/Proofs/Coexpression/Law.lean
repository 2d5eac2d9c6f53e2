import GoalDirected.Machine.Producer

/-!
# The law of delivery

What can be seen of one co-expression is a sequence of events: it is asked for its next value, its frame
executes instructions, it produces, it ends with a value or a fault, an activation is answered, and it is
closed.

* `Lawful`: the law in terms of the sequence alone. Values arrive in order and once, a fault is raised
  once, the body works only while an activation waits, and after the end there is nothing but failure.
* `Next`, `Path`: the same law as a small automaton, whose phases say how far an activation has come.
* `lawful_of_path`: a sequence that the automaton can follow is lawful.

**Argument.** Each part of the law is a quantity that every transition conserves: values given are values
taken or the one that is on its way, and likewise for faults and for activations.
-/

namespace GoalDirected
namespace Coexpression

section Law

/-- What an activation is answered with. -/
inductive Delivery where
  | value (v : Value)
  | failure
  | error (r : Raised)

inductive Event where
  /-- The co-expression is asked for its next value. -/
  | asked
  /-- Its frame executes an instruction. -/
  | executed (i : Ir.Instruction)
  /-- Its frame hands a value over. -/
  | produced (v : Value)
  /-- Its body ends with a value, its own or that of its recovery procedure. -/
  | finished (v : Value)
  /-- A fault leaves its body. -/
  | broken (r : Raised)
  /-- An activation is answered. -/
  | answered (d : Delivery)
  | closed

namespace Event

/-- The value that the body gives. -/
def given? : Event → Option Value
  | .produced v => some v
  | .finished v => some v
  | _ => none

/-- The value that an activation gets. -/
def taken? : Event → Option Value
  | .answered (.value v) => some v
  | _ => none

/-- The fault that leaves the body. -/
def fault? : Event → Option Raised
  | .broken r => some r
  | _ => none

/-- The fault that an activation raises. -/
def raised? : Event → Option Raised
  | .answered (.error r) => some r
  | _ => none

def isAsked : Event → Bool
  | .asked => true
  | _ => false

def isAnswered : Event → Bool
  | .answered _ => true
  | _ => false

/-- The event is seen from outside: the body does nothing. -/
def isOutside : Event → Bool
  | .asked => true
  | .answered _ => true
  | .closed => true
  | _ => false

/-- The event is part of what an ended co-expression shows. -/
def isRefusal : Event → Bool
  | .asked => true
  | .answered .failure => true
  | .closed => true
  | _ => false

/-- The event ends the co-expression: a failing activation, a raised fault, or a close. -/
def isEnd : Event → Bool
  | .answered .failure => true
  | .answered (.error _) => true
  | .closed => true
  | _ => false

end Event

/-- What an activation raises of a fault that has left the body: the same fault, with the entry of the co-expression
after those of the body. -/
def forwarded (c : Nat) (r : Raised) : Raised where
  fault := r.fault
  trace := r.trace ++
    [{ procedure := "co-expression #" ++ toString c, args := [], coord := "", offender := none }]

/-- The law of delivery of a co-expression with a given number. -/
structure Lawful (c : Nat) (es : List Event) : Prop where
  /-- Activations get the values of the body in their order, none twice. -/
  values : es.filterMap Event.taken? <+: es.filterMap Event.given?
  /-- When no activation waits, none has been dropped. -/
  delivered : es.countP Event.isAsked = es.countP Event.isAnswered →
    es.filterMap Event.taken? = es.filterMap Event.given?
  /-- The value that the body ends with is its last, and the body does nothing any more. -/
  last : ∀ before v after, es = before ++ .finished v :: after →
    ∀ e ∈ after, e.isOutside = true
  /-- At most one fault leaves the body. -/
  once : (es.filterMap Event.fault?).length ≤ 1
  /-- Activations raise that fault, with the entry of the co-expression in its trace, and no other. -/
  faults : es.filterMap Event.raised? <+: (es.filterMap Event.fault?).map (forwarded c)
  /-- When no activation waits, it has been raised. -/
  raised : es.countP Event.isAsked = es.countP Event.isAnswered →
    es.filterMap Event.raised? = (es.filterMap Event.fault?).map (forwarded c)
  /-- The body executes instructions only while one activation waits. -/
  executed : ∀ before i after, es = before ++ .executed i :: after →
    before.countP Event.isAsked = before.countP Event.isAnswered + 1
  /-- After the end the body does nothing, and activations are answered by failure. -/
  ended : ∀ before e after, es = before ++ e :: after → e.isEnd = true →
    ∀ e' ∈ after, e'.isRefusal = true
  /-- After the end every activation is answered, at once. -/
  refused : ∀ before e middle after, es = before ++ e :: (middle ++ .asked :: after) →
    e.isEnd = true → ∃ rest, after = .answered .failure :: rest

/-! ## The automaton -/

/-- How far an activation has come. -/
inductive Phase where
  /-- No activation waits, and the body has not ended. -/
  | idle
  /-- An activation waits for the body. -/
  | busy
  /-- The body has produced a value that is on its way. -/
  | handing (v : Value)
  /-- The body has ended with a value that is on its way. -/
  | finishing (v : Value)
  /-- A fault has left the body and is on its way. -/
  | breaking (r : Raised)
  /-- The body has ended. -/
  | over
  /-- The body has ended, and an activation waits nevertheless. -/
  | refusing
  /-- The body waits for itself, as do that many activations. -/
  | stuck (waiting : Nat)

inductive Next (c : Nat) : Phase → Event → Phase → Prop
  | ask : Next c .idle .asked .busy
  | abandon : Next c .idle .closed .over
  | execute (i : Ir.Instruction) : Next c .busy (.executed i) .busy
  | produce (v : Value) : Next c .busy (.produced v) (.handing v)
  | hand (v : Value) : Next c (.handing v) (.answered (.value v)) .idle
  | finish (v : Value) : Next c .busy (.finished v) (.finishing v)
  | handLast (v : Value) : Next c (.finishing v) (.answered (.value v)) .over
  | broke (r : Raised) : Next c .busy (.broken r) (.breaking r)
  | raise (r : Raised) :
      Next c (.breaking r) (.answered (.error (forwarded c r))) .over
  | fail : Next c .busy (.answered .failure) .over
  | askEnded : Next c .over .asked .refusing
  | refuse : Next c .refusing (.answered .failure) .over
  | closeEnded : Next c .over .closed .over
  | askSelf : Next c .busy .asked (.stuck 2)
  | closeSelf : Next c .busy .closed (.stuck 1)

/-- The events lead from one phase to another. -/
inductive Path (c : Nat) : Phase → List Event → Phase → Prop
  | nil (φ : Phase) : Path c φ [] φ
  | cons
      {φ ψ χ : Phase} {e : Event} {es : List Event}
      (hnext : Next c φ e ψ)
      (hrest : Path c ψ es χ) :
      Path c φ (e :: es) χ

namespace Path

variable {c : Nat} {φ ψ χ : Phase} {e : Event} {es fs : List Event}

theorem single
    (h : Next c φ e ψ) :
    Path c φ [e] ψ :=
  cons h (nil ψ)

theorem append
    (h : Path c φ es ψ)
    (h' : Path c ψ fs χ) :
    Path c φ (es ++ fs) χ := by
  induction h with
  | nil φ => exact h'
  | cons hnext _ ih => exact cons hnext (ih h')

/-- A path can be cut before any event. -/
theorem split
    {before after : List Event}
    (h : Path c φ (before ++ e :: after) χ) :
    ∃ ψ ψ', Path c φ before ψ ∧ Next c ψ e ψ' ∧ Path c ψ' after χ := by
  induction before generalizing φ with
  | nil =>
      cases h with
      | cons hnext hrest => exact ⟨φ, _, nil φ, hnext, hrest⟩
  | cons first before ih =>
      cases h with
      | cons hnext hrest =>
          obtain ⟨ψ, ψ', hbefore, he, hafter⟩ := ih hrest
          exact ⟨ψ, ψ', cons hnext hbefore, he, hafter⟩

end Path

/-! ## What transitions conserve -/

namespace Phase

/-- The value that is on its way. -/
def value : Phase → List Value
  | .handing v => [v]
  | .finishing v => [v]
  | _ => []

/-- The fault that is on its way. -/
def fault : Phase → List Raised
  | .breaking r => [r]
  | _ => []

/-- The number of activations that wait. -/
def waiting : Phase → Nat
  | .idle => 0
  | .over => 0
  | .stuck n => n
  | _ => 1

/-- The body does nothing any more. -/
def isDone : Phase → Bool
  | .idle => false
  | .busy => false
  | .handing _ => false
  | _ => true

/-- Nothing is left of the co-expression but refusals. -/
def isEnded : Phase → Bool
  | .over => true
  | .refusing => true
  | .stuck _ => true
  | _ => false

/-- No event has to follow at once. -/
def isSettled : Phase → Bool
  | .handing _ => false
  | .refusing => false
  | _ => true

end Phase

variable {c : Nat} {φ ψ : Phase} {e : Event} {es : List Event}

/-- Values given are taken, or on their way. -/
theorem Path.values
    (h : Path c φ es ψ) :
    φ.value ++ es.filterMap Event.given? = es.filterMap Event.taken? ++ ψ.value := by
  induction h with
  | nil φ => simp
  | cons hnext _ ih =>
      cases hnext <;>
        simpa [Phase.value, List.filterMap_cons, Event.given?, Event.taken?] using ih

/-- Faults that leave the body are raised, or on their way. -/
theorem Path.faults
    (h : Path c φ es ψ) :
    (φ.fault ++ es.filterMap Event.fault?).map (forwarded c) =
      es.filterMap Event.raised? ++ ψ.fault.map (forwarded c) := by
  induction h with
  | nil φ => simp
  | cons hnext _ ih =>
      cases hnext <;>
        simpa [Phase.fault, List.filterMap_cons, Event.fault?, Event.raised?] using ih

/-- Activations are answered, or wait. -/
theorem Path.counts
    (h : Path c φ es ψ) :
    φ.waiting + es.countP Event.isAsked = es.countP Event.isAnswered + ψ.waiting := by
  induction h with
  | nil φ => simp
  | cons hnext _ ih =>
      cases hnext <;>
        simp only [Phase.waiting, List.countP_cons, Event.isAsked, Event.isAnswered] at ih ⊢ <;>
        simp <;> omega

/-- A body that is done stays so, and shows nothing but what is seen from outside. -/
theorem Path.isOutside
    (h : Path c φ es ψ)
    (hdone : φ.isDone = true) :
    ∀ e ∈ es, e.isOutside = true := by
  induction h with
  | nil φ => simp
  | cons hnext _ ih =>
      cases hnext <;> simp_all [Phase.isDone, Event.isOutside]

/-- An ended co-expression stays ended, and shows nothing but refusals. -/
theorem Path.isRefusal
    (h : Path c φ es ψ)
    (hended : φ.isEnded = true) :
    (∀ e ∈ es, e.isRefusal = true) ∧ ψ.isEnded = true := by
  induction h with
  | nil φ => simp [hended]
  | cons hnext _ ih =>
      cases hnext <;> simp_all [Phase.isEnded, Event.isRefusal]

theorem Next.isEnded_of_isEnd
    (h : Next c φ e ψ)
    (he : e.isEnd = true) :
    ψ.isEnded = true := by
  cases h <;> first | rfl | cases he

/-- Faults are events of the body. -/
theorem filterMap_fault?_eq_nil
    (h : ∀ e ∈ es, e.isOutside = true) :
    es.filterMap Event.fault? = [] := by
  rw [List.filterMap_eq_nil_iff]
  intro e he
  have hout := h e he
  cases e <;> first | rfl | cases hout

theorem Path.length_faults
    (h : Path c φ es ψ) :
    (es.filterMap Event.fault?).length ≤ 1 := by
  induction h with
  | nil φ => simp
  | cons hnext hrest ih =>
      cases hnext with
      | broke r => simp [Event.fault?, filterMap_fault?_eq_nil (hrest.isOutside rfl)]
      | _ => simpa [List.filterMap_cons, Event.fault?] using ih

/-- A sequence of events that the automaton follows from the start is lawful. -/
theorem lawful_of_path
    (h : Path c .idle es ψ)
    (hsettled : ψ.isSettled = true) :
    Lawful c es := by
  have hvalues : es.filterMap Event.given? = es.filterMap Event.taken? ++ ψ.value := h.values
  have hfaults : (es.filterMap Event.fault?).map (forwarded c) =
      es.filterMap Event.raised? ++ ψ.fault.map (forwarded c) := h.faults
  have hcounts := h.counts
  have hquiet : es.countP Event.isAsked = es.countP Event.isAnswered →
      ψ.value = [] ∧ ψ.fault = [] := by
    intro hcount
    cases ψ <;> simp_all [Phase.waiting, Phase.value, Phase.fault]
  constructor
  case values => exact ⟨ψ.value, hvalues.symm⟩
  case delivered =>
    intro hcount
    rw [hvalues, (hquiet hcount).1, List.append_nil]
  case last =>
    rintro before v after rfl
    obtain ⟨φ', ψ', -, hnext, hafter⟩ := h.split
    cases hnext
    exact hafter.isOutside rfl
  case once => exact h.length_faults
  case faults => exact ⟨ψ.fault.map (forwarded c), hfaults.symm⟩
  case raised =>
    intro hcount
    rw [hfaults, (hquiet hcount).2, List.map_nil, List.append_nil]
  case executed =>
    rintro before i after rfl
    obtain ⟨φ', ψ', hbefore, hnext, -⟩ := h.split
    cases hnext
    have hcount := hbefore.counts
    simp only [Phase.waiting] at hcount
    omega
  case ended =>
    rintro before e after rfl he
    obtain ⟨φ', ψ', -, hnext, hafter⟩ := h.split
    exact (hafter.isRefusal (hnext.isEnded_of_isEnd he)).1
  case refused =>
    rintro before e middle after rfl he
    obtain ⟨φ', ψ', -, hnext, hafter⟩ := h.split
    obtain ⟨φ'', ψ'', hmiddle, hasked, hrest⟩ := hafter.split
    have hended := (hmiddle.isRefusal (hnext.isEnded_of_isEnd he)).2
    cases hasked with
    | ask => cases hended
    | askSelf => cases hended
    | askEnded =>
        cases hrest with
        | nil => cases hsettled
        | cons hrefuse hlast =>
            cases hrefuse
            exact ⟨_, rfl⟩

end Law

end Coexpression
end GoalDirected
