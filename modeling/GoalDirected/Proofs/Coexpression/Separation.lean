import GoalDirected.Proofs.Machine.Replies
import GoalDirected.Proofs.Machine.Session

/-!
# A co-expression keeps its frame to itself

The frame that a co-expression starts with is made by `create` and given to nobody else: no slot, no
continuation, no other co-expression and no waiting activation refers to it.  So whatever else the program
does, it neither runs that frame nor changes the state of the co-expression, except through the two
requests that are meant for it: the operator that activates it and the call that closes it.

* `Apart`, `Clear`: a store, and contexts, that do not refer to the frame `p` of co-expression `c`.
* `Zone`: a state whose stack ends in a given base, while everything above the base is clear.
* `Stays`: what a component of a step makes of a clear store: a state of the zone, or, when a request for
  an impossible queue ends the co-expression, the state of its consumer.
* `start_stays`: a request that is not meant for the co-expression stays.
* `Zone.step`: so does a step, unless it is a request.
-/

namespace GoalDirected

section Separation

/-! ## References to a frame -/

def Continuation.Avoids (p : Nat) : Continuation → Prop
  | .activation frame _ => frame ≠ p
  | _ => True

def Outcome.Avoids (p : Nat) (o : Outcome) : Prop :=
  ∀ k, o.next? = some k → k.Avoids p

def Temp.Avoids (p : Nat) : Temp → Prop
  | .next k => k.Avoids p
  | _ => True

def Frame.Avoids (p : Nat) (f : Frame) : Prop :=
  ∀ (slot : Nat) (t : Temp), f.temps[slot]? = some t → t.Avoids p

def Producer.Avoids (p : Nat) : Producer → Prop
  | .fresh frame _ => frame ≠ p
  | .waiting frame _ => frame ≠ p
  | _ => True

/-- The context refers neither to frame `p` nor to co-expression `c`. -/
def Context.Avoids (c p : Nat) : Context → Prop
  | .awaiting frame _ _ _ => frame ≠ p
  | .recovering frame => frame ≠ p
  | .consuming id => id ≠ c
  | .bare => True

def Control.Avoids (p : Nat) : Control → Prop
  | .running frame _ _ => frame ≠ p
  | .returning o => o.Avoids p
  | _ => True

theorem Outcome.avoids_of_isDetached
    {p : Nat} {o : Outcome}
    (h : o.IsDetached) :
    o.Avoids p := by
  intro k hk
  cases k with
  | activation frame label => exact absurd hk (h frame label)
  | elements list position => trivial
  | values rest => trivial
  | count low high => trivial

theorem Outcome.avoids_of_next?_eq_none
    {p : Nat} {o : Outcome}
    (h : o.next? = none) :
    o.Avoids p :=
  avoids_of_isDetached (isDetached_of_next?_eq_none h)

theorem Frame.avoids_new
    (p : Nat) (environment : Environment) (procedure : Procedure) (args : List Value)
    (vars : Bindings) :
    (Frame.new environment procedure args vars).Avoids p := by
  intro slot t h
  simp only [Frame.new, Array.getElem?_replicate] at h
  split at h
  · cases h
    trivial
  · cases h

theorem Frame.avoids_of_no_next
    {f : Frame}
    (h : ∀ (slot : Nat) (k : Continuation), f.temps[slot]? ≠ some (.next k))
    (p : Nat) :
    f.Avoids p := by
  intro slot t ht
  cases t with
  | next k => exact absurd ht (h slot k)
  | label l => trivial
  | value v => trivial
  | empty => trivial

theorem Temp.avoids_of_puts
    {p : Nat} {labels : List Ir.Label} {t : Temp}
    (h : Frame.Puts labels t) :
    t.Avoids p := by
  cases t with
  | next k => exact absurd h id
  | label l => trivial
  | value v => trivial
  | empty => trivial

theorem Frame.Avoids.of_follows
    {p : Nat} {f g : Frame} {labels : List Ir.Label}
    (hf : f.Avoids p)
    (h : f.Follows labels g) :
    g.Avoids p := by
  intro slot t ht
  rcases h.temps slot t ht with hold | hputs
  · exact hf slot t hold
  · exact Temp.avoids_of_puts hputs

theorem Frame.Avoids.of_receives
    {p : Nat} {f g : Frame} {o : Outcome}
    (hf : f.Avoids p)
    (ho : o.Avoids p)
    (h : f.Receives o.next? g) :
    g.Avoids p := by
  intro slot t ht
  rcases h.temps slot t ht with hold | hputs | ⟨k, hk, rfl⟩
  · exact hf slot t hold
  · exact Temp.avoids_of_puts hputs
  · exact ho k hk

/-! ## Stores -/

namespace Store

theorem producer_setProducer_self
    {s : Store} {id : Nat}
    (h : 0 < id ∧ id ≤ s.producers.size)
    (p : Producer) :
    (s.setProducer id p).producer id = p := by
  cases id with
  | zero => exact absurd h.1 (Nat.lt_irrefl 0)
  | succ n =>
      have hlt : n < s.producers.size := h.2
      simp [setProducer, producer, Array.getD_eq_getD_getElem?, hlt]

theorem producer_setProducer_of_ne
    (s : Store) {id other : Nat} (p : Producer)
    (h : other ≠ id) :
    (s.setProducer id p).producer other = s.producer other := by
  cases id with
  | zero => rfl
  | succ n =>
      cases other with
      | zero => rfl
      | succ k =>
          have hne : n ≠ k := by omega
          simp [setProducer, producer, Array.getD_eq_getD_getElem?, hne]

theorem producer_setProducer (s : Store) (id other : Nat) (p : Producer) :
    (s.setProducer id p).producer other = s.producer other ∨
      (s.setProducer id p).producer other = p := by
  by_cases hother : other = id
  · subst hother
    by_cases h : 0 < other ∧ other ≤ s.producers.size
    · exact Or.inr (producer_setProducer_self h p)
    · left
      cases other with
      | zero => rfl
      | succ n =>
          have hle : s.producers.size ≤ n := by omega
          simp [setProducer, Array.setIfInBounds_eq_of_size_le hle]
  · exact Or.inl (producer_setProducer_of_ne s p hother)

theorem producer_push_of_le
    {s t : Store} {p : Producer}
    (h : t.producers = s.producers.push p)
    {id : Nat}
    (hid : id ≤ s.producers.size) :
    t.producer id = s.producer id := by
  cases id with
  | zero => rfl
  | succ n =>
      have hne : n ≠ s.producers.size := by omega
      simp [producer, h, Array.getD_eq_getD_getElem?, Array.getElem?_push, hne]

/-- Co-expression `c` and its frame `p` exist, and nothing in the store but the co-expression itself
refers to the frame. -/
structure Apart (c p : Nat) (s : Store) : Prop where
  frame : p < s.frames.size
  number : 0 < c ∧ c ≤ s.producers.size
  frames : ∀ (n : Nat) (f : Frame), s.frames[n]? = some f → f.Avoids p
  producers : ∀ id, id ≠ c → (s.producer id).Avoids p

namespace Apart

variable {c p : Nat} {s t : Store}

theorem of_eq
    (h : s.Apart c p)
    (hframes : t.frames = s.frames)
    (hproducers : t.producers = s.producers) :
    t.Apart c p ∧ t.producer c = s.producer c := by
  have hproducer : ∀ id, t.producer id = s.producer id := by
    intro id
    cases id <;> simp [producer, hproducers]
  refine ⟨⟨by rw [hframes]; exact h.frame, by rw [hproducers]; exact h.number, ?_, ?_⟩,
    hproducer c⟩
  · rw [hframes]
    exact h.frames
  · intro id hid
    rw [hproducer id]
    exact h.producers id hid

theorem of_activity
    (h : s.Apart c p)
    (hactivity : t.activity = s.activity) :
    t.Apart c p ∧ t.producer c = s.producer c :=
  h.of_eq (frames_eq_of_activity hactivity) (producers_eq_of_activity hactivity)

theorem setFrame
    {f : Frame}
    (h : s.Apart c p)
    (n : Nat)
    (hf : f.Avoids p) :
    (s.setFrame n f).Apart c p where
  frame := by simpa [Store.setFrame] using h.frame
  number := h.number
  frames := by
    intro k g hg
    simp only [Store.setFrame, Array.getElem?_setIfInBounds] at hg
    split at hg
    · split at hg
      · cases hg
        exact hf
      · cases hg
    · exact h.frames k g hg
  producers := h.producers

theorem newFrame
    {f : Frame}
    (h : s.Apart c p)
    (hf : f.Avoids p) :
    (s.newFrame f).2.Apart c p where
  frame := by
    have := h.frame
    simp only [Store.newFrame, Array.size_push]
    omega
  number := h.number
  frames := by
    intro k g hg
    simp only [Store.newFrame, Array.getElem?_push] at hg
    split at hg
    · cases hg
      exact hf
    · exact h.frames k g hg
  producers := h.producers

theorem setProducer
    {q : Producer}
    (h : s.Apart c p)
    {id : Nat}
    (hid : id ≠ c)
    (hq : q.Avoids p) :
    (s.setProducer id q).Apart c p ∧ (s.setProducer id q).producer c = s.producer c := by
  refine ⟨⟨?_, ?_, ?_, ?_⟩, producer_setProducer_of_ne s q (Ne.symm hid)⟩
  · cases id <;> exact h.frame
  · rw [size_producers_setProducer]
    exact h.number
  · cases id <;> exact h.frames
  · intro other hother
    rcases producer_setProducer s id other q with heq | heq <;> rw [heq]
    · exact h.producers other hother
    · exact hq

/-- The co-expression itself changes its state. -/
theorem setProducer_self
    (h : s.Apart c p)
    (q : Producer) :
    (s.setProducer c q).Apart c p ∧ (s.setProducer c q).producer c = q := by
  refine ⟨⟨?_, ?_, ?_, ?_⟩, producer_setProducer_self h.number q⟩
  · cases c <;> exact h.frame
  · rw [size_producers_setProducer]
    exact h.number
  · cases c <;> exact h.frames
  · intro other hother
    rw [producer_setProducer_of_ne s q hother]
    exact h.producers other hother

theorem endProducer
    (h : s.Apart c p)
    {id : Nat}
    (hid : id ≠ c) :
    (s.endProducer id).Apart c p ∧ (s.endProducer id).producer c = s.producer c := by
  obtain ⟨hset, hproducer⟩ := h.setProducer (q := .ended) hid trivial
  obtain ⟨hend, hproducer'⟩ := hset.of_eq (t := s.endProducer id) rfl rfl
  exact ⟨hend, hproducer'.trans hproducer⟩

theorem endProducer_self
    (h : s.Apart c p) :
    (s.endProducer c).Apart c p ∧ (s.endProducer c).producer c = .ended := by
  obtain ⟨hset, hproducer⟩ := h.setProducer_self .ended
  obtain ⟨hend, hproducer'⟩ := hset.of_eq (t := s.endProducer c) rfl rfl
  exact ⟨hend, hproducer'.trans hproducer⟩

/-- A new co-expression gets a new frame, and its copy of the creating frame refers to none. -/
theorem createProducer
    {f : Frame} {entry : Ir.Label} {v : Value}
    (h : s.Apart c p)
    (hcreate : s.createProducer f entry = .ok (v, t)) :
    t.Apart c p ∧ t.producer c = s.producer c := by
  obtain ⟨copy, -, hnext, hframes, hproducers, -⟩ := createProducer_eq_ok hcreate
  have hframe := h.frame
  have hnumber := h.number
  refine ⟨⟨?_, ?_, ?_, ?_⟩, producer_push_of_le hproducers hnumber.2⟩
  · simp only [hframes, Array.size_push]
    omega
  · simp only [hproducers, Array.size_push]
    omega
  · intro n g hg
    rw [hframes, Array.getElem?_push] at hg
    split at hg
    · cases hg
      exact Frame.avoids_of_no_next hnext p
    · exact h.frames n g hg
  · intro id hid
    cases id with
    | zero => trivial
    | succ n =>
        by_cases hn : n = s.producers.size
        · have hfresh : t.producer (n + 1) = .fresh s.frames.size entry := by
            simp [producer, hproducers, hn]
          rw [hfresh]
          exact Nat.ne_of_gt hframe
        · have hold : t.producer (n + 1) = s.producer (n + 1) := by
            simp [producer, hproducers, Array.getD_eq_getD_getElem?, Array.getElem?_push, hn]
          rw [hold]
          exact h.producers (n + 1) hid

/-- An instruction leaves the store apart, whichever frame executes it. -/
theorem execute
    {f : Frame}
    (h : s.Apart c p)
    (hf : f.Avoids p)
    (i : Ir.Instruction) :
    (s.execute f i).2.2.Apart c p ∧ (s.execute f i).2.2.producer c = s.producer c ∧
      (s.execute f i).2.1.Avoids p := by
  have hexecutes := s.executes_execute f i
  have hstore : (s.execute f i).2.2.Apart c p ∧
      (s.execute f i).2.2.producer c = s.producer c := by
    rcases hexecutes.activity with hactivity | ⟨entry, v, -, hcreate⟩
    · exact h.of_activity hactivity
    · exact h.createProducer hcreate
  exact ⟨hstore.1, hstore.2, hf.of_follows hexecutes.follows⟩

end Apart

end Store

namespace Coexpression

/-! ## Zones -/

/-- A store and contexts that are clear of co-expression `c`, which is in state `P`. -/
structure Clear (c p : Nat) (P : Producer) (s : Store) (above : List Context) : Prop where
  apart : s.Apart c p
  producer : s.producer c = P
  above : ∀ x ∈ above, x.Avoids c p

/-- What the clear part of a stack can stand on: nothing at all, or the frame of the co-expression as
it waits for an outcome, with the consumer below it. -/
inductive IsBase (c p : Nat) : List Context → Prop
  | nil : IsBase c p []
  | awaiting
      (label : Ir.Label) (rest : List Ir.Instruction) (d : Ir.Destination)
      {below : List Context}
      (hbelow : ∀ x ∈ below, x.Avoids c p) :
      IsBase c p (.awaiting p label rest d :: .consuming c :: below)
  | recovering
      {below : List Context}
      (hbelow : ∀ x ∈ below, x.Avoids c p) :
      IsBase c p (.recovering p :: .consuming c :: below)

/-- Everything above the base is clear, and the control does not refer to the frame. -/
structure Zone (c p : Nat) (P : Producer) (base : List Context) (m : Machine) : Prop where
  clear : ∃ above, m.stack = above ++ base ∧ Clear c p P m.store above
  control : m.control.Avoids p

/-- The state is in the zone, or a request for an impossible queue has ended the co-expression. -/
inductive Stays (c p : Nat) (P : Producer) (base : List Context) : Machine → Prop
  | zone
      {m : Machine}
      (h : Zone c p P base m) :
      Stays c p P base m
  | dropped
      {t : Store} {below : List Context}
      (hbase : Machine.innermostConsumer? base = some (c, below))
      (h : Clear c p .ended t below) :
      Stays c p P base ⟨t, below, .returning .fail⟩

variable {c p : Nat} {P : Producer} {s t : Store} {above base : List Context}

theorem Clear.of_store
    (h : Clear c p P s above)
    (ht : t.Apart c p ∧ t.producer c = s.producer c) :
    Clear c p P t above :=
  ⟨ht.1, ht.2.trans h.producer, h.above⟩

theorem Clear.of_activity
    (h : Clear c p P s above)
    (hactivity : t.activity = s.activity) :
    Clear c p P t above :=
  h.of_store (h.apart.of_activity hactivity)

/-- The same store with other contexts. -/
theorem Clear.beneath
    {below : List Context}
    (h : Clear c p P s above)
    (hbelow : ∀ x ∈ below, x.Avoids c p) :
    Clear c p P s below :=
  ⟨h.apart, h.producer, hbelow⟩

theorem Clear.push
    {x : Context}
    (h : Clear c p P s above)
    (hx : x.Avoids c p) :
    Clear c p P s (x :: above) := by
  refine h.beneath ?_
  intro y hy
  rcases List.mem_cons.mp hy with rfl | hy
  · exact hx
  · exact h.above y hy

theorem Clear.tail
    {x : Context}
    (h : Clear c p P s (x :: above)) :
    Clear c p P s above :=
  h.beneath fun y hy => h.above y (List.mem_cons_of_mem x hy)

theorem Clear.setFrame
    {f : Frame}
    (h : Clear c p P s above)
    (n : Nat)
    (hf : f.Avoids p) :
    Clear c p P (s.setFrame n f) above :=
  h.of_store ⟨h.apart.setFrame n hf, rfl⟩

/-- A frame changes in anything but its temporaries. -/
theorem Clear.setFrame_of_temps
    {n : Nat} {f g : Frame}
    (h : Clear c p P s above)
    (hf : s.frames[n]? = some f)
    (hg : g.temps = f.temps) :
    Clear c p P (s.setFrame n g) above := by
  have havoids : g.Avoids p := by
    rw [Frame.Avoids, hg]
    exact h.apart.frames n f hf
  exact h.setFrame n havoids

theorem Clear.newFrame
    {f : Frame}
    (h : Clear c p P s above)
    (hf : f.Avoids p) :
    Clear c p P (s.newFrame f).2 above :=
  h.of_store ⟨h.apart.newFrame hf, rfl⟩

/-- The co-expression itself changes its state. -/
theorem Clear.setProducer_self
    (h : Clear c p P s above)
    (Q : Producer) :
    Clear c p Q (s.setProducer c Q) above :=
  ⟨(h.apart.setProducer_self Q).1, (h.apart.setProducer_self Q).2, h.above⟩

theorem Clear.endProducer_self
    (h : Clear c p P s above) :
    Clear c p .ended (s.endProducer c) above :=
  ⟨h.apart.endProducer_self.1, h.apart.endProducer_self.2, h.above⟩

/-- A frame executes an instruction. What it may resume after that was in one of its slots. -/
theorem Clear.execute
    {n : Nat} {f : Frame}
    (h : Clear c p P s above)
    (hf : s.frames[n]? = some f)
    (i : Ir.Instruction) :
    Clear c p P ((s.execute f i).2.2.setFrame n (s.execute f i).2.1) above ∧
      ∀ d k, (s.execute f i).1 = .resume d (some k) → k.Avoids p := by
  have hfavoids := h.apart.frames n f hf
  obtain ⟨hapart, hproducer, havoids⟩ := h.apart.execute hfavoids i
  refine ⟨h.of_store ⟨hapart.setFrame n havoids, hproducer⟩, ?_⟩
  intro d k hk
  obtain ⟨slot, hslot⟩ := (s.executes_execute f i).resumes d k hk
  exact hfavoids slot _ hslot

/-- A frame gets an outcome. -/
theorem Clear.storeOutcome
    {n : Nat} {f g : Frame} {d : Ir.Destination} {o : Outcome}
    (h : Clear c p P s above)
    (hf : s.frames[n]? = some f)
    (ho : o.Avoids p)
    (hstored : Machine.storeOutcome f d o = .ok g) :
    Clear c p P (s.setFrame n g) above :=
  h.setFrame n ((h.apart.frames n f hf).of_receives ho (Machine.receives_storeOutcome hstored))

theorem Clear.zone
    {control : Control}
    (h : Clear c p P s above)
    (hcontrol : control.Avoids p) :
    Zone c p P base ⟨s, above ++ base, control⟩ :=
  ⟨⟨above, rfl, h⟩, hcontrol⟩

theorem Clear.stays
    {control : Control}
    (h : Clear c p P s above)
    (hcontrol : control.Avoids p) :
    Stays c p P base ⟨s, above ++ base, control⟩ :=
  .zone (h.zone hcontrol)

theorem Clear.fail
    (h : Clear c p P s above) :
    Stays c p P base ⟨s, above ++ base, .returning .fail⟩ :=
  h.stays (Outcome.avoids_of_next?_eq_none rfl)

/-- Without a base there is nothing to drop. -/
theorem Stays.zone_of_nil
    {m : Machine}
    (h : Stays c p P [] m) :
    Zone c p P [] m := by
  cases h with
  | zone hzone => exact hzone
  | dropped hconsumer hclear => cases hconsumer

/-! ## Components of a step -/

theorem innermostConsumer?_append (above base : List Context) :
    Machine.innermostConsumer? (above ++ base) =
      match Machine.innermostConsumer? above with
      | some (id, rest) => some (id, rest ++ base)
      | none => Machine.innermostConsumer? base := by
  induction above with
  | nil => rfl
  | cons x above ih =>
      cases x with
      | consuming id => rfl
      | awaiting frame label rest d => exact ih
      | recovering frame => exact ih
      | bare => exact ih

/-- The innermost consumer of a base is that of the co-expression. -/
theorem IsBase.innermostConsumer?
    {id : Nat} {below : List Context}
    (hbase : IsBase c p base)
    (h : Machine.innermostConsumer? base = some (id, below)) :
    id = c ∧ ∀ x ∈ below, x.Avoids c p := by
  cases hbase with
  | nil => cases h
  | awaiting label rest d hbelow =>
      cases h
      exact ⟨rfl, hbelow⟩
  | recovering hbelow =>
      cases h
      exact ⟨rfl, hbelow⟩

theorem Clear.halt
    (h : Clear c p P s above)
    (hbase : IsBase c p base)
    (reason : Halt) :
    Stays c p P base (Machine.halt s (above ++ base) reason) := by
  unfold Machine.halt
  split
  · rename_i id rest hconsumer
    rw [innermostConsumer?_append] at hconsumer
    cases habove : Machine.innermostConsumer? above with
    | some found =>
        obtain ⟨id', rest'⟩ := found
        simp only [habove, Option.some.injEq, Prod.mk.injEq] at hconsumer
        obtain ⟨rfl, rfl⟩ := hconsumer
        obtain ⟨before, rfl⟩ := Machine.exists_of_innermostConsumer? habove
        have hid : id' ≠ c := h.above (.consuming id') (by simp)
        have hset := h.apart.setProducer (q := .ended) hid trivial
        have hrest : Clear c p P (s.setProducer id' .ended) rest' :=
          ⟨hset.1, hset.2.trans h.producer, fun x hx => h.above x (by simp [hx])⟩
        exact hrest.fail
    | none =>
        simp only [habove] at hconsumer
        obtain ⟨rfl, hbelow⟩ := hbase.innermostConsumer? hconsumer
        exact .dropped hconsumer ((h.beneath hbelow).setProducer_self .ended)
  · exact h.stays trivial

theorem Clear.raise
    (h : Clear c p P s above)
    (f : Fault) :
    Stays c p P base (Machine.raise s (above ++ base) f) :=
  h.stays trivial

theorem Clear.leave
    (h : Clear c p P s above)
    (frame : Nat) (r : Raised) :
    Stays c p P base (Machine.leave s (above ++ base) frame r) := by
  rcases Machine.leave_cases s (above ++ base) frame r with ⟨trace, heq⟩ | heq <;> rw [heq] <;> exact h.stays trivial

theorem Clear.enter
    (h : Clear c p P s above)
    (environment : Environment) (procedure : Procedure) (args : List Value) (names : List String) :
    Stays c p P base (Machine.enter s (above ++ base) environment procedure args names) := by
  unfold Machine.enter
  split
  · exact h.raise _
  · have hbind := h.of_activity (s.activity_bindArguments procedure.code args names)
    have hnew := hbind.newFrame
      (Frame.avoids_new p environment procedure args (s.bindArguments procedure.code args names).1)
    dsimp only
    split
    · refine hnew.stays ?_
      exact Nat.ne_of_gt hbind.apart.frame
    · exact hnew.leave _ _

theorem Clear.reply
    {r : Reply}
    (h : Clear c p P s above)
    (hbase : IsBase c p base)
    (hr : r.IsPlain) :
    Stays c p P base (Machine.reply s (above ++ base) r) := by
  cases r with
  | outcome o => exact h.stays (Outcome.avoids_of_isDetached hr)
  | fault f => exact h.raise f
  | halt reason => exact h.halt hbase reason

/-- A call that does not close the co-expression. -/
theorem Clear.call
    {callee : Value} {args : List Value} {names : List String}
    (h : Clear c p P s above)
    (hbase : IsBase c p base)
    (environment : Environment)
    (hclose : s.closed? (.call callee args names) ≠ some c) :
    Stays c p P base (Machine.call s (above ++ base) environment callee args names) := by
  have hcalled := Machine.called_call s (above ++ base) environment callee args names
  generalize Machine.call s (above ++ base) environment callee args names = m at hcalled ⊢
  cases hcalled with
  | procedure => exact h.enter environment _ args names
  | record hconstruct =>
      exact (h.of_activity (Store.activity_construct hconstruct)).stays (Outcome.avoids_of_next?_eq_none rfl)
  | @builtin _ b hcallee hcallable hnames =>
      have hstore : Clear c p P (s.builtin b (args.map s.deref)).2 above := by
        rcases s.activity_builtin b (args.map s.deref) with hactivity | ⟨rfl, other, hother, -, hended⟩
        · exact h.of_activity hactivity
        · rw [hended]
          refine h.of_store (h.apart.endProducer ?_)
          rintro rfl
          exact hclose (by simp only [Store.closed?, hcallee, hcallable, hnames, hother])
      exact hstore.reply hbase (s.isPlain_builtin b _)
  | _ => exact h.raise _

/-- What a move makes of a zone: a request above it, or a state that stays. -/
def Proceeds (c p : Nat) (P : Producer) (base : List Context) :
    Option (Store × Request) → Machine → Prop
  | none, m => Stays c p P base m
  | some (t, q), m =>
      ∃ above environment, m = q.start t (above ++ base) environment ∧ Clear c p P t above

theorem IsBase.append_eq_bare
    {rest : List Context}
    (hbase : IsBase c p base)
    (h : above ++ base = .bare :: rest) :
    ∃ above', above = .bare :: above' ∧ rest = above' ++ base := by
  cases above with
  | nil => cases hbase <;> cases h
  | cons x above =>
      cases h
      exact ⟨above, rfl, rfl⟩

theorem Clear.fault
    {frame : Nat}
    (h : Clear c p P s above)
    (hbase : IsBase c p base)
    (hframe : frame ≠ p)
    (r : Raised) :
    Proceeds c p P base (Machine.recovery? s (above ++ base) frame r)
      (Machine.fault s (above ++ base) frame r) := by
  rcases Machine.fault_cases s (above ++ base) frame r with
    ⟨rest, hbare, hrecovery, heq⟩ | ⟨f, g, q, environment, hf, hg, hrecovery, heq⟩ |
    ⟨hrecovery, heq⟩ | ⟨f, g, hf, hg, hrecovery, heq⟩ <;> rw [hrecovery, heq]
  · obtain ⟨above', rfl, rfl⟩ := hbase.append_eq_bare hbare
    exact h.tail.stays trivial
  · exact ⟨.recovering frame :: above, environment, rfl, (h.setFrame_of_temps hf hg).push hframe⟩
  · exact h.leave frame r
  · exact (h.setFrame_of_temps hf hg).leave frame r

theorem Clear.malfunction
    {frame : Nat}
    (h : Clear c p P s above)
    (hbase : IsBase c p base)
    (hframe : frame ≠ p)
    (m : Malfunction) :
    Stays c p P base (Machine.malfunction s (above ++ base) frame m) := by
  have hfault := h.fault hbase hframe ⟨.malfunction m, []⟩
  rw [Machine.recovery?_malfunction] at hfault
  exact hfault

theorem Clear.jump
    {frame : Nat}
    (h : Clear c p P s above)
    (hbase : IsBase c p base)
    (hframe : frame ≠ p)
    (label : Ir.Label) :
    Stays c p P base (Machine.jump s (above ++ base) frame label) := by
  unfold Machine.jump
  split
  · exact h.fail
  · split
    · exact h.stays hframe
    · exact h.malfunction hbase hframe _

theorem Clear.failed
    {frame : Nat}
    (h : Clear c p P s above)
    (hbase : IsBase c p base)
    (hframe : frame ≠ p)
    (onFail : Option Ir.Label) :
    Stays c p P base (Machine.failed s (above ++ base) frame onFail) := by
  cases onFail with
  | none => exact h.fail
  | some label => exact h.jump hbase hframe label

theorem Clear.deliver
    {frame : Nat} {o : Outcome}
    (h : Clear c p P s above)
    (hbase : IsBase c p base)
    (hframe : frame ≠ p)
    (ho : o.Avoids p)
    (label : Ir.Label) (rest : List Ir.Instruction) (d : Ir.Destination) :
    Stays c p P base (Machine.deliver s (above ++ base) frame label rest d o) := by
  unfold Machine.deliver
  split
  · exact h.fail
  · rename_i f hf
    cases hstored : Machine.storeOutcome f d o with
    | error m => exact h.malfunction hbase hframe m
    | ok g =>
        have hset := h.storeOutcome hf ho hstored
        cases o with
        | fail => exact hset.failed hbase hframe d.onFail
        | result v => exact hset.stays hframe
        | suspended v k => exact hset.stays hframe

theorem Clear.resume
    {k : Continuation}
    (h : Clear c p P s above)
    (hbase : IsBase c p base)
    (hk : k.Avoids p) :
    Stays c p P base (Machine.resume s (above ++ base) k) := by
  cases k with
  | activation frame label => exact h.jump hbase hk label
  | elements list position =>
      exact h.stays (Outcome.avoids_of_isDetached (isDetached_elementsFrom s list position))
  | values rest => exact h.stays (Outcome.avoids_of_isDetached (isDetached_valuesFrom rest))
  | count low high =>
      exact h.stays (Outcome.avoids_of_isDetached (isDetached_countFrom low high))

/-- A co-expression other than `c` is asked for its next value. -/
theorem Clear.activate
    {id : Nat}
    (h : Clear c p P s above)
    (hbase : IsBase c p base)
    (hid : id ≠ c) :
    Stays c p P base (Machine.activate s (above ++ base) id) := by
  have hproducer := h.apart.producers id hid
  have hrunning : Clear c p P (s.setProducer id .running) (.consuming id :: above) :=
    (h.of_store (h.apart.setProducer (q := .running) hid trivial)).push hid
  unfold Machine.activate
  split
  · rename_i frame label hfresh
    rw [hfresh] at hproducer
    exact hrunning.jump hbase hproducer label
  · rename_i frame label hwaiting
    rw [hwaiting] at hproducer
    exact hrunning.jump hbase hproducer label
  · exact h.halt hbase .blocked
  · exact h.fail

/-- A request that is not meant for the co-expression. -/
theorem start_stays
    {q : Request}
    (h : Clear c p P s above)
    (hbase : IsBase c p base)
    (environment : Environment)
    (hask : s.activated? q ≠ some c)
    (hclose : s.closed? q ≠ some c) :
    Stays c p P base (q.start s (above ++ base) environment) := by
  cases q with
  | call callee args names => exact h.call hbase environment hclose
  | operator op args =>
      have hactivity := h.of_activity (s.activity_invoke op args)
      simp only [Request.start, Machine.invoke]
      split
      · rename_i r t hreply
        rw [hreply] at hactivity
        exact hactivity.reply hbase (Store.isPlain_invoke (by rw [hreply]))
      · rename_i id t hactivate
        rw [hactivate] at hactivity
        refine hactivity.activate hbase ?_
        rintro rfl
        exact hask (by simp only [Store.activated?, hactivate])

/-! ## Steps -/

theorem Clear.perform
    {frame : Nat} {e : Effect}
    (h : Clear c p P s above)
    (hbase : IsBase c p base)
    (hframe : frame ≠ p)
    (hresumes : ∀ d k, e = .resume d (some k) → k.Avoids p)
    (label : Ir.Label) (rest : List Ir.Instruction) (environment : Environment) :
    Proceeds c p P base (Machine.effectRequest? s (above ++ base) frame e)
      (Machine.perform s (above ++ base) frame label rest environment e) := by
  have hawaiting : ∀ d, Clear c p P s (.awaiting frame label rest d :: above) :=
    fun d => h.push hframe
  cases e with
  | next => exact h.stays hframe
  | goto target => exact h.jump hbase hframe target
  | failed onFail => exact h.failed hbase hframe onFail
  | succeed v again =>
      cases again with
      | none => exact h.stays (Outcome.avoids_of_next?_eq_none rfl)
      | some again =>
          have houtcome : (Outcome.suspended v (.activation frame again)).Avoids p := by
            intro k hk
            cases hk
            exact hframe
          exact h.stays houtcome
  | call d callee args names => exact ⟨_, environment, rfl, hawaiting d⟩
  | operator d op args => exact ⟨_, environment, rfl, hawaiting d⟩
  | resume d k =>
      cases k with
      | none => exact (hawaiting d).fail
      | some k => exact (hawaiting d).resume hbase (hresumes d k rfl)
  | produce v again =>
      simp only [Machine.perform]
      split
      · rename_i id below hstack
        cases above with
        | nil => cases hbase <;> cases hstack
        | cons x above =>
            cases hstack
            have hid : id ≠ c := h.above (.consuming id) List.mem_cons_self
            have hset := h.tail.of_store (h.apart.setProducer (q := .waiting frame again) hid hframe)
            exact hset.stays (Outcome.avoids_of_next?_eq_none rfl)
      · exact h.malfunction hbase hframe _
  | exhaust =>
      simp only [Machine.perform]
      split
      · exact h.fail
      · exact h.malfunction hbase hframe _
  | halt reason => exact h.halt hbase reason
  | fault f => exact h.fault hbase hframe ⟨f, []⟩

theorem Clear.advance
    {frame : Nat}
    (h : Clear c p P s above)
    (hbase : IsBase c p base)
    (hframe : frame ≠ p)
    (label : Ir.Label) (rest : List Ir.Instruction) :
    Proceeds c p P base (Machine.request? ⟨s, above ++ base, .running frame label rest⟩)
      (Machine.advance s (above ++ base) frame label rest) := by
  unfold Machine.advance
  cases hf : s.frames[frame]? with
  | none =>
      cases rest with
      | nil => exact h.fail
      | cons i rest =>
          simp only [Machine.request?, hf]
          exact h.fail
  | some f =>
      cases rest with
      | nil => exact h.malfunction hbase hframe _
      | cons i rest =>
          obtain ⟨hset, hresumes⟩ := h.execute hf i
          simp only [Machine.request?, hf]
          exact hset.perform hbase hframe hresumes label rest _

theorem Clear.returnTo
    {x : Context} {o : Outcome}
    (h : Clear c p P s (x :: above))
    (hbase : IsBase c p base)
    (ho : o.Avoids p) :
    Stays c p P base (Machine.returnTo s o (above ++ base) x) := by
  have hx := h.above x List.mem_cons_self
  cases x with
  | awaiting frame label rest d => exact h.tail.deliver hbase hx ho label rest d
  | recovering frame => exact h.tail.stays ho
  | bare => exact h.tail.stays ho
  | consuming id =>
      refine (h.tail.of_store (h.apart.endProducer hx)).stays (Outcome.avoids_of_next?_eq_none ?_)
      cases o <;> rfl

theorem Clear.raiseTo
    {x : Context}
    (h : Clear c p P s (x :: above))
    (hbase : IsBase c p base)
    (r : Raised) :
    Proceeds c p P base (Machine.request? ⟨s, x :: (above ++ base), .raising r⟩)
      (Machine.raiseTo s r (above ++ base) x) := by
  have hx := h.above x List.mem_cons_self
  cases x with
  | awaiting frame label rest d => exact h.tail.fault hbase hx r
  | recovering frame => exact h.tail.leave frame r
  | bare => exact h.tail.stays trivial
  | consuming id => exact (h.tail.of_store (h.apart.endProducer hx)).stays trivial

/-- The control is about to hand something to the base. -/
def AtBase (base : List Context) (m : Machine) : Prop :=
  m.stack = base ∧ base ≠ [] ∧ m.control.isIdle = true

/-- A step of a state in the zone that hands nothing to the base. -/
theorem Zone.step
    {m : Machine}
    (h : Zone c p P base m)
    (hbase : IsBase c p base)
    (hat : ¬ AtBase base m) :
    Proceeds c p P base m.request? m.step := by
  obtain ⟨s, stack, control⟩ := m
  obtain ⟨⟨above, hstack, hclear⟩, hcontrol⟩ := h
  dsimp only at hstack hclear hcontrol
  subst hstack
  cases control with
  | running frame label rest => exact hclear.advance hbase hcontrol label rest
  | halted reason => exact hclear.stays trivial
  | aborted r => exact hclear.stays trivial
  | returning o =>
      cases above with
      | cons x above => exact hclear.returnTo hbase hcontrol
      | nil =>
          cases base with
          | nil => exact hclear.stays hcontrol
          | cons x base => exact absurd ⟨rfl, by simp, rfl⟩ hat
  | raising r =>
      cases above with
      | cons x above => exact hclear.raiseTo hbase r
      | nil =>
          cases base with
          | nil => exact hclear.stays trivial
          | cons x base => exact absurd ⟨rfl, by simp, rfl⟩ hat

end Coexpression

end Separation

end GoalDirected
