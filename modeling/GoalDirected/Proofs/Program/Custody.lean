import GoalDirected.Proofs.Machine.Replies
import GoalDirected.Proofs.Program.Course
import Mathlib.Algebra.GroupWithZero.Nat

/-!
# Custody of activations

An activation goes on in one way only.  It runs, or it waits for an outcome, or a continuation or a co-expression
waits to resume it; and once its recovery procedure has been called it does not go on at all.  All of these are
handed over and never copied.

* `Machine.uses e n`: how many ways there are to go on with frame `n`.  An activation whose recovery procedure runs
  counts as `e`.
* `within_step`: a step makes no more of them, except that a new frame has one.
* `Reachable.sound`: so a frame has at most one, and one that has none gets none.
-/

namespace GoalDirected

section Custody

/-! ## Weights -/

/-- The sum of the weights of all elements. -/
def weigh {α : Type} (w : α → Nat) (l : List α) : Nat :=
  (l.map w).sum

variable {α : Type} {w : α → Nat}

@[simp] theorem weigh_nil (w : α → Nat) : weigh w [] = 0 := rfl

@[simp] theorem weigh_cons (w : α → Nat) (a : α) (l : List α) :
    weigh w (a :: l) = w a + weigh w l := rfl

@[simp] theorem weigh_append (w : α → Nat) (l k : List α) :
    weigh w (l ++ k) = weigh w l + weigh w k := by
  simp [weigh]

theorem weigh_set
    {l : List α} {i : Nat} {a : α}
    (h : l[i]? = some a)
    (b : α) :
    weigh w (l.set i b) + w a = weigh w l + w b := by
  induction l generalizing i with
  | nil => cases h
  | cons c rest ih =>
      cases i with
      | zero =>
          cases h
          simp only [List.set_cons_zero, weigh_cons]
          omega
      | succ i =>
          have hrest := ih (by simpa using h)
          simp only [List.set_cons_succ, weigh_cons]
          omega

/-- Elements are kept in their places, or replaced by weightless ones. -/
theorem weigh_le
    {l k : List α}
    (hlength : k.length = l.length)
    (h : ∀ (i : Nat) (b : α), k[i]? = some b → l[i]? = some b ∨ w b = 0) :
    weigh w k ≤ weigh w l := by
  induction k generalizing l with
  | nil => simp
  | cons b k ih =>
      cases l with
      | nil => cases hlength
      | cons a l =>
          have htail := ih (l := l) (by simpa using hlength) fun i b hb => h (i + 1) b hb
          have hhead : w b ≤ w a := by
            rcases h 0 b rfl with hb | hb
            · cases hb
              exact Nat.le_refl _
            · omega
          simp only [weigh_cons]
          omega

theorem weigh_mono
    {v w : α → Nat}
    (l : List α)
    (h : ∀ a, v a ≤ w a) :
    weigh v l ≤ weigh w l := by
  induction l with
  | nil => exact Nat.le_refl _
  | cons a l ih => exact Nat.add_le_add (h a) ih

theorem le_weigh
    {l : List α} {a : α}
    (h : a ∈ l) :
    w a ≤ weigh w l := by
  induction l with
  | nil => cases h
  | cons b l ih =>
      simp only [weigh_cons]
      rcases List.mem_cons.mp h with rfl | h
      · omega
      · have := ih h
        omega

/-! ## Ways to go on -/

/-- One for the frame itself. -/
def mark (frame n : Nat) : Nat :=
  if frame = n then 1 else 0

/-- One for a frame that has been added. -/
def added (n before after : Nat) : Nat :=
  if before ≤ n ∧ n < after then 1 else 0

theorem added_self (n size : Nat) : added n size size = 0 :=
  if_neg fun h => Nat.not_lt_of_le h.1 h.2

theorem added_trans
    (n : Nat) {a b c : Nat}
    (hab : a ≤ b)
    (hbc : b ≤ c) :
    added n a b + added n b c = added n a c := by
  unfold added
  split <;> split <;> split <;> omega

def Continuation.uses (n : Nat) : Continuation → Nat
  | .activation frame _ => mark frame n
  | _ => 0

def Outcome.uses (n : Nat) : Outcome → Nat
  | .suspended _ k => k.uses n
  | _ => 0

def Temp.uses (n : Nat) : Temp → Nat
  | .next k => k.uses n
  | _ => 0

def Frame.uses (n : Nat) (f : Frame) : Nat :=
  weigh (Temp.uses n) f.temps.toList

def Producer.uses (n : Nat) : Producer → Nat
  | .fresh frame _ => mark frame n
  | .waiting frame _ => mark frame n
  | _ => 0

def Context.uses (e n : Nat) : Context → Nat
  | .awaiting frame _ _ _ => mark frame n
  | .recovering frame => e * mark frame n
  | _ => 0

def Control.uses (n : Nat) : Control → Nat
  | .running frame _ _ => mark frame n
  | .returning o => o.uses n
  | _ => 0

def Effect.uses (n : Nat) : Effect → Nat
  | .resume _ (some k) => k.uses n
  | _ => 0

def Store.uses (n : Nat) (s : Store) : Nat :=
  weigh (Frame.uses n) s.frames.toList + weigh (Producer.uses n) s.producers.toList

/-- The number of ways to go on with a frame. -/
def Machine.uses (e n : Nat) (m : Machine) : Nat :=
  m.store.uses n + weigh (Context.uses e n) m.stack + m.control.uses n

theorem Outcome.IsDetached.uses
    {o : Outcome}
    (h : o.IsDetached)
    (n : Nat) :
    o.uses n = 0 := by
  cases o with
  | fail => rfl
  | result v => rfl
  | suspended v k =>
      cases k with
      | activation frame label => exact absurd rfl (h frame label)
      | _ => rfl

/-! ## Frames -/

namespace Frame

theorem uses_put
    {f g : Frame} {slot : Nat} {t : Temp}
    (h : f.put slot t = .ok g)
    (n : Nat) :
    g.uses n ≤ f.uses n + t.uses n := by
  obtain ⟨hlt, rfl⟩ := getElem?_put h
  have hold : f.temps.toList[slot]? = some f.temps[slot] := by simp [hlt]
  have hset := weigh_set (w := Temp.uses n) hold t
  simp only [Frame.uses, Array.toList_setIfInBounds]
  omega

theorem uses_follows
    {f g : Frame} {labels : List Ir.Label}
    (h : f.Follows labels g)
    (n : Nat) :
    g.uses n ≤ f.uses n := by
  refine weigh_le (by simpa using h.size) ?_
  intro i t ht
  rcases h.temps i t (by simpa using ht) with hold | hputs
  · exact Or.inl (by simpa using hold)
  · cases t with
    | next k => exact hputs.elim
    | _ => exact Or.inr rfl

/-- A continuation that is taken out is not in the frame any more. -/
theorem uses_takeNext
    {f g : Frame} {slot : Nat} {k : Continuation}
    (h : f.takeNext slot = .ok (some k, g))
    (n : Nat) :
    g.uses n + k.uses n ≤ f.uses n := by
  have hslot := takeNext_eq_some h
  unfold takeNext at h
  rw [hslot] at h
  cases h
  have hset := weigh_set (w := Temp.uses n) (l := f.temps.toList) (by simpa using hslot) .empty
  simp only [Frame.uses, Array.toList_setIfInBounds]
  simp only [Temp.uses] at hset
  omega

theorem uses_eq_zero
    {f : Frame}
    (h : ∀ (slot : Nat) (k : Continuation), f.temps[slot]? ≠ some (.next k))
    (n : Nat) :
    f.uses n = 0 := by
  have hle := weigh_le (w := Temp.uses n) (l := List.replicate f.temps.toList.length .empty)
    (k := f.temps.toList) (by simp) ?_
  · have hzero : weigh (Temp.uses n) (List.replicate f.temps.toList.length .empty) = 0 := by
      simp [weigh, Temp.uses]
    exact Nat.le_zero.mp (hzero ▸ hle)
  · intro i t ht
    cases t with
    | next k => exact absurd (by simpa using ht) (h i k)
    | _ => exact Or.inr rfl

theorem uses_new
    (environment : Environment) (p : Procedure) (args : List Value) (vars : Bindings) (n : Nat) :
    (Frame.new environment p args vars).uses n = 0 := by
  refine uses_eq_zero ?_ n
  intro slot k hk
  simp only [Frame.new, Array.getElem?_replicate] at hk
  split at hk <;> cases hk

end Frame

/-! ## Stores -/

namespace Store

variable {s t : Store}

theorem uses_eq_of_activity
    (h : t.activity = s.activity)
    (n : Nat) :
    t.uses n = s.uses n := by
  simp only [uses, frames_eq_of_activity h, producers_eq_of_activity h]

theorem uses_setFrame
    {frame : Nat} {f g : Frame}
    (hf : s.frames[frame]? = some f)
    (n : Nat) :
    (s.setFrame frame g).uses n + f.uses n = s.uses n + g.uses n := by
  have hset := weigh_set (w := Frame.uses n) (l := s.frames.toList) (by simpa using hf) g
  simp only [uses, setFrame, Array.toList_setIfInBounds]
  omega

theorem uses_newFrame (s : Store) (f : Frame) (n : Nat) :
    (s.newFrame f).2.uses n = s.uses n + f.uses n := by
  simp only [uses, newFrame, Array.toList_push, weigh_append, weigh_cons, weigh_nil]
  omega

/-- What a co-expression had to go on with is replaced. -/
theorem uses_setProducer (s : Store) (id : Nat) (p : Producer) (n : Nat) :
    (s.setProducer id p).uses n + (s.producer id).uses n ≤ s.uses n + p.uses n := by
  cases id with
  | zero => simp [setProducer, producer, Producer.uses]
  | succ i =>
      cases hi : s.producers[i]? with
      | none =>
          have hle := Array.getElem?_eq_none_iff.mp hi
          simp [setProducer, producer, hi, Producer.uses, uses, Array.setIfInBounds_eq_of_size_le hle]
      | some old =>
          have hset := weigh_set (w := Producer.uses n) (l := s.producers.toList) (by simpa using hi) p
          have hold : s.producer (i + 1) = old := by simp [producer, hi]
          rw [hold]
          simp only [setProducer, uses, Array.toList_setIfInBounds]
          omega

theorem uses_endProducer (s : Store) (id : Nat) (n : Nat) :
    (s.endProducer id).uses n ≤ s.uses n := by
  have h := s.uses_setProducer id .ended n
  simp only [Producer.uses] at h
  have heq : (s.endProducer id).uses n = (s.setProducer id .ended).uses n := rfl
  omega

/-! ## Instructions -/

theorem uses_changed (s : Store) (f : Frame) (e : Except Malfunction Frame) (n : Nat) :
    (s.changed f e).1.uses n = 0 := by
  cases e <;> rfl

theorem uses_executeField
    (s : Store) (f : Frame) (target record : Nat) (field : String) (assignable : Bool)
    (onFail : Option Ir.Label) (n : Nat) :
    (s.executeField f target record field assignable onFail).1.uses n = 0 := by
  unfold executeField
  split
  · rfl
  · split
    · split
      · exact uses_changed ..
      · rfl
    · rfl

theorem uses_executeSelect
    (s : Store) (f : Frame) (cases : List Ir.Case) (onFail : Option Ir.Label) (n : Nat) :
    (s.executeSelect f cases onFail).1.uses n = 0 := by
  unfold executeSelect
  split
  · rfl
  · split
    · rfl
    · rfl
    · split
      · unfold storeReceived
        split
        · rfl
        · split <;> rfl
      · rfl
      · rfl

/-- Only a resumption has a continuation to go on with, and that was in a slot. -/
theorem uses_effect (s : Store) (f : Frame) (i : Ir.Instruction) (n : Nat) :
    (s.execute f i).2.1.uses n + (s.execute f i).1.uses n ≤ f.uses n := by
  have hfollows := Frame.uses_follows (s.executes_execute f i).follows n
  have hplain : (s.execute f i).1.uses n = 0 →
      (s.execute f i).2.1.uses n + (s.execute f i).1.uses n ≤ f.uses n := by
    intro hzero
    omega
  cases i with
  | resume d source =>
      simp only [execute] at hfollows hplain ⊢
      split
      · rename_i k g htake
        cases k with
        | none =>
            rw [htake] at hplain
            exact hplain rfl
        | some k => exact Frame.uses_takeNext htake n
      · rename_i htake
        rw [htake] at hplain
        exact hplain rfl
  | literal target value => exact hplain (uses_changed ..)
  | name target name => exact hplain (uses_changed ..)
  | move target source => exact hplain (uses_changed ..)
  | deref target source => exact hplain (uses_changed ..)
  | moveLabel target label => exact hplain (uses_changed ..)
  | field target record field assignable onFail => exact hplain (uses_executeField ..)
  | select cases onFail => exact hplain (uses_executeSelect ..)
  | succeed value again =>
      cases value with
      | none => exact hplain rfl
      | some slot =>
          refine hplain ?_
          simp only [execute]
          split <;> rfl
  | goto target => exact hplain rfl
  | fail => exact hplain rfl
  | enter scope names dynamics => exact hplain rfl
  | exhaust => exact hplain rfl
  | coordinate coord => exact hplain rfl
  | indirect source targets =>
      refine hplain ?_
      simp only [execute]
      split
      · rfl
      · split <;> rfl
  | dynamic target name assignable =>
      refine hplain ?_
      simp only [execute]
      split
      · exact uses_changed ..
      · rfl
  | create target entry =>
      refine hplain ?_
      simp only [execute]
      split
      · exact uses_changed ..
      · rfl
  | _ =>
      refine hplain ?_
      simp only [execute]
      split <;> rfl

/-- An instruction adds a way to go on only with a frame that it adds. -/
theorem uses_execute
    {frame : Nat} {f : Frame}
    (hf : s.frames[frame]? = some f)
    (i : Ir.Instruction) (n : Nat) :
    s.frames.size ≤ (s.execute f i).2.2.frames.size ∧
      ((s.execute f i).2.2.setFrame frame (s.execute f i).2.1).uses n + (s.execute f i).1.uses n ≤
        s.uses n + added n s.frames.size (s.execute f i).2.2.frames.size := by
  have heffect := uses_effect s f i n
  have hset := uses_setFrame (g := (s.execute f i).2.1) (s.getElem?_frames_execute f i hf) n
  rcases (s.executes_execute f i).activity with hactivity | ⟨entry, v, -, hcreate⟩
  · have huses := uses_eq_of_activity hactivity n
    rw [frames_eq_of_activity hactivity, added_self]
    exact ⟨Nat.le_refl _, by omega⟩
  · obtain ⟨copy, -, hnext, hframes, hproducers, -⟩ := createProducer_eq_ok hcreate
    have hcopy := Frame.uses_eq_zero hnext n
    have huses : (s.execute f i).2.2.uses n = s.uses n + mark s.frames.size n := by
      simp only [uses, hframes, hproducers, Array.toList_push, weigh_append, weigh_cons, weigh_nil, hcopy,
        Producer.uses]
      omega
    have hadded : added n s.frames.size (s.execute f i).2.2.frames.size = mark s.frames.size n := by
      simp only [added, mark, hframes, Array.size_push]
      split <;> split <;> omega
    rw [hadded, hframes, Array.size_push]
    exact ⟨Nat.le_succ _, by omega⟩

end Store

/-! ## Machines -/

namespace Machine

/-- What a store and a stack of contexts have to go on with a frame. -/
def load (e n : Nat) (s : Store) (stack : List Context) : Nat :=
  s.uses n + weigh (Context.uses e n) stack

/-- The machine goes on with a frame in at most a given number of ways, and in one more if the frame is new. -/
structure Within (e n bound size : Nat) (m : Machine) : Prop where
  frames : size ≤ m.store.frames.size
  uses : m.uses e n ≤ bound + added n size m.store.frames.size

variable {s t : Store} {stack : List Context} {m : Machine} {e n bound size : Nat}

theorem Within.mono
    {limit : Nat}
    (h : Within e n bound size m)
    (hle : bound ≤ limit) :
    Within e n limit size m :=
  ⟨h.frames, Nat.le_trans h.uses (Nat.add_le_add_right hle _)⟩

/-- The store has changed first. -/
theorem Within.trans
    {limit more : Nat}
    (h : Within e n bound more m)
    (hsize : size ≤ more)
    (hle : bound ≤ limit + added n size more) :
    Within e n limit size m := by
  have hadded := added_trans n hsize h.frames
  have huses := h.uses
  exact ⟨Nat.le_trans hsize h.frames, by omega⟩

theorem within_of_uses
    {control : Control}
    (hsize : t.frames.size = size)
    (huses : load e n t stack + control.uses n ≤ bound) :
    Within e n bound size ⟨t, stack, control⟩ := by
  subst hsize
  refine ⟨Nat.le_refl _, ?_⟩
  rw [added_self]
  exact huses

theorem within_raising
    (s : Store) (stack : List Context) (r : Raised) :
    Within e n (load e n s stack) s.frames.size ⟨s, stack, .raising r⟩ :=
  within_of_uses rfl (Nat.le_refl _)

theorem within_fail
    (s : Store) (stack : List Context) :
    Within e n (load e n s stack) s.frames.size ⟨s, stack, .returning .fail⟩ :=
  within_of_uses rfl (Nat.le_refl _)

theorem size_frames_setProducer (s : Store) (id : Nat) (p : Producer) :
    (s.setProducer id p).frames.size = s.frames.size := by
  rw [s.frames_setProducer]

theorem within_halt (s : Store) (stack : List Context) (reason : Halt) :
    Within e n (load e n s stack) s.frames.size (halt s stack reason) := by
  unfold halt
  split
  · rename_i id rest hinner
    obtain ⟨before, rfl⟩ := exists_of_innermostConsumer? hinner
    have hset := s.uses_setProducer id .ended n
    refine within_of_uses (size_frames_setProducer s id .ended) ?_
    simp only [load, weigh_append, weigh_cons, Control.uses, Outcome.uses]
    simp only [Producer.uses] at hset
    omega
  · exact within_of_uses rfl (Nat.le_refl _)

theorem within_leave (s : Store) (stack : List Context) (frame : Nat) (r : Raised) :
    Within e n (load e n s stack) s.frames.size (leave s stack frame r) := by
  rcases leave_cases s stack frame r with ⟨trace, heq⟩ | heq
  · rw [heq]
    exact within_raising s stack _
  · rw [heq]
    exact within_of_uses rfl (Nat.le_refl _)

/-- An activation that starts has one way to go on. -/
theorem within_enter
    (s : Store) (stack : List Context) (environment : Environment) (p : Procedure) (args : List Value)
    (names : List String) :
    Within e n (load e n s stack) s.frames.size (enter s stack environment p args names) := by
  unfold enter
  split
  · exact within_raising s stack _
  · have hactivity := s.activity_bindArguments p.code args names
    have hframes := Store.frames_eq_of_activity hactivity
    have huses := Store.uses_eq_of_activity hactivity n
    have hnew := Store.uses_newFrame (s.bindArguments p.code args names).2
      (.new environment p args (s.bindArguments p.code args names).1) n
    rw [Frame.uses_new] at hnew
    have hsize : ((s.bindArguments p.code args names).2.newFrame
        (.new environment p args (s.bindArguments p.code args names).1)).2.frames.size = s.frames.size + 1 := by
      simp [Store.newFrame, hframes]
    dsimp only
    split
    · refine ⟨by rw [hsize]; exact Nat.le_succ _, ?_⟩
      have hadded : added n s.frames.size (s.frames.size + 1) = mark s.frames.size n := by
        simp only [added, mark]
        split <;> split <;> omega
      rw [hsize, hadded]
      simp only [Machine.uses, load, Control.uses, Store.newFrame, hframes] at hnew ⊢
      omega
    · refine (within_leave _ stack _ _).trans (by rw [hsize]; exact Nat.le_succ _) ?_
      simp only [load]
      omega

theorem within_reply
    {r : Reply}
    (s : Store) (stack : List Context)
    (hr : r.IsPlain) :
    Within e n (load e n s stack) s.frames.size (reply s stack r) := by
  cases r with
  | outcome o =>
      refine within_of_uses rfl ?_
      simp only [Control.uses, Outcome.IsDetached.uses hr, Nat.add_zero]
      exact Nat.le_refl _
  | fault f => exact within_raising s stack _
  | halt reason => exact within_halt s stack reason

theorem within_call
    (s : Store) (stack : List Context) (environment : Environment) (callee : Value) (args : List Value)
    (names : List String) :
    Within e n (load e n s stack) s.frames.size (call s stack environment callee args names) := by
  have hcalled := called_call s stack environment callee args names
  generalize call s stack environment callee args names = m at hcalled ⊢
  cases hcalled with
  | procedure => exact within_enter s stack environment _ args names
  | record hconstruct =>
      have hactivity := Store.activity_construct hconstruct
      refine within_of_uses (congrArg Array.size (Store.frames_eq_of_activity hactivity)) ?_
      simp only [load, Store.uses_eq_of_activity hactivity, Control.uses, Outcome.uses]
      omega
  | @builtin _ b =>
      have hreply := within_reply (e := e) (n := n) (s.builtin b (args.map s.deref)).2 stack
        (s.isPlain_builtin b (args.map s.deref))
      rcases s.activity_builtin b (args.map s.deref) with hactivity | ⟨-, id, -, -, hended⟩
      · have huses := Store.uses_eq_of_activity hactivity n
        rw [Store.frames_eq_of_activity hactivity] at hreply
        refine hreply.mono ?_
        simp only [load]
        omega
      · have huses := s.uses_endProducer id n
        have hframes : (s.endProducer id).frames.size = s.frames.size := size_frames_setProducer s id .ended
        rw [hended] at hreply
        rw [hended]
        rw [hframes] at hreply
        refine hreply.mono ?_
        simp only [load]
        omega
  | _ => exact within_raising s stack _

theorem exists_of_recovery?
    {frame : Nat} {r : Raised} {q : Request}
    (h : recovery? s stack frame r = some (t, q)) :
    ∃ handler args, q = .call handler args [] := by
  unfold recovery? at h
  split at h
  · cases h
  · obtain ⟨handler, -, heq⟩ := Option.map_eq_some_iff.mp h
    cases heq
    exact ⟨handler, _, rfl⟩
  · cases h

/-- A frame changes in anything but its temporaries. -/
theorem uses_setFrame_of_temps
    {frame : Nat} {f g : Frame}
    (hf : s.frames[frame]? = some f)
    (htemps : g.temps = f.temps)
    (n : Nat) :
    (s.setFrame frame g).uses n = s.uses n := by
  have hset := Store.uses_setFrame (g := g) hf n
  have hsame : g.uses n = f.uses n := by rw [Frame.uses, htemps, Frame.uses]
  omega

/-- The activation that is left is not gone on with, except that its recovery procedure may count. -/
theorem within_fault
    (he : e ≤ 1)
    (s : Store) (stack : List Context) (frame : Nat) (r : Raised) :
    Within e n (load e n s stack + mark frame n) s.frames.size (fault s stack frame r) := by
  rcases fault_cases s stack frame r with
    ⟨rest, rfl, -, heq⟩ | ⟨f, g, q, environment, hf, htemps, hrecovery, heq⟩ | ⟨-, heq⟩ |
    ⟨f, g, hf, htemps, -, heq⟩ <;> rw [heq]
  · refine within_of_uses rfl ?_
    simp only [load, weigh_cons, Control.uses]
    omega
  · -- the context of the recovery procedure takes the place of the activation
    obtain ⟨handler, args, rfl⟩ := exists_of_recovery? hrecovery
    have hcall := within_call (e := e) (n := n) (s.setFrame frame g) (.recovering frame :: stack)
      environment handler args []
    rw [Store.size_frames_setFrame] at hcall
    refine hcall.mono ?_
    have hmark : e * mark frame n ≤ mark frame n := by
      calc e * mark frame n ≤ 1 * mark frame n := Nat.mul_le_mul_right _ he
        _ = mark frame n := Nat.one_mul _
    simp only [load, uses_setFrame_of_temps hf htemps, weigh_cons, Context.uses]
    omega
  · exact (within_leave s stack frame r).mono (Nat.le_add_right _ _)
  · have hleave := within_leave (e := e) (n := n) (s.setFrame frame g) stack frame r
    rw [Store.size_frames_setFrame] at hleave
    refine hleave.mono ?_
    simp only [load, uses_setFrame_of_temps hf htemps]
    omega

theorem within_jump
    (he : e ≤ 1)
    (s : Store) (stack : List Context) (frame : Nat) (label : Ir.Label) :
    Within e n (load e n s stack + mark frame n) s.frames.size (jump s stack frame label) := by
  unfold jump
  split
  · exact (within_fail s stack).mono (Nat.le_add_right _ _)
  · split
    · exact within_of_uses rfl (Nat.le_refl _)
    · exact within_fault he s stack frame _

theorem within_failed
    (he : e ≤ 1)
    (s : Store) (stack : List Context) (frame : Nat) (onFail : Option Ir.Label) :
    Within e n (load e n s stack + mark frame n) s.frames.size (failed s stack frame onFail) := by
  cases onFail with
  | none => exact (within_fail s stack).mono (Nat.le_add_right _ _)
  | some label => exact within_jump he s stack frame label

/-- A continuation that reaches a frame goes into one slot. -/
theorem uses_storeOutcome
    {f g : Frame} {d : Ir.Destination} {o : Outcome}
    (h : storeOutcome f d o = .ok g)
    (n : Nat) :
    g.uses n ≤ f.uses n + o.uses n := by
  obtain ⟨stored, hstored, heq⟩ := storeOutcome_eq f d o
  rw [heq] at h
  cases stored with
  | error e => cases h
  | ok f' =>
      have hvalue : f'.uses n ≤ f.uses n := by
        rcases hstored with hsame | ⟨slot, v, -, hset⟩
        · cases hsame
          exact Nat.le_refl _
        · exact Frame.uses_put hset.symm n
      simp only [Except.bind] at h
      split at h
      · rename_i slot _
        have hnext : g.uses n ≤ f'.uses n + o.uses n := by
          cases o with
          | suspended v k => exact Frame.uses_put h n
          | fail => exact Frame.uses_put h n
          | result v => exact Frame.uses_put h n
        omega
      · cases h
        omega

theorem within_deliver
    (he : e ≤ 1)
    (s : Store) (stack : List Context) (frame : Nat) (label : Ir.Label) (rest : List Ir.Instruction)
    (d : Ir.Destination) (o : Outcome) :
    Within e n (load e n s stack + mark frame n + o.uses n) s.frames.size
      (deliver s stack frame label rest d o) := by
  unfold deliver
  split
  · exact (within_fail s stack).mono (by omega)
  · rename_i f hf
    have hset : ∀ g, storeOutcome f d o = .ok g →
        (s.setFrame frame g).uses n ≤ s.uses n + o.uses n := by
      intro g hg
      have hset := Store.uses_setFrame (g := g) hf n
      have hstore := uses_storeOutcome hg n
      omega
    split
    · exact (within_fault he s stack frame _).mono (Nat.le_add_right _ _)
    · rename_i g hg
      have huses := hset g hg
      have hfailed := within_failed (n := n) he (s.setFrame frame g) stack frame d.onFail
      rw [Store.size_frames_setFrame] at hfailed
      refine hfailed.mono ?_
      simp only [load, Outcome.uses] at huses ⊢
      omega
    · rename_i g _ hg
      have huses := hset g hg
      refine within_of_uses (s.size_frames_setFrame frame g) ?_
      simp only [load, Control.uses]
      omega

theorem within_resume
    (he : e ≤ 1)
    (s : Store) (stack : List Context) (k : Continuation) :
    Within e n (load e n s stack + k.uses n) s.frames.size (resume s stack k) := by
  have hdetached : ∀ o : Outcome, o.IsDetached →
      Within e n (load e n s stack + k.uses n) s.frames.size ⟨s, stack, .returning o⟩ := by
    intro o ho
    refine within_of_uses rfl ?_
    simp only [Control.uses, ho.uses]
    omega
  cases k with
  | activation frame label => exact within_jump he s stack frame label
  | elements list position => exact hdetached _ (isDetached_elementsFrom s list position)
  | values values => exact hdetached _ (isDetached_valuesFrom values)
  | count low high => exact hdetached _ (isDetached_countFrom low high)

/-- A co-expression that runs does not wait any more. -/
theorem within_activate
    (he : e ≤ 1)
    (s : Store) (stack : List Context) (id : Nat) :
    Within e n (load e n s stack) s.frames.size (activate s stack id) := by
  have hset := s.uses_setProducer id .running n
  have hjump : ∀ frame label, mark frame n ≤ (s.producer id).uses n →
      Within e n (load e n s stack) s.frames.size
        (jump (s.setProducer id .running) (.consuming id :: stack) frame label) := by
    intro frame label hframe
    have hjump := within_jump (n := n) he (s.setProducer id .running) (.consuming id :: stack) frame label
    rw [size_frames_setProducer] at hjump
    refine hjump.mono ?_
    have hrunning : Producer.uses n .running = 0 := rfl
    simp only [load, weigh_cons, Context.uses]
    omega
  unfold activate
  split
  · rename_i frame label hproducer
    exact hjump frame label (by rw [hproducer]; exact Nat.le_refl _)
  · rename_i frame label hproducer
    exact hjump frame label (by rw [hproducer]; exact Nat.le_refl _)
  · exact within_halt s stack .blocked
  · exact within_fail s stack

theorem within_invoke
    (he : e ≤ 1)
    (s : Store) (stack : List Context) (op : String) (args : List Value) :
    Within e n (load e n s stack) s.frames.size (invoke s stack op args) := by
  have hactivity := s.activity_invoke op args
  have hsize := congrArg Array.size (Store.frames_eq_of_activity hactivity)
  have huses := Store.uses_eq_of_activity hactivity n
  have hload : load e n (s.invoke op args).2 stack = load e n s stack := by rw [load, huses, load]
  unfold invoke
  split
  · rename_i r t heq
    have hreply := within_reply (e := e) (n := n) t stack (Store.isPlain_invoke (congrArg Prod.fst heq))
    rw [heq] at hsize hload
    rw [← hsize, ← hload]
    exact hreply
  · rename_i id t heq
    rw [heq] at hsize hload
    rw [← hsize, ← hload]
    exact within_activate he t stack id

theorem within_perform
    (he : e ≤ 1)
    (s : Store) (stack : List Context) (frame : Nat) (label : Ir.Label) (rest : List Ir.Instruction)
    (environment : Environment) (x : Effect) :
    Within e n (load e n s stack + mark frame n + x.uses n) s.frames.size
      (perform s stack frame label rest environment x) := by
  have hpush : ∀ d, load e n s (.awaiting frame label rest d :: stack) = load e n s stack + mark frame n := by
    intro d
    simp only [load, weigh_cons, Context.uses]
    omega
  cases x with
  | next => exact within_of_uses rfl (Nat.le_refl _)
  | goto target => exact within_jump he s stack frame target
  | failed onFail => exact within_failed he s stack frame onFail
  | succeed v again =>
      cases again with
      | none =>
          refine within_of_uses rfl ?_
          simp only [Control.uses, Outcome.uses]
          omega
      | some again =>
          refine within_of_uses rfl ?_
          simp only [Control.uses, Outcome.uses, Continuation.uses]
          omega
  | call d callee args names =>
      have hcall := within_call (e := e) (n := n) s (.awaiting frame label rest d :: stack) environment callee
        args names
      rw [hpush] at hcall
      exact hcall
  | operator d op args =>
      have hinvoke := within_invoke (n := n) he s (.awaiting frame label rest d :: stack) op args
      rw [hpush] at hinvoke
      exact hinvoke
  | resume d k =>
      cases k with
      | none =>
          refine within_of_uses rfl ?_
          rw [hpush]
          exact Nat.le_refl _
      | some k =>
          have hresume := within_resume (n := n) he s (.awaiting frame label rest d :: stack) k
          rw [hpush] at hresume
          exact hresume
  | produce v again =>
      simp only [perform]
      split
      · rename_i id below
        have hset := s.uses_setProducer id (.waiting frame again) n
        refine within_of_uses (size_frames_setProducer s id _) ?_
        simp only [load, weigh_cons, Control.uses, Outcome.uses]
        simp only [Producer.uses] at hset
        omega
      · exact within_fault he s stack frame _
  | exhaust =>
      simp only [perform]
      split
      · exact (within_fail s _).mono (by omega)
      · exact within_fault he s stack frame _
  | halt reason => exact (within_halt s stack reason).mono (by omega)
  | fault f => exact within_fault he s stack frame ⟨f, []⟩

theorem within_advance
    (he : e ≤ 1)
    (s : Store) (stack : List Context) (frame : Nat) (label : Ir.Label) (rest : List Ir.Instruction) :
    Within e n (load e n s stack + mark frame n) s.frames.size (advance s stack frame label rest) := by
  unfold advance
  split
  · exact (within_fail s stack).mono (Nat.le_add_right _ _)
  · exact within_fault he s stack frame _
  · rename_i f i rest hf
    obtain ⟨hsize, huses⟩ := Store.uses_execute hf i n
    have hperform := within_perform (n := n) he ((s.execute f i).2.2.setFrame frame (s.execute f i).2.1) stack
      frame label rest (s.execute f i).2.1.environment (s.execute f i).1
    rw [Store.size_frames_setFrame] at hperform
    refine hperform.trans hsize ?_
    simp only [load]
    omega

/-- A step makes no new way to go on, except with a frame that it adds. -/
theorem within_step
    (he : e ≤ 1)
    (n : Nat) (m : Machine) :
    Within e n (m.uses e n) m.store.frames.size m.step := by
  obtain ⟨s, stack, control⟩ := m
  have hrefl : Within e n (Machine.uses e n ⟨s, stack, control⟩) s.frames.size ⟨s, stack, control⟩ :=
    within_of_uses rfl (Nat.le_refl _)
  have hended : ∀ id, (s.endProducer id).frames.size = s.frames.size :=
    fun id => size_frames_setProducer s id .ended
  cases control with
  | running frame label rest => exact within_advance he s stack frame label rest
  | halted reason => exact hrefl
  | aborted r => exact hrefl
  | raising r =>
      cases stack with
      | nil => exact hrefl
      | cons x stack =>
          cases x with
          | awaiting frame label rest d =>
              refine (within_fault he s stack frame r).mono ?_
              simp only [Machine.uses, load, weigh_cons, Context.uses]
              omega
          | recovering frame =>
              refine (within_leave s stack frame r).mono ?_
              simp only [Machine.uses, load, weigh_cons]
              omega
          | bare =>
              refine (within_raising s stack r).mono ?_
              simp only [Machine.uses, load, weigh_cons]
              omega
          | consuming id =>
              have huses := s.uses_endProducer id n
              refine within_of_uses (hended id) ?_
              simp only [Machine.uses, load, weigh_cons, Control.uses]
              omega
  | returning o =>
      cases stack with
      | nil => exact hrefl
      | cons x stack =>
          cases x with
          | awaiting frame label rest d =>
              refine (within_deliver he s stack frame label rest d o).mono ?_
              simp only [Machine.uses, load, weigh_cons, Context.uses, Control.uses]
              omega
          | recovering frame =>
              refine within_of_uses rfl ?_
              simp only [Machine.uses, load, weigh_cons]
              omega
          | bare =>
              refine within_of_uses rfl ?_
              simp only [Machine.uses, load, weigh_cons]
              omega
          | consuming id =>
              have huses := s.uses_endProducer id n
              refine within_of_uses (hended id) ?_
              have hnone : (Outcome.ofParts (o.value?.map s.deref) none).uses n = 0 := by
                cases o <;> rfl
              simp only [Machine.uses, load, weigh_cons, Control.uses, hnone]
              omega

end Machine

/-! ## Courses -/

namespace Course

/-- The number of ways to go on with a frame, those of the host included. -/
def uses (e n : Nat) (σ : Course) : Nat :=
  σ.machine.uses e n + weigh (Continuation.uses n) σ.held

/-- The number of frames. -/
def size (σ : Course) : Nat :=
  σ.machine.store.frames.size

variable {admits : Value → Prop}

/-- A machine that the host starts while nothing runs. -/
theorem uses_start
    {s : Store} {control : Control} {held : List Continuation} {pending : List (Item Initializer)}
    {e n bound : Nat} {m : Machine}
    (h : Machine.Within e n bound s.frames.size m)
    (hbound : bound ≤ s.uses n) :
    size ⟨⟨s, [], control⟩, held, pending⟩ ≤ size ⟨m, held, pending⟩ ∧
      uses e n ⟨m, held, pending⟩ ≤ uses e n ⟨⟨s, [], control⟩, held, pending⟩ +
        added n (size ⟨⟨s, [], control⟩, held, pending⟩) (size ⟨m, held, pending⟩) := by
  refine ⟨h.frames, ?_⟩
  have huses := h.uses
  simp only [uses, size, Machine.uses, weigh_nil] at huses ⊢
  omega

/-- A move makes no new way to go on, except with a frame that it adds. -/
theorem uses_move
    {σ τ : Course} {e : Nat}
    (he : e ≤ 1)
    (hmove : Move admits σ τ)
    (n : Nat) :
    σ.size ≤ τ.size ∧ τ.uses e n ≤ σ.uses e n + added n σ.size τ.size := by
  have hkeep : ∀ {s t : Store} {control : Control} {held : List Continuation}
      {pending pending' : List (Item Initializer)}, t.frames = s.frames → t.producers = s.producers →
      size ⟨⟨s, [], control⟩, held, pending⟩ ≤ size ⟨⟨t, [], control⟩, held, pending'⟩ ∧
        uses e n ⟨⟨t, [], control⟩, held, pending'⟩ ≤ uses e n ⟨⟨s, [], control⟩, held, pending⟩ +
          added n (size ⟨⟨s, [], control⟩, held, pending⟩) (size ⟨⟨t, [], control⟩, held, pending'⟩) := by
    intro s t control held pending pending' hframes hproducers
    simp only [size, uses, Machine.uses, Store.uses, hframes, hproducers]
    exact ⟨Nat.le_refl _, Nat.le_add_right _ _⟩
  cases hmove with
  | step m held pending =>
      obtain ⟨hsize, huses⟩ := Machine.within_step he n m
      refine ⟨hsize, ?_⟩
      simp only [uses, size]
      omega
  | link hidle ir =>
      rename_i s control held pending
      have hprepares := Program.prepares_link ⟨s, pending⟩ ir
      exact hkeep hprepares.frames hprepares.producers
  | call hidle hargs environment callee names =>
      exact uses_start (Machine.within_call _ [] environment callee _ names) (Nat.le_refl _)
  | main hidle callee args =>
      rename_i s control held pending
      have hcall := Machine.within_call (e := e) (n := n) (s.newList (args.map Value.text).toArray).2 []
        Program.rootEnvironment callee [(s.newList (args.map Value.text).toArray).1] []
      exact uses_start hcall (Nat.le_refl _)
  | keep s v k held pending =>
      refine ⟨Nat.le_refl _, ?_⟩
      simp only [uses, Machine.uses, weigh_cons, Control.uses, Outcome.uses]
      omega
  | resume hidle before k after =>
      rename_i s control pending
      obtain ⟨hsize, huses⟩ := Machine.within_resume (n := n) he s [] k
      refine ⟨hsize, ?_⟩
      simp only [uses, size, Machine.uses, Machine.load, weigh_append, weigh_cons, weigh_nil] at huses ⊢
      omega
  | prepare hidle hitem hinit =>
      exact uses_start (Machine.within_enter _ [] _ _ [] []) (Nat.le_refl _)
  | assign hitem hinit hvalue => exact hkeep rfl rfl
  | settle m held pending => exact ⟨Nat.le_refl _, Nat.le_add_right _ _⟩

/-- There is at most one way to go on with a frame, and none with a frame that is not there. -/
structure Sound (σ : Course) : Prop where
  single : ∀ n, σ.uses 1 n ≤ 1
  absent : ∀ n, σ.size ≤ n → σ.uses 1 n = 0

theorem Sound.move
    {σ τ : Course}
    (h : σ.Sound)
    (hmove : Move admits σ τ) :
    τ.Sound := by
  have huses := fun n => uses_move (e := 1) (Nat.le_refl _) hmove n
  refine ⟨?_, ?_⟩
  · -- a frame that is added had no way to go on before
    intro n
    obtain ⟨-, hle⟩ := huses n
    have hsingle := h.single n
    have habsent := h.absent n
    unfold added at hle
    split at hle <;> omega
  · intro n hn
    obtain ⟨hsize, hle⟩ := huses n
    have habsent := h.absent n (Nat.le_trans hsize hn)
    unfold added at hle
    split at hle <;> omega

theorem sound_new (maxTasks : Nat) : (Course.new maxTasks).Sound := by
  have hprepares := Session.prepares_new maxTasks
  have hzero : ∀ n, (Course.new maxTasks).uses 1 n = 0 := by
    intro n
    have hframes : (Program.new maxTasks).store.frames = #[] := hprepares.frames
    have hproducers : (Program.new maxTasks).store.producers = #[] := hprepares.producers
    simp [uses, Course.new, Machine.uses, Store.uses, hframes, hproducers, Control.uses, Outcome.uses]
  exact ⟨fun n => by rw [hzero]; exact Nat.zero_le _, fun n _ => hzero n⟩

/-- In a reachable course there is at most one way to go on with a frame. -/
theorem Reachable.sound
    {σ : Course}
    (h : Reachable admits σ) :
    σ.Sound :=
  h.invariant sound_new fun _ _ hσ hmove => hσ.move hmove

/-- A frame that cannot be gone on with stays so. -/
theorem uses_eq_zero
    {σ τ : Course} {n : Nat}
    (h : σ.uses 0 n = 0)
    (hn : n < σ.size)
    (hleads : Leads admits σ τ) :
    τ.uses 0 n = 0 ∧ n < τ.size := by
  refine hleads.keeps (I := fun τ => τ.uses 0 n = 0 ∧ n < τ.size) ?_ ⟨h, hn⟩
  rintro σ τ ⟨hzero, hn⟩ hmove
  obtain ⟨hsize, hle⟩ := uses_move (Nat.zero_le 1) hmove n
  rw [hzero, added, if_neg (by omega)] at hle
  omega

end Course

end Custody

end GoalDirected
