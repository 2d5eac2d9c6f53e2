import GoalDirected.Proofs.Machine.Replies
import GoalDirected.Proofs.Machine.Session

/-!
# What fits linked code

Linking looks at the lists `Instruction.labels` and `Instruction.slots` of every instruction, once.  A
label may be used much later than it is named: it is stored in a slot, kept by a context, a continuation
or a co-expression, or handed to the host.

* `Machine.Linked`: wherever a state keeps a label together with a frame, the code of the frame declares
  the label; whatever is still to be executed fits the code of its frame; and a frame has as many
  temporaries as its code asks for.
* `Store.Keeps`: frames keep their code and co-expressions their numbers, so what fits once fits for good.
* `isChecked_of_link`: linking establishes what is needed of code.
* `Store.Linked.setFrame`, `Store.Linked.createProducer`, `Store.Linked.execute` and their like: what the
  operations on a store do to it.
-/

namespace GoalDirected

section Linkage

/-! ## Checked code -/

/-- The instruction only names declared labels and slots that exist. -/
structure Ir.Instruction.Fits (code : Code) (i : Ir.Instruction) : Prop where
  labels : i.labels ⊆ code.labels
  slots : ∀ slot ∈ i.slots, slot < code.temps

structure Ir.Destination.Fits (code : Code) (d : Ir.Destination) : Prop where
  onFail : d.onFail.toList ⊆ code.labels
  slots : ∀ slot ∈ d.slots, slot < code.temps

/-- The entry is declared, and every instruction fits. -/
structure Code.IsChecked (code : Code) : Prop where
  entry : code.entry ∈ code.labels
  fits : ∀ c ∈ code.chunks, ∀ i ∈ c.body, i.Fits code

theorem Ir.Instruction.fits_of_defect?
    {code : Code} {chunk place : String} {i : Ir.Instruction}
    (h : i.defect? code.labels code.temps chunk place = none) :
    i.Fits code := by
  unfold Ir.Instruction.defect? at h
  split at h
  · cases h
  · rename_i hlabels
    refine ⟨?_, ?_⟩
    · intro label hlabel
      have := List.find?_eq_none.mp hlabels label hlabel
      simpa using this
    · intro slot hslot
      have := List.find?_eq_none.mp (Option.map_eq_none_iff.mp h) slot hslot
      simpa using this

/-- What linking has accepted is checked. -/
theorem isChecked_of_link
    {ir : Ir.Procedure} {code : Code}
    (h : ir.link = .ok code) :
    code.IsChecked := by
  unfold Ir.Procedure.link at h
  split at h
  · cases h
  · split at h
    · rename_i hentry
      split at h
      · cases h
      · rename_i hdefect
        cases h
        refine ⟨by simpa [Code.labels, Ir.Procedure.labels] using hentry, ?_⟩
        intro c hc i hi
        have hchunk := List.findSome?_eq_none_iff.mp hdefect c hc
        exact Ir.Instruction.fits_of_defect? (List.findSome?_eq_none_iff.mp hchunk i hi)
    · cases h

theorem Procedure.IsLinked.isChecked
    {p : Procedure}
    (h : p.IsLinked) :
    p.code.IsChecked := by
  obtain ⟨ir, hlink⟩ := h
  exact isChecked_of_link hlink

/-- A declared label has a chunk, and the chunk of checked code fits. -/
theorem Code.IsChecked.chunk?
    {code : Code} {label : Ir.Label}
    (hcode : code.IsChecked)
    (hlabel : label ∈ code.labels) :
    ∃ body, code.chunk? label = some body ∧ ∀ i ∈ body, i.Fits code := by
  obtain ⟨c, hc, rfl⟩ := List.mem_map.mp hlabel
  cases hfind : code.chunks.find? fun other => other.label == c.label with
  | none =>
      have := List.find?_eq_none.mp hfind c hc
      simp at this
  | some found =>
      refine ⟨found.body, by simp [Code.chunk?, hfind], ?_⟩
      exact hcode.fits found (List.mem_of_find?_eq_some hfind)

/-! ## What a store declares -/

namespace Store

/-- The code that a frame runs. -/
def code? (s : Store) (frame : Nat) : Option Code :=
  (s.frames[frame]?).map (·.procedure.code)

/-- The frame exists, and its code declares the label. -/
def Declares (s : Store) (frame : Nat) (label : Ir.Label) : Prop :=
  ∃ code, s.code? frame = some code ∧ label ∈ code.labels

/-- Frames of the first store have the same code in the second, and its co-expressions exist there. -/
structure Keeps (s t : Store) : Prop where
  code : ∀ frame code, s.code? frame = some code → t.code? frame = some code
  producers : s.producers.size ≤ t.producers.size

theorem Keeps.refl (s : Store) : s.Keeps s :=
  ⟨fun _ _ h => h, Nat.le_refl _⟩

theorem Keeps.trans
    {s t u : Store}
    (h : s.Keeps t)
    (h' : t.Keeps u) :
    s.Keeps u :=
  ⟨fun frame code hcode => h'.code frame code (h.code frame code hcode),
    Nat.le_trans h.producers h'.producers⟩

theorem Keeps.of_eq
    {s t : Store}
    (hframes : t.frames = s.frames)
    (hproducers : t.producers.size = s.producers.size) :
    s.Keeps t := by
  refine ⟨?_, Nat.le_of_eq hproducers.symm⟩
  intro frame code hcode
  rw [code?, hframes]
  exact hcode

theorem keeps_newFrame (s : Store) (f : Frame) : s.Keeps (s.newFrame f).2 := by
  refine ⟨?_, Nat.le_refl _⟩
  intro frame code hcode
  simp only [code?, Option.map_eq_some_iff] at hcode ⊢
  obtain ⟨g, hg, rfl⟩ := hcode
  obtain ⟨hlt, -⟩ := Array.getElem?_eq_some_iff.mp hg
  refine ⟨g, ?_, rfl⟩
  simpa [newFrame, Array.getElem?_push, Nat.ne_of_lt hlt] using hg

/-- A frame that takes the place of another one has to run the same procedure. -/
theorem keeps_setFrame
    {s : Store} {frame : Nat} {f g : Frame}
    (hf : s.frames[frame]? = some f)
    (hg : g.procedure = f.procedure) :
    s.Keeps (s.setFrame frame g) := by
  refine ⟨?_, Nat.le_refl _⟩
  intro other code hcode
  simp only [code?, setFrame, Array.getElem?_setIfInBounds]
  split
  · rename_i heq
    subst heq
    obtain ⟨hlt, -⟩ := Array.getElem?_eq_some_iff.mp hf
    simp only [code?, hf, Option.map_some] at hcode
    simp [hlt, hg, hcode]
  · exact hcode

end Store

/-! ## What fits a store -/

def Continuation.Fits (s : Store) : Continuation → Prop
  | .activation frame label => s.Declares frame label
  | _ => True

def Temp.Fits (s : Store) (code : Code) : Temp → Prop
  | .label l => l ∈ code.labels
  | .next k => k.Fits s
  | _ => True

/-- A frame of checked code, with the temporaries that the code asks for. -/
structure Frame.Fits (s : Store) (f : Frame) : Prop where
  checked : f.procedure.code.IsChecked
  size : f.temps.size = f.procedure.code.temps
  temps : ∀ (slot : Nat) (t : Temp), f.temps[slot]? = some t → t.Fits s f.procedure.code

def Producer.Fits (s : Store) : Producer → Prop
  | .fresh frame label => s.Declares frame label
  | .waiting frame label => s.Declares frame label
  | _ => True

structure Store.Linked (s : Store) : Prop where
  callables : ∀ c ∈ s.callables, c.IsLinked
  frames : ∀ (n : Nat) (f : Frame), s.frames[n]? = some f → f.Fits s
  producers : ∀ p ∈ s.producers, p.Fits s

/-- The rest of a chunk fits the code of a frame. -/
def Store.Runs (s : Store) (frame : Nat) (rest : List Ir.Instruction) : Prop :=
  ∃ code, s.code? frame = some code ∧ ∀ i ∈ rest, i.Fits code

def Context.Fits (s : Store) : Context → Prop
  | .awaiting frame _ rest d =>
      ∃ code, s.code? frame = some code ∧ (∀ i ∈ rest, i.Fits code) ∧ d.Fits code
  | .recovering frame => ∃ code, s.code? frame = some code
  | .consuming id => id ≤ s.producers.size
  | .bare => True

def Outcome.Fits (s : Store) (o : Outcome) : Prop :=
  ∀ k, o.next? = some k → k.Fits s

def Control.Fits (s : Store) : Control → Prop
  | .running frame _ rest => s.Runs frame rest
  | .returning o => o.Fits s
  | .raising r => ¬ r.fault.IsLinkage
  | .halted _ => True
  | .aborted r => ¬ r.fault.IsLinkage

structure Machine.Linked (m : Machine) : Prop where
  store : m.store.Linked
  stack : ∀ c ∈ m.stack, c.Fits m.store
  control : m.control.Fits m.store

section Mono

variable {s t : Store}

theorem Store.Declares.mono
    {frame : Nat} {label : Ir.Label}
    (hkeeps : s.Keeps t)
    (h : s.Declares frame label) :
    t.Declares frame label := by
  obtain ⟨code, hcode, hlabel⟩ := h
  exact ⟨code, hkeeps.code frame code hcode, hlabel⟩

theorem Continuation.Fits.mono
    {k : Continuation}
    (hkeeps : s.Keeps t)
    (h : k.Fits s) :
    k.Fits t := by
  cases k with
  | activation frame label => exact Store.Declares.mono hkeeps h
  | elements list position => trivial
  | values rest => trivial
  | count low high => trivial

theorem Temp.Fits.mono
    {code : Code} {x : Temp}
    (hkeeps : s.Keeps t)
    (h : x.Fits s code) :
    x.Fits t code := by
  cases x with
  | next k => exact Continuation.Fits.mono hkeeps h
  | label l => exact h
  | value v => trivial
  | empty => trivial

theorem Frame.Fits.mono
    {f : Frame}
    (hkeeps : s.Keeps t)
    (h : f.Fits s) :
    f.Fits t :=
  ⟨h.checked, h.size, fun slot x hx => (h.temps slot x hx).mono hkeeps⟩

theorem Producer.Fits.mono
    {p : Producer}
    (hkeeps : s.Keeps t)
    (h : p.Fits s) :
    p.Fits t := by
  cases p with
  | fresh frame label => exact Store.Declares.mono hkeeps h
  | waiting frame label => exact Store.Declares.mono hkeeps h
  | running => trivial
  | ended => trivial

theorem Context.Fits.mono
    {c : Context}
    (hkeeps : s.Keeps t)
    (h : c.Fits s) :
    c.Fits t := by
  cases c with
  | awaiting frame label rest d =>
      obtain ⟨code, hcode, hfits⟩ := h
      exact ⟨code, hkeeps.code frame code hcode, hfits⟩
  | recovering frame =>
      obtain ⟨code, hcode⟩ := h
      exact ⟨code, hkeeps.code frame code hcode⟩
  | consuming id => exact Nat.le_trans h hkeeps.producers
  | bare => trivial

theorem Outcome.Fits.mono
    {o : Outcome}
    (hkeeps : s.Keeps t)
    (h : o.Fits s) :
    o.Fits t :=
  fun k hk => (h k hk).mono hkeeps

theorem Outcome.fits_of_isDetached
    {o : Outcome}
    (h : o.IsDetached) :
    o.Fits s := by
  intro k hk
  cases k with
  | activation frame label => exact absurd hk (h frame label)
  | elements list position => trivial
  | values rest => trivial
  | count low high => trivial

theorem Control.Fits.mono
    {control : Control}
    (hkeeps : s.Keeps t)
    (h : control.Fits s) :
    control.Fits t := by
  cases control with
  | running frame label rest =>
      obtain ⟨code, hcode, hrest⟩ := h
      exact ⟨code, hkeeps.code frame code hcode, hrest⟩
  | returning o => exact Outcome.Fits.mono hkeeps h
  | raising r => exact h
  | halted reason => trivial
  | aborted r => exact h

end Mono

/-! ## Frames and co-expressions -/

theorem Frame.fits_new
    {s : Store} {p : Procedure}
    (hp : p.IsLinked)
    (environment : Environment) (args : List Value) (vars : Bindings) :
    (Frame.new environment p args vars).Fits s where
  checked := hp.isChecked
  size := by simp [Frame.new]
  temps := by
    intro slot t h
    simp only [Frame.new, Array.getElem?_replicate] at h
    split at h
    · cases h
      trivial
    · cases h

/-- What instructions with declared labels do to a frame leaves it fitting. -/
theorem Frame.Fits.of_follows
    {s : Store} {f g : Frame} {labels : List Ir.Label}
    (hf : f.Fits s)
    (hlabels : labels ⊆ f.procedure.code.labels)
    (h : f.Follows labels g) :
    g.Fits s := by
  refine ⟨by rw [h.procedure]; exact hf.checked, ?_, ?_⟩
  · rw [h.size, h.procedure]
    exact hf.size
  · intro slot t ht
    rw [h.procedure]
    rcases h.temps slot t ht with hold | hputs
    · exact hf.temps slot t hold
    · cases t with
      | label l => exact hlabels hputs
      | next k => exact absurd hputs id
      | value v => trivial
      | empty => trivial

theorem Frame.Fits.of_temps_eq
    {s : Store} {f g : Frame}
    (hf : f.Fits s)
    (hprocedure : g.procedure = f.procedure)
    (htemps : g.temps = f.temps) :
    g.Fits s :=
  hf.of_follows (List.nil_subset _) (Frame.Follows.of_temps_eq hprocedure htemps)

namespace Store

variable {s t : Store}

theorem Linked.of_activity
    (hs : s.Linked)
    (h : t.activity = s.activity) :
    t.Linked ∧ s.Keeps t := by
  have hkeeps := Keeps.of_eq (frames_eq_of_activity h)
    (congrArg Array.size (producers_eq_of_activity h))
  refine ⟨⟨?_, ?_, ?_⟩, hkeeps⟩
  · rw [callables_eq_of_activity h]
    exact hs.callables
  · rw [frames_eq_of_activity h]
    exact fun n f hf => (hs.frames n f hf).mono hkeeps
  · rw [producers_eq_of_activity h]
    exact fun p hp => (hs.producers p hp).mono hkeeps

/-- A host can only add callables that are linked. -/
theorem Linked.prepare
    (hs : s.Linked)
    (h : s.Prepares t) :
    t.Linked ∧ s.Keeps t := by
  have hkeeps := Keeps.of_eq h.frames (congrArg Array.size h.producers)
  obtain ⟨added, hadded, hlinked⟩ := h.callables
  refine ⟨⟨?_, ?_, ?_⟩, hkeeps⟩
  · intro c hc
    rw [hadded] at hc
    rcases Array.mem_append.mp hc with hc | hc
    · exact hs.callables c hc
    · exact hlinked c hc
  · rw [h.frames]
    exact fun n f hf => (hs.frames n f hf).mono hkeeps
  · rw [h.producers]
    exact fun p hp => (hs.producers p hp).mono hkeeps

theorem Linked.setFrame
    {frame : Nat} {f g : Frame}
    (hs : s.Linked)
    (hf : s.frames[frame]? = some f)
    (hprocedure : g.procedure = f.procedure)
    (hg : g.Fits s) :
    (s.setFrame frame g).Linked ∧ s.Keeps (s.setFrame frame g) := by
  have hkeeps := keeps_setFrame hf hprocedure
  refine ⟨⟨hs.callables, ?_, fun p hp => (hs.producers p hp).mono hkeeps⟩, hkeeps⟩
  intro n h hn
  simp only [Store.setFrame, Array.getElem?_setIfInBounds] at hn
  split at hn
  · split at hn
    · cases hn
      exact hg.mono hkeeps
    · cases hn
  · exact (hs.frames n h hn).mono hkeeps

theorem Linked.newFrame
    {f : Frame}
    (hs : s.Linked)
    (hf : f.Fits s) :
    (s.newFrame f).2.Linked ∧ s.Keeps (s.newFrame f).2 := by
  have hkeeps := keeps_newFrame s f
  refine ⟨⟨hs.callables, ?_, fun p hp => (hs.producers p hp).mono hkeeps⟩, hkeeps⟩
  intro n g hn
  simp only [Store.newFrame, Array.getElem?_push] at hn
  split at hn
  · cases hn
    exact hf.mono hkeeps
  · exact (hs.frames n g hn).mono hkeeps

theorem Linked.setProducer
    {p : Producer}
    (hs : s.Linked)
    (id : Nat)
    (hp : p.Fits s) :
    (s.setProducer id p).Linked ∧ s.Keeps (s.setProducer id p) := by
  cases id with
  | zero => exact ⟨hs, Keeps.refl s⟩
  | succ n =>
      have hkeeps : s.Keeps (s.setProducer (n + 1) p) :=
        Keeps.of_eq rfl (size_producers_setProducer s (n + 1) p)
      refine ⟨⟨hs.callables, fun n f hf => (hs.frames n f hf).mono hkeeps, ?_⟩, hkeeps⟩
      intro q hq
      rcases Array.mem_or_eq_of_mem_setIfInBounds hq with hq | rfl
      · exact (hs.producers q hq).mono hkeeps
      · exact hp.mono hkeeps

theorem Linked.endProducer
    (hs : s.Linked)
    (id : Nat) :
    (s.endProducer id).Linked ∧ s.Keeps (s.endProducer id) := by
  obtain ⟨hlinked, hkeeps⟩ := hs.setProducer id (p := .ended) trivial
  have hactive : (s.setProducer id .ended).Keeps (s.endProducer id) := Keeps.of_eq rfl rfl
  refine ⟨⟨hlinked.callables, ?_, ?_⟩, hkeeps.trans hactive⟩
  · exact fun n f hf => (hlinked.frames n f hf).mono hactive
  · exact fun p hp => (hlinked.producers p hp).mono hactive

theorem Linked.producer
    (hs : s.Linked)
    (id : Nat) :
    (s.producer id).Fits s := by
  cases id with
  | zero => trivial
  | succ n =>
      simp only [Store.producer, Array.getD_eq_getD_getElem?]
      cases hn : s.producers[n]? with
      | none => trivial
      | some p => exact hs.producers p (Array.mem_of_getElem? hn)

/-- A co-expression starts with a frame of the code that created it. -/
theorem Linked.createProducer
    {f : Frame} {entry : Ir.Label} {v : Value}
    (hs : s.Linked)
    (hf : f.Fits s)
    (hentry : entry ∈ f.procedure.code.labels)
    (h : s.createProducer f entry = .ok (v, t)) :
    t.Linked ∧ s.Keeps t := by
  obtain ⟨copy, hcopy, -, hframes, hproducers, hcallables, -⟩ := createProducer_eq_ok h
  have hfits : copy.Fits s := hf.of_follows (by simp) hcopy
  obtain ⟨hlinked, hkeeps⟩ := hs.newFrame hfits
  have hkeeps' : s.Keeps t := by
    refine ⟨?_, by simp [hproducers]⟩
    intro frame code hcode
    have := hkeeps.code frame code hcode
    rwa [code?, show (s.newFrame copy).2.frames = t.frames from hframes.symm] at this
  refine ⟨⟨?_, ?_, ?_⟩, hkeeps'⟩
  · rw [hcallables]
    exact hs.callables
  · intro n g hn
    rw [hframes, Array.getElem?_push] at hn
    split at hn
    · cases hn
      exact hfits.mono hkeeps'
    · exact (hs.frames n g hn).mono hkeeps'
  · intro p hp
    rw [hproducers] at hp
    rcases Array.mem_push.mp hp with hp | rfl
    · exact (hs.producers p hp).mono hkeeps'
    · refine ⟨copy.procedure.code, ?_, ?_⟩
      · simp [code?, hframes]
      · rw [hcopy.procedure]
        exact hentry

/-- One instruction that fits leaves the store linked and its frame fitting. -/
theorem Linked.execute
    {f : Frame} {i : Ir.Instruction}
    (hs : s.Linked)
    (hf : f.Fits s)
    (hi : i.Fits f.procedure.code) :
    (s.execute f i).2.2.Linked ∧ s.Keeps (s.execute f i).2.2 ∧
      (s.execute f i).2.1.Fits (s.execute f i).2.2 := by
  have h := s.executes_execute f i
  have hstore : (s.execute f i).2.2.Linked ∧ s.Keeps (s.execute f i).2.2 := by
    rcases h.activity with hactivity | ⟨entry, v, hentry, hcreate⟩
    · exact hs.of_activity hactivity
    · exact hs.createProducer hf (hi.labels hentry) hcreate
  exact ⟨hstore.1, hstore.2, (hf.of_follows hi.labels h.follows).mono hstore.2⟩

end Store

end Linkage

end GoalDirected
