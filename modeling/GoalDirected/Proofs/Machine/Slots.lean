import GoalDirected.Proofs.Machine.Execution

/-!
# Slots in use

A slot beyond the temporaries of a frame does not always show: reading a value from it is the same
malfunction as reading one from an empty slot.  To speak about every slot that a step uses, this module
gives the step a second form that notes each use.

* `Access`: one use of a slot, with the number of temporaries of the frame at that moment.
* `stepNoted`: a step that notes every slot handed to `value`, `set`, `setNext`, `takeNext`, `setLabel`
  or `label`; without the notes it is `step` (`result_stepNoted`).
* `within_executeNoted`, `within_storeOutcomeNoted`: an instruction and a delivery only use slots that
  `Instruction.slots` and `Destination.slots` list, of the frame they are about.
-/

namespace GoalDirected

section Slots

/-- One use of a slot, and the number of temporaries of the frame that it is a slot of. -/
structure Access where
  slot : Ir.Slot
  size : Nat

/-- A result with the uses of slots that have led to it. -/
structure Noted (α : Type) where
  accesses : List Access
  result : α

namespace Noted

instance : Monad Noted where
  pure a := ⟨[], a⟩
  bind x g := ⟨x.accesses ++ (g x.result).accesses, (g x.result).result⟩

variable {α β : Type}

@[simp] theorem result_pure (a : α) : (pure a : Noted α).result = a := rfl

@[simp] theorem result_bind (x : Noted α) (g : α → Noted β) :
    (x >>= g).result = (g x.result).result := rfl

/-- Only listed slots are used, of frames with a given number of temporaries. -/
def Within (slots : List Ir.Slot) (size : Nat) (x : Noted α) : Prop :=
  ∀ a ∈ x.accesses, a.slot ∈ slots ∧ a.size = size

variable {slots more : List Ir.Slot} {size : Nat}

theorem within_pure (slots : List Ir.Slot) (size : Nat) (a : α) :
    (pure a : Noted α).Within slots size := by
  intro access h
  cases h

theorem within_bind
    {x : Noted α} {g : α → Noted β}
    (hx : x.Within slots size)
    (hg : (g x.result).Within slots size) :
    (x >>= g).Within slots size := by
  intro access h
  rcases List.mem_append.mp h with h | h
  · exact hx access h
  · exact hg access h

theorem Within.mono
    {x : Noted α}
    (hx : x.Within slots size)
    (h : slots ⊆ more) :
    x.Within more size :=
  fun access ha => ⟨h (hx access ha).1, (hx access ha).2⟩

end Noted

namespace Frame

/-- Notes that what follows uses a slot of the frame. -/
def noted {α : Type} (f : Frame) (slot : Ir.Slot) (result : α) : Noted α :=
  ⟨[⟨slot, f.temps.size⟩], result⟩

@[simp] theorem result_noted {α : Type} (f : Frame) (slot : Ir.Slot) (result : α) :
    (f.noted slot result).result = result := rfl

theorem within_noted
    {α : Type} {slots : List Ir.Slot} {slot : Ir.Slot} (f : Frame) (result : α)
    (h : slot ∈ slots) :
    (f.noted slot result).Within slots f.temps.size := by
  intro access ha
  cases List.mem_singleton.mp ha
  exact ⟨h, rfl⟩

def valuesNoted (f : Frame) : List Nat → Noted (Except Malfunction (List Value))
  | [] => return .ok []
  | slot :: rest => do
      match ← f.noted slot (f.value slot) with
      | .error m => return .error m
      | .ok v =>
          match ← f.valuesNoted rest with
          | .error m => return .error m
          | .ok vs => return .ok (v :: vs)

@[simp] theorem result_valuesNoted (f : Frame) (slots : List Nat) :
    (f.valuesNoted slots).result = f.values slots := by
  induction slots with
  | nil => rfl
  | cons slot rest ih =>
      simp only [valuesNoted, values, result_noted, bind, Except.bind]
      cases f.value slot with
      | error m => rfl
      | ok v =>
          simp only [ih]
          cases f.values rest <;> rfl

theorem within_valuesNoted (f : Frame) (slots : List Nat) :
    (f.valuesNoted slots).Within slots f.temps.size := by
  induction slots with
  | nil => exact Noted.within_pure _ _ _
  | cons slot rest ih =>
      refine Noted.within_bind (f.within_noted _ List.mem_cons_self) ?_
      simp only [result_noted]
      cases f.value slot with
      | error m => exact Noted.within_pure _ _ _
      | ok v =>
          refine Noted.within_bind (ih.mono (List.subset_cons_self slot rest)) ?_
          cases (f.valuesNoted rest).result <;> exact Noted.within_pure _ _ _

end Frame

namespace Store

/-! ## Instructions -/

def channelOperandNoted (s : Store) (f : Frame) (slot : Nat) : Noted (Except Fault Nat) := do
  match ← f.noted slot (f.value slot) with
  | .error m => return .error (.malfunction m)
  | .ok v =>
      match s.deref v with
      | .channel id => return .ok id
      | other => return .error (.exception .channelExpected [other])

def waitCaseNoted (s : Store) (f : Frame) : Ir.Case → Noted (Except Fault WaitCase)
  | .send channel value _ => do
      match ← s.channelOperandNoted f channel with
      | .error e => return .error e
      | .ok id =>
          match ← f.noted value (f.value value) with
          | .error m => return .error (.malfunction m)
          | .ok v => return .ok (.send id (s.deref v))
  | .receive channel _ _ => do
      match ← s.channelOperandNoted f channel with
      | .error e => return .error e
      | .ok id => return .ok (.receive id)
  | .default _ => return .ok .default

def waitCasesNoted (s : Store) (f : Frame) : List Ir.Case → Noted (Except Fault (List WaitCase))
  | [] => return .ok []
  | c :: rest => do
      match ← s.waitCaseNoted f c with
      | .error e => return .error e
      | .ok w =>
          match ← s.waitCasesNoted f rest with
          | .error e => return .error e
          | .ok ws => return .ok (w :: ws)

def storeReceivedNoted (s : Store) (f : Frame) (slot : Nat) (v : Value) (body : Ir.Label) :
    Noted Executed := do
  match ← f.noted slot (f.value slot) with
  | .ok (.ref cell) => return (.goto body, f, s.write cell v)
  | _ =>
      match ← f.noted slot (f.set slot v) with
      | .ok f => return (.goto body, f, s)
      | .error m => return (.fault (.malfunction m), f, s)

def executeSelectNoted (s : Store) (f : Frame) (cases : List Ir.Case) (onFail : Option Ir.Label) :
    Noted Executed := do
  match ← s.waitCasesNoted f cases with
  | .error e => return (.fault e, f, s)
  | .ok waits =>
      match s.choose waits with
      | (.fail, s) => return (.failed onFail, f, s)
      | (.blocked, s) => return (.halt .blocked, f, s)
      | (.chosen i received, s) =>
          match cases[i]?, received with
          | some (.receive _ slot body), some v => s.storeReceivedNoted f slot v body
          | some c, _ => return (.goto c.body, f, s)
          | none, _ => return (.failed onFail, f, s)

def executeFieldNoted (s : Store) (f : Frame) (target record : Nat) (field : String)
    (assignable : Bool) (onFail : Option Ir.Label) : Noted Executed := do
  match ← f.noted record (f.value record) with
  | .error m => return (.fault (.malfunction m), f, s)
  | .ok v =>
      match s.deref v with
      | .record id =>
          match (s.record id).fields.get? field with
          | some cell =>
              let value := if assignable then .ref cell else s.read cell
              return s.changed f (← f.noted target (f.set target value))
          | none => return (.failed onFail, f, s)
      | other => return (.fault (.exception .recordExpected [other]), f, s)

/-- Copies what a slot holds, after a change, into a slot. -/
def copyNoted (s : Store) (f : Frame) (target source : Nat) (change : Value → Value) :
    Noted Executed := do
  match ← f.noted source (f.value source) with
  | .error m => return s.changed f (.error m)
  | .ok v => return s.changed f (← f.noted target (f.set target (change v)))

/-- Uses the value in a slot, and only that. -/
def useNoted (s : Store) (f : Frame) (slot : Nat) (use : Value → Effect × Frame) :
    Noted Executed := do
  match ← f.noted slot (f.value slot) with
  | .error m => return (.fault (.malfunction m), f, s)
  | .ok v => return ((use v).1, (use v).2, s)

/-- Executes one instruction and notes the slots that it uses. -/
def executeNoted (s : Store) (f : Frame) : Ir.Instruction → Noted Executed
  | .literal target value => do
      return s.changed f (← f.noted target (f.set target value.value))
  | .name target name =>
      match s.lookupName f name with
      | .error m => return s.changed f (.error m)
      | .ok v => do return s.changed f (← f.noted target (f.set target v))
  | .dynamic target name assignable =>
      match s.resolve f.environment name assignable with
      | .ok (v, s) => do return s.changed f (← f.noted target (f.set target v))
      | .error m => return (.fault (.malfunction m), f, s)
  | .field target record field assignable onFail =>
      s.executeFieldNoted f target record field assignable onFail
  | .call d callee args names => do
      match ← f.noted callee (f.value callee) with
      | .error m => return (.fault (.malfunction m), f, s)
      | .ok callee =>
          match ← f.valuesNoted args with
          | .error m => return (.fault (.malfunction m), f, s)
          | .ok args => return (.call d callee (args.map s.deref) names, f, s)
  | .operator d op args => do
      match ← f.valuesNoted args with
      | .ok args => return (.operator d op args, f, s)
      | .error m => return (.fault (.malfunction m), f, s)
  | .resume d source => do
      match ← f.noted source (f.takeNext source) with
      | .ok (k, f) => return (.resume d k, f, s)
      | .error m => return (.fault (.malfunction m), f, s)
  | .move target source => s.copyNoted f target source id
  | .deref target source => s.copyNoted f target source s.deref
  | .moveLabel target label => do
      return s.changed f (← f.noted target (f.setLabel target label))
  | .indirect source targets => do
      match ← f.noted source (f.label source) with
      | .error m => return (.fault (.malfunction m), f, s)
      | .ok label =>
          if targets.contains label then return (.goto label, f, s)
          else return (.fault (.malfunction (.jumpOutside label f.place)), f, s)
  | .succeed (some slot) again => s.useNoted f slot fun v => (.succeed (s.deref v) again, f)
  | .create target entry =>
      match s.createProducer f entry with
      | .ok (v, s) => do return s.changed f (← f.noted target (f.set target v))
      | .error e => return (.fault e, f, s)
  | .produce value again => s.useNoted f value fun v => (.produce (s.deref v) again, f)
  | .select cases onFail => s.executeSelectNoted f cases onFail
  | .recover handler =>
      s.useNoted f handler fun v => (.next, { f with recovery := some (s.deref v) })
  -- The instructions that are left have no slot.
  | i => return s.execute f i

/-! ## Without the notes -/

@[simp] theorem result_channelOperandNoted (s : Store) (f : Frame) (slot : Nat) :
    (s.channelOperandNoted f slot).result = s.channelOperand f slot := by
  simp only [channelOperandNoted, channelOperand, Noted.result_bind, Frame.result_noted]
  cases f.value slot with
  | error m => rfl
  | ok v =>
      dsimp only
      generalize s.deref v = w
      cases w <;> rfl

@[simp] theorem result_waitCaseNoted (s : Store) (f : Frame) (c : Ir.Case) :
    (s.waitCaseNoted f c).result = s.waitCase f c := by
  cases c with
  | send channel value body =>
      simp only [waitCaseNoted, waitCase, Noted.result_bind, result_channelOperandNoted]
      cases s.channelOperand f channel with
      | error e => rfl
      | ok id => cases f.value value <;> rfl
  | receive channel target body =>
      simp only [waitCaseNoted, waitCase, Noted.result_bind, result_channelOperandNoted]
      cases s.channelOperand f channel <;> rfl
  | default body => rfl

@[simp] theorem result_waitCasesNoted (s : Store) (f : Frame) (cases' : List Ir.Case) :
    (s.waitCasesNoted f cases').result = s.waitCases f cases' := by
  induction cases' with
  | nil => rfl
  | cons c rest ih =>
      simp only [waitCasesNoted, waitCases, Noted.result_bind, result_waitCaseNoted]
      cases s.waitCase f c with
      | error e => rfl
      | ok w =>
          simp only [Noted.result_bind, ih]
          cases s.waitCases f rest <;> rfl

@[simp] theorem result_storeReceivedNoted
    (s : Store) (f : Frame) (slot : Nat) (v : Value) (body : Ir.Label) :
    (s.storeReceivedNoted f slot v body).result = s.storeReceived f slot v body := by
  have hset : ∀ e : Except Malfunction Frame,
      (match e with
        | .ok f => (pure (.goto body, f, s) : Noted Executed)
        | .error m => pure (.fault (.malfunction m), f, s)).result =
      match e with
        | .ok f => (.goto body, f, s)
        | .error m => (.fault (.malfunction m), f, s) := by
    intro e
    cases e <;> rfl
  simp only [storeReceivedNoted, storeReceived, Noted.result_bind, Frame.result_noted]
  cases f.value slot with
  | error m => exact hset (f.set slot v)
  | ok w => cases w <;> first | rfl | exact hset (f.set slot v)

@[simp] theorem result_executeSelectNoted
    (s : Store) (f : Frame) (cases' : List Ir.Case) (onFail : Option Ir.Label) :
    (s.executeSelectNoted f cases' onFail).result = s.executeSelect f cases' onFail := by
  simp only [executeSelectNoted, executeSelect, Noted.result_bind, result_waitCasesNoted]
  cases s.waitCases f cases' with
  | error e => rfl
  | ok waits =>
      dsimp only
      generalize s.choose waits = choice
      obtain ⟨choice, t⟩ := choice
      cases choice with
      | fail => rfl
      | blocked => rfl
      | chosen i received =>
          dsimp only
          generalize cases'[i]? = c
          cases c with
          | none => rfl
          | some c => cases c <;> cases received <;> first | rfl | exact result_storeReceivedNoted ..

@[simp] theorem result_executeFieldNoted
    (s : Store) (f : Frame) (target record : Nat) (field : String) (assignable : Bool)
    (onFail : Option Ir.Label) :
    (s.executeFieldNoted f target record field assignable onFail).result =
      s.executeField f target record field assignable onFail := by
  simp only [executeFieldNoted, executeField, Noted.result_bind, Frame.result_noted]
  cases f.value record with
  | error m => rfl
  | ok v =>
      dsimp only
      generalize s.deref v = w
      cases w <;> try rfl
      dsimp only
      generalize (s.record _).fields.get? field = cell
      cases cell <;> rfl

theorem result_copyNoted (s : Store) (f : Frame) (target source : Nat) (change : Value → Value) :
    (s.copyNoted f target source change).result =
      s.changed f ((f.value source).bind fun v => f.set target (change v)) := by
  simp only [copyNoted, Noted.result_bind, Frame.result_noted]
  cases f.value source <;> rfl

theorem result_useNoted (s : Store) (f : Frame) (slot : Nat) (use : Value → Effect × Frame) :
    (s.useNoted f slot use).result =
      match f.value slot with
      | .ok v => ((use v).1, (use v).2, s)
      | .error m => (.fault (.malfunction m), f, s) := by
  simp only [useNoted, Noted.result_bind, Frame.result_noted]
  cases f.value slot <;> rfl

/-- Noting slots does not change what an instruction does. -/
@[simp] theorem result_executeNoted (s : Store) (f : Frame) (i : Ir.Instruction) :
    (s.executeNoted f i).result = s.execute f i := by
  cases i with
  | name target name =>
      simp only [executeNoted, execute]
      cases s.lookupName f name <;> rfl
  | dynamic target name assignable =>
      simp only [executeNoted, execute]
      cases s.resolve f.environment name assignable <;> rfl
  | field target record field assignable onFail => exact result_executeFieldNoted ..
  | call d callee args names =>
      simp only [executeNoted, execute, Noted.result_bind, Frame.result_noted]
      cases f.value callee with
      | error m => rfl
      | ok v =>
          simp only [Noted.result_bind, Frame.result_valuesNoted]
          cases f.values args <;> rfl
  | operator d op args =>
      simp only [executeNoted, execute, Noted.result_bind, Frame.result_valuesNoted]
      cases f.values args <;> rfl
  | resume d source =>
      simp only [executeNoted, execute, Noted.result_bind, Frame.result_noted]
      cases f.takeNext source <;> rfl
  | move target source => exact result_copyNoted s f target source id
  | deref target source => exact result_copyNoted s f target source s.deref
  | indirect source targets =>
      simp only [executeNoted, execute, Noted.result_bind, Frame.result_noted]
      cases f.label source with
      | error m => rfl
      | ok label =>
          dsimp only
          split <;> rfl
  | succeed value again =>
      cases value with
      | none => rfl
      | some slot => exact result_useNoted s f slot _
  | create target entry =>
      simp only [executeNoted, execute]
      cases s.createProducer f entry <;> rfl
  | produce value again => exact result_useNoted s f value _
  | select cases' onFail => exact result_executeSelectNoted ..
  | recover handler => exact result_useNoted s f handler _
  | literal target value => rfl
  | moveLabel target label => rfl
  | goto target => rfl
  | fail => rfl
  | enter scope names dynamics => rfl
  | leave scope => rfl
  | exhaust => rfl
  | coordinate coord => rfl

/-! ## The slots of an instruction -/

theorem within_channelOperandNoted (s : Store) (f : Frame) (slot : Nat) :
    (s.channelOperandNoted f slot).Within [slot] f.temps.size := by
  refine Noted.within_bind (f.within_noted _ List.mem_cons_self) ?_
  simp only [Frame.result_noted]
  split
  · exact Noted.within_pure _ _ _
  · split <;> exact Noted.within_pure _ _ _

theorem within_waitCaseNoted (s : Store) (f : Frame) (c : Ir.Case) :
    (s.waitCaseNoted f c).Within c.slots f.temps.size := by
  cases c with
  | send channel value body =>
      refine Noted.within_bind ((s.within_channelOperandNoted f channel).mono
        (by simp [Ir.Case.slots])) ?_
      split
      · exact Noted.within_pure _ _ _
      · refine Noted.within_bind (f.within_noted _ (by simp [Ir.Case.slots])) ?_
        split <;> exact Noted.within_pure _ _ _
  | receive channel target body =>
      refine Noted.within_bind ((s.within_channelOperandNoted f channel).mono
        (by simp [Ir.Case.slots])) ?_
      split <;> exact Noted.within_pure _ _ _
  | default body => exact Noted.within_pure _ _ _

theorem within_waitCasesNoted (s : Store) (f : Frame) (cases' : List Ir.Case) :
    (s.waitCasesNoted f cases').Within (cases'.flatMap Ir.Case.slots) f.temps.size := by
  induction cases' with
  | nil => exact Noted.within_pure _ _ _
  | cons c rest ih =>
      refine Noted.within_bind ((s.within_waitCaseNoted f c).mono (by simp)) ?_
      split
      · exact Noted.within_pure _ _ _
      · refine Noted.within_bind (ih.mono (by simp)) ?_
        split <;> exact Noted.within_pure _ _ _

theorem within_storeReceivedNoted
    {slots : List Ir.Slot} (s : Store) (f : Frame) {slot : Nat} (v : Value) (body : Ir.Label)
    (h : slot ∈ slots) :
    (s.storeReceivedNoted f slot v body).Within slots f.temps.size := by
  refine Noted.within_bind (f.within_noted _ h) ?_
  split
  · exact Noted.within_pure _ _ _
  · refine Noted.within_bind (f.within_noted _ h) ?_
    split <;> exact Noted.within_pure _ _ _

theorem within_executeSelectNoted
    (s : Store) (f : Frame) (cases' : List Ir.Case) (onFail : Option Ir.Label) :
    (s.executeSelectNoted f cases' onFail).Within (cases'.flatMap Ir.Case.slots) f.temps.size := by
  refine Noted.within_bind (s.within_waitCasesNoted f cases') ?_
  split
  · exact Noted.within_pure _ _ _
  · split
    · exact Noted.within_pure _ _ _
    · exact Noted.within_pure _ _ _
    · split
      · rename_i hcase _
        refine within_storeReceivedNoted _ f _ _ ?_
        exact List.mem_flatMap.mpr ⟨_, List.mem_of_getElem? hcase, by simp [Ir.Case.slots]⟩
      · exact Noted.within_pure _ _ _
      · exact Noted.within_pure _ _ _

theorem within_executeFieldNoted
    (s : Store) (f : Frame) (target record : Nat) (field : String) (assignable : Bool)
    (onFail : Option Ir.Label) :
    (s.executeFieldNoted f target record field assignable onFail).Within [target, record]
      f.temps.size := by
  refine Noted.within_bind (f.within_noted _ (by simp)) ?_
  split
  · exact Noted.within_pure _ _ _
  · split
    · split
      · exact Noted.within_bind (f.within_noted _ (by simp)) (Noted.within_pure _ _ _)
      · exact Noted.within_pure _ _ _
    · exact Noted.within_pure _ _ _

theorem within_copyNoted
    (s : Store) (f : Frame) (target source : Nat) (change : Value → Value) :
    (s.copyNoted f target source change).Within [target, source] f.temps.size := by
  refine Noted.within_bind (f.within_noted _ (by simp)) ?_
  split
  · exact Noted.within_pure _ _ _
  · exact Noted.within_bind (f.within_noted _ (by simp)) (Noted.within_pure _ _ _)

theorem within_useNoted (s : Store) (f : Frame) (slot : Nat) (use : Value → Effect × Frame) :
    (s.useNoted f slot use).Within [slot] f.temps.size := by
  refine Noted.within_bind (f.within_noted _ (by simp)) ?_
  split <;> exact Noted.within_pure _ _ _

/-- Storing in one slot of the frame and nothing else. -/
theorem within_changedNoted
    {slots : List Ir.Slot} (s : Store) (f : Frame) {slot : Nat} (e : Except Malfunction Frame)
    (h : slot ∈ slots) :
    (do return s.changed f (← f.noted slot e) : Noted Executed).Within slots f.temps.size :=
  Noted.within_bind (f.within_noted _ h) (Noted.within_pure _ _ _)

/-- An instruction only uses the slots that it lists. -/
theorem within_executeNoted (s : Store) (f : Frame) (i : Ir.Instruction) :
    (s.executeNoted f i).Within i.slots f.temps.size := by
  cases i with
  | literal target value => exact within_changedNoted s f _ List.mem_cons_self
  | name target name =>
      simp only [executeNoted]
      split
      · exact Noted.within_pure _ _ _
      · exact within_changedNoted s f _ List.mem_cons_self
  | dynamic target name assignable =>
      simp only [executeNoted]
      split
      · exact within_changedNoted _ f _ List.mem_cons_self
      · exact Noted.within_pure _ _ _
  | field target record field assignable onFail =>
      exact within_executeFieldNoted s f target record field assignable onFail
  | call d callee args names =>
      refine Noted.within_bind (f.within_noted _ (by simp [Ir.Instruction.slots])) ?_
      split
      · exact Noted.within_pure _ _ _
      · refine Noted.within_bind ((f.within_valuesNoted args).mono ?_) ?_
        · simp [Ir.Instruction.slots]
        · split <;> exact Noted.within_pure _ _ _
  | operator d op args =>
      refine Noted.within_bind ((f.within_valuesNoted args).mono ?_) ?_
      · simp [Ir.Instruction.slots]
      · split <;> exact Noted.within_pure _ _ _
  | resume d source =>
      refine Noted.within_bind (f.within_noted _ (by simp [Ir.Instruction.slots])) ?_
      split <;> exact Noted.within_pure _ _ _
  | move target source => exact within_copyNoted s f target source id
  | deref target source => exact within_copyNoted s f target source s.deref
  | moveLabel target label => exact within_changedNoted s f _ List.mem_cons_self
  | indirect source targets =>
      refine Noted.within_bind (f.within_noted _ List.mem_cons_self) ?_
      split
      · exact Noted.within_pure _ _ _
      · split <;> exact Noted.within_pure _ _ _
  | succeed value again =>
      cases value with
      | none => exact Noted.within_pure _ _ _
      | some slot => exact within_useNoted s f slot _
  | create target entry =>
      simp only [executeNoted]
      split
      · exact within_changedNoted _ f _ List.mem_cons_self
      · exact Noted.within_pure _ _ _
  | produce value again => exact within_useNoted s f value _
  | select cases' onFail => exact within_executeSelectNoted s f cases' onFail
  | recover handler => exact within_useNoted s f handler _
  | goto target => exact Noted.within_pure _ _ _
  | fail => exact Noted.within_pure _ _ _
  | enter scope names dynamics => exact Noted.within_pure _ _ _
  | leave scope => exact Noted.within_pure _ _ _
  | exhaust => exact Noted.within_pure _ _ _
  | coordinate coord => exact Noted.within_pure _ _ _

end Store

namespace Machine

/-! ## Deliveries and steps -/

/-- Stores the parts of an outcome and notes the slots. -/
def storeOutcomeNoted (f : Frame) (d : Ir.Destination) (o : Outcome) :
    Noted (Except Malfunction Frame) := do
  let stored : Except Malfunction Frame ← match d.value, o.value? with
    | some slot, some v => f.noted slot (f.set slot v)
    | _, _ => pure (.ok f)
  match stored with
  | .error m => return .error m
  | .ok g =>
      match d.next with
      | some slot => g.noted slot (g.setNext slot o.next?)
      | none => return .ok g

@[simp] theorem result_storeOutcomeNoted (f : Frame) (d : Ir.Destination) (o : Outcome) :
    (storeOutcomeNoted f d o).result = storeOutcome f d o := by
  obtain ⟨value, next, onFail⟩ := d
  simp only [storeOutcomeNoted, storeOutcome]
  cases value with
  | none => cases next <;> rfl
  | some slot =>
      cases o.value? with
      | none => cases next <;> rfl
      | some v =>
          dsimp only
          cases f.set slot v with
          | error m => rfl
          | ok g => cases next <;> rfl

/-- A delivery only uses the slots of its destination. -/
theorem within_storeOutcomeNoted (f : Frame) (d : Ir.Destination) (o : Outcome) :
    (storeOutcomeNoted f d o).Within d.slots f.temps.size := by
  obtain ⟨value, next, onFail⟩ := d
  have hnext : ∀ g : Frame, g.temps.size = f.temps.size →
      (match next with
        | some slot => g.noted slot (g.setNext slot o.next?)
        | none => (pure (.ok g) : Noted (Except Malfunction Frame))).Within
        (Ir.Destination.slots ⟨value, next, onFail⟩) f.temps.size := by
    intro g hg
    cases next with
    | none => exact Noted.within_pure _ _ _
    | some slot =>
        rw [← hg]
        exact g.within_noted _ (by simp [Ir.Destination.slots])
  cases value with
  | none => exact Noted.within_bind (Noted.within_pure _ _ _) (hnext f rfl)
  | some slot =>
      cases hvalue : o.value? with
      | none =>
          simp only [storeOutcomeNoted, hvalue]
          exact Noted.within_bind (Noted.within_pure _ _ _) (hnext f rfl)
      | some v =>
          simp only [storeOutcomeNoted, hvalue]
          refine Noted.within_bind (f.within_noted _ (by simp [Ir.Destination.slots])) ?_
          simp only [Frame.result_noted]
          cases hset : f.set slot v with
          | error m => exact Noted.within_pure _ _ _
          | ok g => exact hnext g (Frame.follows_set [] hset).size

def advanceNoted (s : Store) (stack : List Context) (frame : Nat) (label : Ir.Label)
    (rest : List Ir.Instruction) : Noted Machine :=
  match s.frames[frame]?, rest with
  | none, _ => return ⟨s, stack, .returning .fail⟩
  | some f, [] => return malfunction s stack frame (.fellOffEnd label f.place)
  | some f, i :: rest => do
      let (effect, f, s) ← s.executeNoted f i
      return perform (s.setFrame frame f) stack frame label rest f.environment effect

def deliverNoted (s : Store) (stack : List Context) (frame : Nat) (label : Ir.Label)
    (rest : List Ir.Instruction) (d : Ir.Destination) (o : Outcome) : Noted Machine :=
  match s.frames[frame]? with
  | none => return ⟨s, stack, .returning .fail⟩
  | some f => do
      match ← storeOutcomeNoted f d o, o with
      | .error m, _ => return malfunction s stack frame m
      | .ok f, .fail => return failed (s.setFrame frame f) stack frame d.onFail
      | .ok f, _ => return ⟨s.setFrame frame f, stack, .running frame label rest⟩

/-- One step, with the slots that it uses. Only instructions and deliveries use slots. -/
def stepNoted : Machine → Noted Machine
  | ⟨s, stack, .running frame label rest⟩ => advanceNoted s stack frame label rest
  | ⟨s, .awaiting frame label rest d :: stack, .returning o⟩ =>
      deliverNoted s stack frame label rest d o
  | m => return m.step

/-- Noting slots does not change a step. -/
theorem result_stepNoted (m : Machine) : m.stepNoted.result = m.step := by
  obtain ⟨s, stack, control⟩ := m
  cases control with
  | running frame label rest =>
      simp only [stepNoted, step, advanceNoted, advance]
      cases s.frames[frame]? with
      | none => rfl
      | some f =>
          cases rest with
          | nil => rfl
          | cons i rest => simp only [Noted.result_bind, Store.result_executeNoted, Noted.result_pure]
  | returning o =>
      cases stack with
      | nil => rfl
      | cons c stack =>
          cases c with
          | awaiting frame label rest d =>
              simp only [stepNoted, step, returnTo, deliverNoted, deliver]
              cases s.frames[frame]? with
              | none => rfl
              | some f =>
                  simp only [Noted.result_bind, result_storeOutcomeNoted]
                  cases storeOutcome f d o with
                  | error m => rfl
                  | ok g => cases o <;> rfl
          | recovering frame => rfl
          | consuming id => rfl
          | bare => rfl
  | raising r => rfl
  | halted h => rfl
  | aborted r => rfl

end Machine

end Slots

end GoalDirected
