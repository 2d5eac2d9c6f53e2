import GoalDirected.Proofs.Machine.Unwinding
import GoalDirected.Proofs.Select.Choice

/-!
# Primitives do not look at frames

**Input.** A store, and the same store with another content of one frame.

**Argument.** Only the machine itself runs frames.  What a primitive reads and writes is data: cells, lists, records,
names, environments, channels.  So it does the same in both stores.  The one exception adds a frame behind
all others, and that does not touch the frame in question either.

**Results.**
* `invoke_setFrame`, `builtin_setFrame`, `choose_setFrame`: operators, the library and selects.
* `bindArguments_setFrame`, `construct_setFrame`: calls.
* `execute_setFrame`: one instruction of another frame.
-/

namespace GoalDirected

section Frames

namespace Store

/-! ## Frames themselves -/

theorem setFrame_comm
    {n k : Nat}
    (h : k ≠ n)
    (s : Store) (g f : Frame) :
    (s.setFrame n g).setFrame k f = (s.setFrame k f).setFrame n g := by
  simp only [setFrame, Store.mk.injEq, true_and, and_true]
  exact Array.setIfInBounds_comm g f (Ne.symm h)

theorem setFrame_setFrame (s : Store) (n : Nat) (g f : Frame) :
    (s.setFrame n g).setFrame n f = s.setFrame n f := by
  simp [setFrame]

theorem newFrame_setFrame
    {s : Store} {n : Nat}
    (h : n < s.frames.size)
    (g f : Frame) :
    (s.setFrame n g).newFrame f = ((s.newFrame f).1, (s.newFrame f).2.setFrame n g) := by
  have hpush : (s.frames.setIfInBounds n g).push f = (s.frames.push f).setIfInBounds n g := by
    apply Array.ext_getElem?
    intro i
    simp only [Array.getElem?_push, Array.getElem?_setIfInBounds, Array.size_setIfInBounds, Array.size_push]
    grind
  simp only [newFrame, setFrame, Array.size_setIfInBounds, hpush]

variable (s : Store) (n : Nat) (g : Frame)

theorem setProducer_setFrame (id : Nat) (p : Producer) :
    (s.setFrame n g).setProducer id p = (s.setProducer id p).setFrame n g := by
  cases id <;> rfl

theorem endProducer_setFrame (id : Nat) :
    (s.setFrame n g).endProducer id = (s.endProducer id).setFrame n g := by
  cases id <;> rfl

theorem producer_setFrame (id : Nat) :
    (s.setFrame n g).producer id = s.producer id := by
  cases id <;> rfl

theorem abandon_setFrame (id : Nat) :
    (s.setFrame n g).abandon id = (s.abandon id).setFrame n g := by
  simp only [abandon, producer_setFrame, endProducer_setFrame]
  split <;> rfl

/-! ## Values -/

@[simp] theorem allocate_setFrame (v : Value) :
    (s.setFrame n g).allocate v = ((s.allocate v).1, (s.allocate v).2.setFrame n g) := rfl

@[simp] theorem newList_setFrame (values : Array Value) :
    (s.setFrame n g).newList values = ((s.newList values).1, (s.newList values).2.setFrame n g) := rfl

theorem derefWithin_setFrame (fuel : Nat) (v : Value) :
    (s.setFrame n g).derefWithin fuel v = s.derefWithin fuel v := by
  induction fuel generalizing v with
  | zero => rfl
  | succ fuel ih =>
      cases v with
      | ref cell => exact ih _
      | _ => rfl

@[simp] theorem deref_setFrame : (s.setFrame n g).deref = s.deref :=
  funext (s.derefWithin_setFrame n g _)

@[simp] theorem text_setFrame : (s.setFrame n g).text = s.text :=
  funext (s.textWithin_setFrame n g _)

@[simp] theorem toNumber_setFrame : (s.setFrame n g).toNumber = s.toNumber := by
  funext v
  simp only [toNumber, deref_setFrame]

@[simp] theorem toText_setFrame : (s.setFrame n g).toText = s.toText := by
  funext v
  simp only [toText, deref_setFrame]

@[simp] theorem numbers_setFrame (a b : Value) : (s.setFrame n g).numbers a b = s.numbers a b := by
  simp only [numbers, toNumber_setFrame]

/-! ## Operators -/

@[simp] theorem arithmetic_setFrame (f : Float → Float → Float) (a b : Value) :
    (s.setFrame n g).arithmetic f a b = s.arithmetic f a b := by
  simp only [arithmetic, numbers_setFrame]

@[simp] theorem division_setFrame (f : Float → Float → Float) (a b : Value) :
    (s.setFrame n g).division f a b = s.division f a b := by
  simp only [division, numbers_setFrame]

@[simp] theorem comparison_setFrame (holds : Float → Float → Bool) (a b : Value) :
    (s.setFrame n g).comparison holds a b = s.comparison holds a b := by
  simp only [comparison, numbers_setFrame]

@[simp] theorem textComparison_setFrame (equal : Bool) (a b : Value) :
    (s.setFrame n g).textComparison equal a b = s.textComparison equal a b := by
  simp only [textComparison, toText_setFrame]

@[simp] theorem concatenate_setFrame (a b : Value) :
    (s.setFrame n g).concatenate a b = s.concatenate a b := by
  simp only [concatenate, toText_setFrame]

@[simp] theorem subscript_setFrame (v i : Value) : (s.setFrame n g).subscript v i = s.subscript v i := by
  simp only [subscript, deref_setFrame, toNumber_setFrame]
  rfl

theorem slice_setFrame (v i j : Value) :
    (s.setFrame n g).slice v i j = (s.slice v i j).map fun r => (r.1, r.2.setFrame n g) := by
  have hvalues : (s.setFrame n g).listValues = s.listValues := rfl
  simp only [slice, bounds, deref_setFrame, numbers_setFrame, hvalues]
  cases s.deref v with
  | list id =>
      simp only [bind, Except.bind]
      split
      · rfl
      · split <;> rfl
  | text t =>
      simp only [bind, Except.bind]
      split
      · rfl
      · split <;> rfl
  | _ => rfl

theorem receiveFrom_setFrame (id : Nat) :
    (s.setFrame n g).receiveFrom id = ((s.receiveFrom id).1, (s.receiveFrom id).2.setFrame n g) := by
  have hchannel : (s.setFrame n g).channel? id = s.channel? id := rfl
  simp only [receiveFrom, hchannel]
  split <;> rfl

theorem operate_setFrame (op : Operation) (args : List Value) :
    (s.setFrame n g).operate op args = ((s.operate op args).1, (s.operate op args).2.setFrame n g) := by
  unfold operate
  split
  case h_18 a b => cases a <;> rfl
  case h_19 a b => cases a <;> cases b <;> rfl
  case h_21 v i j =>
    rw [slice_setFrame]
    cases s.slice v i j <;> rfl
  case h_29 a =>
    cases a with
    | channel id => simp only [receiveFrom_setFrame]
    | _ => rfl
  all_goals first | rfl | simp

theorem invoke_setFrame (op : String) (args : List Value) :
    (s.setFrame n g).invoke op args = ((s.invoke op args).1, (s.invoke op args).2.setFrame n g) := by
  simp only [invoke, operands, deref_setFrame]
  split
  · rw [operate_setFrame]
  · rfl

/-! ## The library -/

theorem sizeArgument_setFrame (v : Value) : (s.setFrame n g).sizeArgument v = s.sizeArgument v := by
  simp only [sizeArgument, toNumber_setFrame]

theorem makeChannel_setFrame (capacity : Value) :
    (s.setFrame n g).makeChannel capacity = ((s.makeChannel capacity).1, (s.makeChannel capacity).2.setFrame n g) := by
  simp only [makeChannel, sizeArgument_setFrame]
  split
  · rfl
  · split <;> rfl

theorem sendTo_setFrame (channel v : Value) :
    (s.setFrame n g).sendTo channel v = ((s.sendTo channel v).1, (s.sendTo channel v).2.setFrame n g) := by
  have hchannel : (s.setFrame n g).channel? = s.channel? := rfl
  simp only [sendTo, hchannel]
  split
  · split <;> rfl
  · rfl

theorem closeValue_setFrame (v : Value) :
    (s.setFrame n g).closeValue v = ((s.closeValue v).1, (s.closeValue v).2.setFrame n g) := by
  have hchannel : (s.setFrame n g).channel? = s.channel? := rfl
  simp only [closeValue, hchannel, producer_setFrame, abandon_setFrame]
  split
  · split <;> rfl
  · split <;> rfl
  · rfl

theorem makeList_setFrame (size fill : Value) :
    (s.setFrame n g).makeList size fill = ((s.makeList size fill).1, (s.makeList size fill).2.setFrame n g) := by
  simp only [makeList, sizeArgument_setFrame]
  split
  · rfl
  · split <;> rfl

theorem builtin_setFrame (b : Builtin) (args : List Value) :
    (s.setFrame n g).builtin b args = ((s.builtin b args).1, (s.builtin b args).2.setFrame n g) := by
  cases b with
  | write =>
      simp only [builtin, writeAll, text_setFrame]
      rfl
  | writes =>
      simp only [builtin, writeAll, text_setFrame]
      rfl
  | channel => exact s.makeChannel_setFrame n g _
  | send => exact s.sendTo_setFrame n g _ _
  | receive =>
      simp only [builtin]
      split
      · exact s.receiveFrom_setFrame n g _
      · rfl
  | close => exact s.closeValue_setFrame n g _
  | exit =>
      simp only [builtin, toNumber_setFrame]
      split
      · rfl
      · split <;> rfl
  | list => exact s.makeList_setFrame n g _ _
  | number =>
      simp only [builtin, toNumber_setFrame]
      split <;> rfl
  | _ => simp [builtin]

/-! ## Selects -/

theorem attempt_setFrame (c : WaitCase) :
    (s.setFrame n g).attempt c =
      match s.attempt c with
      | .done (v, t) => .done (v, t.setFrame n g)
      | .refused => .refused
      | .waits => .waits := by
  have hchannel : (s.setFrame n g).channel? = s.channel? := rfl
  cases c with
  | send id v =>
      simp only [attempt, hchannel]
      split <;> rfl
  | receive id =>
      simp only [attempt, hchannel]
      split <;> rfl
  | default => rfl

theorem firstReady_setFrame (waits : List (Nat × WaitCase)) :
    (s.setFrame n g).firstReady waits = (s.firstReady waits).map fun r => (r.1, r.2.1, r.2.2.setFrame n g) := by
  induction waits with
  | nil => rfl
  | cons x rest ih =>
      simp only [firstReady, attempt_setFrame]
      cases s.attempt x.2 with
      | done r => rfl
      | _ => exact ih

theorem isRefused_setFrame : (s.setFrame n g).isRefused = s.isRefused := by
  funext c
  simp only [isRefused, attempt_setFrame]
  cases s.attempt c <;> rfl

theorem choose_setFrame (waits : List WaitCase) :
    (s.setFrame n g).choose waits = ((s.choose waits).1, (s.choose waits).2.setFrame n g) := by
  have hturned : (s.setFrame n g).turned = s.turned.setFrame n g := rfl
  have hrotation : (s.setFrame n g).rotation = s.rotation := rfl
  rw [choose_eq, choose_eq, hturned, hrotation, firstReady_setFrame, isRefused_setFrame]
  cases s.turned.firstReady (rotated waits s.rotation) with
  | some r => rfl
  | none =>
      dsimp only [Option.map_none]
      split
      · rfl
      · split <;> rfl

/-! ## Calls -/

theorem allocateAll_setFrame (values : List Value) :
    (s.setFrame n g).allocateAll values = ((s.allocateAll values).1, (s.allocateAll values).2.setFrame n g) := by
  induction values generalizing s with
  | nil => rfl
  | cons v rest ih => simp only [allocateAll, allocate_setFrame, ih]

theorem newRecord_setFrame (name : String) (fields : List (String × Value)) :
    (s.setFrame n g).newRecord name fields =
      ((s.newRecord name fields).1, (s.newRecord name fields).2.setFrame n g) := by
  simp only [newRecord, allocateAll_setFrame]
  rfl

theorem bindAll_setFrame (b : Bindings) (entries : List (String × Value)) :
    (s.setFrame n g).bindAll b entries = ((s.bindAll b entries).1, (s.bindAll b entries).2.setFrame n g) := by
  induction entries generalizing s b with
  | nil => rfl
  | cons x rest ih => exact ih (s.allocate x.2).2 _

theorem bindKeywords_setFrame (b : Bindings) (entries : List (String × Value)) :
    (s.setFrame n g).bindKeywords b entries = (s.bindKeywords b entries).setFrame n g := by
  induction entries generalizing s with
  | nil => rfl
  | cons x rest ih =>
      simp only [bindKeywords]
      split
      · exact ih (s.write _ x.2)
      · exact ih s

theorem bindParameters_setFrame (code : Code) (positional : List Value) :
    (s.setFrame n g).bindParameters code positional =
      ((s.bindParameters code positional).1, (s.bindParameters code positional).2.setFrame n g) := by
  simp only [bindParameters, bindAll_setFrame, newList_setFrame]
  split <;> rfl

theorem bindArguments_setFrame (code : Code) (args : List Value) (names : List String) :
    (s.setFrame n g).bindArguments code args names =
      ((s.bindArguments code args names).1, (s.bindArguments code args names).2.setFrame n g) := by
  simp only [bindArguments, bindParameters_setFrame, bindKeywords_setFrame, bindAll_setFrame]

theorem construct_setFrame (record : String) (fields : List String) (args : List Value) (names : List String) :
    (s.setFrame n g).construct record fields args names =
      (s.construct record fields args names).map fun r => (r.1, r.2.setFrame n g) := by
  simp only [construct, newRecord_setFrame]
  split <;> rfl

/-! ## Names and scopes -/

theorem declaring?_setFrame (name : String) (e : Environment) :
    (s.setFrame n g).declaring? name e = s.declaring? name e := by
  induction e with
  | nil => rfl
  | cons id outer ih =>
      simp only [declaring?, ih]
      rfl

theorem resolve_setFrame (e : Environment) (name : String) (assignable : Bool) :
    (s.setFrame n g).resolve e name assignable =
      (s.resolve e name assignable).map fun r => (r.1, r.2.setFrame n g) := by
  simp only [resolve, declaring?_setFrame]
  split <;> rfl

theorem shadow_setFrame (vars : Bindings) (names : List String) :
    (s.setFrame n g).shadow vars names =
      ((s.shadow vars names).1, (s.shadow vars names).2.1, (s.shadow vars names).2.2.setFrame n g) := by
  induction names generalizing s vars with
  | nil => rfl
  | cons name rest ih => simp only [shadow, allocate_setFrame, ih]

theorem enterScope_setFrame (f : Frame) (name : String) (names dynamics : List String) :
    (s.setFrame n g).enterScope f name names dynamics =
      ((s.enterScope f name names dynamics).1, (s.enterScope f name names dynamics).2.setFrame n g) := by
  simp only [enterScope, shadow_setFrame]
  split <;> rfl

/-! ## Copies of frames -/

theorem duplicate_setFrame (cell : CellId) :
    (s.setFrame n g).duplicate cell = ((s.duplicate cell).1, (s.duplicate cell).2.setFrame n g) := rfl

theorem duplicateBindings_setFrame (b : Bindings) :
    (s.setFrame n g).duplicateBindings b =
      ((s.duplicateBindings b).1, (s.duplicateBindings b).2.setFrame n g) := by
  induction b generalizing s with
  | nil => rfl
  | cons x rest ih => simp only [duplicateBindings, duplicate_setFrame, ih]

theorem duplicateShadowed_setFrame (l : List (String × Option CellId)) :
    (s.setFrame n g).duplicateShadowed l =
      ((s.duplicateShadowed l).1, (s.duplicateShadowed l).2.setFrame n g) := by
  induction l generalizing s with
  | nil => rfl
  | cons x rest ih =>
      obtain ⟨name, cell⟩ := x
      cases cell <;> simp only [duplicateShadowed, duplicate_setFrame, ih]

theorem duplicateScopes_setFrame (l : List Scope) :
    (s.setFrame n g).duplicateScopes l = ((s.duplicateScopes l).1, (s.duplicateScopes l).2.setFrame n g) := by
  induction l generalizing s with
  | nil => rfl
  | cons x rest ih => simp only [duplicateScopes, duplicateShadowed_setFrame, ih]

theorem duplicateFrame_setFrame (f : Frame) (e : Environment) :
    (s.setFrame n g).duplicateFrame f e = ((s.duplicateFrame f e).1, (s.duplicateFrame f e).2.setFrame n g) := by
  simp only [duplicateFrame, duplicateBindings_setFrame, duplicateScopes_setFrame]

theorem taskEnvironment_setFrame (outer : Environment) (task : Nat) :
    (s.setFrame n g).taskEnvironment outer task =
      ((s.taskEnvironment outer task).1, (s.taskEnvironment outer task).2.setFrame n g) := rfl

theorem createProducer_setFrame
    {s : Store} {n : Nat}
    (h : n < s.frames.size)
    (g f : Frame) (entry : Ir.Label) :
    (s.setFrame n g).createProducer f entry =
      (s.createProducer f entry).map fun r => (r.1, r.2.setFrame n g) := by
  have hsize : n < ((s.taskEnvironment f.environment (s.producers.size + 1)).2.duplicateFrame f
      (s.taskEnvironment f.environment (s.producers.size + 1)).1).2.frames.size := by
    rw [frames_eq_of_activity (activity_duplicateFrame _ f _)]
    exact h
  have hproducers : (s.setFrame n g).producers = s.producers := rfl
  have hactive : (s.setFrame n g).active = s.active := rfl
  have hlimit : (s.setFrame n g).limit = s.limit := rfl
  simp only [createProducer, hproducers, hactive, hlimit, taskEnvironment_setFrame, duplicateFrame_setFrame,
    newFrame_setFrame hsize]
  split <;> rfl

/-! ## Instructions -/

theorem channelOperand_setFrame (f : Frame) (slot : Nat) :
    (s.setFrame n g).channelOperand f slot = s.channelOperand f slot := by
  simp only [channelOperand, deref_setFrame]

theorem waitCases_setFrame (f : Frame) (cases : List Ir.Case) :
    (s.setFrame n g).waitCases f cases = s.waitCases f cases := by
  have hcase : (s.setFrame n g).waitCase f = s.waitCase f := by
    funext c
    cases c <;> simp only [waitCase, channelOperand_setFrame, deref_setFrame]
  induction cases with
  | nil => rfl
  | cons c rest ih => simp only [waitCases, hcase, ih]

theorem changed_setFrame (f : Frame) (e : Except Malfunction Frame) :
    (s.setFrame n g).changed f e =
      ((s.changed f e).1, (s.changed f e).2.1, (s.changed f e).2.2.setFrame n g) := by
  cases e <;> rfl

theorem storeReceived_setFrame (f : Frame) (slot : Nat) (v : Value) (body : Ir.Label) :
    (s.setFrame n g).storeReceived f slot v body =
      ((s.storeReceived f slot v body).1, (s.storeReceived f slot v body).2.1,
        (s.storeReceived f slot v body).2.2.setFrame n g) := by
  simp only [storeReceived]
  split
  · rfl
  · split <;> rfl

theorem executeSelect_setFrame (f : Frame) (cases : List Ir.Case) (onFail : Option Ir.Label) :
    (s.setFrame n g).executeSelect f cases onFail =
      ((s.executeSelect f cases onFail).1, (s.executeSelect f cases onFail).2.1,
        (s.executeSelect f cases onFail).2.2.setFrame n g) := by
  simp only [executeSelect, waitCases_setFrame]
  split
  · rfl
  · rename_i waits _
    simp only [choose_setFrame]
    obtain ⟨choice, t⟩ := s.choose waits
    cases choice with
    | fail => rfl
    | blocked => rfl
    | chosen i received =>
        dsimp only
        split
        · exact t.storeReceived_setFrame n g f _ _ _
        · rfl
        · rfl

theorem executeField_setFrame (f : Frame) (target record : Nat) (field : String) (assignable : Bool)
    (onFail : Option Ir.Label) :
    (s.setFrame n g).executeField f target record field assignable onFail =
      ((s.executeField f target record field assignable onFail).1,
        (s.executeField f target record field assignable onFail).2.1,
        (s.executeField f target record field assignable onFail).2.2.setFrame n g) := by
  have hrecord : (s.setFrame n g).record = s.record := rfl
  simp only [executeField, deref_setFrame, hrecord]
  split
  · rfl
  · split
    · split
      · exact s.changed_setFrame n g f _
      · rfl
    · rfl

theorem execute_setFrame
    {s : Store} {n : Nat}
    (h : n < s.frames.size)
    (g f : Frame) (i : Ir.Instruction) :
    (s.setFrame n g).execute f i =
      ((s.execute f i).1, (s.execute f i).2.1, (s.execute f i).2.2.setFrame n g) := by
  cases i with
  | literal target value => exact s.changed_setFrame n g f _
  | name target name => exact s.changed_setFrame n g f _
  | move target source => exact s.changed_setFrame n g f _
  | moveLabel target label => exact s.changed_setFrame n g f _
  | dynamic target name assignable =>
      simp only [execute, resolve_setFrame]
      cases s.resolve f.environment name assignable with
      | error e => rfl
      | ok r => exact r.2.changed_setFrame n g f _
  | field target record field assignable onFail => exact s.executeField_setFrame n g f _ _ _ _ _
  | select cases onFail => exact s.executeSelect_setFrame n g f _ _
  | call d callee args names =>
      simp only [execute, deref_setFrame]
      split <;> rfl
  | deref target source =>
      simp only [execute, deref_setFrame]
      exact s.changed_setFrame n g f _
  | succeed value again =>
      cases value with
      | none => rfl
      | some slot =>
          simp only [execute, deref_setFrame]
          split <;> rfl
  | enter scope names dynamics => simp only [execute, enterScope_setFrame]
  | create target entry =>
      simp only [execute, createProducer_setFrame h]
      cases s.createProducer f entry with
      | error e => rfl
      | ok r => exact r.2.changed_setFrame n g f _
  | produce value again =>
      simp only [execute, deref_setFrame]
      split <;> rfl
  | recover handler =>
      simp only [execute, deref_setFrame]
      split <;> rfl
  | operator d op args =>
      simp only [execute]
      split <;> rfl
  | resume d source =>
      simp only [execute]
      split <;> rfl
  | indirect source targets =>
      simp only [execute]
      split
      · rfl
      · split <;> rfl
  | leave scope =>
      simp only [execute]
      split <;> rfl
  | _ => rfl

end Store

end Frames

end GoalDirected
