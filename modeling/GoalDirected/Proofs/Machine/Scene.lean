import GoalDirected.Proofs.Machine.Growth
import GoalDirected.Proofs.Machine.Unwinding
import GoalDirected.Proofs.Store.Nodes

/-!
# Scenes

**Input.** A step of the machine.

**Argument.** Where a frame looks up dynamic variables is its site: its environment, and the environments that its
open scopes will restore.  A scene is the sites of all frames with the tasks of all nodes.  Only three instructions
change it, and a call adds the site of the new frame.

**Results.**
* `Scene.Next`: all that can become of a scene in one step.
* `changes_step`: a step of the machine leaves the scene alone or changes it in one of these ways.
-/

namespace GoalDirected

section Scene

/-- Where a frame looks up dynamic variables, now and after leaving its scopes. -/
structure Site where
  environment : Environment
  /-- What the open scopes restore, innermost first; nothing if a scope has no dynamic variables. -/
  saved : List (Option Environment)

def Frame.site (f : Frame) : Site :=
  ⟨f.environment, f.scopes.map (·.outer)⟩

/-- The tasks of all nodes, the sites of all frames, and the number of co-expressions. -/
structure Scene where
  tasks : Array Nat
  sites : Array Site
  count : Nat

def Store.scene (s : Store) : Scene :=
  ⟨s.nodes.map (·.task), s.frames.map Frame.site, s.producers.size⟩

namespace Scene

/-- The task of a node; one that does not exist counts for the main task. -/
def task (c : Scene) (id : Nat) : Nat :=
  c.tasks.getD id 0

/-- The task that an environment belongs to. -/
def taskOf (c : Scene) : Environment → Nat
  | [] => 0
  | id :: _ => c.task id

/-- A frame has a new site. -/
def place (c : Scene) (n : Nat) (x : Site) : Scene :=
  { c with sites := c.sites.setIfInBounds n x }

/-- A new frame starts in an environment. -/
def start (c : Scene) (e : Environment) : Scene :=
  { c with sites := c.sites.push ⟨e, []⟩ }

/-- What can become of a scene in one step. -/
inductive Next (c : Scene) : Scene → Prop
  | enter
      {n : Nat} {x : Site}
      (hsite : c.sites[n]? = some x) :
      Next c (c.place n ⟨x.environment, none :: x.saved⟩)
  /-- A scope with dynamic variables gets a node of the same task. -/
  | nest
      {n : Nat} {x : Site}
      (hsite : c.sites[n]? = some x) :
      Next c { c.place n ⟨c.tasks.size :: x.environment, some x.environment :: x.saved⟩ with
        tasks := c.tasks.push (c.taskOf x.environment) }
  | leave
      {n : Nat} {x : Site} {o : Option Environment} {rest : List (Option Environment)}
      (hsite : c.sites[n]? = some x)
      (hsaved : x.saved = o :: rest) :
      Next c (c.place n ⟨o.getD x.environment, rest⟩)
  /-- A scope is left under the name of another one. -/
  | drop
      {n : Nat} {x : Site} {o : Option Environment} {rest : List (Option Environment)}
      (hsite : c.sites[n]? = some x)
      (hsaved : x.saved = o :: rest) :
      Next c (c.place n ⟨x.environment, rest⟩)
  | call
      {n : Nat} {x : Site}
      (hsite : c.sites[n]? = some x) :
      Next c (c.start x.environment)
  | create
      {n : Nat} {x : Site}
      (hsite : c.sites[n]? = some x) :
      Next c
        { tasks := c.tasks.push (c.count + 1)
          sites := c.sites.push ⟨c.tasks.size :: x.environment, x.saved⟩
          count := c.count + 1 }

/-- A step leaves a scene as it is, or changes it. -/
def Changes (c d : Scene) : Prop :=
  d = c ∨ Next c d

/-- A call leaves a scene as it is, or adds a frame that starts in the given environment. -/
def Starts (e : Environment) (c d : Scene) : Prop :=
  d = c ∨ d = c.start e

end Scene

/-! ## Frames -/

namespace Frame

theorem site_put
    {f g : Frame} {slot : Nat} {t : Temp}
    (h : f.put slot t = .ok g) :
    g.site = f.site := by
  obtain ⟨-, rfl⟩ := getElem?_put h
  rfl

theorem site_setNext
    {f g : Frame} {slot : Nat} {k : Option Continuation}
    (h : f.setNext slot k = .ok g) :
    g.site = f.site := by
  cases k with
  | none => exact site_put h
  | some k => exact site_put h

theorem site_takeNext
    {f g : Frame} {slot : Nat} {k : Option Continuation}
    (h : f.takeNext slot = .ok (k, g)) :
    g.site = f.site := by
  unfold takeNext at h
  split at h <;> cases h <;> rfl

end Frame

theorem Machine.site_storeOutcome
    {f g : Frame} {d : Ir.Destination} {o : Outcome}
    (h : Machine.storeOutcome f d o = .ok g) :
    g.site = f.site := by
  obtain ⟨stored, hstored, heq⟩ := Machine.storeOutcome_eq f d o
  rw [heq] at h
  cases stored with
  | error e => cases h
  | ok f' =>
      have hvalue : f'.site = f.site := by
        rcases hstored with hsame | ⟨slot, v, -, hset⟩
        · cases hsame
          rfl
        · exact Frame.site_put hset.symm
      simp only [Except.bind] at h
      split at h
      · exact (Frame.site_setNext h).trans hvalue
      · cases h
        exact hvalue

/-- The instruction changes the scene. -/
def Ir.Instruction.isScenic : Ir.Instruction → Bool
  | .enter _ _ _ => true
  | .leave _ => true
  | .create _ _ => true
  | _ => false

/-! ## Stores -/

namespace Store

variable {s t : Store} {f g : Frame} {n : Nat}

theorem scene_of_eq
    (hnodes : t.nodes = s.nodes)
    (hactivity : t.activity = s.activity) :
    t.scene = s.scene := by
  have hframes := frames_eq_of_activity hactivity
  have hproducers := producers_eq_of_activity hactivity
  simp only [scene, hnodes, hframes, hproducers]

theorem task_scene (s : Store) (id : Nat) : s.scene.task id = (s.node id).task := by
  simp only [Scene.task, scene, node, Array.getD_eq_getD_getElem?, Array.getElem?_map]
  cases s.nodes[id]? <;> rfl

theorem taskOf_scene (s : Store) (e : Environment) : s.scene.taskOf e = s.taskOf e := by
  cases e with
  | nil => rfl
  | cons id outer => exact s.task_scene id

theorem sites_scene (s : Store) (n : Nat) : s.scene.sites[n]? = (s.frames[n]?).map Frame.site := by
  simp [scene]

theorem site_of_frame
    (h : s.frames[n]? = some f) :
    s.scene.sites[n]? = some f.site := by
  rw [sites_scene, h]
  rfl

theorem scene_setFrame (s : Store) (n : Nat) (g : Frame) :
    (s.setFrame n g).scene = s.scene.place n g.site := by
  simp [scene, setFrame, Scene.place, Array.map_setIfInBounds]

theorem place_of_site
    {c : Scene} {x : Site}
    (h : c.sites[n]? = some x) :
    c.place n x = c := by
  obtain ⟨hlt, rfl⟩ := Array.getElem?_eq_some_iff.mp h
  simp [Scene.place, Array.setIfInBounds, hlt]

theorem scene_setFrame_of_site
    (h : s.frames[n]? = some f)
    (hsite : g.site = f.site) :
    (s.setFrame n g).scene = s.scene := by
  rw [scene_setFrame, hsite]
  exact place_of_site (site_of_frame h)

theorem scene_newFrame (s : Store) (f : Frame) :
    (s.newFrame f).2.scene = { s.scene with sites := s.scene.sites.push f.site } := by
  simp [scene, newFrame]

theorem scene_newNode (s : Store) (x : EnvironmentNode) :
    (s.newNode x).2.scene = { s.scene with tasks := s.scene.tasks.push x.task } := by
  simp [scene, newNode]

theorem size_tasks_scene (s : Store) : s.scene.tasks.size = s.nodes.size := by
  simp [scene]

theorem scene_setProducer (s : Store) (id : Nat) (p : Producer) :
    (s.setProducer id p).scene = s.scene := by
  simp only [scene, nodes_setProducer, frames_setProducer, size_producers_setProducer]

theorem scene_endProducer (s : Store) (id : Nat) :
    (s.endProducer id).scene = s.scene :=
  s.scene_setProducer id .ended

/-- A variable that gets a cell stays in its node. -/
theorem scene_declareAt (s : Store) (id : Nat) (name : String) (v : Value) :
    (s.declareAt id name v).2.scene = s.scene := by
  have htasks : (s.nodes.map (·.task)).setIfInBounds id (s.node id).task = s.nodes.map (·.task) := by
    refine Array.ext (by simp) ?_
    intro i _ hi
    rw [Array.getElem_setIfInBounds hi]
    split
    · rename_i heq
      subst heq
      have hlt : id < s.nodes.size := by simpa using hi
      simp [node, Array.getD_eq_getD_getElem?, hlt]
    · rfl
  have hnodes : (s.declareAt id name v).2.scene.tasks =
      (s.nodes.map (·.task)).setIfInBounds id (s.node id).task := by
    simp [declareAt, allocate, scene, node, Array.map_setIfInBounds]
  exact Scene.mk.injEq .. ▸ ⟨hnodes.trans htasks, rfl, rfl⟩

theorem scene_resolve
    {e : Environment} {name : String} {assignable : Bool} {v : Value}
    (h : s.resolve e name assignable = .ok (v, t)) :
    t.scene = s.scene := by
  unfold resolve at h
  split at h <;> cases h
  · rfl
  · rfl
  · exact scene_declareAt s _ name .nil
  · exact scene_declareAt s _ name .nil

/-! ### Instructions -/

/-- What an instruction leaves of the scene. -/
structure Rests (s : Store) (f : Frame) (x : Executed) : Prop where
  site : x.2.1.site = f.site
  scene : x.2.2.scene = s.scene

theorem rests_changed
    {e : Except Malfunction Frame}
    (hscene : t.scene = s.scene)
    (h : ∀ g, e = .ok g → g.site = f.site) :
    Rests s f (t.changed f e) := by
  cases e with
  | error m => exact ⟨rfl, hscene⟩
  | ok g => exact ⟨h g rfl, hscene⟩

theorem rests_changed_bind
    {α : Type} {e : Except Malfunction α} {put : α → Except Malfunction Frame}
    (h : ∀ a g, put a = .ok g → g.site = f.site) :
    Rests s f (s.changed f (e.bind put)) := by
  cases e with
  | error m => exact ⟨rfl, rfl⟩
  | ok a => exact rests_changed rfl (h a)

theorem rests_executeSelect (s : Store) (f : Frame) (cases : List Ir.Case) (onFail : Option Ir.Label) :
    Rests s f (s.executeSelect f cases onFail) := by
  unfold executeSelect
  split
  · exact ⟨rfl, rfl⟩
  · rename_i waits _
    have hchoose : (s.choose waits).2.scene = s.scene :=
      scene_of_eq (s.nodes_choose waits) (s.activity_choose waits)
    split <;> rename_i heq <;> rw [heq] at hchoose
    · exact ⟨rfl, hchoose⟩
    · exact ⟨rfl, hchoose⟩
    · split
      · unfold storeReceived
        split
        · exact ⟨rfl, hchoose⟩
        · split
          · rename_i hset
            exact ⟨Frame.site_put hset, hchoose⟩
          · exact ⟨rfl, hchoose⟩
      · exact ⟨rfl, hchoose⟩
      · exact ⟨rfl, hchoose⟩

theorem rests_execute
    (s : Store) (f : Frame) {i : Ir.Instruction}
    (h : i.isScenic = false) :
    Rests s f (s.execute f i) := by
  have hset : ∀ (target : Nat) (v : Value) (g : Frame), f.set target v = .ok g → g.site = f.site :=
    fun target v g => Frame.site_put
  cases i with
  | enter scope names dynamics => cases h
  | leave scope => cases h
  | create target entry => cases h
  | literal target value => exact rests_changed rfl (hset target _)
  | name target name => exact rests_changed_bind (hset target)
  | move target source => exact rests_changed_bind (hset target)
  | deref target source => exact rests_changed_bind fun v => hset target _
  | moveLabel target label => exact rests_changed rfl fun g => Frame.site_put
  | dynamic target name assignable =>
      simp only [execute]
      split
      · rename_i hresolve
        exact rests_changed (scene_resolve hresolve) (hset target _)
      · exact ⟨rfl, rfl⟩
  | field target record field assignable onFail =>
      simp only [execute, executeField]
      split
      · exact ⟨rfl, rfl⟩
      · split
        · split
          · exact rests_changed rfl (hset target _)
          · exact ⟨rfl, rfl⟩
        · exact ⟨rfl, rfl⟩
  | resume d source =>
      simp only [execute]
      split
      · rename_i htake
        exact ⟨Frame.site_takeNext htake, rfl⟩
      · exact ⟨rfl, rfl⟩
  | succeed value again =>
      cases value with
      | none => exact ⟨rfl, rfl⟩
      | some slot =>
          simp only [execute]
          split <;> exact ⟨rfl, rfl⟩
  | indirect source targets =>
      simp only [execute]
      split
      · exact ⟨rfl, rfl⟩
      · split <;> exact ⟨rfl, rfl⟩
  | select cases onFail => exact rests_executeSelect s f cases onFail
  | goto target => exact ⟨rfl, rfl⟩
  | fail => exact ⟨rfl, rfl⟩
  | exhaust => exact ⟨rfl, rfl⟩
  | coordinate coord => exact ⟨rfl, rfl⟩
  | _ =>
      simp only [execute]
      split <;> exact ⟨rfl, rfl⟩

theorem next_enter
    (h : s.frames[n]? = some f)
    (scope : String) (names dynamics : List String) :
    s.scene.Next
      ((s.enterScope f scope names dynamics).2.setFrame n (s.enterScope f scope names dynamics).1).scene := by
  have hsite := site_of_frame h
  have hshadow : (s.shadow f.vars names).2.2.scene = s.scene :=
    scene_of_eq (s.nodes_shadow f.vars names) (s.activity_shadow f.vars names)
  rw [scene_setFrame]
  unfold enterScope
  dsimp only
  split
  · rw [hshadow]
    exact .enter hsite
  · have hsize : (s.shadow f.vars names).2.2.nodes.size = s.scene.tasks.size := by
      rw [nodes_shadow, size_tasks_scene]
    have htask : (s.shadow f.vars names).2.2.taskOf f.environment = s.scene.taskOf f.environment := by
      rw [← taskOf_scene, hshadow]
    simp only [nestedEnvironment, scene_newNode, hshadow, htask]
    simp only [newNode, hsize]
    exact .nest hsite

theorem next_leave
    (h : s.frames[n]? = some f)
    (scope : String) :
    s.scene.Changes (s.setFrame n (f.leaveScope scope).2).scene := by
  have hsite := site_of_frame h
  rw [scene_setFrame]
  cases hscopes : f.scopes with
  | nil =>
      have hsame : (f.leaveScope scope).2 = f := by simp [Frame.leaveScope, hscopes]
      rw [hsame]
      exact Or.inl (place_of_site hsite)
  | cons x rest =>
      have hsaved : f.site.saved = x.outer :: rest.map (·.outer) := by simp [Frame.site, hscopes]
      right
      by_cases hname : x.name = scope
      · have hleft : (f.leaveScope scope).2.site = ⟨x.outer.getD f.site.environment, rest.map (·.outer)⟩ := by
          simp [Frame.leaveScope, hscopes, hname, Frame.site]
        rw [hleft]
        exact .leave hsite hsaved
      · have hleft : (f.leaveScope scope).2.site = ⟨f.site.environment, rest.map (·.outer)⟩ := by
          simp [Frame.leaveScope, hscopes, hname, Frame.site]
        rw [hleft]
        exact .drop hsite hsaved

/-- The copy of a frame restores what the frame restores. -/
theorem outers_duplicateScopes (s : Store) (l : List Scope) :
    (s.duplicateScopes l).1.map (·.outer) = l.map (·.outer) := by
  induction l generalizing s with
  | nil => rfl
  | cons scope rest ih => simp [duplicateScopes, ih]

theorem scene_createProducer
    {entry : Ir.Label} {v : Value}
    (hcreate : s.createProducer f entry = .ok (v, t)) :
    t.scene =
      { tasks := s.scene.tasks.push (s.scene.count + 1)
        sites := s.scene.sites.push ⟨s.scene.tasks.size :: f.environment, f.site.saved⟩
        count := s.scene.count + 1 } := by
  unfold createProducer at hcreate
  split at hcreate
  · simp only [Except.ok.injEq, Prod.mk.injEq] at hcreate
    obtain ⟨-, rfl⟩ := hcreate
    let node := s.taskEnvironment f.environment (s.producers.size + 1)
    let copy := node.2.duplicateFrame f node.1
    have hnode : node.2.scene = { s.scene with tasks := s.scene.tasks.push (s.scene.count + 1) } :=
      s.scene_newNode ⟨s.producers.size + 1, []⟩
    have hcopy : copy.2.scene = node.2.scene :=
      scene_of_eq (node.2.nodes_duplicateFrame f node.1) (node.2.activity_duplicateFrame f node.1)
    have hsite : copy.1.site = ⟨s.scene.tasks.size :: f.environment, f.site.saved⟩ := by
      rw [size_tasks_scene]
      exact congrArg (Site.mk _) (outers_duplicateScopes _ f.scopes)
    have hframe := copy.2.scene_newFrame copy.1
    rw [hcopy, hnode, hsite] at hframe
    have hcount : (copy.2.newFrame copy.1).2.producers.size = s.scene.count :=
      congrArg Scene.count hframe
    simp only [scene, Scene.mk.injEq] at hframe ⊢
    refine ⟨hframe.1, hframe.2.1, ?_⟩
    rw [Array.size_push]
    exact congrArg (· + 1) hcount
  · cases hcreate

/-- Storing the value of the new co-expression in the frame that has created it changes nothing more. -/
theorem scene_created
    {entry : Ir.Label} {v : Value}
    (h : s.frames[n]? = some f)
    (hcreate : s.createProducer f entry = .ok (v, t))
    (hsite : g.site = f.site) :
    (t.setFrame n g).scene = t.scene := by
  have hn := site_of_frame h
  obtain ⟨hlt, -⟩ := Array.getElem?_eq_some_iff.mp hn
  have hkept : t.scene.sites[n]? = some f.site := by
    rw [scene_createProducer hcreate, Array.getElem?_push, if_neg (Nat.ne_of_lt hlt)]
    exact hn
  rw [scene_setFrame, hsite, place_of_site hkept]

theorem next_create
    {entry : Ir.Label} {v : Value}
    (h : s.frames[n]? = some f)
    (hcreate : s.createProducer f entry = .ok (v, t))
    (hsite : g.site = f.site) :
    s.scene.Next (t.setFrame n g).scene := by
  rw [scene_created h hcreate hsite, scene_createProducer hcreate]
  exact .create (site_of_frame h)

end Store

/-! ## Machines -/

namespace Machine

variable {s t : Store} {f g : Frame} {n : Nat}

theorem scene_halt (s : Store) (stack : List Context) (h : Halt) :
    (halt s stack h).store.scene = s.scene := by
  unfold halt
  split
  · exact s.scene_setProducer _ .ended
  · rfl

theorem scene_reply (s : Store) (stack : List Context) (r : Reply) :
    (reply s stack r).store.scene = s.scene := by
  cases r with
  | outcome o => rfl
  | fault f => rfl
  | halt h => exact scene_halt s stack h

theorem starts_enter
    (s : Store) (stack : List Context) (environment : Environment) (p : Procedure)
    (args : List Value) (names : List String) :
    Scene.Starts environment s.scene (enter s stack environment p args names).store.scene := by
  have hbind : (s.bindArguments p.code args names).2.scene = s.scene :=
    Store.scene_of_eq (s.nodes_bindArguments p.code args names) (s.activity_bindArguments p.code args names)
  unfold enter
  split
  · exact Or.inl rfl
  · right
    have hframe := (s.bindArguments p.code args names).2.scene_newFrame
      (.new environment p args (s.bindArguments p.code args names).1)
    rw [hbind] at hframe
    dsimp only
    split
    · exact hframe
    · rw [store_leave]
      exact hframe

theorem scene_builtin (s : Store) (b : Builtin) (args : List Value) :
    (s.builtin b args).2.scene = s.scene := by
  rcases s.activity_builtin b args with hsame | ⟨-, id, -, -, hend⟩
  · exact Store.scene_of_eq (s.nodes_builtin b args) hsame
  · rw [hend]
    exact s.scene_endProducer id

theorem starts_call
    (s : Store) (stack : List Context) (environment : Environment) (callee : Value)
    (args : List Value) (names : List String) :
    Scene.Starts environment s.scene (call s stack environment callee args names).store.scene := by
  have hcalled := called_call s stack environment callee args names
  generalize call s stack environment callee args names = m at hcalled ⊢
  cases hcalled with
  | procedure => exact starts_enter s stack environment _ args names
  | record hconstruct =>
      exact Or.inl (Store.scene_of_eq (Store.nodes_construct hconstruct) (Store.activity_construct hconstruct))
  | @builtin _ b => exact Or.inl ((scene_reply _ stack _).trans (scene_builtin s b _))
  | _ => exact Or.inl rfl

/-- A fault calls a recovery procedure in the environment of its frame, or nothing. -/
theorem changes_fault (s : Store) (stack : List Context) (n : Nat) (r : Raised) :
    s.scene.Changes (fault s stack n r).store.scene := by
  have hfaulted := faulted_fault s stack n r
  generalize fault s stack n r = m at hfaulted ⊢
  cases hfaulted with
  | bare => exact Or.inl rfl
  | absent => exact Or.inl rfl
  | passed hbare hf =>
      rw [store_leave]
      exact Or.inl (Store.scene_setFrame_of_site hf rfl)
  | @caught f cause offending handler hbare hf hfault hrecovery =>
      have hset := Store.scene_setFrame_of_site (g := { f.noting r.fault with recovery := none }) hf rfl
      rcases starts_call (s.setFrame n { f.noting r.fault with recovery := none })
        (.recovering n :: stack) f.environment handler (cause.value :: offending) [] with h | h
      · exact Or.inl (h.trans hset)
      · right
        rw [h, hset]
        exact .call (Store.site_of_frame hf)

theorem scene_deliver
    (s : Store) (stack : List Context) (n : Nat) (label : Ir.Label) (rest : List Ir.Instruction)
    (d : Ir.Destination) (o : Outcome) :
    (deliver s stack n label rest d o).store.scene = s.scene := by
  unfold deliver
  split
  · rfl
  · rename_i f hf
    split
    · rw [store_malfunction]
    · rename_i g hg
      rw [store_failed]
      exact Store.scene_setFrame_of_site hf (site_storeOutcome hg)
    · rename_i g _ hg
      exact Store.scene_setFrame_of_site hf (site_storeOutcome hg)

theorem scene_activate (s : Store) (stack : List Context) (id : Nat) :
    (activate s stack id).store.scene = s.scene := by
  unfold activate
  split
  · rw [store_jump]
    exact s.scene_setProducer id .running
  · rw [store_jump]
    exact s.scene_setProducer id .running
  · exact scene_halt s stack .blocked
  · rfl

theorem scene_invoke (s : Store) (stack : List Context) (op : String) (args : List Value) :
    (invoke s stack op args).store.scene = s.scene := by
  have hinvoke : (s.invoke op args).2.scene = s.scene :=
    Store.scene_of_eq (s.nodes_invoke op args) (s.activity_invoke op args)
  unfold invoke
  split <;> rename_i heq <;> rw [heq] at hinvoke
  · exact (scene_reply _ stack _).trans hinvoke
  · exact (scene_activate _ stack _).trans hinvoke

/-- What an instruction has asked for changes the scene by a call only. -/
theorem changes_perform
    (hf : s.frames[n]? = some f)
    (stack : List Context) (label : Ir.Label) (rest : List Ir.Instruction) (e : Effect) :
    s.scene.Changes (perform s stack n label rest f.environment e).store.scene := by
  cases e with
  | next => exact Or.inl rfl
  | goto target => exact Or.inl (by rw [perform, store_jump])
  | failed onFail => exact Or.inl (by rw [perform, store_failed])
  | succeed v again => cases again <;> exact Or.inl rfl
  | call d callee args names =>
      rcases starts_call s (.awaiting n label rest d :: stack) f.environment callee args names with h | h
      · exact Or.inl h
      · right
        rw [perform, h]
        exact .call (Store.site_of_frame hf)
  | operator d op args => exact Or.inl (scene_invoke s _ op args)
  | resume d k =>
      cases k with
      | none => exact Or.inl rfl
      | some k => exact Or.inl (by rw [perform, store_resume])
  | produce v again =>
      simp only [perform]
      split
      · exact Or.inl (s.scene_setProducer _ _)
      · exact Or.inl (by rw [store_malfunction])
  | exhaust =>
      simp only [perform]
      split
      · exact Or.inl rfl
      · exact Or.inl (by rw [store_malfunction])
  | halt reason => exact Or.inl (scene_halt s stack reason)
  | fault x => exact changes_fault s stack n ⟨x, []⟩

/-- An instruction that changes the scene asks for nothing more. -/
theorem changes_running
    (hf : s.frames[n]? = some f)
    (stack : List Context) (label : Ir.Label) (i : Ir.Instruction) (rest : List Ir.Instruction) :
    s.scene.Changes (step ⟨s, stack, .running n label (i :: rest)⟩).store.scene := by
  cases hscenic : i.isScenic with
  | false =>
      obtain ⟨hsite, hscene⟩ := s.rests_execute f hscenic
      have ht := s.getElem?_frames_execute f i hf
      have hchanges := changes_perform (Store.getElem?_frames_setFrame_self ht (s.execute f i).2.1) stack label
        rest (s.execute f i).1
      rw [Store.scene_setFrame_of_site ht hsite, hscene] at hchanges
      simp only [step, advance, hf]
      exact hchanges
  | true =>
      simp only [step, advance, hf]
      cases i with
      | enter scope names dynamics => exact Or.inr (Store.next_enter hf scope names dynamics)
      | leave scope =>
          have hleave := Store.next_leave hf scope
          simp only [Store.execute]
          split <;> rename_i heq <;> rw [heq] at hleave
          · exact hleave
          · rename_i m g
            rw [← store_malfunction (s.setFrame n g) stack n m] at hleave
            exact hleave
      | create target entry =>
          simp only [Store.execute]
          split
          · rename_i v t hcreate
            cases hset : f.set target v with
            | ok g => exact Or.inr (Store.next_create hf hcreate (Frame.site_put hset))
            | error m =>
                have hcreated := Store.next_create hf hcreate (g := f) rfl
                rw [← store_malfunction (t.setFrame n f) stack n m] at hcreated
                exact Or.inr hcreated
          · rw [Store.setFrame_of_getElem? hf]
            exact changes_fault s stack n _
      | _ => cases hscenic

theorem changes_step (m : Machine) : m.store.scene.Changes m.step.store.scene := by
  obtain ⟨s, stack, control⟩ := m
  cases control with
  | running n label rest =>
      cases hf : s.frames[n]? with
      | none =>
          simp only [step, advance, hf]
          exact Or.inl rfl
      | some f =>
          cases rest with
          | nil =>
              simp only [step, advance, hf, store_malfunction]
              exact Or.inl rfl
          | cons i rest => exact changes_running hf stack label i rest
  | halted reason => exact Or.inl rfl
  | aborted r => exact Or.inl rfl
  | returning o =>
      cases stack with
      | nil => exact Or.inl rfl
      | cons c stack =>
          cases c with
          | awaiting n label rest d => exact Or.inl (scene_deliver s stack n label rest d o)
          | recovering n => exact Or.inl rfl
          | bare => exact Or.inl rfl
          | consuming id => exact Or.inl (s.scene_endProducer id)
  | raising r =>
      cases stack with
      | nil => exact Or.inl rfl
      | cons c stack =>
          cases c with
          | awaiting n label rest d => exact changes_fault s stack n r
          | recovering n => exact Or.inl (congrArg Store.scene (store_leave s stack n r))
          | bare => exact Or.inl rfl
          | consuming id => exact Or.inl (s.scene_endProducer id)

end Machine

end Scene

end GoalDirected
