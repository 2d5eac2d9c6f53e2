import GoalDirected.Proofs.Coexpression.Storage
import GoalDirected.Proofs.Machine.Scene

/-!
# Tasks and their environments

**Input.** A course that creates a co-expression, and what becomes of it as long as the co-expression does not leave
the dynamic scopes of its creator.

**Argument.** The frame of a co-expression starts in an environment of a new task, but the scopes that it has
copied restore environments of its creator.  As long as these are open, all environments that it can come back to
are of its task.  The other frames never come to know a node of that task, as new nodes have the task of
the environment that they extend.

**Results.**
* `Scene.Step.ordered`, `Scene.Step.ignores`, `Scene.Step.holds`: what every step keeps of a scene.
* `keeps_environment`: the frame of a co-expression looks up dynamic variables in its own task, and makes them there,
  where the frames that were there before do not see them.
* `leaves_environment`: having left a dynamic scope of its creator, it makes them in the task of its creator.
-/

namespace GoalDirected

section Tasks

/-- All nodes that a frame knows, now or after leaving its scopes. -/
def Site.nodes (x : Site) : List Nat :=
  x.environment ++ x.saved.flatMap fun o => o.getD []

theorem Site.mem_nodes_of_environment
    {x : Site} {id : Nat}
    (h : id ∈ x.environment) :
    id ∈ x.nodes :=
  List.mem_append_left _ h

/-- The scopes of a frame from the innermost one with dynamic variables on. -/
def Frame.dynamicScopes (f : Frame) : List Scope :=
  f.scopes.dropWhile (·.outer.isNone)

/-! ## Scenes -/

namespace Scene

variable {c d : Scene} {x : Site} {n id k : Nat}

/-- Every frame knows existing nodes only. -/
def IsSited (c : Scene) : Prop :=
  ∀ x ∈ c.sites, ∀ id ∈ x.nodes, id < c.tasks.size

instance (c : Scene) : Decidable c.IsSited :=
  inferInstanceAs (Decidable (∀ x ∈ c.sites, ∀ id ∈ x.nodes, id < c.tasks.size))

/-- A step of a machine, or the start of a frame in an environment that is there. -/
def Step (c d : Scene) : Prop :=
  c.Changes d ∨ ∃ e : Environment, (∀ id ∈ e, id < c.tasks.size) ∧ d = c.start e

/-- The tasks of nodes are those of co-expressions, and frames know existing nodes only. -/
structure Ordered (c : Scene) : Prop where
  counted : ∀ id, c.task id ≤ c.count
  sited : c.IsSited

theorem task_push (c : Scene) (t : Nat) (sites : Array Site) (count id : Nat) :
    task ⟨c.tasks.push t, sites, count⟩ id = if id = c.tasks.size then t else c.task id := by
  simp only [task, Array.getD_eq_getD_getElem?, Array.getElem?_push]
  split <;> rfl

theorem task_push_of_lt
    (h : id < c.tasks.size)
    (t : Nat) (sites : Array Site) (count : Nat) :
    task ⟨c.tasks.push t, sites, count⟩ id = c.task id := by
  rw [task_push, if_neg (Nat.ne_of_lt h)]

theorem mem_place
    {y : Site}
    (h : y ∈ (c.place n x).sites) :
    y ∈ c.sites ∨ y = x :=
  Array.mem_or_eq_of_mem_setIfInBounds h

theorem taskOf_le
    (h : c.Ordered)
    (e : Environment) :
    c.taskOf e ≤ c.count := by
  cases e with
  | nil => exact Nat.zero_le _
  | cons id outer => exact h.counted id

/-- Nodes stay, and so do their tasks. -/
structure Keeps (c d : Scene) : Prop where
  size : c.tasks.size ≤ d.tasks.size
  task : ∀ id < c.tasks.size, d.task id = c.task id

theorem Keeps.taskOf
    (h : Keeps c d)
    {e : Environment}
    (he : ∀ id ∈ e, id < c.tasks.size) :
    d.taskOf e = c.taskOf e := by
  cases e with
  | nil => rfl
  | cons id outer => exact h.task id (he id List.mem_cons_self)

theorem Step.kept
    (h : c.Step d) :
    Keeps c d := by
  have hpush : ∀ (t : Nat) (sites : Array Site) (count : Nat), Keeps c ⟨c.tasks.push t, sites, count⟩ := by
    intro t sites count
    refine ⟨?_, fun id hid => task_push_of_lt hid t sites count⟩
    rw [Array.size_push]
    exact Nat.le_succ _
  rcases h with (rfl | hnext) | ⟨e, -, rfl⟩
  · exact ⟨Nat.le_refl _, fun _ _ => rfl⟩
  · cases hnext with
    | enter hsite => exact ⟨Nat.le_refl _, fun _ _ => rfl⟩
    | nest hsite => exact hpush _ _ _
    | leave hsite hsaved => exact ⟨Nat.le_refl _, fun _ _ => rfl⟩
    | drop hsite hsaved => exact ⟨Nat.le_refl _, fun _ _ => rfl⟩
    | call hsite => exact ⟨Nat.le_refl _, fun _ _ => rfl⟩
    | create hsite => exact hpush _ _ _
  · exact ⟨Nat.le_refl _, fun _ _ => rfl⟩

/-- What can become of the site of a frame. -/
inductive Shift (c d : Scene) (x : Site) : Site → Prop
  | same : Shift c d x x
  | enter : Shift c d x ⟨x.environment, none :: x.saved⟩
  | nest
      (hsize : c.tasks.size < d.tasks.size)
      (htask : d.task c.tasks.size = c.taskOf x.environment) :
      Shift c d x ⟨c.tasks.size :: x.environment, some x.environment :: x.saved⟩
  | leave
      {o : Option Environment} {rest : List (Option Environment)}
      (hsaved : x.saved = o :: rest) :
      Shift c d x ⟨o.getD x.environment, rest⟩
  | drop
      {o : Option Environment} {rest : List (Option Environment)}
      (hsaved : x.saved = o :: rest) :
      Shift c d x ⟨x.environment, rest⟩

theorem sites_place
    {y z : Site} {m : Nat}
    (hy : c.sites[m]? = some y)
    (hx : c.sites[n]? = some x) :
    (m = n ∧ y = x ∧ (c.place m z).sites[n]? = some z) ∨ (c.place m z).sites[n]? = some x := by
  obtain ⟨hlt, -⟩ := Array.getElem?_eq_some_iff.mp hy
  by_cases hmn : m = n
  · subst hmn
    exact Or.inl ⟨rfl, Option.some.inj (hy.symm.trans hx), by simp [place, hlt]⟩
  · right
    rw [← hx]
    exact Array.getElem?_setIfInBounds_ne hmn

theorem sites_push
    (hx : c.sites[n]? = some x)
    (y : Site) :
    (c.sites.push y)[n]? = some x := by
  obtain ⟨hlt, -⟩ := Array.getElem?_eq_some_iff.mp hx
  rw [Array.getElem?_push, if_neg (Nat.ne_of_lt hlt)]
  exact hx

/-- A step shifts the sites of the frames that are there. -/
theorem Step.site
    (h : c.Step d)
    (hx : c.sites[n]? = some x) :
    ∃ y, d.sites[n]? = some y ∧ Shift c d x y := by
  rcases h with (rfl | hnext) | ⟨e, -, rfl⟩
  · exact ⟨x, hx, .same⟩
  · cases hnext with
    | enter hsite =>
        rcases sites_place hsite hx with ⟨rfl, rfl, h⟩ | h
        · exact ⟨_, h, .enter⟩
        · exact ⟨_, h, .same⟩
    | nest hsite =>
        rcases sites_place hsite hx with ⟨rfl, rfl, h⟩ | h
        · exact ⟨_, h, .nest (by simp) (by simp [task_push, place])⟩
        · exact ⟨_, h, .same⟩
    | leave hsite hsaved =>
        rcases sites_place hsite hx with ⟨rfl, rfl, h⟩ | h
        · exact ⟨_, h, .leave hsaved⟩
        · exact ⟨_, h, .same⟩
    | drop hsite hsaved =>
        rcases sites_place hsite hx with ⟨rfl, rfl, h⟩ | h
        · exact ⟨_, h, .drop hsaved⟩
        · exact ⟨_, h, .same⟩
    | call hsite => exact ⟨x, sites_push hx _, .same⟩
    | create hsite => exact ⟨x, sites_push hx _, .same⟩
  · exact ⟨x, sites_push hx _, .same⟩

/-- A frame comes to know one node at most, which is new and has the task of its environment. -/
theorem Shift.nodes
    {y : Site}
    (h : Shift c d x y)
    (hid : id ∈ y.nodes) :
    id ∈ x.nodes ∨
      id = c.tasks.size ∧ c.tasks.size < d.tasks.size ∧ d.task id = c.taskOf x.environment := by
  cases h with
  | same => exact Or.inl hid
  | enter => exact Or.inl (by simpa [Site.nodes] using hid)
  | nest hsize htask =>
      simp only [Site.nodes, List.cons_append, List.mem_cons, List.flatMap_cons, Option.getD_some,
        List.mem_append] at hid
      rcases hid with rfl | hid | hid | hid
      · exact Or.inr ⟨rfl, hsize, htask⟩
      · exact Or.inl (List.mem_append_left _ hid)
      · exact Or.inl (List.mem_append_left _ hid)
      · exact Or.inl (List.mem_append_right _ hid)
  | @leave o rest hsaved =>
      left
      cases o with
      | none =>
          simp only [Site.nodes, hsaved, Option.getD_none, List.flatMap_cons, List.nil_append] at hid ⊢
          exact hid
      | some e =>
          simp only [Site.nodes, hsaved, Option.getD_some, List.flatMap_cons] at hid ⊢
          exact List.mem_append_right _ hid
  | drop hsaved =>
      left
      simp only [Site.nodes, hsaved, List.flatMap_cons, List.mem_append] at hid ⊢
      exact hid.imp_right Or.inr

/-- What frames know is there. -/
theorem Step.sited
    (h : c.Step d)
    (hsited : c.IsSited) :
    d.IsSited := by
  have hsize := h.kept.size
  have hplace : ∀ {n : Nat} {x z : Site}, c.sites[n]? = some x → Shift c d x z →
      d.sites = (c.place n z).sites → d.IsSited := by
    intro n x z hx hshift hsites y hy id hid
    rcases mem_place (hsites ▸ hy) with hold | rfl
    · exact Nat.lt_of_lt_of_le (hsited y hold id hid) hsize
    · rcases hshift.nodes hid with hold | ⟨rfl, hlt, -⟩
      · exact Nat.lt_of_lt_of_le (hsited x (Array.mem_of_getElem? hx) id hold) hsize
      · exact hlt
  have hpush : ∀ {z : Site}, (∀ id ∈ z.nodes, id < d.tasks.size) → d.sites = c.sites.push z → d.IsSited := by
    intro z hz hsites y hy id hid
    rcases Array.mem_push.mp (hsites ▸ hy) with hold | rfl
    · exact Nat.lt_of_lt_of_le (hsited y hold id hid) hsize
    · exact hz id hid
  have hstart : ∀ e : Environment, (∀ id ∈ e, id < c.tasks.size) →
      ∀ id ∈ Site.nodes ⟨e, []⟩, id < c.tasks.size := by
    intro e he id hid
    exact he id (by simpa [Site.nodes] using hid)
  rcases h with (rfl | hnext) | ⟨e, he, rfl⟩
  · exact hsited
  · cases hnext with
    | enter hsite => exact hplace hsite .enter rfl
    | nest hsite => exact hplace hsite (.nest (by simp) (by simp [task_push, place])) rfl
    | leave hsite hsaved => exact hplace hsite (.leave hsaved) rfl
    | drop hsite hsaved => exact hplace hsite (.drop hsaved) rfl
    | call hsite =>
        refine hpush (hstart _ fun id hid => ?_) rfl
        exact hsited _ (Array.mem_of_getElem? hsite) id (Site.mem_nodes_of_environment hid)
    | create hsite =>
        refine hpush (fun id hid => ?_) rfl
        simp only [Site.nodes, List.cons_append, List.mem_cons] at hid
        rw [Array.size_push]
        rcases hid with rfl | hid
        · exact Nat.lt_succ_self _
        · exact Nat.lt_succ_of_lt (hsited _ (Array.mem_of_getElem? hsite) id hid)
  · exact hpush (hstart e he) rfl

theorem Step.counted
    (h : c.Step d)
    (hordered : c.Ordered) :
    ∀ id, d.task id ≤ d.count := by
  have hsame : ∀ id, c.task id ≤ c.count := hordered.counted
  have hpush : ∀ {t count : Nat} (sites : Array Site), t ≤ count → c.count ≤ count →
      ∀ id, task ⟨c.tasks.push t, sites, count⟩ id ≤ count := by
    intro t count sites ht hcount id
    rw [task_push]
    split
    · exact ht
    · exact Nat.le_trans (hsame id) hcount
  rcases h with (rfl | hnext) | ⟨e, -, rfl⟩
  · exact hsame
  · cases hnext with
    | enter hsite => exact hsame
    | nest hsite => exact hpush _ (taskOf_le hordered _) (Nat.le_refl _)
    | leave hsite hsaved => exact hsame
    | drop hsite hsaved => exact hsame
    | call hsite => exact hsame
    | create hsite => exact hpush _ (Nat.le_refl _) (Nat.le_succ _)
  · exact hsame

theorem Step.ordered
    (h : c.Step d)
    (hordered : c.Ordered) :
    d.Ordered :=
  ⟨h.counted hordered, h.sited hordered.sited⟩

/-- The frame knows no node of the task. -/
def Ignores (c : Scene) (k n : Nat) : Prop :=
  ∃ x, c.sites[n]? = some x ∧ ∀ id ∈ x.nodes, c.task id ≠ k

/-- A frame that knows no node of a task does not come to know one. -/
theorem Step.ignores
    (h : c.Step d)
    (hsited : c.IsSited)
    (hk : 0 < k)
    (hn : c.Ignores k n) :
    d.Ignores k n := by
  obtain ⟨x, hx, hnone⟩ := hn
  obtain ⟨y, hy, hshift⟩ := h.site hx
  refine ⟨y, hy, ?_⟩
  intro id hid
  rcases hshift.nodes hid with hold | ⟨-, -, htask⟩
  · rw [h.kept.task id (hsited x (Array.mem_of_getElem? hx) id hold)]
    exact hnone id hold
  · rw [htask]
    cases henvironment : x.environment with
    | nil => exact Nat.ne_of_lt hk
    | cons head outer =>
        exact hnone head (Site.mem_nodes_of_environment (henvironment ▸ List.mem_cons_self))

/-- The frame is in an environment of the task, and so it will be when it has left all scopes but the given ones. -/
def Holds (c : Scene) (k n : Nat) (inherited : List (Option Environment)) : Prop :=
  ∃ x own, c.sites[n]? = some x ∧ x.saved = own ++ inherited ∧ c.taskOf x.environment = k ∧
    ∀ e, some e ∈ own → c.taskOf e = k

/-- A frame that keeps the inherited scopes open stays in its task. -/
theorem Step.holds
    {inherited : List (Option Environment)} {y : Site}
    (h : c.Step d)
    (hsited : c.IsSited)
    (hn : c.Holds k n inherited)
    (hy : d.sites[n]? = some y)
    (hopen : inherited.length ≤ y.saved.length) :
    d.Holds k n inherited := by
  obtain ⟨x, own, hx, hsaved, htask, hown⟩ := hn
  obtain ⟨y', hy', hshift⟩ := h.site hx
  cases hy.symm.trans hy'
  have hmem : ∀ id ∈ x.nodes, id < c.tasks.size := hsited x (Array.mem_of_getElem? hx)
  have henvironment : d.taskOf x.environment = k := by
    rw [h.kept.taskOf fun id hid => hmem id (Site.mem_nodes_of_environment hid)]
    exact htask
  have hkept : ∀ e, some e ∈ own → d.taskOf e = k := by
    intro e he
    rw [h.kept.taskOf, hown e he]
    intro id hid
    refine hmem id (List.mem_append_right _ (List.mem_flatMap.mpr ⟨some e, ?_, hid⟩))
    rw [hsaved]
    exact List.mem_append_left _ he
  cases hshift with
  | same => exact ⟨_, own, hy, hsaved, henvironment, hkept⟩
  | enter =>
      refine ⟨_, none :: own, hy, by rw [hsaved]; rfl, henvironment, ?_⟩
      intro e he
      exact hkept e ((List.mem_cons.mp he).resolve_left (by simp))
  | nest hsize hnew =>
      refine ⟨_, some x.environment :: own, hy, by rw [hsaved]; rfl, hnew.trans htask, ?_⟩
      intro e he
      rcases List.mem_cons.mp he with heq | he
      · cases heq
        exact henvironment
      · exact hkept e he
  | @leave o rest hhead =>
      cases own with
      | nil =>
          -- The scope that is left is an inherited one.
          rw [hsaved, List.nil_append] at hhead
          rw [hhead] at hopen
          exact absurd hopen (Nat.not_succ_le_self _)
      | cons o' own =>
          rw [hsaved, List.cons_append] at hhead
          cases hhead
          refine ⟨_, own, hy, rfl, ?_, fun e he => hkept e (List.mem_cons_of_mem _ he)⟩
          cases o with
          | none => exact henvironment
          | some e => exact hkept e List.mem_cons_self
  | @drop o rest hhead =>
      cases own with
      | nil =>
          rw [hsaved, List.nil_append] at hhead
          rw [hhead] at hopen
          exact absurd hopen (Nat.not_succ_le_self _)
      | cons o' own =>
          rw [hsaved, List.cons_append] at hhead
          cases hhead
          exact ⟨_, own, hy, rfl, henvironment, fun e he => hkept e (List.mem_cons_of_mem _ he)⟩

end Scene

/-! ## Courses -/

/-- Linking leaves the scene alone. -/
theorem Program.spares_scene : Program.Spares Store.scene :=
  ⟨fun _ _ => rfl,
    fun s namespaceName name v =>
      Store.scene_of_eq (s.nodes_declare namespaceName name v) (s.activity_declare namespaceName name v),
    fun s name => Store.scene_of_eq (s.nodes_namespaceIndex name) (s.activity_namespaceIndex name),
    fun s b entries => Store.scene_of_eq (s.nodes_bindAll b entries) (s.activity_bindAll b entries)⟩

namespace Course

variable {admits : Value → Prop} {σ τ : Course}

/-- A move in which the host calls nothing but in an environment that is there. -/
def Proceeds (admits : Value → Prop) (σ τ : Course) : Prop :=
  Move admits σ τ ∧ (σ.machine.isFinished = true → τ.machine.store.scene.IsSited)

/-- The number of scopes that a frame has open. -/
def openScopes (m : Machine) (n : Nat) : Nat :=
  (m.store.frames[n]?.map (·.scopes.length)).getD 0

/-- A move after which a frame has at least so many scopes open. -/
def ProceedsWithin (admits : Value → Prop) (n depth : Nat) (σ τ : Course) : Prop :=
  Proceeds admits σ τ ∧ depth ≤ openScopes τ.machine n

theorem scene_move
    (h : Move admits σ τ) :
    σ.machine.store.scene.Changes τ.machine.store.scene ∨
      σ.machine.isFinished = true ∧ ∃ e, τ.machine.store.scene = σ.machine.store.scene.start e := by
  have hstarts : ∀ {c d : Scene} {e : Environment}, σ.machine.isFinished = true → Scene.Starts e c d →
      c.Changes d ∨ σ.machine.isFinished = true ∧ ∃ e, d = c.start e :=
    fun hfinished hs => hs.imp Or.inl fun heq => ⟨hfinished, _, heq⟩
  cases h with
  | step m held pending => exact Or.inl m.changes_step
  | link hidle ir => exact Or.inl (Or.inl (Program.spares_scene.link _ ir))
  | call hidle hargs environment callee names =>
      exact hstarts (Machine.isFinished_of_isIdle hidle _) (Machine.starts_call ..)
  | main hidle callee args =>
      exact hstarts (Machine.isFinished_of_isIdle hidle _) (Machine.starts_call ..)
  | keep s v k held pending => exact Or.inl (Or.inl rfl)
  | resume hidle before k after => exact Or.inl (Or.inl (by rw [Machine.store_resume]))
  | prepare hidle hitem hinit =>
      exact hstarts (Machine.isFinished_of_isIdle hidle _) (Machine.starts_enter ..)
  | assign hitem hinit hvalue => exact Or.inl (Or.inl rfl)
  | settle m held pending => exact Or.inl (Or.inl rfl)

theorem Proceeds.step
    (h : Proceeds admits σ τ) :
    σ.machine.store.scene.Step τ.machine.store.scene := by
  rcases scene_move h.1 with hchanges | ⟨hfinished, e, he⟩
  · exact Or.inl hchanges
  · refine Or.inr ⟨e, ?_, he⟩
    intro id hid
    have hsited := h.2 hfinished
    rw [he] at hsited
    exact hsited ⟨e, []⟩ Array.mem_push_self id (Site.mem_nodes_of_environment hid)

theorem scene_new (maxTasks : Nat) :
    (Course.new maxTasks).machine.store.scene = ⟨#[0], #[], 0⟩ := by
  have hinstall := Program.spares_scene.install
    { nodes := #[⟨0, []⟩], namespaces := #[⟨"", []⟩], limit := max 1 maxTasks } Builtin.all
  refine hinstall.trans ?_
  simp [Store.scene]

theorem ordered_new (maxTasks : Nat) : (Course.new maxTasks).machine.store.scene.Ordered := by
  rw [scene_new]
  refine ⟨fun id => ?_, by simp [Scene.IsSited]⟩
  cases id <;> exact Nat.le_refl 0

/-- In every course whose host keeps to existing environments, tasks are those of co-expressions. -/
theorem ordered_of_proceeds
    {maxTasks : Nat}
    (h : Relation.ReflTransGen (Proceeds admits) (new maxTasks) σ) :
    σ.machine.store.scene.Ordered := by
  induction h with
  | refl => exact ordered_new maxTasks
  | tail _ hlast ih => exact hlast.step.ordered ih

/-! ### Creation -/

/-- A machine that creates a co-expression makes a node of a new task for it. -/
theorem Creates.scene
    {a : Nat} {f : Frame} {entry : Ir.Label} {m : Machine}
    (h : Creates a f entry m) :
    m.step.store.scene =
      { tasks := m.store.scene.tasks.push (m.store.scene.count + 1)
        sites := m.store.scene.sites.push ⟨m.store.scene.tasks.size :: f.environment, f.site.saved⟩
        count := m.store.scene.count + 1 } := by
  obtain ⟨v, t, g, hcreate, hstore, hg⟩ := h.store
  have hsite : g.site = f.site := by
    rcases hg with rfl | ⟨target, hset⟩
    · rfl
    · exact Frame.site_put hset
  rw [hstore, Store.scene_created h.frame hcreate hsite]
  exact Store.scene_createProducer hcreate

/-- At its creation, the frame of the co-expression is in a new task, which no other frame knows. -/
theorem Creates.holds
    {a : Nat} {f : Frame} {entry : Ir.Label} {m : Machine}
    (h : Creates a f entry m)
    (hordered : m.store.scene.Ordered) :
    m.step.store.scene.Holds (m.store.producers.size + 1) m.store.frames.size
        (f.dynamicScopes.map (·.outer)) ∧
      (∀ n < m.store.frames.size, m.step.store.scene.Ignores (m.store.producers.size + 1) n) ∧
      ∀ id < m.store.nodes.size, m.step.store.scene.task id ≠ m.store.producers.size + 1 := by
  have hsize : m.store.scene.sites.size = m.store.frames.size := by simp [Store.scene]
  have hnodes := m.store.size_tasks_scene
  have hold : ∀ id < m.store.scene.tasks.size, m.step.store.scene.task id ≠ m.store.producers.size + 1 := by
    intro id hid
    rw [h.scene, Scene.task_push_of_lt hid]
    exact Nat.ne_of_lt (Nat.lt_succ_of_le (hordered.counted id))
  refine ⟨?_, ?_, fun id hid => hold id (hnodes ▸ hid)⟩
  · refine ⟨⟨m.store.scene.tasks.size :: f.environment, f.site.saved⟩,
      (f.scopes.takeWhile (·.outer.isNone)).map (·.outer), ?_, ?_, ?_, ?_⟩
    · rw [h.scene, ← hsize]
      exact Array.getElem?_push_size
    · rw [Frame.dynamicScopes, ← List.map_append, List.takeWhile_append_dropWhile]
      rfl
    · rw [h.scene, Scene.taskOf, Scene.task_push, if_pos rfl]
      rfl
    · intro e he
      obtain ⟨scope, hscope, houter⟩ := List.mem_map.mp he
      have hnone := List.all_eq_true.mp List.all_takeWhile scope hscope
      rw [houter] at hnone
      cases hnone
  · intro n hn
    rw [← hsize] at hn
    refine ⟨m.store.scene.sites[n], ?_, ?_⟩
    · rw [h.scene]
      exact Scene.sites_push (Array.getElem?_eq_getElem hn) _
    · exact fun id hid => hold id (hordered.sited _ (Array.getElem_mem hn) id hid)

/-- A co-expression with its task, and what was there before it. -/
structure Newcomer where
  task : Nat
  frame : Nat
  /-- What the dynamic scopes of the creator restore. -/
  inherited : List (Option Environment)
  /-- The number of nodes that are older. -/
  nodes : Nat

/-- The frame of the co-expression is in its task, of which older frames and nodes have no part. -/
structure Newcomer.Apart (x : Newcomer) (c : Scene) : Prop where
  ordered : c.Ordered
  positive : 0 < x.task
  holds : c.Holds x.task x.frame x.inherited
  ignores : ∀ n < x.frame, c.Ignores x.task n
  within : x.nodes ≤ c.tasks.size
  older : ∀ id < x.nodes, c.task id ≠ x.task

/-- Moves keep a co-expression apart, as long as its frame keeps the inherited scopes open. -/
theorem ProceedsWithin.apart
    {x : Newcomer}
    (h : ProceedsWithin admits x.frame x.inherited.length σ τ)
    (hapart : x.Apart σ.machine.store.scene) :
    x.Apart τ.machine.store.scene := by
  obtain ⟨hproceeds, hopen⟩ := h
  have hstep := hproceeds.step
  have hsited := hapart.ordered.sited
  refine ⟨hstep.ordered hapart.ordered, hapart.positive, ?_, ?_, ?_, ?_⟩
  · obtain ⟨y, -, hy, -⟩ := hapart.holds
    obtain ⟨z, hz, -⟩ := hstep.site hy
    refine hstep.holds hsited hapart.holds hz ?_
    rw [Store.sites_scene] at hz
    obtain ⟨g, hg, rfl⟩ := Option.map_eq_some_iff.mp hz
    simpa [openScopes, hg, Frame.site] using hopen
  · exact fun n hn => hstep.ignores hsited hapart.positive (hapart.ignores n hn)
  · exact Nat.le_trans hapart.within hstep.kept.size
  · intro id hid
    rw [hstep.kept.task id (Nat.lt_of_lt_of_le hid hapart.within)]
    exact hapart.older id hid

theorem Newcomer.Apart.runs
    {x : Newcomer}
    (hapart : x.Apart σ.machine.store.scene)
    (hrun : Relation.ReflTransGen (ProceedsWithin admits x.frame x.inherited.length) σ τ) :
    x.Apart τ.machine.store.scene := by
  induction hrun with
  | refl => exact hapart
  | tail _ hlast ih => exact hlast.apart ih

/-- The co-expression that a machine creates. -/
def newcomer (m : Machine) (f : Frame) : Newcomer :=
  ⟨m.store.producers.size + 1, m.store.frames.size, f.dynamicScopes.map (·.outer), m.store.nodes.size⟩

theorem Creates.apart
    {a : Nat} {f : Frame} {entry : Ir.Label} {m : Machine}
    (h : Creates a f entry m)
    (hordered : m.store.scene.Ordered) :
    (newcomer m f).Apart m.step.store.scene := by
  have hstep : m.store.scene.Step m.step.store.scene := Or.inl m.changes_step
  obtain ⟨hholds, hignores, holder⟩ := h.holds hordered
  refine ⟨hstep.ordered hordered, Nat.succ_pos _, hholds, hignores, ?_, holder⟩
  rw [newcomer, ← m.store.size_tasks_scene]
  exact hstep.kept.size

/-! ### Variables -/

/-- The place of a variable that is declared nowhere is made in the innermost node of the frame. -/
theorem nodes_step_dynamic
    {m : Machine} {n : Nat} {f : Frame} {label : Ir.Label} {target : Ir.Slot} {name : String}
    {rest : List Ir.Instruction}
    (hcontrol : m.control = .running n label (.dynamic target name true :: rest))
    (hf : m.store.frames[n]? = some f)
    (hnone : m.store.declaring? name f.environment = none) :
    m.step.store.nodes = (m.store.declareAt (f.environment.headD 0) name .nil).2.nodes := by
  obtain ⟨s, stack, control⟩ := m
  subst hcontrol
  have hexecute : s.execute f (.dynamic target name true) =
      (s.declareAt (f.environment.headD 0) name .nil).2.changed f (f.set target (.ref s.cells.size)) := by
    simp only [Store.execute, Store.resolve_of_undeclared hnone]
  cases hset : f.set target (.ref s.cells.size) with
  | ok g =>
      rw [hset] at hexecute
      rw [Machine.step_running hf hexecute]
      rfl
  | error e =>
      rw [hset] at hexecute
      rw [Machine.step_running hf hexecute]
      have hstore := Machine.store_malfunction
        ((s.declareAt (f.environment.headD 0) name .nil).2.setFrame n f) stack n e
      have hnodes := congrArg Store.nodes hstore
      exact hnodes

/-- The variable is in that node afterwards, and the other nodes are as they were. -/
theorem declares_step_dynamic
    {m : Machine} {n id : Nat} {f : Frame} {outer : Environment} {label : Ir.Label} {target : Ir.Slot}
    {name : String} {rest : List Ir.Instruction}
    (hcontrol : m.control = .running n label (.dynamic target name true :: rest))
    (hf : m.store.frames[n]? = some f)
    (hnone : m.store.declaring? name f.environment = none)
    (hhead : f.environment = id :: outer)
    (hid : id < m.store.nodes.size) :
    (m.step.store.node id).task = (m.store.node id).task ∧
      (m.step.store.node id).vars.lookup name = some (some m.store.cells.size) ∧
      ∀ other, other ≠ id → m.step.store.node other = m.store.node other := by
  have hnode := Store.node_of_nodes (nodes_step_dynamic hcontrol hf hnone)
  rw [hhead, List.headD_cons] at hnode
  refine ⟨?_, ?_, ?_⟩
  · rw [hnode, Store.node_declareAt_self hid]
  · rw [hnode, Store.node_declareAt_self hid]
    exact Store.lookup_bindVar _ name _
  · intro other hne
    rw [hnode, Store.node_declareAt_of_ne _ hne]

/-- The innermost node of the frame of a co-expression is of its task. -/
theorem Newcomer.Apart.head
    {x : Newcomer} {s : Store}
    (h : x.Apart s.scene) :
    ∃ g id outer, s.frames[x.frame]? = some g ∧ g.environment = id :: outer ∧
      (s.node id).task = x.task ∧ id < s.nodes.size := by
  obtain ⟨y, -, hy, -, htask, -⟩ := h.holds
  have hsited := h.ordered.sited y (Array.mem_of_getElem? hy)
  rw [Store.sites_scene] at hy
  obtain ⟨g, hg, rfl⟩ := Option.map_eq_some_iff.mp hy
  rw [Store.size_tasks_scene] at hsited
  rw [Store.taskOf_scene] at htask
  cases henvironment : g.environment with
  | nil =>
      -- The empty environment belongs to the main task.
      rw [Frame.site, henvironment] at htask
      exact absurd htask (Nat.ne_of_lt h.positive)
  | cons id outer =>
      rw [Frame.site, henvironment] at htask hsited
      exact ⟨g, id, outer, hg, henvironment, htask,
        hsited id (Site.mem_nodes_of_environment List.mem_cons_self)⟩

/-- No frame that is older than the co-expression is in an environment with a node of its task. -/
theorem Newcomer.Apart.elder
    {x : Newcomer} {s : Store} {n : Nat}
    (h : x.Apart s.scene)
    (hn : n < x.frame) :
    ∃ g, s.frames[n]? = some g ∧ ∀ id ∈ g.environment, (s.node id).task ≠ x.task := by
  obtain ⟨y, hy, hnone⟩ := h.ignores n hn
  rw [Store.sites_scene] at hy
  obtain ⟨g, hg, rfl⟩ := Option.map_eq_some_iff.mp hy
  refine ⟨g, hg, ?_⟩
  intro id hid
  rw [← Store.task_scene]
  exact hnone id (Site.mem_nodes_of_environment hid)

/-- As long as a co-expression does not leave a scope with dynamic variables that was open at its creation, its
frame is in an environment of its own task.  A variable that is declared nowhere gets its place in a node of that
task, and nowhere else, and neither the frames nor the nodes that are older than the co-expression have any part of
it. -/
theorem keeps_environment
    {maxTasks : Nat} {a : Nat} {f : Frame} {entry : Ir.Label}
    (hσ : Relation.ReflTransGen (Proceeds admits) (new maxTasks) σ)
    (hcreates : Creates a f entry σ.machine)
    (hrun : Relation.ReflTransGen
      (ProceedsWithin admits σ.machine.store.frames.size f.dynamicScopes.length)
      ⟨σ.machine.step, σ.held, σ.pending⟩ τ) :
    let k := σ.machine.store.producers.size + 1
    let p := σ.machine.store.frames.size
    let s := τ.machine.store
    σ.machine.step.store.producer k = .fresh p entry ∧
    (∃ g, s.frames[p]? = some g ∧ s.taskOf g.environment = k ∧
      ∀ (label : Ir.Label) (target : Ir.Slot) (name : String) (rest : List Ir.Instruction),
        τ.machine.control = .running p label (.dynamic target name true :: rest) →
        s.declaring? name g.environment = none →
        ∃ id ∈ g.environment,
          (τ.machine.step.store.node id).task = k ∧
          (τ.machine.step.store.node id).vars.lookup name = some (some s.cells.size) ∧
          (∀ other, other ≠ id → τ.machine.step.store.node other = s.node other) ∧
          ∀ e : Environment, (∀ other ∈ e, (s.node other).task ≠ k) →
            τ.machine.step.store.declaring? name e = s.declaring? name e) ∧
    (∀ n < p, ∃ h, s.frames[n]? = some h ∧ ∀ id ∈ h.environment, (s.node id).task ≠ k) ∧
    ∀ id < σ.machine.store.nodes.size, (s.node id).task ≠ k := by
  have hdepth : (newcomer σ.machine f).inherited.length = f.dynamicScopes.length := List.length_map _
  have hcreated : (newcomer σ.machine f).Apart σ.machine.step.store.scene :=
    hcreates.apart (ordered_of_proceeds hσ)
  rw [← hdepth] at hrun
  have hapart := hcreated.runs hrun
  refine ⟨hcreates.fresh.1, ?_, fun n hn => hapart.elder hn, ?_⟩
  · obtain ⟨g, id, outer, hg, henvironment, htask, hid⟩ := hapart.head
    have hmem : id ∈ g.environment := henvironment ▸ List.mem_cons_self
    refine ⟨g, hg, ?_, ?_⟩
    · rw [henvironment]
      exact htask
    · intro label target name rest hcontrol hnone
      obtain ⟨hkept, hvars, hothers⟩ := declares_step_dynamic hcontrol hg hnone henvironment hid
      refine ⟨id, hmem, hkept.trans htask, hvars, hothers, ?_⟩
      intro e he
      refine Store.declaring?_congr (fun other hother => hothers other ?_) name
      rintro rfl
      exact he other hother htask
  · intro id hid
    rw [← Store.task_scene]
    exact hapart.older id hid

/-! ### Runs -/

/-- A machine that runs keeps to existing environments by itself. -/
theorem proceeds_step
    (admits : Value → Prop) (m : Machine) (held : List Continuation) (pending : List (Item Initializer))
    (h : m.store.scene.IsSited) :
    Proceeds admits ⟨m, held, pending⟩ ⟨m.step, held, pending⟩ := by
  have hstep : m.store.scene.Step m.step.store.scene := Or.inl m.changes_step
  exact ⟨.step m held pending, fun _ => hstep.sited h⟩

/-- A machine that runs, with courses in `I` all the time. -/
theorem proceeds_run_of
    {I : Course → Prop}
    (admits : Value → Prop) (m : Machine) (held : List Continuation) (pending : List (Item Initializer))
    (fuel : Nat)
    (hsited : m.store.scene.IsSited)
    (h : ∀ i ≤ fuel, I ⟨m.run i, held, pending⟩) :
    Relation.ReflTransGen (fun σ τ => Proceeds admits σ τ ∧ I τ) ⟨m, held, pending⟩
      ⟨m.run fuel, held, pending⟩ := by
  induction fuel generalizing m with
  | zero => exact .refl
  | succ fuel ih =>
      simp only [Machine.run]
      split
      · exact .refl
      · rename_i hrunning
        have hproceeds := proceeds_step admits m held pending hsited
        have hrun : ∀ i, m.run (i + 1) = m.step.run i := by
          intro i
          simp only [Machine.run, if_neg hrunning]
        have hfirst : I ⟨m.step, held, pending⟩ := by
          have hone := h 1 (by omega)
          rwa [hrun] at hone
        refine .head ⟨hproceeds, hfirst⟩ (ih m.step (hproceeds.step.sited hsited) ?_)
        intro i hi
        rw [← hrun]
        exact h (i + 1) (Nat.succ_le_succ hi)

/-- A machine that runs with so many scopes open all the time. -/
theorem proceedsWithin_run
    (admits : Value → Prop) (n depth : Nat) (m : Machine) (held : List Continuation)
    (pending : List (Item Initializer)) (fuel : Nat)
    (hsited : m.store.scene.IsSited)
    (hopen : ∀ i ≤ fuel, depth ≤ openScopes (m.run i) n) :
    Relation.ReflTransGen (ProceedsWithin admits n depth) ⟨m, held, pending⟩ ⟨m.run fuel, held, pending⟩ :=
  proceeds_run_of (I := fun τ => depth ≤ openScopes τ.machine n) admits m held pending fuel hsited hopen

theorem proceeds_run
    (admits : Value → Prop) (m : Machine) (held : List Continuation) (pending : List (Item Initializer))
    (fuel : Nat)
    (hsited : m.store.scene.IsSited) :
    Relation.ReflTransGen (Proceeds admits) ⟨m, held, pending⟩ ⟨m.run fuel, held, pending⟩ :=
  Relation.ReflTransGen.mono (fun _ _ h => h.1) _ _
    (proceeds_run_of (I := fun _ => True) admits m held pending fuel hsited fun _ _ => trivial)

/-- The host links some procedures and calls the first, with courses in `I` after both. -/
theorem proceeds_called_of
    {I : Course → Prop}
    (admits : Value → Prop) (procedures : List Ir.Procedure)
    (hlinked : I ⟨⟨((Program.new 1).link ⟨procedures, [], []⟩).2.store, [], .returning .fail⟩, [],
      ((Program.new 1).link ⟨procedures, [], []⟩).2.pending⟩)
    (hcalled : I (called procedures)) :
    Relation.ReflTransGen (fun σ τ => Proceeds admits σ τ ∧ I τ) (new 1) (called procedures) := by
  have hlink : ((Program.new 1).link ⟨procedures, [], []⟩).2.store.scene = ⟨#[0], #[], 0⟩ :=
    (Program.spares_scene.link (Program.new 1) ⟨procedures, [], []⟩).trans (scene_new 1)
  have hcall := Machine.starts_call ((Program.new 1).link ⟨procedures, [], []⟩).2.store []
    Program.rootEnvironment (.procedure Builtin.all.length) [] []
  rw [hlink] at hcall
  refine .tail (.single ⟨⟨.link rfl ⟨procedures, [], []⟩, fun _ => ?_⟩, hlinked⟩)
    ⟨⟨.call rfl (by simp) Program.rootEnvironment (.procedure Builtin.all.length) [], fun _ => ?_⟩, hcalled⟩
  · exact (congrArg Scene.IsSited hlink).mpr (by decide)
  · rcases hcall with hsame | hstart
    · exact (congrArg Scene.IsSited hsame).mpr (by decide)
    · exact (congrArg Scene.IsSited hstart).mpr (by decide)

theorem proceeds_called
    (admits : Value → Prop) (procedures : List Ir.Procedure) :
    Relation.ReflTransGen (Proceeds admits) (new 1) (called procedures) :=
  Relation.ReflTransGen.mono (fun _ _ h => h.1) _ _
    (proceeds_called_of (I := fun _ => True) admits procedures trivial trivial)

/-- The frame that is about to take a dynamic variable as a place, with the name of the variable. -/
def placing? (m : Machine) : Option (Nat × String) :=
  match m.control with
  | .running n _ (.dynamic _ name true :: _) => some (n, name)
  | _ => none

theorem control_of_placing?
    {m : Machine} {n : Nat} {name : String}
    (h : placing? m = some (n, name)) :
    ∃ label target rest, m.control = .running n label (.dynamic target name true :: rest) := by
  unfold placing? at h
  split at h
  · rename_i hcontrol
    cases h
    exact ⟨_, _, _, hcontrol⟩
  · cases h

/-- A procedure that creates a co-expression in a scope with a dynamic variable.  The co-expression enters and leaves
a scope of its own, and then makes a variable. -/
def nester : Ir.Procedure where
  name := "nester"
  namespaceName := ""
  params := []
  locals := []
  statics := []
  variadic := false
  temps := 2
  entry := "start"
  chunks :=
    [⟨"start", [.enter "s" [] ["d"], .create 0 "body", .leave "s", .operator ⟨none, none, none⟩ "@" [0], .fail]⟩,
      ⟨"body", [.enter "t" [] ["e"], .leave "t", .dynamic 1 "fresh" true, .exhaust]⟩]
  deps := []

/-- The variable of the co-expression is in a node of its task, and the procedure does not see it. -/
theorem keeps_environment_nester :
    ∃ (σ τ : Course) (f g : Frame) (id : Nat),
      Creates 0 f "body" σ.machine ∧ f.dynamicScopes.length = 1 ∧
      Relation.ReflTransGen (ProceedsWithin Plain 1 1) ⟨σ.machine.step, σ.held, σ.pending⟩ τ ∧
      τ.machine.store.frames[1]? = some g ∧ τ.machine.store.taskOf g.environment = 1 ∧
      (τ.machine.step.store.node id).task = 1 ∧
      ((τ.machine.step.store.node id).vars.lookup "fresh").isSome = true ∧
      τ.machine.step.store.declaring? "fresh" Program.rootEnvironment = none := by
  have hσ := (proceeds_called Plain [nester]).trans (proceeds_run Plain (called [nester]).machine
    (called [nester]).held (called [nester]).pending 1 (by decide +kernel))
  have hframe : (((called [nester]).machine.run 1).store.frames[0]?.map fun f => f.dynamicScopes.length) =
      some 1 := by decide +kernel
  obtain ⟨f, hf, hdepth⟩ := Option.map_eq_some_iff.mp hframe
  have hcreates : Creates 0 f "body" ((called [nester]).machine.run 1) :=
    ⟨by decide +kernel, hf, by decide +kernel⟩
  have hone : ((called [nester]).machine.run 1).store.frames.size = 1 := by decide +kernel
  have hrun := proceedsWithin_run Plain ((called [nester]).machine.run 1).store.frames.size
    f.dynamicScopes.length ((called [nester]).machine.run 1).step (called [nester]).held
    (called [nester]).pending 4 (by decide +kernel) (by rw [hone, hdepth]; decide +kernel)
  obtain ⟨-, ⟨g, hg, htask, hplace⟩, -, holder⟩ := keeps_environment hσ hcreates hrun
  dsimp only at hg htask hplace holder
  rw [hone] at hg hplace hrun
  rw [hdepth] at hrun
  have hundeclared : ((((called [nester]).machine.run 1).step.run 4).store.frames[1]?.map fun g =>
      ((((called [nester]).machine.run 1).step.run 4).store.declaring? "fresh" g.environment).isNone) =
      some true := by decide +kernel
  rw [hg, Option.map_some, Option.some.injEq, Option.isNone_iff_eq_none] at hundeclared
  obtain ⟨label, target, rest, hcontrol⟩ : ∃ label target rest,
      (((called [nester]).machine.run 1).step.run 4).control =
        .running 1 label (.dynamic target "fresh" true :: rest) :=
    control_of_placing? (by decide +kernel)
  obtain ⟨id, -, hnode, hvars, -, hseen⟩ := hplace label target "fresh" rest hcontrol hundeclared
  have hzero : ((called [nester]).machine.run 1).store.producers.size = 0 := by decide +kernel
  rw [hzero] at htask hnode hseen holder
  refine ⟨⟨(called [nester]).machine.run 1, (called [nester]).held, (called [nester]).pending⟩,
    ⟨((called [nester]).machine.run 1).step.run 4, (called [nester]).held, (called [nester]).pending⟩,
    f, g, id, hcreates, hdepth, hrun, hg, htask, hnode, Option.isSome_iff_exists.mpr ⟨_, hvars⟩, ?_⟩
  rw [hseen]
  · decide +kernel
  · intro other hother
    cases List.mem_singleton.mp hother
    exact holder 0 (by decide +kernel)

/-- A procedure whose co-expression leaves the scope in which it was created, and then makes a variable. -/
def leaver : Ir.Procedure where
  name := "leaver"
  namespaceName := ""
  params := []
  locals := []
  statics := []
  variadic := false
  temps := 2
  entry := "start"
  chunks :=
    [⟨"start", [.enter "s" [] ["d"], .create 0 "body", .leave "s", .operator ⟨none, none, none⟩ "@" [0], .fail]⟩,
      ⟨"body", [.leave "s", .dynamic 1 "fresh" true, .exhaust]⟩]
  deps := []

/-- The co-expression has come into the task of the procedure, which sees its variable from then on. -/
theorem leaves_environment :
    ∃ (σ τ : Course) (f g h : Frame), Relation.ReflTransGen (Proceeds Plain) (new 1) σ ∧
      Creates 0 f "body" σ.machine ∧
      Relation.ReflTransGen (Proceeds Plain) ⟨σ.machine.step, σ.held, σ.pending⟩ τ ∧
      τ.machine.running? = some σ.machine.store.frames.size ∧
      τ.machine.store.frames[σ.machine.store.frames.size]? = some g ∧
      τ.machine.store.taskOf g.environment ≠ σ.machine.store.producers.size + 1 ∧
      τ.machine.store.frames[0]? = some h ∧
      τ.machine.store.declaring? "fresh" h.environment = none ∧
      τ.machine.step.store.declaring? "fresh" h.environment ≠ none := by
  have hσ := (proceeds_called Plain [leaver]).trans (proceeds_run Plain (called [leaver]).machine
    (called [leaver]).held (called [leaver]).pending 1 (by decide +kernel))
  have hsize : 0 < ((called [leaver]).machine.run 1).store.frames.size := by decide +kernel
  have hcreates : Creates 0 _ "body" ((called [leaver]).machine.run 1) :=
    ⟨by decide +kernel, Array.getElem?_eq_getElem hsize, by decide +kernel⟩
  have hrun := proceeds_run Plain ((called [leaver]).machine.run 1).step (called [leaver]).held
    (called [leaver]).pending 3 (by decide +kernel)
  have hone : ((called [leaver]).machine.run 1).store.frames.size = 1 := by decide +kernel
  have hcopy : ((((called [leaver]).machine.run 1).step.run 3).store.frames[1]?.map (·.environment)) =
      some Program.rootEnvironment := by decide +kernel
  have hcreator : ((((called [leaver]).machine.run 1).step.run 3).store.frames[0]?.map (·.environment)) =
      some Program.rootEnvironment := by decide +kernel
  obtain ⟨g, hg, hgroot⟩ := Option.map_eq_some_iff.mp hcopy
  obtain ⟨h, hh, hhroot⟩ := Option.map_eq_some_iff.mp hcreator
  refine ⟨⟨(called [leaver]).machine.run 1, (called [leaver]).held, (called [leaver]).pending⟩,
    ⟨((called [leaver]).machine.run 1).step.run 3, (called [leaver]).held, (called [leaver]).pending⟩,
    _, g, h, hσ, hcreates, hrun, by decide +kernel, hone.symm ▸ hg, ?_, hh, ?_, ?_⟩
  · rw [hgroot]
    decide +kernel
  · rw [hhroot]
    decide +kernel
  · rw [hhroot]
    decide +kernel

end Course

end Tasks

end GoalDirected
