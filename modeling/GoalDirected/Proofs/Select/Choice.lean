import GoalDirected.Proofs.Machine.Execution

/-!
# What a select chooses

**Input.** Cases with their operands, a store with the state of all channels, and the number of selects made
so far, which is the offset that the cases are tried from.

**Specification.** `Selects` says what a select that does not wait comes to, without saying how it is found:
the first case in cyclic order that is ready, with the effect of that case alone; or the first default, if no
case is ready; or failure, if every case is over for good.  `Proceeds` says where the select instruction goes
on and what it does with a received value.

**Results.** `choose_eq_iff`: a select that does not wait makes exactly the choice that is specified.
`choose_selects`: this, the condition for failure, and what the instruction makes of the choice.
-/

namespace GoalDirected

section Choice

/-! ## Cases -/

/-- The case can happen at once. -/
def WaitCase.IsReady (s : Store) : WaitCase → Prop
  | .send id _ => ∃ c, s.channel? id = some c ∧ c.closed = false ∧ c.queue.length < c.capacity
  | .receive id => ∃ c, s.channel? id = some c ∧ c.queue ≠ []
  | .default => False

/-- The case can never happen any more: it sends on a closed channel, or receives from a closed one that
has been emptied. -/
def WaitCase.IsOver (s : Store) : WaitCase → Prop
  | .send id _ => ∀ c, s.channel? id = some c → c.closed = true
  | .receive id => ∀ c, s.channel? id = some c → c.closed = true ∧ c.queue = []
  | .default => False

theorem WaitCase.IsOver.not_isReady
    {s : Store} {c : WaitCase}
    (h : c.IsOver s) :
    ¬ c.IsReady s := by
  intro hready
  cases c with
  | send id v =>
      obtain ⟨c, hchannel, hopen, -⟩ := hready
      simp [h c hchannel] at hopen
  | receive id =>
      obtain ⟨c, hchannel, hqueue⟩ := hready
      exact hqueue (h c hchannel).2
  | default => exact h

/-- What a ready case receives, and the store after it. -/
inductive WaitCase.Happens (s : Store) : WaitCase → Option Value → Store → Prop
  | send
      {id : Nat} {c : Channel} (v : Value)
      (hchannel : s.channel? id = some c)
      (hopen : c.closed = false)
      (hroom : c.queue.length < c.capacity) :
      Happens s (.send id v) none (s.setChannel id { c with queue := c.queue ++ [v] })
  | receive
      {id : Nat} {c : Channel} {v : Value} {rest : List Value}
      (hchannel : s.channel? id = some c)
      (hqueue : c.queue = v :: rest) :
      Happens s (.receive id) (some v) (s.setChannel id { c with queue := rest })

/-- One more select has been made. -/
def Store.turned (s : Store) : Store :=
  { s with rotation := s.rotation + 1 }

/-- What a select that does not wait comes to. -/
inductive Selects (s : Store) (waits : List WaitCase) : Choice → Store → Prop
  | ready
      {k : Nat} {c : WaitCase} {received : Option Value} {t : Store}
      (hk : k < waits.length)
      (hcase : waits[(s.rotation + k) % waits.length]? = some c)
      (hbefore : ∀ j < k, ∀ d, waits[(s.rotation + j) % waits.length]? = some d → ¬ d.IsReady s)
      (hhappens : c.Happens s.turned received t) :
      Selects s waits (.chosen ((s.rotation + k) % waits.length) received) t
  | default
      {i : Nat}
      (hnone : ∀ c ∈ waits, ¬ c.IsReady s)
      (hdefault : waits[i]? = some .default)
      (hfirst : ∀ j < i, waits[j]? ≠ some .default) :
      Selects s waits (.chosen i none) s.turned
  | fail
      (hover : ∀ c ∈ waits, c.IsOver s) :
      Selects s waits .fail s.turned

namespace Store

theorem isReady_turned (s : Store) (c : WaitCase) :
    c.IsReady s.turned ↔ c.IsReady s := by
  cases c <;> exact Iff.rfl

theorem isOver_turned (s : Store) (c : WaitCase) :
    c.IsOver s.turned ↔ c.IsOver s := by
  cases c <;> exact Iff.rfl

theorem attempt_eq_done_iff
    {s t : Store} {c : WaitCase} {received : Option Value} :
    s.attempt c = .done (received, t) ↔ c.Happens s received t := by
  constructor
  · intro h
    cases c with
    | send id v =>
        simp only [attempt] at h
        split at h
        · rename_i d hsend
          cases h
          obtain ⟨c, hchannel, hdone⟩ := Option.map_eq_some_iff.mp hsend
          unfold Channel.send at hdone
          split at hdone
          · cases hdone
          · rename_i hopen
            split at hdone
            · rename_i hroom
              cases hdone
              exact .send v hchannel (by simpa using hopen) hroom
            · cases hdone
        · cases h
        · cases h
    | receive id =>
        simp only [attempt] at h
        split at h
        · rename_i v d hreceive
          cases h
          obtain ⟨c, hchannel, hdone⟩ := Option.map_eq_some_iff.mp hreceive
          unfold Channel.receive at hdone
          split at hdone
          · rename_i hqueue
            cases hdone
            exact .receive hchannel hqueue
          · split at hdone <;> cases hdone
        · cases h
        · cases h
    | default => cases h
  · intro h
    cases h with
    | send v hchannel hopen hroom => simp [attempt, Channel.send, hchannel, hopen, hroom]
    | receive hchannel hqueue => simp [attempt, Channel.receive, hchannel, hqueue]

theorem isReady_iff_exists_happens
    {s : Store} {c : WaitCase} :
    c.IsReady s ↔ ∃ received t, c.Happens s received t := by
  constructor
  · intro h
    cases c with
    | send id v =>
        obtain ⟨c, hchannel, hopen, hroom⟩ := h
        exact ⟨_, _, .send v hchannel hopen hroom⟩
    | receive id =>
        obtain ⟨c, hchannel, hqueue⟩ := h
        obtain ⟨v, rest, hqueue⟩ := List.exists_cons_of_ne_nil hqueue
        exact ⟨_, _, .receive hchannel hqueue⟩
    | default => exact absurd h id
  · rintro ⟨received, t, h⟩
    cases h with
    | send v hchannel hopen hroom => exact ⟨_, hchannel, hopen, hroom⟩
    | receive hchannel hqueue => exact ⟨_, hchannel, by simp [hqueue]⟩

theorem isRefused_iff
    {s : Store} {c : WaitCase} :
    s.isRefused c = true ↔ c.IsOver s := by
  cases c with
  | send id v =>
      simp only [isRefused, attempt, WaitCase.IsOver]
      cases hchannel : s.channel? id with
      | none => simp
      | some c =>
          by_cases hclosed : c.closed = true
          · simp [Channel.send, hclosed]
          · by_cases hroom : c.queue.length < c.capacity <;> simp [Channel.send, hclosed, hroom]
  | receive id =>
      simp only [isRefused, attempt, WaitCase.IsOver]
      cases hchannel : s.channel? id with
      | none => simp
      | some c =>
          cases hqueue : c.queue with
          | nil => by_cases hclosed : c.closed = true <;> simp [Channel.receive, hqueue, hclosed]
          | cons v rest => simp [Channel.receive, hqueue]
  | default => simp [isRefused, attempt, WaitCase.IsOver]

/-! ## The search -/

theorem firstReady_eq_none_iff
    {s : Store} {l : List (Nat × WaitCase)} :
    s.firstReady l = none ↔ ∀ x ∈ l, ¬ x.2.IsReady s := by
  induction l with
  | nil => simp [firstReady]
  | cons x l ih =>
      obtain ⟨i, c⟩ := x
      simp only [firstReady, List.mem_cons, forall_eq_or_imp]
      split
      · rename_i received t hdone
        have hready : c.IsReady s :=
          isReady_iff_exists_happens.mpr ⟨received, t, attempt_eq_done_iff.mp hdone⟩
        simp [hready]
      · rename_i hnot
        have hready : ¬ c.IsReady s := by
          intro h
          obtain ⟨received, t, hhappens⟩ := isReady_iff_exists_happens.mp h
          exact hnot received t (attempt_eq_done_iff.mpr hhappens)
        simp [hready, ih]

/-- The search stops at the first entry that is ready, and has the effect of its case alone. -/
theorem firstReady_eq_some_iff
    {s t : Store} {l : List (Nat × WaitCase)} {i : Nat} {received : Option Value} :
    s.firstReady l = some (i, received, t) ↔
      ∃ (k : Nat) (c : WaitCase), l[k]? = some (i, c) ∧
        (∀ j < k, ∀ x : Nat × WaitCase, l[j]? = some x → ¬ x.2.IsReady s) ∧
        c.Happens s received t := by
  induction l with
  | nil => simp [firstReady]
  | cons x l ih =>
      obtain ⟨i', c'⟩ := x
      simp only [firstReady]
      split
      · rename_i received' t' hdone
        have hhappens := attempt_eq_done_iff.mp hdone
        constructor
        · intro h
          cases h
          exact ⟨0, c', rfl, by simp, hhappens⟩
        · rintro ⟨k, c, hk, hbefore, hc⟩
          cases k with
          | zero =>
              cases hk
              rw [attempt_eq_done_iff.mpr hc] at hdone
              cases hdone
              rfl
          | succ k =>
              have hready := isReady_iff_exists_happens.mpr ⟨received', t', hhappens⟩
              exact absurd hready (hbefore 0 (Nat.succ_pos k) _ rfl)
      · rename_i hnot
        rw [ih]
        constructor
        · rintro ⟨k, c, hk, hbefore, hc⟩
          refine ⟨k + 1, c, hk, ?_, hc⟩
          intro j hj x hx
          cases j with
          | zero =>
              cases hx
              intro hready
              obtain ⟨r, u, hhappens⟩ := isReady_iff_exists_happens.mp hready
              exact hnot r u (attempt_eq_done_iff.mpr hhappens)
          | succ j => exact hbefore j (Nat.lt_of_succ_lt_succ hj) x hx
        · rintro ⟨k, c, hk, hbefore, hc⟩
          cases k with
          | zero =>
              cases hk
              exact absurd (attempt_eq_done_iff.mpr hc) (hnot received t)
          | succ k =>
              exact ⟨k, c, hk, fun j hj x hx => hbefore (j + 1) (Nat.succ_lt_succ hj) x hx, hc⟩

end Store

/-- The `k`-th entry of the rotated cases stands `k` places after the offset, around the end. -/
theorem getElem?_rotated
    (waits : List WaitCase) (start : Nat) {k : Nat}
    (hk : k < waits.length) :
    (rotated waits start)[k]? =
      waits[(start + k) % waits.length]?.map fun c => ((start + k) % waits.length, c) := by
  have hlt : start % waits.length < waits.length := Nat.mod_lt _ (by omega)
  have hmod : (start + k) % waits.length = (start % waits.length + k) % waits.length := by simp
  rw [hmod]
  simp only [rotated]
  generalize start % waits.length = offset at hlt
  by_cases hwrap : offset + k < waits.length
  · rw [Nat.mod_eq_of_lt hwrap, List.getElem?_append_left (by simp; omega)]
    simp
  · have hsub : (offset + k) % waits.length = offset + k - waits.length := by
      rw [Nat.mod_eq_sub_mod (by omega), Nat.mod_eq_of_lt (by omega)]
    have hk' : k - (waits.length - offset) = offset + k - waits.length := by omega
    rw [hsub, List.getElem?_append_right (by simp; omega)]
    simp only [List.length_drop, List.length_mapIdx, hk']
    rw [List.getElem?_take_of_lt (by omega)]
    simp

theorem length_rotated (waits : List WaitCase) (start : Nat) :
    (rotated waits start).length = waits.length := by
  simp only [rotated, List.length_append, List.length_drop, List.length_take, List.length_mapIdx]
  omega

/-- The rotated cases are the cases. -/
theorem forall_rotated_iff
    {waits : List WaitCase} {start : Nat} {P : WaitCase → Prop} :
    (∀ x ∈ rotated waits start, P x.2) ↔ ∀ c ∈ waits, P c := by
  simp only [rotated, List.mem_append, or_imp, forall_and]
  rw [and_comm, ← forall_and]
  simp only [← or_imp, ← List.mem_append, List.take_append_drop, List.mem_mapIdx]
  constructor
  · intro h c hc
    obtain ⟨i, hi, rfl⟩ := List.getElem_of_mem hc
    exact h (i, waits[i]) ⟨i, hi, rfl⟩
  · rintro h x ⟨i, hi, rfl⟩
    exact h _ (List.getElem_mem hi)

theorem defaultIndex?_eq_some_iff
    {waits : List WaitCase} {i : Nat} :
    defaultIndex? waits = some i ↔
      waits[i]? = some .default ∧ ∀ j < i, waits[j]? ≠ some .default := by
  simp only [defaultIndex?, List.findIdx?_eq_some_iff_getElem]
  constructor
  · rintro ⟨hi, hc, hfirst⟩
    have hdefault : waits[i] = .default := by
      revert hc
      cases waits[i] <;> simp
    refine ⟨List.getElem?_eq_some_iff.mpr ⟨hi, hdefault⟩, ?_⟩
    intro j hj hdefault
    obtain ⟨_, hdefault⟩ := List.getElem?_eq_some_iff.mp hdefault
    exact hfirst j hj (by rw [hdefault])
  · rintro ⟨hc, hfirst⟩
    obtain ⟨hi, hc⟩ := List.getElem?_eq_some_iff.mp hc
    refine ⟨hi, by rw [hc], ?_⟩
    intro j hj hdefault
    have hj' : j < waits.length := by omega
    refine hfirst j hj (List.getElem?_eq_some_iff.mpr ⟨hj', ?_⟩)
    revert hdefault
    cases waits[j] <;> simp

/-- The search through the rotated cases finds what `Selects.ready` asks for. -/
theorem Store.firstReady_rotated_iff
    {s t : Store} {waits : List WaitCase} {i : Nat} {received : Option Value} :
    s.turned.firstReady (rotated waits s.rotation) = some (i, received, t) ↔
      ∃ (k : Nat) (c : WaitCase), k < waits.length ∧ i = (s.rotation + k) % waits.length ∧
        waits[i]? = some c ∧
        (∀ j < k, ∀ d, waits[(s.rotation + j) % waits.length]? = some d → ¬ d.IsReady s) ∧
        c.Happens s.turned received t := by
  rw [firstReady_eq_some_iff]
  constructor
  · rintro ⟨k, c, hk, hbefore, hhappens⟩
    have hlt : k < waits.length := by
      obtain ⟨hlt, -⟩ := List.getElem?_eq_some_iff.mp hk
      rwa [length_rotated] at hlt
    rw [getElem?_rotated waits s.rotation hlt] at hk
    obtain ⟨d, hd, heq⟩ := Option.map_eq_some_iff.mp hk
    cases heq
    refine ⟨k, c, hlt, rfl, hd, ?_, hhappens⟩
    intro j hj d hd hready
    refine hbefore j hj ((s.rotation + j) % waits.length, d) ?_ ((isReady_turned s d).mpr hready)
    rw [getElem?_rotated waits s.rotation (Nat.lt_trans hj hlt), hd]
    rfl
  · rintro ⟨k, c, hlt, rfl, hc, hbefore, hhappens⟩
    refine ⟨k, c, ?_, ?_, hhappens⟩
    · rw [getElem?_rotated waits s.rotation hlt, hc]
      rfl
    · intro j hj x hx hready
      rw [getElem?_rotated waits s.rotation (Nat.lt_trans hj hlt)] at hx
      obtain ⟨d, hd, rfl⟩ := Option.map_eq_some_iff.mp hx
      exact hbefore j hj d hd ((isReady_turned s d).mp hready)

theorem Store.firstReady_rotated_eq_none_iff
    {s : Store} {waits : List WaitCase} :
    s.turned.firstReady (rotated waits s.rotation) = none ↔ ∀ c ∈ waits, ¬ c.IsReady s := by
  rw [firstReady_eq_none_iff]
  simp only [isReady_turned]
  exact forall_rotated_iff (P := fun c => ¬ c.IsReady s)

/-- The choice, by what the search finds. -/
theorem Store.choose_eq (s : Store) (waits : List WaitCase) :
    s.choose waits =
      match s.turned.firstReady (rotated waits s.rotation) with
      | some (i, received, t) => (.chosen i received, t)
      | none =>
          match defaultIndex? waits with
          | some i => (.chosen i none, s.turned)
          | none => if waits.all s.turned.isRefused then (.fail, s.turned) else (.blocked, s.turned) :=
  rfl

theorem Store.all_isRefused_iff
    {s : Store} {waits : List WaitCase} :
    waits.all s.turned.isRefused = true ↔ ∀ c ∈ waits, c.IsOver s := by
  simp only [List.all_eq_true, isRefused_iff, isOver_turned]

/-- A select that does not wait makes exactly the choice that is specified. -/
theorem Store.choose_eq_iff
    {s t : Store} {waits : List WaitCase} {choice : Choice}
    (hblocked : choice ≠ .blocked) :
    s.choose waits = (choice, t) ↔ Selects s waits choice t := by
  rw [choose_eq]
  constructor
  · intro h
    split at h
    · rename_i i received u hfirst
      cases h
      obtain ⟨k, c, hk, rfl, hc, hbefore, hhappens⟩ := firstReady_rotated_iff.mp hfirst
      exact .ready hk hc hbefore hhappens
    · rename_i hfirst
      have hnone := firstReady_rotated_eq_none_iff.mp hfirst
      split at h
      · rename_i i hdefault
        cases h
        obtain ⟨hi, hbefore⟩ := defaultIndex?_eq_some_iff.mp hdefault
        exact .default hnone hi hbefore
      · split at h
        · rename_i hall
          cases h
          exact .fail (all_isRefused_iff.mp hall)
        · cases h
          exact absurd rfl hblocked
  · intro h
    cases h with
    | ready hk hc hbefore hhappens =>
        rw [firstReady_rotated_iff.mpr ⟨_, _, hk, rfl, hc, hbefore, hhappens⟩]
    | default hnone hi hbefore =>
        rw [firstReady_rotated_eq_none_iff.mpr hnone, defaultIndex?_eq_some_iff.mpr ⟨hi, hbefore⟩]
    | fail hover =>
        have hnone : ∀ c ∈ waits, ¬ c.IsReady s := fun c hc => (hover c hc).not_isReady
        rw [firstReady_rotated_eq_none_iff.mpr hnone]
        cases hdefault : defaultIndex? waits with
        | none => simp [all_isRefused_iff.mpr hover]
        | some i =>
            obtain ⟨hi, -⟩ := defaultIndex?_eq_some_iff.mp hdefault
            exact (hover _ (List.mem_of_getElem? hi)).elim

/-- A select fails if and only if every case is over; so there is no default. -/
theorem Store.choose_eq_fail_iff
    {s : Store} {waits : List WaitCase} :
    (s.choose waits).1 = .fail ↔ ∀ c ∈ waits, c.IsOver s := by
  constructor
  · intro h
    obtain ⟨t, hchoose⟩ : ∃ t, s.choose waits = (.fail, t) := ⟨_, Prod.ext h rfl⟩
    cases (choose_eq_iff (by simp)).mp hchoose with
    | fail hover => exact hover
  · intro h
    rw [(choose_eq_iff (by simp)).mpr (Selects.fail h)]

/-! ## The instruction -/

/-- Where a received value goes: to the place that the slot holds, or into the slot itself. -/
inductive Lands (s : Store) (frame : Nat) (f : Frame) (slot : Nat) (v : Value) : Store → Prop
  | place
      {cell : CellId}
      (hplace : f.temps[slot]? = some (.value (.ref cell))) :
      Lands s frame f slot v (s.write cell v)
  | slot
      (hnone : ∀ cell, f.temps[slot]? ≠ some (.value (.ref cell))) :
      Lands s frame f slot v
        (s.setFrame frame { f with temps := f.temps.setIfInBounds slot (.value v) })

/-- How a frame goes on after a choice that has led to a given store. -/
inductive Proceeds (t : Store) (stack : List Context) (frame : Nat) (f : Frame) (cases : List Ir.Case)
    (onFail : Option Ir.Label) : Choice → Machine → Prop
  | received
      {i channel slot : Nat} {body : Ir.Label} {v : Value} {u : Store}
      (hcase : cases[i]? = some (.receive channel slot body))
      (hlands : Lands t frame f slot v u) :
      Proceeds t stack frame f cases onFail (.chosen i (some v)) (Machine.jump u stack frame body)
  | other
      {i : Nat} {c : Ir.Case}
      (hcase : cases[i]? = some c) :
      Proceeds t stack frame f cases onFail (.chosen i none) (Machine.jump t stack frame c.body)
  | failed :
      Proceeds t stack frame f cases onFail .fail (Machine.failed t stack frame onFail)

namespace Store

/-- The cases of a select with their operands, one by one. -/
theorem getElem?_waitCases
    {s : Store} {f : Frame} {cases : List Ir.Case} {waits : List WaitCase}
    (h : s.waitCases f cases = .ok waits)
    {i : Nat} {w : WaitCase}
    (hw : waits[i]? = some w) :
    ∃ c, cases[i]? = some c ∧ s.waitCase f c = .ok w := by
  induction cases generalizing waits i with
  | nil =>
      cases h
      cases hw
  | cons c rest ih =>
      simp only [waitCases] at h
      split at h
      · cases h
      · rename_i w' hw'
        cases hrest : s.waitCases f rest with
        | error e =>
            rw [hrest] at h
            cases h
        | ok ws =>
            rw [hrest] at h
            cases h
            cases i with
            | zero =>
                cases hw
                exact ⟨c, rfl, hw'⟩
            | succ i => exact ih hrest hw

/-- A chosen case that receives is a receive of the instruction. -/
theorem exists_of_waitCase_receive
    {s : Store} {f : Frame} {c : Ir.Case} {id : Nat}
    (h : s.waitCase f c = .ok (.receive id)) :
    ∃ channel slot body, c = .receive channel slot body := by
  cases c with
  | send channel value body =>
      simp only [waitCase] at h
      split at h <;> cases h
  | receive channel slot body => exact ⟨channel, slot, body, rfl⟩
  | default body => cases h

/-- A chosen case that has received nothing leads to its body. -/
theorem executeSelect_eq_goto
    {s t : Store} {f : Frame} {cases : List Ir.Case} {onFail : Option Ir.Label}
    {waits : List WaitCase} {i : Nat} {c : Ir.Case}
    (hwaits : s.waitCases f cases = .ok waits)
    (hchoose : s.choose waits = (.chosen i none, t))
    (hc : cases[i]? = some c) :
    s.executeSelect f cases onFail = (.goto c.body, f, t) := by
  simp only [executeSelect, hwaits, hchoose, hc]

theorem storeReceived_lands
    {s : Store} {f : Frame} {frame slot : Nat} (v : Value) (body : Ir.Label)
    (hframe : s.frames[frame]? = some f)
    (hslot : slot < f.temps.size) :
    ∃ g u, s.storeReceived f slot v body = (.goto body, g, u) ∧
      Lands s frame f slot v (u.setFrame frame g) := by
  unfold storeReceived
  split
  · rename_i cell hvalue
    refine ⟨f, s.write cell v, rfl, ?_⟩
    rw [setFrame_of_getElem? (s := s.write cell v) hframe]
    exact .place (Frame.value_eq_ok_iff.mp hvalue)
  · rename_i hvalue
    have hset : f.set slot v = .ok { f with temps := f.temps.setIfInBounds slot (.value v) } := by
      simp [Frame.set, Frame.put, hslot]
    simp only [hset]
    refine ⟨_, s, rfl, .slot ?_⟩
    intro cell hplace
    exact hvalue cell (Frame.value_eq_ok_iff.mpr hplace)

end Store

/-- A choice does not touch frames. -/
theorem Selects.frames_eq
    {s t : Store} {waits : List WaitCase} {choice : Choice}
    (h : Selects s waits choice t) :
    t.frames = s.frames := by
  cases h with
  | ready hk hcase hbefore hhappens => cases hhappens <;> rfl
  | default hnone hdefault hfirst => rfl
  | fail hover => rfl

/-- The channel that a case is about. -/
def WaitCase.channel? : WaitCase → Option Nat
  | .send id _ => some id
  | .receive id => some id
  | .default => none

/-- Only the channel of the chosen case changes. -/
theorem Selects.channels_eq
    {s t : Store} {waits : List WaitCase} {choice : Choice} {n : Nat}
    (h : Selects s waits choice t)
    (hother : ∀ i received id, choice = .chosen i received →
      waits[i]?.bind WaitCase.channel? = some id → n ≠ id - 1) :
    t.channels[n]? = s.channels[n]? := by
  cases h with
  | ready hk hcase hbefore hhappens =>
      cases hhappens with
      | send v hchannel hopen hroom =>
          have hne := hother _ _ _ rfl (by rw [hcase]; rfl)
          exact Array.getElem?_setIfInBounds_ne (Ne.symm hne)
      | receive hchannel hqueue =>
          have hne := hother _ _ _ rfl (by rw [hcase]; rfl)
          exact Array.getElem?_setIfInBounds_ne (Ne.symm hne)
  | default hnone hdefault hfirst => rfl
  | fail hover => rfl

/-- A select instruction whose operands are in order proceeds as its choice says. -/
theorem Machine.step_select
    {s t : Store} {stack : List Context} {frame : Nat} {f : Frame} {label : Ir.Label}
    {rest : List Ir.Instruction} {cases : List Ir.Case} {onFail : Option Ir.Label}
    {waits : List WaitCase} {choice : Choice}
    (hframe : s.frames[frame]? = some f)
    (hslots : ∀ c ∈ cases, ∀ slot ∈ c.slots, slot < f.temps.size)
    (hwaits : s.waitCases f cases = .ok waits)
    (hselects : Selects s waits choice t) :
    Proceeds t stack frame f cases onFail choice
      (Machine.step ⟨s, stack, .running frame label (.select cases onFail :: rest)⟩) := by
  have hblocked : choice ≠ .blocked := by
    rintro rfl
    cases hselects
  have hchoose := (Store.choose_eq_iff hblocked).mpr hselects
  have hframe' : t.frames[frame]? = some f := by rw [hselects.frames_eq]; exact hframe
  have hsame := Store.setFrame_of_getElem? hframe'
  cases hselects with
  | fail hover =>
      have hexecute : s.executeSelect f cases onFail = (.failed onFail, f, s.turned) := by
        simp only [Store.executeSelect, hwaits, hchoose]
      rw [step_running (i := .select cases onFail) hframe hexecute, hsame]
      exact .failed
  | default hnone hdefault hfirst =>
      obtain ⟨c, hc, -⟩ := Store.getElem?_waitCases hwaits hdefault
      rw [step_running (i := .select cases onFail) hframe (Store.executeSelect_eq_goto hwaits hchoose hc), hsame]
      exact .other hc
  | ready hk hcase hbefore hhappens =>
      obtain ⟨c, hc, hw⟩ := Store.getElem?_waitCases hwaits hcase
      cases hhappens with
      | send v hchannel hopen hroom =>
          rw [step_running (i := .select cases onFail) hframe
            (Store.executeSelect_eq_goto hwaits hchoose hc), hsame]
          exact .other hc
      | receive hchannel hqueue =>
          obtain ⟨channel, slot, body, rfl⟩ := Store.exists_of_waitCase_receive hw
          have hslot : slot < f.temps.size :=
            hslots _ (List.mem_of_getElem? hc) slot (by simp [Ir.Case.slots])
          obtain ⟨g, u, hstored, hlands⟩ := Store.storeReceived_lands _ body hframe' hslot
          have hexecute : s.executeSelect f cases onFail = (.goto body, g, u) := by
            simp only [Store.executeSelect, hwaits, hchoose, hc]
            exact hstored
          rw [step_running (i := .select cases onFail) hframe hexecute]
          exact .received hc hlands

/-- A select that does not wait chooses the first ready case in cyclic order, or else the first default, and
fails if and only if every case is over; no channel but that of the chosen case changes; and the
instruction stores what was received and goes on at the body of that case. -/
theorem choose_selects
    (s : Store) (waits : List WaitCase)
    (hblocked : (s.choose waits).1 ≠ .blocked) :
    Selects s waits (s.choose waits).1 (s.choose waits).2 ∧
    ((s.choose waits).1 = .fail ↔ ∀ c ∈ waits, c.IsOver s) ∧
    (∀ n : Nat,
      (∀ i received id, (s.choose waits).1 = .chosen i received →
        waits[i]?.bind WaitCase.channel? = some id → n ≠ id - 1) →
      (s.choose waits).2.channels[n]? = s.channels[n]?) ∧
    ∀ (stack : List Context) (frame : Nat) (f : Frame) (label : Ir.Label)
      (rest : List Ir.Instruction) (cases : List Ir.Case) (onFail : Option Ir.Label),
      s.frames[frame]? = some f →
      (∀ c ∈ cases, ∀ slot ∈ c.slots, slot < f.temps.size) →
      s.waitCases f cases = .ok waits →
      Proceeds (s.choose waits).2 stack frame f cases onFail (s.choose waits).1
        (Machine.step ⟨s, stack, .running frame label (.select cases onFail :: rest)⟩) := by
  have hselects := (Store.choose_eq_iff hblocked).mp rfl
  refine ⟨hselects, Store.choose_eq_fail_iff, ?_, ?_⟩
  · intro n hother
    exact hselects.channels_eq hother
  · intro stack frame f label rest cases onFail hframe hslots hwaits
    exact Machine.step_select hframe hslots hwaits hselects

/-- The channels of a select that starts at its second case: one full, one with a value to receive. -/
def Store.crossing : Store where
  channels := #[⟨1, [.text "full"], false⟩, ⟨1, [.text "first"], true⟩]
  rotation := 4

/-- The search goes around the end of the cases, passes over a send that would have to wait, and receives the
last value of a closed channel. -/
theorem choose_selects_crossing :
    Selects Store.crossing [.receive 2, .send 1 .nil, .default] (.chosen 0 (some (.text "first")))
      (Store.crossing.turned.setChannel 2 ⟨1, [], true⟩) :=
  (choose_selects Store.crossing [.receive 2, .send 1 .nil, .default] nofun).1

end Choice

end GoalDirected
