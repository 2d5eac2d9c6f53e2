import GoalDirected.Proofs.Ir.Defaults

/-!
# Programs read back from texts

**Input.**  A program in intermediate form, and the text of a program.

**Argument.**  The tree of a program is ten arrays and objects deep, and its numbers are slots, counts and constants.
The reader of a text takes no natural number beyond sixty-four bits, so neither does a program that is read.

**Results.**
* `Program.writable_toJson`: the tree of a program has a text that is read.
* `Program.sizes_ofJson?`: the slots and counts of a program that is read have sixty-four bits.
* `Program.round_trip`: what is written for a program is read as this program, also after defaults are filled in.
-/

namespace GoalDirected
namespace Ir

open Json

section RoundTrip

/-! ## Writing -/

/-- The numbers of a part can be written: slots and counts have sixty-four bits, and constants read back. -/
structure Printable (sizes : List Nat) (constants : List Float) : Prop where
  sizes : ∀ n ∈ sizes, n < Decimal.significandBound
  constants : ∀ x ∈ constants, ReadsBack x

theorem Printable.of_mem
    {α : Type} {xs : List α} {sizes : α → List Nat} {constants : α → List Float}
    (h : Printable (xs.flatMap sizes) (xs.flatMap constants))
    {x : α}
    (hx : x ∈ xs) :
    Printable (sizes x) (constants x) :=
  ⟨fun n hn => h.sizes n (List.mem_flatMap.mpr ⟨x, hx, hn⟩),
    fun y hy => h.constants y (List.mem_flatMap.mpr ⟨x, hx, hy⟩)⟩

/-- A text changes no more than the classes of constants. -/
theorem Printable.keeps
    {sizes : List Nat} {constants : List Float}
    (h : Printable sizes constants) :
    Keeps Number.reread sizes constants where
  sizes n hn := reread_natural (h.sizes n hn)
  constants x hx := by
    obtain ⟨m, hread, hx⟩ := h.constants x hx
    exact ⟨m, Number.reread_eq hread, hx⟩

variable {room : Nat}

theorem writable_natJson
    {n : Nat}
    (h : n < Decimal.significandBound) :
    Writable room (natJson n) := by
  refine .number (m := .natural n) ?_
  simpa only [Number.render, String.toList_ofList] using number?_toDigits h

theorem writable_listJson
    {α : Type} {write : α → Json} {xs : List α}
    (h : ∀ x ∈ xs, Writable room (write x)) :
    Writable (room + 1) (listJson write xs) := by
  refine .array fun j hj => ?_
  obtain ⟨x, hx, rfl⟩ := List.mem_map.mp hj
  exact h x hx

theorem writable_textsJson (ss : List String) : Writable (room + 1) (textsJson ss) :=
  writable_listJson fun s _ => .text s

theorem writable_optionJson
    {α : Type} {write : α → Json} {x : Option α}
    (h : ∀ a, x = some a → Writable room (write a)) :
    Writable room (optionJson write x) := by
  cases x with
  | none => exact .null
  | some a => exact h a rfl

theorem writable_slots
    {ns : List Nat}
    (h : ∀ n ∈ ns, n < Decimal.significandBound) :
    Writable (room + 1) (listJson natJson ns) :=
  writable_listJson fun n hn => writable_natJson (h n hn)

theorem writable_slot
    {n : Option Nat}
    (h : ∀ k, n = some k → k < Decimal.significandBound) :
    Writable room (optionJson natJson n) :=
  writable_optionJson fun k hk => writable_natJson (h k hk)

theorem writable_tagged
    {ms : Members}
    (h : ∀ m ∈ ms, Writable room m.2)
    (key kind : String) :
    Writable (room + 1) (tagged key kind ms) :=
  .object (List.forall_mem_cons.mpr ⟨.text kind, h⟩)

theorem Literal.writable_toJson
    {l : Literal}
    (h : ∀ x, l = .number x → ReadsBack x) :
    Writable (room + 1) l.toJson := by
  cases l with
  | nil => exact writable_tagged (by simp) _ _
  | number x =>
      obtain ⟨m, hread, -⟩ := h x rfl
      exact writable_tagged (by simpa using Writable.number hread) _ _
  | text s => exact writable_tagged (by simpa using Writable.text s) _ _

theorem Case.writable_toJson
    {arm : Case}
    (h : ∀ n ∈ arm.slots, n < Decimal.significandBound) :
    Writable (room + 1) arm.toJson := by
  cases arm
  all_goals
    simp only [slots, List.forall_mem_cons] at h
    refine writable_tagged ?_ _ _
    simp [h, writable_natJson, Writable.text]

theorem Instruction.writable_toJson
    {i : Instruction}
    (h : Printable i.slots i.constants) :
    Writable (room + 3) i.toJson := by
  have hsizes := h.sizes
  cases i
  case literal target l =>
    have hl : Writable (room + 2) l.toJson := Literal.writable_toJson (by
      rintro x rfl
      exact h.constants x (by simp [constants]))
    have htarget : Writable (room + 2) (natJson target) := writable_natJson (hsizes target (by simp [slots]))
    exact writable_tagged (by simpa using ⟨htarget, hl⟩) _ _
  case select arms onFail =>
    have harms : Writable (room + 2) (listJson Case.toJson arms) := writable_listJson fun arm harm =>
      Case.writable_toJson fun n hn => hsizes n (List.mem_flatMap.mpr ⟨arm, harm, hn⟩)
    have honFail : Writable (room + 2) (optionJson .text onFail) := writable_optionJson fun s _ => .text s
    exact writable_tagged (by simpa using ⟨harms, honFail⟩) _ _
  all_goals
    simp only [slots, Destination.slots, List.forall_mem_append, List.forall_mem_cons, Option.mem_toList] at hsizes
    refine writable_tagged ?_ _ _
    simp +contextual [hsizes, writable_natJson, writable_slot, writable_slots, writable_optionJson,
      writable_textsJson, Writable.text, Writable.bool]

theorem Chunk.writable_toJson
    {c : Chunk}
    (h : Printable c.sizes c.constants) :
    Writable (room + 5) c.toJson := by
  have hbody : Writable (room + 4) (listJson Instruction.toJson c.body) := writable_listJson fun i hi =>
    Instruction.writable_toJson (Printable.of_mem h hi)
  exact .object (by simpa using ⟨.text c.label, hbody⟩)

theorem Procedure.writable_toJson
    {p : Procedure}
    (h : Printable p.sizes p.constants) :
    Writable (room + 7) p.toJson := by
  have htemps : Writable (room + 6) (natJson p.temps) := writable_natJson (h.sizes p.temps List.mem_cons_self)
  have hinner : Printable (p.chunks.flatMap Chunk.sizes) (p.chunks.flatMap Chunk.constants) :=
    ⟨fun n hn => h.sizes n (List.mem_cons_of_mem _ hn), h.constants⟩
  have hchunks : Writable (room + 6) (listJson Chunk.toJson p.chunks) := writable_listJson fun c hc =>
    Chunk.writable_toJson (hinner.of_mem hc)
  exact .object (by simp [htemps, hchunks, writable_textsJson, Writable.text, Writable.bool])

theorem Global.writable_toJson
    {g : Global}
    (h : ∀ p, g.init = some p → Printable p.sizes p.constants) :
    Writable (room + 8) g.toJson := by
  have hinit : Writable (room + 7) (optionJson Procedure.toJson g.init) := writable_optionJson fun p hp =>
    Procedure.writable_toJson (h p hp)
  exact .object (by simp [hinit, writable_textsJson, Writable.text])

theorem Record.writable_toJson (r : Record) : Writable (room + 2) r.toJson :=
  .object (by simp [writable_textsJson, Writable.text])

/-- The tree of a program has a text that is read. -/
theorem Program.writable_toJson
    {p : Program}
    (h : Printable p.sizes p.constants) :
    Writable (room + 10) p.toJson := by
  have hprocedures : Writable (room + 9) (listJson Procedure.toJson p.procedures) := writable_listJson fun q hq =>
    Procedure.writable_toJson (h.of_mem (List.mem_append_left _ hq))
  have hglobals : Writable (room + 9) (listJson Global.toJson p.globals) := writable_listJson fun g hg =>
    Global.writable_toJson fun q hq =>
      h.of_mem (List.mem_append_right _ (List.mem_filterMap.mpr ⟨g, hg, hq⟩))
  have hrecords : Writable (room + 9) (listJson Record.toJson p.records) := writable_listJson fun r _ =>
    r.writable_toJson
  exact .object (by simp [hprocedures, hglobals, hrecords])

/-- A program that can be written is read back. -/
theorem Program.parse?_render_toJson
    {p : Program}
    (h : Printable p.sizes p.constants) :
    Program.parse? p.toJson.render = some p := by
  rw [Program.parse?, parse?_render (@Program.writable_toJson 117 p h), Option.bind_some]
  exact Program.ofJson?_mapNumbers h.keeps

/-! ## Reading -/

/-- What a reader gives for a tree whose natural numbers have sixty-four bits. -/
def Yields {α : Type} (read : Json → Option α) (P : α → Prop) : Prop :=
  ∀ j a, j.Sized → read j = some a → P a

theorem yields_nat? : Yields nat? fun n => n < Decimal.significandBound := by
  intro j n hj h
  cases hj with
  | natural hn =>
      cases h
      exact hn
  | _ => cases h

theorem Yields.list?
    {α : Type} {read : Json → Option α} {P : α → Prop}
    (h : Yields read P) :
    Yields (Ir.list? read) fun xs => ∀ x ∈ xs, P x := by
  intro j xs hj hread
  cases hj with
  | @array items hitems =>
      rw [Ir.list?] at hread
      induction items generalizing xs with
      | nil =>
          cases hread
          intro x hx
          cases hx
      | cons item rest ih =>
          rw [List.forall_mem_cons] at hitems
          simp only [List.mapM_cons, Option.bind_eq_bind, Option.bind_eq_some_iff] at hread
          obtain ⟨x, hx, ys, hys, heq⟩ := hread
          cases heq
          exact List.forall_mem_cons.mpr ⟨h item x hitems.1 hx, ih ys hitems.2 hys⟩
  | _ => cases hread

theorem Yields.option?
    {α : Type} {read : Json → Option α} {P : α → Prop}
    (h : Yields read P) :
    Yields (Ir.option? read) fun x => ∀ a, x = some a → P a := by
  rintro j x hj hread a rfl
  unfold Ir.option? at hread
  split at hread
  · cases hread
  · obtain ⟨b, hb, heq⟩ := Option.map_eq_some_iff.mp hread
    cases heq
    exact h j a hj hb

/-- Members whose natural numbers have sixty-four bits. -/
def Members.Sized (ms : Members) : Prop :=
  ∀ m ∈ ms, m.2.Sized

theorem sized_members?
    {names : List String} {j : Json} {ms : Members}
    (hj : j.Sized)
    (h : members? names j = some ms) :
    ms.Sized := by
  unfold members? at h
  split at h
  · rename_i members
    cases hj with
    | object hmembers =>
        simp only at h
        split at h
        · cases h
          exact fun m hm => hmembers m (List.mem_of_mem_filter hm)
        · cases h
  · rename_i items
    cases hj with
    | array hitems =>
        split at h
        · cases h
          exact fun m hm => hitems m.2 (List.of_mem_zip hm).2
        · cases h
  · cases h

theorem sized_untag?
    {key : String} {j kind rest : Json}
    (hj : j.Sized)
    (h : untag? key j = some (kind, rest)) :
    rest.Sized := by
  unfold untag? at h
  split at h
  · rename_i members
    cases hj with
    | object hmembers =>
        split at h
        · cases h
          exact .object fun m hm => hmembers m (List.mem_of_mem_filter hm)
        · cases h
  · rename_i first rest
    cases hj with
    | array hitems =>
        cases h
        exact .array fun j hj => hitems j (List.mem_cons_of_mem _ hj)
  · cases h

namespace Members

variable {α : Type} {ms : Members} {name : String} {read : Json → Option α} {P : α → Prop}

theorem Sized.lookup
    (hms : ms.Sized)
    {j : Json}
    (h : ms.lookup name = some j) :
    j.Sized := by
  obtain ⟨before, after, hsplit, -⟩ := List.lookup_eq_some_iff.mp h
  exact hms (name, j) (hsplit ▸ List.mem_append_right _ List.mem_cons_self)

theorem Sized.required
    (hms : ms.Sized)
    (hread : Yields read P)
    {a : α}
    (h : ms.required name read = some a) :
    P a := by
  obtain ⟨j, hj, ha⟩ := Option.bind_eq_some_iff.mp h
  exact hread j a (hms.lookup hj) ha

theorem Sized.defaulted
    (hms : ms.Sized)
    (hread : Yields read P)
    {otherwise a : α}
    (hotherwise : P otherwise)
    (h : ms.defaulted name read otherwise = some a) :
    P a := by
  unfold Members.defaulted at h
  split at h
  · rename_i j hj
    exact hread j a (hms.lookup hj) h
  · cases h
    exact hotherwise

theorem Sized.slot
    (hms : ms.Sized)
    {n : Nat}
    (h : ms.required name nat? = some n) :
    n < Decimal.significandBound :=
  hms.required yields_nat? h

theorem Sized.slots
    (hms : ms.Sized)
    {ns : List Nat}
    (h : ms.defaulted name (list? nat?) [] = some ns) :
    ∀ n ∈ ns, n < Decimal.significandBound :=
  hms.defaulted yields_nat?.list? (by simp) h

theorem Sized.optional
    (hms : ms.Sized)
    {x : Option Nat}
    (h : ms.optional name nat? = some x) :
    ∀ n ∈ x.toList, n < Decimal.significandBound := by
  intro n hn
  exact hms.defaulted yields_nat?.option? (by simp) h n (Option.mem_toList.mp hn)

theorem Sized.destination
    (hms : ms.Sized)
    {d : Destination}
    (h : ms.destination = some d) :
    ∀ n ∈ d.slots, n < Decimal.significandBound := by
  simp only [Members.destination, Option.bind_eq_bind, Option.bind_eq_some_iff] at h
  obtain ⟨value, hvalue, next, hnext, onFail, -, heq⟩ := h
  cases heq
  exact List.forall_mem_append.mpr ⟨hms.optional hvalue, hms.optional hnext⟩

end Members

theorem Case.sized_ofJson? : Yields Case.ofJson? fun arm => ∀ n ∈ arm.slots, n < Decimal.significandBound := by
  intro j arm hj h
  simp only [Case.ofJson?, Option.bind_eq_bind, Option.bind_eq_some_iff] at h
  obtain ⟨⟨kind, rest⟩, huntag, name, -, h⟩ := h
  have hrest := sized_untag? hj huntag
  split at h
  all_goals simp only [Option.bind_eq_some_iff, reduceCtorEq] at h
  · obtain ⟨ms, hms, channel, hchannel, value, hvalue, body, -, heq⟩ := h
    cases heq
    have hsized := sized_members? hrest hms
    simpa [slots] using ⟨hsized.slot hchannel, hsized.slot hvalue⟩
  · obtain ⟨ms, hms, channel, hchannel, target, htarget, body, -, heq⟩ := h
    cases heq
    have hsized := sized_members? hrest hms
    simpa [slots] using ⟨hsized.slot hchannel, hsized.slot htarget⟩
  · obtain ⟨ms, hms, body, -, heq⟩ := h
    cases heq
    simp [slots]

theorem Case.sized_list? :
    Yields (list? Case.ofJson?) fun arms => ∀ n ∈ arms.flatMap Case.slots, n < Decimal.significandBound := by
  intro j arms hj h n hn
  obtain ⟨arm, harm, hslot⟩ := List.mem_flatMap.mp hn
  exact Case.sized_ofJson?.list? j arms hj h arm harm n hslot

theorem eq_of_nothing?
    {α : Type} {a b : α} {j : Json}
    (h : nothing? a j = some b) :
    b = a := by
  unfold nothing? at h
  split at h
  all_goals cases h
  all_goals rfl

namespace Instruction

theorem sized_ofMembers?
    {kind : String} {rest : Json} {i : Instruction}
    (hrest : rest.Sized)
    (h : ofMembers? kind rest = some i) :
    ∀ n ∈ i.slots, n < Decimal.significandBound := by
  unfold ofMembers? at h
  split at h
  -- Two kinds have no members at all, and one has arms.
  case h_14 =>
    rw [eq_of_nothing? h]
    simp [slots]
  case h_19 =>
    rw [eq_of_nothing? h]
    simp [slots]
  case h_20 =>
    simp only [Option.bind_eq_bind, Option.bind_eq_some_iff] at h
    obtain ⟨ms, hms, arms, harms, onFail, -, heq⟩ := h
    cases heq
    exact (sized_members? hrest hms).required Case.sized_list? harms
  all_goals
    simp only [Option.bind_eq_bind, Option.bind_eq_some_iff, Option.pure_def, Option.some.injEq, reduceCtorEq] at h
  all_goals
    obtain ⟨ms, hms, h⟩ := h
    have hsized := sized_members? hrest hms
    clear hms hrest
    grind [slots, Members.Sized.slot, Members.Sized.slots, Members.Sized.optional, Members.Sized.destination]

theorem sized_ofJson? : Yields ofJson? fun i => ∀ n ∈ i.slots, n < Decimal.significandBound := by
  intro j i hj h
  unfold ofJson? at h
  obtain ⟨-, -, h⟩ := Option.bind_eq_some_iff.mp h
  obtain ⟨⟨kind, rest⟩, huntag, h⟩ := Option.bind_eq_some_iff.mp h
  obtain ⟨name, -, hmembers⟩ := Option.bind_eq_some_iff.mp h
  exact sized_ofMembers? (sized_untag? hj huntag) hmembers

end Instruction

theorem Chunk.sized_ofJson? : Yields Chunk.ofJson? fun c => ∀ n ∈ c.sizes, n < Decimal.significandBound := by
  intro j c hj h
  simp only [Chunk.ofJson?, Option.bind_eq_bind, Option.bind_eq_some_iff] at h
  obtain ⟨ms, hms, label, -, body, hbody, heq⟩ := h
  cases heq
  intro n hn
  obtain ⟨i, hi, hslot⟩ := List.mem_flatMap.mp hn
  exact (sized_members? hj hms).required Instruction.sized_ofJson?.list? hbody i hi n hslot

theorem Procedure.sized_ofJson? :
    Yields Procedure.ofJson? fun p => ∀ n ∈ p.sizes, n < Decimal.significandBound := by
  intro j p hj h
  simp only [Procedure.ofJson?, Option.bind_eq_bind, Option.bind_eq_some_iff] at h
  obtain ⟨ms, hms, name, -, space, -, params, -, locals, -, statics, -, variadic, -, temps, htemps, entry, -,
    chunks, hchunks, deps, -, heq⟩ := h
  cases heq
  have hsized := sized_members? hj hms
  refine List.forall_mem_cons.mpr ⟨hsized.defaulted yields_nat? (by decide) htemps, fun n hn => ?_⟩
  obtain ⟨c, hc, hslot⟩ := List.mem_flatMap.mp hn
  exact hsized.required Chunk.sized_ofJson?.list? hchunks c hc n hslot

theorem Global.sized_ofJson? :
    Yields Global.ofJson? fun g => ∀ p, g.init = some p → ∀ n ∈ p.sizes, n < Decimal.significandBound := by
  intro j g hj h
  simp only [Global.ofJson?, Option.bind_eq_bind, Option.bind_eq_some_iff] at h
  obtain ⟨ms, hms, name, -, space, -, init, hinit, deps, -, heq⟩ := h
  cases heq
  exact (sized_members? hj hms).defaulted Procedure.sized_ofJson?.option? (by simp) hinit

namespace Program

/-- The slots and counts of a program that is read have sixty-four bits. -/
theorem sizes_ofJson? : Yields ofJson? fun p => ∀ n ∈ p.sizes, n < Decimal.significandBound := by
  intro j p hj h
  simp only [ofJson?, Option.bind_eq_bind, Option.bind_eq_some_iff] at h
  obtain ⟨ms, hms, procedures, hprocedures, globals, hglobals, records, -, heq⟩ := h
  cases heq
  have hsized := sized_members? hj hms
  intro n hn
  obtain ⟨q, hq, hslot⟩ := List.mem_flatMap.mp hn
  rcases List.mem_append.mp hq with hprocedure | hinit
  · exact hsized.defaulted Procedure.sized_ofJson?.list? (by simp) hprocedures q hprocedure n hslot
  · obtain ⟨g, hg, hinit⟩ := List.mem_filterMap.mp hinit
    exact hsized.defaulted Global.sized_ofJson?.list? (by simp) hglobals g hg q hinit n hslot

/-- A program reads back from its tree. -/
theorem ofJson?_toJson (p : Program) : ofJson? p.toJson = some p := by
  have hread := ofJson?_mapNumbers (f := .number) (p := p) ⟨fun _ _ => rfl, fun x _ => ⟨.real x, rfl, rfl⟩⟩
  rwa [Json.mapNumbers_number] at hread

/-- **Round trip.**  Each program is read from its own tree.  If its slots and counts have sixty-four bits and its
constants are finite, it is read from its own text, as long as the text of each constant stands for it.  The program of
a text is written as another text of the same program, with all defaults filled in, because each member that is left
out means the same as its default. -/
theorem round_trip :
    (∀ p : Program, ofJson? p.toJson = some p) ∧
      (∀ p : Program, (∀ n ∈ p.sizes, n < Nat.pow 2 64) → (∀ x ∈ p.constants, x.isFinite = true) →
        (∀ x ∈ p.constants, x.isFinite = true → ReadsBack x) → parse? p.toJson.render = some p) ∧
      (∀ (t : String) (p : Program), parse? t = some p → (∀ x ∈ p.constants, ReadsBack x) →
        parse? p.toJson.render = some p) ∧
      (∀ (m : String × Json) (ms : Members), m.1 ∉ ms.map Prod.fst →
        (m ∈ defaults → ofJson? (.object (m :: ms)) = ofJson? (.object ms)) ∧
        (m ∈ Procedure.defaults → Procedure.ofJson? (.object (m :: ms)) = Procedure.ofJson? (.object ms)) ∧
        (m ∈ Global.defaults → Global.ofJson? (.object (m :: ms)) = Global.ofJson? (.object ms)) ∧
        (m ∈ Record.defaults → Record.ofJson? (.object (m :: ms)) = Record.ofJson? (.object ms)) ∧
        ∀ kind rest, untag? "t" (.object ms) = some (.text kind, rest) → m ∈ Instruction.defaults kind →
          Instruction.ofJson? (.object (m :: ms)) = Instruction.ofJson? (.object ms)) := by
  refine ⟨ofJson?_toJson, ?_, ?_, ?_⟩
  · intro p hsizes hfinite hread
    exact parse?_render_toJson ⟨hsizes, fun x hx => hread x hx (hfinite x hx)⟩
  · intro t p hparse hread
    obtain ⟨j, hj, hp⟩ := Option.bind_eq_some_iff.mp hparse
    exact parse?_render_toJson ⟨sizes_ofJson? j p (sized_parse? hj) hp, hread⟩
  · intro m ms habsent
    exact ⟨fun hm => ofJson?_default hm habsent, fun hm => Procedure.ofJson?_default hm habsent,
      fun hm => Global.ofJson?_default hm habsent, fun hm => Record.ofJson?_default hm habsent,
      fun _ _ hkind hm => Instruction.ofJson?_default hkind hm habsent⟩

/-- A procedure that gives the number two. -/
def giveTwo : Program where
  procedures :=
    [{ name := "two", namespaceName := "", params := [], locals := [], statics := [], variadic := false, temps := 1
       entry := "start", deps := []
       chunks := [⟨"start", [.literal 0 (.number (Float.ofNat 2)), .succeed (some 0) none]⟩] }]
  globals := []
  records := []

theorem readsBack_two : ReadsBack (Float.ofNat 2) := by
  have htext : (Number.real (Float.ofNat 2)).render.toList = Nat.toDigits 10 2 := by decide +kernel
  exact ⟨.natural 2, htext ▸ number?_toDigits (by decide), rfl⟩

/-- The program that gives two, and a text that leaves all lists out. -/
theorem round_trip_giveTwo :
    parse? giveTwo.toJson.render = some giveTwo ∧
      parse? (toJson ⟨[], [], []⟩).render = some ⟨[], [], []⟩ ∧
      Global.ofJson? (.object [("init", .null), ("name", .text "g")]) =
        Global.ofJson? (.object [("name", .text "g")]) := by
  have hconstants : ∀ x ∈ giveTwo.constants, x = Float.ofNat 2 := by
    intro x hx
    exact List.mem_singleton.mp hx
  have htext : parse? "\x7b\x7d" = some ⟨[], [], []⟩ := rfl
  refine ⟨round_trip.2.1 giveTwo (by decide) ?_ ?_, round_trip.2.2.1 _ _ htext ?_, ?_⟩
  · intro x hx
    rw [hconstants x hx]
    decide +kernel
  · intro x hx _
    rw [hconstants x hx]
    exact readsBack_two
  · intro x hx
    cases hx
  · exact (round_trip.2.2.2 ("init", .null) [("name", .text "g")] (by decide)).2.2.1 (by simp [Global.defaults])

end Program

end RoundTrip

end Ir
end GoalDirected
