import GoalDirected.Ir.Reading
import GoalDirected.Ir.Writing
import GoalDirected.Proofs.Json.RoundTrip

/-!
# Programs read back from trees

**Input.**  A program in intermediate form, and its tree with numbers that may have other classes.

**Argument.**  Each part is an object with all its members, so every reader finds what it looks for.  No reader of a
constant looks at the class of a number.

**Results.**
* `Instruction.ofJson?_mapNumbers`: an instruction is read from its own tree.
* `Program.ofJson?_mapNumbers`: a program is read from its own tree, whatever the classes of its constants.
-/

namespace GoalDirected
namespace Ir

open Json

section Trees

/-! ## Members -/

theorem members?_of_keys
    {names : List String} {ms : Members}
    (h : ms.map Prod.fst = names)
    (hnodup : names.Nodup) :
    members? names (.object ms) = some ms := by
  have hknown : ms.filter (fun m => names.contains m.1) = ms := by
    rw [List.filter_eq_self]
    intro m hm
    rw [List.contains_iff_mem, ← h]
    exact List.mem_map_of_mem hm
  simp only [members?, hknown, h, if_pos hnodup]

theorem untag?_tagged
    {key : String} {ms : Members}
    (h : key ∉ ms.map Prod.fst)
    (kind : String) :
    untag? key (tagged key kind ms) = some (.text kind, .object ms) := by
  have hothers : ∀ m ∈ ms, m.1 ≠ key := fun m hm heq => h (heq ▸ List.mem_map_of_mem hm)
  have hkey : ms.filter (fun m => m.1 == key) = [] := by
    simpa using hothers
  have hrest : ms.filter (fun m => m.1 != key) = ms := by
    simpa using hothers
  simp only [untag?, tagged, List.filter_cons, hkey, hrest, BEq.rfl, if_true, bne_self_eq_false, Bool.false_eq_true,
    if_false]

namespace Members

variable {α : Type} (ms : Members) (j : Json) (read : Json → Option α) (otherwise : α)

theorem required_self (name : String) :
    required ((name, j) :: ms) name read = read j := by
  simp [required]

theorem required_of_ne
    {name key : String}
    (h : name ≠ key) :
    required ((key, j) :: ms) name read = required ms name read := by
  simp [required, List.lookup_cons, beq_false_of_ne h]

theorem defaulted_self (name : String) :
    defaulted ((name, j) :: ms) name read otherwise = read j := by
  simp [defaulted]

theorem defaulted_of_ne
    {name key : String}
    (h : name ≠ key) :
    defaulted ((key, j) :: ms) name read otherwise = defaulted ms name read otherwise := by
  simp [defaulted, List.lookup_cons, beq_false_of_ne h]

end Members

/-! ## Data -/

theorem list?_listJson
    {α : Type} {read : Json → Option α} {write : α → Json} {xs : List α}
    (h : ∀ x ∈ xs, read (write x) = some x) :
    list? read (listJson write xs) = some xs := by
  induction xs with
  | nil => rfl
  | cons x xs ih =>
      rw [List.forall_mem_cons] at h
      have hrest := ih h.2
      simp only [list?, listJson] at hrest
      simp [list?, listJson, h.1, hrest]

@[simp]
theorem nat?_natJson (n : Nat) : nat? (natJson n) = some n :=
  rfl

@[simp]
theorem text?_text (s : String) : text? (.text s) = some s :=
  rfl

@[simp]
theorem bool?_bool (b : Bool) : bool? (.bool b) = some b :=
  rfl

@[simp]
theorem option?_natJson (n : Option Nat) : option? nat? (optionJson natJson n) = some n := by
  cases n with
  | none => rfl
  | some n => rfl

@[simp]
theorem option?_text (s : Option String) : option? text? (optionJson .text s) = some s := by
  cases s with
  | none => rfl
  | some s => rfl

@[simp]
theorem list?_natJson (ns : List Nat) : list? nat? (listJson natJson ns) = some ns :=
  list?_listJson fun n _ => nat?_natJson n

@[simp]
theorem list?_textsJson (ss : List String) : list? text? (textsJson ss) = some ss :=
  list?_listJson fun s _ => text?_text s

theorem isMeaningful_array (items : List Json) :
    (Json.array items).isMeaningful = items.all isMeaningful := by
  rw [isMeaningful]
  induction items with
  | nil => rfl
  | cons j rest ih => rw [areMeaningful, ih, List.all_cons]

theorem isMeaningful_listJson
    {α : Type} {write : α → Json} {xs : List α}
    (h : ∀ x ∈ xs, (write x).isMeaningful = true) :
    (listJson write xs).isMeaningful = true := by
  rw [listJson, isMeaningful_array, List.all_map, List.all_eq_true]
  exact h

@[simp]
theorem isMeaningful_textsJson (ss : List String) : (textsJson ss).isMeaningful = true :=
  isMeaningful_listJson fun _ _ => rfl

@[simp]
theorem isMeaningful_natJson (n : Nat) : (natJson n).isMeaningful = true :=
  rfl

@[simp]
theorem isMeaningful_listJson_natJson (ns : List Nat) : (listJson natJson ns).isMeaningful = true :=
  isMeaningful_listJson fun _ _ => rfl

@[simp]
theorem isMeaningful_optionJson_natJson (n : Option Nat) : (optionJson natJson n).isMeaningful = true := by
  cases n with
  | none => rfl
  | some n => rfl

@[simp]
theorem isMeaningful_optionJson_text (s : Option String) : (optionJson .text s).isMeaningful = true := by
  cases s with
  | none => rfl
  | some s => rfl

/-! ## Numbers -/

/-- A change of numbers that slots and counts do not notice, and constants only in their class. -/
structure Keeps (f : Json.Number → Json) (sizes : List Nat) (constants : List Float) : Prop where
  sizes : ∀ n ∈ sizes, f (.natural n) = .number (.natural n)
  constants : ∀ x ∈ constants, ∃ m, f (.real x) = .number m ∧ m.toFloat = x

variable {f : Json.Number → Json}

theorem Keeps.of_mem
    {α : Type} {xs : List α} {sizes : α → List Nat} {constants : α → List Float}
    (h : Keeps f (xs.flatMap sizes) (xs.flatMap constants))
    {x : α}
    (hx : x ∈ xs) :
    Keeps f (sizes x) (constants x) :=
  ⟨fun n hn => h.sizes n (List.mem_flatMap.mpr ⟨x, hx, hn⟩),
    fun y hy => h.constants y (List.mem_flatMap.mpr ⟨x, hx, hy⟩)⟩

theorem mapNumbers_object (ms : Members) :
    (Json.object ms).mapNumbers f = .object (ms.map fun m => (m.1, m.2.mapNumbers f)) := by
  rw [mapNumbers, mapMembers_eq]

theorem mapNumbers_tagged (key kind : String) (ms : Members) :
    (tagged key kind ms).mapNumbers f = tagged key kind (ms.map fun m => (m.1, m.2.mapNumbers f)) := by
  rw [tagged, mapNumbers_object]
  rfl

theorem mapNumbers_listJson
    {α : Type} (write : α → Json) (xs : List α) :
    (listJson write xs).mapNumbers f = listJson (fun x => (write x).mapNumbers f) xs := by
  rw [listJson, mapNumbers, mapItems_eq, List.map_map]
  rfl

theorem mapNumbers_listJson_of_forall
    {α : Type} {write : α → Json} {xs : List α}
    (h : ∀ x ∈ xs, (write x).mapNumbers f = write x) :
    (listJson write xs).mapNumbers f = listJson write xs := by
  rw [mapNumbers_listJson, listJson, listJson, List.map_congr_left h]

@[simp]
theorem mapNumbers_textsJson (ss : List String) : (textsJson ss).mapNumbers f = textsJson ss :=
  mapNumbers_listJson_of_forall fun _ _ => rfl

theorem mapNumbers_optionJson
    {α : Type} (write : α → Json) (x : Option α) :
    (optionJson write x).mapNumbers f = optionJson (fun x => (write x).mapNumbers f) x := by
  cases x with
  | none => rfl
  | some x => rfl

@[simp]
theorem mapNumbers_optionJson_text (s : Option String) :
    (optionJson .text s).mapNumbers f = optionJson .text s :=
  mapNumbers_optionJson .text s

theorem mapNumbers_optionJson_natJson
    {n : Option Nat}
    (h : ∀ k, n = some k → (natJson k).mapNumbers f = natJson k) :
    (optionJson natJson n).mapNumbers f = optionJson natJson n := by
  cases n with
  | none => rfl
  | some k => exact h k rfl

/-! ## Instructions -/

theorem Literal.ofJson?_mapNumbers
    {l : Literal}
    (h : ∀ x, l = .number x → ∃ m, f (.real x) = .number m ∧ m.toFloat = x) :
    Literal.ofJson? (l.toJson.mapNumbers f) = some l ∧ (l.toJson.mapNumbers f).isMeaningful = true := by
  cases l with
  | nil => exact ⟨rfl, rfl⟩
  | number x =>
      obtain ⟨m, hm, hx⟩ := h x rfl
      rw [Literal.toJson, mapNumbers_tagged]
      simp only [List.map_cons, List.map_nil, mapNumbers, hm]
      refine ⟨?_, rfl⟩
      subst hx
      rfl
  | text s => exact ⟨rfl, rfl⟩

theorem Case.ofJson?_toJson (arm : Case) : Case.ofJson? arm.toJson = some arm := by
  cases arm
  all_goals
    simp [Case.toJson, Case.ofJson?, untag?_tagged, Case.kind?, members?_of_keys, Members.required_self,
      Members.required_of_ne]

theorem Case.isMeaningful_toJson (arm : Case) : arm.toJson.isMeaningful = true := by
  cases arm
  all_goals simp [Case.toJson, tagged, isMeaningful, membersAreMeaningful]

theorem Case.mapNumbers_toJson
    {arm : Case}
    (h : ∀ n ∈ arm.slots, (natJson n).mapNumbers f = natJson n) :
    arm.toJson.mapNumbers f = arm.toJson := by
  cases arm
  all_goals
    simp only [Case.slots, List.forall_mem_cons] at h
    simp [Case.toJson, mapNumbers_tagged, mapNumbers, h]

@[simp]
theorem list?_cases (arms : List Case) : list? Case.ofJson? (listJson Case.toJson arms) = some arms :=
  list?_listJson fun arm _ => arm.ofJson?_toJson

@[simp]
theorem isMeaningful_cases (arms : List Case) : (listJson Case.toJson arms).isMeaningful = true :=
  isMeaningful_listJson fun arm _ => arm.isMeaningful_toJson

namespace Instruction

/-- The numbers among the constants of an instruction. -/
def constants : Instruction → List Float
  | .literal _ (.number x) => [x]
  | _ => []

theorem ofJson?_tagged
    {ms : Members}
    (hkey : "t" ∉ ms.map Prod.fst)
    (hmeaning : membersAreMeaningful ms = true)
    (kind : String) :
    ofJson? (tagged "t" kind ms) = ofMembers? kind (.object ms) := by
  have hall : (tagged "t" kind ms).isMeaningful = true := by
    simpa only [tagged, isMeaningful, membersAreMeaningful, Bool.true_and] using hmeaning
  simp [ofJson?, untag?_tagged hkey, hall, guard]

/-- An instruction reads back from its tree; a constant may have changed on the way. -/
theorem ofJson?_toJson
    {i : Instruction}
    (h : ∀ target l, i ≠ .literal target l) :
    ofJson? i.toJson = some i := by
  cases i
  case literal target l => exact absurd rfl (h target l)
  all_goals
    rw [toJson, ofJson?_tagged (by simp) (by simp [membersAreMeaningful, isMeaningful])]
    simp [ofMembers?, members?_of_keys, Members.required_self, Members.required_of_ne, Members.defaulted_self,
      Members.defaulted_of_ne, Members.optional, Members.texts, Members.destination, nothing?]

theorem mapNumbers_toJson
    {i : Instruction}
    (h : ∀ target l, i ≠ .literal target l)
    (hsizes : ∀ n ∈ i.slots, (natJson n).mapNumbers f = natJson n) :
    i.toJson.mapNumbers f = i.toJson := by
  cases i
  case literal target l => exact absurd rfl (h target l)
  case select arms onFail =>
    have harms : (listJson Case.toJson arms).mapNumbers f = listJson Case.toJson arms :=
      mapNumbers_listJson_of_forall fun arm harm =>
        Case.mapNumbers_toJson fun n hn => hsizes n (List.mem_flatMap.mpr ⟨arm, harm, hn⟩)
    simp [toJson, mapNumbers_tagged, harms]
  all_goals
    simp only [slots, Destination.slots, List.forall_mem_append, List.forall_mem_cons, Option.mem_toList] at hsizes
    simp +contextual [toJson, mapNumbers_tagged, mapNumbers, hsizes, mapNumbers_listJson_of_forall,
      mapNumbers_optionJson_natJson]

/-- An instruction reads back from its tree, whatever the class of its constant. -/
theorem ofJson?_mapNumbers
    {i : Instruction}
    (h : Keeps f i.slots i.constants) :
    ofJson? (i.toJson.mapNumbers f) = some i := by
  have hsizes : ∀ n ∈ i.slots, (natJson n).mapNumbers f = natJson n := h.sizes
  by_cases hliteral : ∃ target l, i = .literal target l
  · obtain ⟨target, l, rfl⟩ := hliteral
    have hl := Literal.ofJson?_mapNumbers (f := f) (l := l) (by
      rintro x rfl
      exact h.constants x (by simp [constants]))
    have htarget := hsizes target (by simp [slots])
    rw [toJson, mapNumbers_tagged]
    simp only [List.map_cons, List.map_nil, htarget]
    rw [ofJson?_tagged (by simp) (by simp [membersAreMeaningful, hl.2])]
    simp [ofMembers?, members?_of_keys, Members.required_self, Members.required_of_ne, hl.1]
  · have hother : ∀ target l, i ≠ .literal target l := fun target l heq => hliteral ⟨target, l, heq⟩
    rw [mapNumbers_toJson hother hsizes, ofJson?_toJson hother]

end Instruction

/-! ## Parts -/

/-- The list of what is read from a list of parts. -/
theorem list?_mapNumbers
    {α : Type} {read : Json → Option α} {write : α → Json} {xs : List α}
    (h : ∀ x ∈ xs, read ((write x).mapNumbers f) = some x) :
    list? read ((listJson write xs).mapNumbers f) = some xs := by
  rw [mapNumbers_listJson]
  exact list?_listJson h

namespace Chunk

def sizes (c : Chunk) : List Nat :=
  c.body.flatMap Instruction.slots

def constants (c : Chunk) : List Float :=
  c.body.flatMap Instruction.constants

theorem ofJson?_mapNumbers
    {c : Chunk}
    (h : Keeps f c.sizes c.constants) :
    ofJson? (c.toJson.mapNumbers f) = some c := by
  have hbody : list? Instruction.ofJson? ((listJson Instruction.toJson c.body).mapNumbers f) = some c.body :=
    list?_mapNumbers fun i hi => Instruction.ofJson?_mapNumbers (Keeps.of_mem h hi)
  simp [toJson, mapNumbers_object, mapNumbers, ofJson?, members?_of_keys, Members.required_self,
    Members.required_of_ne, hbody]

end Chunk

namespace Procedure

/-- The slots and counts of a procedure. -/
def sizes (p : Procedure) : List Nat :=
  p.temps :: p.chunks.flatMap Chunk.sizes

def constants (p : Procedure) : List Float :=
  p.chunks.flatMap Chunk.constants

theorem ofJson?_mapNumbers
    {p : Procedure}
    (h : Keeps f p.sizes p.constants) :
    ofJson? (p.toJson.mapNumbers f) = some p := by
  have htemps : (natJson p.temps).mapNumbers f = natJson p.temps := h.sizes p.temps List.mem_cons_self
  have hinner : Keeps f (p.chunks.flatMap Chunk.sizes) (p.chunks.flatMap Chunk.constants) :=
    ⟨fun n hn => h.sizes n (List.mem_cons_of_mem _ hn), h.constants⟩
  have hchunks : list? Chunk.ofJson? ((listJson Chunk.toJson p.chunks).mapNumbers f) = some p.chunks :=
    list?_mapNumbers fun c hc => Chunk.ofJson?_mapNumbers (hinner.of_mem hc)
  simp [toJson, mapNumbers_object, mapNumbers, ofJson?, members?_of_keys, Members.required_self,
    Members.required_of_ne, Members.texts, Members.defaulted_self, Members.defaulted_of_ne, htemps, hchunks]

end Procedure

namespace Global

theorem ofJson?_mapNumbers
    {g : Global}
    (h : ∀ p ∈ g.init, Procedure.ofJson? (p.toJson.mapNumbers f) = some p) :
    ofJson? (g.toJson.mapNumbers f) = some g := by
  have hinit : option? Procedure.ofJson? ((optionJson Procedure.toJson g.init).mapNumbers f) = some g.init := by
    cases hcase : g.init with
    | none => rfl
    | some p =>
        rw [mapNumbers_optionJson, optionJson]
        have hp := h p hcase
        rw [Procedure.toJson, mapNumbers_object] at hp ⊢
        rw [option?, hp, Option.map_some]
        intro heq
        cases heq
  simp [toJson, mapNumbers_object, mapNumbers, ofJson?, members?_of_keys, Members.required_self,
    Members.texts, Members.optional, Members.defaulted_self, Members.defaulted_of_ne, hinit]

end Global

namespace Record

theorem ofJson?_mapNumbers (r : Record) : ofJson? (r.toJson.mapNumbers f) = some r := by
  simp [toJson, mapNumbers_object, mapNumbers, ofJson?, members?_of_keys, Members.required_self, Members.texts,
    Members.defaulted_self, Members.defaulted_of_ne]

end Record

namespace Program

/-- The procedures and the initializers. -/
def bodies (p : Program) : List Procedure :=
  p.procedures ++ p.globals.filterMap (·.init)

/-- The slots and counts of a program. -/
def sizes (p : Program) : List Nat :=
  p.bodies.flatMap Procedure.sizes

/-- The numbers among the constants of a program. -/
def constants (p : Program) : List Float :=
  p.bodies.flatMap Procedure.constants

/-- A program reads back from its tree, whatever the classes of its constants. -/
theorem ofJson?_mapNumbers
    {p : Program}
    (h : Keeps f p.sizes p.constants) :
    ofJson? (p.toJson.mapNumbers f) = some p := by
  have hprocedures : list? Procedure.ofJson? ((listJson Procedure.toJson p.procedures).mapNumbers f) =
      some p.procedures :=
    list?_mapNumbers fun q hq => Procedure.ofJson?_mapNumbers (Keeps.of_mem h (List.mem_append_left _ hq))
  have hglobals : list? Global.ofJson? ((listJson Global.toJson p.globals).mapNumbers f) = some p.globals :=
    list?_mapNumbers fun g hg => Global.ofJson?_mapNumbers fun q hq =>
      Procedure.ofJson?_mapNumbers
        (Keeps.of_mem h (List.mem_append_right _ (List.mem_filterMap.mpr ⟨g, hg, hq⟩)))
  have hrecords : list? Record.ofJson? ((listJson Record.toJson p.records).mapNumbers f) = some p.records :=
    list?_mapNumbers fun r _ => r.ofJson?_mapNumbers
  simp [toJson, mapNumbers_object, ofJson?, members?_of_keys, Members.defaulted_self, Members.defaulted_of_ne,
    hprocedures, hglobals, hrecords]

end Program

end Trees

end Ir
end GoalDirected
