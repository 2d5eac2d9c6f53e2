import GoalDirected.Proofs.Ir.Trees

/-!
# Members that are left out

**Input.**  The object of a part of a program in which an optional member is missing.

**Argument.**  Readers look members up by name.  Where one is missing they take what they would have read from its
default, and they find all the others as before.

**Results.**
* `Program.ofJson?_default`, `Procedure.ofJson?_default`, `Global.ofJson?_default`, `Record.ofJson?_default` and
  `Instruction.ofJson?_default`: a member that is left out means the same as its default.
-/

namespace GoalDirected
namespace Ir

open Json

section Defaults

/-- The objects with and without a member that had not been there. -/
theorem members?_cons
    {names : List String} {m : String × Json} {ms : Members}
    (hname : m.1 ∈ names)
    (habsent : m.1 ∉ ms.map Prod.fst) :
    members? names (.object (m :: ms)) = (members? names (.object ms)).map (m :: ·) := by
  have hkey : (names.contains m.1) = true := List.contains_iff_mem.mpr hname
  have hknown : m.1 ∉ (ms.filter fun m => names.contains m.1).map Prod.fst := by
    intro hmem
    obtain ⟨n, hn, heq⟩ := List.mem_map.mp hmem
    exact habsent (List.mem_map.mpr ⟨n, List.mem_of_mem_filter hn, heq⟩)
  simp only [members?, List.filter_cons, hkey, if_true, List.map_cons, List.nodup_cons]
  by_cases hnodup : ((ms.filter fun m => names.contains m.1).map Prod.fst).Nodup
  · rw [if_pos ⟨hknown, hnodup⟩, if_pos hnodup, Option.map_some]
  · rw [if_neg fun h => hnodup h.2, if_neg hnodup, Option.map_none]

theorem Members.defaulted_absent
    {α : Type} {ms : Members} {name : String}
    (h : name ∉ ms.map Prod.fst)
    (read : Json → Option α) (otherwise : α) :
    ms.defaulted name read otherwise = some otherwise := by
  have hlookup : ms.lookup name = none := by
    rw [List.lookup_eq_none_iff]
    intro m hm
    have hne : name ≠ m.1 := fun heq => h (heq ▸ List.mem_map_of_mem hm)
    simpa using hne
  simp only [Members.defaulted, hlookup]

/-- Readers that treat members with and without an additional one alike treat objects so. -/
theorem bind_members?_cons
    {α : Type} {names : List String} {m : String × Json} {ms : Members} {read : Members → Option α}
    (hname : m.1 ∈ names)
    (habsent : m.1 ∉ ms.map Prod.fst)
    (hread : ∀ known : Members, m.1 ∉ known.map Prod.fst → read (m :: known) = read known) :
    (members? names (.object (m :: ms))).bind read = (members? names (.object ms)).bind read := by
  rw [members?_cons hname habsent]
  cases hknown : members? names (.object ms) with
  | none => rfl
  | some known =>
      refine hread known fun hmem => ?_
      simp only [members?] at hknown
      split at hknown
      · cases hknown
        obtain ⟨n, hn, heq⟩ := List.mem_map.mp hmem
        exact habsent (List.mem_map.mpr ⟨n, List.mem_of_mem_filter hn, heq⟩)
      · cases hknown

/-- The members of a procedure that may be left out, with what they stand for then. -/
def Procedure.defaults : Members :=
  [("namespace", .text ""), ("params", textsJson []), ("locals", textsJson []), ("statics", textsJson []),
    ("variadic", .bool false), ("temps", natJson 0), ("deps", textsJson [])]

theorem Procedure.ofJson?_default
    {m : String × Json} {ms : Members}
    (hm : m ∈ Procedure.defaults)
    (habsent : m.1 ∉ ms.map Prod.fst) :
    Procedure.ofJson? (.object (m :: ms)) = Procedure.ofJson? (.object ms) := by
  simp only [defaults, List.mem_cons, List.not_mem_nil, or_false] at hm
  rcases hm with rfl | rfl | rfl | rfl | rfl | rfl | rfl
  all_goals
    refine bind_members?_cons (by simp) habsent fun known hknown => ?_
    simp only [ne_eq, String.reduceEq, not_false_eq_true, Members.required_of_ne, Members.texts,
      Members.defaulted_self, Members.defaulted_of_ne, Members.defaulted_absent hknown, text?_text, list?_textsJson,
      bool?_bool, nat?_natJson, Option.pure_def, Option.bind_eq_bind, Option.bind_some]

def Global.defaults : Members :=
  [("namespace", .text ""), ("init", .null), ("deps", textsJson [])]

theorem Global.ofJson?_default
    {m : String × Json} {ms : Members}
    (hm : m ∈ Global.defaults)
    (habsent : m.1 ∉ ms.map Prod.fst) :
    Global.ofJson? (.object (m :: ms)) = Global.ofJson? (.object ms) := by
  simp only [defaults, List.mem_cons, List.not_mem_nil, or_false] at hm
  rcases hm with rfl | rfl | rfl
  all_goals
    refine bind_members?_cons (by simp) habsent fun known hknown => ?_
    simp [Members.required_of_ne, Members.texts, Members.optional, Members.defaulted_self, Members.defaulted_of_ne,
      Members.defaulted_absent hknown, option?]

def Record.defaults : Members :=
  [("namespace", .text ""), ("fields", textsJson [])]

theorem Record.ofJson?_default
    {m : String × Json} {ms : Members}
    (hm : m ∈ Record.defaults)
    (habsent : m.1 ∉ ms.map Prod.fst) :
    Record.ofJson? (.object (m :: ms)) = Record.ofJson? (.object ms) := by
  simp only [defaults, List.mem_cons, List.not_mem_nil, or_false] at hm
  rcases hm with rfl | rfl
  all_goals
    refine bind_members?_cons (by simp) habsent fun known hknown => ?_
    simp [Members.required_of_ne, Members.texts, Members.defaulted_self, Members.defaulted_of_ne,
      Members.defaulted_absent hknown]

def Program.defaults : Members :=
  [("procedures", .array []), ("globals", .array []), ("records", .array [])]

theorem Program.ofJson?_default
    {m : String × Json} {ms : Members}
    (hm : m ∈ Program.defaults)
    (habsent : m.1 ∉ ms.map Prod.fst) :
    Program.ofJson? (.object (m :: ms)) = Program.ofJson? (.object ms) := by
  simp only [defaults, List.mem_cons, List.not_mem_nil, or_false] at hm
  rcases hm with rfl | rfl | rfl
  all_goals
    refine bind_members?_cons (by simp) habsent fun known hknown => ?_
    simp [Members.defaulted_self, Members.defaulted_of_ne, Members.defaulted_absent hknown, list?]

namespace Instruction

/-- The members of an instruction that may be left out, by its kind. -/
def defaults : String → Members
  | "DynVar" => [("lvalue", .bool false)]
  | "Field" => [("lvalue", .bool false), ("fail_label", .null)]
  | "Call" =>
      [("lhs", .null), ("lhs_next", .null), ("args", .array []), ("names", .array []), ("fail_label", .null)]
  | "Operator" => [("lhs", .null), ("lhs_next", .null), ("args", .array []), ("fail_label", .null)]
  | "Resume" => [("lhs", .null), ("lhs_next", .null), ("fail_label", .null)]
  | "Succeed" => [("expr", .null), ("resume", .null)]
  | "EnterScope" => [("names", .array []), ("dynamics", .array [])]
  | "Select" => [("fail_label", .null)]
  | _ => []

theorem ofMembers?_default
    {kind : String} {m : String × Json} {ms : Members}
    (hm : m ∈ defaults kind)
    (habsent : m.1 ∉ ms.map Prod.fst) :
    ofMembers? kind (.object (m :: ms)) = ofMembers? kind (.object ms) := by
  unfold defaults at hm
  split at hm
  all_goals
    simp only [List.mem_cons, List.not_mem_nil, or_false] at hm
  all_goals
    rcases hm with rfl | rfl | rfl | rfl | rfl
  all_goals
    simp only [ofMembers?, Option.bind_eq_bind]
    refine bind_members?_cons (by simp) habsent fun known hknown => ?_
    simp [Members.required_of_ne, Members.texts, Members.optional, Members.destination, Members.defaulted_self,
      Members.defaulted_of_ne, Members.defaulted_absent hknown, option?, list?]

/-- No default is a kind, and each of them stands for something. -/
theorem of_mem_defaults
    {kind : String} {m : String × Json}
    (hm : m ∈ defaults kind) :
    m.1 ≠ "t" ∧ m.2.isMeaningful = true := by
  unfold defaults at hm
  split at hm
  all_goals
    simp only [List.mem_cons, List.not_mem_nil, or_false] at hm
  all_goals
    rcases hm with rfl | rfl | rfl | rfl | rfl
  all_goals
    simp [isMeaningful, areMeaningful]

theorem ofJson?_default
    {kind : String} {m : String × Json} {ms : Members} {rest : Json}
    (hkind : untag? "t" (.object ms) = some (.text kind, rest))
    (hm : m ∈ defaults kind)
    (habsent : m.1 ∉ ms.map Prod.fst) :
    ofJson? (.object (m :: ms)) = ofJson? (.object ms) := by
  obtain ⟨htag, hmeaning⟩ := of_mem_defaults hm
  have hall : (Json.object (m :: ms)).isMeaningful = (Json.object ms).isMeaningful := by
    simp only [isMeaningful, membersAreMeaningful, hmeaning, Bool.true_and]
  have hrest : rest = .object (ms.filter fun m => m.1 != "t") ∧
      untag? "t" (.object (m :: ms)) = some (.text kind, .object (m :: ms.filter fun m => m.1 != "t")) := by
    have hkey : (m.1 == "t") = false := beq_false_of_ne htag
    have hother : (m.1 != "t") = true := bne_iff_ne.mpr htag
    simp only [untag?, List.filter_cons, hkey, hother, if_true, Bool.false_eq_true, if_false] at hkind ⊢
    split at hkind
    · cases hkind
      simp only [true_and]
    · cases hkind
  obtain ⟨rfl, htagged⟩ := hrest
  have hfiltered : m.1 ∉ (ms.filter fun m => m.1 != "t").map Prod.fst := by
    intro hmem
    obtain ⟨n, hn, heq⟩ := List.mem_map.mp hmem
    exact habsent (List.mem_map.mpr ⟨n, List.mem_of_mem_filter hn, heq⟩)
  unfold ofJson?
  rw [hall, htagged, hkind]
  exact congrArg _ (funext fun _ => ofMembers?_default hm hfiltered)

end Instruction

end Defaults

end Ir
end GoalDirected
