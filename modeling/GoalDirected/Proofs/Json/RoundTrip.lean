import GoalDirected.Proofs.Json.Tokens

/-!
# JSON texts read back

**Input.**  A tree whose numbers have texts of numbers, with no more arrays and objects inside each other than a
reader goes through.

**Argument.**  Induction on the tree, with anything behind the text that can stand behind a value.  A value takes
at most two steps for each character of its text, which is what the reader of a whole text has.

**Results.**
* `value?_render`: a value is read from its own text.
* `parse?_render`: what is written for a tree is read as this tree, but for the classes of its numbers.
* `sized_parse?`: the natural numbers of a tree that is read have sixty-four bits.
-/

namespace GoalDirected
namespace Json

section RoundTrip

mutual

/-- A tree with other numbers. -/
def mapNumbers (f : Number → Json) : Json → Json
  | .meaningless => .meaningless
  | .null => .null
  | .bool b => .bool b
  | .number n => f n
  | .text s => .text s
  | .array items => .array (mapItems f items)
  | .object members => .object (mapMembers f members)

def mapItems (f : Number → Json) : List Json → List Json
  | [] => []
  | j :: rest => j.mapNumbers f :: mapItems f rest

def mapMembers (f : Number → Json) : List (String × Json) → List (String × Json)
  | [] => []
  | (key, j) :: rest => (key, j.mapNumbers f) :: mapMembers f rest

end

theorem mapItems_eq (f : Number → Json) (items : List Json) :
    mapItems f items = items.map (mapNumbers f) := by
  induction items with
  | nil => rfl
  | cons j rest ih => simp only [mapItems, ih, List.map_cons]

theorem mapMembers_eq (f : Number → Json) (members : List (String × Json)) :
    mapMembers f members = members.map fun m => (m.1, m.2.mapNumbers f) := by
  induction members with
  | nil => rfl
  | cons m rest ih => simp only [mapMembers, ih, List.map_cons]

mutual

/-- Numbers that stay as they are. -/
theorem mapNumbers_number : ∀ j : Json, j.mapNumbers .number = j
  | .meaningless => rfl
  | .null => rfl
  | .bool _ => rfl
  | .number _ => rfl
  | .text _ => rfl
  | .array items => by rw [mapNumbers, mapItems_number items]
  | .object members => by rw [mapNumbers, mapMembers_number members]

theorem mapItems_number : ∀ items : List Json, mapItems .number items = items
  | [] => rfl
  | j :: rest => by rw [mapItems, mapNumbers_number j, mapItems_number rest]

theorem mapMembers_number : ∀ members : List (String × Json), mapMembers .number members = members
  | [] => rfl
  | (key, j) :: rest => by rw [mapMembers, mapNumbers_number j, mapMembers_number rest]

end

/-- The number that is read from the text of a number. -/
def Number.reread (n : Number) : Json :=
  match number? n.render.toList with
  | some (j, _) => j
  | none => .meaningless

theorem Number.reread_eq
    {n : Number} {j : Json} {rest : List Char}
    (h : number? n.render.toList = some (j, rest)) :
    n.reread = j := by
  delta Number.reread
  rw [h]

/-- What is read from the text of a tree. -/
def reread (j : Json) : Json :=
  j.mapNumbers Number.reread

theorem reread_array (items : List Json) :
    reread (.array items) = .array (items.map reread) := by
  simp only [reread, mapNumbers, mapItems_eq]
  rfl

theorem reread_object (members : List (String × Json)) :
    reread (.object members) = .object (members.map fun m => (m.1, m.2.reread)) := by
  simp only [reread, mapNumbers, mapMembers_eq]

/-- A double whose text stands for it. -/
def ReadsBack (x : Float) : Prop :=
  ∃ n, number? (Number.real x).render.toList = some (.number n, []) ∧ n.toFloat = x

/-- A tree whose text can be read with room for more arrays and objects inside each other. -/
inductive Writable : Nat → Json → Prop
  | null {room : Nat} : Writable room .null
  | bool {room : Nat} (b : Bool) : Writable room (.bool b)
  | number
      {room : Nat} {n m : Number}
      (h : number? n.render.toList = some (.number m, [])) :
      Writable room (.number n)
  | text {room : Nat} (s : String) : Writable room (.text s)
  | array
      {room : Nat} {items : List Json}
      (h : ∀ j ∈ items, Writable room j) :
      Writable (room + 1) (.array items)
  | object
      {room : Nat} {members : List (String × Json)}
      (h : ∀ m ∈ members, Writable room m.2) :
      Writable (room + 1) (.object members)

/-! ## Texts -/

theorem renderItems_eq (items : List Json) :
    renderItems items = items.map render := by
  induction items with
  | nil => rfl
  | cons j rest ih => simp only [renderItems, ih, List.map_cons]

theorem renderMembers_eq (members : List (String × Json)) :
    renderMembers members = members.map fun m => renderString m.1 ++ ":" ++ m.2.render := by
  induction members with
  | nil => rfl
  | cons m rest ih => simp only [renderMembers, ih, List.map_cons]

/-- Texts with commas between them. -/
def listed (texts : List (List Char)) : List Char :=
  [','].intercalate texts

theorem toList_renderString (s : String) :
    (renderString s).toList = '"' :: (s.toList.flatMap renderChar ++ ['"']) := by
  simp [renderString]

theorem toList_render_array (items : List Json) :
    (render (.array items)).toList = '[' :: (listed (items.map fun j => j.render.toList) ++ [']']) := by
  simp only [render, renderItems_eq, String.toList_append, String.toList_intercalate, List.map_map, listed]
  rfl

theorem toList_render_object (members : List (String × Json)) :
    (render (.object members)).toList =
      '\x7b' :: (listed (members.map fun m => (renderString m.1).toList ++ ':' :: m.2.render.toList) ++ ['\x7d']) := by
  simp only [render, renderMembers_eq, String.toList_append, String.toList_intercalate, List.map_map, listed]
  simp [Function.comp_def]

/-! ## Values -/

theorem skipSpace_cons
    {c : Char}
    (h : isSpace c = false)
    (cs : List Char) :
    skipSpace (c :: cs) = c :: cs := by
  simp [skipSpace, h]

/-- No number starts with a blank. -/
theorem isSpace_of_numeric
    {c : Char}
    (h : c = '-' ∨ c.isDigit = true) :
    isSpace c = false := by
  rw [isSpace]
  simp only [Bool.or_eq_false_iff, decide_eq_false_iff_not]
  refine ⟨⟨⟨?_, ?_⟩, ?_⟩, ?_⟩
  all_goals
    rintro rfl
    rcases h with h | h
    · cases h
    · cases h

/-- A text starts neither with a blank nor with the end of an array. -/
theorem Writable.head
    {room : Nat} {j : Json}
    (h : Writable room j) :
    ∃ c cs, j.render.toList = c :: cs ∧ isSpace c = false ∧ c ≠ ']' := by
  cases h with
  | null => exact ⟨'n', _, rfl, rfl, by decide⟩
  | bool b =>
      cases b with
      | false => exact ⟨'f', _, rfl, rfl, by decide⟩
      | true => exact ⟨'t', _, rfl, rfl, by decide⟩
  | number hnumber =>
      obtain ⟨c, cs, hcons, hc⟩ := number?_head hnumber
      refine ⟨c, cs, hcons, isSpace_of_numeric hc, ?_⟩
      rintro rfl
      rcases hc with hc | hc
      · cases hc
      · cases hc
  | text s => exact ⟨'"', _, toList_renderString s, rfl, by decide⟩
  | array => exact ⟨'[', _, toList_render_array _, rfl, by decide⟩
  | object => exact ⟨'\x7b', _, toList_render_object _, rfl, by decide⟩

/-- A value is read from its text, with enough fuel. -/
def Rereads (room : Nat) (j : Json) : Prop :=
  ∀ fuel rest, Delimited rest → 2 * j.render.toList.length ≤ fuel →
    value? fuel room (j.render.toList ++ rest) = some (j.reread, rest)

theorem value?_number
    {room fuel : Nat} {cs : List Char} {j : Json} {left : List Char}
    (h : number? cs = some (j, left)) :
    value? (fuel + 1) room cs = some (j, left) := by
  obtain ⟨c, rest, rfl, hc⟩ := number?_head h
  rw [value?, skipSpace_cons (isSpace_of_numeric hc)]
  split
  all_goals first
    | exact h
    | (rename_i heq
       cases heq
       rcases hc with hc | hc
       · cases hc
       · cases hc)

theorem listed_cons_cons (a b : List Char) (rest : List (List Char)) :
    listed (a :: b :: rest) = a ++ ',' :: listed (b :: rest) := by
  simp [listed, List.intercalate_cons_cons]

theorem listed_singleton (a : List Char) : listed [a] = a := by
  simp [listed]

/-- A list starts like its first text. -/
theorem listed_head
    (c : Char) (cs : List Char) (rest : List (List Char)) :
    ∃ tail, listed ((c :: cs) :: rest) = c :: tail := by
  cases rest with
  | nil => exact ⟨cs, listed_singleton _⟩
  | cons b rest => exact ⟨_, listed_cons_cons _ b rest⟩

/-- The items of an array are read one after the other. -/
theorem items?_listed
    {room : Nat} {j : Json} {items : List Json}
    (h : ∀ item ∈ j :: items, Rereads room item)
    {fuel : Nat} {read : List Json} {rest : List Char}
    (hfuel : 2 * (listed ((j :: items).map fun i => i.render.toList)).length + 1 ≤ fuel) :
    items? fuel room read (listed ((j :: items).map fun i => i.render.toList) ++ ']' :: rest) =
      some (read.reverse ++ (j :: items).map reread, rest) := by
  induction items generalizing j fuel read with
  | nil =>
      obtain ⟨fuel, rfl⟩ := Nat.exists_eq_succ_of_ne_zero (n := fuel) (by omega)
      simp only [List.map_cons, List.map_nil, listed_singleton] at hfuel ⊢
      rw [items?, h j List.mem_cons_self fuel _ (delimited_cons rest (by decide)) (by omega)]
      simp [skipSpace_cons (c := ']') rfl]
  | cons next items ih =>
      obtain ⟨fuel, rfl⟩ := Nat.exists_eq_succ_of_ne_zero (n := fuel) (by omega)
      simp only [List.map_cons, listed_cons_cons, List.length_append, List.length_cons] at hfuel
      rw [List.map_cons, List.map_cons, listed_cons_cons, List.append_assoc, List.cons_append, items?,
        h j List.mem_cons_self fuel _ (delimited_cons _ (by decide)) (by omega)]
      simp only [skipSpace_cons (c := ',') rfl]
      have hitems := @ih next (fun item hitem => h item (List.mem_cons_of_mem j hitem)) fuel (j.reread :: read)
        (by simp only [List.map_cons]; omega)
      rw [List.map_cons] at hitems
      simp [hitems]

theorem string?_renderString
    (s : String) (rest : List Char) {fuel : Nat}
    (hfuel : (renderString s).toList.length ≤ fuel + 1) :
    string? fuel {} (s.toList.flatMap renderChar ++ '"' :: rest) = some (some s, rest) := by
  have hchars : s.toList.length ≤ (s.toList.flatMap renderChar).length := by
    induction s.toList with
    | nil => exact Nat.le_refl 0
    | cons c cs ih =>
        have hc : 1 ≤ (renderChar c).length := by
          unfold renderChar
          split
          all_goals try exact Nat.le_add_left 1 _
          split
          all_goals exact Nat.le_add_left 1 _
        rw [List.flatMap_cons, List.length_append, List.length_cons]
        omega
  rw [toList_renderString] at hfuel
  simp only [List.length_cons, List.length_append, List.length_nil] at hfuel
  rw [string?_flatMap_renderChar (by omega)]
  simp [Reading.text?]

/-- The members of an object are read one after the other. -/
theorem members?_listed
    {room : Nat} {m : String × Json} {members : List (String × Json)}
    (h : ∀ member ∈ m :: members, Rereads room member.2)
    {fuel : Nat} {read : List (Option String × Json)} {rest : List Char}
    (hfuel : 2 * (listed ((m :: members).map fun m =>
      (renderString m.1).toList ++ ':' :: m.2.render.toList)).length + 1 ≤ fuel) :
    members? fuel room read (listed ((m :: members).map fun m =>
        (renderString m.1).toList ++ ':' :: m.2.render.toList) ++ '\x7d' :: rest) =
      some (read.reverse ++ (m :: members).map fun m => (some m.1, m.2.reread), rest) := by
  induction members generalizing m fuel read with
  | nil =>
      obtain ⟨fuel, rfl⟩ := Nat.exists_eq_succ_of_ne_zero (n := fuel) (by omega)
      simp only [List.map_cons, List.map_nil, listed_singleton, List.length_append, List.length_cons] at hfuel ⊢
      rw [toList_renderString, members?]
      simp only [List.cons_append, List.append_assoc, skipSpace_cons (c := '"') rfl, List.nil_append]
      rw [string?_renderString m.1 _ (by omega)]
      simp only [skipSpace_cons (c := ':') rfl]
      rw [h m List.mem_cons_self fuel _ (delimited_cons rest (by decide)) (by omega)]
      simp [skipSpace_cons (c := '\x7d') rfl]
  | cons next members ih =>
      obtain ⟨fuel, rfl⟩ := Nat.exists_eq_succ_of_ne_zero (n := fuel) (by omega)
      simp only [List.map_cons, listed_cons_cons, List.length_append, List.length_cons] at hfuel
      rw [List.map_cons, List.map_cons, listed_cons_cons, toList_renderString, members?]
      simp only [List.cons_append, List.append_assoc, skipSpace_cons (c := '"') rfl, List.nil_append]
      rw [string?_renderString m.1 _ (by omega)]
      simp only [skipSpace_cons (c := ':') rfl]
      rw [h m List.mem_cons_self fuel _ (delimited_cons _ (by decide)) (by omega)]
      simp only [skipSpace_cons (c := ',') rfl]
      have hmembers := @ih next (fun member hmember => h member (List.mem_cons_of_mem m hmember)) fuel
        ((some m.1, m.2.reread) :: read) (by simp only [List.map_cons]; omega)
      rw [List.map_cons] at hmembers
      simp [hmembers]

theorem objectOf_some (members : List (String × Json)) :
    objectOf (members.map fun m => (some m.1, m.2)) = .object members := by
  have hall : (members.map fun m => (some m.1, m.2)).mapM
      (fun x : Option String × Json => x.1.map fun key => (key, x.2)) = some members := by
    induction members with
    | nil => rfl
    | cons m rest ih => simp [ih]
  unfold objectOf
  rw [hall]

/-- A value is read from its text. -/
theorem value?_render
    {room : Nat} {j : Json}
    (h : Writable room j) :
    Rereads room j := by
  induction h with
  | null =>
      intro fuel rest hrest hfuel
      obtain ⟨fuel, rfl⟩ := Nat.exists_eq_succ_of_ne_zero (n := fuel) (by rintro rfl; simp [render] at hfuel)
      rfl
  | bool b =>
      intro fuel rest hrest hfuel
      obtain ⟨fuel, rfl⟩ := Nat.exists_eq_succ_of_ne_zero (n := fuel) (by rintro rfl; cases b <;> simp [render] at hfuel)
      cases b with
      | false => rfl
      | true => rfl
  | @number room n m hnumber =>
      intro fuel rest hrest hfuel
      obtain ⟨c, cs, hcons, -⟩ := number?_head hnumber
      obtain ⟨fuel, rfl⟩ := Nat.exists_eq_succ_of_ne_zero (n := fuel) (by
        rintro rfl
        simp [render, hcons] at hfuel)
      have hreread : reread (.number n) = .number m := by
        simp only [reread, mapNumbers, Number.reread_eq hnumber]
      rw [hreread]
      exact value?_number (number?_append hnumber hrest)
  | text s =>
      intro fuel rest hrest hfuel
      rw [render] at hfuel ⊢
      obtain ⟨fuel, rfl⟩ := Nat.exists_eq_succ_of_ne_zero (n := fuel) (by
        rintro rfl
        simp [toList_renderString] at hfuel)
      have hlength : (renderString s).toList.length ≤ fuel + 1 := by omega
      simp only [toList_renderString, List.cons_append, List.append_assoc, List.nil_append, value?,
        skipSpace_cons (c := '"') rfl, string?_renderString s rest hlength]
      rfl
  | @array room items hitems ih =>
      intro fuel rest hrest hfuel
      rw [toList_render_array] at hfuel ⊢
      simp only [List.length_cons, List.length_append, List.length_nil] at hfuel
      obtain ⟨fuel, rfl⟩ := Nat.exists_eq_succ_of_ne_zero (n := fuel) (by omega)
      cases items with
      | nil => rfl
      | cons j items =>
          obtain ⟨c, cs, hcons, hspace, hend⟩ := (hitems j List.mem_cons_self).head
          obtain ⟨tail, htail⟩ := listed_head c cs (items.map fun i => i.render.toList)
          have hread := @items?_listed room j items ih fuel [] rest (by omega)
          rw [List.map_cons, hcons, htail] at hread
          rw [List.map_cons, hcons, htail]
          simp only [List.cons_append, List.append_assoc, List.nil_append, value?, skipSpace_cons (c := '[') rfl,
            skipSpace_cons hspace]
          split
          · rename_i heq
            exact absurd (List.cons.inj heq).1 hend
          · simp only [Nat.add_sub_cancel]
            rw [List.cons_append] at hread
            rw [hread]
            simp [collection, reread_array]
  | @object room members hmembers ih =>
      intro fuel rest hrest hfuel
      rw [toList_render_object] at hfuel ⊢
      simp only [List.length_cons, List.length_append, List.length_nil] at hfuel
      obtain ⟨fuel, rfl⟩ := Nat.exists_eq_succ_of_ne_zero (n := fuel) (by omega)
      cases members with
      | nil => rfl
      | cons m members =>
          obtain ⟨tail, htail⟩ := listed_head '"' (m.1.toList.flatMap renderChar ++ '"' :: ':' :: m.2.render.toList)
            (members.map fun m => (renderString m.1).toList ++ ':' :: m.2.render.toList)
          have hread := @members?_listed room m members ih fuel [] rest (by omega)
          rw [List.map_cons, toList_renderString] at hread
          rw [List.map_cons, toList_renderString]
          simp only [List.cons_append, List.append_assoc, List.nil_append] at hread ⊢
          rw [htail] at hread ⊢
          simp only [List.cons_append, value?, skipSpace_cons (c := '\x7b') rfl, skipSpace_cons (c := '"') rfl]
          rw [List.cons_append] at hread
          have hobject := objectOf_some ((m :: members).map fun m => (m.1, m.2.reread))
          rw [List.map_map] at hobject
          split
          · rename_i heq
            cases heq
          · rw [Nat.add_sub_cancel, hread, List.reverse_nil, List.nil_append, Option.map_some]
            have hvalue : objectOf ((m :: members).map fun m => (some m.1, m.2.reread)) =
                (object (m :: members)).reread :=
              hobject.trans (reread_object (m :: members)).symm
            simp only [collection, Nat.succ_ne_zero, if_false, hvalue]

/-- A whole text is read as the tree that it was written for, but for the classes of its numbers. -/
theorem parse?_render
    {j : Json}
    (h : Writable depthLimit j) :
    parse? j.render = some j.reread := by
  have hread := value?_render h (2 * j.render.toList.length + 2) [] delimited_nil (Nat.le_add_right _ 2)
  rw [List.append_nil] at hread
  simp only [parse?, hread]
  rfl

/-- The number that is read from the text of a natural number of sixty-four bits. -/
theorem reread_natural
    {n : Nat}
    (h : n < Decimal.significandBound) :
    Number.reread (.natural n) = .number (.natural n) := by
  have hread : number? (Number.natural n).render.toList = some (.number (.natural n), []) := by
    simp only [Number.render, String.toList_ofList, number?_toDigits h]
  exact Number.reread_eq hread

/-! ## Sizes -/

/-- A tree whose natural numbers have sixty-four bits. -/
inductive Sized : Json → Prop
  | meaningless : Sized .meaningless
  | null : Sized .null
  | bool (b : Bool) : Sized (.bool b)
  | natural
      {n : Nat}
      (h : n < Decimal.significandBound) :
      Sized (.number (.natural n))
  | negative (n : Nat) : Sized (.number (.negative n))
  | real (x : Float) : Sized (.number (.real x))
  | text (s : String) : Sized (.text s)
  | array
      {items : List Json}
      (h : ∀ j ∈ items, Sized j) :
      Sized (.array items)
  | object
      {members : List (String × Json)}
      (h : ∀ m ∈ members, Sized m.2) :
      Sized (.object members)

theorem accept_lt
    (cs : List Char) {significand : Nat}
    (h : significand < Decimal.significandBound) :
    (Decimal.accept significand cs).1 < Decimal.significandBound := by
  induction cs generalizing significand with
  | nil => exact h
  | cons c cs ih =>
      simp only [Decimal.accept]
      split
      · rename_i hnext
        exact ih hnext
      · exact h

theorem sized_integer
    {n : Nat}
    (h : n < Decimal.significandBound)
    (negative : Bool) :
    Sized (.number (integer negative n)) := by
  unfold integer
  split
  · split
    · exact .real _
    · exact .negative n
  · exact .natural h

theorem sized_value
    {n : Numeral} {x : Number}
    (h : n.value? = some x) :
    Sized (.number x) := by
  have hroom : (Decimal.accept 0 n.whole).1 < Decimal.significandBound := accept_lt n.whole (by decide)
  unfold Numeral.value? at h
  simp only at h
  split at h
  · cases h
    exact sized_integer hroom n.negative
  · obtain ⟨y, -, rfl⟩ := Option.map_eq_some_iff.mp h
    exact .real _

theorem sized_number?
    {cs rest : List Char} {j : Json}
    (h : number? cs = some (j, rest)) :
    Sized j := by
  obtain ⟨⟨n, left⟩, -, heq⟩ := Option.map_eq_some_iff.mp h
  simp only [Prod.mk.injEq] at heq
  obtain ⟨rfl, -⟩ := heq
  split
  · rename_i hvalue
    exact sized_value hvalue
  · exact .meaningless

theorem sized_word?
    {word : String} {value j : Json} {cs rest : List Char}
    (hvalue : Sized value)
    (h : word? word value cs = some (j, rest)) :
    Sized j := by
  unfold word? at h
  split at h
  · cases h
    exact hvalue
  · cases h

theorem sized_collection
    {j : Json}
    (h : Sized j)
    (room : Nat) :
    Sized (collection room j) := by
  unfold collection
  split
  · exact .meaningless
  · exact h

theorem sized_objectOf
    {members : List (Option String × Json)}
    (h : ∀ m ∈ members, Sized m.2) :
    Sized (objectOf members) := by
  have hkeyed : ∀ (members : List (Option String × Json)) (keyed : List (String × Json)),
      (∀ m ∈ members, Sized m.2) →
      members.mapM (fun x : Option String × Json => x.1.map fun key => (key, x.2)) = some keyed →
        ∀ m ∈ keyed, Sized m.2 := by
    intro members
    induction members with
    | nil =>
        intro keyed _ hkeyed m hm
        cases hkeyed
        cases hm
    | cons first rest ih =>
        intro keyed hsized hkeyed
        rw [List.forall_mem_cons] at hsized
        simp only [List.mapM_cons, Option.bind_eq_bind, Option.bind_eq_some_iff, Option.map_eq_some_iff] at hkeyed
        obtain ⟨m, ⟨key, -, rfl⟩, keyed', hrest, heq⟩ := hkeyed
        cases heq
        exact List.forall_mem_cons.mpr ⟨hsized.1, ih keyed' hsized.2 hrest⟩
  unfold objectOf
  split
  · rename_i keyed heq
    exact .object (hkeyed members keyed h heq)
  · exact .meaningless

/-- All that is read has natural numbers of sixty-four bits, step by step of the reader. -/
theorem sized_of_fuel
    (fuel : Nat) :
    (∀ room cs j rest, value? fuel room cs = some (j, rest) → Sized j) ∧
      (∀ room read cs items rest, (∀ j ∈ read, Sized j) →
        items? fuel room read cs = some (items, rest) → ∀ j ∈ items, Sized j) ∧
      ∀ room read cs members rest, (∀ m ∈ read, Sized m.2) →
        members? fuel room read cs = some (members, rest) → ∀ m ∈ members, Sized m.2 := by
  induction fuel with
  | zero =>
      refine ⟨?_, ?_, ?_⟩
      · intro room cs j rest h
        cases h
      · intro room read cs items rest _ h
        cases h
      · intro room read cs members rest _ h
        cases h
  | succ fuel ih =>
      obtain ⟨hvalue, hitems, hmembers⟩ := ih
      refine ⟨?_, ?_, ?_⟩
      · intro room cs j rest h
        rw [value?] at h
        split at h
        · obtain ⟨⟨s, left⟩, -, heq⟩ := Option.map_eq_some_iff.mp h
          cases heq
          cases s with
          | none => exact .meaningless
          | some s => exact .text s
        · split at h
          · cases h
            exact sized_collection (.array (by simp)) room
          · obtain ⟨⟨items, left⟩, hread, heq⟩ := Option.map_eq_some_iff.mp h
            cases heq
            exact sized_collection (.array (hitems _ _ _ _ _ (by simp) hread)) room
        · split at h
          · cases h
            exact sized_collection (.object (by simp)) room
          · obtain ⟨⟨members, left⟩, hread, heq⟩ := Option.map_eq_some_iff.mp h
            cases heq
            exact sized_collection (sized_objectOf (hmembers _ _ _ _ _ (by simp) hread)) room
        · exact sized_word? (.bool true) h
        · exact sized_word? (.bool false) h
        · exact sized_word? .null h
        · exact sized_number? h
      · intro room read cs items rest hread h
        rw [items?] at h
        split at h
        · cases h
        · rename_i item left hitem
          have hall : ∀ j ∈ item :: read, Sized j := List.forall_mem_cons.mpr ⟨hvalue _ _ _ _ hitem, hread⟩
          split at h
          · exact hitems _ _ _ _ _ hall h
          · cases h
            simpa only [List.mem_reverse] using hall
          · cases h
      · intro room read cs members rest hread h
        rw [members?] at h
        split at h
        · split at h
          · cases h
          · split at h
            · split at h
              · cases h
              · rename_i item _ hitem
                have hsized : Sized item := hvalue _ _ _ _ hitem
                split at h
                · exact hmembers _ _ _ _ _ (List.forall_mem_cons.mpr ⟨hsized, hread⟩) h
                · cases h
                  simp only [List.mem_reverse]
                  exact List.forall_mem_cons.mpr ⟨hsized, hread⟩
                · cases h
            · cases h
        · cases h

theorem sized_parse?
    {s : String} {j : Json}
    (h : parse? s = some j) :
    Sized j := by
  unfold parse? at h
  simp only at h
  split at h
  · rename_i value left hread
    split at h
    · cases h
      exact (sized_of_fuel _).1 _ _ _ _ hread
    · cases h
  · cases h

end RoundTrip

end Json
end GoalDirected
