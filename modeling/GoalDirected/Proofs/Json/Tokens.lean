import GoalDirected.Json.Printer
import GoalDirected.Json.Reader
import Mathlib.Data.List.Basic
import Mathlib.Data.List.TakeWhile
import Mathlib.Tactic.Common

/-!
# Strings and numbers in JSON texts

**Input.**  The text that is written for a string or a number, with something behind it.

**Argument.**  Each character of a string is read back from what is written for it.  A number goes as far as its
text does if nothing behind it can go on with it, as is so for all that can stand behind a value.

**Results.**
* `string?_flatMap_renderChar`: strings are read back.
* `number?_append`: numbers are read as if nothing stood behind them.
* `number?_toDigits`: natural numbers of sixty-four bits are read back.
-/

namespace GoalDirected
namespace Json

section Tokens

/-! ## Strings -/

/-- What is written for a control stands for it. -/
theorem unit?_unitDigits
    {n : Nat}
    (hn : n < 32) :
    ∃ c d, unitDigits n = ['0', '0', c, d] ∧ unit? '0' '0' c d = some n := by
  have hread : ∀ n < 32,
      unitDigits n = ['0', '0', (unitDigits n).getD 2 '0', (unitDigits n).getD 3 '0'] ∧
        unit? '0' '0' ((unitDigits n).getD 2 '0') ((unitDigits n).getD 3 '0') = some n := by
    decide
  exact ⟨_, _, hread n hn⟩

theorem string?_renderChar
    (c : Char) (fuel : Nat) (r : Reading) (rest : List Char) :
    string? (fuel + 1) r (renderChar c ++ rest) = string? fuel (r.push c) rest := by
  unfold renderChar
  split
  · simp [string?, shortEscape?]
  · simp [string?, shortEscape?]
  · simp [string?, shortEscape?]
  · simp [string?, shortEscape?]
  · simp [string?, shortEscape?]
  · rename_i hquote hslash _ _ _
    split
    · rename_i hcontrol
      obtain ⟨x, y, hdigits, hunit⟩ := unit?_unitDigits hcontrol
      have hhigh : ¬ (0xd800 ≤ c.toNat ∧ c.toNat ≤ 0xdbff) := by omega
      have hlow : ¬ (0xdc00 ≤ c.toNat ∧ c.toNat ≤ 0xdfff) := by omega
      simp only [hdigits, List.cons_append, List.nil_append, string?, hunit, if_neg hhigh, if_neg hlow,
        Char.ofNat_toNat]
    · rename_i hcontrol
      have hplain : ¬ (c.toNat < 0x20 ∨ c = '\\') := by
        rintro (h | h)
        · exact hcontrol h
        · exact hslash h
      rw [List.singleton_append, string?.eq_def]
      split
      case h_6 heqfuel heqcs =>
        cases heqfuel
        cases heqcs
        exact if_neg hplain
      all_goals simp_all

theorem string?_flatMap_renderChar
    {cs : List Char} {fuel : Nat}
    (hfuel : cs.length < fuel)
    (r : Reading) (rest : List Char) :
    string? fuel r (cs.flatMap renderChar ++ '"' :: rest) =
      some (({ r with chars := cs.reverse ++ r.chars } : Reading).text?, rest) := by
  induction cs generalizing fuel r with
  | nil =>
      obtain ⟨fuel, rfl⟩ := Nat.exists_eq_succ_of_ne_zero (Nat.ne_of_gt hfuel)
      simp [string?]
  | cons c cs ih =>
      obtain ⟨fuel, rfl⟩ := Nat.exists_eq_succ_of_ne_zero (Nat.ne_of_gt (Nat.zero_lt_of_lt hfuel))
      rw [List.flatMap_cons, List.append_assoc, string?_renderChar, ih (Nat.lt_of_succ_lt_succ hfuel)]
      simp [Reading.push]

/-! ## Numbers -/

/-- What can stand behind a value. -/
def Delimited (rest : List Char) : Prop :=
  ∀ c, rest.head? = some c → c = ',' ∨ c = ']' ∨ c = '\x7d'

theorem delimited_nil : Delimited [] := by
  intro c h
  cases h

theorem delimited_cons
    {c : Char} (rest : List Char)
    (h : c = ',' ∨ c = ']' ∨ c = '\x7d') :
    Delimited (c :: rest) := by
  intro d hd
  cases hd
  exact h

theorem Delimited.head?_ne
    {rest : List Char}
    (h : Delimited rest)
    {c : Char}
    (hc : c ≠ ',' ∧ c ≠ ']' ∧ c ≠ '\x7d') :
    rest.head? ≠ some c := by
  intro hhead
  rcases h c hhead with rfl | rfl | rfl
  · exact hc.1 rfl
  · exact hc.2.1 rfl
  · exact hc.2.2 rfl

/-- Digits end where the text of a number ends. -/
theorem Delimited.digits_append
    {rest : List Char}
    (h : Delimited rest)
    (cs : List Char) :
    (cs ++ rest).takeWhile Char.isDigit = cs.takeWhile Char.isDigit ∧
      (cs ++ rest).dropWhile Char.isDigit = cs.dropWhile Char.isDigit ++ rest := by
  induction cs with
  | nil =>
      cases rest with
      | nil => simp
      | cons c rest =>
          rcases h c rfl with rfl | rfl | rfl
          all_goals simp
  | cons c cs ih =>
      cases hdigit : c.isDigit with
      | false => simp [hdigit]
      | true => simpa [hdigit] using ih

/-- A mark at the front is the one of the text of the number. -/
theorem Delimited.head?_append
    {rest : List Char}
    (h : Delimited rest)
    (cs : List Char) {c : Char}
    (hc : c ≠ ',' ∧ c ≠ ']' ∧ c ≠ '\x7d') :
    ((cs ++ rest).head? == some c) = (cs.head? == some c) := by
  cases cs with
  | nil => simpa using h.head?_ne hc
  | cons d cs => rfl

/-- What follows a point. -/
theorem Delimited.fraction_append
    {rest : List Char}
    (h : Delimited rest)
    {cs : List Char} {mark : Bool}
    (hmark : mark = true → cs ≠ []) :
    (if mark then ((cs ++ rest).drop 1).takeWhile Char.isDigit else []) =
        (if mark then (cs.drop 1).takeWhile Char.isDigit else []) ∧
      (if mark then ((cs ++ rest).drop 1).dropWhile Char.isDigit else cs ++ rest) =
        (if mark then (cs.drop 1).dropWhile Char.isDigit else cs) ++ rest := by
  cases mark with
  | false => exact ⟨rfl, rfl⟩
  | true =>
      cases cs with
      | nil => exact absurd rfl (hmark rfl)
      | cons c cs => simpa using h.digits_append cs

theorem Delimited.splitSign_append
    {rest : List Char}
    (h : Delimited rest)
    (cs : List Char) :
    Decimal.splitSign (cs ++ rest) = ((Decimal.splitSign cs).1, (Decimal.splitSign cs).2 ++ rest) := by
  cases cs with
  | nil =>
      cases rest with
      | nil => rfl
      | cons c rest =>
          rcases h c rfl with rfl | rfl | rfl
          all_goals rfl
  | cons c cs =>
      by_cases hminus : c = '-'
      · subst hminus
        rfl
      · by_cases hplus : c = '+'
        · subst hplus
          rfl
        · simp [Decimal.splitSign, hminus, hplus]

/-- A numeral after its sign. -/
def unsigned? (negative : Bool) (cs : List Char) : Option (Numeral × List Char) :=
  let whole := cs.takeWhile Char.isDigit
  let rest := cs.dropWhile Char.isDigit
  let point := rest.head? == some '.'
  let fraction := if point then (rest.drop 1).takeWhile Char.isDigit else []
  let rest := if point then (rest.drop 1).dropWhile Char.isDigit else rest
  let mark := rest.head? == some 'e' || rest.head? == some 'E'
  let (minus, power) := if mark then Decimal.splitSign (rest.drop 1) else (false, [])
  let digits := power.takeWhile Char.isDigit
  let rest := if mark then power.dropWhile Char.isDigit else rest
  if whole.isEmpty || (whole.head? == some '0' && whole.length != 1) then none
  else if (point && fraction.isEmpty) || (mark && digits.isEmpty) then none
  else
    some
      ({ negative, whole
         fraction := if point then some fraction else none
         power := if mark then some (minus, digits) else none }, rest)

theorem numeral?_of_ne_minus
    {c : Char}
    (h : c ≠ '-')
    (cs : List Char) :
    numeral? (c :: cs) = unsigned? false (c :: cs) := by
  unfold numeral?
  split
  rename_i heq
  split at heq
  · rename_i hcons
    exact absurd (List.cons.inj hcons).1 h
  · cases heq
    rfl

/-- The two checks of a numeral do not look at what is left. -/
theorem guarded_append
    {p q : Prop} [Decidable p] [Decidable q] {a n : Numeral} {b left : List Char}
    (h : (if p then none else if q then none else some (a, b)) = some (n, left))
    (rest : List Char) :
    (if p then none else if q then none else some (a, b ++ rest)) = some (n, left ++ rest) := by
  split at h
  · cases h
  · rename_i hp
    split at h
    · cases h
    · rename_i hq
      cases h
      rw [if_neg hp, if_neg hq]

theorem unsigned?_append
    {negative : Bool} {cs : List Char} {n : Numeral} {left : List Char}
    (h : unsigned? negative cs = some (n, left))
    {rest : List Char}
    (hrest : Delimited rest) :
    unsigned? negative (cs ++ rest) = some (n, left ++ rest) := by
  unfold unsigned? at h ⊢
  simp only [(hrest.digits_append cs).1, (hrest.digits_append cs).2] at h ⊢
  generalize cs.takeWhile Char.isDigit = whole at h ⊢
  generalize cs.dropWhile Char.isDigit = tail at h ⊢
  have hpoint : (tail.head? == some '.') = true → tail ≠ [] := by
    rintro hhead rfl
    cases hhead
  simp only [hrest.head?_append tail (by decide : '.' ≠ ',' ∧ _), (hrest.fraction_append hpoint).1,
    (hrest.fraction_append hpoint).2] at h ⊢
  generalize (tail.head? == some '.') = point at h ⊢
  generalize (if point then (tail.drop 1).takeWhile Char.isDigit else []) = fraction at h ⊢
  generalize (if point then (tail.drop 1).dropWhile Char.isDigit else tail) = tail at h ⊢
  simp only [hrest.head?_append tail (by decide : 'e' ≠ ',' ∧ _),
    hrest.head?_append tail (by decide : 'E' ≠ ',' ∧ _)] at h ⊢
  cases hmark : (tail.head? == some 'e' || tail.head? == some 'E') with
  | false =>
      simp only [hmark, Bool.false_eq_true, if_false] at h ⊢
      exact guarded_append h rest
  | true =>
      cases tail with
      | nil => cases hmark
      | cons c more =>
          simp only [hmark, if_true, List.cons_append, List.drop_succ_cons, List.drop_zero,
            hrest.splitSign_append more, (hrest.digits_append _).1, (hrest.digits_append _).2] at h ⊢
          exact guarded_append h rest

theorem numeral?_append
    {cs : List Char} {n : Numeral} {left : List Char}
    (h : numeral? cs = some (n, left))
    {rest : List Char}
    (hrest : Delimited rest) :
    numeral? (cs ++ rest) = some (n, left ++ rest) := by
  cases cs with
  | nil => cases h
  | cons c cs =>
      by_cases hc : c = '-'
      · subst hc
        exact unsigned?_append h hrest
      · rw [List.cons_append, numeral?_of_ne_minus hc]
        rw [numeral?_of_ne_minus hc] at h
        exact unsigned?_append h hrest

theorem number?_append
    {cs : List Char} {j : Json} {left : List Char}
    (h : number? cs = some (j, left))
    {rest : List Char}
    (hrest : Delimited rest) :
    number? (cs ++ rest) = some (j, left ++ rest) := by
  unfold number? at h ⊢
  obtain ⟨⟨n, left'⟩, hnumeral, heq⟩ := Option.map_eq_some_iff.mp h
  cases heq
  rw [numeral?_append hnumeral hrest]
  rfl

/-- A number starts with a minus or a digit. -/
theorem number?_head
    {cs : List Char} {j : Json} {left : List Char}
    (h : number? cs = some (j, left)) :
    ∃ c rest, cs = c :: rest ∧ (c = '-' ∨ c.isDigit = true) := by
  cases cs with
  | nil => cases h
  | cons c rest =>
      refine ⟨c, rest, rfl, ?_⟩
      by_cases hminus : c = '-'
      · exact Or.inl hminus
      · obtain ⟨⟨n, left'⟩, hnumeral, -⟩ := Option.map_eq_some_iff.mp h
        rw [numeral?_of_ne_minus hminus] at hnumeral
        cases hdigit : c.isDigit with
        | true => exact Or.inr rfl
        | false => simp [unsigned?, hdigit] at hnumeral

/-- Digits find room in a significand as long as their value does. -/
theorem accept_ofDigitChars
    (cs : List Char) (significand : Nat)
    (h : Nat.ofDigitChars 10 cs significand < Decimal.significandBound) :
    Decimal.accept significand cs = (Nat.ofDigitChars 10 cs significand, cs.length) := by
  induction cs generalizing significand with
  | nil => simp [Decimal.accept]
  | cons c cs ih =>
      rw [Nat.ofDigitChars_cons] at h ⊢
      have hnext : 10 * significand + (c.toNat - '0'.toNat) < Decimal.significandBound := by
        refine Nat.lt_of_le_of_lt ?_ h
        rw [Nat.ofDigitChars_eq_ofDigitChars_zero]
        have hpower : 1 ≤ 10 ^ cs.length := Nat.one_le_pow _ _ (by decide)
        generalize 10 * significand + (c.toNat - '0'.toNat) = next
        calc
          next = 1 * next := (Nat.one_mul next).symm
          _ ≤ 10 ^ cs.length * next := Nat.mul_le_mul_right next hpower
          _ ≤ _ := Nat.le_add_right _ _
      simp only [Decimal.accept, if_pos hnext, ih _ h, List.length_cons]

/-- Only zero starts with a zero. -/
theorem head?_toDigits
    (n : Nat)
    (h : (Nat.toDigits 10 n).head? = some '0') :
    n = 0 := by
  induction n using Nat.strongRecOn with
  | ind n ih =>
      rcases Nat.lt_or_ge n 10 with hlt | hge
      · have hsmall : ∀ n < 10, (Nat.toDigits 10 n).head? = some '0' → n = 0 := by decide
        exact hsmall n hlt h
      · rw [Nat.toDigits_of_base_le (by decide) hge,
          List.head?_append_of_ne_nil _ Nat.toDigits_ne_nil] at h
        have hzero := ih (n / 10) (by omega) h
        omega

/-- A natural number of sixty-four bits is read back. -/
theorem number?_toDigits
    {n : Nat}
    (h : n < Decimal.significandBound) :
    number? (Nat.toDigits 10 n) = some (.number (.natural n), []) := by
  have hdigits : ∀ c ∈ Nat.toDigits 10 n, c.isDigit = true := fun c hc =>
    Nat.isDigit_of_mem_toDigits (by decide) (by decide) hc
  have hwhole : (Nat.toDigits 10 n).takeWhile Char.isDigit = Nat.toDigits 10 n :=
    List.takeWhile_eq_self_iff.mpr hdigits
  have hrest : (Nat.toDigits 10 n).dropWhile Char.isDigit = [] :=
    List.dropWhile_eq_nil_iff.mpr hdigits
  have hzeros : ((Nat.toDigits 10 n).head? == some '0' && (Nat.toDigits 10 n).length != 1) = false := by
    by_cases hhead : (Nat.toDigits 10 n).head? = some '0'
    · rw [head?_toDigits n hhead]
      rfl
    · simp [hhead]
  have hempty : (Nat.toDigits 10 n).isEmpty = false := by
    simp [Nat.toDigits_ne_nil]
  have hunsigned : unsigned? false (Nat.toDigits 10 n) =
      some ({ negative := false, whole := Nat.toDigits 10 n, fraction := none, power := none }, []) := by
    simp [unsigned?, hwhole, hrest, hzeros, hempty]
  have haccept := accept_ofDigitChars (Nat.toDigits 10 n) 0 (by rwa [Nat.ofDigitChars_ten_toDigits])
  rw [Nat.ofDigitChars_ten_toDigits] at haccept
  obtain ⟨c, rest, hcons⟩ := List.exists_cons_of_ne_nil (Nat.toDigits_ne_nil (n := n) (b := 10))
  have hc : c ≠ '-' := by
    rintro rfl
    cases hdigits '-' (hcons ▸ List.mem_cons_self)
  rw [number?, hcons, numeral?_of_ne_minus hc, ← hcons, hunsigned]
  simp [Numeral.value?, haccept, integer]

end Tokens

end Json
end GoalDirected
