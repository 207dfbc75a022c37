import Mathlib.Algebra.Group.Nat.Defs
import Mathlib.Data.Nat.Notation
import Mathlib.Data.List.Basic
import Mathlib.Data.List.Sort
import Mathlib.Data.List.Lex
import Mathlib.Data.Char

/-!
# Numbers sorted as texts

Decimal texts of one length compare as the numbers do. A text is not above a longer
one when its number is not above what the first digits of the longer one say, so
`10` comes before `2`.
-/

namespace N8n.DecimalOrder

section Lists
variable {α : Type*} [LinearOrder α] {l l' r : List α} {a b : α}

theorem concat_lt_concat (h : l.length = l'.length) :
    l ++ [a] < l' ++ [b] ↔ l < l' ∨ l = l' ∧ a < b := by
  induction l generalizing l' with
  | nil =>
    cases l' with
    | nil => simp [List.cons_lt_cons_iff]
    | cons c l' => cases h
  | cons c l ih =>
    cases l' with
    | nil => cases h
    | cons d l' =>
      rw [List.cons_append, List.cons_append, List.cons_lt_cons_iff, List.cons_lt_cons_iff,
        ih (Nat.succ.inj h), List.cons.injEq]
      tauto

/-- What follows after the length of the other list does not count. -/
theorem append_lt_iff (h : l.length = l'.length) : l ++ r < l' ↔ l < l' := by
  induction l generalizing l' with
  | nil =>
    obtain rfl := List.length_eq_zero_iff.mp h.symm
    simp
  | cons c l ih =>
    cases l' with
    | nil => cases h
    | cons d l' =>
      rw [List.cons_append, List.cons_lt_cons_iff, List.cons_lt_cons_iff, ih (Nat.succ.inj h)]

end Lists

def digits (n : ℕ) : ℕ := (Nat.toDigits 10 n).length

theorem toDigits_injective {m n : ℕ} (h : Nat.toDigits 10 m = Nat.toDigits 10 n) : m = n := by
  rw [← @Nat.ofDigitChars_ten_toDigits m, h, Nat.ofDigitChars_ten_toDigits]

theorem digitChar_lt_iff {m n : ℕ} (hm : m < 10) (hn : n < 10) :
    Nat.digitChar m < Nat.digitChar n ↔ m < n := by
  have hall : ∀ m < 10, ∀ n < 10, (Nat.digitChar m < Nat.digitChar n ↔ m < n) := by decide
  exact hall m hm n hn

theorem digits_of_lt {n : ℕ} (h : n < 10) : digits n = 1 := by
  rw [digits, Nat.toDigits_of_lt_base h, List.length_singleton]

theorem digits_of_le {n : ℕ} (h : 10 ≤ n) : digits n = digits (n / 10) + 1 := by
  rw [digits, Nat.toDigits_of_base_le (by decide) h, List.length_append, List.length_singleton,
    digits]

theorem digits_pos (n : ℕ) : 0 < digits n := Nat.length_toDigits_pos

theorem digits_mono {m n : ℕ} (h : m ≤ n) : digits m ≤ digits n := by
  rw [digits, Nat.length_toDigits_le_iff (by decide) (digits_pos n)]
  exact lt_of_le_of_lt h ((Nat.length_toDigits_le_iff (by decide) (digits_pos n)).mp le_rfl)

theorem toDigits_lt_iff {m n : ℕ} (h : digits m = digits n) :
    Nat.toDigits 10 m < Nat.toDigits 10 n ↔ m < n := by
  induction m using Nat.strong_induction_on generalizing n with
  | _ m ih =>
    by_cases hm : m < 10
    · have hn : n < 10 := by
        by_contra hn
        have hpos := digits_pos (n / 10)
        rw [digits_of_lt hm, digits_of_le (by omega)] at h
        omega
      rw [Nat.toDigits_of_lt_base hm, Nat.toDigits_of_lt_base hn, List.cons_lt_cons_iff,
        digitChar_lt_iff hm hn]
      simp
    · have hn : 10 ≤ n := by
        by_contra hn
        have hpos := digits_pos (m / 10)
        rw [digits_of_le (not_lt.mp hm), digits_of_lt (not_le.mp hn)] at h
        omega
      rw [digits_of_le (not_lt.mp hm), digits_of_le hn] at h
      have hdiv : digits (m / 10) = digits (n / 10) := by omega
      rw [Nat.toDigits_of_base_le (by decide) (by omega : 10 ≤ m),
        Nat.toDigits_of_base_le (by decide) hn, concat_lt_concat hdiv, ih (m / 10) (by omega) hdiv,
        digitChar_lt_iff (Nat.mod_lt m (by decide)) (Nat.mod_lt n (by decide))]
      constructor
      · rintro (hlt | ⟨heq, hlt⟩)
        · omega
        · have := toDigits_injective heq
          omega
      · intro hlt
        by_cases heq : m / 10 = n / 10
        · exact Or.inr ⟨by rw [heq], by omega⟩
        · exact Or.inl (by omega)

/-- The text of a number without its last digits is the text of the number cut. -/
theorem toDigits_cut {n j : ℕ} (h : j < digits n) :
    digits (n / 10 ^ j) = digits n - j ∧
      ∃ r, Nat.toDigits 10 n = Nat.toDigits 10 (n / 10 ^ j) ++ r := by
  induction j with
  | zero => exact ⟨by simp, [], by simp⟩
  | succ j ih =>
    obtain ⟨hlen, r, hr⟩ := ih (by omega)
    have hle : 10 ≤ n / 10 ^ j := by
      by_contra hlt
      rw [digits_of_lt (by omega)] at hlen
      omega
    have hdiv : n / 10 ^ (j + 1) = n / 10 ^ j / 10 := by rw [Nat.pow_succ, Nat.div_div_eq_div_mul]
    rw [digits_of_le hle] at hlen
    rw [hdiv]
    refine ⟨by omega, [(n / 10 ^ j % 10).digitChar] ++ r, ?_⟩
    rw [hr, Nat.toDigits_of_base_le (by decide) hle, List.append_assoc]

/-- The text of `m` is not above that of a number with as many digits or more when `m` is
not above the first digits of that number. -/
theorem toDigits_le_iff {m n : ℕ} (h : digits m ≤ digits n) :
    Nat.toDigits 10 m ≤ Nat.toDigits 10 n ↔ m ≤ n / 10 ^ (digits n - digits m) := by
  have hpos := digits_pos m
  obtain ⟨hlen, r, hr⟩ := @toDigits_cut n (digits n - digits m) (by omega)
  have hcut : digits (n / 10 ^ (digits n - digits m)) = digits m := by omega
  rw [← not_lt, hr, append_lt_iff hcut, toDigits_lt_iff hcut, not_lt]

end N8n.DecimalOrder
