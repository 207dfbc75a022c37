import Mathlib.Data.List.Infix
import Mathlib.Tactic.SplitIfs

/-!
# Replacing parts of lists

The first occurrence of a pattern, or from left to right all of them, are replaced.
-/

namespace N8n.Replacing

variable {α : Type*} [DecidableEq α]

def replaceFirst (pattern replacement : List α) : List α → List α
  | [] => []
  | a :: s =>
    if pattern <+: a :: s then replacement ++ (a :: s).drop pattern.length
    else a :: replaceFirst pattern replacement s

/-- The elements of an occurrence that was replaced are skipped. -/
def replaceFrom (pattern replacement : List α) : ℕ → List α → List α
  | _, [] => []
  | skip + 1, _ :: s => replaceFrom pattern replacement skip s
  | 0, a :: s =>
    if pattern <+: a :: s then replacement ++ replaceFrom pattern replacement (pattern.length - 1) s
    else a :: replaceFrom pattern replacement 0 s

def replaceAll (pattern replacement s : List α) : List α := replaceFrom pattern replacement 0 s

variable {pattern replacement s t : List α}

theorem replaceFirst_of_not_infix (h : ¬ pattern <:+: s) : replaceFirst pattern replacement s = s := by
  induction s with
  | nil => rfl
  | cons a s ih =>
    rw [replaceFirst, if_neg fun hp => h hp.isInfix, ih fun hi => h (hi.trans (List.suffix_cons a s).isInfix)]

/-- What comes before the first occurrence stays, and so does what comes after it. -/
theorem replaceFirst_append (hne : pattern ≠ [])
    (h : ∀ u, u <:+ s → u ≠ [] → ¬ pattern <+: u ++ (pattern ++ t)) :
    replaceFirst pattern replacement (s ++ (pattern ++ t)) = s ++ (replacement ++ t) := by
  induction s with
  | nil =>
    cases hp : pattern with
    | nil => exact absurd hp hne
    | cons a p =>
      rw [List.nil_append, List.cons_append, replaceFirst, if_pos (by simp), ← List.cons_append,
        List.drop_left]
      rfl
  | cons a s ih =>
    have hfirst := h (a :: s) List.suffix_rfl (List.cons_ne_nil a s)
    rw [List.cons_append] at hfirst
    rw [List.cons_append, replaceFirst, if_neg hfirst,
      ih fun u hu => h u (hu.trans (List.suffix_cons a s))]
    rfl

theorem replaceAll_of_not_infix (h : ¬ pattern <:+: s) : replaceAll pattern replacement s = s := by
  induction s with
  | nil => rfl
  | cons a s ih =>
    have htail : replaceFrom pattern replacement 0 s = s := ih fun hi => h (List.infix_cons hi)
    rw [replaceAll, replaceFrom, if_neg fun hp => h hp.isInfix, htail]

theorem length_replaceFrom_le (hne : pattern ≠ []) (hlength : replacement.length ≤ pattern.length)
    (skip : ℕ) : (replaceFrom pattern replacement skip s).length ≤ s.length - skip := by
  have hpos : 0 < pattern.length := List.length_pos_iff.mpr hne
  induction s generalizing skip with
  | nil => simp [replaceFrom]
  | cons a s ih =>
    cases skip with
    | succ skip =>
      rw [replaceFrom, List.length_cons, Nat.add_sub_add_right]
      exact ih skip
    | zero =>
      rw [replaceFrom]
      split_ifs with hp
      · have hle := hp.length_le
        have htail := ih (pattern.length - 1)
        rw [List.length_append, List.length_cons]
        rw [List.length_cons] at hle
        omega
      · have htail := ih 0
        rw [List.length_cons, List.length_cons]
        omega

/-- A shorter replacement makes a list with an occurrence shorter. -/
theorem length_replaceAll_lt (hne : pattern ≠ []) (hlength : replacement.length < pattern.length)
    (h : pattern <:+: s) : (replaceAll pattern replacement s).length < s.length := by
  induction s with
  | nil => exact absurd (List.eq_nil_of_infix_nil h) hne
  | cons a s ih =>
    rw [replaceAll, replaceFrom]
    split_ifs with hp
    · have hle := hp.length_le
      have htail := length_replaceFrom_le (s := s) hne hlength.le (pattern.length - 1)
      rw [List.length_append, List.length_cons]
      rw [List.length_cons] at hle
      omega
    · have htail := ih ((List.infix_cons_iff.mp h).resolve_left hp)
      rw [List.length_cons, List.length_cons]
      exact Nat.succ_lt_succ htail

theorem length_replaceAll_le (hne : pattern ≠ []) (hlength : replacement.length ≤ pattern.length) :
    (replaceAll pattern replacement s).length ≤ s.length :=
  length_replaceFrom_le hne hlength 0

theorem replaceAll_eq_self_iff (hne : pattern ≠ []) (hlength : replacement.length < pattern.length) :
    replaceAll pattern replacement s = s ↔ ¬ pattern <:+: s := by
  refine ⟨fun heq h => ?_, replaceAll_of_not_infix⟩
  have hlt := length_replaceAll_lt hne hlength h
  rw [heq] at hlt
  exact lt_irrefl _ hlt

end N8n.Replacing
