import Mathlib.Data.List.Basic
import Mathlib.Data.List.TakeWhile
import Mathlib.Tactic.SplitIfs

/-!
# Pages of a list that are filtered

How far the leading items of a list pass a filter says which pages stay complete, and what is missed
by a reader who stops at the first page that does not.
-/

namespace N8n.FilteredPages
variable {α : Type*} (p : α → Bool) (xs : List α)

/-- The number of items before the first one that fails. -/
def leading : ℕ := (xs.takeWhile p).length

/-- At most `limit` items from `offset` on. -/
def page (offset limit : ℕ) : List α := (xs.drop offset).take limit

variable {p xs} {offset limit m : ℕ}

theorem le_leading_iff {n : ℕ} : n ≤ leading p xs ↔ n ≤ xs.length ∧ ∀ x ∈ xs.take n, p x = true := by
  induction xs generalizing n with
  | nil => simp [leading]
  | cons x xs ih =>
    cases n with
    | zero => simp
    | succ n =>
      cases hx : p x with
      | false => simp [leading, hx]
      | true =>
        have hleading : leading p (x :: xs) = leading p xs + 1 := by simp [leading, hx]
        rw [hleading, Nat.add_le_add_iff_right, ih]
        simp [hx]

theorem leading_le_length : leading p xs ≤ xs.length := (le_leading_iff.mp le_rfl).1

theorem filter_take_of_le {n : ℕ} (h : n ≤ leading p xs) : (xs.take n).filter p = xs.take n :=
  List.filter_eq_self.mpr (le_leading_iff.mp h).2

theorem take_add_page (xs : List α) (offset limit : ℕ) :
    xs.take (offset + limit) = xs.take offset ++ page xs offset limit :=
  List.take_add

theorem length_page : (page xs offset limit).length = min limit (xs.length - offset) := by
  simp [page]

/-- A page stays complete as long as the leading items last. -/
theorem length_filter_page_iff (h : offset ≤ leading p xs) :
    ((page xs offset limit).filter p).length = limit ↔ offset + limit ≤ leading p xs := by
  have hoffset := le_leading_iff.mp h
  have hlength : (page xs offset limit).length = min limit (xs.length - offset) := length_page
  rw [le_leading_iff, take_add_page]
  constructor
  · intro hfull
    have hle := List.length_filter_le p (page xs offset limit)
    have hall := List.length_filter_eq_length_iff.mp (by omega :
      ((page xs offset limit).filter p).length = (page xs offset limit).length)
    refine ⟨by omega, fun x hx => ?_⟩
    rcases List.mem_append.mp hx with hx | hx
    · exact hoffset.2 x hx
    · exact hall x hx
  · rintro ⟨hbound, hall⟩
    rw [List.length_filter_eq_length_iff.mpr fun x hx => hall x (List.mem_append_right _ hx)]
    omega

/-- What is wanted of the list, and of it the first `m` where that many are wanted. -/
def wanted (p : α → Bool) (xs : List α) : Option ℕ → List α
  | none => xs.filter p
  | some m => (xs.filter p).take m

/-- The end of the last page that a reader asks for who stops at the first incomplete page. -/
def lastEnd (pageSize : ℕ) (p : α → Bool) (xs : List α) (maxResults : Option ℕ) : ℕ :=
  let stop := (leading p xs / pageSize + 1) * pageSize
  maxResults.elim stop (min stop)

def NothingMissed (pageSize : ℕ) (p : α → Bool) (xs : List α) (maxResults : Option ℕ) : Prop :=
  (∃ m ∈ maxResults, m ≤ leading p xs) ∨
    ∀ x ∈ xs.drop (lastEnd pageSize p xs maxResults), p x = false

theorem lt_lastStop {pageSize : ℕ} (hp : 1 ≤ pageSize) (p : α → Bool) (xs : List α) :
    leading p xs < (leading p xs / pageSize + 1) * pageSize := by
  rw [Nat.mul_comm]
  exact Nat.lt_mul_div_succ _ hp

theorem filter_append_drop (p : α → Bool) (xs : List α) (n : ℕ) :
    xs.filter p = (xs.take n).filter p ++ (xs.drop n).filter p := by
  rw [← List.filter_append, List.take_append_drop]

theorem filter_take_eq_wanted_iff {pageSize : ℕ} (hp : 1 ≤ pageSize) {maxResults : Option ℕ} :
    (xs.take (lastEnd pageSize p xs maxResults)).filter p = wanted p xs maxResults ↔
      NothingMissed pageSize p xs maxResults := by
  have hstop := lt_lastStop hp p xs
  rw [NothingMissed]
  generalize hend : lastEnd pageSize p xs maxResults = n
  have hdrop : (xs.drop n).filter p = [] ↔ ∀ x ∈ xs.drop n, p x = false := by
    simp [List.filter_eq_nil_iff]
  rw [← hdrop]
  cases maxResults with
  | none => simp [wanted, filter_append_drop p xs n]
  | some m =>
    rw [lastEnd, Option.elim_some] at hend
    have hle := List.length_filter_le p (xs.take n)
    have hfull : ((page xs 0 n).filter p).length = n ↔ 0 + n ≤ leading p xs :=
      length_filter_page_iff (Nat.zero_le _)
    rw [page, List.drop_zero, Nat.zero_add] at hfull
    rw [List.length_take] at hle
    -- The filtered page is as long as what is wanted only if the leading items last.
    have hlength : ((xs.take n).filter p).length = m ↔ m ≤ leading p xs := by
      omega
    have htake : ((xs.take n).filter p).length ≤ m := by omega
    rw [wanted, filter_append_drop p xs n, List.take_append, List.take_of_length_le htake,
      List.self_eq_append_right, List.take_eq_nil_iff, Nat.sub_eq_zero_iff_le]
    simp only [Option.mem_some_iff, exists_eq_left']
    rw [← hlength]
    refine or_congr ?_ Iff.rfl
    omega

end N8n.FilteredPages
