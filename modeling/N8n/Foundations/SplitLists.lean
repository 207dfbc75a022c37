import Mathlib.Data.List.Basic
import Mathlib.Data.PNat.Defs

/-!
# Splits of a list

What is said of an item together with those before it and those after it, when one item more is
added at the end, and lists that are cut into batches.
-/

namespace N8n.SplitLists
variable {α : Type*} {l before after : List α} {a b : α}

/-- A list with one item more is split at that item, or where the list was split before. -/
theorem concat_eq_iff :
    l ++ [a] = before ++ b :: after ↔
      before = l ∧ b = a ∧ after = [] ∨ ∃ rest, after = rest ++ [a] ∧ l = before ++ b :: rest := by
  constructor
  · intro hsplit
    rcases List.eq_nil_or_concat after with rfl | ⟨rest, last, rfl⟩
    · obtain ⟨hbefore, hitem⟩ := List.append_inj' hsplit rfl
      exact .inl ⟨hbefore.symm, (List.singleton_inj.mp hitem).symm, rfl⟩
    · rw [List.concat_eq_append, ← List.cons_append, ← List.append_assoc] at hsplit
      obtain ⟨hl, hitem⟩ := List.append_inj' hsplit rfl
      obtain rfl := List.singleton_inj.mp hitem
      exact .inr ⟨rest, List.concat_eq_append, hl⟩
  · rintro (⟨rfl, rfl, rfl⟩ | ⟨rest, rfl, rfl⟩)
    · rfl
    · simp

theorem exists_split_concat {P : List α → α → List α → Prop} :
    (∃ before b after, l ++ [a] = before ++ b :: after ∧ P before b after) ↔
      P l a [] ∨ ∃ before b after, l = before ++ b :: after ∧ P before b (after ++ [a]) := by
  simp only [concat_eq_iff]
  constructor
  · rintro ⟨before, b, after, ⟨rfl, rfl, rfl⟩ | ⟨rest, rfl, hl⟩, hP⟩
    · exact .inl hP
    · exact .inr ⟨before, b, rest, hl, hP⟩
  · rintro (hP | ⟨before, b, rest, hl, hP⟩)
    · exact ⟨l, a, [], .inl ⟨rfl, rfl, rfl⟩, hP⟩
    · exact ⟨before, b, rest ++ [a], .inr ⟨rest, rfl, hl⟩, hP⟩

theorem forall_split_concat {P : List α → α → List α → Prop} :
    (∀ before b after, l ++ [a] = before ++ b :: after → P before b after) ↔
      P l a [] ∧ ∀ before b after, l = before ++ b :: after → P before b (after ++ [a]) := by
  simp only [concat_eq_iff]
  constructor
  · intro h
    exact ⟨h l a [] (.inl ⟨rfl, rfl, rfl⟩), fun before b rest hl => h before b _ (.inr ⟨rest, rfl, hl⟩)⟩
  · rintro ⟨hlast, hrest⟩ before b after (⟨rfl, rfl, rfl⟩ | ⟨rest, rfl, hl⟩)
    · exact hlast
    · exact hrest before b rest hl

/-! ### Lists that grow -/

def GrowsBy (P : α → Prop) (l l' : List α) : Prop := ∃ new, l' = l ++ new ∧ ∀ a ∈ new, P a

section GrowsBy
variable {P : α → Prop} {l l₁ l₂ : List α}

theorem GrowsBy.of_eq (h : l₁ = l) : GrowsBy P l l₁ := ⟨[], by rw [h, List.append_nil], by simp⟩

theorem growsBy_concat {a : α} (h : P a) : GrowsBy P l (l ++ [a]) := ⟨[a], rfl, by simpa using h⟩

theorem GrowsBy.trans (h₁ : GrowsBy P l l₁) (h₂ : GrowsBy P l₁ l₂) : GrowsBy P l l₂ := by
  obtain ⟨new₁, hnew₁, hP₁⟩ := h₁
  obtain ⟨new₂, hnew₂, hP₂⟩ := h₂
  refine ⟨new₁ ++ new₂, by rw [hnew₂, hnew₁, List.append_assoc], fun a ha => ?_⟩
  exact (List.mem_append.mp ha).elim (hP₁ a) (hP₂ a)

theorem GrowsBy.filterMap {β : Type*} {f : α → Option β} (h : GrowsBy (fun a => f a = none) l l₁) :
    l₁.filterMap f = l.filterMap f := by
  obtain ⟨new, rfl, hnone⟩ := h
  rw [List.filterMap_append, List.filterMap_eq_nil_iff.mpr hnone, List.append_nil]

end GrowsBy

end N8n.SplitLists

/-! ### Lists in batches

A list cut into batches of one size, and work on a list one item at a time with a state
that is carried along. Such work comes to the same, however the list is cut. -/

namespace N8n.Batches

variable {α β σ : Type*}

def batches (size : ℕ+) : List α → List (List α)
  | [] => []
  | a :: rest => (a :: rest).take size :: batches size ((a :: rest).drop size)
termination_by xs => xs.length
decreasing_by
  rw [List.length_drop, List.length_cons]
  have := size.pos
  omega

@[simp] theorem batches_nil (size : ℕ+) : batches size ([] : List α) = [] := by
  rw [batches]

theorem batches_of_ne_nil (size : ℕ+) {xs : List α} (h : xs ≠ []) :
    batches size xs = xs.take size :: batches size (xs.drop size) := by
  cases xs with
  | nil => exact absurd rfl h
  | cons a rest => rw [batches]

theorem take_ne_nil (size : ℕ+) {xs : List α} (h : xs ≠ []) : xs.take size ≠ [] := by
  simp [h]

theorem length_drop_lt (size : ℕ+) {xs : List α} (h : xs ≠ []) :
    (xs.drop size).length < xs.length := by
  have := List.length_pos_iff.mpr h
  have := size.pos
  rw [List.length_drop]
  omega

theorem batches_induction {motive : List α → Prop} (size : ℕ+) (nil : motive [])
    (step : ∀ xs, xs ≠ [] → motive (xs.drop size) → motive xs) (xs : List α) : motive xs := by
  induction h : xs.length using Nat.strong_induction_on generalizing xs with
  | h n ih =>
    by_cases hnil : xs = []
    · exact hnil ▸ nil
    · exact step xs hnil (ih _ (h ▸ length_drop_lt size hnil) _ rfl)

theorem flatten_batches (size : ℕ+) (xs : List α) : (batches size xs).flatten = xs := by
  induction xs using batches_induction size with
  | nil => simp
  | step xs h ih => rw [batches_of_ne_nil size h, List.flatten_cons, ih, List.take_append_drop]

theorem ne_nil_of_mem_batches {size : ℕ+} {xs batch : List α} (h : batch ∈ batches size xs) :
    batch ≠ [] := by
  induction xs using batches_induction size with
  | nil => simp at h
  | step xs hxs ih =>
    rw [batches_of_ne_nil size hxs, List.mem_cons] at h
    rcases h with rfl | h
    · exact take_ne_nil size hxs
    · exact ih h

/-! ### One item at a time -/

def oneByOne (step : σ → α → σ × List β) : σ → List α → σ × List β
  | s, [] => (s, [])
  | s, a :: rest =>
    ((oneByOne step (step s a).1 rest).1, (step s a).2 ++ (oneByOne step (step s a).1 rest).2)

variable {step : σ → α → σ × List β}

theorem oneByOne_append (s : σ) (xs ys : List α) :
    oneByOne step s (xs ++ ys) =
      ((oneByOne step (oneByOne step s xs).1 ys).1,
        (oneByOne step s xs).2 ++ (oneByOne step (oneByOne step s xs).1 ys).2) := by
  induction xs generalizing s with
  | nil => rfl
  | cons a rest ih => simp only [List.cons_append, oneByOne, ih, List.append_assoc]

theorem oneByOne_ne_nil (hstep : ∀ s a, (step s a).2 ≠ []) (s : σ) {xs : List α} (h : xs ≠ []) :
    (oneByOne step s xs).2 ≠ [] := by
  cases xs with
  | nil => exact absurd rfl h
  | cons a rest => exact fun heq => hstep s a (List.append_eq_nil_iff.mp heq).1

end N8n.Batches
