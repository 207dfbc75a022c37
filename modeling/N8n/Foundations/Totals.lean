import N8n.Foundations.OrderedMap
import Mathlib.Algebra.BigOperators.Group.List.Basic
import Mathlib.Tactic.Abel

/-!
# Totals over the values of a map

What a map holds altogether, when each value holds something that can be added
up. Writing a value exchanges what stood under its key for what is written.
-/

namespace N8n.OrderedMap

variable {κ α M : Type*} [AddCommMonoid M]

def total (m : OrderedMap κ α) (f : α → M) : M := (m.values.map f).sum

@[simp] theorem total_empty (f : α → M) : (empty : OrderedMap κ α).total f = 0 := rfl

theorem total_eq_sum (m : OrderedMap κ α) (f : α → M) :
    m.total f = (m.entries.map fun e => f e.2).sum := by
  rw [total, values, List.map_map]
  rfl

theorem size_eq_total (m : OrderedMap κ α) : m.size = m.total fun _ => 1 := by
  simp [total_eq_sum, size]

variable [DecidableEq κ]

theorem sum_setEntry_of_none {k : κ} {es : List (κ × α)} (h : lookupEntry k es = none) (a : α)
    (f : κ × α → M) : ((setEntry k a es).map f).sum = (es.map f).sum + f (k, a) := by
  induction es with
  | nil => simp [setEntry]
  | cons e es ih =>
    obtain ⟨k', b⟩ := e
    have hk : k' ≠ k := by
      rintro rfl
      simp [lookupEntry] at h
    simp only [lookupEntry, if_neg hk] at h
    simp only [setEntry, if_neg hk, List.map_cons, List.sum_cons, ih h]
    abel

theorem sum_setEntry_of_some {k : κ} {b : α} {es : List (κ × α)} (h : lookupEntry k es = some b)
    (a : α) (f : κ × α → M) :
    ((setEntry k a es).map f).sum + f (k, b) = (es.map f).sum + f (k, a) := by
  induction es with
  | nil => cases h
  | cons e es ih =>
    obtain ⟨k', c⟩ := e
    by_cases hk : k' = k
    · subst hk
      simp only [lookupEntry, if_true, Option.some.injEq] at h
      subst h
      simp only [setEntry, if_true, List.map_cons, List.sum_cons]
      abel
    · simp only [lookupEntry, if_neg hk] at h
      simp only [setEntry, if_neg hk, List.map_cons, List.sum_cons, add_assoc, ih h]

theorem sum_filter_ne {k : κ} {b : α} {es : List (κ × α)} (hes : (es.map Prod.fst).Nodup)
    (h : (k, b) ∈ es) (f : κ × α → M) :
    ((es.filter fun e => decide (e.1 ≠ k)).map f).sum + f (k, b) = (es.map f).sum := by
  induction es with
  | nil => cases h
  | cons e es ih =>
    obtain ⟨k', c⟩ := e
    simp only [List.map_cons, List.nodup_cons] at hes
    rcases List.mem_cons.mp h with he | he
    · obtain ⟨rfl, rfl⟩ := Prod.mk.inj he
      have hrest : es.filter (fun e => decide (e.1 ≠ k)) = es := by
        apply List.filter_eq_self.mpr
        intro e he'
        simp only [decide_eq_true_eq]
        rintro rfl
        exact hes.1 (List.mem_map_of_mem he')
      simp only [List.filter_cons, ne_eq, not_true_eq_false, decide_false, Bool.false_eq_true,
        if_false, List.map_cons, List.sum_cons]
      rw [hrest, add_comm]
    · have hk : k' ≠ k := by
        rintro rfl
        exact hes.1 (List.mem_map.mpr ⟨_, he, rfl⟩)
      simp only [List.filter_cons, ne_eq, hk, not_false_eq_true, decide_true, if_true,
        List.map_cons, List.sum_cons, add_assoc]
      rw [ih hes.2 he]

variable {m : OrderedMap κ α} {k : κ}

theorem total_set_of_none (h : m.get? k = none) (a : α) (f : α → M) :
    (m.set k a).total f = m.total f + f a := by
  rw [total_eq_sum, total_eq_sum]
  exact sum_setEntry_of_none h a fun e => f e.2

theorem total_set_of_some {b : α} (h : m.get? k = some b) (a : α) (f : α → M) :
    (m.set k a).total f + f b = m.total f + f a := by
  rw [total_eq_sum, total_eq_sum]
  exact sum_setEntry_of_some h a fun e => f e.2

theorem total_delete {b : α} (h : m.get? k = some b) (f : α → M) :
    (m.delete k).total f + f b = m.total f := by
  rw [total_eq_sum, total_eq_sum]
  exact sum_filter_ne m.nodup (get?_eq_some.mp h) fun e => f e.2

theorem size_delete {b : α} (h : m.get? k = some b) : (m.delete k).size + 1 = m.size := by
  rw [size_eq_total, size_eq_total]
  exact total_delete h fun _ => 1

theorem size_le_set (m : OrderedMap κ α) (k : κ) (a : α) : m.size ≤ (m.set k a).size := by
  rw [size_eq_total, size_eq_total]
  cases h : m.get? k with
  | none =>
    rw [total_set_of_none h]
    exact Nat.le_succ _
  | some b => exact (Nat.add_right_cancel (total_set_of_some h a fun _ => 1)).ge

theorem size_set_le (m : OrderedMap κ α) (k : κ) (a : α) : (m.set k a).size ≤ m.size + 1 := by
  rw [size_eq_total, size_eq_total]
  cases h : m.get? k with
  | none => exact (total_set_of_none h a fun _ => 1).le
  | some b =>
    rw [Nat.add_right_cancel (total_set_of_some h a fun _ => 1)]
    exact Nat.le_succ _

theorem size_delete_le (m : OrderedMap κ α) (k : κ) : (m.delete k).size ≤ m.size :=
  List.length_filter_le _ _

end N8n.OrderedMap
