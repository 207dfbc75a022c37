import N8n.Foundations.OrderedMap
import Mathlib.Data.Option.Basic

/-!
# Maps with the same keys

Two maps are related when they have the same keys and the values under each key
are related. Writing related values under one key and deleting a key in both maps
keep them so.
-/

namespace N8n.OrderedMap

variable {κ α β : Type*} [DecidableEq κ] {R : κ → α → β → Prop} {m : OrderedMap κ α}
  {m' : OrderedMap κ β} {k : κ} {a : α} {b : β}

def Related (R : κ → α → β → Prop) (m : OrderedMap κ α) (m' : OrderedMap κ β) : Prop :=
  ∀ k, Option.Rel (R k) (m.get? k) (m'.get? k)

theorem Related.empty : Related R .empty .empty := fun _ => .none

theorem Related.mem_keys (h : Related R m m') (k : κ) : k ∈ m.keys ↔ k ∈ m'.keys := by
  rw [← not_iff_not, ← get?_eq_none, ← get?_eq_none]
  have hk := h k
  cases hm : m.get? k <;> cases hm' : m'.get? k <;> rw [hm, hm'] at hk <;> cases hk <;> simp

theorem Related.of_some (h : Related R m m') (ha : m.get? k = some a) :
    ∃ b, m'.get? k = some b ∧ R k a b := by
  have hk := h k
  rw [ha] at hk
  cases hb : m'.get? k with
  | none =>
    rw [hb] at hk
    cases hk
  | some b =>
    rw [hb] at hk
    cases hk with
    | some hab => exact ⟨b, rfl, hab⟩

theorem Related.of_none (h : Related R m m') (hm : m.get? k = none) : m'.get? k = none := by
  have hk := h k
  rw [hm] at hk
  cases hb : m'.get? k with
  | none => rfl
  | some b =>
    rw [hb] at hk
    cases hk

theorem Related.set (h : Related R m m') (hab : R k a b) : Related R (m.set k a) (m'.set k b) := by
  intro k'
  rw [get?_set, get?_set]
  split_ifs with hk
  · exact .some (hk ▸ hab)
  · exact h k'

theorem Related.delete (h : Related R m m') (k : κ) : Related R (m.delete k) (m'.delete k) := by
  intro k'
  rw [get?_delete, get?_delete]
  split_ifs
  · exact .none
  · exact h k'

/-- What stood under a key that is deleted does not matter. -/
theorem Related.delete_set (h : Related R m m') (k : κ) (a : α) (b : β) :
    Related R ((m.set k a).delete k) ((m'.set k b).delete k) := by
  intro k'
  rw [get?_delete, get?_delete]
  split_ifs with hk
  · exact .none
  · rw [get?_set_of_ne hk, get?_set_of_ne hk]
    exact h k'

/-- What stood under a key that is written once more does not matter. -/
theorem Related.set_set (h : Related R m m') (a : α) (b : β) {a' : α} {b' : β} (hab : R k a' b') :
    Related R ((m.set k a).set k a') ((m'.set k b).set k b') := by
  intro k'
  rw [get?_set (m.set k a), get?_set (m'.set k b)]
  split_ifs with hk
  · exact .some (hk ▸ hab)
  · rw [get?_set_of_ne hk, get?_set_of_ne hk]
    exact h k'

end N8n.OrderedMap
