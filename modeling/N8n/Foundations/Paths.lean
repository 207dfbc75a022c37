import Mathlib.Logic.Relation

/-!
# Paths

How a path of a relation can be taken so that it stays inside a set, or does
not come back to a node.
-/

namespace N8n.Paths

variable {α : Type*} {r : α → α → Prop}

/-- When a set can be left from the target only, a path to the target stays in the set. -/
theorem stays_inside {s : α → Prop} {a b : α}
    (hexit : ∀ x y, r x y → s x → ¬ s y → x = b) (hpath : Relation.ReflTransGen r a b)
    (ha : s a) : Relation.ReflTransGen (fun x y => s x ∧ s y ∧ r x y) a b := by
  induction hpath using Relation.ReflTransGen.head_induction_on with
  | refl => exact .refl
  | @head x y hxy _ ih =>
    by_cases hy : s y
    · exact .head ⟨ha, hy, hxy⟩ (ih hy)
    · rw [hexit x y hxy ha hy]

/-- After the last visit of `a` the path does not come back to it. -/
theorem leave_for_good {x b : α} (h : Relation.ReflTransGen r x b) (a : α) :
    Relation.ReflTransGen (fun y z => y ≠ a ∧ r y z) x b ∨
      ∃ w, r a w ∧ Relation.ReflTransGen (fun y z => y ≠ a ∧ r y z) w b := by
  induction h using Relation.ReflTransGen.head_induction_on with
  | refl => exact Or.inl .refl
  | @head x y hxy _ ih =>
    rcases ih with ih | ih
    · by_cases hx : x = a
      · exact Or.inr ⟨y, hx ▸ hxy, ih⟩
      · exact Or.inl (.head ⟨hx, hxy⟩ ih)
    · exact Or.inr ih

end N8n.Paths
