import Mathlib.Data.List.Basic

/-!
# Lists with a frame around a middle part

Two ways to read a list as front, middle and back agree, or the front of one holds the front
and the middle of the other, as far as the middle parts cannot overlap.
-/

namespace N8n.NestedFrames

variable {α : Type*}

/-- No proper end of the one is a beginning of the other. -/
def NoOverlap (middle middle' : List α) : Prop :=
  ∀ front back, middle = front ++ back → front ≠ [] → back ≠ [] → ¬ back <+: middle'

section
variable {front middle back front' middle' back' : List α}

/-- The front of the second reading ends behind that of the first. -/
theorem eq_or_nested_of_append {rest : List α} (hlength : middle.length = middle'.length)
    (hfree : NoOverlap middle middle') (h : middle ++ back = rest ++ (middle' ++ back')) :
    (rest = [] ∧ middle = middle' ∧ back = back') ∨
      ∃ inner, rest = middle ++ inner ∧ back = inner ++ (middle' ++ back') := by
  rcases List.append_eq_append_iff.mp h with ⟨inner, rfl, hback⟩ | ⟨tail, rfl, htail⟩
  · exact Or.inr ⟨inner, rfl, hback⟩
  · by_cases hrest : rest = []
    · subst hrest
      obtain ⟨hmiddle, hback⟩ := List.append_inj htail.symm (by simpa using hlength)
      exact Or.inl ⟨rfl, hmiddle, hback⟩
    · by_cases htailNil : tail = []
      · subst htailNil
        exact Or.inr ⟨[], by simp, by simpa using htail.symm⟩
      · refine absurd ?_ (hfree rest tail rfl hrest htailNil)
        refine List.prefix_of_prefix_length_le ⟨back, htail.symm⟩ ⟨back', rfl⟩ ?_
        rw [List.length_append] at hlength
        omega

theorem eq_or_nested (hlength : middle.length = middle'.length)
    (hfree : NoOverlap middle middle') (hfree' : NoOverlap middle' middle)
    (h : front ++ (middle ++ back) = front' ++ (middle' ++ back')) :
    (front = front' ∧ middle = middle' ∧ back = back') ∨
      (∃ inner, front' = front ++ (middle ++ inner) ∧ back = inner ++ (middle' ++ back')) ∨
      ∃ inner, front = front' ++ (middle' ++ inner) ∧ back' = inner ++ (middle ++ back) := by
  rcases List.append_eq_append_iff.mp h with ⟨rest, rfl, hrest⟩ | ⟨rest, rfl, hrest⟩
  · rcases eq_or_nested_of_append hlength hfree hrest with ⟨rfl, hparts⟩ | ⟨inner, rfl, hinner⟩
    · exact Or.inl ⟨(List.append_nil _).symm, hparts⟩
    · exact Or.inr (Or.inl ⟨inner, rfl, hinner⟩)
  · rcases eq_or_nested_of_append hlength.symm hfree' hrest with
      ⟨rfl, hmiddle, hback⟩ | ⟨inner, rfl, hinner⟩
    · exact Or.inl ⟨List.append_nil _, hmiddle.symm, hback.symm⟩
    · exact Or.inr (Or.inr ⟨inner, rfl, hinner⟩)

/-- Nested readings are readings of one list. -/
theorem append_of_nested {inner : List α} (hfront : front' = front ++ (middle ++ inner))
    (hback : back = inner ++ (middle' ++ back')) :
    front ++ (middle ++ back) = front' ++ (middle' ++ back') := by
  rw [hfront, hback, List.append_assoc, List.append_assoc]

end
end N8n.NestedFrames
