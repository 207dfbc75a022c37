import Mathlib.Data.List.Perm.Basic

/-!
# The first answer

A loop over rules that stops at the first rule with an answer gives the same answer in every
order exactly when the rules that have an answer have the same one.
-/

namespace N8n.FirstAnswer

variable {α β : Type*} {f : α → Option β} {l : List α} {a : α} {x : β}

def Agree (f : α → Option β) (l : List α) : Prop :=
  ∀ a ∈ l, ∀ b ∈ l, ∀ x y, f a = some x → f b = some y → x = y

theorem findSome?_of_agree (h : Agree f l) (ha : a ∈ l) (hx : f a = some x) :
    l.findSome? f = some x := by
  cases hfirst : l.findSome? f with
  | none =>
    rw [List.findSome?_eq_none_iff.mp hfirst a ha] at hx
    cases hx
  | some y =>
    obtain ⟨b, hb, hy⟩ := List.exists_of_findSome?_eq_some hfirst
    rw [h a ha b hb x y hx hy]

theorem exists_perm (ha : a ∈ l) (hx : f a = some x) :
    ∃ l' : List α, l'.Perm l ∧ l'.findSome? f = some x := by
  obtain ⟨s, t, rfl⟩ := List.append_of_mem ha
  exact ⟨a :: (s ++ t), List.perm_middle.symm, by rw [List.findSome?_cons, hx]⟩

theorem Agree.perm (h : Agree f l) {l' : List α} (hl : l'.Perm l) :
    l'.findSome? f = l.findSome? f := by
  cases hfirst : l.findSome? f with
  | none =>
    rw [List.findSome?_eq_none_iff] at hfirst ⊢
    exact fun a ha => hfirst a (hl.mem_iff.mp ha)
  | some x =>
    obtain ⟨a, ha, hx⟩ := List.exists_of_findSome?_eq_some hfirst
    refine findSome?_of_agree (fun b hb c hc => ?_) (hl.mem_iff.mpr ha) hx
    exact h b (hl.mem_iff.mp hb) c (hl.mem_iff.mp hc)

end N8n.FirstAnswer
