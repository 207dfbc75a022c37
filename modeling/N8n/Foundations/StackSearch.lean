import N8n.Foundations.OrderedSet
import Mathlib.Algebra.BigOperators.Group.Finset.Basic
import Mathlib.Logic.Relation

/-!
# Depth-first search with a stack

A loop that takes the top of a stack, stops at the goal, and else marks the
element as seen and pushes its successors that are not seen. An element can be
pushed several times before it is first seen. When it is taken again all its
successors are seen already, because they were pushed above the other copies;
so each element pushes its successors once and the loop ends.
-/

namespace N8n.StackSearch

variable {α : Type*} [DecidableEq α]

/-- The head of `stack` is its top. -/
structure State (α : Type*) where
  seen : OrderedSet α
  stack : List α

def start (a : α) : State α := ⟨.empty, [a]⟩

def visit (next : α → List α) (s : State α) (a : α) (rest : List α) : State α :=
  ⟨s.seen.insert a, ((next a).filter (fun b => decide (b ∉ s.seen.insert a))).reverse ++ rest⟩

def search (next : α → List α) (goal : α) : ℕ → State α → Option Bool
  | 0, _ => none
  | fuel + 1, s =>
    match s.stack with
    | [] => some false
    | a :: rest => if a = goal then some true else search next goal fuel (visit next s a rest)

theorem search_mono {next : α → List α} {goal : α} {fuel fuel' : ℕ} {s : State α} {r : Bool}
    (h : search next goal fuel s = some r) (hle : fuel ≤ fuel') :
    search next goal fuel' s = some r := by
  induction fuel generalizing fuel' s with
  | zero => cases h
  | succ fuel ih =>
    obtain ⟨fuel', rfl⟩ : ∃ n, fuel' = n + 1 := ⟨fuel' - 1, by omega⟩
    simp only [search] at h ⊢
    split at h
    · exact h
    · split_ifs at h ⊢ with hg
      · exact h
      · exact ih h (by omega)

/-! ### What is found is reachable -/

theorem search_sound {next : α → List α} {goal a : α} {fuel : ℕ} {s : State α}
    (hs : ∀ b ∈ s.stack, Relation.ReflTransGen (fun x y => y ∈ next x) a b)
    (h : search next goal fuel s = some true) :
    Relation.ReflTransGen (fun x y => y ∈ next x) a goal := by
  induction fuel generalizing s with
  | zero => cases h
  | succ fuel ih =>
    simp only [search] at h
    split at h
    · cases h
    · rename_i b rest hst
      rw [hst] at hs
      split_ifs at h with hg
      · exact hg ▸ hs b List.mem_cons_self
      · refine ih (fun c hc => ?_) h
        simp only [visit, List.mem_append, List.mem_reverse, List.mem_filter] at hc
        rcases hc with ⟨hc, _⟩ | hc
        · exact (hs b List.mem_cons_self).tail hc
        · exact hs c (List.mem_cons_of_mem b hc)

/-! ### The loop ends -/

/-- The unseen successors of every seen element of the stack lie above it. -/
def Covered (next : α → List α) (seen : OrderedSet α) : List α → List α → Prop
  | _, [] => True
  | above, b :: bs =>
    (b ∈ seen → ∀ c ∈ next b, c ∈ seen ∨ c ∈ above) ∧ Covered next seen (b :: above) bs

theorem Covered.mono {next : α → List α} {seen seen' : OrderedSet α} {above above' bs : List α}
    (h : Covered next seen above bs)
    (hnew : ∀ b ∈ seen', b ∈ seen ∨ ∀ c ∈ next b, c ∈ seen' ∨ c ∈ above')
    (hold : ∀ c, c ∈ seen ∨ c ∈ above → c ∈ seen' ∨ c ∈ above') :
    Covered next seen' above' bs := by
  induction bs generalizing above above' with
  | nil => trivial
  | cons b bs ih =>
    obtain ⟨hb, hrest⟩ := h
    refine ⟨fun hseen => ?_, ih hrest (fun d hd => ?_) (fun c hc => ?_)⟩
    · rcases hnew b hseen with h | h
      · exact fun c hc => hold c (hb h c hc)
      · exact h
    · exact (hnew d hd).imp_right fun h c hc => (h c hc).imp_right (List.mem_cons_of_mem b)
    · rw [List.mem_cons] at hc ⊢
      have := hold c
      tauto

omit [DecidableEq α] in
theorem covered_of_unseen {next : α → List α} {seen : OrderedSet α} {above as bs : List α}
    (ha : ∀ a ∈ as, a ∉ seen) (h : Covered next seen (as.reverse ++ above) bs) :
    Covered next seen above (as ++ bs) := by
  induction as generalizing above with
  | nil => exact h
  | cons a as ih =>
    refine ⟨fun hs => absurd hs (ha a List.mem_cons_self), ?_⟩
    apply ih (fun b hb => ha b (List.mem_cons_of_mem a hb))
    simpa using h

theorem visit_covered {next : α → List α} {s : State α} {a : α} {rest : List α}
    (h : Covered next s.seen [] (a :: rest)) :
    Covered next (visit next s a rest).seen [] (visit next s a rest).stack := by
  apply covered_of_unseen
  · intro b hb
    simp only [List.mem_reverse, List.mem_filter, decide_eq_true_eq] at hb
    exact hb.2
  · obtain ⟨_, hrest⟩ := h
    apply hrest.mono
    · intro b hb
      rcases OrderedSet.mem_insert.mp hb with hb | rfl
      · exact Or.inl hb
      · right
        intro c hc
        by_cases hseen : c ∈ s.seen.insert b
        · exact Or.inl hseen
        · right
          simp only [List.reverse_reverse, List.append_nil, List.mem_filter, decide_eq_true_eq]
          exact ⟨hc, hseen⟩
    · intro c hc
      left
      rcases hc with hc | hc
      · exact OrderedSet.mem_insert.mpr (Or.inl hc)
      · exact OrderedSet.mem_insert.mpr (Or.inr (List.mem_singleton.mp hc))

/-- The stack, and the successors that the unseen elements can still push. -/
def potential (next : α → List α) (nodes : Finset α) (s : State α) : ℕ :=
  s.stack.length + ∑ a ∈ nodes.filter (fun a => a ∉ s.seen), (next a).length

theorem potential_visit_lt {next : α → List α} {nodes : Finset α} {s : State α} {a : α}
    {rest : List α} (hst : s.stack = a :: rest) (ha : a ∈ nodes)
    (h : Covered next s.seen [] (a :: rest)) :
    potential next nodes (visit next s a rest) < potential next nodes s := by
  unfold potential
  rw [hst]
  by_cases hseen : a ∈ s.seen
  · have hsub : ∀ b ∈ nodes, b ∉ (visit next s a rest).seen ↔ b ∉ s.seen := by
      intro b _
      simp only [visit, OrderedSet.mem_insert, not_or, and_iff_left_iff_imp]
      rintro hb rfl
      exact hb hseen
    have hnone : (next a).filter (fun b => decide (b ∉ s.seen.insert a)) = [] := by
      rw [List.filter_eq_nil_iff]
      intro b hb
      have := (h.1 hseen b hb).resolve_right List.not_mem_nil
      simp [this]
    rw [Finset.filter_congr hsub]
    simp only [visit, hnone, List.reverse_nil, List.nil_append, List.length_cons]
    omega
  · have herase : nodes.filter (fun b => b ∉ (visit next s a rest).seen) =
        (nodes.filter (fun b => b ∉ s.seen)).erase a := by
      ext b
      simp only [visit, Finset.mem_filter, Finset.mem_erase, OrderedSet.mem_insert, not_or]
      tauto
    have hsum := Finset.add_sum_erase (nodes.filter (fun b => b ∉ s.seen))
      (fun b => (next b).length) (Finset.mem_filter.mpr ⟨ha, hseen⟩)
    have hlen := List.length_filter_le (fun b => decide (b ∉ s.seen.insert a)) (next a)
    rw [herase]
    simp only [visit, List.length_append, List.length_reverse, List.length_cons]
    omega

theorem search_ends {next : α → List α} {goal : α} {nodes : Finset α}
    (hclosed : ∀ a ∈ nodes, ∀ b ∈ next a, b ∈ nodes) {fuel : ℕ} {s : State α}
    (hstack : ∀ a ∈ s.stack, a ∈ nodes) (hcov : Covered next s.seen [] s.stack)
    (hfuel : potential next nodes s < fuel) : ∃ r, search next goal fuel s = some r := by
  induction fuel generalizing s with
  | zero => omega
  | succ fuel ih =>
    simp only [search]
    split
    · exact ⟨false, rfl⟩
    · rename_i a rest hst
      split_ifs with hg
      · exact ⟨true, rfl⟩
      · rw [hst] at hstack hcov
        have ha := hstack a List.mem_cons_self
        apply ih
        · intro b hb
          simp only [visit, List.mem_append, List.mem_reverse, List.mem_filter] at hb
          rcases hb with ⟨hb, _⟩ | hb
          · exact hclosed a ha b hb
          · exact hstack b (List.mem_cons_of_mem a hb)
        · exact visit_covered hcov
        · have := potential_visit_lt hst ha hcov
          omega

end N8n.StackSearch
