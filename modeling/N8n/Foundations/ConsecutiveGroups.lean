import Mathlib.Data.List.Perm.Basic
import Mathlib.Algebra.Order.Group.Int

/-!
# Groups with consecutive indices

A list is taken apart into groups. Each starts at the lowest index that is left and goes on as long
as there is an element for the next index, one with a preferred property if there is any. The
groups reach all the indices that are left exactly if the list has no gap between two indices at
any height.
-/

namespace N8n.ConsecutiveGroups

universe u

variable {κ : Type u} (index : κ → ℤ) (preferred : κ → Prop)

def From : ℤ → List κ → Prop
  | _, [] => True
  | first, a :: l => index a = first ∧ From (first + 1) l

/-- The group that is taken from a list, and what is left of it. -/
structure Taken (first : ℤ) (l group rest : List κ) : Prop where
  perm : l.Perm (group ++ rest)
  consecutive : From index first group
  ends : ∀ b ∈ rest, index b ≠ first + group.length
  best : ∀ a ∈ group, ∀ b ∈ rest, index b = index a → preferred b → preferred a

inductive Grouping : List κ → List (List κ) → Prop
  | nil : Grouping [] []
  | cons {first : ℤ} {l group rest : List κ} {groups : List (List κ)} (hne : group ≠ [])
      (hlowest : ∀ a ∈ l, first ≤ index a) (htaken : Taken index preferred first l group rest)
      (hrest : Grouping rest groups) : Grouping l (group :: groups)

/-- Every group has an element for each index that is left, a preferred one if there is any. -/
def Full (groups : List (List κ)) : Prop :=
  ∀ before group after, groups = before ++ group :: after → ∀ b ∈ group ++ after.flatten,
    ∃ a ∈ group, index a = index b ∧ (preferred b → preferred a)

def count (l : List κ) (i : ℤ) : ℕ := l.countP fun a => index a = i

def Unimodal (l : List κ) : Prop :=
  ∀ i j k, i ≤ j → j ≤ k → min (count index l i) (count index l k) ≤ count index l j

variable {index preferred} {first : ℤ} {l group rest : List κ} {groups : List (List κ)}

/-! ### One group -/

theorem From.append (h : From index first l) {a : κ} (ha : index a = first + l.length) :
    From index first (l ++ [a]) := by
  induction l generalizing first with
  | nil => exact ⟨by simpa using ha, trivial⟩
  | cons b l ih =>
    refine ⟨h.1, ih h.2 ?_⟩
    rw [ha, List.length_cons]
    omega

theorem From.bounds (h : From index first l) {a : κ} (ha : a ∈ l) :
    first ≤ index a ∧ index a < first + l.length := by
  induction l generalizing first with
  | nil => cases ha
  | cons b l ih =>
    rw [List.length_cons]
    push_cast
    rcases List.mem_cons.mp ha with rfl | ha
    · have := h.1
      omega
    · have := ih h.2 ha
      omega

theorem From.count (h : From index first l) (i : ℤ) :
    count index l i = if first ≤ i ∧ i < first + l.length then 1 else 0 := by
  induction l generalizing first with
  | nil =>
    rw [if_neg (by simp)]
    rfl
  | cons b l ih =>
    rw [ConsecutiveGroups.count, List.countP_cons, ← ConsecutiveGroups.count, ih h.2, h.1,
      List.length_cons]
    push_cast
    simp only [decide_eq_true_eq]
    split_ifs <;> omega

theorem exists_of_count_pos {i : ℤ} (h : 0 < count index l i) : ∃ a ∈ l, index a = i := by
  obtain ⟨a, ha, hi⟩ := List.countP_pos_iff.mp h
  exact ⟨a, ha, by simpa using hi⟩

theorem count_pos {a : κ} (h : a ∈ l) : 0 < count index l (index a) :=
  List.countP_pos_iff.mpr ⟨a, h, by simp⟩

theorem From.filter_eq (h : From index first l) {a : κ} (ha : a ∈ l) :
    l.filter (fun b => index b = index a) = [a] := by
  have hone := h.count (index a)
  rw [if_pos (h.bounds ha), ConsecutiveGroups.count, List.countP_eq_length_filter,
    List.length_eq_one_iff] at hone
  obtain ⟨b, hb⟩ := hone
  have hmem : a ∈ l.filter (fun b => index b = index a) := List.mem_filter.mpr ⟨ha, by simp⟩
  rw [hb] at hmem ⊢
  rw [List.mem_singleton.mp hmem]

theorem unimodal_congr {l' : List κ} (hl : l.Perm l') : Unimodal index l ↔ Unimodal index l' := by
  have hcount : count index l = count index l' := funext fun i => hl.countP_eq _
  rw [Unimodal, Unimodal, hcount]

theorem perm_cons_eraseP {p : κ → Bool} {a : κ} (h : l.find? p = some a) :
    l.Perm (a :: l.eraseP p) := by
  induction l with
  | nil => cases h
  | cons b l ih =>
    by_cases hb : p b
    · rw [List.find?_cons_of_pos hb] at h
      rw [List.eraseP_cons_of_pos hb, Option.some.inj h]
    · rw [List.find?_cons_of_neg hb] at h
      rw [List.eraseP_cons_of_neg hb]
      exact ((ih h).cons b).trans (.swap a b _)

namespace Taken
variable (h : Taken index preferred first l group rest)
include h

theorem congr {l' : List κ} (hl : l'.Perm l) : Taken index preferred first l' group rest :=
  ⟨hl.trans h.perm, h.consecutive, h.ends, h.best⟩

theorem count_eq (i : ℤ) : count index l i =
    (if first ≤ i ∧ i < first + group.length then 1 else 0) + count index rest i := by
  rw [count, h.perm.countP_eq, List.countP_append, ← count, ← count, h.consecutive.count]

theorem ne_nil {a : κ} (ha : a ∈ l) (hfirst : index a = first) : group ≠ [] := by
  rintro rfl
  refine h.ends a (h.perm.mem_iff.mp ha) ?_
  simpa using hfirst

theorem exists_of_mem {b : κ} (hb : b ∈ group ++ rest) (hge : first ≤ index b)
    (hlt : index b < first + group.length) :
    ∃ a ∈ group, index a = index b ∧ (preferred b → preferred a) := by
  rcases List.mem_append.mp hb with hb | hb
  · exact ⟨b, hb, rfl, id⟩
  · have hcount := h.consecutive.count (index b)
    rw [if_pos ⟨hge, hlt⟩] at hcount
    obtain ⟨a, ha, hindex⟩ := exists_of_count_pos (hcount ▸ Nat.one_pos)
    exact ⟨a, ha, hindex, h.best a ha b hb hindex.symm⟩

/-- A group that reaches all indices takes one element from each. -/
theorem unimodal_iff (hwithin : ∀ b ∈ l, first ≤ index b ∧ index b < first + group.length) :
    Unimodal index l ↔ Unimodal index rest := by
  have hin : ∀ i, 0 < count index l i → first ≤ i ∧ i < first + group.length := by
    intro i hpos
    obtain ⟨b, hb, rfl⟩ := exists_of_count_pos hpos
    exact hwithin b hb
  have hle : ∀ i, count index rest i ≤ count index l i := fun i => by
    rw [h.count_eq]
    omega
  refine forall₃_congr fun i j k => forall₂_congr fun hij hjk => ?_
  by_cases hpos : 0 < count index l i ∧ 0 < count index l k
  · have hi := hin i hpos.1
    have hk := hin k hpos.2
    rw [h.count_eq, h.count_eq, h.count_eq, if_pos hi, if_pos hk, if_pos (by omega)]
    omega
  · have hi := hle i
    have hk := hle k
    omega

/-- Without a gap the first group reaches all indices. -/
theorem within_of_unimodal (hne : group ≠ []) (hlowest : ∀ a ∈ l, first ≤ index a)
    (hunimodal : Unimodal index l) :
    ∀ b ∈ l, first ≤ index b ∧ index b < first + group.length := by
  intro b hb
  refine ⟨hlowest b hb, ?_⟩
  by_contra hge
  have hlength := List.length_pos_of_ne_nil hne
  have hgap : count index l (first + group.length) = 0 := by
    rw [h.count_eq, if_neg (by omega), Nat.zero_add]
    by_contra hpos
    obtain ⟨c, hc, heq⟩ := exists_of_count_pos (Nat.pos_of_ne_zero hpos)
    exact h.ends c hc heq
  have hfirst := h.count_eq first
  rw [if_pos (by omega)] at hfirst
  have hle := hunimodal first (first + group.length) (index b) (by omega) (by omega)
  have hb : 0 < count index l (index b) := count_pos hb
  omega

end Taken

/-! ### All groups -/

theorem full_cons_iff : Full index preferred (group :: groups) ↔
    (∀ b ∈ group ++ groups.flatten, ∃ a ∈ group, index a = index b ∧
      (preferred b → preferred a)) ∧ Full index preferred groups := by
  constructor
  · intro h
    refine ⟨h [] group groups rfl, fun before group' after heq => ?_⟩
    exact h (group :: before) group' after (congrArg (group :: ·) heq)
  · rintro ⟨hhead, htail⟩ before group' after heq
    cases before with
    | nil =>
      obtain ⟨rfl, rfl⟩ := List.cons.inj heq
      exact hhead
    | cons _ before => exact htail before group' after (List.cons.inj heq).2

namespace Grouping

theorem perm (h : Grouping index preferred l groups) : groups.flatten.Perm l := by
  induction h with
  | nil => exact .nil
  | cons _ _ htaken _ ih => exact (ih.append_left _).trans htaken.perm.symm

theorem consecutive (h : Grouping index preferred l groups) :
    ∀ group ∈ groups, group ≠ [] ∧ ∃ first, From index first group := by
  induction h with
  | nil => exact fun _ hgroup => absurd hgroup List.not_mem_nil
  | cons hne _ htaken _ ih =>
    intro group hgroup
    rcases List.mem_cons.mp hgroup with rfl | hgroup
    · exact ⟨hne, _, htaken.consecutive⟩
    · exact ih group hgroup

theorem full_iff (h : Grouping index preferred l groups) :
    Full index preferred groups ↔ Unimodal index l := by
  induction h with
  | nil => exact ⟨fun _ _ _ _ _ _ => Nat.min_le_left 0 0, fun _ before _ _ heq => by simp at heq⟩
  | @cons first l group rest groups hne hlowest htaken hrest ih =>
    have hperm := htaken.perm.trans (hrest.perm.symm.append_left group)
    rw [full_cons_iff, ih]
    constructor
    · rintro ⟨hhead, hunimodal⟩
      refine (htaken.unimodal_iff fun b hb => ?_).mpr hunimodal
      obtain ⟨a, ha, heq, -⟩ := hhead b (hperm.mem_iff.mp hb)
      rw [← heq]
      exact htaken.consecutive.bounds ha
    · intro hunimodal
      have hwithin := htaken.within_of_unimodal hne hlowest hunimodal
      refine ⟨fun b hb => ?_, (htaken.unimodal_iff hwithin).mp hunimodal⟩
      have hmem := hperm.mem_iff.mpr hb
      obtain ⟨hge, hlt⟩ := hwithin b hmem
      exact htaken.exists_of_mem (htaken.perm.mem_iff.mp hmem) hge hlt

end Grouping
end N8n.ConsecutiveGroups
