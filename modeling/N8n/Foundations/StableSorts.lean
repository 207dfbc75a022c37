import Mathlib.Algebra.Order.Ring.Int
import Mathlib.Data.List.Perm.Basic
import Mathlib.Tactic.SplitIfs

/-!
# Stable sorts

A sort that is given a comparator. It owes an order only for comparators that are consistent on the
list; else it may return the elements in any order. In a list that is sorted the elements with an
equal one before them are those that are equal to the one they come next to.
-/

namespace N8n.StableSorts
variable {α : Type*} {cmp : α → α → ℤ} {l l' : List α} {a b c x : α}

/-- The comparator is a total preorder on the elements of the list. -/
structure Consistent (cmp : α → α → ℤ) (l : List α) : Prop where
  self : ∀ a ∈ l, cmp a a = 0
  neg_iff : ∀ a ∈ l, ∀ b ∈ l, cmp a b < 0 ↔ 0 < cmp b a
  trans : ∀ a ∈ l, ∀ b ∈ l, ∀ c ∈ l, cmp a b ≤ 0 → cmp b c ≤ 0 → cmp a c ≤ 0

theorem Consistent.mono (h : Consistent cmp l) (hsub : l' ⊆ l) : Consistent cmp l' :=
  ⟨fun a ha => h.self a (hsub ha), fun a ha b hb => h.neg_iff a (hsub ha) b (hsub hb),
    fun a ha b hb c hc => h.trans a (hsub ha) b (hsub hb) c (hsub hc)⟩

theorem Consistent.eq_comm (h : Consistent cmp l) (ha : a ∈ l) (hb : b ∈ l) :
    cmp a b = 0 ↔ cmp b a = 0 := by
  have hab := h.neg_iff a ha b hb
  have hba := h.neg_iff b hb a ha
  omega

theorem Consistent.eq_of_le (h : Consistent cmp l) (ha : a ∈ l) (hb : b ∈ l) (hab : cmp a b ≤ 0)
    (hba : cmp b a ≤ 0) : cmp a b = 0 := by
  have hiff := h.neg_iff a ha b hb
  omega

theorem Consistent.eq_trans (h : Consistent cmp l) (ha : a ∈ l) (hb : b ∈ l) (hc : c ∈ l)
    (hab : cmp a b = 0) (hbc : cmp b c = 0) : cmp a c = 0 := by
  have hba := (h.eq_comm ha hb).mp hab
  have hcb := (h.eq_comm hb hc).mp hbc
  exact h.eq_of_le ha hc (h.trans a ha b hb c hc hab.le hbc.le)
    (h.trans c hc b hb a ha hcb.le hba.le)

/-- A comparator is consistent on elements that it takes for others on which it is. -/
theorem Consistent.of_rel {β : Type*} {cmp' : β → β → ℤ} {m : List β} (rel : α → β → Prop)
    (h : Consistent cmp l) (hrel : ∀ b ∈ m, ∃ a ∈ l, rel a b)
    (heq : ∀ a b a' b', rel a b → rel a' b' → cmp' b b' = cmp a a') : Consistent cmp' m := by
  refine ⟨fun b hb => ?_, fun b hb d hd => ?_, fun b hb d hd e he hbd hde => ?_⟩
  · obtain ⟨a, ha, hab⟩ := hrel b hb
    rw [heq a b a b hab hab]
    exact h.self a ha
  · obtain ⟨a, ha, hab⟩ := hrel b hb
    obtain ⟨c, hc, hcd⟩ := hrel d hd
    rw [heq a b c d hab hcd, heq c d a b hcd hab]
    exact h.neg_iff a ha c hc
  · obtain ⟨a, ha, hab⟩ := hrel b hb
    obtain ⟨c, hc, hcd⟩ := hrel d hd
    obtain ⟨x, hx, hxe⟩ := hrel e he
    rw [heq a b c d hab hcd] at hbd
    rw [heq c d x e hcd hxe] at hde
    rw [heq a b x e hab hxe]
    exact h.trans a ha c hc x hx hbd hde

/-- What a stable sort does, whatever way it takes. -/
structure IsStableSort (sort : (α → α → ℤ) → List α → List α) : Prop where
  perm : ∀ cmp l, (sort cmp l).Perm l
  sorted : ∀ cmp l, Consistent cmp l → (sort cmp l).Pairwise fun a b => cmp a b ≤ 0
  stable : ∀ cmp l, Consistent cmp l → ∀ a ∈ l,
    (sort cmp l).filter (fun b => cmp a b = 0) = l.filter fun b => cmp a b = 0

/-! ### Insertion -/

def insert (cmp : α → α → ℤ) (a : α) : List α → List α
  | [] => [a]
  | b :: l => if cmp a b < 0 then a :: b :: l else b :: insert cmp a l

/-- Each element goes behind all of those before it that are not greater. -/
def insertionSort (cmp : α → α → ℤ) (l : List α) : List α :=
  l.foldl (fun sorted a => insert cmp a sorted) []

theorem insert_perm (cmp : α → α → ℤ) (a : α) (l : List α) : (insert cmp a l).Perm (a :: l) := by
  induction l with
  | nil => exact List.Perm.refl _
  | cons b l ih =>
    rw [insert]
    split_ifs
    · exact List.Perm.refl _
    · exact (ih.cons b).trans (List.Perm.swap a b l)

theorem insert_sorted (h : Consistent cmp (a :: l)) (hl : l.Pairwise fun a b => cmp a b ≤ 0) :
    (insert cmp a l).Pairwise fun a b => cmp a b ≤ 0 := by
  induction l with
  | nil => exact List.pairwise_singleton _ _
  | cons b l ih =>
    obtain ⟨hb, hrest⟩ := List.pairwise_cons.mp hl
    have ha : a ∈ a :: b :: l := List.mem_cons_self
    have hmem : b ∈ a :: b :: l := List.mem_cons_of_mem _ List.mem_cons_self
    rw [insert]
    split_ifs with hlt
    · refine List.pairwise_cons.mpr ⟨fun c hc => ?_, hl⟩
      rcases List.mem_cons.mp hc with rfl | hc
      · exact hlt.le
      · exact h.trans a ha b hmem c (List.mem_cons_of_mem _ (List.mem_cons_of_mem _ hc)) hlt.le
          (hb c hc)
    · have hsub : a :: l ⊆ a :: b :: l := by simp
      refine List.pairwise_cons.mpr ⟨fun c hc => ?_, ih (h.mono hsub) hrest⟩
      rcases List.mem_cons.mp ((insert_perm cmp a l).mem_iff.mp hc) with rfl | hc
      · have := h.neg_iff c ha b hmem
        omega
      · exact hb c hc

/-- An element that is inserted comes last among its equals. -/
theorem filter_insert (h : Consistent cmp (c :: a :: l)) (hl : l.Pairwise fun a b => cmp a b ≤ 0) :
    (insert cmp a l).filter (fun b => cmp c b = 0) =
      l.filter (fun b => cmp c b = 0) ++ [a].filter fun b => cmp c b = 0 := by
  induction l with
  | nil => rfl
  | cons b l ih =>
    obtain ⟨hb, hrest⟩ := List.pairwise_cons.mp hl
    rw [insert]
    split_ifs with hlt
    · by_cases hca : cmp c a = 0
      · -- nothing that comes after `b` is as small as `a`
        have hnone : (b :: l).filter (fun b => cmp c b = 0) = [] := by
          rw [List.filter_eq_nil_iff]
          intro d hd hcd
          have hcd := of_decide_eq_true hcd
          have hmemc : c ∈ c :: a :: b :: l := by simp
          have hmema : a ∈ c :: a :: b :: l := by simp
          have hmemb : b ∈ c :: a :: b :: l := by simp
          have hmemd : d ∈ c :: a :: b :: l := by simp [List.mem_cons.mp hd]
          have hbd : cmp b d ≤ 0 := by
            rcases List.mem_cons.mp hd with rfl | hd
            · exact (h.self d hmemd).le
            · exact hb d hd
          have hdc : cmp d c ≤ 0 := ((h.eq_comm hmemc hmemd).mp hcd).le
          have hba : cmp b a ≤ 0 :=
            h.trans b hmemb c hmemc a hmema (h.trans b hmemb d hmemd c hmemc hbd hdc) hca.le
          have := h.neg_iff a hmema b hmemb
          omega
        rw [List.filter_cons_of_pos (by simpa using hca), hnone,
          List.filter_cons_of_pos (by simpa using hca)]
        rfl
      · have hsingle : [a].filter (fun b => cmp c b = 0) = [] := by simp [hca]
        rw [hsingle, List.append_nil, List.filter_cons_of_neg (by simpa using hca)]
    · have hsub : c :: a :: l ⊆ c :: a :: b :: l := by
        intro d hd
        simp only [List.mem_cons] at hd ⊢
        tauto
      have hrest := ih (h.mono hsub) hrest
      rw [List.filter_cons, List.filter_cons, hrest]
      split_ifs <;> rfl

theorem foldl_insert_perm (sorted l : List α) :
    (l.foldl (fun sorted a => insert cmp a sorted) sorted).Perm (sorted ++ l) := by
  induction l generalizing sorted with
  | nil => simp
  | cons a l ih =>
    refine (ih _).trans (((insert_perm cmp a sorted).append_right l).trans ?_)
    exact List.perm_middle.symm

theorem foldl_insert_sorted {sorted : List α} (h : Consistent cmp (sorted ++ l))
    (hsorted : sorted.Pairwise fun a b => cmp a b ≤ 0) :
    (l.foldl (fun sorted a => insert cmp a sorted) sorted).Pairwise (fun a b => cmp a b ≤ 0) ∧
    ∀ c ∈ sorted ++ l, (l.foldl (fun sorted a => insert cmp a sorted) sorted).filter
      (fun b => cmp c b = 0) = (sorted ++ l).filter fun b => cmp c b = 0 := by
  induction l generalizing sorted with
  | nil => exact ⟨hsorted, fun c _ => by simp⟩
  | cons a l ih =>
    have hmem : ∀ d, d ∈ insert cmp a sorted ++ l ↔ d ∈ sorted ++ a :: l := by
      intro d
      simp only [List.mem_append, (insert_perm cmp a sorted).mem_iff, List.mem_cons]
      tauto
    have hsub : a :: sorted ⊆ sorted ++ a :: l := by
      intro d hd
      simp only [List.mem_append, List.mem_cons] at hd ⊢
      tauto
    have hrest := ih (h.mono fun d hd => (hmem d).mp hd) (insert_sorted (h.mono hsub) hsorted)
    refine ⟨hrest.1, fun c hc => ?_⟩
    have hsub' : c :: a :: sorted ⊆ sorted ++ a :: l := by
      intro d hd
      rcases List.mem_cons.mp hd with rfl | hd
      · exact hc
      · exact hsub hd
    rw [List.foldl_cons, hrest.2 c ((hmem c).mpr hc), List.filter_append,
      filter_insert (h.mono hsub') hsorted, List.append_assoc, ← List.filter_append,
      ← List.filter_append]
    rfl

theorem isStableSort_insertionSort : IsStableSort (insertionSort (α := α)) where
  perm _ l := foldl_insert_perm [] l
  sorted _ _ h := (foldl_insert_sorted h List.Pairwise.nil).1
  stable _ _ h := (foldl_insert_sorted h List.Pairwise.nil).2

open Classical in
/-- Where the comparator is not consistent every order can be the outcome. -/
theorem exists_isStableSort (h : ¬ Consistent cmp l) (hperm : l'.Perm l) :
    ∃ sort : (α → α → ℤ) → List α → List α, IsStableSort sort ∧ sort cmp l = l' := by
  refine ⟨fun cmp₁ l₁ => if cmp₁ = cmp ∧ l₁ = l then l' else insertionSort cmp₁ l₁,
    ⟨fun cmp₁ l₁ => ?_, fun cmp₁ l₁ h₁ => ?_, fun cmp₁ l₁ h₁ => ?_⟩, by simp⟩
  · split_ifs with heq
    · rw [heq.2]
      exact hperm
    · exact isStableSort_insertionSort.perm cmp₁ l₁
  · rw [if_neg]
    · exact isStableSort_insertionSort.sorted cmp₁ l₁ h₁
    · rintro ⟨rfl, rfl⟩
      exact h h₁
  · rw [if_neg]
    · exact isStableSort_insertionSort.stable cmp₁ l₁ h₁
    · rintro ⟨rfl, rfl⟩
      exact h h₁

/-! ### Equal elements -/

/-- An equal element stands before this one. -/
def Repeated (cmp : α → α → ℤ) (l : List α) (x : α) : Prop :=
  ∃ y, [y, x].Sublist l ∧ cmp y x = 0

theorem mem_of_pair_sublist {y : α} (h : [y, x].Sublist l) : y ∈ l ∧ x ∈ l :=
  ⟨h.subset (by simp), h.subset (by simp)⟩

/-- Lists with the same elements of every class, in the same order, have the same repetitions. -/
theorem Repeated.of_filter (hself : ∀ a ∈ l, cmp a a = 0)
    (h : ∀ a ∈ l, l.filter (fun b => cmp a b = 0) = l'.filter fun b => cmp a b = 0)
    (hx : Repeated cmp l x) : Repeated cmp l' x := by
  obtain ⟨y, hsub, hyx⟩ := hx
  have hy := (mem_of_pair_sublist hsub).1
  refine ⟨y, ?_, hyx⟩
  have hfilter := hsub.filter fun b => decide (cmp y b = 0)
  rw [List.filter_cons_of_pos (by simpa using hself y hy),
    List.filter_cons_of_pos (by simpa using hyx), List.filter_nil, h y hy] at hfilter
  exact hfilter.trans List.filter_sublist

theorem IsStableSort.repeated_iff {sort : (α → α → ℤ) → List α → List α} (h : IsStableSort sort)
    (hc : Consistent cmp l) : Repeated cmp (sort cmp l) x ↔ Repeated cmp l x := by
  have hmem : ∀ a, a ∈ sort cmp l ↔ a ∈ l := fun a => (h.perm cmp l).mem_iff
  constructor
  · exact Repeated.of_filter (fun a ha => hc.self a ((hmem a).mp ha)) fun a ha =>
      h.stable cmp l hc a ((hmem a).mp ha)
  · exact Repeated.of_filter hc.self fun a ha => (h.stable cmp l hc a ha).symm

/-- The elements that are equal to the last one before them that was not. -/
def adjacentRepeats (same : α → α → Bool) (temp : α) : List α → List α
  | [] => []
  | a :: l => if same a temp then a :: adjacentRepeats same temp l else adjacentRepeats same a l

theorem adjacentRepeats_subset {same : α → α → Bool} {temp : α} :
    adjacentRepeats same temp l ⊆ l := by
  induction l generalizing temp with
  | nil => exact List.Subset.refl _
  | cons a l ih =>
    rw [adjacentRepeats]
    split_ifs
    · exact List.cons_subset_cons a ih
    · exact fun x hx => List.mem_cons_of_mem a (ih hx)

/-- Among elements of which no two are equal nothing is repeated. -/
theorem adjacentRepeats_eq_nil {same : α → α → Bool} {temp : α}
    (h : (temp :: l).Pairwise fun a b => same b a = false) : adjacentRepeats same temp l = [] := by
  induction l generalizing temp with
  | nil => rfl
  | cons a l ih =>
    obtain ⟨htemp, hrest⟩ := List.pairwise_cons.mp h
    have hat : ¬ same a temp = true := by simp [htemp a List.mem_cons_self]
    rw [adjacentRepeats, if_neg hat, ih hrest]

theorem pair_sublist_cons {y : α} : [y, x].Sublist (a :: l) ↔ (y = a ∧ x ∈ l) ∨ [y, x].Sublist l := by
  constructor
  · intro h
    cases h with
    | cons _ h => exact .inr h
    | cons_cons _ h => exact .inl ⟨rfl, List.singleton_sublist.mp h⟩
  · rintro (⟨rfl, hx⟩ | h)
    · exact (List.singleton_sublist.mpr hx).cons_cons _
    · exact h.cons _

theorem repeated_cons : Repeated cmp (a :: l) x ↔ (cmp a x = 0 ∧ x ∈ l) ∨ Repeated cmp l x := by
  simp only [Repeated, pair_sublist_cons, or_and_right, exists_or]
  refine or_congr_left ⟨?_, ?_⟩
  · rintro ⟨y, ⟨rfl, hx⟩, hyx⟩
    exact ⟨hyx, hx⟩
  · rintro ⟨hax, hx⟩
    exact ⟨a, ⟨rfl, hx⟩, hax⟩

/-- In a sorted list equal elements stand next to each other. -/
theorem mem_adjacentRepeats_iff {same : α → α → Bool} {temp : α}
    (h : Consistent cmp (temp :: l)) (hsorted : (temp :: l).Pairwise fun a b => cmp a b ≤ 0)
    (hsame : ∀ a ∈ temp :: l, ∀ b ∈ temp :: l, same a b = true ↔ cmp a b = 0) :
    x ∈ adjacentRepeats same temp l ↔ Repeated cmp (temp :: l) x := by
  induction l generalizing temp with
  | nil =>
    rw [repeated_cons]
    simp [adjacentRepeats, Repeated]
  | cons a l ih =>
    have htemp : temp ∈ temp :: a :: l := List.mem_cons_self
    have ha : a ∈ temp :: a :: l := List.mem_cons_of_mem _ List.mem_cons_self
    have hl : ∀ b ∈ l, b ∈ temp :: a :: l :=
      fun b hb => List.mem_cons_of_mem _ (List.mem_cons_of_mem _ hb)
    obtain ⟨hle, hrest⟩ := List.pairwise_cons.mp hsorted
    obtain ⟨hale, hlast⟩ := List.pairwise_cons.mp hrest
    rw [adjacentRepeats]
    split_ifs with hat
    · have hta : cmp temp a = 0 := (h.eq_comm ha htemp).mp ((hsame a ha temp htemp).mp hat)
      have hsub : temp :: l ⊆ temp :: a :: l := List.cons_subset_cons _ (List.subset_cons_self _ _)
      have hskip := ih (h.mono hsub)
        (List.pairwise_cons.mpr ⟨fun b hb => hle b (List.mem_cons_of_mem _ hb), hlast⟩)
        fun b hb d hd => hsame b (hsub hb) d (hsub hd)
      rw [List.mem_cons, hskip, repeated_cons, repeated_cons, repeated_cons, List.mem_cons]
      have hax : x ∈ l → cmp a x = 0 → cmp temp x = 0 :=
        fun hx => h.eq_trans htemp ha (hl x hx) hta
      constructor
      · rintro (rfl | ⟨hx, hmem⟩ | hx)
        · exact .inl ⟨hta, .inl rfl⟩
        · exact .inl ⟨hx, .inr hmem⟩
        · exact .inr (.inr hx)
      · rintro (⟨hx, rfl | hmem⟩ | ⟨hx, hmem⟩ | hx)
        · exact .inl rfl
        · exact .inr (.inl ⟨hx, hmem⟩)
        · exact .inr (.inl ⟨hax hmem hx, hmem⟩)
        · exact .inr (.inr hx)
    · have hsub : a :: l ⊆ temp :: a :: l := List.subset_cons_self _ _
      rw [ih (h.mono hsub) hrest fun b hb d hd => hsame b (hsub hb) d (hsub hd),
        repeated_cons (a := temp)]
      refine (or_iff_right ?_).symm
      rintro ⟨hx, hmem⟩
      -- whatever is equal to `temp` is not greater than `a`
      have hax : cmp a x ≤ 0 := by
        rcases List.mem_cons.mp hmem with rfl | hmem
        · exact (h.self x ha).le
        · exact hale x hmem
      have hxt : cmp x temp ≤ 0 := ((h.eq_comm htemp (hsub hmem)).mp hx).le
      have hat' : cmp a temp ≤ 0 := h.trans a ha x (hsub hmem) temp htemp hax hxt
      exact hat ((hsame a ha temp htemp).mpr (h.eq_of_le ha htemp hat' (hle a List.mem_cons_self)))

end N8n.StableSorts
