import Mathlib.Data.List.Nodup
import Mathlib.Data.Finset.Card
import Mathlib.Data.Finset.Dedup
import Mathlib.Data.Int.Notation
import Mathlib.Logic.Relation
import Mathlib.Tactic.SplitIfs
import Mathlib.Data.Nat.Find

/-!
# Searching along paths

A search that carries the nodes of the path it has come along, and not those that it has
found elsewhere. It finds what a path of bounded length leads to. What is found again below a
node moves to the front; a successor of the node itself is put in front whether it was
found before or not. Then the lengths of the shortest paths.
-/

namespace N8n.PathSearch

variable {α : Type*}

/-! ### Walks -/

inductive Walk (next : α → List α) : ℕ → α → α → Prop
  | refl (a : α) : Walk next 0 a a
  | cons {n : ℕ} {a b c : α} : b ∈ next a → Walk next n b c → Walk next (n + 1) a c

/-- A negative bound is none. -/
def Within (n : ℕ) (depth : ℤ) : Prop := depth < 0 ∨ (n : ℤ) ≤ depth

def ReachesWithin (next : α → List α) (depth : ℤ) (a b : α) : Prop :=
  ∃ n, Within n depth ∧ Walk next n a b

/-- There is room for one step more. -/
def ReachesBelow (next : α → List α) (depth : ℤ) (a b : α) : Prop :=
  ∃ n, Within (n + 1) depth ∧ Walk next n a b

theorem Within.mono {m n : ℕ} {depth : ℤ} (h : Within n depth) (hle : m ≤ n) : Within m depth := by
  unfold Within at h ⊢
  omega

theorem Walk.mono {next next' : α → List α} (h : ∀ a, ∀ b ∈ next a, b ∈ next' a) {n : ℕ} {a b : α}
    (hw : Walk next n a b) : Walk next' n a b := by
  induction hw with
  | refl a => exact .refl a
  | cons hb _ ih => exact .cons (h _ _ hb) ih

/-! ### What comes first

Where nothing leads back to itself, what a node leads to is found before the node.
-/

def LeadsTo (next : α → List α) : α → α → Prop := Relation.TransGen fun a b => b ∈ next a

/-- There is an `a` in the list, and no `b` before the first one. -/
def Precedes (a b : α) : List α → Prop
  | [] => False
  | c :: l => c = a ∨ (c ≠ b ∧ Precedes a b l)

theorem precedes_of_notMem {a b : α} {l : List α} (ha : a ∈ l) (hb : b ∉ l) : Precedes a b l := by
  induction l with
  | nil => cases ha
  | cons c l ih =>
    rcases List.mem_cons.mp ha with rfl | ha
    · exact Or.inl rfl
    · exact Or.inr ⟨fun h => hb (h ▸ List.mem_cons_self), ih ha fun h => hb (List.mem_cons_of_mem c h)⟩

section Search
variable [DecidableEq α]

/-- The successors outside a list. -/
def avoiding (next : α → List α) (checked : List α) (a : α) : List α :=
  (next a).filter fun b => decide (b ∉ checked)

theorem mem_avoiding {next : α → List α} {checked : List α} {a b : α} :
    b ∈ avoiding next checked a ↔ b ∈ next a ∧ b ∉ checked := by
  simp [avoiding]

/-- The part of a walk after the last visit of `c` does not come back to it. -/
theorem Walk.leave {next : α → List α} {checked : List α} {n : ℕ} {a b : α}
    (h : Walk (avoiding next checked) n a b) (c : α) :
    Walk (avoiding next (checked ++ [c])) n a b ∨
      ∃ m < n, Walk (avoiding next (checked ++ [c])) m c b := by
  induction h with
  | refl a => exact Or.inl (.refl a)
  | @cons n a d b hd _ ih =>
    obtain ⟨hnext, hchecked⟩ := mem_avoiding.mp hd
    rcases ih with ih | ⟨m, hm, ih⟩
    · by_cases hdc : d = c
      · exact Or.inr ⟨n, Nat.lt_succ_self n, hdc ▸ ih⟩
      · exact Or.inl (.cons (mem_avoiding.mpr ⟨hnext, by simp [hchecked, hdc]⟩) ih)
    · exact Or.inr ⟨m, Nat.lt_succ_of_lt hm, ih⟩

theorem Walk.notMem {next : α → List α} {checked : List α} {n : ℕ} {a b : α}
    (h : Walk (avoiding next checked) n a b) (ha : a ∉ checked) : b ∉ checked := by
  induction h with
  | refl => exact ha
  | cons hb _ ih => exact ih (mem_avoiding.mp hb).2

theorem exists_walk_leave {next : α → List α} {checked : List α} {a b : α} {bound : ℕ → Prop}
    (hbound : ∀ m n, m ≤ n → bound n → bound m) :
    (∃ n, bound n ∧ Walk (avoiding next checked) n a b) ↔
      ∃ n, bound n ∧ Walk (avoiding next (checked ++ [a])) n a b := by
  constructor
  · rintro ⟨n, hn, hw⟩
    rcases hw.leave a with hw | ⟨m, hm, hw⟩
    · exact ⟨n, hn, hw⟩
    · exact ⟨m, hbound m n hm.le hn, hw⟩
  · rintro ⟨n, hn, hw⟩
    refine ⟨n, hn, hw.mono fun c d hd => ?_⟩
    obtain ⟨hnext, hchecked⟩ := mem_avoiding.mp hd
    exact mem_avoiding.mpr ⟨hnext, fun hd => hchecked (List.mem_append_left _ hd)⟩

/-! ### The order of what is found -/

/-- The nodes of `more` move to the front in their order. -/
def raise (found more : List α) : List α :=
  more.reverse.foldl (fun found a => a :: found.erase a) found

theorem raise_cons (found : List α) (a : α) (more : List α) :
    raise found (a :: more) = a :: (raise found more).erase a := by
  rw [raise, List.reverse_cons, List.foldl_append, List.foldl_cons, List.foldl_nil, raise]

theorem mem_raise {found more : List α} {x : α} : x ∈ raise found more ↔ x ∈ found ∨ x ∈ more := by
  induction more with
  | nil => simp [raise]
  | cons a more ih =>
    rw [raise_cons, List.mem_cons, List.mem_cons]
    by_cases hx : x = a
    · simp [hx]
    · rw [List.mem_erase_of_ne hx, ih]
      tauto

/-- What is there once stays there once, and a repetition is not undone. -/
theorem nodup_raise {found more : List α} : (raise found more).Nodup ↔ found.Nodup := by
  induction more with
  | nil => exact Iff.rfl
  | cons a more ih =>
    rw [raise_cons, ← ih, List.nodup_cons]
    by_cases ha : a ∈ raise found more
    · rw [← List.nodup_cons, (List.perm_cons_erase ha).symm.nodup_iff]
    · rw [List.erase_of_not_mem ha]
      exact and_iff_right ha

section Gather
variable (below : α → List α)

/-- What is found below the nodes of a list, one after the other. -/
def gather (l : List α) : List α := l.foldl (fun found b => raise (b :: found) (below b)) []

variable {below}

theorem gather_concat (l : List α) (b : α) :
    gather below (l ++ [b]) = raise (b :: gather below l) (below b) := by
  rw [gather, List.foldl_append, List.foldl_cons, List.foldl_nil, gather]

theorem mem_gather {l : List α} {x : α} :
    x ∈ gather below l ↔ ∃ b ∈ l, x = b ∨ x ∈ below b := by
  induction l using List.reverseRecOn with
  | nil => simp [gather]
  | append_singleton l b ih =>
    rw [gather_concat, mem_raise, List.mem_cons, ih]
    simp only [List.mem_append, List.mem_singleton, or_and_right, exists_or, exists_eq_left]
    rw [or_assoc, or_left_comm]

theorem nodup_gather {l : List α} :
    (gather below l).Nodup ↔ l.Pairwise fun b c => ¬ (c = b ∨ c ∈ below b) := by
  induction l using List.reverseRecOn with
  | nil => simp [gather]
  | append_singleton l b ih =>
    rw [gather_concat, nodup_raise, List.nodup_cons, ih, mem_gather, List.pairwise_append]
    simp only [List.pairwise_singleton, List.mem_singleton, forall_eq, true_and, not_exists,
      not_and]
    exact and_comm

end Gather

/-! ### The search -/

def lower (depth : ℤ) : ℤ := if depth = -1 then depth else depth - 1

theorem within_lower {n : ℕ} {depth : ℤ} (h : depth ≠ 0) :
    Within n (lower depth) ↔ Within (n + 1) depth := by
  unfold Within lower
  split_ifs <;> omega

variable (next : α → List α)

def search : ℕ → ℤ → α → List α → List α
  | 0, _, _, _ => []
  | fuel + 1, depth, a, checked =>
    if depth = 0 ∨ a ∈ checked then []
    else gather (fun b => search fuel (lower depth) b (checked ++ [a]))
      (avoiding next (checked ++ [a]) a)

variable {next}

theorem unchecked_lt {nodes : Finset α} {a : α} {checked : List α} (ha : a ∈ nodes)
    (hchecked : a ∉ checked) :
    (nodes \ (checked ++ [a]).toFinset).card < (nodes \ checked.toFinset).card := by
  apply Finset.card_lt_card
  rw [Finset.ssubset_iff_of_subset]
  · exact ⟨a, by simp [ha, hchecked], by simp⟩
  · intro b hb
    simp only [Finset.mem_sdiff, List.mem_toFinset, List.mem_append, not_or] at hb ⊢
    exact ⟨hb.1, hb.2.1⟩

/-- What is below a node: the node itself, or what the search finds from there. -/
theorem reachesBelow_iff {fuel : ℕ} {depth : ℤ} {b x : α} {checked : List α} (hdepth : depth ≠ 0)
    (ih : x ∈ search next fuel (lower depth) b checked ↔
      x ≠ b ∧ ReachesWithin (avoiding next (checked ++ [b])) (lower depth) b x) :
    (x = b ∨ x ∈ search next fuel (lower depth) b checked) ↔
      ReachesBelow (avoiding next checked) depth b x := by
  rw [ih, ReachesBelow, exists_walk_leave fun m n hle h => h.mono (by omega)]
  simp only [ReachesWithin, within_lower hdepth]
  constructor
  · rintro (rfl | ⟨-, hx⟩)
    · exact ⟨0, by unfold Within; omega, .refl x⟩
    · exact hx
  · exact fun hx => or_iff_not_imp_left.mpr fun hne => ⟨hne, hx⟩

section Reached
variable {nodes : Finset α} (hnodes : ∀ a, next a ≠ [] → a ∈ nodes)
include hnodes

theorem mem_search {fuel : ℕ} {depth : ℤ} {a x : α} {checked : List α} (ha : a ∉ checked)
    (hfuel : (nodes \ checked.toFinset).card < fuel) :
    x ∈ search next fuel depth a checked ↔
      x ≠ a ∧ ReachesWithin (avoiding next (checked ++ [a])) depth a x := by
  induction fuel generalizing depth a x checked with
  | zero => omega
  | succ fuel ih =>
    rw [search]
    by_cases hdepth : depth = 0
    · rw [if_pos (Or.inl hdepth)]
      refine iff_of_false List.not_mem_nil ?_
      rintro ⟨hx, n, hn, hw⟩
      cases hw with
      | refl => exact hx rfl
      | cons => simp only [Within, hdepth] at hn; omega
    · rw [if_neg (not_or.mpr ⟨hdepth, ha⟩), mem_gather]
      have hbelow : ∀ b ∈ avoiding next (checked ++ [a]) a,
          (x = b ∨ x ∈ search next fuel (lower depth) b (checked ++ [a])) ↔
            ReachesBelow (avoiding next (checked ++ [a])) depth b x := by
        intro b hb
        obtain ⟨hnext, hchecked⟩ := mem_avoiding.mp hb
        have hlt := unchecked_lt (hnodes a (List.ne_nil_of_mem hnext)) ha
        exact reachesBelow_iff hdepth (ih hchecked (by omega))
      constructor
      · rintro ⟨b, hb, hx⟩
        obtain ⟨n, hn, hw⟩ := (hbelow b hb).mp hx
        refine ⟨?_, n + 1, hn, .cons hb hw⟩
        rintro rfl
        exact hw.notMem (mem_avoiding.mp hb).2 (by simp)
      · rintro ⟨hx, n, hn, hw⟩
        cases hw with
        | refl => exact absurd rfl hx
        | cons hb hw => exact ⟨_, hb, (hbelow _ hb).mpr ⟨_, hn, hw⟩⟩

/-- A walk to another node need not come back to where it started. -/
theorem mem_search_nil {fuel : ℕ} {depth : ℤ} {a x : α} (hfuel : nodes.card < fuel) :
    x ∈ search next fuel depth a [] ↔ x ≠ a ∧ ReachesWithin next depth a x := by
  have havoid : avoiding next [] = next := by
    funext a
    simp [avoiding]
  rw [mem_search hnodes List.not_mem_nil (by simpa using hfuel), ReachesWithin, ReachesWithin,
    ← exists_walk_leave fun m n hle h => h.mono hle, havoid]

/-- What is found is found once exactly when no successor can be reached from an earlier one. -/
theorem nodup_search_nil {fuel : ℕ} {depth : ℤ} {a : α} (hfuel : nodes.card < fuel) :
    (search next fuel depth a []).Nodup ↔
      (avoiding next [a] a).Pairwise fun b c =>
        ¬ ReachesBelow (avoiding next [a]) depth b c := by
  obtain ⟨fuel, rfl⟩ : ∃ n, fuel = n + 1 := ⟨fuel - 1, by omega⟩
  rw [search]
  by_cases hdepth : depth = 0
  · rw [if_pos (Or.inl hdepth)]
    refine iff_of_true List.nodup_nil (List.pairwise_of_forall fun b c => ?_)
    rintro ⟨n, hn, -⟩
    simp only [Within, hdepth] at hn
    omega
  · rw [if_neg (not_or.mpr ⟨hdepth, List.not_mem_nil⟩), nodup_gather, List.nil_append]
    refine List.Pairwise.iff_of_mem fun {b c} hb _ => not_congr ?_
    obtain ⟨hnext, hchecked⟩ := mem_avoiding.mp hb
    have hlt := unchecked_lt (hnodes a (List.ne_nil_of_mem hnext)) List.not_mem_nil
    exact reachesBelow_iff hdepth (mem_search hnodes hchecked (by simp at hlt ⊢; omega))

end Reached
/-! ### The order on graphs without cycles -/

theorem Precedes.idxOf_lt {a b : α} {l : List α} (h : Precedes a b l) (hab : a ≠ b) :
    l.idxOf a < l.idxOf b := by
  induction l with
  | nil => exact h.elim
  | cons c l ih =>
    rcases h with rfl | ⟨hcb, h⟩
    · rw [List.idxOf_cons_self, List.idxOf_cons_ne l hab]
      exact Nat.succ_pos _
    · by_cases hca : c = a
      · subst hca
        rw [List.idxOf_cons_self, List.idxOf_cons_ne l hab]
        exact Nat.succ_pos _
      · rw [List.idxOf_cons_ne l hca, List.idxOf_cons_ne l hcb]
        exact Nat.succ_lt_succ (ih h)

theorem precedes_erase {a b c : α} {l : List α} (ha : c ≠ a) (hb : c ≠ b) :
    Precedes a b (l.erase c) ↔ Precedes a b l := by
  induction l with
  | nil => exact Iff.rfl
  | cons d l ih =>
    by_cases hd : d = c
    · subst hd
      rw [List.erase_cons_head, Precedes, or_iff_right ha, and_iff_right hb]
    · rw [List.erase_cons_tail (by simpa using hd), Precedes, Precedes, ih]

/-- The nodes of `more` keep their order and come before the others, which keep theirs. -/
theorem precedes_raise {a b : α} {found more : List α} :
    Precedes a b (raise found more) ↔
      Precedes a b more ∨ (a ∉ more ∧ b ∉ more ∧ Precedes a b found) := by
  induction more with
  | nil => simp [raise, Precedes]
  | cons c more ih =>
    rw [raise_cons, Precedes, Precedes]
    by_cases ha : c = a
    · simp [ha]
    · by_cases hb : c = b
      · simp [hb]
      · rw [precedes_erase ha hb, ih]
        simp [ha, hb, Ne.symm ha, Ne.symm hb]

def Ordered (next : α → List α) (l : List α) : Prop :=
  ∀ a ∈ l, ∀ b ∈ l, LeadsTo next b a → Precedes a b l

section Ordered
variable {next below : α → List α}

theorem ordered_raise {found more : List α} (hmore : Ordered next more)
    (hclosed : ∀ b ∈ more, ∀ a, LeadsTo next b a → a ∈ more)
    (hfound : ∀ a ∈ found, ∀ b ∈ found, a ∉ more → LeadsTo next b a → Precedes a b found) :
    Ordered next (raise found more) := by
  intro a ha b hb hlead
  rw [mem_raise] at ha hb
  rw [precedes_raise]
  by_cases hbm : b ∈ more
  · exact Or.inl (hmore a (hclosed b hbm a hlead) b hbm hlead)
  · by_cases ham : a ∈ more
    · exact Or.inl (precedes_of_notMem ham hbm)
    · exact Or.inr ⟨ham, hbm, hfound a (ha.resolve_right ham) b (hb.resolve_right hbm) ham hlead⟩

theorem ordered_gather {l : List α} (hbelow : ∀ b ∈ l, Ordered next (below b))
    (hmem : ∀ b ∈ l, ∀ a, a ∈ below b ↔ LeadsTo next b a) : Ordered next (gather below l) := by
  induction l using List.reverseRecOn with
  | nil => exact fun a ha => absurd ha List.not_mem_nil
  | append_singleton l b ih =>
    have hb : b ∈ l ++ [b] := by simp
    have hl := ih (fun c hc => hbelow c (List.mem_append_left _ hc))
      fun c hc => hmem c (List.mem_append_left _ hc)
    rw [gather_concat]
    refine ordered_raise (hbelow b hb) (fun c hc a hlead => ?_) fun a ha c hc hout hlead => ?_
    · rw [hmem b hb] at hc ⊢
      exact hc.trans hlead
    · rw [Precedes]
      rcases List.mem_cons.mp ha with rfl | ha
      · exact Or.inl rfl
      · rcases List.mem_cons.mp hc with rfl | hc
        · exact absurd ((hmem c hb a).mpr hlead) hout
        · exact Or.inr ⟨fun h => hout ((hmem b hb a).mpr (h ▸ hlead)), hl a ha c hc hlead⟩

variable (hacyclic : ∀ a, ¬ LeadsTo next a a)
include hacyclic

/-- On the way down nothing comes back to the nodes of the path. -/
theorem Walk.avoid {checked : List α} {n : ℕ} {a b : α}
    (hchecked : ∀ c ∈ checked, c = a ∨ LeadsTo next c a) (h : Walk next n a b) :
    Walk (avoiding next checked) n a b := by
  induction h with
  | refl a => exact .refl a
  | @cons n a d b hd _ ih =>
    refine .cons (mem_avoiding.mpr ⟨hd, fun hin => ?_⟩) (ih fun c hc => Or.inr ?_)
    · rcases hchecked d hin with rfl | hlead
      · exact hacyclic d (.single hd)
      · exact hacyclic d (hlead.tail hd)
    · rcases hchecked c hc with rfl | hlead
      · exact .single hd
      · exact hlead.tail hd

theorem leadsTo_iff {a b : α} :
    b ≠ a ∧ ReachesWithin next (-1) a b ↔ LeadsTo next a b := by
  constructor
  · rintro ⟨hne, n, -, hw⟩
    clear hacyclic
    induction hw with
    | refl a => exact absurd rfl hne
    | @cons n a d b hd _ ih =>
      by_cases hbd : b = d
      · exact hbd ▸ .single hd
      · exact .head hd (ih hbd)
  · intro hlead
    refine ⟨?_, ?_⟩
    · rintro rfl
      exact hacyclic b hlead
    · induction hlead using Relation.TransGen.head_induction_on with
      | single hd => exact ⟨1, Or.inl (by omega), .cons hd (.refl _)⟩
      | head hd _ ih =>
        obtain ⟨n, -, hw⟩ := ih
        exact ⟨n + 1, Or.inl (by omega), .cons hd hw⟩

variable {nodes : Finset α} (hnodes : ∀ a, next a ≠ [] → a ∈ nodes)
include hnodes

theorem mem_search_of_acyclic {fuel : ℕ} {a x : α} {checked : List α} (ha : a ∉ checked)
    (hchecked : ∀ c ∈ checked, LeadsTo next c a)
    (hfuel : (nodes \ checked.toFinset).card < fuel) :
    x ∈ search next fuel (-1) a checked ↔ LeadsTo next a x := by
  rw [mem_search hnodes ha hfuel, ← leadsTo_iff hacyclic]
  refine and_congr_right fun _ => exists_congr fun n => and_congr_right fun _ => ⟨fun hw => ?_, ?_⟩
  · exact hw.mono fun b c hc => (mem_avoiding.mp hc).1
  · refine Walk.avoid hacyclic fun c hc => ?_
    rcases List.mem_append.mp hc with hc | hc
    · exact Or.inr (hchecked c hc)
    · exact Or.inl (List.mem_singleton.mp hc)

theorem ordered_search {fuel : ℕ} {a : α} {checked : List α} (ha : a ∉ checked)
    (hchecked : ∀ c ∈ checked, LeadsTo next c a)
    (hfuel : (nodes \ checked.toFinset).card < fuel) :
    Ordered next (search next fuel (-1) a checked) := by
  induction fuel generalizing a checked with
  | zero => omega
  | succ fuel ih =>
    rw [search, if_neg (not_or.mpr ⟨by decide, ha⟩)]
    have hbelow : ∀ b ∈ avoiding next (checked ++ [a]) a, b ∉ checked ++ [a] ∧
        (∀ c ∈ checked ++ [a], LeadsTo next c b) ∧
        (nodes \ (checked ++ [a]).toFinset).card < fuel := by
      intro b hb
      obtain ⟨hnext, hout⟩ := mem_avoiding.mp hb
      have hlt := unchecked_lt (hnodes a (List.ne_nil_of_mem hnext)) ha
      refine ⟨hout, fun c hc => ?_, by omega⟩
      rcases List.mem_append.mp hc with hc | hc
      · exact (hchecked c hc).tail hnext
      · rw [List.mem_singleton.mp hc]
        exact .single hnext
    refine ordered_gather (fun b hb => ?_) fun b hb x => ?_
    · obtain ⟨hout, hpath, hlt⟩ := hbelow b hb
      exact ih hout hpath hlt
    · obtain ⟨hout, hpath, hlt⟩ := hbelow b hb
      exact mem_search_of_acyclic hacyclic hnodes hout hpath hlt

end Ordered

end Search
end N8n.PathSearch

/-! ### Distances

The length of a shortest walk. The nodes at a distance are those one step after the nodes at the
distance before, as far as no shorter walk leads there. -/

namespace N8n.Distances

open PathSearch (Walk)

variable {α : Type*} {next : α → List α} {a b c : α} {d e n : ℕ}

theorem walk_concat (h : Walk next n a b) (hc : c ∈ next b) : Walk next (n + 1) a c := by
  induction h with
  | refl a => exact .cons hc (.refl c)
  | cons hb _ ih => exact .cons hb (ih hc)

theorem exists_walk_last (h : Walk next (n + 1) a c) : ∃ b, Walk next n a b ∧ c ∈ next b := by
  induction n generalizing a with
  | zero =>
    cases h with
    | cons hb hw =>
      cases hw
      exact ⟨a, .refl a, hb⟩
  | succ n ih =>
    cases h with
    | cons hb hw =>
      obtain ⟨b, hw, hc⟩ := ih hw
      exact ⟨b, .cons hb hw, hc⟩

def Distance (next : α → List α) (a b : α) (d : ℕ) : Prop :=
  Walk next d a b ∧ ∀ m < d, ¬ Walk next m a b

theorem exists_distance (h : Walk next n a b) : ∃ d ≤ n, Distance next a b d := by
  classical
  have hex : ∃ n, Walk next n a b := ⟨n, h⟩
  exact ⟨Nat.find hex, Nat.find_min' hex h, Nat.find_spec hex, fun m hm => Nat.find_min hex hm⟩

theorem Distance.le (h : Distance next a b d) (hw : Walk next n a b) : d ≤ n :=
  Nat.le_of_not_lt fun hlt => h.2 n hlt hw

theorem Distance.unique (h : Distance next a b d) (h' : Distance next a b e) : d = e :=
  Nat.le_antisymm (h.le h'.1) (h'.le h.1)

theorem distance_zero (a : α) : Distance next a a 0 := ⟨.refl a, by simp⟩

theorem eq_of_distance_zero (h : Distance next a b 0) : b = a := by
  obtain ⟨hw, -⟩ := h
  cases hw
  rfl

theorem Distance.next_le (h : Distance next a b d) (hc : c ∈ next b) :
    ∃ e ≤ d + 1, Distance next a c e :=
  exists_distance (walk_concat h.1 hc)

theorem Distance.pred (h : Distance next a c (d + 1)) : ∃ b, Distance next a b d ∧ c ∈ next b := by
  obtain ⟨b, hw, hc⟩ := exists_walk_last h.1
  refine ⟨b, ⟨hw, fun m hm hw' => ?_⟩, hc⟩
  exact h.2 (m + 1) (Nat.succ_lt_succ hm) (walk_concat hw' hc)

/-- There is a node at every distance up to that of a node. -/
theorem Distance.exists_of_le (h : Distance next a b d) (hle : e ≤ d) :
    ∃ c, Distance next a c e := by
  induction d generalizing b with
  | zero => exact ⟨b, Nat.le_zero.mp hle ▸ h⟩
  | succ d ih =>
    rcases Nat.le_succ_iff.mp hle with hle | rfl
    · obtain ⟨c, hc, -⟩ := h.pred
      exact ih hc hle
    · exact ⟨b, h⟩

end N8n.Distances
