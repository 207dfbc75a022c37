import Mathlib.Algebra.BigOperators.Group.Multiset.Basic
import Mathlib.Algebra.BigOperators.Group.List.Basic
import Mathlib.Data.List.Dedup
import Mathlib.Tactic.Abel
import N8n.Foundations.KeyedJoins

/-!
# Groups of elements with the same key

The elements of a list by their keys, and the groups of one key split further by the next. An
element without a key belongs to no group. Of groups whose keys have the same name, the last
replaces those before it.
-/

/-! ### Sums by groups

The sum over a list taken in parts: over the elements with and without a property, and over
the groups of elements that have the same key. -/

namespace N8n.GroupedSums

variable {α κ M : Type*} [AddCommMonoid M] (value : α → M)

theorem sum_filter_add_sum_filter_not (p : α → Bool) (l : List α) :
    ((l.filter p).map value).sum + ((l.filter fun a => !p a).map value).sum =
      (l.map value).sum := by
  rw [← List.sum_append, ← List.map_append]
  exact ((List.filter_append_perm p l).map value).sum_eq

variable [DecidableEq κ] (key : α → κ)

def groupSum (l : List α) (k : κ) : M := ((l.filter fun a => key a = k).map value).sum

theorem sum_groupSum {ks : List κ} (hks : ks.Nodup) (l : List α) :
    (ks.map (groupSum value key l)).sum = ((l.filter fun a => key a ∈ ks).map value).sum := by
  induction ks with
  | nil => simp
  | cons k ks ih =>
    obtain ⟨hk, hks⟩ := List.nodup_cons.mp hks
    have hsplit := sum_filter_add_sum_filter_not value (fun a => decide (key a = k))
      (l.filter fun a => key a ∈ k :: ks)
    rw [List.map_cons, List.sum_cons, ih hks, groupSum, ← hsplit, List.filter_filter,
      List.filter_filter]
    congr 3
    · refine List.filter_congr fun a _ => ?_
      by_cases ha : key a = k <;> simp [ha]
    · refine List.filter_congr fun a _ => ?_
      by_cases ha : key a = k
      · simp [ha, hk]
      · simp [ha]

/-- The groups together have the sum of the list. -/
theorem sum_groupSum_dedup (l : List α) :
    ((l.map key).dedup.map (groupSum value key l)).sum = (l.map value).sum := by
  rw [sum_groupSum value key (List.nodup_dedup _)]
  congr 2
  refine List.filter_eq_self.mpr fun a ha => ?_
  simpa using ⟨a, ha, rfl⟩

end N8n.GroupedSums

/-! ### Groups -/

namespace N8n.KeyedGroups
open N8n.KeyedJoins
variable {α κ : Type*} {key : α → Option κ} {keys : List (α → Option κ)} {l : List α} {a b : α}
  {k : κ}

/-- The values of all keys, unless one is missing. -/
def path : List (α → Option κ) → α → Option (List κ)
  | [], _ => some []
  | key :: keys, a => (key a).bind fun k => (path keys a).map fun ks => k :: ks

theorem path_cons_eq_some {ks : List κ} :
    path (key :: keys) a = some ks ↔
      ∃ k ks', key a = some k ∧ path keys a = some ks' ∧ k :: ks' = ks := by
  rw [path, Option.bind_eq_some_iff]
  simp

theorem path_isSome_iff : (path keys a).isSome ↔ ∀ key ∈ keys, (key a).isSome := by
  induction keys with
  | nil => simp [path]
  | cons key keys ih =>
    rw [List.forall_mem_cons, ← ih, path]
    cases key a with
    | none => simp
    | some k => simp

theorem path_eq_iff (h : (path keys a).isSome) :
    path keys a = path keys b ↔ ∀ key ∈ keys, key a = key b := by
  induction keys with
  | nil => simp [path]
  | cons key keys ih =>
    obtain ⟨ks, hks⟩ := Option.isSome_iff_exists.mp h
    obtain ⟨k, ks', hk, hks', rfl⟩ := path_cons_eq_some.mp hks
    rw [List.forall_mem_cons, ← ih (hks' ▸ rfl), hks, hk, hks', eq_comm, path_cons_eq_some]
    constructor
    · rintro ⟨k', ks'', hk', hks'', heq⟩
      obtain ⟨rfl, rfl⟩ := List.cons.inj heq
      exact ⟨hk'.symm, hks''.symm⟩
    · rintro ⟨hk', hks''⟩
      exact ⟨k, ks', hk'.symm, hks''.symm, rfl⟩

variable [DecidableEq κ]

def ofKey (key : α → Option κ) (l : List α) (k : κ) : List α :=
  l.filter fun a => key a = some k

theorem mem_ofKey : a ∈ ofKey key l k ↔ a ∈ l ∧ key a = some k := by
  rw [ofKey, List.mem_filter, decide_eq_true_iff]

theorem ofKey_concat (l : List α) (a : α) (k : κ) :
    ofKey key (l ++ [a]) k = if key a = some k then ofKey key l k ++ [a] else ofKey key l k := by
  rw [ofKey, List.filter_append, List.filter_singleton]
  split_ifs with h
  · simp [ofKey, h]
  · simp [ofKey, h]

/-- The groups in some order: each is that of a key, and every key has one group. -/
def IsGrouping (key : α → Option κ) (l : List α) (groups : List (List α)) : Prop :=
  ∃ ks : List κ, ks.Nodup ∧ groups = ks.map (ofKey key l) ∧ ∀ a ∈ l, ∀ k, key a = some k → k ∈ ks

namespace IsGrouping
variable {groups : List (List α)}

theorem sublist (h : IsGrouping key l groups) {group : List α} (hgroup : group ∈ groups) :
    group.Sublist l := by
  obtain ⟨ks, -, rfl, -⟩ := h
  obtain ⟨k, -, rfl⟩ := List.mem_map.mp hgroup
  exact List.filter_sublist

/-- Two elements are in one group exactly if they have the same key. -/
theorem together_iff (h : IsGrouping key l groups) (ha : a ∈ l) (hb : b ∈ l)
    (hkey : (key a).isSome) : (∃ group ∈ groups, a ∈ group ∧ b ∈ group) ↔ key a = key b := by
  obtain ⟨ks, -, rfl, hall⟩ := h
  obtain ⟨k, hk⟩ := Option.isSome_iff_exists.mp hkey
  constructor
  · rintro ⟨group, hgroup, ha', hb'⟩
    obtain ⟨k', -, rfl⟩ := List.mem_map.mp hgroup
    rw [(mem_ofKey.mp ha').2, (mem_ofKey.mp hb').2]
  · intro heq
    exact ⟨ofKey key l k, List.mem_map_of_mem (hall a ha k hk), mem_ofKey.mpr ⟨ha, hk⟩,
      mem_ofKey.mpr ⟨hb, heq ▸ hk⟩⟩

/-- Every element that has a key is in one group, as often as in the list. -/
theorem flatten_perm (h : IsGrouping key l groups) :
    groups.flatten.Perm (l.filter fun a => (key a).isSome) := by
  obtain ⟨ks, hks, rfl, hall⟩ := h
  have hsum := GroupedSums.sum_groupSum (fun a => ({a} : Multiset α)) key
    (hks.map (Option.some_injective κ)) l
  have hsingletons : ∀ m : List α, (m.map fun a => ({a} : Multiset α)).sum = m := fun m => by
    rw [← Multiset.sum_coe, ← Multiset.map_coe, Multiset.sum_map_singleton]
  have hgroups : ∀ ks : List κ, ((ks.map some).map
      (GroupedSums.groupSum (fun a => ({a} : Multiset α)) key l)).sum =
        ((ks.map (ofKey key l)).flatten : Multiset α) := by
    intro ks
    induction ks with
    | nil => rfl
    | cons k ks ih =>
      rw [List.map_cons, List.map_cons, List.sum_cons, ih, GroupedSums.groupSum, hsingletons]
      rfl
  rw [hgroups, hsingletons, Multiset.coe_eq_coe] at hsum
  refine hsum.trans (List.Perm.of_eq (List.filter_congr fun a ha => ?_))
  cases hk : key a with
  | none => simp
  | some k => simp [hall a ha k hk]

end IsGrouping

section Table

/-- A table of groups with one more element. -/
def collect (key : α → Option κ) (groups : OrderedMap κ (List α)) (a : α) :
    OrderedMap κ (List α) :=
  match key a with
  | none => groups
  | some k => groups.set k ((groups.get? k).getD [] ++ [a])

def groupedBy (key : α → Option κ) (l : List α) : OrderedMap κ (List α) :=
  l.foldl (collect key) .empty

theorem groupedBy_concat (l : List α) (a : α) :
    groupedBy key (l ++ [a]) = collect key (groupedBy key l) a := by
  rw [groupedBy, List.foldl_append]
  rfl

theorem get?_groupedBy (l : List α) (k : κ) :
    (groupedBy key l).get? k = if ofKey key l k = [] then none else some (ofKey key l k) := by
  induction l using List.reverseRecOn with
  | nil => rfl
  | append_singleton l a ih =>
    rw [groupedBy_concat, ofKey_concat, collect]
    cases hkey : key a with
    | none => simpa using ih
    | some k' =>
      rw [OrderedMap.get?_set]
      by_cases hk : k' = k
      · subst hk
        rw [if_pos rfl, if_pos rfl, ih]
        by_cases hempty : ofKey key l k' = []
        · simp [hempty]
        · simp [hempty]
      · rw [if_neg hk, if_neg fun h => hk (Option.some.inj h), ih]

theorem mem_keys_groupedBy : k ∈ (groupedBy key l).keys ↔ ∃ a ∈ l, key a = some k := by
  rw [← OrderedMap.has_iff, OrderedMap.has, get?_groupedBy]
  split_ifs with h
  · simp only [Option.isSome_none, Bool.false_eq_true, false_iff, not_exists, not_and]
    intro a ha hk
    exact List.not_mem_nil (h ▸ mem_ofKey.mpr ⟨ha, hk⟩)
  · obtain ⟨a, ha⟩ := List.exists_mem_of_ne_nil _ h
    exact iff_of_true rfl ⟨a, mem_ofKey.mp ha⟩

/-- The table has the group of every key. -/
theorem entries_groupedBy (key : α → Option κ) (l : List α) :
    (groupedBy key l).entries = (groupedBy key l).keys.map fun k => (k, ofKey key l k) := by
  rw [OrderedMap.keys, List.map_map]
  refine (List.map_id _).symm.trans (List.map_congr_left fun e he => ?_)
  have hget : (groupedBy key l).get? e.1 = some e.2 := OrderedMap.get?_eq_some.mpr he
  rw [get?_groupedBy] at hget
  split_ifs at hget
  exact Prod.ext rfl (Option.some.inj hget).symm

/-- The keys stand in the order in which they first occur. -/
theorem pairwise_keys_groupedBy (key : α → Option κ) (l : List α) :
    (groupedBy key l).keys.Pairwise fun k k' =>
      (l.map key).idxOf (some k) < (l.map key).idxOf (some k') := by
  induction l using List.reverseRecOn with
  | nil => exact List.Pairwise.nil
  | append_singleton l a ih =>
    have hmem : ∀ k ∈ (groupedBy key l).keys, some k ∈ l.map key := fun k hk =>
      List.mem_map.mpr (mem_keys_groupedBy.mp hk)
    have hold : (groupedBy key l).keys.Pairwise fun k k' =>
        ((l ++ [a]).map key).idxOf (some k) < ((l ++ [a]).map key).idxOf (some k') := by
      refine List.Pairwise.imp_of_mem (fun {k k'} hk hk' hlt => ?_) ih
      rw [List.map_append, List.idxOf_append_of_mem (hmem k hk),
        List.idxOf_append_of_mem (hmem k' hk')]
      exact hlt
    rw [groupedBy_concat, collect]
    cases hkey : key a with
    | none => exact hold
    | some k =>
      dsimp only
      rw [OrderedMap.keys_set]
      split_ifs with hk
      · exact hold
      · refine List.pairwise_append.mpr
          ⟨hold, List.pairwise_singleton _ _, fun k' hk' k'' hlast => ?_⟩
        obtain rfl := List.mem_singleton.mp hlast
        have hnew : some k'' ∉ l.map key := fun h => hk (mem_keys_groupedBy.mpr (List.mem_map.mp h))
        rw [List.map_append, List.idxOf_append_of_mem (hmem k' hk'),
          List.idxOf_append_of_notMem hnew]
        exact Nat.lt_add_right _ (List.idxOf_lt_length_of_mem (hmem k' hk'))

end Table

section Nested

/-- The groups by the first key, each split by the keys after it. -/
def nestedGroups : List (α → Option κ) → List α → List (List α)
  | [], l => [l]
  | key :: keys, l => (groupedBy key l).entries.flatMap fun e => nestedGroups keys e.2

theorem ofKey_path_cons (l : List α) (ks : List κ) :
    ofKey (path (key :: keys)) l (k :: ks) = ofKey (path keys) (ofKey key l k) ks := by
  rw [ofKey, ofKey, ofKey, List.filter_filter]
  refine List.filter_congr fun a _ => ?_
  rw [← Bool.decide_and, decide_eq_decide, path_cons_eq_some]
  constructor
  · rintro ⟨k', ks', hk, hks, heq⟩
    obtain ⟨rfl, rfl⟩ := List.cons.inj heq
    exact ⟨hks, hk⟩
  · rintro ⟨hks, hk⟩
    exact ⟨k, ks, hk, hks, rfl⟩

theorem nestedGroups_cons (key : α → Option κ) (keys : List (α → Option κ)) (l : List α) :
    nestedGroups (key :: keys) l =
      (groupedBy key l).keys.flatMap fun k => nestedGroups keys (ofKey key l k) := by
  rw [nestedGroups, entries_groupedBy, List.flatMap_map]

/-- Splitting by one key after the other gives the groups of the path. -/
theorem isGrouping_nestedGroups (keys : List (α → Option κ)) (l : List α) :
    IsGrouping (path keys) l (nestedGroups keys l) := by
  induction keys generalizing l with
  | nil =>
    refine ⟨[[]], List.nodup_singleton _, ?_, fun a _ ks hks => ?_⟩
    · simp [nestedGroups, ofKey, path]
    · simpa [path, eq_comm] using hks
  | cons key keys ih =>
    choose kss hnodup hgroups hall using ih
    refine ⟨(groupedBy key l).keys.flatMap fun k => (kss (ofKey key l k)).map (k :: ·), ?_, ?_, ?_⟩
    · rw [List.nodup_flatMap]
      constructor
      · exact fun k _ => (hnodup _).map (List.cons_injective)
      · refine (groupedBy key l).nodup.imp fun {k k'} hne => ?_
        change List.Disjoint _ _
        rw [List.disjoint_left]
        rintro ks hks hks'
        obtain ⟨ks₁, -, rfl⟩ := List.mem_map.mp hks
        obtain ⟨ks₂, -, heq⟩ := List.mem_map.mp hks'
        exact hne (List.cons.inj heq).1.symm
    · rw [nestedGroups_cons, List.map_flatMap]
      refine List.flatMap_congr fun k _ => ?_
      rw [hgroups, List.map_map]
      exact List.map_congr_left fun ks _ => (ofKey_path_cons l ks).symm
    · intro a ha ks hks
      obtain ⟨k, ks', hk, hks', rfl⟩ := path_cons_eq_some.mp hks
      refine List.mem_flatMap.mpr ⟨k, mem_keys_groupedBy.mpr ⟨a, ha, hk⟩, ?_⟩
      exact List.mem_map_of_mem (hall _ a (mem_ofKey.mpr ⟨ha, hk⟩) ks' hks')

theorem nestedGroups_eq_nil_iff (hl : l ≠ []) :
    nestedGroups keys l = [] ↔ ∀ a ∈ l, (path keys a).isSome = false := by
  have hperm := (isGrouping_nestedGroups keys l).flatten_perm
  constructor
  · intro h a ha
    rw [h, List.flatten_nil, List.nil_perm, List.filter_eq_nil_iff] at hperm
    simpa using hperm a ha
  · intro h
    have hne : ∀ (keys : List (α → Option κ)) (l : List α), l ≠ [] →
        [] ∉ nestedGroups keys l := by
      intro keys
      induction keys with
      | nil => simp [nestedGroups, eq_comm]
      | cons key keys ih =>
        intro l _ hmem
        rw [nestedGroups_cons, List.mem_flatMap] at hmem
        obtain ⟨k, hk, hmem⟩ := hmem
        obtain ⟨a, ha, hkey⟩ := mem_keys_groupedBy.mp hk
        exact ih _ (List.ne_nil_of_mem (mem_ofKey.mpr ⟨ha, hkey⟩)) hmem
    have hflat : (nestedGroups keys l).flatten = [] := by
      rw [← List.perm_nil]
      refine hperm.trans (List.Perm.of_eq (List.filter_eq_nil_iff.mpr fun a ha => ?_))
      simp [h a ha]
    cases hgroups : nestedGroups keys l with
    | nil => rfl
    | cons group groups =>
      have hmem : group ∈ nestedGroups keys l := hgroups ▸ List.mem_cons_self
      have hempty : group = [] := List.flatten_eq_nil_iff.mp hflat group hmem
      exact absurd (hempty ▸ hmem) (hne keys l hl)

end Nested

section Names
theorem sum_le_sum_of_sublist {ι : Type*} {f g : ι → ℕ} {m l : List ι} (hsub : m.Sublist l)
    (hle : ∀ a ∈ l, f a ≤ g a) : (m.map f).sum ≤ (l.map g).sum := by
  induction hsub with
  | slnil => exact le_refl _
  | cons a hsub ih =>
    rw [List.map_cons, List.sum_cons]
    exact (ih fun b hb => hle b (List.mem_cons_of_mem _ hb)).trans (Nat.le_add_left _ _)
  | cons_cons a hsub ih =>
    rw [List.map_cons, List.map_cons, List.sum_cons, List.sum_cons]
    exact Nat.add_le_add (hle a List.mem_cons_self)
      (ih fun b hb => hle b (List.mem_cons_of_mem _ hb))

/-- A part of a list has the sum of the whole if nothing is lost: neither of the elements that stay
nor of the others. -/
theorem sum_eq_sum_of_sublist_iff {ι : Type*} {f g : ι → ℕ} {m l : List ι} (hsub : m.Sublist l)
    (hl : l.Nodup) (hle : ∀ a ∈ l, f a ≤ g a) :
    (m.map f).sum = (l.map g).sum ↔
      (∀ a ∈ m, f a = g a) ∧ ∀ a ∈ l, a ∉ m → g a = 0 := by
  induction hsub with
  | slnil => simp
  | @cons m l a hsub ih =>
    obtain ⟨ha, hl⟩ := List.nodup_cons.mp hl
    obtain ⟨-, hle⟩ := List.forall_mem_cons.mp hle
    have hsum := sum_le_sum_of_sublist hsub hle
    rw [List.forall_mem_cons, List.map_cons, List.sum_cons]
    constructor
    · intro h
      obtain ⟨hstay, hrest⟩ := (ih hl hle).mp (by omega)
      exact ⟨hstay, fun _ => by omega, hrest⟩
    · rintro ⟨hstay, hzero, hrest⟩
      rw [hzero fun hm => ha (hsub.subset hm), (ih hl hle).mpr ⟨hstay, hrest⟩, Nat.zero_add]
  | @cons_cons m l a hsub ih =>
    obtain ⟨ha, hl⟩ := List.nodup_cons.mp hl
    obtain ⟨hlea, hle⟩ := List.forall_mem_cons.mp hle
    have hsum := sum_le_sum_of_sublist hsub hle
    have hrest : (∀ b ∈ l, b ∉ a :: m → g b = 0) ↔ ∀ b ∈ l, b ∉ m → g b = 0 := by
      refine forall₂_congr fun b hb => imp_congr_left (not_congr ?_)
      rw [List.mem_cons, or_iff_right]
      rintro rfl
      exact ha hb
    rw [List.forall_mem_cons, List.forall_mem_cons, hrest, List.map_cons, List.map_cons,
      List.sum_cons, List.sum_cons, and_iff_right fun hm => absurd List.mem_cons_self hm, and_assoc,
      ← ih hl hle]
    omega

variable {ν : Type*} {name : κ → ν}

/-- A group with an element that has all keys has the name of a group that first occurs later. -/
def Replaced (name : κ → ν) (key : α → Option κ) (keys : List (α → Option κ)) (l : List α) : Prop :=
  ∃ a ∈ l, ∃ b ∈ l, ∃ k k', key a = some k ∧ key b = some k' ∧ name k = name k' ∧
    (l.map key).idxOf (some k) < (l.map key).idxOf (some k') ∧ (path keys a).isSome

/-- A group is replaced among the elements that agree on the keys before. -/
def LosesGroup (name : κ → ν) (keys : List (α → Option κ)) (l : List α) : Prop :=
  ∃ before key after ks, keys = before ++ key :: after ∧
    Replaced name key after (ofKey (path before) l ks)

theorem not_replaced_nil : ¬ Replaced name key keys [] := by
  rintro ⟨a, ha, -⟩
  cases ha

theorem not_losesGroup_nil : ¬ LosesGroup name keys [] := by
  rintro ⟨before, key, after, ks, -, h⟩
  exact not_replaced_nil h

theorem losesGroup_cons_iff : LosesGroup name (key :: keys) l ↔
    Replaced name key keys l ∨ ∃ k, LosesGroup name keys (ofKey key l k) := by
  constructor
  · rintro ⟨before, key', after, ks, hkeys, h⟩
    cases before with
    | nil =>
      obtain ⟨rfl, rfl⟩ := List.cons.inj hkeys
      cases ks with
      | nil => exact .inl (by simpa [ofKey, path] using h)
      | cons k ks => exact absurd (by simpa [ofKey, path] using h) not_replaced_nil
    | cons key'' before =>
      obtain ⟨rfl, rfl⟩ := List.cons.inj hkeys
      cases ks with
      | nil =>
        have hnone : ofKey (path (key :: before)) l [] = [] := by
          refine List.filter_eq_nil_iff.mpr fun a _ ha => ?_
          obtain ⟨k, ks, -, -, heq⟩ := path_cons_eq_some.mp (of_decide_eq_true ha)
          cases heq
        exact absurd (hnone ▸ h) not_replaced_nil
      | cons k ks =>
        rw [ofKey_path_cons] at h
        exact .inr ⟨k, before, key', after, ks, rfl, h⟩
  · rintro (h | ⟨k, before, key', after, ks, rfl, h⟩)
    · exact ⟨[], key, keys, [], rfl, by simpa [ofKey, path] using h⟩
    · exact ⟨key :: before, key', after, k :: ks, rfl, by rwa [ofKey_path_cons]⟩

variable [DecidableEq ν]

/-- How many groups there are if under one key only the last of those with the same name is kept. -/
def keptCount (name : κ → ν) : List (α → Option κ) → List α → ℕ
  | [], _ => 1
  | key :: keys, l => ((lasting (fun e => name e.1) (groupedBy key l).entries).map
      fun e => keptCount name keys e.2).sum

theorem length_nestedGroups_cons (key : α → Option κ) (keys : List (α → Option κ)) (l : List α) :
    (nestedGroups (key :: keys) l).length =
      ((groupedBy key l).entries.map fun e => (nestedGroups keys e.2).length).sum := by
  rw [nestedGroups, List.length_flatMap]

theorem keptCount_le (name : κ → ν) (keys : List (α → Option κ)) (l : List α) :
    keptCount name keys l ≤ (nestedGroups keys l).length := by
  induction keys generalizing l with
  | nil => exact le_refl _
  | cons key keys ih =>
    rw [keptCount, length_nestedGroups_cons]
    exact sum_le_sum_of_sublist (lasting_sublist _ _) fun e _ => ih e.2

theorem forall_entries_groupedBy {P : κ × List α → Prop} :
    (∀ e ∈ (groupedBy key l).entries, P e) ↔
      ∀ k ∈ (groupedBy key l).keys, P (k, ofKey key l k) := by
  conv_lhs => rw [entries_groupedBy]
  exact List.forall_mem_map

/-- The entries that are not kept have the name of one that first occurs later. -/
theorem mem_lasting_groupedBy (hk : k ∈ (groupedBy key l).keys) :
    (k, ofKey key l k) ∈ lasting (fun e => name e.1) (groupedBy key l).entries ↔
      ∀ k' ∈ (groupedBy key l).keys,
        (l.map key).idxOf (some k) < (l.map key).idxOf (some k') → name k' ≠ name k := by
  have hpairwise := pairwise_keys_groupedBy key l
  rw [OrderedMap.keys, List.pairwise_map] at hpairwise
  have hentry : (k, ofKey key l k) ∈ (groupedBy key l).entries := by
    rw [entries_groupedBy]
    exact List.mem_map_of_mem hk
  rw [@mem_lasting_iff_of_pairwise _ _ _ _ (fun e => (l.map key).idxOf (some e.1)) _ _ hpairwise
    hentry, forall_entries_groupedBy]

theorem replaced_iff : Replaced name key keys l ↔ ∃ k ∈ (groupedBy key l).keys,
    (k, ofKey key l k) ∉ lasting (fun e => name e.1) (groupedBy key l).entries ∧
      nestedGroups keys (ofKey key l k) ≠ [] := by
  constructor
  · rintro ⟨a, ha, b, hb, k, k', hk, hk', hname, hlt, hpath⟩
    have hmem : k ∈ (groupedBy key l).keys := mem_keys_groupedBy.mpr ⟨a, ha, hk⟩
    have hgroup : a ∈ ofKey key l k := mem_ofKey.mpr ⟨ha, hk⟩
    refine ⟨k, hmem, ?_, ?_⟩
    · rw [mem_lasting_groupedBy hmem]
      intro h
      exact h k' (mem_keys_groupedBy.mpr ⟨b, hb, hk'⟩) hlt hname.symm
    · rw [ne_eq, nestedGroups_eq_nil_iff (List.ne_nil_of_mem hgroup)]
      intro h
      rw [h a hgroup] at hpath
      cases hpath
  · rintro ⟨k, hmem, hlast, hne⟩
    obtain ⟨c, hc, hck⟩ := mem_keys_groupedBy.mp hmem
    rw [ne_eq, nestedGroups_eq_nil_iff (List.ne_nil_of_mem (mem_ofKey.mpr ⟨hc, hck⟩))] at hne
    rw [mem_lasting_groupedBy hmem] at hlast
    push Not at hlast hne
    obtain ⟨k', hk', hlt, hname⟩ := hlast
    obtain ⟨a, ha, hpath⟩ := hne
    obtain ⟨ha, hk⟩ := mem_ofKey.mp ha
    obtain ⟨b, hb, hk'⟩ := mem_keys_groupedBy.mp hk'
    exact ⟨a, ha, b, hb, k, k', hk, hk', hname.symm, hlt, Bool.eq_true_of_not_eq_false hpath⟩

/-- No group is lost exactly if none with an element that has all keys is replaced. -/
theorem keptCount_eq_iff : keptCount name keys l = (nestedGroups keys l).length ↔
    ¬ LosesGroup name keys l := by
  induction keys generalizing l with
  | nil =>
    refine iff_of_true rfl ?_
    rintro ⟨before, key, after, ks, hkeys, -⟩
    simp at hkeys
  | cons key keys ih =>
    have hnone : (∀ e ∈ (groupedBy key l).entries,
        e ∉ lasting (fun e => name e.1) (groupedBy key l).entries →
          (nestedGroups keys e.2).length = 0) ↔ ¬ Replaced name key keys l := by
      rw [forall_entries_groupedBy, replaced_iff]
      push Not
      exact forall₃_congr fun k _ _ => List.length_eq_zero_iff
    rw [losesGroup_cons_iff, not_or, keptCount, length_nestedGroups_cons,
      sum_eq_sum_of_sublist_iff (lasting_sublist _ _) (List.Nodup.of_map _ (groupedBy key l).nodup)
        fun e _ => keptCount_le name keys e.2, hnone, and_comm, not_exists]
    refine and_congr_right fun hreplaced => ?_
    constructor
    · intro h k
      by_cases hk : k ∈ (groupedBy key l).keys
      · rw [← ih]
        by_cases hlast : (k, ofKey key l k) ∈
            lasting (fun e => name e.1) (groupedBy key l).entries
        · exact h _ hlast
        · have hzero : (nestedGroups keys (ofKey key l k)).length = 0 :=
            forall_entries_groupedBy.mp (hnone.mpr hreplaced) k hk hlast
          have hle := keptCount_le name keys (ofKey key l k)
          omega
      · have hempty : ofKey key l k = [] := List.filter_eq_nil_iff.mpr fun a ha hka =>
          hk (mem_keys_groupedBy.mpr ⟨a, ha, of_decide_eq_true hka⟩)
        rw [hempty]
        exact not_losesGroup_nil
    · intro h e he
      have hentry := mem_of_mem_lasting he
      rw [entries_groupedBy] at hentry
      obtain ⟨k, -, rfl⟩ := List.mem_map.mp hentry
      exact ih.mpr (h k)

end Names

end N8n.KeyedGroups
