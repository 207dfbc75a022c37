import Mathlib.Data.List.Nodup
import Mathlib.Data.List.Basic
import Mathlib.Tactic.SplitIfs

/-!
# Maps that keep the order of insertion

The entries of a map stand in the order in which their keys were first set.
Setting a key that is there replaces its value in place, setting a new key adds
an entry at the end. That every key has one entry is a field of the structure.
-/

namespace N8n

structure OrderedMap (κ α : Type*) where
  entries : List (κ × α)
  nodup : (entries.map Prod.fst).Nodup

namespace OrderedMap
variable {κ α : Type*}

@[ext]
theorem ext {m n : OrderedMap κ α} (h : m.entries = n.entries) : m = n := by
  cases m
  cases n
  cases h
  rfl

def empty : OrderedMap κ α := ⟨[], List.nodup_nil⟩

def keys (m : OrderedMap κ α) : List κ := m.entries.map Prod.fst

def values (m : OrderedMap κ α) : List α := m.entries.map Prod.snd

def size (m : OrderedMap κ α) : ℕ := m.entries.length

def mapValues {β : Type*} (m : OrderedMap κ α) (f : α → β) : OrderedMap κ β where
  entries := m.entries.map fun e => (e.1, f e.2)
  nodup := by
    rw [List.map_map]
    exact m.nodup

/-- The values change, each by its key. -/
def mapWithKey {β : Type*} (m : OrderedMap κ α) (f : κ → α → β) : OrderedMap κ β where
  entries := m.entries.map fun e => (e.1, f e.1 e.2)
  nodup := by
    rw [List.map_map]
    exact m.nodup

theorem mapWithKey_mapWithKey {β γ : Type*} (m : OrderedMap κ α) (f : κ → α → β) (g : κ → β → γ) :
    (m.mapWithKey f).mapWithKey g = m.mapWithKey fun k a => g k (f k a) :=
  ext List.map_map

theorem keys_nodup (m : OrderedMap κ α) : m.keys.Nodup := m.nodup

variable [DecidableEq κ]

def lookupEntry (k : κ) : List (κ × α) → Option α
  | [] => none
  | (k', a) :: es => if k' = k then some a else lookupEntry k es

def setEntry (k : κ) (a : α) : List (κ × α) → List (κ × α)
  | [] => [(k, a)]
  | (k', b) :: es => if k' = k then (k, a) :: es else (k', b) :: setEntry k a es

theorem lookupEntry_eq_none {k : κ} {es : List (κ × α)} :
    lookupEntry k es = none ↔ k ∉ es.map Prod.fst := by
  induction es with
  | nil => simp [lookupEntry]
  | cons e es ih =>
    obtain ⟨k', a⟩ := e
    by_cases h : k' = k
    · simp [lookupEntry, h]
    · simp [lookupEntry, h, ih, Ne.symm h]

theorem lookupEntry_eq_some {k : κ} {a : α} {es : List (κ × α)}
    (hes : (es.map Prod.fst).Nodup) : lookupEntry k es = some a ↔ (k, a) ∈ es := by
  induction es with
  | nil => simp [lookupEntry]
  | cons e es ih =>
    obtain ⟨k', b⟩ := e
    simp only [List.map_cons, List.nodup_cons] at hes
    by_cases h : k' = k
    · subst h
      have hn : (k', a) ∉ es := fun hm => hes.1 (List.mem_map.mpr ⟨_, hm, rfl⟩)
      simp [lookupEntry, hn, eq_comm]
    · simp [lookupEntry, h, ih hes.2, Ne.symm h]

theorem mem_of_lookupEntry {k : κ} {a : α} {es : List (κ × α)} (h : lookupEntry k es = some a) :
    (k, a) ∈ es := by
  induction es with
  | nil => cases h
  | cons e es ih =>
    rw [lookupEntry] at h
    split_ifs at h with hk
    · obtain rfl := Option.some.inj h
      rw [← hk]
      exact List.mem_cons_self
    · exact List.mem_cons_of_mem e (ih h)

theorem setEntry_ne_nil (k : κ) (a : α) (es : List (κ × α)) : setEntry k a es ≠ [] := by
  cases es with
  | nil => exact List.cons_ne_nil _ _
  | cons e es =>
    rw [setEntry]
    split_ifs <;> exact List.cons_ne_nil _ _

theorem lookupEntry_setEntry (k k' : κ) (a : α) (es : List (κ × α)) :
    lookupEntry k' (setEntry k a es) = if k = k' then some a else lookupEntry k' es := by
  induction es with
  | nil => simp [setEntry, lookupEntry]
  | cons e es ih =>
    obtain ⟨l, b⟩ := e
    by_cases h : l = k
    · subst h
      by_cases h' : l = k' <;> simp [setEntry, lookupEntry, h']
    · by_cases h' : l = k'
      · subst h'
        simp [setEntry, lookupEntry, h, Ne.symm h]
      · simp [setEntry, lookupEntry, h, h', ih]

theorem map_fst_setEntry (k : κ) (a : α) (es : List (κ × α)) :
    (setEntry k a es).map Prod.fst =
      if k ∈ es.map Prod.fst then es.map Prod.fst else es.map Prod.fst ++ [k] := by
  induction es with
  | nil => simp [setEntry]
  | cons e es ih =>
    obtain ⟨l, b⟩ := e
    by_cases h : l = k
    · simp [setEntry, h]
    · simp only [setEntry, h, ↓reduceIte, List.map_cons, ih, List.mem_cons, Ne.symm h, false_or]
      split_ifs <;> simp

theorem mem_of_setEntry {k : κ} {a : α} {es : List (κ × α)} {e : κ × α}
    (h : e ∈ setEntry k a es) : e = (k, a) ∨ e ∈ es := by
  induction es with
  | nil => exact Or.inl (List.mem_singleton.mp h)
  | cons e' es ih =>
    rw [setEntry] at h
    split_ifs at h
    · rcases List.mem_cons.mp h with rfl | h
      · exact Or.inl rfl
      · exact Or.inr (List.mem_cons_of_mem e' h)
    · rcases List.mem_cons.mp h with rfl | h
      · exact Or.inr List.mem_cons_self
      · exact (ih h).imp_right (List.mem_cons_of_mem e')

theorem setEntry_lookupEntry {k : κ} {a : α} {es : List (κ × α)} (h : lookupEntry k es = some a) :
    setEntry k a es = es := by
  induction es with
  | nil => simp [lookupEntry] at h
  | cons e es ih =>
    obtain ⟨l, b⟩ := e
    rw [lookupEntry] at h
    rw [setEntry]
    split_ifs at h ⊢ with hl
    · rw [hl, Option.some.inj h]
    · rw [ih h]

def get? (m : OrderedMap κ α) (k : κ) : Option α := lookupEntry k m.entries

def has (m : OrderedMap κ α) (k : κ) : Bool := (m.get? k).isSome

def set (m : OrderedMap κ α) (k : κ) (a : α) : OrderedMap κ α where
  entries := setEntry k a m.entries
  nodup := by
    rw [map_fst_setEntry]
    split_ifs with h
    · exact m.nodup
    · exact List.nodup_append.mpr ⟨m.nodup, List.nodup_singleton k,
        fun x hx y hy hxy => h (by rw [← List.mem_singleton.mp hy, ← hxy]; exact hx)⟩

def delete (m : OrderedMap κ α) (k : κ) : OrderedMap κ α where
  entries := m.entries.filter (fun e => decide (e.1 ≠ k))
  nodup := m.nodup.sublist ((List.filter_sublist).map _)

def filter (m : OrderedMap κ α) (p : κ → α → Bool) : OrderedMap κ α where
  entries := m.entries.filter (fun e => p e.1 e.2)
  nodup := m.nodup.sublist ((List.filter_sublist).map _)

theorem get?_eq_none {m : OrderedMap κ α} {k : κ} : m.get? k = none ↔ k ∉ m.keys :=
  lookupEntry_eq_none

theorem get?_eq_some {m : OrderedMap κ α} {k : κ} {a : α} :
    m.get? k = some a ↔ (k, a) ∈ m.entries :=
  lookupEntry_eq_some m.nodup

theorem has_iff {m : OrderedMap κ α} {k : κ} : m.has k = true ↔ k ∈ m.keys := by
  rw [has, Option.isSome_iff_ne_none, ne_eq, get?_eq_none, not_not]

theorem mem_keys_of_get? {m : OrderedMap κ α} {k : κ} {a : α} (h : m.get? k = some a) :
    k ∈ m.keys := by
  rw [← has_iff, has, h]
  rfl

theorem exists_get?_of_mem_keys {m : OrderedMap κ α} {k : κ} (h : k ∈ m.keys) :
    ∃ a, m.get? k = some a := by
  rw [← has_iff, has] at h
  exact Option.isSome_iff_exists.mp h

theorem get?_mapWithKey {β : Type*} (m : OrderedMap κ α) (f : κ → α → β) (k : κ) :
    (m.mapWithKey f).get? k = (m.get? k).map (f k) := by
  have hentries : ∀ es : List (κ × α),
      lookupEntry k (es.map fun e => (e.1, f e.1 e.2)) = (lookupEntry k es).map (f k) := by
    intro es
    induction es with
    | nil => rfl
    | cons e es ih =>
      rw [List.map_cons, lookupEntry, lookupEntry, ih]
      split_ifs with hk
      · rw [hk, Option.map_some]
      · rfl
  exact hentries m.entries

theorem get?_mapValues {β : Type*} (m : OrderedMap κ α) (f : α → β) (k : κ) :
    (m.mapValues f).get? k = (m.get? k).map f :=
  get?_mapWithKey m (fun _ => f) k

@[simp]
theorem get?_empty (k : κ) : (empty : OrderedMap κ α).get? k = none := rfl

theorem get?_set (m : OrderedMap κ α) (k k' : κ) (a : α) :
    (m.set k a).get? k' = if k = k' then some a else m.get? k' :=
  lookupEntry_setEntry k k' a m.entries

@[simp]
theorem get?_set_self (m : OrderedMap κ α) (k : κ) (a : α) : (m.set k a).get? k = some a := by
  simp [get?_set]

theorem get?_set_of_ne {m : OrderedMap κ α} {k k' : κ} {a : α} (h : k ≠ k') :
    (m.set k a).get? k' = m.get? k' := by
  simp [get?_set, h]

theorem keys_set (m : OrderedMap κ α) (k : κ) (a : α) :
    (m.set k a).keys = if k ∈ m.keys then m.keys else m.keys ++ [k] :=
  map_fst_setEntry k a m.entries

theorem mem_keys_set {m : OrderedMap κ α} {k k' : κ} {a : α} :
    k' ∈ (m.set k a).keys ↔ k' = k ∨ k' ∈ m.keys := by
  rw [keys_set]
  split_ifs with h
  · constructor
    · exact Or.inr
    · rintro (rfl | h')
      · exact h
      · exact h'
  · simp [or_comm]

theorem mem_entries_delete {m : OrderedMap κ α} {k : κ} {e : κ × α} :
    e ∈ (m.delete k).entries ↔ e ∈ m.entries ∧ e.1 ≠ k := by
  simp [delete]

theorem get?_delete (m : OrderedMap κ α) (k k' : κ) :
    (m.delete k).get? k' = if k = k' then none else m.get? k' := by
  split_ifs with h
  · rw [get?_eq_none]
    simp [keys, mem_entries_delete, h]
  · cases hg : m.get? k' with
    | none =>
      rw [get?_eq_none] at hg ⊢
      intro hk
      obtain ⟨e, he, rfl⟩ := List.mem_map.mp hk
      exact hg (List.mem_map.mpr ⟨e, (mem_entries_delete.mp he).1, rfl⟩)
    | some a =>
      rw [get?_eq_some] at hg ⊢
      exact mem_entries_delete.mpr ⟨hg, Ne.symm h⟩

@[simp]
theorem get?_delete_self (m : OrderedMap κ α) (k : κ) : (m.delete k).get? k = none := by
  simp [get?_delete]

theorem get?_delete_of_ne {m : OrderedMap κ α} {k k' : κ} (h : k ≠ k') :
    (m.delete k).get? k' = m.get? k' := by
  simp [get?_delete, h]

theorem mem_values {m : OrderedMap κ α} {a : α} : a ∈ m.values ↔ ∃ k, m.get? k = some a := by
  simp [values, get?_eq_some]

theorem mem_values_set_self (m : OrderedMap κ α) (k : κ) (a : α) : a ∈ (m.set k a).values :=
  mem_values.mpr ⟨k, get?_set_self m k a⟩

theorem mem_values_of_set {m : OrderedMap κ α} {k : κ} {a b : α} (h : b ∈ (m.set k a).values) :
    b = a ∨ b ∈ m.values := by
  obtain ⟨k', hk'⟩ := mem_values.mp h
  rw [get?_set] at hk'
  split_ifs at hk' with he
  · exact Or.inl (Option.some.inj hk').symm
  · exact Or.inr (mem_values.mpr ⟨k', hk'⟩)

theorem mem_values_filter {m : OrderedMap κ α} {p : κ → α → Bool} {a : α} :
    a ∈ (m.filter p).values ↔ ∃ k, m.get? k = some a ∧ p k a = true := by
  rw [values, List.mem_map]
  constructor
  · rintro ⟨⟨k, b⟩, he, rfl⟩
    obtain ⟨hm, hp⟩ := List.mem_filter.mp he
    exact ⟨k, get?_eq_some.mpr hm, hp⟩
  · rintro ⟨k, hk, hp⟩
    exact ⟨(k, a), List.mem_filter.mpr ⟨get?_eq_some.mp hk, hp⟩, rfl⟩

theorem get?_filter_of_some {m : OrderedMap κ α} {p : κ → α → Bool} {k : κ} {a : α}
    (h : (m.filter p).get? k = some a) : m.get? k = some a ∧ p k a = true := by
  have hmem := List.mem_filter.mp (get?_eq_some.mp h)
  exact ⟨get?_eq_some.mpr hmem.1, hmem.2⟩

theorem get?_filter_iff {m : OrderedMap κ α} {p : κ → α → Bool} {k : κ} {a : α} :
    (m.filter p).get? k = some a ↔ m.get? k = some a ∧ p k a = true := by
  refine ⟨get?_filter_of_some, fun h => ?_⟩
  exact get?_eq_some.mpr (List.mem_filter.mpr ⟨get?_eq_some.mp h.1, h.2⟩)

/-! ### Maps whose values have their own keys -/

section Keyed
variable {key : α → κ}

/-- Every value stands under its own key. -/
def Keyed (key : α → κ) (m : OrderedMap κ α) : Prop := ∀ k a, m.get? k = some a → k = key a

def setAll (key : α → κ) (m : OrderedMap κ α) (l : List α) : OrderedMap κ α :=
  l.foldl (fun m a => m.set (key a) a) m

theorem keyed_empty : (empty : OrderedMap κ α).Keyed key := nofun

theorem Keyed.set {m : OrderedMap κ α} (h : m.Keyed key) (a : α) : (m.set (key a) a).Keyed key := by
  intro k b hb
  rw [get?_set] at hb
  split_ifs at hb with hk
  · obtain rfl := Option.some.inj hb
    exact hk.symm
  · exact h k b hb

theorem Keyed.setAll {m : OrderedMap κ α} (h : m.Keyed key) (l : List α) :
    (m.setAll key l).Keyed key := by
  induction l generalizing m with
  | nil => exact h
  | cons a l ih => exact ih (h.set a)

theorem Keyed.filter {m : OrderedMap κ α} (h : m.Keyed key) (p : κ → α → Bool) :
    (m.filter p).Keyed key := fun k a ha => h k a (get?_filter_of_some ha).1

theorem mem_values_setAll {m : OrderedMap κ α} {l : List α} {a : α}
    (h : a ∈ (m.setAll key l).values) : a ∈ m.values ∨ a ∈ l := by
  induction l generalizing m with
  | nil => exact Or.inl h
  | cons b l ih =>
    rcases ih h with h | h
    · rcases mem_values_of_set h with rfl | h
      · exact Or.inr List.mem_cons_self
      · exact Or.inl h
    · exact Or.inr (List.mem_cons_of_mem b h)

/-- Setting a value replaces no other one when no other one has its key. -/
theorem Keyed.mem_values_set {m : OrderedMap κ α} (hm : m.Keyed key) {a b : α}
    (hinj : b ∈ m.values → key b = key a → b = a) :
    b ∈ (m.set (key a) a).values ↔ b ∈ m.values ∨ b = a := by
  refine ⟨fun h => (mem_values_of_set h).symm, ?_⟩
  rintro (h | rfl)
  · obtain ⟨k, hk⟩ := mem_values.mp h
    obtain rfl := hm k b hk
    by_cases he : key b = key a
    · rw [hinj h he]
      exact mem_values_set_self _ _ _
    · exact mem_values.mpr ⟨key b, by rw [get?_set_of_ne (Ne.symm he), hk]⟩
  · exact mem_values_set_self _ _ _

theorem Keyed.mem_values_setAll {m : OrderedMap κ α} (hm : m.Keyed key) {l : List α} {b : α}
    (hinj : b ∈ m.values ∨ b ∈ l → ∀ a ∈ l, key b = key a → b = a) :
    b ∈ (m.setAll key l).values ↔ b ∈ m.values ∨ b ∈ l := by
  induction l generalizing m with
  | nil => simp [OrderedMap.setAll]
  | cons a l ih =>
    have hset := hm.mem_values_set (a := a) (b := b)
      fun hb => hinj (Or.inl hb) a List.mem_cons_self
    refine (ih (hm.set a) fun hb c hc => hinj ?_ c (List.mem_cons_of_mem a hc)).trans ?_
    · rcases hb with hb | hb
      · rcases hset.mp hb with hb | rfl
        · exact Or.inl hb
        · exact Or.inr List.mem_cons_self
      · exact Or.inr (List.mem_cons_of_mem a hb)
    · rw [hset, List.mem_cons, or_assoc]

theorem setEntry_of_notMem {k : κ} {a : α} {es : List (κ × α)} (h : k ∉ es.map Prod.fst) :
    setEntry k a es = es ++ [(k, a)] := by
  induction es with
  | nil => rfl
  | cons e es ih =>
    rw [List.map_cons, List.mem_cons, not_or] at h
    rw [setEntry, if_neg (Ne.symm h.1), ih h.2, List.cons_append]

/-- A map is made again from its values. -/
theorem Keyed.setAll_values {m : OrderedMap κ α} (hm : m.Keyed key) :
    OrderedMap.empty.setAll key m.values = m := by
  have hkeys : ∀ e ∈ m.entries, e.1 = key e.2 :=
    fun e he => hm e.1 e.2 (get?_eq_some.mpr he)
  -- the entries that are made are those that stand before the rest
  have hrest : ∀ (l : List (κ × α)) (n : OrderedMap κ α), n.entries ++ l = m.entries →
      (n.setAll key (l.map Prod.snd)).entries = m.entries := by
    intro l
    induction l with
    | nil => intro n hn; simpa [OrderedMap.setAll] using hn
    | cons e l ih =>
      intro n hn
      have he := hkeys e (hn ▸ List.mem_append_right _ List.mem_cons_self)
      have hnodup := m.nodup
      rw [← hn, List.map_append, List.map_cons] at hnodup
      have hnew : e.1 ∉ n.entries.map Prod.fst := fun h =>
        (List.nodup_append.mp hnodup).2.2 _ h _ List.mem_cons_self rfl
      refine ih (n.set (key e.2) e.2) ?_
      rw [OrderedMap.set, ← he]
      dsimp only
      rw [setEntry_of_notMem hnew, List.append_assoc]
      exact hn
  exact OrderedMap.ext (hrest m.entries .empty rfl)

end Keyed

end OrderedMap
end N8n
