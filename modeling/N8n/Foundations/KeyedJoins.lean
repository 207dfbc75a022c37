import N8n.Foundations.OrderedMap

/-!
# Joins of two lists

The join of two lists on a relation, the elements with a partner and those without. A table that is
filled with pairs of keys and values keeps for every key the last pair.
-/

namespace N8n.KeyedJoins
variable {α β : Type*} {p q : α → β → Bool} {l : List α} {m : List β}

/-- All pairs of elements that are related, in the order of a nested loop. -/
def joined (p : α → β → Bool) (l : List α) (m : List β) : List (α × β) :=
  l.flatMap fun a => (m.filter (p a)).map fun b => (a, b)

theorem mem_joined {a : α} {b : β} : (a, b) ∈ joined p l m ↔ a ∈ l ∧ b ∈ m ∧ p a b = true := by
  simp [joined]

theorem joined_concat (done : List α) (a : α) :
    joined p (done ++ [a]) m = joined p done m ++ (m.filter (p a)).map fun b => (a, b) := by
  simp [joined]

theorem joined_eq_iff : joined p l m = joined q l m ↔ ∀ a ∈ l, ∀ b ∈ m, p a b = q a b := by
  constructor
  · intro h a ha b hb
    have hmem : (a, b) ∈ joined p l m ↔ (a, b) ∈ joined q l m := by rw [h]
    rw [mem_joined, mem_joined] at hmem
    rw [Bool.eq_iff_iff]
    simpa [ha, hb] using hmem
  · intro h
    refine List.flatMap_congr fun a ha => congrArg _ (List.filter_congr fun b hb => h a ha b hb)

theorem any_congr {f g : α → Bool} (h : ∀ a ∈ l, f a = g a) : l.any f = l.any g := by
  rw [Bool.eq_iff_iff, List.any_eq_true, List.any_eq_true]
  exact exists_congr fun a => and_congr_right fun ha => by rw [h a ha]

/-- The two sides of a join: what is paired, and what has or has not a partner. -/
structure IsJoin (p : α → β → Bool) (l : List α) (m : List β) (pairs : List (α × β))
    (partnered : List β) (alone₁ : List α) (alone₂ : List β) : Prop where
  pairs : pairs = joined p l m
  partnered : partnered = m.filter fun b => l.any fun a => p a b
  alone₁ : alone₁ = l.filter fun a => !m.any (p a)
  alone₂ : alone₂ = m.filter fun b => !l.any fun a => p a b

/-- What is a join on one relation is a join on another exactly if these agree on the lists. -/
theorem IsJoin.isJoin_iff {pairs : List (α × β)} {partnered alone₂ : List β} {alone₁ : List α}
    (h : IsJoin p l m pairs partnered alone₁ alone₂) :
    IsJoin q l m pairs partnered alone₁ alone₂ ↔ ∀ a ∈ l, ∀ b ∈ m, p a b = q a b := by
  constructor
  · intro h'
    exact joined_eq_iff.mp (h.pairs.symm.trans h'.pairs)
  · intro hpq
    have hany : ∀ b ∈ m, (l.any fun a => p a b) = l.any fun a => q a b :=
      fun b hb => any_congr fun a ha => hpq a ha b hb
    refine ⟨h.pairs.trans (joined_eq_iff.mpr hpq), h.partnered.trans ?_, h.alone₁.trans ?_,
      h.alone₂.trans ?_⟩
    · exact List.filter_congr hany
    · refine List.filter_congr fun a ha => ?_
      have hrow : m.any (p a) = m.any (q a) := any_congr fun b hb => hpq a ha b hb
      rw [hrow]
    · exact List.filter_congr fun b hb => congrArg _ (hany b hb)

section LastPairs
variable {κ ε : Type*} [DecidableEq κ] {key : ε → κ} {value : ε → α}

/-- The elements whose key no later one has. -/
def lasting (key : ε → κ) : List ε → List ε
  | [] => []
  | e :: es => if key e ∈ es.map key then lasting key es else e :: lasting key es

theorem lasting_sublist (key : ε → κ) (es : List ε) : (lasting key es).Sublist es := by
  induction es with
  | nil => exact List.Sublist.refl _
  | cons e es ih =>
    rw [lasting]
    split
    · exact ih.cons e
    · exact ih.cons_cons e

theorem mem_of_mem_lasting {e : ε} {es : List ε} (h : e ∈ lasting key es) : e ∈ es :=
  (lasting_sublist key es).subset h

theorem lasting_map {δ : Type*} (f : δ → ε) (ds : List δ) :
    lasting key (ds.map f) = (lasting (key ∘ f) ds).map f := by
  induction ds with
  | nil => rfl
  | cons d ds ih =>
    rw [List.map_cons, lasting, lasting, ih, List.map_map, Function.comp_apply]
    split
    · rfl
    · rw [List.map_cons]

theorem lasting_of_nodup {es : List ε} (h : (es.map key).Nodup) : lasting key es = es := by
  induction es with
  | nil => rfl
  | cons e es ih =>
    obtain ⟨hnew, hrest⟩ := List.nodup_cons.mp h
    rw [lasting, if_neg hnew, ih hrest]

theorem nodup_map_lasting (key : ε → κ) (es : List ε) : ((lasting key es).map key).Nodup := by
  induction es with
  | nil => exact List.nodup_nil
  | cons e es ih =>
    rw [lasting]
    split
    next => exact ih
    next hnew =>
      refine List.nodup_cons.mpr ⟨fun hmem => hnew ?_, ih⟩
      exact ((lasting_sublist key es).map key).subset hmem

/-- Among elements in the order of a rank, those last that have none of a greater rank with their
key. -/
theorem mem_lasting_iff_of_pairwise {rank : ε → ℕ} {e : ε} {es : List ε}
    (h : es.Pairwise fun d d' => rank d < rank d') (he : e ∈ es) :
    e ∈ lasting key es ↔ ∀ d ∈ es, rank e < rank d → key d ≠ key e := by
  induction es with
  | nil => cases he
  | cons d es ih =>
    obtain ⟨hfirst, hrest⟩ := List.pairwise_cons.mp h
    rw [lasting, List.forall_mem_cons]
    rcases List.mem_cons.mp he with rfl | he
    · have hnot : e ∉ lasting key es := fun hmem =>
        Nat.lt_irrefl _ (hfirst e (mem_of_mem_lasting hmem))
      split
      next hlater =>
        obtain ⟨d, hd, hkey⟩ := List.mem_map.mp hlater
        exact iff_of_false hnot fun hall => hall.2 d hd (hfirst d hd) hkey
      next hlast =>
        refine iff_of_true List.mem_cons_self ⟨fun hlt => absurd hlt (Nat.lt_irrefl _), ?_⟩
        intro d hd _ hkey
        exact hlast (List.mem_map.mpr ⟨d, hd, hkey⟩)
    · have hlt := hfirst e he
      have hne : e ≠ d := by
        rintro rfl
        exact Nat.lt_irrefl _ hlt
      rw [and_iff_right fun hgt => absurd hgt (Nat.lt_asymm hlt), ← ih hrest he]
      split
      · exact Iff.rfl
      · rw [List.mem_cons, or_iff_right hne]

/-- Of elements that are known by their keys each is the last of its key. -/
theorem mem_lasting_iff_of_inj {e : ε} {es : List ε} (h : ∀ e ∈ es, ∀ e' ∈ es, key e = key e' → e = e') :
    e ∈ lasting key es ↔ e ∈ es := by
  refine ⟨mem_of_mem_lasting, fun hmem => ?_⟩
  induction es with
  | nil => cases hmem
  | cons e' es ih =>
    have hrest := ih fun d hd d' hd' =>
      h d (List.mem_cons_of_mem _ hd) d' (List.mem_cons_of_mem _ hd')
    rw [lasting]
    split
    next hlater =>
      rcases List.mem_cons.mp hmem with rfl | hmem
      · obtain ⟨d, hd, hkey⟩ := List.mem_map.mp hlater
        have heq : d = e := h d (List.mem_cons_of_mem _ hd) e List.mem_cons_self hkey
        exact hrest (heq ▸ hd)
      · exact hrest hmem
    next =>
      rcases List.mem_cons.mp hmem with rfl | hmem
      · exact List.mem_cons_self
      · exact List.mem_cons_of_mem _ (hrest hmem)

def fill (key : ε → κ) (value : ε → α) (table : OrderedMap κ α) (es : List ε) : OrderedMap κ α :=
  es.foldl (fun table e => table.set (key e) (value e)) table

theorem mem_entries_fill {table : OrderedMap κ α} {es : List ε} {k : κ} {a : α} :
    (k, a) ∈ (fill key value table es).entries ↔
      (∃ e ∈ lasting key es, key e = k ∧ value e = a) ∨
        k ∉ es.map key ∧ (k, a) ∈ table.entries := by
  induction es generalizing table with
  | nil => simp [fill, lasting]
  | cons e es ih =>
    have hset : (k, a) ∈ (table.set (key e) (value e)).entries ↔
        (key e = k ∧ value e = a) ∨ (key e ≠ k ∧ (k, a) ∈ table.entries) := by
      rw [← OrderedMap.get?_eq_some, OrderedMap.get?_set, ← OrderedMap.get?_eq_some]
      split <;> simp_all
    have h := @ih (table.set (key e) (value e))
    rw [fill, List.foldl_cons, ← fill, h, hset, lasting, List.map_cons, List.mem_cons, not_or]
    by_cases hk : key e = k
    · subst hk
      by_cases hlater : key e ∈ es.map key
      · simp [hlater]
      · rw [if_neg hlater, List.exists_mem_cons_iff]
        simp only [hlater, not_false_eq_true, true_and, ne_eq, not_true_eq_false, false_and,
          or_false]
        exact or_comm
    · have hother : (∃ e' ∈ if key e ∈ es.map key then lasting key es else e :: lasting key es,
          key e' = k ∧ value e' = a) ↔ ∃ e' ∈ lasting key es, key e' = k ∧ value e' = a := by
        split
        · exact Iff.rfl
        · simp [hk]
      rw [hother]
      simp [hk, Ne.symm hk]

theorem entries_fill_perm (key : ε → κ) (value : ε → α) (es : List ε) :
    (fill key value .empty es).entries.Perm ((lasting key es).map fun e => (key e, value e)) := by
  have hentries := List.Nodup.of_map _ (fill key value .empty es).nodup
  have hlasting : ((lasting key es).map fun e => (key e, value e)).Nodup := by
    refine List.Nodup.of_map Prod.fst ?_
    rw [List.map_map]
    exact nodup_map_lasting key es
  rw [List.perm_ext_iff_of_nodup hentries hlasting]
  rintro ⟨k, a⟩
  rw [mem_entries_fill, List.mem_map]
  simp [OrderedMap.empty]

/-- What holds of all entries of a table that is filled from the start. -/
theorem forall_entries_fill {es : List ε} {P : κ × α → Prop} :
    (∀ entry ∈ (fill key value .empty es).entries, P entry) ↔
      ∀ e ∈ lasting key es, P (key e, value e) := by
  constructor
  · intro h e he
    exact h _ (mem_entries_fill.mpr (.inl ⟨e, he, rfl, rfl⟩))
  · rintro h ⟨k, a⟩ hentry
    rcases mem_entries_fill.mp hentry with ⟨e, he, rfl, rfl⟩ | ⟨-, hempty⟩
    · exact h e he
    · cases hempty

end LastPairs

end N8n.KeyedJoins
