import N8n.Foundations.FoldM
import N8n.Foundations.ObjectGraph

/-!
# Deep copies

Objects are remembered with their clones before their properties are copied, arrays are not. So a
cycle through an object ends, and a cycle through arrays only does not.
-/

namespace N8n.DeepCopy

open ObjectGraph
open Relation (ReflTransGen TransGen)

universe u

/-- Calls nest as deep as the stack allows. -/
inductive Failure where
  | stackOverflow
  | noCell
  deriving DecidableEq, Repr

structure Copying (π : Type u) where
  cells : List (Cell π)
  hash : OrderedMap ℕ ℕ

section DeepCopy
variable {π : Type u} {α : Type u}

def push (v : Value π) : Cell π → Cell π
  | .array items => .array (items ++ [v])
  | cell => cell

/-- The name `__proto__` is that of an accessor, so assigning to it makes no property. -/
def assign (key : String) (v : Value π) : Cell π → Cell π
  | .object properties =>
    .object (if key = "__proto__" then properties else properties.set key v)
  | cell => cell

namespace Copying

def allocate (s : Copying π) (cell : Cell π) : Copying π := { s with cells := s.cells ++ [cell] }

def update (s : Copying π) (r : ℕ) (f : Cell π → Cell π) : Copying π :=
  { s with cells := s.cells.modify r f }

def remember (s : Copying π) (source clone : ℕ) : Copying π :=
  { s with hash := s.hash.set source clone }

end Copying

/-- A new cell gets a copy of each entry. -/
def copyInto (copy : Value π → Copying π → Except Failure (Value π × Copying π))
    (value : α → Value π) (add : α → Value π → Cell π → Cell π) (empty : Cell π)
    (entries : List α) (s : Copying π) : Except Failure (Value π × Copying π) := do
  let clone := s.cells.length
  let s ← entries.foldlM (fun s a => do
    let copied ← copy (value a) s
    return copied.2.update clone (add a copied.1)) (s.allocate empty)
  return (.ref clone, s)

def deepCopy : ℕ → Value π → Copying π → Except Failure (Value π × Copying π)
  | 0, _, _ => .error .stackOverflow
  | _ + 1, .primitive p, s => .ok (.primitive p, s)
  | stack + 1, .ref source, s =>
    match s.hash.get? source with
    | some clone => .ok (.ref clone, s)
    | none =>
      match s.cells[source]? with
      | none => .error .noCell
      | some (.array items) =>
        copyInto (deepCopy stack) id (fun _ => push) (.array []) items s
      | some (.object properties) =>
        copyInto (deepCopy stack) Prod.snd (fun entry => assign entry.1) (.object .empty)
          properties.entries (s.remember source s.cells.length)

end DeepCopy

/-! ### What a copy leaves as it is -/

section Later
variable {π : Type u} {α : Type u} {s s' t : Copying π} {v w : Value π} {r : ℕ}

/-- The cells that were there are unchanged, and what was remembered still is. -/
structure Later (s s' : Copying π) : Prop where
  cells : s.cells <+: s'.cells
  hash : ∀ r c, s.hash.get? r = some c → s'.hash.get? r = some c

theorem Later.refl (s : Copying π) : Later s s := ⟨List.prefix_rfl, fun _ _ h => h⟩

theorem Later.trans (h : Later s t) (h' : Later t s') : Later s s' :=
  ⟨h.cells.trans h'.cells, fun r c hc => h'.hash r c (h.hash r c hc)⟩

theorem prefix_modify {l l' : List α} (h : l <+: l') (hr : l.length ≤ r) (f : α → α) :
    l <+: l'.modify r f := by
  refine List.prefix_iff_getElem?.mpr fun i hi => ?_
  have hne : r ≠ i := by omega
  simp [List.prefix_iff_getElem?.mp h i hi, hne]

theorem Later.update (h : Later s t) (hr : s.cells.length ≤ r) (f : Cell π → Cell π) :
    Later s (t.update r f) := ⟨prefix_modify h.cells hr f, h.hash⟩

theorem Later.getElem? (h : Later s s') (hr : r < s.cells.length) : s'.cells[r]? = s.cells[r]? := by
  obtain ⟨more, hmore⟩ := h.cells
  rw [← hmore, List.getElem?_append_left hr]

variable {copy : Value π → Copying π → Except Failure (Value π × Copying π)} {value : α → Value π}
  {add : α → Value π → Cell π → Cell π} {empty : Cell π} {entries : List α}

/-- What holds of the new cell at first and after each copied entry holds in the end. -/
theorem copyInto_ind (I : List α → Copying π → Prop)
    (h : copyInto copy value add empty entries s = .ok (v, s')) (hempty : I [] (s.allocate empty))
    (hstep : ∀ done a t w t', done ++ [a] <+: entries → I done t → copy (value a) t = .ok (w, t') →
      I (done ++ [a]) (t'.update s.cells.length (add a w))) :
    v = .ref s.cells.length ∧ I entries s' := by
  obtain ⟨t, ht, h⟩ := FoldM.bind_eq_ok.mp h
  obtain ⟨rfl, rfl⟩ := Prod.mk.inj (Except.ok.inj h)
  refine ⟨rfl, FoldM.foldlM_prefixes I hempty (fun done a t t' hdone hI hround => ?_) ht⟩
  obtain ⟨⟨w, t''⟩, hcopy, hround⟩ := FoldM.bind_eq_ok.mp hround
  obtain rfl := Except.ok.inj hround
  exact hstep done a t w t'' hdone hI hcopy

theorem copyInto_later (hcopy : ∀ v s w s', copy v s = .ok (w, s') → Later s s')
    (h : copyInto copy value add empty entries s = .ok (v, s')) : Later s s' := by
  refine (copyInto_ind (fun _ t => Later s t) h ?_ ?_).2
  · exact ⟨List.prefix_append _ _, fun _ _ h => h⟩
  · intro done a t w t' _ hlater hround
    exact (hlater.trans (hcopy _ _ _ _ hround)).update le_rfl _

theorem later_remember (hnone : s.hash.get? r = none) (c : ℕ) : Later s (s.remember r c) := by
  refine ⟨List.prefix_rfl, fun r' c' h => ?_⟩
  have hne : r ≠ r' := by
    rintro rfl
    rw [hnone] at h
    cases h
  rw [Copying.remember, OrderedMap.get?_set_of_ne hne]
  exact h

theorem deepCopy_later {stack : ℕ} (h : deepCopy stack v s = .ok (w, s')) : Later s s' := by
  induction stack generalizing v s w s' with
  | zero => cases h
  | succ stack ih =>
    cases v with
    | primitive p =>
      obtain ⟨-, rfl⟩ := Prod.mk.inj (Except.ok.inj h)
      exact .refl s
    | ref source =>
      rw [deepCopy] at h
      cases hhash : s.hash.get? source with
      | some clone =>
        rw [hhash] at h
        obtain ⟨-, rfl⟩ := Prod.mk.inj (Except.ok.inj h)
        exact .refl s
      | none =>
        rw [hhash] at h
        cases hcell : s.cells[source]? with
        | none =>
          rw [hcell] at h
          cases h
        | some cell =>
          rw [hcell] at h
          cases cell with
          | array items => exact copyInto_later (fun _ _ _ _ => ih) h
          | object properties =>
            exact (later_remember hhash _).trans (copyInto_later (fun _ _ _ _ => ih) h)

end Later

/-! ### Cycles through arrays -/

section Settled
variable {π : Type u} {g : Graph π} {s s' : Copying π} {v w : Value π} {pending : List ℕ}

def Known (s : Copying π) (r : ℕ) : Prop := ∃ c, s.hash.get? r = some c

/-- From here on only arrays lead to objects that are known, and they do so in finitely many
steps. -/
inductive Settled (cells : List (Cell π)) (known : ℕ → Prop) : Value π → Prop
  | primitive (p : π) : Settled cells known (.primitive p)
  | object {r : ℕ} : known r → Settled cells known (.ref r)
  | array {r : ℕ} {items : List (Value π)} : cells[r]? = some (.array items) →
      (∀ v ∈ items, Settled cells known v) → Settled cells known (.ref r)

theorem Settled.mono {cells : List (Cell π)} {known known' : ℕ → Prop}
    (hknown : ∀ r, known r → known' r) (h : Settled cells known v) : Settled cells known' v := by
  induction h with
  | primitive p => exact .primitive p
  | object h => exact .object (hknown _ h)
  | array hcell _ ih => exact .array hcell ih

/-- Only objects are known, and but for those that are being copied what they have is settled. -/
structure Explored (g : Graph π) (pending : List ℕ) (s : Copying π) : Prop where
  cells : g.cells <+: s.cells
  known : ∀ r, Known s r → ∃ properties, g.cells[r]? = some (.object properties) ∧
    (r ∈ pending ∨ ∀ v ∈ properties.values, Settled g.cells (Known s) v)

theorem Later.known (h : Later s s') {r : ℕ} (hr : Known s r) : Known s' r := by
  obtain ⟨c, hc⟩ := hr
  exact ⟨c, h.hash r c hc⟩

theorem Explored.update (h : Explored g pending s) {r : ℕ} (hr : g.cells.length ≤ r)
    (f : Cell π → Cell π) : Explored g pending (s.update r f) :=
  ⟨prefix_modify h.cells hr f, h.known⟩

theorem getElem?_of_initial {cells cells' : List (Cell π)} (h : cells <+: cells') {r : ℕ}
    (hr : r < cells.length) : cells'[r]? = cells[r]? := by
  obtain ⟨more, rfl⟩ := h
  exact List.getElem?_append_left hr

/-- What a copied cell has is settled. -/
theorem copyInto_explored {α : Type u} {copy : Value π → Copying π → Except Failure (Value π × Copying π)}
    {value : α → Value π} {add : α → Value π → Cell π → Cell π} {empty : Cell π} {entries : List α}
    (hlater : ∀ v s w s', copy v s = .ok (w, s') → Later s s')
    (hcopy : ∀ a ∈ entries, ∀ s w s', copy (value a) s = .ok (w, s') → Explored g pending s →
      Explored g pending s' ∧ Settled g.cells (Known s') (value a))
    (hs : Explored g pending s) (h : copyInto copy value add empty entries s = .ok (v, s')) :
    Explored g pending s' ∧ ∀ a ∈ entries, Settled g.cells (Known s') (value a) := by
  refine (copyInto_ind (fun done t => Explored g pending t ∧
    ∀ a ∈ done, Settled g.cells (Known t) (value a)) h ?_ ?_).2
  · exact ⟨⟨hs.cells.trans (List.prefix_append _ _), hs.known⟩, fun a ha => absurd ha List.not_mem_nil⟩
  · intro done a t w t' hinitial ⟨hexplored, hdone⟩ hround
    have ha : a ∈ entries := hinitial.subset (by simp)
    obtain ⟨hexplored', hsettled⟩ := hcopy a ha t w t' hround hexplored
    refine ⟨hexplored'.update hs.cells.length_le _, fun b hb => ?_⟩
    rcases List.mem_append.mp hb with hb | hb
    · exact (hdone b hb).mono fun r => (hlater _ _ _ _ hround).known
    · obtain rfl := List.mem_singleton.mp hb
      exact hsettled

theorem known_remember {source clone r : ℕ} (h : Known (s.remember source clone) r) :
    r = source ∨ Known s r := by
  obtain ⟨c, hc⟩ := h
  rw [Copying.remember, OrderedMap.get?_set] at hc
  split_ifs at hc with heq
  · exact Or.inl heq.symm
  · exact Or.inr ⟨c, hc⟩

theorem Explored.remember {properties : OrderedMap String (Value π)} {source : ℕ}
    (hs : Explored g pending s) (hcell : g.cells[source]? = some (.object properties))
    (hlater : Later s (s.remember source s.cells.length)) :
    Explored g (source :: pending) (s.remember source s.cells.length) := by
  refine ⟨hs.cells, fun r hr => ?_⟩
  rcases known_remember hr with rfl | hr
  · exact ⟨properties, hcell, Or.inl List.mem_cons_self⟩
  · obtain ⟨properties', hcell', hcases⟩ := hs.known r hr
    refine ⟨properties', hcell', hcases.imp (List.mem_cons_of_mem source) fun hvalues v hv => ?_⟩
    exact (hvalues v hv).mono fun _ => hlater.known

/-- When the properties of an object are copied, it is pending no more. -/
theorem Explored.finish {properties : OrderedMap String (Value π)} {source : ℕ}
    (hs : Explored g (source :: pending) s) (hcell : g.cells[source]? = some (.object properties))
    (hvalues : ∀ v ∈ properties.values, Settled g.cells (Known s) v) : Explored g pending s := by
  refine ⟨hs.cells, fun r hr => ?_⟩
  obtain ⟨properties', hcell', hcases⟩ := hs.known r hr
  refine ⟨properties', hcell', ?_⟩
  rcases hcases with hpending | hvalues'
  · rcases List.mem_cons.mp hpending with rfl | hpending
    · obtain rfl : properties = properties' := by simpa [hcell] using hcell'
      exact Or.inr hvalues
    · exact Or.inl hpending
  · exact Or.inr hvalues'

theorem deepCopy_explored {stack : ℕ} (hlt : ∀ r, v = .ref r → r < g.cells.length)
    (hs : Explored g pending s) (h : deepCopy stack v s = .ok (w, s')) :
    Explored g pending s' ∧ Settled g.cells (Known s') v := by
  induction stack generalizing v s w s' pending with
  | zero => cases h
  | succ stack ih =>
    cases v with
    | primitive p =>
      obtain ⟨-, rfl⟩ := Prod.mk.inj (Except.ok.inj h)
      exact ⟨hs, .primitive p⟩
    | ref source =>
      rw [deepCopy] at h
      cases hhash : s.hash.get? source with
      | some clone =>
        rw [hhash] at h
        obtain ⟨-, rfl⟩ := Prod.mk.inj (Except.ok.inj h)
        exact ⟨hs, .object ⟨clone, hhash⟩⟩
      | none =>
        rw [hhash, getElem?_of_initial hs.cells (hlt source rfl)] at h
        cases hcell : g.cells[source]? with
        | none =>
          rw [hcell] at h
          cases h
        | some cell =>
          rw [hcell] at h
          have hvalue : ∀ v ∈ cell.values, ∀ r, v = .ref r → r < g.cells.length := by
            rintro v hv r rfl
            exact g.closed source r ⟨cell, hcell, hv⟩
          cases cell with
          | array items =>
            obtain ⟨hexplored, hitems⟩ := copyInto_explored (fun _ _ _ _ => deepCopy_later)
              (fun v hv s w s' hok hs => ih (hvalue v hv) hs hok) hs h
            exact ⟨hexplored, .array hcell hitems⟩
          | object properties =>
            have hlater := later_remember hhash s.cells.length
            obtain ⟨hexplored, hvalues⟩ := copyInto_explored (fun _ _ _ _ => deepCopy_later)
              (fun (e : String × Value π) he s w s' hok hs =>
                ih (hvalue e.2 (List.mem_map_of_mem he)) hs hok) (hs.remember hcell hlater) h
            have hproperties : ∀ v ∈ properties.values, Settled g.cells (Known s') v := by
              intro v hv
              obtain ⟨e, he, rfl⟩ := List.mem_map.mp hv
              exact hvalues e he
            refine ⟨hexplored.finish hcell hproperties, .object ?_⟩
            have hlater' := copyInto_later (fun _ _ _ _ => deepCopy_later) h
            exact ⟨_, hlater'.hash source _ (OrderedMap.get?_set_self _ _ _)⟩

/-- One array has the other one as an item. -/
def HasArray (cells : List (Cell π)) (a b : ℕ) : Prop :=
  Contains cells a b ∧ (∃ items, cells[a]? = some (.array items)) ∧
    ∃ items, cells[b]? = some (.array items)

/-- No array that the value leads to leads back to itself through arrays only. -/
def ObjectsInCycles (cells : List (Cell π)) (v : Value π) : Prop :=
  ∀ r, Leads cells v r → ¬ TransGen (HasArray cells) r r

theorem Settled.acc {known : ℕ → Prop} (h : Settled g.cells known v)
    (hknown : ∀ r, known r → ∃ properties, g.cells[r]? = some (.object properties)) {r : ℕ}
    (hr : v = .ref r) : Acc (fun b a => HasArray g.cells a b) r := by
  induction h generalizing r with
  | primitive p => cases hr
  | object h =>
    obtain rfl := Value.ref.inj hr
    obtain ⟨properties, hcell⟩ := hknown _ h
    refine .intro _ fun b ⟨_, ⟨items, hitems⟩, _⟩ => ?_
    simp [hcell] at hitems
  | array hcell _ ih =>
    obtain rfl := Value.ref.inj hr
    refine .intro _ fun b ⟨⟨cell, hcell', hb⟩, _⟩ => ?_
    obtain rfl := Option.some.inj (hcell.symm.trans hcell')
    exact ih _ hb rfl

/-- A copy that ends has found no cycle through arrays only. -/
theorem objectsInCycles_of_deepCopy {stack : ℕ}
    (h : deepCopy stack g.root ⟨g.cells, .empty⟩ = .ok (w, s')) :
    ObjectsInCycles g.cells g.root := by
  have hempty : Explored g [] ⟨g.cells, .empty⟩ := by
    refine ⟨List.prefix_rfl, fun r ⟨c, hc⟩ => ?_⟩
    cases hc
  obtain ⟨hexplored, hroot⟩ := deepCopy_explored g.root_lt hempty h
  have hobject : ∀ r, Known s' r → ∃ properties, g.cells[r]? = some (.object properties) :=
    fun r hr => (hexplored.known r hr).imp fun _ h => h.1
  have hall : ∀ r, Leads g.cells g.root r → Settled g.cells (Known s') (.ref r) := by
    rintro r ⟨a, ha, hr⟩
    induction hr with
    | refl => exact ha ▸ hroot
    | tail hab hbc ih =>
      obtain ⟨cell, hcell, hmem⟩ := hbc
      cases ih with
      | object hknown =>
        obtain ⟨properties, hcell', hcases⟩ := hexplored.known _ hknown
        obtain rfl := Option.some.inj (hcell.symm.trans hcell')
        exact hcases.resolve_left List.not_mem_nil _ hmem
      | array hcell' hitems =>
        obtain rfl := Option.some.inj (hcell.symm.trans hcell')
        exact hitems _ hmem
  exact fun r hr => not_transGen_of_acc ((hall r hr).acc hobject rfl)

end Settled

/-! ### Copies end -/

section Ends
variable {π : Type u} {g : Graph π} {s s' : Copying π} {v w : Value π} {stack stack' k : ℕ}

theorem copyInto_mono {α : Type u}
    {copy copy' : Value π → Copying π → Except Failure (Value π × Copying π)}
    {value : α → Value π} {add : α → Value π → Cell π → Cell π} {empty : Cell π} {entries : List α}
    (hcopy : ∀ v s r, copy v s = .ok r → copy' v s = .ok r)
    (h : copyInto copy value add empty entries s = .ok (v, s')) :
    copyInto copy' value add empty entries s = .ok (v, s') := by
  obtain ⟨t, ht, h⟩ := FoldM.bind_eq_ok.mp h
  refine FoldM.bind_eq_ok.mpr ⟨t, FoldM.foldlM_mono (fun t a t' _ hround => ?_) ht, h⟩
  obtain ⟨r, hr, hround⟩ := FoldM.bind_eq_ok.mp hround
  exact FoldM.bind_eq_ok.mpr ⟨r, hcopy _ _ _ hr, hround⟩

theorem deepCopy_mono {r : Value π × Copying π} (h : deepCopy stack v s = .ok r)
    (hle : stack ≤ stack') : deepCopy stack' v s = .ok r := by
  induction stack generalizing v s r stack' with
  | zero => cases h
  | succ stack ih =>
    obtain ⟨stack', rfl⟩ : ∃ n, stack' = n + 1 := ⟨stack' - 1, by omega⟩
    have hcopy : ∀ v s r, deepCopy stack v s = .ok r → deepCopy (π := π) stack' v s = .ok r :=
      fun v s r hr => ih hr (Nat.le_of_succ_le_succ hle)
    cases v with
    | primitive p => exact h
    | ref source =>
      rw [deepCopy] at h ⊢
      cases hhash : s.hash.get? source with
      | some clone =>
        rw [hhash] at h
        exact h
      | none =>
        rw [hhash] at h
        cases hcell : s.cells[source]? with
        | none =>
          rw [hcell] at h
          cases h
        | some cell =>
          rw [hcell] at h
          cases cell with
          | array items => exact copyInto_mono hcopy h
          | object properties => exact copyInto_mono hcopy h

/-- Copies of single entries that end make up a copy that ends. -/
theorem exists_copyInto {α : Type u} {value : α → Value π} {add : α → Value π → Cell π → Cell π}
    {empty : Cell π} {entries : List α} (P : Copying π → Prop) (hs : P (s.allocate empty))
    (hlater : ∀ t t', P t → Later t t' → P t')
    (hupdate : ∀ t f, P t → P (t.update s.cells.length f))
    (hcopy : ∀ a ∈ entries, ∀ t, P t → ∃ stack r, deepCopy stack (value a) t = .ok r) :
    ∃ stack r, copyInto (deepCopy stack) value add empty entries s = .ok r := by
  have hall : ∀ (rest : List α) (t : Copying π), P t →
      (∀ a ∈ rest, ∀ t, P t → ∃ stack r, deepCopy stack (value a) t = .ok r) →
      ∃ stack t', rest.foldlM (fun t a => do
        let copied ← deepCopy stack (value a) t
        return copied.2.update s.cells.length (add a copied.1)) t = .ok t' := by
    intro rest
    induction rest with
    | nil => exact fun t _ _ => ⟨0, t, rfl⟩
    | cons a rest ih =>
      intro t ht hrest
      obtain ⟨n, r, hr⟩ := hrest a List.mem_cons_self t ht
      have hP := hupdate _ (add a r.1) (hlater _ _ ht (deepCopy_later hr))
      obtain ⟨m, t', hm⟩ := ih _ hP fun b hb => hrest b (List.mem_cons_of_mem a hb)
      refine ⟨max n m, t', ?_⟩
      rw [List.foldlM_cons, deepCopy_mono hr (le_max_left n m)]
      refine FoldM.foldlM_mono (fun t b t' _ hround => ?_) hm
      obtain ⟨r', hr', hround⟩ := FoldM.bind_eq_ok.mp hround
      exact FoldM.bind_eq_ok.mpr ⟨r', deepCopy_mono hr' (le_max_right n m), hround⟩
  obtain ⟨n, t, ht⟩ := hall entries _ hs hcopy
  exact ⟨n, _, FoldM.bind_eq_ok.mpr ⟨t, ht, rfl⟩⟩

/-- At most so many cells of the graph are not known yet. -/
structure Left (g : Graph π) (k : ℕ) (s : Copying π) : Prop where
  cells : g.cells <+: s.cells
  card : ((Finset.range g.cells.length).filter fun r => s.hash.get? r = none).card ≤ k

theorem Left.later (h : Left g k s) (hlater : Later s s') : Left g k s' := by
  refine ⟨h.cells.trans hlater.cells, (Finset.card_le_card fun r hr => ?_).trans h.card⟩
  rw [Finset.mem_filter] at hr ⊢
  refine ⟨hr.1, ?_⟩
  cases hhash : s.hash.get? r with
  | none => rfl
  | some c => exact (hlater.hash r c hhash).symm.trans hr.2

theorem Left.remember {source : ℕ} (h : Left g (k + 1) s) (hsource : source < g.cells.length)
    (hnone : s.hash.get? source = none) (clone : ℕ) : Left g k (s.remember source clone) := by
  refine ⟨h.cells, Nat.le_of_lt_succ (Nat.lt_of_lt_of_le (Finset.card_lt_card ?_) h.card)⟩
  rw [Finset.ssubset_iff_of_subset]
  · refine ⟨source, by simp [hsource, hnone], ?_⟩
    simp [Copying.remember, OrderedMap.get?_set]
  · intro r hr
    rw [Finset.mem_filter] at hr ⊢
    have hlater := later_remember hnone clone
    refine ⟨hr.1, ?_⟩
    cases hhash : s.hash.get? r with
    | none => rfl
    | some c => exact (hlater.hash r c hhash).symm.trans hr.2

theorem ObjectsInCycles.of_mem {cells : List (Cell π)} {r : ℕ} {cell : Cell π}
    (h : ObjectsInCycles cells (.ref r)) (hcell : cells[r]? = some cell) (hv : v ∈ cell.values) :
    ObjectsInCycles cells v := fun a ha => h a ⟨r, rfl, (ha.of_mem hcell hv).to_reflTransGen⟩

theorem ObjectsInCycles.acc {r : ℕ} (h : ObjectsInCycles g.cells (.ref r)) :
    Acc (fun b a => HasArray g.cells a b) r := by
  refine ObjectGraph.acc_of_acyclic (fun a b hab => g.closed a b hab.1) fun b hb => h b ⟨r, rfl, ?_⟩
  have hle : HasArray g.cells ≤ Contains g.cells := fun _ _ hab => hab.1
  exact ReflTransGen.mono hle _ _ hb

theorem Left.update (h : Left g k s) {r : ℕ} (hr : g.cells.length ≤ r) (f : Cell π → Cell π) :
    Left g k (s.update r f) := ⟨prefix_modify h.cells hr f, h.card⟩

theorem Left.allocate (h : Left g k s) (cell : Cell π) : Left g k (s.allocate cell) :=
  ⟨h.cells.trans (List.prefix_append _ _), h.card⟩

theorem exists_copyInto_of_left {α : Type u} {value : α → Value π}
    {add : α → Value π → Cell π → Cell π} {empty : Cell π} {entries : List α} (hs : Left g k s)
    (hcopy : ∀ a ∈ entries, ∀ t, Left g k t → ∃ stack r, deepCopy stack (value a) t = .ok r) :
    ∃ stack r, copyInto (deepCopy stack) value add empty entries s = .ok r :=
  exists_copyInto (Left g k) (hs.allocate empty) (fun _ _ => Left.later)
    (fun _ f h => h.update hs.cells.length_le f) hcopy

/-- An object that is not known is so when its properties are copied. -/
theorem exists_deepCopy_object {source : ℕ} {properties : OrderedMap String (Value π)}
    (hcell : g.cells[source]? = some (.object properties)) (hs : Left g k s)
    (hvalues : ∀ j, k = j + 1 → ∀ v ∈ properties.values, ∀ t, Left g j t →
      ∃ stack r, deepCopy stack v t = .ok r) :
    ∃ stack r, deepCopy stack (.ref source) s = .ok r := by
  obtain ⟨hlt, -⟩ := List.getElem?_eq_some_iff.mp hcell
  have hcell' := (getElem?_of_initial hs.cells hlt).trans hcell
  cases hhash : s.hash.get? source with
  | some clone => exact ⟨1, _, by rw [deepCopy, hhash]⟩
  | none =>
    cases k with
    | zero =>
      have hmem : source ∈ (Finset.range g.cells.length).filter fun r => s.hash.get? r = none := by
        simp [hlt, hhash]
      have hempty := Finset.card_eq_zero.mp (Nat.le_zero.mp hs.card)
      rw [hempty] at hmem
      cases hmem
    | succ j =>
      obtain ⟨stack, r, hr⟩ : ∃ stack r, copyInto (deepCopy stack) Prod.snd
          (fun entry => assign entry.1) (.object .empty) properties.entries
          (s.remember source s.cells.length) = .ok r :=
        exists_copyInto_of_left (hs.remember hlt hhash _) fun e he =>
          hvalues j rfl e.2 (List.mem_map_of_mem he)
      refine ⟨stack + 1, r, ?_⟩
      rw [deepCopy, hhash, hcell']
      exact hr

/-- Between objects there are finitely many arrays. -/
theorem exists_deepCopy_of_objects
    (hobject : ∀ source properties t, g.cells[source]? = some (.object properties) →
      ObjectsInCycles g.cells (.ref source) → Left g k t →
      ∃ stack r, deepCopy stack (.ref source) t = .ok r)
    (hlt : ∀ r, v = .ref r → r < g.cells.length) (hcycles : ObjectsInCycles g.cells v)
    (hs : Left g k s) : ∃ stack r, deepCopy stack v s = .ok r := by
  cases v with
  | primitive p => exact ⟨1, _, rfl⟩
  | ref source =>
    have hacc := hcycles.acc
    have hsource := hlt source rfl
    clear hlt
    induction hacc generalizing s with
    | intro source _ ih =>
      cases hcell : g.cells[source]? with
      | none => exact absurd (List.getElem?_eq_none_iff.mp hcell) (by omega)
      | some cell =>
        cases cell with
        | object properties => exact hobject source properties s hcell hcycles hs
        | array items =>
          have hcell' := (getElem?_of_initial hs.cells hsource).trans hcell
          obtain ⟨stack, r, hr⟩ : ∃ stack r, copyInto (deepCopy stack) id (fun _ => push)
              (.array []) items s = .ok r := by
            refine exists_copyInto_of_left hs fun v hv t ht => ?_
            cases v with
            | primitive p => exact ⟨1, _, rfl⟩
            | ref b =>
              have hcontains : Contains g.cells source b := ⟨_, hcell, hv⟩
              have hcycles' := hcycles.of_mem hcell hv
              cases hb : g.cells[b]? with
              | none => exact absurd (g.closed source b hcontains) (by simpa using hb)
              | some cell =>
                cases cell with
                | object properties => exact hobject b properties t hb hcycles' ht
                | array items' =>
                  exact ih b ⟨hcontains, ⟨items, hcell⟩, items', hb⟩ ht hcycles'
                    (g.closed source b hcontains)
          cases hhash : s.hash.get? source with
          | some clone => exact ⟨1, _, by rw [deepCopy, hhash]⟩
          | none =>
            refine ⟨stack + 1, r, ?_⟩
            rw [deepCopy, hhash, hcell']
            exact hr

/-- Every copy ends where cycles pass through objects: fewer and fewer objects are not known. -/
theorem exists_deepCopy (hlt : ∀ r, v = .ref r → r < g.cells.length)
    (hcycles : ObjectsInCycles g.cells v) (hs : Left g k s) :
    ∃ stack r, deepCopy stack v s = .ok r := by
  induction k generalizing v s with
  | zero =>
    refine exists_deepCopy_of_objects (fun source properties t hcell _ ht => ?_) hlt hcycles hs
    exact exists_deepCopy_object hcell ht nofun
  | succ k ih =>
    refine exists_deepCopy_of_objects (fun source properties t hcell hcycles' ht => ?_) hlt hcycles hs
    refine exists_deepCopy_object hcell ht fun j hj v hv t' ht' => ?_
    obtain rfl := Nat.succ.inj hj
    refine ih ?_ (hcycles'.of_mem hcell hv) ht'
    rintro r rfl
    exact g.closed source r ⟨_, hcell, hv⟩

end Ends

end N8n.DeepCopy
