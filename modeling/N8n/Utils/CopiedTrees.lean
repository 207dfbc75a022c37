import N8n.Utils.DeepCopy

/-!
# Copies of graphs without cycles

Without cycles no object is met while it is being copied, so every clone has the tree of its source
when it is used. Only properties that cannot be assigned are lost.
-/

namespace N8n.DeepCopy

open ObjectGraph
open Relation (ReflTransGen TransGen)

universe u

section Trees
variable {π : Type u} {α : Type u} {g : Graph π} {s s' : Copying π} {v w : Value π}
  {opened pending : List ℕ} {t : ObjectGraph.Tree π}

def isProperty (key : String) : Bool := key ≠ "__proto__"

/-- What is found in a cell, when its copy is finished. -/
def finished (opened : List ℕ) (cells : List (Cell π)) (r : ℕ) : Option (Cell π) :=
  if r ∈ opened then none else cells[r]?

/-- The tree without the properties that a copy loses. -/
def SourceTree (g : Graph π) (v : Value π) (t : ObjectGraph.Tree π) : Prop :=
  KeptTree (g.cells[·]?) isProperty v t

def CloneTree (opened : List ℕ) (s : Copying π) (v : Value π) (t : ObjectGraph.Tree π) : Prop :=
  KeptTree (finished opened s.cells) (fun _ => true) v t

/-- A value and its clone unfold to the same tree. -/
def HasClone (g : Graph π) (opened : List ℕ) (s : Copying π) (v w : Value π) : Prop :=
  ∃ t, SourceTree g v t ∧ CloneTree opened s w t

theorem HasClone.later (h : HasClone g opened s v w) (hlater : Later s s') :
    HasClone g opened s' v w := by
  obtain ⟨t, ht, hclone⟩ := h
  refine ⟨t, ht, hclone.mono fun r cell hcell => ?_⟩
  rw [finished] at hcell ⊢
  split_ifs at hcell ⊢ with hmem
  obtain ⟨hlt, -⟩ := List.getElem?_eq_some_iff.mp hcell
  rw [hlater.getElem? hlt]
  exact hcell

theorem HasClone.update (h : HasClone g opened s v w) {r : ℕ} (hr : r ∈ opened)
    (f : Cell π → Cell π) : HasClone g opened (s.update r f) v w := by
  obtain ⟨t, ht, hclone⟩ := h
  refine ⟨t, ht, hclone.mono fun r' cell hcell => ?_⟩
  rw [finished] at hcell ⊢
  split_ifs at hcell ⊢ with hmem
  have hne : r ≠ r' := fun heq => hmem (heq ▸ hr)
  simp only [Copying.update, List.getElem?_modify, hcell, if_neg hne]
  rfl

theorem HasClone.allocate (h : HasClone g opened s v w) (cell : Cell π) :
    HasClone g (s.cells.length :: opened) (s.allocate cell) v w := by
  obtain ⟨t, ht, hclone⟩ := h
  refine ⟨t, ht, hclone.mono fun r cell' hcell => ?_⟩
  rw [finished] at hcell ⊢
  split_ifs at hcell with hmem
  obtain ⟨hlt, -⟩ := List.getElem?_eq_some_iff.mp hcell
  rw [if_neg (List.not_mem_cons_of_ne_of_not_mem (Nat.ne_of_lt hlt) hmem), Copying.allocate]
  simp only [List.getElem?_append_left hlt]
  exact hcell

theorem finished_close {r r' : ℕ} {cells : List (Cell π)} {cell : Cell π}
    (h : finished (r :: opened) cells r' = some cell) : finished opened cells r' = some cell := by
  rw [finished] at h ⊢
  split_ifs at h with hmem
  rw [if_neg fun h => hmem (List.mem_cons_of_mem r h)]
  exact h

theorem HasClone.close {r : ℕ} (h : HasClone g (r :: opened) s v w) : HasClone g opened s v w := by
  obtain ⟨t, ht, hclone⟩ := h
  exact ⟨t, ht, hclone.mono fun _ _ => finished_close⟩

/-- But for those that are being copied, known objects have clones with their trees. -/
structure Mirrored (g : Graph π) (opened pending : List ℕ) (s : Copying π) : Prop where
  cells : g.cells <+: s.cells
  opened_lt : ∀ c ∈ opened, c < s.cells.length
  known : ∀ r c, s.hash.get? r = some c → r ∈ pending ∨ HasClone g opened s (.ref r) (.ref c)

/-- What a new cell gets, one entry after another. -/
def filled (add : α → Value π → Cell π → Cell π) (empty : Cell π) (entries : List α)
    (copies : List (Value π)) : Cell π :=
  (entries.zip copies).foldl (fun cell e => add e.1 e.2 cell) empty

theorem filled_concat {add : α → Value π → Cell π → Cell π} {empty : Cell π} {entries : List α}
    {copies : List (Value π)} (hlength : entries.length = copies.length) (a : α) (w : Value π) :
    filled add empty (entries ++ [a]) (copies ++ [w]) = add a w (filled add empty entries copies) := by
  rw [filled, List.zip_append hlength, List.foldl_append]
  rfl

theorem Mirrored.allocate (h : Mirrored g opened pending s) (cell : Cell π) :
    Mirrored g (s.cells.length :: opened) pending (s.allocate cell) := by
  refine ⟨h.cells.trans (List.prefix_append _ _), fun c hc => ?_, fun r c hrc => ?_⟩
  · rw [Copying.allocate, List.length_append]
    rcases List.mem_cons.mp hc with rfl | hc
    · exact Nat.lt_succ_self _
    · exact Nat.lt_succ_of_lt (h.opened_lt c hc)
  · exact (h.known r c hrc).imp_right fun hclone => hclone.allocate cell

theorem Mirrored.update (h : Mirrored g opened pending s) {r : ℕ} (hr : r ∈ opened)
    (hlt : g.cells.length ≤ r) (f : Cell π → Cell π) : Mirrored g opened pending (s.update r f) := by
  refine ⟨prefix_modify h.cells hlt f, fun c hc => ?_, fun r' c hrc => ?_⟩
  · rw [Copying.update, List.length_modify]
    exact h.opened_lt c hc
  · exact (h.known r' c hrc).imp_right fun hclone => hclone.update hr f

theorem Mirrored.close {r : ℕ} (h : Mirrored g (r :: opened) pending s) :
    Mirrored g opened pending s :=
  ⟨h.cells, fun c hc => h.opened_lt c (List.mem_cons_of_mem r hc), fun r' c hrc =>
    (h.known r' c hrc).imp_right HasClone.close⟩

/-- The new cell has a copy of each entry, with its tree. -/
theorem copyInto_mirrored {copy : Value π → Copying π → Except Failure (Value π × Copying π)}
    {value : α → Value π} {add : α → Value π → Cell π → Cell π} {empty : Cell π} {entries : List α}
    (hlater : ∀ v s w s', copy v s = .ok (w, s') → Later s s')
    (hcopy : ∀ a ∈ entries, ∀ t w t', copy (value a) t = .ok (w, t') →
      Mirrored g (s.cells.length :: opened) pending t →
      Mirrored g (s.cells.length :: opened) pending t' ∧
        HasClone g (s.cells.length :: opened) t' (value a) w)
    (hs : Mirrored g opened pending s) (h : copyInto copy value add empty entries s = .ok (v, s')) :
    v = .ref s.cells.length ∧ Mirrored g (s.cells.length :: opened) pending s' ∧ ∃ copies,
      List.Forall₂ (fun a w => HasClone g (s.cells.length :: opened) s' (value a) w) entries copies ∧
      s'.cells[s.cells.length]? = some (filled add empty entries copies) := by
  refine copyInto_ind (fun done t => Mirrored g (s.cells.length :: opened) pending t ∧ ∃ copies,
    List.Forall₂ (fun a w => HasClone g (s.cells.length :: opened) t (value a) w) done copies ∧
    t.cells[s.cells.length]? = some (filled add empty done copies)) h ?_ ?_
  · exact ⟨hs.allocate empty, [], .nil, by simp [Copying.allocate, filled]⟩
  · rintro done a t w t' hinitial ⟨hmirrored, copies, hcopies, hcell⟩ hround
    obtain ⟨hmirrored', hclone⟩ := hcopy a (hinitial.subset (by simp)) t w t' hround hmirrored
    have hlater' := hlater _ _ _ _ hround
    have hopen : s.cells.length ∈ s.cells.length :: opened := List.mem_cons_self
    refine ⟨hmirrored'.update hopen hs.cells.length_le _, copies ++ [w], ?_, ?_⟩
    · have hold : List.Forall₂ (fun a' w' => HasClone g (s.cells.length :: opened)
          (t'.update s.cells.length (add a w)) (value a') w') done copies :=
        hcopies.imp fun _ _ hclone' => (hclone'.later hlater').update hopen _
      exact List.rel_append hold (.cons (hclone.update hopen _) .nil)
    · have hlt := hmirrored.opened_lt _ hopen
      have hcell' := (hlater'.getElem? hlt).trans hcell
      simp [filled_concat hcopies.length_eq, Copying.update, hcell']

theorem foldl_push {items copies : List (Value π)} (hlength : items.length = copies.length)
    (start : List (Value π)) :
    (items.zip copies).foldl (fun cell e => push e.2 cell) (.array start) =
      .array (start ++ copies) := by
  induction items generalizing copies start with
  | nil =>
    obtain rfl := List.length_eq_zero_iff.mp hlength.symm
    simp
  | cons item items ih =>
    cases copies with
    | nil => cases hlength
    | cons copy copies =>
      rw [List.zip_cons_cons, List.foldl_cons, push, ih (Nat.succ.inj hlength), List.append_assoc]
      rfl

theorem foldl_assign {entries : List (String × Value π)} {copies : List (Value π)}
    (hlength : entries.length = copies.length) (start : OrderedMap String (Value π))
    (hnodup : (start.keys ++ entries.map Prod.fst).Nodup) :
    ∃ properties, (entries.zip copies).foldl (fun cell e => assign e.1.1 e.2 cell) (.object start) =
        .object properties ∧ properties.entries = start.entries ++
      ((entries.zip copies).filter fun e => isProperty e.1.1).map fun e => (e.1.1, e.2) := by
  induction entries generalizing copies start with
  | nil => exact ⟨start, rfl, by simp⟩
  | cons entry entries ih =>
    cases copies with
    | nil => cases hlength
    | cons copy copies =>
      rw [List.zip_cons_cons, List.foldl_cons, assign]
      rw [List.map_cons] at hnodup
      by_cases hkey : entry.1 = "__proto__"
      · rw [if_pos hkey, List.filter_cons_of_neg (by simp [isProperty, hkey])]
        have hsub : (start.keys ++ entries.map Prod.fst).Sublist
            (start.keys ++ entry.1 :: entries.map Prod.fst) :=
          (List.sublist_cons_self _ _).append_left _
        exact ih (Nat.succ.inj hlength) start (hnodup.sublist hsub)
      · have hfresh : entry.1 ∉ start.keys := by
          intro hmem
          exact (List.disjoint_of_nodup_append hnodup) hmem List.mem_cons_self
        have hset : (start.set entry.1 copy).entries = start.entries ++ [(entry.1, copy)] :=
          OrderedMap.setEntry_of_notMem hfresh
        have hkeys : (start.set entry.1 copy).keys = start.keys ++ [entry.1] := by
          rw [OrderedMap.keys, hset, List.map_append]
          rfl
        rw [if_neg hkey, List.filter_cons_of_pos (by simp [isProperty, hkey])]
        obtain ⟨properties, hfold, hentries⟩ := ih (Nat.succ.inj hlength) (start.set entry.1 copy)
          (by rw [hkeys, List.append_assoc]; exact hnodup)
        exact ⟨properties, hfold, by rw [hentries, hset, List.append_assoc]; rfl⟩

theorem exists_trees {β : Type*} {P : α → ObjectGraph.Tree π → Prop}
    {Q : β → ObjectGraph.Tree π → Prop} {l : List α} {l' : List β}
    (h : List.Forall₂ (fun a b => ∃ t, P a t ∧ Q b t) l l') :
    ∃ ts, List.Forall₂ P l ts ∧ List.Forall₂ Q l' ts := by
  induction h with
  | nil => exact ⟨[], .nil, .nil⟩
  | cons hab _ ih =>
    obtain ⟨t, ha, hb⟩ := hab
    obtain ⟨ts, hl, hl'⟩ := ih
    exact ⟨t :: ts, .cons ha hl, .cons hb hl'⟩

theorem exists_properties {P Q : Value π → ObjectGraph.Tree π → Prop}
    {entries : List (String × Value π)} {copies : List (Value π)}
    (h : List.Forall₂ (fun e w => ∃ t, P e.2 t ∧ Q w t) entries copies) :
    ∃ es : List (String × ObjectGraph.Tree π),
      List.Forall₂ (fun e e' => e.1 = e'.1 ∧ P e.2 e'.2) (entries.filter fun e => isProperty e.1) es ∧
      List.Forall₂ (fun e e' => e.1 = e'.1 ∧ Q e.2 e'.2)
        (((entries.zip copies).filter fun e => isProperty e.1.1).map fun e => (e.1.1, e.2)) es := by
  induction h with
  | nil => exact ⟨[], .nil, .nil⟩
  | @cons entry copy entries copies hab _ ih =>
    obtain ⟨t, ha, hb⟩ := hab
    obtain ⟨es, hl, hl'⟩ := ih
    cases hkey : isProperty entry.1 with
    | false =>
      refine ⟨es, ?_, ?_⟩
      · rwa [List.filter_cons_of_neg (by simp [hkey])]
      · rwa [List.zip_cons_cons, List.filter_cons_of_neg (by simp [hkey])]
    | true =>
      refine ⟨(entry.1, t) :: es, ?_, ?_⟩
      · rw [List.filter_cons_of_pos (by simp [hkey])]
        exact .cons ⟨rfl, ha⟩ hl
      · rw [List.zip_cons_cons, List.filter_cons_of_pos (by simp [hkey]), List.map_cons]
        exact .cons ⟨rfl, hb⟩ hl'

theorem hasClone_array {items copies : List (Value π)} {r c : ℕ}
    (hcell : g.cells[r]? = some (.array items))
    (hcopies : List.Forall₂ (HasClone g opened s) items copies)
    (hclone : finished opened s.cells c = some (.array copies)) :
    HasClone g opened s (.ref r) (.ref c) := by
  obtain ⟨ts, hitems, hts⟩ := exists_trees hcopies
  exact ⟨.array ts, (keptTree_array hcell).mpr ⟨ts, rfl, hitems⟩,
    (keptTree_array hclone).mpr ⟨ts, rfl, hts⟩⟩

theorem hasClone_object {properties properties' : OrderedMap String (Value π)}
    {copies : List (Value π)} {r c : ℕ} (hcell : g.cells[r]? = some (.object properties))
    (hcopies : List.Forall₂ (fun e w => HasClone g opened s e.2 w) properties.entries copies)
    (hclone : finished opened s.cells c = some (.object properties'))
    (hentries : properties'.entries = ((properties.entries.zip copies).filter
      fun e => isProperty e.1.1).map fun e => (e.1.1, e.2)) :
    HasClone g opened s (.ref r) (.ref c) := by
  obtain ⟨es, hsource, hes⟩ := exists_properties hcopies
  refine ⟨.object es, (keptTree_object hcell).mpr ⟨es, rfl, hsource⟩,
    (keptTree_object hclone).mpr ⟨es, rfl, ?_⟩⟩
  rw [List.filter_true, hentries]
  exact hes

theorem Mirrored.remember (hs : Mirrored g opened pending s) {source : ℕ} :
    Mirrored g opened (source :: pending) (s.remember source s.cells.length) := by
  refine ⟨hs.cells, hs.opened_lt, fun r c hrc => ?_⟩
  rw [Copying.remember, OrderedMap.get?_set] at hrc
  split_ifs at hrc with heq
  · exact Or.inl (heq ▸ List.mem_cons_self)
  · exact (hs.known r c hrc).imp_left (List.mem_cons_of_mem source)

/-- When an object has its clone, it is pending no more. -/
theorem Mirrored.finish {source clone : ℕ} (hs : Mirrored g opened (source :: pending) s)
    (hclone : s.hash.get? source = some clone)
    (h : HasClone g opened s (.ref source) (.ref clone)) : Mirrored g opened pending s := by
  refine ⟨hs.cells, hs.opened_lt, fun r c hrc => ?_⟩
  rcases hs.known r c hrc with hpending | hdone
  · rcases List.mem_cons.mp hpending with rfl | hpending
    · obtain rfl := Option.some.inj (hclone.symm.trans hrc)
      exact Or.inr h
    · exact Or.inl hpending
  · exact Or.inr hdone

/-- Without cycles no object is met while it is being copied. -/
theorem deepCopy_mirrored {stack : ℕ} (hlt : ∀ r, v = .ref r → r < g.cells.length)
    (hacyclic : Acyclic g.cells v) (hpending : ∀ r ∈ pending, ¬ Leads g.cells v r)
    (hs : Mirrored g opened pending s) (h : deepCopy stack v s = .ok (w, s')) :
    Mirrored g opened pending s' ∧ HasClone g opened s' v w := by
  induction stack generalizing v s w s' opened pending with
  | zero => cases h
  | succ stack ih =>
    cases v with
    | primitive p =>
      obtain ⟨rfl, rfl⟩ := Prod.mk.inj (Except.ok.inj h)
      exact ⟨hs, .leaf p, keptTree_primitive p, keptTree_primitive p⟩
    | ref source =>
      rw [deepCopy] at h
      cases hhash : s.hash.get? source with
      | some clone =>
        rw [hhash] at h
        obtain ⟨rfl, rfl⟩ := Prod.mk.inj (Except.ok.inj h)
        exact ⟨hs, (hs.known source clone hhash).resolve_left fun hmem =>
          hpending source hmem (leads_ref _ _)⟩
      | none =>
        rw [hhash, getElem?_of_initial hs.cells (hlt source rfl)] at h
        cases hcell : g.cells[source]? with
        | none =>
          rw [hcell] at h
          cases h
        | some cell =>
          rw [hcell] at h
          have hnotOpened : s.cells.length ∉ opened := fun hmem =>
            lt_irrefl _ (hs.opened_lt _ hmem)
          have hvalue : ∀ v ∈ cell.values, ∀ r, v = .ref r → r < g.cells.length := by
            rintro v hv r rfl
            exact g.closed source r ⟨cell, hcell, hv⟩
          have hpending' : ∀ v ∈ cell.values, ∀ r ∈ source :: pending, ¬ Leads g.cells v r := by
            intro v hv r hr hleads
            have hcycle := hleads.of_mem hcell hv
            rcases List.mem_cons.mp hr with rfl | hr
            · exact hacyclic r (leads_ref _ _) hcycle
            · exact hpending r hr ⟨source, rfl, hcycle.to_reflTransGen⟩
          cases cell with
          | array items =>
            obtain ⟨rfl, hmirrored, copies, hcopies, hclone⟩ := copyInto_mirrored
              (fun _ _ _ _ => deepCopy_later) (fun v hv t w t' hok ht => ih (hvalue v hv)
                (hacyclic.of_mem hcell hv) (fun r hr => hpending' v hv r (List.mem_cons_of_mem _ hr))
                ht hok) hs h
            refine ⟨hmirrored.close, hasClone_array hcell (hcopies.imp fun _ _ => HasClone.close) ?_⟩
            rw [finished, if_neg hnotOpened, hclone]
            exact congrArg some (foldl_push hcopies.length_eq [])
          | object properties =>
            obtain ⟨rfl, hmirrored, copies, hcopies, hclone⟩ := copyInto_mirrored
              (fun _ _ _ _ => deepCopy_later) (fun (e : String × Value π) he t w t' hok ht =>
                ih (hvalue e.2 (List.mem_map_of_mem he))
                  (hacyclic.of_mem hcell (List.mem_map_of_mem he))
                  (hpending' e.2 (List.mem_map_of_mem he)) ht hok) hs.remember h
            have hlater := copyInto_later (fun _ _ _ _ => deepCopy_later) h
            have hhash' := hlater.hash source _ (OrderedMap.get?_set_self _ _ _)
            obtain ⟨properties', hfold, hentries⟩ := foldl_assign hcopies.length_eq
              (OrderedMap.empty : OrderedMap String (Value π)) properties.nodup
            have hdone : HasClone g opened s' (.ref source) (.ref s.cells.length) := by
              refine hasClone_object hcell (hcopies.imp fun _ _ => HasClone.close) ?_ hentries
              rw [finished, if_neg hnotOpened]
              exact hclone.trans (congrArg some hfold)
            exact ⟨hmirrored.close.finish hhash' hdone, hdone⟩

/-- The copy ends, and that of a graph without cycles unfolds to the same tree. -/
def CopiesTrees (g : Graph π) : Prop :=
  ∃ stack w s', deepCopy stack g.root ⟨g.cells, .empty⟩ = .ok (w, s') ∧
    (Acyclic g.cells g.root → ∃ t, HasTree g.cells g.root t ∧ HasTree s'.cells w t)

theorem CopiesTrees.objectsInCycles (h : CopiesTrees g) : ObjectsInCycles g.cells g.root := by
  obtain ⟨stack, w, s', hcopy, -⟩ := h
  exact objectsInCycles_of_deepCopy hcopy

/-- A copy ends exactly when no cycle is one of arrays only, and it is faithful exactly when
moreover no object of a graph without cycles has a property that cannot be assigned. -/
theorem copiesTrees_iff (g : Graph π) : CopiesTrees g ↔ ObjectsInCycles g.cells g.root ∧
    (Acyclic g.cells g.root → AllKept g.cells (fun key => key ≠ "__proto__") g.root) := by
  have hmirrored : Mirrored g [] [] ⟨g.cells, .empty⟩ :=
    ⟨List.prefix_rfl, nofun, fun r c hrc => by cases hrc⟩
  have htrees : ∀ {stack w s'}, deepCopy stack g.root ⟨g.cells, .empty⟩ = .ok (w, s') →
      Acyclic g.cells g.root → ∃ t, SourceTree g g.root t ∧ HasTree s'.cells w t := by
    intro stack w s' hcopy hacyclic
    obtain ⟨-, t, ht, hclone⟩ := deepCopy_mirrored g.root_lt hacyclic
      (fun r hr => absurd hr List.not_mem_nil) hmirrored hcopy
    refine ⟨t, ht, hclone.mono fun r cell hcell => ?_⟩
    rwa [finished, if_neg List.not_mem_nil] at hcell
  constructor
  · intro h
    refine ⟨h.objectsInCycles, fun hacyclic => ?_⟩
    obtain ⟨stack, w, s', hcopy, hfaithful⟩ := h
    obtain ⟨t, ht, hclone⟩ := htrees hcopy hacyclic
    obtain ⟨t', ht', hclone'⟩ := hfaithful hacyclic
    obtain rfl := hclone.unique hclone'
    exact (hasTree_iff_allKept ht).mp ht'
  · rintro ⟨hcycles, hkept⟩
    have hleft : Left g g.cells.length ⟨g.cells, .empty⟩ := by
      refine ⟨List.prefix_rfl, (Finset.card_filter_le _ _).trans ?_⟩
      rw [Finset.card_range]
    obtain ⟨stack, ⟨w, s'⟩, hcopy⟩ := exists_deepCopy g.root_lt hcycles hleft
    refine ⟨stack, w, s', hcopy, fun hacyclic => ?_⟩
    obtain ⟨t, ht, hclone⟩ := htrees hcopy hacyclic
    exact ⟨t, (hasTree_iff_allKept ht).mpr (hkept hacyclic), hclone⟩

/-- An array that is its own only item. -/
def ownItem : Graph Unit where
  cells := [.array [.ref 0]]
  root := .ref 0
  root_lt := by
    intro r hr
    obtain rfl := Value.ref.inj hr
    exact Nat.zero_lt_one
  closed := by
    rintro a b ⟨cell, hcell, hb⟩
    cases a with
    | zero =>
      obtain rfl := Option.some.inj hcell
      obtain rfl := Value.ref.inj (List.mem_singleton.mp hb)
      exact Nat.zero_lt_one
    | succ a => cases hcell

/-- The copy of an array in itself does not end. -/
theorem ownItem_not_copiesTrees : ¬ ∀ g : Graph Unit, CopiesTrees g := by
  intro h
  refine (h ownItem).objectsInCycles 0 (leads_ref _ 0) (.single ⟨⟨_, rfl, ?_⟩, ⟨_, rfl⟩, _, rfl⟩)
  exact List.mem_singleton.mpr rfl

end Trees

end N8n.DeepCopy
