import N8n.Utils.CircularRefs

/-!
# The connections that the removal of circular references cuts

The removal walks through the objects as they were at first, and replaces what it meets again.
-/

namespace N8n.CircularRefs

open ObjectGraph PlainData LeastRoutes
open Relation (ReflTransGen TransGen)

section Tracks
variable {g : Rooted} {s s' : Removal} {w w' : Walk ℕ Slot} {slot : Slot} {x m r : ℕ}

/-- What was met again is replaced, and all else is as it was. -/
structure Tracks (g : Rooted) (s : Removal) (w : Walk ℕ Slot) : Prop where
  length_le : g.cells.length ≤ s.cells.length
  shape : ∀ (r : ℕ) (cell : Cell), g.cells[r]? = some cell →
    ∃ cell', s.cells[r]? = some cell' ∧ SameShape cell cell'
  marked : ∀ (r : ℕ) (cell : Cell), g.cells.length ≤ r → s.cells[r]? = some cell → cell = marker
  kept : ∀ slot : Slot, slot.holder < g.cells.length → slot ∉ w.again →
    slotValue s.cells slot = slotValue g.cells slot
  again : ∀ slot ∈ w.again, (∃ x ∈ w.seen, slotValue g.cells slot = some (.ref x)) ∧
    ∃ m, g.cells.length ≤ m ∧ m < s.cells.length ∧ slotValue s.cells slot = some (.ref m)
  seen : ∀ r < g.cells.length, r ∈ s.seen ↔ r ∈ w.seen
  fresh : ∀ (r : ℕ) (properties : OrderedMap String Value), r ∉ w.seen →
    g.cells[r]? = some (.object properties) → s.cells[r]? = some (.object properties)
  traversable : ∀ r ∈ w.seen, isTraversableObject g.cells (.ref r) = true
  unchanged : w.again = [] → s.cells = g.cells

theorem lt_of_slotValue {cells : List Cell} {v : Value} (h : slotValue cells slot = some v) :
    slot.holder < cells.length := by
  obtain ⟨cell, hcell, -⟩ := slotValue_eq_some.mp h
  exact (List.getElem?_eq_some_iff.mp hcell).1

theorem exists_of_traversable {cells : List Cell} (h : isTraversableObject cells (.ref r) = true) :
    ∃ properties, cells[r]? = some (.object properties) := by
  rw [isTraversableObject] at h
  split at h
  · exact ⟨_, by assumption⟩
  · cases h

theorem lt_of_traversable {cells : List Cell} (h : isTraversableObject cells (.ref r) = true) :
    r < cells.length := by
  obtain ⟨properties, hcell⟩ := exists_of_traversable h
  exact (List.getElem?_eq_some_iff.mp hcell).1

theorem Tracks.isTraversableObject_eq (h : Tracks g s w) (hr : r < g.cells.length) :
    isTraversableObject s.cells (.ref r) = isTraversableObject g.cells (.ref r) := by
  obtain ⟨cell', hcell', hshape⟩ := h.shape r _ (List.getElem?_eq_getElem hr)
  rw [isTraversableObject, isTraversableObject, hcell', List.getElem?_eq_getElem hr]
  cases hcell : g.cells[r] with
  | array items =>
    rw [hcell] at hshape
    cases cell' with
    | array items' => rfl
    | object properties => cases hshape
  | object properties =>
    rw [hcell] at hshape
    cases cell' with
    | array items => cases hshape
    | object properties' => exact congrArg (fun keys => !keys.isEmpty) hshape

theorem Tracks.isTraversableObject_marker (h : Tracks g s w) (hle : g.cells.length ≤ m)
    (hlt : m < s.cells.length) : isTraversableObject s.cells (.ref m) = true := by
  have hcell := List.getElem?_eq_getElem hlt
  rw [isTraversableObject, hcell, h.marked m _ hle hcell]
  rfl

/-- Every slot has a value as long as it had one. -/
theorem Tracks.exists_slotValue (h : Tracks g s w) {v : Value} (hv : slotValue g.cells slot = some v) :
    ∃ u, slotValue s.cells slot = some u := by
  by_cases hagain : slot ∈ w.again
  · obtain ⟨-, m, -, -, hm⟩ := h.again slot hagain
    exact ⟨_, hm⟩
  · exact ⟨v, (h.kept slot (lt_of_slotValue hv) hagain).trans hv⟩

theorem Tracks.enter (h : Tracks g s w) (hx : isTraversableObject g.cells (.ref x) = true) :
    Tracks g (s.add x) ⟨x :: w.seen, w.again⟩ where
  length_le := h.length_le
  shape := h.shape
  marked := h.marked
  kept := h.kept
  again slot hslot := by
    obtain ⟨⟨y, hy, hvalue⟩, hm⟩ := h.again slot hslot
    exact ⟨⟨y, List.mem_cons_of_mem x hy, hvalue⟩, hm⟩
  seen r hr := by
    rw [Removal.add, List.mem_cons, List.mem_cons, h.seen r hr]
  fresh r properties hr := h.fresh r properties fun hmem => hr (List.mem_cons_of_mem x hmem)
  traversable := List.forall_mem_cons.mpr ⟨hx, h.traversable⟩
  unchanged := h.unchanged

/-- A marker that is met is seen from then on. -/
theorem Tracks.addMarker (h : Tracks g s w) (hslot : slot ∈ w.again) (hm : g.cells.length ≤ m) :
    Tracks g (s.add m) ⟨w.seen, slot :: w.again⟩ where
  length_le := h.length_le
  shape := h.shape
  marked := h.marked
  kept slot' hlt hnot := h.kept slot' hlt fun hmem => hnot (List.mem_cons_of_mem slot hmem)
  again slot' hslot' := by
    rcases List.mem_cons.mp hslot' with rfl | hslot'
    · exact h.again slot' hslot
    · exact h.again slot' hslot'
  seen r hr := by
    have hne : r ≠ m := by omega
    rw [Removal.add, List.mem_cons, or_iff_right hne]
    exact h.seen r hr
  fresh := h.fresh
  traversable := h.traversable
  unchanged := nofun

/-- What is met again is replaced by a new marker. -/
theorem Tracks.cut (h : Tracks g s w) (hvalue : slotValue g.cells slot = some (.ref x))
    (hx : x ∈ w.seen) (hholder : ∀ properties : OrderedMap String Value, g.cells[slot.holder]? = some (.object properties) →
      slot.holder ∈ w.seen) : Tracks g (s.cut slot) ⟨w.seen, slot :: w.again⟩ where
  length_le := by
    rw [length_cut]
    exact Nat.le_succ_of_le h.length_le
  shape r cell hcell := by
    obtain ⟨cell', hcell', hshape⟩ := h.shape r cell hcell
    obtain ⟨hlt, -⟩ := List.getElem?_eq_some_iff.mp hcell'
    rw [getElem?_cut hlt]
    split_ifs with hr
    · obtain ⟨u, hu⟩ := h.exists_slotValue hvalue
      obtain ⟨cell'', hcell'', hu⟩ := slotValue_eq_some.mp hu
      rw [hr, hcell'] at hcell''
      obtain rfl := Option.some.inj hcell''
      rw [hcell', Option.map_some]
      exact ⟨_, rfl, hshape.trans (sameShape_assign hu)⟩
    · exact ⟨cell', hcell', hshape⟩
  marked r cell hr hcell := by
    have hlt := lt_of_slotValue hvalue
    by_cases hlast : r < s.cells.length
    · rw [getElem?_cut hlast, if_neg (by omega)] at hcell
      exact h.marked r cell hr hcell
    · obtain ⟨hr', -⟩ := List.getElem?_eq_some_iff.mp hcell
      rw [length_cut] at hr'
      obtain rfl : r = s.cells.length := by omega
      rw [getElem?_cut_length] at hcell
      exact (Option.some.inj hcell).symm
  kept slot' hlt hnot := by
    have hne : slot ≠ slot' := fun heq => hnot (heq ▸ List.mem_cons_self)
    rw [slotValue_cut_of_ne hne (hlt.trans_le h.length_le)]
    exact h.kept slot' hlt fun hmem => hnot (List.mem_cons_of_mem slot hmem)
  again slot' hslot' := by
    by_cases hne : slot = slot'
    · obtain rfl := hne
      obtain ⟨u, hu⟩ := h.exists_slotValue hvalue
      refine ⟨⟨x, hx, hvalue⟩, s.cells.length, h.length_le, ?_, slotValue_cut hu⟩
      rw [length_cut]
      exact Nat.lt_succ_self _
    · have hmem := (List.mem_cons.mp hslot').resolve_left (Ne.symm hne)
      obtain ⟨hseen, m, hm, hlt, hvalue'⟩ := h.again slot' hmem
      refine ⟨hseen, m, hm, ?_, ?_⟩
      · rw [length_cut]
        exact Nat.lt_succ_of_lt hlt
      · rw [slotValue_cut_of_ne hne (lt_of_slotValue hvalue')]
        exact hvalue'
  seen := h.seen
  fresh r properties hr hcell := by
    have hcell' := h.fresh r properties hr hcell
    obtain ⟨hlt, -⟩ := List.getElem?_eq_some_iff.mp hcell'
    rw [getElem?_cut hlt, if_neg]
    · exact hcell'
    · rintro rfl
      exact hr (hholder properties hcell)
  traversable := h.traversable
  unchanged := nofun

end Tracks

/-! ### A run of the removal -/

section Run
variable {g : Rooted} {remove : ℕ → Removal → Except Failure Removal} {s s' : Removal}
  {w w' : Walk ℕ Slot} {slot : Slot} {n obj value : ℕ}

/-- The objects that are not seen yet. -/
def unseen (g : Rooted) (w : Walk ℕ Slot) : ℕ :=
  ((Finset.range g.cells.length).filter fun r => r ∉ w.seen).card

theorem unseen_le (h : w.seen ⊆ w'.seen) : unseen g w' ≤ unseen g w := by
  refine Finset.card_le_card fun r hr => ?_
  rw [Finset.mem_filter] at hr ⊢
  exact ⟨hr.1, fun hmem => hr.2 (h hmem)⟩

theorem unseen_cons_lt {x : ℕ} (hx : x < g.cells.length) (hnot : x ∉ w.seen) :
    unseen g ⟨x :: w.seen, w.again⟩ < unseen g w := by
  refine Finset.card_lt_card ((Finset.ssubset_iff_of_subset fun r hr => ?_).mpr ⟨x, ?_, ?_⟩)
  · rw [Finset.mem_filter] at hr ⊢
    exact ⟨hr.1, fun hmem => hr.2 (List.mem_cons_of_mem x hmem)⟩
  · simp [hx, hnot]
  · simp

/-- The removal goes on from what is not seen, and from markers. -/
structure Follows (g : Rooted) (n : ℕ) (remove : ℕ → Removal → Except Failure Removal) : Prop where
  object : ∀ x s w, Tracks g s w → x ∉ w.seen → isTraversableObject g.cells (.ref x) = true →
    unseen g w < n → ∃ s' w', remove x s = .ok s' ∧ Tracks g s' w' ∧
      Walks (meets g.cells) (meets g.cells x) ⟨x :: w.seen, w.again⟩ w'
  marker : ∀ m s w, Tracks g s w → g.cells.length ≤ m → m < s.cells.length → unseen g w < n →
    remove m s = .ok (s.add m)

/-- The rounds of a loop track a walk along what each of them meets. -/
theorem exists_foldlM_tracks {β : Type} {f : Removal → β → Except Failure Removal}
    {next : β → List (Slot × ℕ)} {l : List β} (I : Walk ℕ Slot → Prop)
    (hI : ∀ w w', w.seen ⊆ w'.seen → I w → I w')
    (hstep : ∀ b ∈ l, ∀ s w, Tracks g s w → I w →
      ∃ s' w', f s b = .ok s' ∧ Tracks g s' w' ∧ Walks (meets g.cells) (next b) w w')
    (h : Tracks g s w) (hw : I w) : ∃ s' w', l.foldlM f s = .ok s' ∧ Tracks g s' w' ∧
      Walks (meets g.cells) (l.flatMap next) w w' := by
  induction l generalizing s w with
  | nil => exact ⟨s, w, rfl, h, .done w⟩
  | cons b l ih =>
    obtain ⟨t, v, ht, htracks, hwalks⟩ := hstep b List.mem_cons_self s w h hw
    obtain ⟨s', w', hs', htracks', hwalks'⟩ :=
      ih (fun c hc => hstep c (List.mem_cons_of_mem b hc)) htracks (hI w v hwalks.seen_subset hw)
    refine ⟨s', w', (FoldM.foldlM_cons_ok ht).trans hs', htracks', ?_⟩
    rw [List.flatMap_cons]
    exact hwalks.append hwalks'

theorem hasSeen_ref (s : Removal) (r : ℕ) : s.hasSeen (.ref r) = true ↔ r ∈ s.seen := by
  simp [Removal.hasSeen]

/-- What a slot holds is looked at as it was at first. -/
theorem exists_visit (hremove : Follows g n remove) (h : Tracks g s w) (hw : unseen g w < n) {x : ℕ}
    (hvalue : slotValue g.cells slot = some (.ref x))
    (hx : isTraversableObject g.cells (.ref x) = true)
    (hholder : ∀ properties : OrderedMap String Value, g.cells[slot.holder]? = some (.object properties) →
      slot.holder ∈ w.seen) {v : Value} (hv : slotValue s.cells slot = some v) :
    ∃ s' w', (if s.hasSeen v then .ok (s.cut slot)
        else if isTraversableObject s.cells v then removeFrom remove s v else .ok s) = .ok s' ∧
      Tracks g s' w' ∧ Walks (meets g.cells) [(slot, x)] w w' := by
  by_cases hagain : slot ∈ w.again
  · obtain ⟨⟨y, hy, hvalue'⟩, m, hm, hlt, hslot⟩ := h.again slot hagain
    obtain rfl : x = y := by simpa [hvalue] using hvalue'
    obtain rfl : v = .ref m := Option.some.inj (hv.symm.trans hslot)
    by_cases hseen : m ∈ s.seen
    · rw [if_pos ((hasSeen_ref s m).mpr hseen)]
      exact ⟨_, _, rfl, h.cut hvalue hy hholder, .again hy (.done _)⟩
    · rw [if_neg (mt (hasSeen_ref s m).mp hseen), if_pos (h.isTraversableObject_marker hm hlt)]
      exact ⟨_, _, hremove.marker m s w h hm hlt hw, h.addMarker hagain hm, .again hy (.done _)⟩
  · have hxlt := lt_of_traversable hx
    have hkept := h.kept slot (lt_of_slotValue hvalue) hagain
    obtain rfl : v = .ref x := Option.some.inj (hv.symm.trans (hkept.trans hvalue))
    by_cases hseen : x ∈ w.seen
    · rw [if_pos ((hasSeen_ref s x).mpr ((h.seen x hxlt).mpr hseen))]
      exact ⟨_, _, rfl, h.cut hvalue hseen hholder, .again hseen (.done _)⟩
    · have hnot : ¬ s.hasSeen (.ref x) = true := by
        rw [hasSeen_ref, h.seen x hxlt]
        exact hseen
      rw [if_neg hnot, if_pos ((h.isTraversableObject_eq hxlt).trans hx)]
      obtain ⟨s', w', hok, htracks, hwalks⟩ := hremove.object x s w h hseen hx hw
      exact ⟨s', w', hok, htracks, .go hseen hwalks (.done w')⟩

theorem exists_visitItem (hremove : Follows g n remove) {items : List Value} {index : ℕ}
    (hitems : g.cells[value]? = some (.array items)) (h : Tracks g s w) (hw : unseen g w < n) :
    ∃ s' w', visitItem remove value s index = .ok s' ∧ Tracks g s' w' ∧
      Walks (meets g.cells) (meetsItem g.cells value index) w w' := by
  have hholder : ∀ properties : OrderedMap String Value,
      g.cells[(Slot.item value index).holder]? = some (.object properties) →
      (Slot.item value index).holder ∈ w.seen := by
    intro properties hcell
    cases hitems.symm.trans hcell
  have hlt : (Slot.item value index).holder < g.cells.length :=
    (List.getElem?_eq_some_iff.mp hitems).1
  cases hvalue : slotValue g.cells (.item value index) with
  | none =>
    have hagain : .item value index ∉ w.again := by
      intro hmem
      obtain ⟨⟨x, -, hx⟩, -⟩ := h.again _ hmem
      cases hvalue.symm.trans hx
    have hnone := (h.kept _ hlt hagain).trans hvalue
    rw [visitItem, hnone, meetsItem, hvalue]
    exact ⟨s, w, rfl, h, .done w⟩
  | some v =>
    obtain ⟨u, hu⟩ := h.exists_slotValue hvalue
    rw [visitItem, hu, meetsItem, hvalue]
    by_cases hv : isTraversableObject g.cells v = true
    · cases v with
      | primitive p => cases hv
      | ref x =>
        simp only [hv, ↓reduceIte]
        exact exists_visit hremove h hw hvalue hv hholder hu
    · have hagain : .item value index ∉ w.again := by
        intro hmem
        obtain ⟨⟨x, hx, hx'⟩, -⟩ := h.again _ hmem
        obtain rfl := Option.some.inj (hvalue.symm.trans hx')
        exact hv (h.traversable x hx)
      obtain rfl : u = v := Option.some.inj (hu.symm.trans ((h.kept _ hlt hagain).trans hvalue))
      cases u with
      | primitive p => exact ⟨s, w, rfl, h, .done w⟩
      | ref x =>
        have hxlt : x < g.cells.length := g.closed value x (contains_iff.mpr ⟨_, rfl, hvalue⟩)
        have hseen : ¬ s.hasSeen (.ref x) = true := by
          rw [hasSeen_ref, h.seen x hxlt]
          exact fun hmem => hv (h.traversable x hmem)
        have hu' : ¬ isTraversableObject s.cells (.ref x) = true := by
          rw [h.isTraversableObject_eq hxlt]
          exact hv
        dsimp only
        rw [if_neg hseen, if_neg hu', if_neg hv]
        exact ⟨s, w, rfl, h, .done w⟩

theorem exists_visitProperty (hremove : Follows g n remove) {properties : OrderedMap String Value}
    (hobj : g.cells[obj]? = some (.object properties)) {entry : String × Value}
    (hentry : entry ∈ properties.entries) (h : Tracks g s w) (hw : unseen g w < n)
    (hseen : obj ∈ w.seen) : ∃ s' w', visitProperty remove obj s entry = .ok s' ∧ Tracks g s' w' ∧
      Walks (meets g.cells) (meetsProperty g.cells obj entry) w w' := by
  obtain ⟨key, v⟩ := entry
  have hvalue : slotValue g.cells (.property obj key) = some v :=
    slotValue_eq_some.mpr ⟨_, hobj, OrderedMap.get?_eq_some.mpr hentry⟩
  cases v with
  | primitive p => exact ⟨s, w, rfl, h, .done w⟩
  | ref x =>
    have hxlt : x < g.cells.length := g.closed obj x (contains_iff.mpr ⟨_, rfl, hvalue⟩)
    rw [visitProperty, meetsProperty]
    by_cases hx : isTraversableObject g.cells (.ref x) = true
    · simp only [h.isTraversableObject_eq hxlt, hx, ↓reduceIte]
      by_cases hxseen : x ∈ w.seen
      · rw [if_pos ((hasSeen_ref s x).mpr ((h.seen x hxlt).mpr hxseen))]
        exact ⟨_, _, rfl, h.cut hvalue hxseen fun _ _ => hseen, .again hxseen (.done _)⟩
      · have hnot : ¬ s.hasSeen (.ref x) = true := by
          rw [hasSeen_ref, h.seen x hxlt]
          exact hxseen
        rw [if_neg hnot]
        obtain ⟨s', w', hok, htracks, hwalks⟩ := hremove.object x s w h hxseen hx hw
        exact ⟨s', w', hok, htracks, .go hxseen hwalks (.done w')⟩
    · have hx' : ¬ isTraversableObject s.cells (.ref x) = true := by
        rw [h.isTraversableObject_eq hxlt]
        exact hx
      rw [if_neg hx']
      dsimp only
      rw [if_neg hx]
      have hcell := List.getElem?_eq_getElem hxlt
      obtain ⟨cell', hcell', hshape⟩ := h.shape x _ hcell
      rw [hcell']
      cases hcell'' : g.cells[x] with
      | array items =>
        rw [hcell''] at hcell hshape
        rw [hcell]
        cases cell' with
        | object _ => cases hshape
        | array items' =>
          have hlength : items'.length = items.length := hshape
          simp only [hlength]
          exact exists_foldlM_tracks (fun w => unseen g w < n)
            (fun w w' hle hw => (unseen_le hle).trans_lt hw)
            (fun i _ s w h hw => exists_visitItem hremove hcell h hw) h hw
      | object properties' =>
        rw [hcell''] at hcell hshape
        rw [hcell]
        cases cell' with
        | array _ => cases hshape
        | object _ => exact ⟨s, w, rfl, h, .done w⟩

/-- The removal follows a walk where the stack has room for what is not seen. -/
theorem follows_removeCircularRefs (g : Rooted) (stack : ℕ) :
    Follows g stack (removeCircularRefs stack) := by
  induction stack with
  | zero =>
    exact ⟨fun x s w _ _ _ hlt => absurd hlt (Nat.not_lt_zero _),
      fun m s w _ _ _ hlt => absurd hlt (Nat.not_lt_zero _)⟩
  | succ stack ih =>
    refine ⟨fun x s w h hx htraversable hlt => ?_, fun m s w h hm hmlt _ => ?_⟩
    · obtain ⟨properties, hcell⟩ := exists_of_traversable htraversable
      have hcell' := h.fresh x properties hx hcell
      have hxlt := lt_of_traversable htraversable
      rw [removeCircularRefs, hcell', meets, hcell]
      have hlt' := unseen_cons_lt (w := w) hxlt hx
      exact exists_foldlM_tracks (fun w => unseen g w < stack ∧ x ∈ w.seen)
        (fun w w' hle hw => ⟨(unseen_le hle).trans_lt hw.1, hle hw.2⟩)
        (fun entry hentry s w h hw => exists_visitProperty ih hcell hentry h hw.1 hw.2)
        (h.enter htraversable) ⟨by omega, List.mem_cons_self⟩
    · have hcell := List.getElem?_eq_getElem hmlt
      rw [removeCircularRefs, hcell, h.marked m _ hm hcell]
      rfl

/-- A run that ends does so with more stack as well. -/
theorem visitProperty_mono {remove' : ℕ → Removal → Except Failure Removal}
    (hremove : ∀ r s s', remove r s = .ok s' → remove' r s = .ok s') {entry : String × Value}
    (h : visitProperty remove obj s entry = .ok s') : visitProperty remove' obj s entry = .ok s' := by
  have hfrom : ∀ s v s', removeFrom remove s v = .ok s' → removeFrom remove' s v = .ok s' := by
    intro s v s' h
    cases v with
    | primitive p => exact h
    | ref r => exact hremove r s s' h
  have hitem : ∀ value s index s', visitItem remove value s index = .ok s' →
      visitItem remove' value s index = .ok s' := by
    intro value s index s' h
    rw [visitItem] at h ⊢
    cases hvalue : slotValue s.cells (.item value index) with
    | none =>
      rw [hvalue] at h
      exact h
    | some v =>
      rw [hvalue] at h
      dsimp only at h ⊢
      split_ifs at h ⊢
      · exact h
      · exact hfrom _ _ _ h
      · exact h
  rw [visitProperty] at h ⊢
  split_ifs at h ⊢
  · exact h
  · exact hfrom _ _ _ h
  · cases hentry : entry.2 with
    | primitive p =>
      rw [hentry] at h
      exact h
    | ref value =>
      rw [hentry] at h
      dsimp only at h ⊢
      cases hcell : s.cells[value]? with
      | none =>
        rw [hcell] at h
        exact h
      | some cell =>
        rw [hcell] at h
        cases cell with
        | object properties => exact h
        | array items => exact FoldM.foldlM_mono (fun s i s' _ h => hitem value s i s' h) h

theorem removeCircularRefs_mono {m : ℕ} (h : removeCircularRefs n obj s = .ok s') (hle : n ≤ m) :
    removeCircularRefs m obj s = .ok s' := by
  induction n generalizing m obj s s' with
  | zero => cases h
  | succ n ih =>
    obtain ⟨m, rfl⟩ : ∃ k, m = k + 1 := ⟨m - 1, by omega⟩
    have hle' : n ≤ m := Nat.le_of_succ_le_succ hle
    rw [removeCircularRefs] at h ⊢
    cases hcell : s.cells[obj]? with
    | none =>
      rw [hcell] at h
      cases h
    | some cell =>
      rw [hcell] at h
      cases cell with
      | array items => cases h
      | object properties =>
        exact FoldM.foldlM_mono
          (fun s entry s' _ h => visitProperty_mono (fun r s s' h => ih h hle') h) h

end Run

/-! ### Cycles that are left -/

section Cycles
variable {g : Rooted} {s s' : Removal} {a b x : ℕ} {slot : Slot}

/-- A property or an item that the removal leaves as it is. -/
def Kept (g : Rooted) (a b : ℕ) : Prop :=
  ∃ slot : Slot, slot.holder = a ∧ slotValue g.cells slot = some (.ref b) ∧
    ¬ Repeated (meets g.cells) ∅ g.root slot

structure Removed (g : Rooted) (s : Removal) : Prop where
  marked : ∀ (r : ℕ) (cell : Cell), g.cells.length ≤ r → s.cells[r]? = some cell → cell = marker
  kept : ∀ slot : Slot, slot.holder < g.cells.length → ¬ Repeated (meets g.cells) ∅ g.root slot →
    slotValue s.cells slot = slotValue g.cells slot
  replaced : ∀ slot : Slot, Repeated (meets g.cells) ∅ g.root slot →
    ∃ m, g.cells.length ≤ m ∧ slotValue s.cells slot = some (.ref m)
  unchanged : (∀ slot : Slot, ¬ Repeated (meets g.cells) ∅ g.root slot) → s.cells = g.cells

theorem tracks_start (g : Rooted) : Tracks g ⟨g.cells, []⟩ ⟨[], []⟩ where
  length_le := le_rfl
  shape r cell hcell := ⟨cell, hcell, .refl cell⟩
  marked r cell hle hcell := by
    obtain ⟨hlt, -⟩ := List.getElem?_eq_some_iff.mp hcell
    exact absurd hlt (Nat.not_lt.mpr hle)
  kept _ _ _ := rfl
  again _ h := absurd h List.not_mem_nil
  seen _ _ := Iff.rfl
  fresh _ _ _ hcell := hcell
  traversable _ h := absurd h List.not_mem_nil
  unchanged _ := rfl

theorem meets_root_of_empty (h : ¬ isTraversableObject g.cells (.ref g.root) = true) :
    ∃ properties, g.cells[g.root]? = some (.object properties) ∧ properties.entries = [] := by
  obtain ⟨properties, hcell⟩ := g.root_object
  refine ⟨properties, hcell, ?_⟩
  rw [isTraversableObject, hcell] at h
  simpa [OrderedMap.keys] using h

/-- The removal ends, with what the least routes repeat replaced. -/
theorem exists_removed (g : Rooted) : ∃ stack s,
    removeCircularRefs stack g.root ⟨g.cells, []⟩ = .ok s ∧ Removed g s ∧
      ∀ y ∈ Below (meets g.cells) ∅ g.root, ∃ p, LeastRoute (meets g.cells) ∅ g.root p y := by
  by_cases hroot : isTraversableObject g.cells (.ref g.root) = true
  · have hfollows := follows_removeCircularRefs g (unseen g ⟨[], []⟩ + 1)
    obtain ⟨s, w, hok, htracks, hwalks⟩ := hfollows.object g.root _ _ (tracks_start g)
      List.not_mem_nil hroot (Nat.lt_succ_self _)
    obtain ⟨-, hagain, hleast⟩ := hwalks.explored_root
    refine ⟨_, s, hok, ⟨htracks.marked, fun slot hlt hnot => ?_, fun slot hslot => ?_, ?_⟩, hleast⟩
    · exact htracks.kept slot hlt (mt (hagain slot).mp hnot)
    · obtain ⟨-, m, hm, -, hvalue⟩ := htracks.again slot ((hagain slot).mpr hslot)
      exact ⟨m, hm, hvalue⟩
    · intro hnone
      exact htracks.unchanged (List.eq_nil_iff_forall_not_mem.mpr fun slot h =>
        hnone slot ((hagain slot).mp h))
  · obtain ⟨properties, hcell, hempty⟩ := meets_root_of_empty hroot
    have hmeets : meets g.cells g.root = [] := by
      rw [meets, hcell]
      simp [hempty]
    have hwalks : Walks (meets g.cells) (meets g.cells g.root) ⟨[g.root], []⟩ ⟨[g.root], []⟩ := by
      rw [hmeets]
      exact .done _
    obtain ⟨-, hagain, hleast⟩ := hwalks.explored_root
    refine ⟨1, ⟨g.cells, [g.root]⟩, ?_, ⟨(tracks_start g).marked, fun _ _ _ => rfl, ?_, fun _ => rfl⟩,
      hleast⟩
    · rw [removeCircularRefs, hcell]
      simp only [hempty]
      rfl
    · intro slot hslot
      exact absurd ((hagain slot).mpr hslot) List.not_mem_nil

theorem Removed.contains_of_kept (h : Removed g s) (hab : Kept g a b) : Contains s.cells a b := by
  obtain ⟨slot, rfl, hvalue, hnot⟩ := hab
  exact contains_iff.mpr ⟨slot, rfl, (h.kept slot (lt_of_slotValue hvalue) hnot).trans hvalue⟩

/-- What is contained is kept or is a marker, and markers contain nothing. -/
theorem Removed.kept_of_contains (h : Removed g s) {c : ℕ} (hab : Contains s.cells a b)
    (hbc : Contains s.cells b c) : Kept g a b := by
  have hlt : ∀ a b, Contains s.cells a b → a < g.cells.length := by
    intro a b hab
    by_contra hle
    obtain ⟨cell, hcell, hb⟩ := hab
    obtain rfl := h.marked a cell (Nat.not_lt.mp hle) hcell
    simp [marker, ObjectGraph.Cell.values, OrderedMap.values, OrderedMap.set, OrderedMap.setEntry,
      OrderedMap.empty] at hb
  obtain ⟨slot, rfl, hvalue⟩ := contains_iff.mp hab
  by_cases hslot : Repeated (meets g.cells) ∅ g.root slot
  · obtain ⟨m, hm, hvalue'⟩ := h.replaced slot hslot
    obtain rfl : b = m := by simpa [hvalue] using hvalue'
    exact absurd (hlt b c hbc) (Nat.not_lt.mpr hm)
  · have hkept := h.kept slot (hlt _ b hab) hslot
    exact ⟨slot, rfl, hkept.symm.trans hvalue, hslot⟩

theorem Removed.noCycle_iff (h : Removed g s) :
    NoCycle s.cells ↔ ∀ r, ¬ TransGen (Kept g) r r := by
  constructor
  · intro hcycle r hr
    have hle : Kept g ≤ Contains s.cells := fun _ _ => h.contains_of_kept
    exact hcycle r (TransGen.mono hle _ _ hr)
  · intro hkept r hr
    have hpath : ∀ a b c, TransGen (Contains s.cells) a b → Contains s.cells b c →
        TransGen (Kept g) a b := by
      intro a b c hab
      induction hab generalizing c with
      | single hab => exact fun hbc => .single (h.kept_of_contains hab hbc)
      | tail _ hbd ih => exact fun hdc => (ih _ hbd).tail (h.kept_of_contains hbd hdc)
    obtain ⟨c, hrc, -⟩ := TransGen.head'_iff.mp hr
    exact hkept r (hpath r r c hr hrc)

theorem Removed.cells_eq_iff (h : Removed g s) :
    s.cells = g.cells ↔ ∀ slot : Slot, ¬ Repeated (meets g.cells) ∅ g.root slot := by
  refine ⟨fun heq slot hslot => ?_, h.unchanged⟩
  obtain ⟨m, hm, hvalue⟩ := h.replaced slot hslot
  rw [heq] at hvalue
  have hlt := g.closed slot.holder m (contains_iff.mpr ⟨slot, rfl, hvalue⟩)
  omega

/-- What an object meets is contained in it or in one of its arrays. -/
theorem transGen_of_meets (h : (slot, x) ∈ meets g.cells a) : TransGen (Contains g.cells) a x := by
  rw [meets] at h
  split at h
  · rename_i properties hcell
    obtain ⟨entry, hentry, h⟩ := List.mem_flatMap.mp h
    have hvalues : entry.2 ∈ (Cell.object properties : Cell).values := List.mem_map_of_mem hentry
    rw [meetsProperty] at h
    split at h
    · cases h
    · rename_i y hy
      have hay : Contains g.cells a y := ⟨_, hcell, hy ▸ hvalues⟩
      split_ifs at h
      · obtain ⟨-, rfl⟩ := Prod.mk.inj (List.mem_singleton.mp h)
        exact .single hay
      · split at h
        · rename_i items hitems
          obtain ⟨i, -, h⟩ := List.mem_flatMap.mp h
          rw [meetsItem] at h
          split at h
          · rename_i z hz
            split_ifs at h
            · obtain ⟨-, rfl⟩ := Prod.mk.inj (List.mem_singleton.mp h)
              exact .tail (.single hay) (contains_iff.mpr ⟨_, rfl, hz⟩)
            · cases h
          · cases h
        · cases h
  · cases h

theorem reflTransGen_of_route {avoid : Set ℕ} {p : List ℕ} (h : Route (meets g.cells) avoid a p b) :
    ReflTransGen (Contains g.cells) a b := by
  induction h with
  | here _ => exact .refl
  | step _ hi _ ih => exact (transGen_of_meets (List.mem_of_getElem? hi)).to_reflTransGen.trans ih

/-- The removal removes exactly the cycles if and only if each cycle has a property or an item that
is met off the least routes and, where there is no cycle, no object is met twice. -/
theorem removesCycles_iff (g : Rooted) : RemovesCycles g ↔
    (∀ r, ¬ TransGen (Kept g) r r) ∧
      (NoCycle g.cells → MetOnce (meets g.cells) g.root) := by
  obtain ⟨stack, s, hok, hremoved, hleast⟩ := exists_removed g
  have honce : NoCycle g.cells → (s.cells = g.cells ↔ MetOnce (meets g.cells) g.root) := by
    intro hcycle
    rw [hremoved.cells_eq_iff]
    refine forall_not_repeated_iff (fun b slot hb hmem => hcycle g.root ?_) hleast
    obtain ⟨p, hp⟩ := hb
    exact TransGen.trans_right (reflTransGen_of_route hp) (transGen_of_meets hmem)
  constructor
  · rintro ⟨stack', s', hok', hcycle, hunchanged⟩
    have hmax := removeCircularRefs_mono hok (le_max_left stack stack')
    obtain rfl := Except.ok.inj
      (hmax.symm.trans (removeCircularRefs_mono hok' (le_max_right stack stack')))
    exact ⟨hremoved.noCycle_iff.mp hcycle, fun h => (honce h).mp (hunchanged h)⟩
  · rintro ⟨hkept, hmet⟩
    exact ⟨stack, s, hok, hremoved.noCycle_iff.mpr hkept, fun h => (honce h).mpr (hmet h)⟩

/-- `{ x: o, y: o }` -/
def sharedCells : List Cell :=
  [.object ((OrderedMap.set .empty "x" (.ref 1)).set "y" (.ref 1)),
    .object (.set .empty "a" (.primitive (.bool true)))]

theorem contains_sharedCells (h : Contains sharedCells a b) : a = 0 ∧ b = 1 := by
  obtain ⟨cell, hcell, hb⟩ := h
  rcases a with _ | _ | a
  · obtain rfl := Option.some.inj hcell
    refine ⟨rfl, ?_⟩
    simpa [ObjectGraph.Cell.values, OrderedMap.values, OrderedMap.set, OrderedMap.setEntry,
      OrderedMap.empty] using hb
  · obtain rfl := Option.some.inj hcell
    simp [ObjectGraph.Cell.values, OrderedMap.values, OrderedMap.set, OrderedMap.setEntry,
      OrderedMap.empty] at hb
  · simp [sharedCells] at hcell

def sharedObject : Rooted where
  cells := sharedCells
  root := 0
  root_object := ⟨_, rfl⟩
  closed a b h := by
    obtain ⟨rfl, rfl⟩ := contains_sharedCells h
    decide
  reached r hr := by
    have hcases : r = 0 ∨ r = 1 := by
      simp [sharedCells] at hr
      omega
    rcases hcases with rfl | rfl
    · exact .refl
    · exact .single ⟨_, rfl, by decide⟩

/-- An object that two properties share is removed from the second one, without any cycle. -/
theorem sharedObject_not_removesCycles : ¬ RemovesCycles sharedObject := by
  have hcycle : NoCycle sharedObject.cells := by
    intro r hr
    obtain ⟨b, hrb, -⟩ := TransGen.head'_iff.mp hr
    obtain ⟨c, -, hcr⟩ := TransGen.tail'_iff.mp hr
    have hzero := (contains_sharedCells hrb).1
    have hone := (contains_sharedCells hcr).2
    omega
  rintro ⟨stack, s, hok, -, hunchanged⟩
  obtain ⟨t, hthree, hlength⟩ : ∃ t,
      removeCircularRefs 3 sharedObject.root ⟨sharedObject.cells, []⟩ = .ok t ∧
        t.cells.length = 3 := ⟨_, rfl, rfl⟩
  have hmax := removeCircularRefs_mono hok (le_max_left stack 3)
  obtain rfl := Except.ok.inj
    (hmax.symm.trans (removeCircularRefs_mono hthree (le_max_right stack 3)))
  rw [hunchanged hcycle] at hlength
  cases hlength

end Cycles

end N8n.CircularRefs
