import N8n.Graph.LowLinks

/-!
# The components that are found

The value of a node is the id of the first node of its component when a descending
path leads from the one to the other. Then a component is taken when the search
leaves its first node, and the stack holds the components that a node on the path
belongs to. A component without such paths is found wrongly.
-/

namespace N8n

open DepthFirst Relation

namespace LowLinks

variable {α : Type}

theorem takeWhile_eq_filter {q : α → Bool} {l : List α} (h : l.Pairwise fun a b => q b → q a) :
    l.takeWhile q = l.filter q ∧ l.dropWhile q = l.filter fun a => !q a := by
  induction l with
  | nil => exact ⟨rfl, rfl⟩
  | cons a l ih =>
    obtain ⟨ha, hl⟩ := List.pairwise_cons.mp h
    by_cases hqa : q a = true
    · simp [hqa, ih hl]
    · have hnone : ∀ b ∈ l, q b = false := fun b hb => by
        simpa using fun hqb => hqa (ha b hb hqb)
      have hempty : l.filter q = [] := List.filter_eq_nil_iff.mpr fun b hb => by simp [hnone b hb]
      have hall : l.filter (fun a => !q a) = l :=
        List.filter_eq_self.mpr fun b hb => by simp [hnone b hb]
      simp [hqa, hempty, hall]

variable [DecidableEq α]

/-- `r` is the node of the component of `x` that was visited first. -/
structure First (children : α → List α) (p : Point α (LowLinks α)) (r x : α) : Prop where
  visited : r ∈ p.visited
  joined : Joined children r x
  least : ∀ y ∈ p.visited, Joined children y x → p.idx r ≤ p.idx y

/-- Each node that was left has a descending path to the first node of its component. -/
def AllDescend (children : α → List α) (p : Point α (LowLinks α)) : Prop :=
  ∀ x ∈ p.visited, x ∉ p.path → ∀ r, First children p r x → Descends p.edges x r

structure Complete (children : α → List α) (p : Point α (LowLinks α)) : Prop where
  stack_ordered : p.state.stack.Pairwise fun a b => p.idx b < p.idx a
  mem_stack : ∀ x, x ∈ p.state.stack ↔ x ∈ p.visited ∧ ∃ g ∈ p.path, Joined children g x
  low_joined : ∀ x ∈ p.visited, ∃ y ∈ p.visited,
    p.state.lowLinkValues.get? x = some (p.idx y) ∧ Joined children y x
  low_le : ∀ x ∈ p.visited, ∀ r, First children p r x → Descends p.edges x r →
    ∀ l, p.state.lowLinkValues.get? x = some l → l ≤ p.idx r
  components : ∀ scc ∈ p.state.stronglyConnectedComponents, ∃ r ∈ p.visited,
    (∀ g ∈ p.path, ¬ Joined children g r) ∧ ∀ x, x ∈ scc ↔ Joined children r x
  disjoint : p.state.stronglyConnectedComponents.Pairwise fun s t => ∀ x ∈ s, x ∉ t
  covered : ∀ x ∈ p.visited, (∃ g ∈ p.path, Joined children g x) ∨
    ∃ scc ∈ p.state.stronglyConnectedComponents, x ∈ scc

section First
variable {children : α → List α} {act : Event α → LowLinks α → LowLinks α}
  {p p' : Point α (LowLinks α)} {r x v : α}

theorem exists_first (hx : x ∈ p.visited) : ∃ r, First children p r x := by
  induction hn : p.idx x using Nat.strong_induction_on generalizing x with
  | h n ih =>
    by_cases hless : ∃ y ∈ p.visited, Joined children y x ∧ p.idx y < p.idx x
    · obtain ⟨y, hy, hyx, hlt⟩ := hless
      obtain ⟨r, hr⟩ := ih (p.idx y) (hn ▸ hlt) hy rfl
      exact ⟨r, hr.visited, hr.joined.trans hyx,
        fun z hz hzx => hr.least z hz (hzx.trans hyx.symm)⟩
    · refine ⟨x, hx, .refl x, fun y hy hyx => ?_⟩
      exact Nat.not_lt.mp fun hlt => hless ⟨y, hy, hyx, hlt⟩

theorem First.of_joined (h : First children p r x) (hxv : Joined children x v) :
    First children p r v :=
  ⟨h.visited, h.joined.trans hxv, fun y hy hyv => h.least y hy (hyv.trans hxv.symm)⟩

theorem idx_concat (hx : x ∈ p.visited) (path : List α) (edges : List (α × α))
    (state : LowLinks α) :
    Point.idx ⟨path, p.visited ++ [v], edges, state⟩ x = p.idx x :=
  idxOf_append_of_visited hx [v]

theorem idx_concat_new (hv : v ∉ p.visited) (path : List α) (edges : List (α × α))
    (state : LowLinks α) :
    Point.idx ⟨path, p.visited ++ [v], edges, state⟩ v = p.visited.length :=
  idxOf_new hv

theorem first_concat (hv : v ∉ p.visited) (hx : x ∈ p.visited) (path : List α)
    (edges : List (α × α)) (state : LowLinks α) :
    First children ⟨path, p.visited ++ [v], edges, state⟩ r x ↔ First children p r x := by
  constructor
  · intro h
    have hr : r ∈ p.visited := by
      rcases List.mem_append.mp h.visited with hr | hr
      · exact hr
      · have hle := h.least x (List.mem_append_left _ hx) (.refl x)
        rw [List.mem_singleton.mp hr, idx_concat hx, idx_concat_new hv] at hle
        exact absurd (idx_lt hx) (Nat.not_lt.mpr hle)
    refine ⟨hr, h.joined, fun y hy hyx => ?_⟩
    have hle := h.least y (List.mem_append_left _ hy) hyx
    rwa [idx_concat hr, idx_concat hy] at hle
  · intro h
    refine ⟨List.mem_append_left _ h.visited, h.joined, fun y hy hyx => ?_⟩
    rw [idx_concat h.visited]
    rcases List.mem_append.mp hy with hy | hy
    · rw [idx_concat hy]
      exact h.least y hy hyx
    · rw [List.mem_singleton.mp hy, idx_concat_new hv]
      exact Nat.le_of_lt (idx_lt h.visited)

/-- An edge left later starts at a node on the path, so no path from a node that was left
uses it. -/
theorem AllDescend.back (h : AllDescend children p') (hstep : Step children act p p') :
    AllDescend children p := by
  intro x hx hxp r hr
  cases hstep with
  | @enter v hv _ =>
    refine h x (List.mem_append_left _ hx) (fun hm => ?_) r ((first_concat hv hx _ _ _).mpr hr)
    rcases List.mem_cons.mp hm with rfl | hm
    · exact hv hx
    · exact hxp hm
  | @edge v c rest hpath _ _ =>
    have hd := h x hx hxp r ⟨hr.visited, hr.joined, hr.least⟩
    rcases descends_concat.mp hd with hd | ⟨rfl, _⟩
    · exact hd
    · exact absurd (hpath ▸ List.mem_cons_self) hxp
  | leave hpath _ =>
    exact h x hx (fun hm => hxp (hpath ▸ List.mem_cons_of_mem _ hm)) r
      ⟨hr.visited, hr.joined, hr.least⟩

end First

section Steps
variable {children : α → List α} {p p' : Point α (LowLinks α)} {v c : α} {rest : List α}

theorem Complete.enter (hs : Sound children p) (hn : Numbered p) (h : Complete children p)
    (hv : v ∉ p.visited) :
    Complete children ⟨v :: p.path, p.visited ++ [v], p.edges, act (.enter v) p.state⟩ := by
  have hne : ∀ {x}, x ∈ p.visited → v ≠ x := fun hx he => hv (he ▸ hx)
  have hlow : ∀ {x}, x ∈ p.visited → (p.state.lowLinkValues.set v p.state.id).get? x =
      p.state.lowLinkValues.get? x := fun hx => OrderedMap.get?_set_of_ne (hne hx)
  constructor
  case stack_ordered =>
    refine List.pairwise_cons.mpr ⟨fun b hb => ?_, ?_⟩
    · rw [idx_concat (hn.stack_visited b hb), idx_concat_new hv]
      exact idx_lt (hn.stack_visited b hb)
    · refine h.stack_ordered.imp_of_mem fun {a b} ha hb hab => ?_
      rwa [idx_concat (hn.stack_visited a ha), idx_concat (hn.stack_visited b hb)]
  case mem_stack =>
    intro x
    constructor
    · intro hx
      rcases List.mem_cons.mp hx with rfl | hx
      · exact ⟨List.mem_append_right _ (List.mem_singleton_self _), x, List.mem_cons_self, .refl x⟩
      · obtain ⟨hx, g, hg, hgx⟩ := (h.mem_stack x).mp hx
        exact ⟨List.mem_append_left _ hx, g, List.mem_cons_of_mem v hg, hgx⟩
    · rintro ⟨hx, g, hg, hgx⟩
      rcases List.mem_append.mp hx with hold | hnew
      · refine List.mem_cons_of_mem v ((h.mem_stack x).mpr ⟨hold, ?_⟩)
        rcases List.mem_cons.mp hg with rfl | hg
        · exact hs.joined_on_path hold hv hgx.symm
        · exact ⟨g, hg, hgx⟩
      · rw [List.mem_singleton.mp hnew]
        exact List.mem_cons_self
  case low_joined =>
    intro x hx
    rcases List.mem_append.mp hx with hx | hx
    · obtain ⟨y, hy, hl, hyx⟩ := h.low_joined x hx
      refine ⟨y, List.mem_append_left _ hy, ?_, hyx⟩
      rw [idx_concat hy]
      exact (hlow hx).trans hl
    · rw [List.mem_singleton.mp hx]
      refine ⟨v, List.mem_append_right _ (List.mem_singleton_self _), ?_, .refl v⟩
      rw [idx_concat_new hv, ← hn.id_eq]
      exact OrderedMap.get?_set_self _ _ _
  case low_le =>
    intro x hx r hr hd l hl
    rcases List.mem_append.mp hx with hx | hx
    · have hr := (first_concat hv hx _ _ _).mp hr
      rw [idx_concat hr.visited]
      exact h.low_le x hx r hr hd l ((hlow hx).symm.trans hl)
    · obtain rfl := List.mem_singleton.mp hx
      rcases hd.eq_or_source with rfl | ⟨c, hc⟩
      · rw [idx_concat_new hv, ← hn.id_eq]
        have hl' : some l = some p.state.id :=
          hl.symm.trans (OrderedMap.get?_set_self _ _ _)
        exact Nat.le_of_eq (Option.some.inj hl')
      · exact absurd (hs.edges_visited _ hc) hv
  case components =>
    intro scc hscc
    obtain ⟨r, hr, hpath, hmem⟩ := h.components scc hscc
    refine ⟨r, List.mem_append_left _ hr, fun g hg hgr => ?_, hmem⟩
    rcases List.mem_cons.mp hg with rfl | hg
    · obtain ⟨g, hg, hgr⟩ := hs.joined_on_path hr hv hgr.symm
      exact hpath g hg hgr
    · exact hpath g hg hgr
  case disjoint => exact h.disjoint
  case covered =>
    intro x hx
    rcases List.mem_append.mp hx with hx | hx
    · refine (h.covered x hx).imp_left ?_
      rintro ⟨g, hg, hgx⟩
      exact ⟨g, List.mem_cons_of_mem v hg, hgx⟩
    · exact Or.inl ⟨x, by rw [List.mem_singleton.mp hx]; exact List.mem_cons_self, .refl x⟩

theorem Complete.edge (hs : Sound children p) (hn : Numbered p) (h : Complete children p)
    (hpath : p.path = v :: rest) (hc : c ∈ children v) (hcv : c ∈ p.visited) :
    Complete children ⟨p.path, p.visited, p.edges ++ [(v, c)], act (.edge v c) p.state⟩ := by
  have hvp : v ∈ p.path := hpath ▸ List.mem_cons_self
  have hv := hs.path_visited v hvp
  have hok := hn.followed_ok hv c
  have hfirst : ∀ {r x state}, First children ⟨p.path, p.visited, p.edges ++ [(v, c)], state⟩ r x →
      First children p r x := fun hr => ⟨hr.visited, hr.joined, hr.least⟩
  have hback : ∀ {r}, First children p r v → Descends p.edges c r →
      First children p r c ∧ Joined children v c := by
    intro r hr hd
    have hvc : Joined children v c := ⟨.single hc, (hd.reaches hs.edges_children).trans hr.joined.1⟩
    exact ⟨hr.of_joined hvc, hvc⟩
  rcases hn.followed_cases hv c with ⟨hstack, heq⟩ | ⟨hstack, lc, lv, hlc, hlv, heq⟩
  · rw [← Except.ok.inj (heq.symm.trans hok)]
    refine ⟨h.stack_ordered, h.mem_stack, h.low_joined, fun x hx r hr hd => ?_, h.components,
      h.disjoint, h.covered⟩
    rcases descends_concat.mp hd with hd | ⟨rfl, hcr⟩
    · exact h.low_le x hx r (hfirst hr) hd
    · exact absurd ((h.mem_stack c).mpr ⟨hcv, x, hvp, (hback (hfirst hr) hcr).2⟩) hstack
  · rw [← Except.ok.inj (heq.symm.trans hok)]
    obtain ⟨_, g, hg, hgc⟩ := (h.mem_stack c).mp hstack
    have hvc : Joined children v c :=
      ⟨.single hc, hgc.2.trans (hs.head_reaches hpath g hg)⟩
    refine ⟨h.stack_ordered, h.mem_stack, fun x hx => ?_, fun x hx r hr hd l hl => ?_,
      h.components, h.disjoint, h.covered⟩
    · by_cases hxv : v = x
      · subst hxv
        obtain ⟨y, hy, hl, hyv⟩ := h.low_joined v hv
        obtain ⟨z, hz, hl', hzc⟩ := h.low_joined c hcv
        obtain rfl := Option.some.inj (hlv.symm.trans hl)
        obtain rfl := Option.some.inj (hlc.symm.trans hl')
        rcases Nat.le_total (p.idx z) (p.idx y) with hzy | hyz
        · refine ⟨z, hz, ?_, hzc.trans hvc.symm⟩
          rw [Nat.min_eq_left hzy]
          exact OrderedMap.get?_set_self _ _ _
        · refine ⟨y, hy, ?_, hyv⟩
          rw [Nat.min_eq_right hyz]
          exact OrderedMap.get?_set_self _ _ _
      · obtain ⟨y, hy, hl, hyx⟩ := h.low_joined x hx
        exact ⟨y, hy, (OrderedMap.get?_set_of_ne hxv).trans hl, hyx⟩
    · have hr := hfirst hr
      by_cases hxv : v = x
      · subst hxv
        have hl : some (min lc lv) = some l :=
          (OrderedMap.get?_set_self _ _ _).symm.trans hl
        rw [← Option.some.inj hl]
        rcases descends_concat.mp hd with hd | ⟨_, hd⟩
        · exact Nat.le_trans (Nat.min_le_right _ _) (h.low_le v hv r hr hd lv hlv)
        · exact Nat.le_trans (Nat.min_le_left _ _)
            (h.low_le c hcv r (hback hr hd).1 hd lc hlc)
      · rcases descends_concat.mp hd with hd | ⟨he, _⟩
        · exact h.low_le x hx r hr hd l ((OrderedMap.get?_set_of_ne hxv).symm.trans hl)
        · exact absurd he.symm hxv

/-- When a node that is not the first of its component is left, nothing is taken. -/
theorem Complete.leave_inner (h : Complete children p) (hpath : p.path = v :: rest)
    {g : α} (hg : g ∈ rest) (hgv : Joined children g v) :
    Complete children ⟨rest, p.visited, p.edges, p.state⟩ := by
  have hgray : ∀ x, (∃ g ∈ p.path, Joined children g x) ↔ ∃ g ∈ rest, Joined children g x := by
    intro x
    rw [hpath]
    constructor
    · rintro ⟨f, hf, hfx⟩
      rcases List.mem_cons.mp hf with rfl | hf
      · exact ⟨g, hg, hgv.trans hfx⟩
      · exact ⟨f, hf, hfx⟩
    · rintro ⟨f, hf, hfx⟩
      exact ⟨f, List.mem_cons_of_mem v hf, hfx⟩
  refine ⟨h.stack_ordered, fun x => ?_, h.low_joined, ?_, fun scc hscc => ?_, h.disjoint,
    fun x hx => ?_⟩
  · rw [h.mem_stack, hgray]
  · exact fun x hx r hr => h.low_le x hx r ⟨hr.visited, hr.joined, hr.least⟩
  · obtain ⟨r, hr, hno, hmem⟩ := h.components scc hscc
    exact ⟨r, hr, fun f hf => hno f (hpath ▸ List.mem_cons_of_mem v hf), hmem⟩
  · exact (h.covered x hx).imp_left (hgray x).mp

section FirstLeft

/-! ### Leaving the first node of a component -/

variable (hs : Sound children p) (h : Complete children p) (hpath : p.path = v :: rest)
  (hroot : ¬ ∃ g ∈ rest, Joined children g v)

include hs hpath hroot

theorem least_of_root {y : α} (hy : y ∈ p.visited) (hyv : Joined children y v) :
    p.idx v ≤ p.idx y :=
  Nat.not_lt.mp fun hlt => hroot (hs.joins [] v rest hpath y hy hyv hlt)

include h

theorem Complete.below_iff {x : α} (hx : x ∈ p.state.stack) :
    p.idx v ≤ p.idx x ↔ Joined children v x := by
  obtain ⟨hxv, g, hg, hgx⟩ := (h.mem_stack x).mp hx
  refine ⟨fun hle => ?_, fun hvx => least_of_root hs hpath hroot hxv hvx.symm⟩
  exact ⟨hs.below v (hpath ▸ List.mem_cons_self) x hxv hle,
    hgx.2.trans (hs.head_reaches hpath g hg)⟩

theorem Complete.low_eq_iff {state : LowLinks α}
    (hdesc : AllDescend children ⟨rest, p.visited, p.edges, state⟩) {x : α}
    (hx : x ∈ p.state.stack) :
    p.state.lowLinkValues.get? x = some (p.idx v) ↔ Joined children v x := by
  have hv := hs.path_visited v (hpath ▸ List.mem_cons_self)
  obtain ⟨hxv, _⟩ := (h.mem_stack x).mp hx
  obtain ⟨y, hy, hl, hyx⟩ := h.low_joined x hxv
  constructor
  · intro hlow
    have hidx := Option.some.inj (hl.symm.trans hlow)
    exact idx_inj hy hidx ▸ hyx
  · intro hvx
    have hfirst : First children p v x :=
      ⟨hv, hvx, fun z hz hzx => least_of_root hs hpath hroot hz (hzx.trans hvx.symm)⟩
    have hd : Descends p.edges x v := hdesc x hxv (fun hm => hroot ⟨x, hm, hvx.symm⟩) v
      ⟨hfirst.visited, hfirst.joined, hfirst.least⟩
    have hle := h.low_le x hxv v hfirst hd _ hl
    rw [hl, Nat.le_antisymm hle (hfirst.least y hy hyx)]

theorem Complete.leave_first (hn : Numbered p) (hchildren : ∀ c ∈ children v, c ∈ p.visited)
    {state : LowLinks α} (hdesc : AllDescend children ⟨rest, p.visited, p.edges, state⟩) :
    Complete children ⟨rest, p.visited, p.edges, act (.leave v) p.state⟩ := by
  have hvp : v ∈ p.path := hpath ▸ List.mem_cons_self
  have hv := hs.path_visited v hvp
  have hlow : ∀ {x}, x ∈ p.state.stack →
      (p.state.lowLinkValues.get? x = some (p.idx v) ↔ Joined children v x) :=
    fun hx => h.low_eq_iff hs hpath hroot hdesc hx
  have hclass : ∀ {x}, Joined children v x → x ∈ p.state.stack := fun hvx =>
    (h.mem_stack _).mpr ⟨hs.component_visited hpath hchildren hroot hvx, v, hvp, hvx⟩
  have hok := hn.finish_ok hv
  rw [hn.finish_eq hv ((hlow (hclass (.refl v))).mpr (.refl v)), if_pos rfl] at hok
  rw [← Except.ok.inj hok]
  -- the component stands on top of the stack, as it was visited after its first node
  have htop : p.state.stack.Pairwise fun a b =>
      decide (p.state.lowLinkValues.get? b = some (p.idx v)) = true →
        decide (p.state.lowLinkValues.get? a = some (p.idx v)) = true := by
    refine h.stack_ordered.imp_of_mem fun {a b} ha hb hlt hqb => ?_
    have hle := (h.below_iff hs hpath hroot hb).mpr ((hlow hb).mp (of_decide_eq_true hqb))
    have hva := (h.below_iff hs hpath hroot ha).mp (Nat.le_trans hle (Nat.le_of_lt hlt))
    exact decide_eq_true ((hlow ha).mpr hva)
  obtain ⟨htake, hdrop⟩ := takeWhile_eq_filter htop
  have hmem : ∀ x, x ∈ OrderedSet.ofList (p.state.popped (p.idx v)) ↔ Joined children v x := by
    intro x
    rw [OrderedSet.mem_ofList, popped, htake, List.mem_filter, decide_eq_true_iff]
    exact ⟨fun hx => (hlow hx.1).mp hx.2, fun hvx => ⟨hclass hvx, (hlow (hclass hvx)).mpr hvx⟩⟩
  have hstack : ∀ x, x ∈ (p.state.popComponent (p.idx v)).stack ↔
      x ∈ p.state.stack ∧ ¬ Joined children v x := by
    intro x
    rw [popComponent, hdrop, List.mem_filter]
    refine and_congr_right fun hx => ?_
    rw [Bool.not_eq_true', decide_eq_false_iff_not, hlow hx]
  have hsize : (OrderedSet.ofList (p.state.popped (p.idx v))).size > 0 :=
    List.length_pos_of_mem ((hmem v).mpr (.refl v))
  have hcomponents : (p.state.popComponent (p.idx v)).stronglyConnectedComponents =
      p.state.stronglyConnectedComponents ++ [.ofList (p.state.popped (p.idx v))] := by
    rw [popComponent_components, if_pos hsize]
  constructor
  case stack_ordered => exact h.stack_ordered.sublist (List.dropWhile_sublist _)
  case mem_stack =>
    intro x
    rw [hstack, h.mem_stack, hpath]
    constructor
    · rintro ⟨⟨hx, g, hg, hgx⟩, hvx⟩
      rcases List.mem_cons.mp hg with rfl | hg
      · exact absurd hgx hvx
      · exact ⟨hx, g, hg, hgx⟩
    · rintro ⟨hx, g, hg, hgx⟩
      exact ⟨⟨hx, g, List.mem_cons_of_mem v hg, hgx⟩,
        fun hvx => hroot ⟨g, hg, hgx.trans hvx.symm⟩⟩
  case low_joined => exact h.low_joined
  case low_le => exact fun x hx r hr => h.low_le x hx r ⟨hr.visited, hr.joined, hr.least⟩
  case components =>
    intro scc hscc
    rw [hcomponents] at hscc
    rcases List.mem_append.mp hscc with hscc | hscc
    · obtain ⟨r, hr, hno, hmem⟩ := h.components scc hscc
      exact ⟨r, hr, fun g hg => hno g (hpath ▸ List.mem_cons_of_mem v hg), hmem⟩
    · refine ⟨v, hv, fun g hg hgv => hroot ⟨g, hg, hgv⟩, ?_⟩
      rw [List.mem_singleton.mp hscc]
      exact hmem
  case disjoint =>
    rw [hcomponents]
    refine List.pairwise_append.mpr ⟨h.disjoint, List.pairwise_singleton _ _, ?_⟩
    intro s hs' t ht x hxs hxt
    obtain ⟨r, _, hno, hmem'⟩ := h.components s hs'
    rw [List.mem_singleton.mp ht] at hxt
    exact hno v hvp (((hmem x).mp hxt).trans ((hmem' x).mp hxs).symm)
  case covered =>
    intro x hx
    rw [hcomponents]
    rcases h.covered x hx with ⟨g, hg, hgx⟩ | ⟨scc, hscc, hx⟩
    · rcases List.mem_cons.mp (hpath ▸ hg) with rfl | hg
      · exact Or.inr ⟨_, List.mem_append_right _ (List.mem_singleton_self _), (hmem x).mpr hgx⟩
      · exact Or.inl ⟨g, hg, hgx⟩
    · exact Or.inr ⟨scc, List.mem_append_left _ hscc, hx⟩

end FirstLeft

theorem Complete.step (hs : Sound children p) (hn : Numbered p) (h : Complete children p)
    (hstep : Step children act p p') (hdesc : AllDescend children p') : Complete children p' := by
  cases hstep with
  | enter hv _ => exact h.enter hs hn hv
  | edge hpath hc hcv => exact h.edge hs hn hpath hc hcv
  | @leave v rest hpath hchildren =>
    by_cases hroot : ∃ g ∈ rest, Joined children g v
    · obtain ⟨g, hg, hgv⟩ := hroot
      have hinner := h.leave_inner hpath hg hgv
      have hordered := List.pairwise_cons.mp (hpath ▸ hs.ordered)
      have hv := hs.path_visited v (hpath ▸ List.mem_cons_self)
      obtain ⟨r, hr⟩ : ∃ r, First children p r v := exists_first hv
      have hvrest : v ∉ rest := fun hm => Nat.lt_irrefl _ (hordered.1 v hm).1
      have hd := hdesc v hv hvrest r ⟨hr.visited, hr.joined, hr.least⟩
      obtain ⟨y, _, hl, _⟩ := h.low_joined v hv
      have hle := h.low_le v hv r hr hd _ hl
      have hrg := hr.least g (hs.path_visited g (hpath ▸ List.mem_cons_of_mem v hg)) hgv
      have hgv := (hordered.1 g hg).1
      have hok := hn.finish_ok hv
      rw [hn.finish_eq hv hl, if_neg (by omega)] at hok
      rwa [← Except.ok.inj hok]
    · exact h.leave_first hs hpath hroot hn hchildren hdesc

end Steps

section Runs
variable {children : α → List α} {p : Point α (LowLinks α)}

theorem complete_start : Complete children start := by
  refine ⟨.nil, fun x => ?_, ?_, ?_, ?_, .nil, ?_⟩
  case refine_1 => simp [start, initial]
  all_goals exact fun x hx => (List.not_mem_nil hx).elim

theorem complete_of_run (hs : Sound children (start : Point α (LowLinks α)))
    (hn : Numbered (start : Point α (LowLinks α)))
    (hrun : ReflTransGen (Step children act) start p) :
    Sound children p ∧ Numbered p ∧ (AllDescend children p → Complete children p) := by
  induction hrun with
  | refl => exact ⟨hs, hn, fun _ => complete_start⟩
  | tail _ hstep ih =>
    obtain ⟨hs, hn, hcomplete⟩ := ih
    exact ⟨hs.step hstep, hn.step hs hstep,
      fun hdesc => (hcomplete (hdesc.back hstep)).step hs hn hstep hdesc⟩

/-- Two components whose nodes have one value are the same. -/
theorem Numbered.component_eq (h : Numbered p) {s t : OrderedSet α}
    (hs : s ∈ p.state.stronglyConnectedComponents) (ht : t ∈ p.state.stronglyConnectedComponents)
    {x y : α} (hx : x ∈ s) (hy : y ∈ t)
    (hlow : p.state.lowLinkValues.get? x = p.state.lowLinkValues.get? y) : s = t := by
  obtain ⟨roots, hnodup, hsccs⟩ := h.taken
  obtain ⟨hlength, htaken⟩ := List.forall₂_iff_get.mp hsccs
  obtain ⟨i, hi, rfl⟩ := List.mem_iff_getElem.mp hs
  obtain ⟨j, hj, rfl⟩ := List.mem_iff_getElem.mp ht
  have hti := htaken i (hlength ▸ hi) hi
  have htj := htaken j (hlength ▸ hj) hj
  have hidx := (hti.members x hx).2.symm.trans (hlow.trans (htj.members y hy).2)
  have hroots := idx_inj hti.root_left.1 (Option.some.inj hidx)
  have hij := hnodup.get_inj_iff.mp hroots
  simp only [Fin.mk.injEq] at hij
  subst hij
  rfl

/-- When the components are right, the values are the ids of the first nodes. -/
theorem Numbered.allDescend (h : Numbered p)
    (hcovered : ∀ x ∈ p.visited, ∃ scc ∈ p.state.stronglyConnectedComponents, x ∈ scc)
    (hjoined : ∀ x ∈ p.visited, ∀ y ∈ p.visited,
      (∃ scc ∈ p.state.stronglyConnectedComponents, x ∈ scc ∧ y ∈ scc) ↔ Joined children x y) :
    AllDescend children p := by
  intro x hx _ ρ hρ
  obtain ⟨s, hs, hρs, hxs⟩ := (hjoined ρ hρ.visited x hx).mpr hρ.joined
  obtain ⟨roots, _, hsccs⟩ := h.taken
  obtain ⟨r, _, htaken⟩ := mem_of_forall₂ hsccs.flip hs
  have hr := htaken.root_left.1
  have hlowx := (htaken.members x hxs).2
  -- the node at which the component was taken is in it
  have hrs : r ∈ s := by
    obtain ⟨t, ht, hrt⟩ := hcovered r hr
    have hst := h.component_eq hs ht hxs hrt (hlowx.trans htaken.root_low.symm)
    exact hst ▸ hrt
  have hrx := (hjoined r hr x hx).mp ⟨s, hs, hrs, hxs⟩
  have hle : p.idx r ≤ p.idx ρ := by
    obtain ⟨y, _, hl, hle, _⟩ := h.low_eq ρ hρ.visited
    rw [(htaken.members ρ hρs).2, Option.some.injEq] at hl
    rwa [hl]
  have hrρ := idx_inj hr (Nat.le_antisymm hle (hρ.least r hr hrx))
  obtain ⟨y, hy, hl, _, hd⟩ := h.low_eq x hx
  rw [hlowx, Option.some.injEq] at hl
  rw [← hrρ, idx_inj hr hl]
  exact hd

end Runs
end LowLinks

/-- The sets have the nodes of the graph as members, each in one of them, and two nodes
are in one set if and only if each is reachable from the other. -/
structure StronglyConnected (graph : DirectedGraph) (components : List (OrderedSet INode)) :
    Prop where
  nonempty : ∀ scc ∈ components, ∃ x, x ∈ scc
  nodes : ∀ scc ∈ components, ∀ x ∈ scc, graph.nodeExists x
  disjoint : components.Pairwise fun s t => ∀ x ∈ s, x ∉ t
  covered : ∀ x, graph.nodeExists x → ∃ scc ∈ components, x ∈ scc
  joined : ∀ x y, graph.nodeExists x → graph.nodeExists y →
    ((∃ scc ∈ components, x ∈ scc ∧ y ∈ scc) ↔ Joined graph.children x y)

/-- In the order of a depth-first search, each node has a descending path to the node of
its component that is visited first. -/
def FirstDescended (graph : DirectedGraph) : Prop :=
  ∀ x r, graph.nodeExists x → graph.nodeExists r → Joined graph.children r x →
    (∀ y, graph.nodeExists y → Joined graph.children y x →
      graph.depthFirst.1.idxOf r ≤ graph.depthFirst.1.idxOf y) →
    Descends graph.depthFirst.2 x r

theorem getStronglyConnectedComponents_iff (graph : DirectedGraph) (hvalid : graph.Valid) :
    ∃ components, graph.getStronglyConnectedComponents = .ok components ∧
      (StronglyConnected graph components ↔ FirstDescended graph) := by
  obtain ⟨p, hp, hok, hnodes, htrail⟩ := LowLinks.getStronglyConnectedComponents_run hvalid
  have hstart := LowLinks.start_searched graph
  obtain ⟨hs, hn, hcomplete⟩ := LowLinks.complete_of_run hstart.sound hstart.numbered hp.run
  have hpath : p.path = [] := hp.path_eq
  have hfirst : FirstDescended graph ↔ LowLinks.AllDescend graph.children p := by
    rw [FirstDescended, htrail]
    constructor
    · intro h x hx _ r hr
      exact h x r ((hnodes x).mpr hx) ((hnodes r).mpr hr.visited) hr.joined
        fun y hy => hr.least y ((hnodes y).mp hy)
    · intro h x r hx hr hrx hleast
      refine h x ((hnodes x).mp hx) (by simp [hpath]) r ⟨(hnodes r).mp hr, hrx, fun y hy => ?_⟩
      exact hleast y ((hnodes y).mpr hy)
  refine ⟨_, hok, ?_⟩
  rw [hfirst]
  constructor
  · intro h
    refine hn.allDescend (fun x hx => h.covered x ((hnodes x).mpr hx)) fun x hx y hy => ?_
    exact h.joined x y ((hnodes x).mpr hx) ((hnodes y).mpr hy)
  · intro hdesc
    have h := hcomplete hdesc
    have hcovered : ∀ x, graph.nodeExists x →
        ∃ scc ∈ p.state.stronglyConnectedComponents, x ∈ scc := by
      intro x hx
      rcases h.covered x ((hnodes x).mp hx) with ⟨g, hg, _⟩ | hscc
      · exact absurd (hpath ▸ hg) List.not_mem_nil
      · exact hscc
    refine ⟨fun scc hscc => ?_, fun scc hscc x hx => ?_, h.disjoint, hcovered,
      fun x y hx hy => ⟨?_, fun hxy => ?_⟩⟩
    · obtain ⟨r, _, _, hmem⟩ := h.components scc hscc
      exact ⟨r, (hmem r).mpr (.refl r)⟩
    · obtain ⟨roots, _, hsccs⟩ := hn.taken
      obtain ⟨r, _, htaken⟩ := LowLinks.mem_of_forall₂ hsccs.flip hscc
      exact (hnodes x).mpr (htaken.members x hx).1.1
    · rintro ⟨scc, hscc, hxs, hys⟩
      obtain ⟨r, _, _, hmem⟩ := h.components scc hscc
      exact ((hmem x).mp hxs).symm.trans ((hmem y).mp hys)
    · obtain ⟨scc, hscc, hxs⟩ := hcovered x hx
      obtain ⟨r, _, _, hmem⟩ := h.components scc hscc
      exact ⟨scc, hscc, hxs, (hmem y).mpr (((hmem x).mp hxs).trans hxy)⟩

namespace DirectedGraph

/-- Two nodes on a cycle. -/
def cycle : DirectedGraph := ofNames ["a", "b"] [("a", "b"), ("b", "a")]

theorem cycle_stronglyConnected : ∃ components,
    cycle.getStronglyConnectedComponents = .ok components ∧
      StronglyConnected cycle components := by
  obtain ⟨components, hok, hiff⟩ := getStronglyConnectedComponents_iff cycle
    (valid_of_entries (by decide) (by decide))
  refine ⟨components, hok, hiff.mpr fun x r hx hr _ hleast => ?_⟩
  have hall : ∀ n, cycle.nodeExists n → n = noOp "a" ∨ n = noOp "b" := by
    intro n hn
    have hmem := OrderedMap.mem_values.mpr ⟨n.name, hn⟩
    have hvalues : cycle.nodes.values = [noOp "a", noOp "b"] := by decide
    rw [hvalues] at hmem
    simpa using hmem
  have hab : Joined cycle.children (noOp "a") (noOp "b") :=
    ⟨.single (by decide), .single (by decide)⟩
  have hroot : Joined cycle.children (noOp "a") x := by
    rcases hall x hx with rfl | rfl
    · exact .refl _
    · exact hab
  have hle := hleast (noOp "a") (by decide) hroot
  rcases hall r hr with rfl | rfl
  · rcases hall x hx with rfl | rfl
    · exact .refl _ _
    · have hedges : cycle.depthFirst.2 =
          [] ++ (noOp "b", noOp "a") :: [(noOp "a", noOp "b")] := by decide
      rw [hedges]
      exact .step (.refl _ _)
  · exact absurd hle (by decide)

/-- A second way back from the cycle of `a` and `b` to the first node. -/
def cycleBefore : DirectedGraph :=
  ofNames ["r", "a", "b"] [("r", "a"), ("a", "b"), ("b", "a"), ("a", "r")]

/-- `b` takes the value of `a` before `a` takes that of `r`, and stays on top of the stack. -/
theorem cycleBefore_lost : ¬ ∀ graph : DirectedGraph, graph.Valid → ∃ components,
    graph.getStronglyConnectedComponents = .ok components ∧
      StronglyConnected graph components := by
  intro h
  obtain ⟨components, hok, hsc⟩ := h cycleBefore (valid_of_entries (by decide) (by decide))
  have hnone : cycleBefore.getStronglyConnectedComponents = .ok [] := by rfl
  obtain rfl := Except.ok.inj (hnone.symm.trans hok)
  obtain ⟨scc, hscc, _⟩ := hsc.covered (noOp "r") (by decide)
  exact List.not_mem_nil hscc

end DirectedGraph
end N8n
