import Mathlib.Data.List.TakeWhile
import N8n.Graph.StronglyConnectedComponents

/-!
# The low link values of a search

`followNode` is a depth-first search whose events change the ids and the low link
values. A low link value is the id of a node that a descending path leads to, and a
component consists of nodes with one value, that of the node at which it was taken.
-/

namespace N8n

open DepthFirst Relation

namespace LowLinks

variable {α : Type} [DecidableEq α]

/-- What an event does to the low links when no assertion fails. -/
def act : Event α → LowLinks α → LowLinks α
  | .enter v, s => s.enter v
  | .edge v c, s => (s.followed v c).toOption.getD s
  | .leave v, s => (s.finish v).toOption.getD s

/-- The component was taken when the search left `root`; its nodes keep their values. -/
structure TakenAt (p : Point α (LowLinks α)) (root : α) (scc : OrderedSet α) : Prop where
  root_left : root ∈ p.visited ∧ root ∉ p.path
  root_low : p.state.lowLinkValues.get? root = some (p.idx root)
  members : ∀ x ∈ scc, (x ∈ p.visited ∧ x ∉ p.path) ∧
    p.state.lowLinkValues.get? x = some (p.idx root)

structure Numbered (p : Point α (LowLinks α)) : Prop where
  visited_eq : p.state.visited.elems = p.visited
  id_eq : p.state.id = p.visited.length
  ids_eq : ∀ v ∈ p.visited, p.state.ids.get? v = some (p.idx v)
  stack_visited : ∀ v ∈ p.state.stack, v ∈ p.visited
  low_eq : ∀ v ∈ p.visited, ∃ y ∈ p.visited, p.state.lowLinkValues.get? v = some (p.idx y) ∧
    p.idx y ≤ p.idx v ∧ Descends p.edges v y
  /-- No two components were taken at one node. -/
  taken : ∃ roots : List α, roots.Nodup ∧
    List.Forall₂ (TakenAt p) roots p.state.stronglyConnectedComponents

theorem TakenAt.mono {p p' : Point α (LowLinks α)} {root : α} {scc : OrderedSet α}
    (h : TakenAt p root scc) (hkeep : ∀ x, x ∈ p.visited → x ∉ p.path →
      (x ∈ p'.visited ∧ x ∉ p'.path) ∧ p'.idx x = p.idx x ∧
        p'.state.lowLinkValues.get? x = p.state.lowLinkValues.get? x) : TakenAt p' root scc := by
  obtain ⟨hleft, hidx, hlow⟩ := hkeep root h.root_left.1 h.root_left.2
  refine ⟨hleft, by rw [hlow, hidx, h.root_low], fun x hx => ?_⟩
  obtain ⟨hx, hl⟩ := h.members x hx
  obtain ⟨hx', _, hlow'⟩ := hkeep x hx.1 hx.2
  exact ⟨hx', by rw [hlow', hidx, hl]⟩

theorem mem_of_forall₂ {β γ : Type} {R : β → γ → Prop} {l : List β} {m : List γ}
    (h : List.Forall₂ R l m) {b : β} (hb : b ∈ l) : ∃ c ∈ m, R b c := by
  induction h with
  | nil => cases hb
  | @cons b' c l m hbc _ ih =>
    rcases List.mem_cons.mp hb with rfl | hb
    · exact ⟨c, List.mem_cons_self, hbc⟩
    · obtain ⟨c', hc', hR⟩ := ih hb
      exact ⟨c', List.mem_cons_of_mem _ hc', hR⟩

section Operations
variable {p : Point α (LowLinks α)} {v c : α}

theorem Numbered.followed_cases (h : Numbered p) (hv : v ∈ p.visited) (c : α) :
    (c ∉ p.state.stack ∧ p.state.followed v c = .ok p.state) ∨
    (c ∈ p.state.stack ∧ ∃ lc lv, p.state.lowLinkValues.get? c = some lc ∧
      p.state.lowLinkValues.get? v = some lv ∧ p.state.followed v c =
        .ok { p.state with lowLinkValues := p.state.lowLinkValues.set v (min lc lv) }) := by
  by_cases hc : c ∈ p.state.stack
  · obtain ⟨y, _, hlc, _⟩ := h.low_eq c (h.stack_visited c hc)
    obtain ⟨z, _, hlv, _⟩ := h.low_eq v hv
    refine Or.inr ⟨hc, _, _, hlc, hlv, ?_⟩
    rw [followed, if_pos hc, hlc, hlv]
  · exact Or.inl ⟨hc, if_neg hc⟩

theorem Numbered.finish_eq (h : Numbered p) (hv : v ∈ p.visited) {l : ℕ}
    (hl : p.state.lowLinkValues.get? v = some l) :
    p.state.finish v = .ok (if p.idx v = l then p.state.popComponent (p.idx v) else p.state) := by
  rw [finish, h.ids_eq v hv, hl]

theorem Numbered.followed_ok (h : Numbered p) (hv : v ∈ p.visited) (c : α) :
    p.state.followed v c = .ok (act (.edge v c) p.state) := by
  rw [act]
  rcases h.followed_cases hv c with ⟨_, hok⟩ | ⟨_, _, _, _, _, hok⟩ <;> (rw [hok]; rfl)

theorem Numbered.finish_ok (h : Numbered p) (hv : v ∈ p.visited) :
    p.state.finish v = .ok (act (.leave v) p.state) := by
  obtain ⟨y, _, hl, _⟩ := h.low_eq v hv
  rw [act, h.finish_eq hv hl]
  rfl

end Operations

section Steps
variable {children : α → List α} {p p' : Point α (LowLinks α)} {v c : α} {rest : List α}

theorem Numbered.enter (h : Numbered p) (hv : v ∉ p.visited) :
    Numbered ⟨v :: p.path, p.visited ++ [v], p.edges, act (.enter v) p.state⟩ := by
  have hidx : ∀ {x}, x ∈ p.visited → (p.visited ++ [v]).idxOf x = p.visited.idxOf x :=
    fun hx => idxOf_append_of_visited hx [v]
  have hne : ∀ {x}, x ∈ p.visited → v ≠ x := fun hx he => hv (he ▸ hx)
  have hlow : ∀ {x}, x ∈ p.visited → (p.state.lowLinkValues.set v p.state.id).get? x =
      p.state.lowLinkValues.get? x := fun hx => OrderedMap.get?_set_of_ne (hne hx)
  constructor
  case visited_eq =>
    rw [act, LowLinks.enter]
    dsimp only
    rw [OrderedSet.elems_insert fun hmem => hv (h.visited_eq ▸ hmem), h.visited_eq]
  case id_eq => simp [act, LowLinks.enter, h.id_eq]
  case ids_eq =>
    intro x hx
    rw [act, LowLinks.enter, Point.idx]
    dsimp only
    rcases List.mem_append.mp hx with hx | hx
    · rw [OrderedMap.get?_set_of_ne (hne hx), hidx hx]
      exact h.ids_eq x hx
    · rw [List.mem_singleton.mp hx, OrderedMap.get?_set_self, idxOf_new hv, h.id_eq]
  case stack_visited =>
    intro x hx
    rcases List.mem_cons.mp hx with rfl | hx
    · exact List.mem_append_right _ (List.mem_singleton_self _)
    · exact List.mem_append_left _ (h.stack_visited x hx)
  case low_eq =>
    intro x hx
    rcases List.mem_append.mp hx with hx | hx
    · obtain ⟨y, hy, hl, hle, hd⟩ := h.low_eq x hx
      refine ⟨y, List.mem_append_left _ hy, ?_, ?_, hd⟩
      · rw [Point.idx, hidx hy]
        exact (hlow hx).trans hl
      · rw [Point.idx, Point.idx, hidx hx, hidx hy]
        exact hle
    · rw [List.mem_singleton.mp hx]
      refine ⟨v, List.mem_append_right _ (List.mem_singleton_self _), ?_, Nat.le_refl _, .refl _ _⟩
      rw [Point.idx, idxOf_new hv, ← h.id_eq]
      exact OrderedMap.get?_set_self _ _ _
  case taken =>
    obtain ⟨roots, hnodup, hsccs⟩ := h.taken
    refine ⟨roots, hnodup, hsccs.imp fun r scc htaken => htaken.mono fun x hx hxp => ?_⟩
    refine ⟨⟨List.mem_append_left _ hx, fun hm => ?_⟩, hidx hx, hlow hx⟩
    exact (List.mem_cons.mp hm).elim (fun he => hne hx he.symm) hxp

theorem Numbered.edge (h : Numbered p) (hpath : p.path = v :: rest) (hv : v ∈ p.visited) :
    Numbered ⟨p.path, p.visited, p.edges ++ [(v, c)], act (.edge v c) p.state⟩ := by
  have hok := h.followed_ok hv c
  rcases h.followed_cases hv c with ⟨_, heq⟩ | ⟨hc, lc, lv, hlc, hlv, heq⟩
  · rw [← Except.ok.inj (heq.symm.trans hok)]
    refine ⟨h.visited_eq, h.id_eq, h.ids_eq, h.stack_visited, fun x hx => ?_, ?_⟩
    · obtain ⟨y, hy, hl, hle, hd⟩ := h.low_eq x hx
      exact ⟨y, hy, hl, hle, hd.append _⟩
    · obtain ⟨roots, hnodup, hsccs⟩ := h.taken
      exact ⟨roots, hnodup, hsccs.imp fun r scc htaken =>
        htaken.mono fun x hx hxp => ⟨⟨hx, hxp⟩, rfl, rfl⟩⟩
  · rw [← Except.ok.inj (heq.symm.trans hok)]
    refine ⟨h.visited_eq, h.id_eq, h.ids_eq, h.stack_visited, fun x hx => ?_, ?_⟩
    · by_cases hxv : v = x
      · subst hxv
        obtain ⟨y, hy, hl, hle, hd⟩ := h.low_eq v hv
        obtain ⟨z, hz, hl', _, hd'⟩ := h.low_eq c (h.stack_visited c hc)
        obtain rfl := Option.some.inj (hlv.symm.trans hl)
        obtain rfl := Option.some.inj (hlc.symm.trans hl')
        rcases Nat.le_total (p.idx z) (p.idx y) with hzy | hyz
        · refine ⟨z, hz, ?_, Nat.le_trans hzy hle, descends_concat.mpr (Or.inr ⟨rfl, hd'⟩)⟩
          rw [Nat.min_eq_left hzy]
          exact OrderedMap.get?_set_self _ _ _
        · refine ⟨y, hy, ?_, hle, hd.append _⟩
          rw [Nat.min_eq_right hyz]
          exact OrderedMap.get?_set_self _ _ _
      · obtain ⟨y, hy, hl, hle, hd⟩ := h.low_eq x hx
        exact ⟨y, hy, (OrderedMap.get?_set_of_ne hxv).trans hl, hle, hd.append _⟩
    · obtain ⟨roots, hnodup, hsccs⟩ := h.taken
      refine ⟨roots, hnodup, hsccs.imp fun r scc htaken => htaken.mono fun x hx hxp => ?_⟩
      have hvx : v ≠ x := fun he => hxp (by rw [hpath, he]; exact List.mem_cons_self)
      exact ⟨⟨hx, hxp⟩, rfl, OrderedMap.get?_set_of_ne hvx⟩

/-- The nodes that are taken off the stack. -/
def popped (s : LowLinks α) (ownId : ℕ) : List α :=
  s.stack.takeWhile fun next => decide (s.lowLinkValues.get? next = some ownId)

theorem popComponent_components (s : LowLinks α) (ownId : ℕ) :
    (s.popComponent ownId).stronglyConnectedComponents =
      if (OrderedSet.ofList (s.popped ownId)).size > 0 then
        s.stronglyConnectedComponents ++ [.ofList (s.popped ownId)]
      else s.stronglyConnectedComponents := rfl

theorem mem_popped {s : LowLinks α} {ownId : ℕ} {x : α} (h : x ∈ s.popped ownId) :
    x ∈ s.stack ∧ s.lowLinkValues.get? x = some ownId :=
  ⟨(List.takeWhile_prefix _).subset h, by simpa using List.mem_takeWhile_imp h⟩

theorem Numbered.leave (hs : Sound children p) (h : Numbered p) (hpath : p.path = v :: rest) :
    Numbered ⟨rest, p.visited, p.edges, act (.leave v) p.state⟩ := by
  have hv : v ∈ p.visited := hs.path_visited v (hpath ▸ List.mem_cons_self)
  have hrest : ∀ {x}, x ∉ p.path → x ∉ rest :=
    fun hx hm => hx (hpath ▸ List.mem_cons_of_mem v hm)
  obtain ⟨y, hy, hl, hle, _⟩ := h.low_eq v hv
  have hok := h.finish_ok hv
  rw [h.finish_eq hv hl] at hok
  rw [← Except.ok.inj hok]
  obtain ⟨roots, hnodup, hsccs⟩ := h.taken
  have hkeep : List.Forall₂ (TakenAt ⟨rest, p.visited, p.edges, p.state⟩) roots
      p.state.stronglyConnectedComponents :=
    hsccs.imp fun r scc htaken => htaken.mono fun x hx hxp => ⟨⟨hx, hrest hxp⟩, rfl, rfl⟩
  split_ifs with hown
  · refine ⟨h.visited_eq, h.id_eq, h.ids_eq, fun x hx => ?_, h.low_eq, ?_⟩
    · exact h.stack_visited x ((List.dropWhile_suffix _).subset hx)
    · have hkeep' : List.Forall₂ (TakenAt ⟨rest, p.visited, p.edges,
          p.state.popComponent (p.idx v)⟩) roots p.state.stronglyConnectedComponents :=
        hkeep.imp fun r scc htaken => ⟨htaken.root_left, htaken.root_low, htaken.members⟩
      rw [popComponent_components]
      split_ifs with hsize
      · refine ⟨roots ++ [v], ?_, List.rel_append hkeep' (.cons ?_ .nil)⟩
        · refine List.nodup_append.mpr ⟨hnodup, List.nodup_singleton v, fun r hr x hx hrx => ?_⟩
          obtain ⟨scc, _, htaken⟩ := mem_of_forall₂ hsccs hr
          apply htaken.root_left.2
          rw [hrx, List.mem_singleton.mp hx, hpath]
          exact List.mem_cons_self
        · have hordered := (List.pairwise_cons.mp (hpath ▸ hs.ordered)).1
          refine ⟨⟨hv, fun hm => Nat.lt_irrefl _ (hordered v hm).1⟩, hown ▸ hl, fun x hx => ?_⟩
          obtain ⟨hstack, hlow⟩ := mem_popped (OrderedSet.mem_ofList.mp hx)
          have hx := h.stack_visited x hstack
          refine ⟨⟨hx, fun hm => ?_⟩, hlow⟩
          obtain ⟨z, _, hlz, hle', _⟩ := h.low_eq x hx
          rw [hlow, Option.some.injEq] at hlz
          have hlt := (hordered x hm).1
          omega
      · exact ⟨roots, hnodup, hkeep'⟩
  · exact ⟨h.visited_eq, h.id_eq, h.ids_eq, h.stack_visited, h.low_eq, roots, hnodup, hkeep⟩

theorem Numbered.step (hs : Sound children p) (h : Numbered p) (hstep : Step children act p p') :
    Numbered p' := by
  cases hstep with
  | enter hv _ => exact h.enter hv
  | edge hpath _ _ => exact h.edge hpath (hs.path_visited _ (hpath ▸ List.mem_cons_self))
  | leave hpath _ => exact h.leave hs hpath

end Steps

/-- The nodes that a search of a graph has visited are nodes of the graph. -/
structure Searched (graph : DirectedGraph) (p : Point INode (LowLinks INode)) : Prop where
  sound : Sound graph.children p
  numbered : Numbered p
  nodes : ∀ x ∈ p.visited, graph.nodeExists x

structure Follows (graph : DirectedGraph) (p p' : Point INode (LowLinks INode)) : Prop where
  run : ReflTransGen (Step graph.children act) p p'
  path_eq : p'.path = p.path
  visited_prefix : p.visited <+: p'.visited
  searched : Searched graph p'

section Search
variable {graph : DirectedGraph} {p p' p'' : Point INode (LowLinks INode)}

theorem Follows.refl (h : Searched graph p) : Follows graph p p :=
  ⟨.refl, rfl, List.prefix_rfl, h⟩

theorem Follows.trans (h : Follows graph p p') (h' : Follows graph p' p'') :
    Follows graph p p'' :=
  ⟨h.run.trans h'.run, h'.path_eq.trans h.path_eq, h.visited_prefix.trans h'.visited_prefix,
    h'.searched⟩

theorem Searched.step (h : Searched graph p) (hstep : Step graph.children act p p')
    (hnodes : ∀ x ∈ p'.visited, graph.nodeExists x) : Searched graph p' :=
  ⟨h.sound.step hstep, h.numbered.step h.sound hstep, hnodes⟩

theorem Searched.length_le (h : Searched graph p) : p.visited.length ≤ graph.nodes.size := by
  have hsub : p.visited ⊆ graph.nodes.values :=
    fun x hx => OrderedMap.mem_values.mpr ⟨x.name, h.nodes x hx⟩
  have hle := h.sound.nodup.length_le_of_subset hsub
  rwa [OrderedMap.values, List.length_map] at hle

/-- The steps that follow one child and leave the edge to it. -/
theorem Follows.edge {v c : INode} {rest : List INode} (h : Follows graph p p')
    (hpath : p.path = v :: rest) (hc : c ∈ graph.children v) (hcv : c ∈ p'.visited) :
    ∃ p'', Follows graph p p'' ∧ p'.state.followed v c = .ok p''.state ∧
      p''.visited = p'.visited ∧ p''.edges = p'.edges ++ [(v, c)] := by
  have hpath' : p'.path = v :: rest := h.path_eq.trans hpath
  have hstep : Step graph.children act p' _ := .edge hpath' hc hcv
  have hv := h.searched.sound.path_visited v (hpath' ▸ List.mem_cons_self)
  exact ⟨_, h.trans ⟨.single hstep, rfl, List.prefix_rfl,
    h.searched.step hstep h.searched.nodes⟩, h.searched.numbered.followed_ok hv c, rfl, rfl⟩

theorem follow_children {fuel : ℕ} (hvalid : graph.Valid) {v : INode} {rest : List INode}
    (hfollow : ∀ p c, Searched graph p → graph.nodes.size < p.visited.length + fuel →
      graph.nodeExists c → (∀ u ∈ p.path.head?, c ∈ graph.children u) →
      ∃ p', Follows graph p p' ∧ graph.followNode fuel p.state c = .ok p'.state ∧
        c ∈ p'.visited ∧
        graph.leaveEdges fuel (p.visited, p.edges) c = (p'.visited, p'.edges))
    (l : List GraphConnection)
    (hl : ∀ c ∈ l, c ∈ graph.getConnections ∧ c.fromNode = v)
    (h : Searched graph p) (hsize : graph.nodes.size < p.visited.length + fuel)
    (hpath : p.path = v :: rest) :
    ∃ p', Follows graph p p' ∧
      l.foldlM (fun s c => graph.followNode fuel s c.toNode >>= followed v c.toNode) p.state =
        .ok p'.state ∧
      (∀ c ∈ l, c.toNode ∈ p'.visited) ∧
      l.foldl (fun trail c =>
          let trail := graph.leaveEdges fuel trail c.toNode
          (trail.1, trail.2 ++ [(v, c.toNode)])) (p.visited, p.edges) =
        (p'.visited, p'.edges) := by
  induction l generalizing p with
  | nil => exact ⟨p, .refl h, rfl, fun c hc => (List.not_mem_nil hc).elim, rfl⟩
  | cons c l ih =>
    obtain ⟨hmem, hfrom⟩ := hl c List.mem_cons_self
    have hchild : c.toNode ∈ graph.children v :=
      List.mem_map.mpr ⟨c, List.mem_filter.mpr ⟨hmem, by simpa using hfrom⟩, rfl⟩
    have hhead : ∀ u ∈ p.path.head?, c.toNode ∈ graph.children u := by
      intro u hu
      rw [hpath] at hu
      exact Option.some.inj hu ▸ hchild
    obtain ⟨p₁, hp₁, hok₁, hcv, hleave₁⟩ :=
      hfollow p c.toNode h hsize (hvalid.ends c hmem).2 hhead
    obtain ⟨p₂, hp₂, hok₂, hvisited₂, hedges₂⟩ := hp₁.edge hpath hchild hcv
    have hsize₂ : graph.nodes.size < p₂.visited.length + fuel :=
      Nat.lt_of_lt_of_le hsize (Nat.add_le_add_right hp₂.visited_prefix.length_le fuel)
    obtain ⟨p₃, hp₃, hok₃, hall, hleave₃⟩ := ih (fun c hc => hl c (List.mem_cons_of_mem _ hc))
      hp₂.searched hsize₂ (hp₂.path_eq.trans hpath)
    refine ⟨p₃, hp₂.trans hp₃, ?_, fun d hd => ?_, ?_⟩
    · have hround : (graph.followNode fuel p.state c.toNode >>= followed v c.toNode) =
          .ok p₂.state := by
        rw [hok₁]
        exact hok₂
      exact (FoldM.foldlM_cons_ok hround).trans hok₃
    · rcases List.mem_cons.mp hd with rfl | hd
      · exact hp₃.visited_prefix.subset (hvisited₂ ▸ hcv)
      · exact hall d hd
    · rw [List.foldl_cons, hleave₁, ← hleave₃, hvisited₂, hedges₂]

theorem Searched.followNode (hvalid : graph.Valid) (fuel : ℕ) {v : INode}
    (h : Searched graph p) (hsize : graph.nodes.size < p.visited.length + fuel)
    (hv : graph.nodeExists v) (hhead : ∀ u ∈ p.path.head?, v ∈ graph.children u) :
    ∃ p', Follows graph p p' ∧ graph.followNode fuel p.state v = .ok p'.state ∧
      v ∈ p'.visited ∧
      graph.leaveEdges fuel (p.visited, p.edges) v = (p'.visited, p'.edges) := by
  induction fuel generalizing p v with
  | zero => exact absurd hsize (Nat.not_lt.mpr h.length_le)
  | succ fuel ih =>
    rw [DirectedGraph.followNode, DirectedGraph.leaveEdges]
    have hseen : v ∈ p.state.visited ↔ v ∈ p.visited := by
      rw [OrderedSet.mem_def, h.numbered.visited_eq]
    by_cases hvis : v ∈ p.visited
    · rw [if_pos (hseen.mpr hvis), if_pos hvis]
      exact ⟨p, .refl h, rfl, hvis, rfl⟩
    · rw [if_neg (fun hm => hvis (hseen.mp hm)), if_neg hvis]
      have henter : Step graph.children act p _ := .enter hvis hhead
      have hp₁ := h.step henter (fun x hx => by
        rcases List.mem_append.mp hx with hx | hx
        · exact h.nodes x hx
        · exact List.mem_singleton.mp hx ▸ hv)
      have hsize₁ : graph.nodes.size < (p.visited ++ [v]).length + fuel := by
        rw [List.length_append, List.length_singleton]
        omega
      have hout : ∀ c ∈ graph.getConnections.filter (fun c => decide (c.fromNode = v)),
          c ∈ graph.getConnections ∧ c.fromNode = v := by
        intro c hc
        simpa using List.mem_filter.mp hc
      obtain ⟨p₂, hp₂, hok₂, hall, hleave₂⟩ := follow_children hvalid
        (fun p c hp hs hc hh => ih hp hs hc hh) _ hout hp₁ hsize₁ rfl
      have hpath₂ : p₂.path = v :: p.path := hp₂.path_eq
      have hchildren : ∀ c ∈ graph.children v, c ∈ p₂.visited := by
        intro c hc
        obtain ⟨d, hd, rfl⟩ := List.mem_map.mp hc
        exact hall d hd
      have hleave : Step graph.children act p₂ _ := .leave hpath₂ hchildren
      have hv₂ := hp₂.searched.sound.path_visited v (hpath₂ ▸ List.mem_cons_self)
      refine ⟨_, ⟨.tail (.head henter hp₂.run) hleave, rfl,
        (List.prefix_append _ _).trans hp₂.visited_prefix,
        hp₂.searched.step hleave hp₂.searched.nodes⟩, ?_, hv₂, hleave₂⟩
      rw [DirectedGraph.getDirectChildConnections, if_pos hv, FoldM.ok_bind]
      exact (congrArg (· >>= _) hok₂).trans (hp₂.searched.numbered.finish_ok hv₂)

theorem Searched.followNodes (hvalid : graph.Valid) (l : List INode) {fuel : ℕ}
    (h : Searched graph p) (hpath : p.path = [])
    (hsize : graph.nodes.size < p.visited.length + fuel) (hl : ∀ v ∈ l, graph.nodeExists v) :
    ∃ p', Follows graph p p' ∧
      l.foldlM (graph.followNode fuel) p.state = .ok p'.state ∧
      (∀ v ∈ l, v ∈ p'.visited) ∧
      l.foldl (graph.leaveEdges fuel) (p.visited, p.edges) = (p'.visited, p'.edges) := by
  induction l generalizing p with
  | nil => exact ⟨p, .refl h, rfl, fun v hv => (List.not_mem_nil hv).elim, rfl⟩
  | cons v l ih =>
    obtain ⟨p₁, hp₁, hok₁, hv, hleave₁⟩ := h.followNode hvalid fuel hsize
      (hl v List.mem_cons_self) (by simp [hpath])
    have hsize₁ : graph.nodes.size < p₁.visited.length + fuel :=
      Nat.lt_of_lt_of_le hsize (Nat.add_le_add_right hp₁.visited_prefix.length_le fuel)
    obtain ⟨p₂, hp₂, hok₂, hall, hleave₂⟩ := ih hp₁.searched (hp₁.path_eq.trans hpath) hsize₁
      (fun v hv => hl v (List.mem_cons_of_mem _ hv))
    refine ⟨p₂, hp₁.trans hp₂, (FoldM.foldlM_cons_ok hok₁).trans hok₂, fun w hw => ?_, ?_⟩
    · rcases List.mem_cons.mp hw with rfl | hw
      · exact hp₂.visited_prefix.subset hv
      · exact hall w hw
    · rw [List.foldl_cons, hleave₁, hleave₂]

def start : Point α (LowLinks α) := ⟨[], [], [], initial⟩

theorem start_searched (graph : DirectedGraph) : Searched graph start := by
  refine ⟨⟨List.nodup_nil, ?_, ?_, ?_, ?_, .nil, ?_, ?_⟩, ⟨rfl, rfl, ?_, ?_, ?_, [], ?_⟩, ?_⟩
  case refine_6 =>
    intro above v rest hpath
    exact absurd hpath (by simp [start])
  case refine_10 => exact ⟨List.nodup_nil, .nil⟩
  all_goals exact fun x hx => (List.not_mem_nil hx).elim

theorem getStronglyConnectedComponents_run (hvalid : graph.Valid) :
    ∃ p, Follows graph start p ∧
      graph.getStronglyConnectedComponents = .ok p.state.stronglyConnectedComponents ∧
      (∀ v, graph.nodeExists v ↔ v ∈ p.visited) ∧
      graph.depthFirst = (p.visited, p.edges) := by
  have hnodes : ∀ v, v ∈ graph.nodes.values ↔ graph.nodeExists v := fun v =>
    hvalid.mem_nodes_values
  have hsize : graph.nodes.size < 0 + (graph.nodes.size + 1) := by omega
  obtain ⟨p, hp, hok, hall, hleave⟩ := (start_searched graph).followNodes hvalid
    graph.nodes.values rfl hsize (fun v hv => (hnodes v).mp hv)
  refine ⟨p, hp, ?_, fun v => ⟨fun hv => hall v ((hnodes v).mpr hv), hp.searched.nodes v⟩, hleave⟩
  exact congrArg (LowLinks.stronglyConnectedComponents <$> ·) hok

end Search
end LowLinks
end N8n
