import Mathlib.Data.List.Pairwise
import N8n.Graph.LowLinks

/-!
# Start nodes that are part of a cycle

A start node in one of the sets that `getStronglyConnectedComponents` returns is replaced
by the first node of that set which a search from the trigger meets. The sets may leave
nodes out, but their members do reach each other and no node is in two of them.
-/

namespace N8n

open DepthFirst Relation

namespace DirectedGraph

/-- Once a node is found no child is searched any more. -/
def unlessFound (search : OrderedSet INode → Except Failure (Option INode × OrderedSet INode)) :
    Option INode × OrderedSet INode → Except Failure (Option INode × OrderedSet INode)
  | (some found, seen) => .ok (some found, seen)
  | (none, seen) => search seen

def depthFirstSearchRecursive (graph : DirectedGraph) (fn : INode → Bool) :
    ℕ → INode → OrderedSet INode → Except Failure (Option INode × OrderedSet INode)
  | 0, _, _ => .error .outOfFuel
  | fuel + 1, node, seen =>
    if node ∈ seen then .ok (none, seen)
    else
      let seen := seen.insert node
      if fn node then .ok (some node, seen)
      else do
        let childConnections ← graph.getDirectChildConnections node
        childConnections.foldlM
          (fun state childConnection =>
            unlessFound (graph.depthFirstSearchRecursive fn fuel childConnection.toNode) state)
          (none, seen)

def depthFirstSearch (graph : DirectedGraph) (node : INode) (fn : INode → Bool) :
    Except Failure (Option INode) :=
  Prod.fst <$> graph.depthFirstSearchRecursive fn (graph.nodes.size + 1) node .empty

/-- The start node is replaced if it is part of the cycle. -/
def replaceStartNode (graph : DirectedGraph) (trigger startNode : INode)
    (newStartNodes cycle : OrderedSet INode) : Except Failure (OrderedSet INode) :=
  if startNode ∈ cycle then do
    match ← graph.depthFirstSearch trigger fun node => decide (node ∈ cycle) with
    | none => .error .assertionError
    | some firstNode => .ok ((newStartNodes.delete startNode).insert firstNode)
  else .ok newStartNodes

def replaceInCycles (graph : DirectedGraph) (cycles : List (OrderedSet INode)) (trigger : INode)
    (newStartNodes : OrderedSet INode) (startNode : INode) : Except Failure (OrderedSet INode) :=
  cycles.foldlM (graph.replaceStartNode trigger startNode) newStartNodes

def handleCycles (graph : DirectedGraph) (startNodes : OrderedSet INode) (trigger : INode) :
    Except Failure (OrderedSet INode) := do
  let components ← graph.getStronglyConnectedComponents
  let cycles := components.filter fun cycle => decide (cycle.size ≥ 1)
  if cycles.length = 0 then .ok startNodes
  else startNodes.elems.foldlM (graph.replaceInCycles cycles trigger) startNodes

end DirectedGraph

/-! ### The members of a component -/

namespace LowLinks

section Members
variable {α : Type} [DecidableEq α] {children : α → List α} {p p' : Point α (LowLinks α)}
  {v : α} {rest : List α}

/-- What was taken as a component has left the stack. -/
structure Taken (children : α → List α) (p : Point α (LowLinks α)) : Prop where
  stack_nodup : p.state.stack.Nodup
  members : ∀ scc ∈ p.state.stronglyConnectedComponents, ∀ x ∈ scc, x ∈ p.visited ∧
    x ∉ p.state.stack ∧ ∀ y ∈ scc, Joined children x y
  disjoint : p.state.stronglyConnectedComponents.Pairwise fun s t => ∀ x ∈ s, x ∉ t

theorem Taken.enter (hn : Numbered p) (h : Taken children p) (hv : v ∉ p.visited) :
    Taken children ⟨v :: p.path, p.visited ++ [v], p.edges, act (.enter v) p.state⟩ := by
  refine ⟨List.nodup_cons.mpr ⟨fun hm => hv (hn.stack_visited v hm), h.stack_nodup⟩,
    fun scc hscc x hx => ?_, h.disjoint⟩
  obtain ⟨hxv, hstack, hjoined⟩ := h.members scc hscc x hx
  refine ⟨List.mem_append_left _ hxv, fun hm => ?_, hjoined⟩
  rcases List.mem_cons.mp hm with rfl | hm
  · exact hv hxv
  · exact hstack hm

theorem Taken.edge {c : α} (hn : Numbered p) (h : Taken children p) (hv : v ∈ p.visited)
    (edges : List (α × α)) :
    Taken children ⟨p.path, p.visited, edges, act (.edge v c) p.state⟩ := by
  have hok := hn.followed_ok hv c
  rcases hn.followed_cases hv c with ⟨_, heq⟩ | ⟨_, _, _, _, _, heq⟩ <;>
    (rw [← Except.ok.inj (heq.symm.trans hok)]; exact ⟨h.stack_nodup, h.members, h.disjoint⟩)

/-- A node with the value of one on the path reaches it, and lies below it. -/
theorem joined_of_low (hs : Sound children p) (hn : Numbered p) (hv : v ∈ p.path) {x : α}
    (hx : x ∈ p.visited) (hlow : p.state.lowLinkValues.get? x = some (p.idx v)) :
    Joined children x v := by
  obtain ⟨y, hy, hl, hle, hd⟩ := hn.low_eq x hx
  rw [hlow, Option.some.injEq] at hl
  obtain rfl := idx_inj (hs.path_visited v hv) hl
  exact ⟨hd.reaches hs.edges_children, hs.below v hv x hx hle⟩

theorem Taken.leave (hs : Sound children p) (hn : Numbered p) (h : Taken children p)
    (hpath : p.path = v :: rest) :
    Taken children ⟨rest, p.visited, p.edges, act (.leave v) p.state⟩ := by
  have hvp : v ∈ p.path := hpath ▸ List.mem_cons_self
  have hv := hs.path_visited v hvp
  obtain ⟨y, _, hl, _⟩ := hn.low_eq v hv
  have hok := hn.finish_ok hv
  rw [hn.finish_eq hv hl] at hok
  rw [← Except.ok.inj hok]
  split_ifs
  · have hstack : p.state.popped (p.idx v) ++ (p.state.popComponent (p.idx v)).stack =
        p.state.stack := List.takeWhile_append_dropWhile
    have hnodup := h.stack_nodup
    rw [← hstack] at hnodup
    obtain ⟨_, hrest, hapart⟩ := List.nodup_append.mp hnodup
    have hsub : ∀ x, x ∈ (p.state.popComponent (p.idx v)).stack → x ∈ p.state.stack :=
      fun x hx => hstack ▸ List.mem_append_right _ hx
    have hnew : ∀ x ∈ OrderedSet.ofList (p.state.popped (p.idx v)), x ∈ p.visited ∧
        x ∉ (p.state.popComponent (p.idx v)).stack ∧
          ∀ y ∈ OrderedSet.ofList (p.state.popped (p.idx v)), Joined children x y := by
      intro x hx
      have hx := OrderedSet.mem_ofList.mp hx
      have hjoined : ∀ {x}, x ∈ p.state.popped (p.idx v) → Joined children x v := fun hx =>
        joined_of_low hs hn hvp (hn.stack_visited _ (mem_popped hx).1) (mem_popped hx).2
      refine ⟨hn.stack_visited x (mem_popped hx).1, fun hm => hapart x hx x hm rfl, fun y hy => ?_⟩
      exact (hjoined hx).trans (hjoined (OrderedSet.mem_ofList.mp hy)).symm
    have hold : ∀ scc ∈ p.state.stronglyConnectedComponents, ∀ x ∈ scc, x ∈ p.visited ∧
        x ∉ (p.state.popComponent (p.idx v)).stack ∧ ∀ y ∈ scc, Joined children x y := by
      intro scc hscc x hx
      obtain ⟨hxv, hstack, hjoined⟩ := h.members scc hscc x hx
      exact ⟨hxv, fun hm => hstack (hsub x hm), hjoined⟩
    refine ⟨hrest, ?_, ?_⟩ <;> dsimp only <;> rw [popComponent_components] <;> split_ifs
    · intro scc hscc
      rcases List.mem_append.mp hscc with hscc | hscc
      · exact hold scc hscc
      · rw [List.mem_singleton.mp hscc]
        exact hnew
    · exact hold
    · refine List.pairwise_append.mpr ⟨h.disjoint, List.pairwise_singleton _ _, ?_⟩
      intro s hscc t ht x hxs hxt
      rw [List.mem_singleton.mp ht] at hxt
      exact (h.members s hscc x hxs).2.1 (mem_popped (OrderedSet.mem_ofList.mp hxt)).1
    · exact h.disjoint
  · exact ⟨h.stack_nodup, h.members, h.disjoint⟩

theorem Taken.step (hs : Sound children p) (hn : Numbered p) (h : Taken children p)
    (hstep : Step children act p p') : Taken children p' := by
  cases hstep with
  | enter hv _ => exact h.enter hn hv
  | edge hpath _ _ => exact h.edge hn (hs.path_visited _ (hpath ▸ List.mem_cons_self)) _
  | leave hpath _ => exact h.leave hs hn hpath

theorem taken_of_run (hs : Sound children (start : Point α (LowLinks α)))
    (hn : Numbered (start : Point α (LowLinks α)))
    (hrun : ReflTransGen (Step children act) start p) :
    Sound children p ∧ Numbered p ∧ Taken children p := by
  induction hrun with
  | refl => exact ⟨hs, hn, .nil, fun _ h => (List.not_mem_nil h).elim, .nil⟩
  | tail _ hstep ih =>
    obtain ⟨hs, hn, htaken⟩ := ih
    exact ⟨hs.step hstep, hn.step hs hstep, htaken.step hs hn hstep⟩

end Members
end LowLinks

namespace DirectedGraph

/-- The sets are parts of components and no node is in two of them. -/
structure ComponentParts (graph : DirectedGraph) (components : List (OrderedSet INode)) : Prop where
  nodes : ∀ scc ∈ components, ∀ x ∈ scc, graph.nodeExists x
  joined : ∀ scc ∈ components, ∀ x ∈ scc, ∀ y ∈ scc, Joined graph.children x y
  disjoint : components.Pairwise fun s t => ∀ x ∈ s, x ∉ t

theorem getStronglyConnectedComponents_parts {graph : DirectedGraph} (hvalid : graph.Valid) :
    ∃ components, graph.getStronglyConnectedComponents = .ok components ∧
      ComponentParts graph components := by
  obtain ⟨p, hp, hok, hnodes, _⟩ := LowLinks.getStronglyConnectedComponents_run hvalid
  have hstart := LowLinks.start_searched graph
  obtain ⟨_, _, htaken⟩ := LowLinks.taken_of_run hstart.sound hstart.numbered hp.run
  exact ⟨_, hok, fun scc hscc x hx => (hnodes x).mpr (htaken.members scc hscc x hx).1,
    fun scc hscc x hx => (htaken.members scc hscc x hx).2.2, htaken.disjoint⟩

/-! ### The search for the first node -/

/-- A search that found nothing leaves these nodes seen. -/
structure Exhausted (graph : DirectedGraph) (fn : INode → Bool) (seen seen' : OrderedSet INode) :
    Prop where
  keeps : ∀ x ∈ seen, x ∈ seen'
  within : ∀ x ∈ seen', x ∈ seen ∨ graph.nodeExists x
  fails : ∀ x ∈ seen', x ∈ seen ∨ fn x = false
  closed : ∀ x ∈ seen', x ∈ seen ∨ ∀ c ∈ graph.children x, c ∈ seen'

section Search
variable {graph : DirectedGraph} {fn : INode → Bool} {seen seen' seen'' : OrderedSet INode}

theorem Exhausted.refl : Exhausted graph fn seen seen :=
  ⟨fun _ => id, fun _ => Or.inl, fun _ => Or.inl, fun _ => Or.inl⟩

theorem Exhausted.trans (h : Exhausted graph fn seen seen') (h' : Exhausted graph fn seen' seen'') :
    Exhausted graph fn seen seen'' := by
  refine ⟨fun x hx => h'.keeps x (h.keeps x hx), fun x hx => ?_, fun x hx => ?_, fun x hx => ?_⟩
  · exact (h'.within x hx).elim (h.within x) Or.inr
  · exact (h'.fails x hx).elim (h.fails x) Or.inr
  · rcases h'.closed x hx with hx | hx
    · exact (h.closed x hx).imp_right fun hc c hcx => h'.keeps c (hc c hcx)
    · exact Or.inr hx

theorem Exhausted.size_le (h : Exhausted graph fn seen seen') : seen.size ≤ seen'.size :=
  seen.nodup.length_le_of_subset h.keeps

/-- The outcome of a search from one of `nodes`. -/
def Searches (graph : DirectedGraph) (fn : INode → Bool) (seen : OrderedSet INode)
    (nodes : List INode) (result : Except Failure (Option INode × OrderedSet INode)) : Prop :=
  (∃ found seen', result = .ok (some found, seen') ∧ fn found = true ∧
    ∃ n ∈ nodes, Reaches graph.children n found) ∨
  ∃ seen', result = .ok (none, seen') ∧ (∀ n ∈ nodes, n ∈ seen') ∧ Exhausted graph fn seen seen'

theorem foldlM_found {search : INode → OrderedSet INode →
      Except Failure (Option INode × OrderedSet INode)} (l : List GraphConnection) (found : INode)
    (seen : OrderedSet INode) :
    l.foldlM (fun state c => unlessFound (search c.toNode) state) (some found, seen) =
      .ok (some found, seen) := by
  induction l with
  | nil => rfl
  | cons c l ih => exact ih

theorem searches_children {fuel : ℕ}
    (hsearch : ∀ node seen, (∀ x ∈ seen, graph.nodeExists x) →
      graph.nodes.size < seen.size + fuel → graph.nodeExists node →
      Searches graph fn seen [node] (graph.depthFirstSearchRecursive fn fuel node seen))
    (l : List GraphConnection) (hl : ∀ c ∈ l, graph.nodeExists c.toNode)
    (hseen : ∀ x ∈ seen, graph.nodeExists x) (hsize : graph.nodes.size < seen.size + fuel) :
    Searches graph fn seen (l.map (·.toNode)) (l.foldlM
      (fun state childConnection =>
        unlessFound (graph.depthFirstSearchRecursive fn fuel childConnection.toNode) state)
      (none, seen)) := by
  induction l generalizing seen with
  | nil => exact Or.inr ⟨seen, rfl, fun n hn => (List.not_mem_nil hn).elim, .refl⟩
  | cons c l ih =>
    rcases hsearch c.toNode seen hseen hsize (hl c List.mem_cons_self) with
      ⟨found, seen', hok, hfn, n, hn, hreach⟩ | ⟨seen', hok, hn, hexhausted⟩
    · refine Or.inl ⟨found, seen', ?_, hfn, c.toNode, List.mem_cons_self,
        List.mem_singleton.mp hn ▸ hreach⟩
      exact (FoldM.foldlM_cons_ok hok).trans (foldlM_found l found seen')
    · have hseen' : ∀ x ∈ seen', graph.nodeExists x := fun x hx =>
        (hexhausted.within x hx).elim (hseen x) id
      have hsize' : graph.nodes.size < seen'.size + fuel :=
        Nat.lt_of_lt_of_le hsize (Nat.add_le_add_right hexhausted.size_le fuel)
      have hrest := ih (fun d hd => hl d (List.mem_cons_of_mem c hd)) hseen' hsize'
      have hround : unlessFound (graph.depthFirstSearchRecursive fn fuel c.toNode) (none, seen) =
          .ok (none, seen') := hok
      rw [FoldM.foldlM_cons_ok hround]
      rcases hrest with ⟨found, seen'', hok', hfn, n, hn', hreach⟩ | ⟨seen'', hok', hn', hex⟩
      · exact Or.inl ⟨found, seen'', hok', hfn, n, List.mem_cons_of_mem _ hn', hreach⟩
      · refine Or.inr ⟨seen'', hok', fun m hm => ?_, hexhausted.trans hex⟩
        rcases List.mem_cons.mp hm with rfl | hm
        · exact hex.keeps _ (hn _ List.mem_cons_self)
        · exact hn' m hm

theorem searches_node (hvalid : graph.Valid) (fuel : ℕ) {node : INode}
    (hseen : ∀ x ∈ seen, graph.nodeExists x) (hsize : graph.nodes.size < seen.size + fuel)
    (hnode : graph.nodeExists node) :
    Searches graph fn seen [node] (graph.depthFirstSearchRecursive fn fuel node seen) := by
  induction fuel generalizing node seen with
  | zero =>
    have hle := seen.nodup.length_le_of_subset
      fun x hx => OrderedMap.mem_values.mpr ⟨x.name, hseen x hx⟩
    rw [OrderedMap.values, List.length_map] at hle
    exact absurd hsize (Nat.not_lt.mpr hle)
  | succ fuel ih =>
    rw [depthFirstSearchRecursive]
    split_ifs with hin hfn
    · refine Or.inr ⟨seen, rfl, fun n hn => ?_, .refl⟩
      exact List.mem_singleton.mp hn ▸ hin
    · exact Or.inl ⟨node, _, rfl, hfn, node, List.mem_cons_self, .refl⟩
    · have hseen' : ∀ x ∈ seen.insert node, graph.nodeExists x := by
        intro x hx
        rcases OrderedSet.mem_insert.mp hx with hx | rfl
        · exact hseen x hx
        · exact hnode
      have hsize' : graph.nodes.size < (seen.insert node).size + fuel := by
        rw [OrderedSet.size_insert hin]
        omega
      have hends : ∀ c ∈ graph.getConnections.filter fun c => decide (c.fromNode = node),
          graph.nodeExists c.toNode := fun c hc => (hvalid.ends c (List.mem_filter.mp hc).1).2
      have hchildren := searches_children (fun n s hs hsz hn => ih hs hsz hn) _ hends hseen' hsize'
      rw [getDirectChildConnections_eq hnode, FoldM.ok_bind]
      rcases hchildren with ⟨found, seen', hok, hfn', n, hn, hreach⟩ | ⟨seen', hok, hn, hex⟩
      · exact Or.inl ⟨found, seen', hok, hfn', node, List.mem_cons_self, .head hn hreach⟩
      · have hmem : node ∈ seen' := hex.keeps node (OrderedSet.mem_insert.mpr (Or.inr rfl))
        refine Or.inr ⟨seen', hok, fun n hn => List.mem_singleton.mp hn ▸ hmem, ?_⟩
        refine ⟨fun x hx => hex.keeps x (OrderedSet.mem_insert.mpr (Or.inl hx)), fun x hx => ?_,
          fun x hx => ?_, fun x hx => ?_⟩
        · rcases hex.within x hx with hx | hx
          · refine (OrderedSet.mem_insert.mp hx).imp_right fun he => ?_
            rw [he]
            exact hnode
          · exact Or.inr hx
        · rcases hex.fails x hx with hx | hx
          · refine (OrderedSet.mem_insert.mp hx).imp_right fun he => ?_
            rw [he]
            simpa using hfn
          · exact Or.inr hx
        · rcases hex.closed x hx with hx | hx
          · refine (OrderedSet.mem_insert.mp hx).imp_right fun he c hc => ?_
            exact hn c (he ▸ hc)
          · exact Or.inr hx

/-- The search finds a node that it can reach. -/
theorem depthFirstSearch_spec (hvalid : graph.Valid) {node : INode} (hnode : graph.nodeExists node)
    (hreach : ∃ n, Reaches graph.children node n ∧ fn n = true) :
    ∃ found, graph.depthFirstSearch node fn = .ok (some found) ∧ fn found = true ∧
      Reaches graph.children node found := by
  have hsize : graph.nodes.size < (OrderedSet.empty : OrderedSet INode).size +
      (graph.nodes.size + 1) := Nat.lt_of_lt_of_le (Nat.lt_succ_self _) (Nat.le_add_left _ _)
  have hsearch : Searches graph fn .empty [node] _ := searches_node hvalid (graph.nodes.size + 1)
    (fun x hx => (OrderedSet.not_mem_empty x hx).elim) hsize hnode
  rcases hsearch with
    ⟨found, seen', hok, hfn, n, hn, hfound⟩ | ⟨seen', hok, hn, hex⟩
  · refine ⟨found, ?_, hfn, List.mem_singleton.mp hn ▸ hfound⟩
    rw [depthFirstSearch, hok]
    rfl
  · obtain ⟨n, hreach, hfn⟩ := hreach
    have hseen : ∀ n, Reaches graph.children node n → n ∈ seen' := by
      intro n hreach
      induction hreach with
      | refl => exact hn node List.mem_cons_self
      | tail _ hbc ih =>
        exact (hex.closed _ ih).resolve_left (OrderedSet.not_mem_empty _) _ hbc
    have hfails := (hex.fails n (hseen n hreach)).resolve_left (OrderedSet.not_mem_empty n)
    rw [hfn] at hfails
    cases hfails

end Search

/-! ### Replacing the start nodes -/

section Replace
variable {graph : DirectedGraph} {trigger : INode} {cycles : List (OrderedSet INode)}
  {newStartNodes : OrderedSet INode}

/-- A node that is reached from the trigger, and exists, shows that the trigger does. -/
theorem trigger_exists (hvalid : graph.Valid) {s : INode} (hs : graph.nodeExists s)
    (hreach : Reaches graph.children trigger s) : graph.nodeExists trigger := by
  rcases ReflTransGen.cases_head hreach with rfl | ⟨c, hc, _⟩
  · exact hs
  · obtain ⟨d, hd, _⟩ := List.mem_map.mp hc
    obtain ⟨hd, hfrom⟩ := List.mem_filter.mp hd
    exact of_decide_eq_true hfrom ▸ (hvalid.ends d hd).1

/-- A cycle that the trigger leads to has a first node. -/
structure FirstNodes (graph : DirectedGraph) (trigger : INode) (cycles : List (OrderedSet INode))
    (firstNode : OrderedSet INode → INode) : Prop where
  found : ∀ cycle ∈ cycles, (∃ s ∈ cycle, Reaches graph.children trigger s) →
    graph.depthFirstSearch trigger (fun node => decide (node ∈ cycle)) =
      .ok (some (firstNode cycle)) ∧ firstNode cycle ∈ cycle ∧
        Reaches graph.children trigger (firstNode cycle)

theorem exists_firstNodes (hvalid : graph.Valid) (hnodes : ∀ cycle ∈ cycles, ∀ x ∈ cycle,
      graph.nodeExists x) : ∃ firstNode, FirstNodes graph trigger cycles firstNode := by
  have hfirst : ∀ cycle, ∃ first : INode, cycle ∈ cycles →
      (∃ s ∈ cycle, Reaches graph.children trigger s) →
      graph.depthFirstSearch trigger (fun node => decide (node ∈ cycle)) = .ok (some first) ∧
        first ∈ cycle ∧ Reaches graph.children trigger first := by
    intro cycle
    by_cases h : cycle ∈ cycles ∧ ∃ s ∈ cycle, Reaches graph.children trigger s
    · obtain ⟨hcycle, s, hs, hreach⟩ := h
      have htrigger := trigger_exists hvalid (hnodes cycle hcycle s hs) hreach
      have hfn : decide (s ∈ cycle) = true := decide_eq_true hs
      obtain ⟨first, hok, hfn, hfound⟩ := @depthFirstSearch_spec graph
        (fun node => decide (node ∈ cycle)) hvalid trigger htrigger ⟨s, hreach, hfn⟩
      exact ⟨first, fun _ _ => ⟨hok, of_decide_eq_true hfn, hfound⟩⟩
    · exact ⟨trigger, fun hcycle hs => absurd ⟨hcycle, hs⟩ h⟩
  obtain ⟨firstNode, hfirst⟩ := Classical.axiomOfChoice hfirst
  exact ⟨firstNode, ⟨hfirst⟩⟩

/-- What a start node is replaced by. -/
def replacement (cycles : List (OrderedSet INode)) (firstNode : OrderedSet INode → INode)
    (startNode : INode) : INode :=
  ((cycles.find? fun cycle => decide (startNode ∈ cycle)).map firstNode).getD startNode

section Found
variable {firstNode : OrderedSet INode → INode} {s : INode}

theorem replacement_of_notMem (h : ∀ cycle ∈ cycles, s ∉ cycle) :
    replacement cycles firstNode s = s := by
  have hnone : cycles.find? (fun cycle => decide (s ∈ cycle)) = none :=
    List.find?_eq_none.mpr fun cycle hcycle => by simpa using h cycle hcycle
  rw [replacement, hnone]
  rfl

theorem mem_unique (hdisjoint : cycles.Pairwise fun s t => ∀ x ∈ s, x ∉ t)
    {cycle cycle' : OrderedSet INode} (hcycle : cycle ∈ cycles) (hcycle' : cycle' ∈ cycles)
    (hs : s ∈ cycle) (hs' : s ∈ cycle') : cycle = cycle' := by
  have hsymm : Std.Symm fun s t : OrderedSet INode => ∀ x ∈ s, x ∉ t :=
    ⟨fun _ _ h x hx hx' => h x hx' hx⟩
  by_contra hne
  exact hdisjoint.forall hcycle hcycle' hne s hs hs'

theorem replacement_of_mem (hdisjoint : cycles.Pairwise fun s t => ∀ x ∈ s, x ∉ t)
    {cycle : OrderedSet INode} (hcycle : cycle ∈ cycles) (hs : s ∈ cycle) :
    replacement cycles firstNode s = firstNode cycle := by
  rw [replacement]
  cases hfind : cycles.find? fun cycle => decide (s ∈ cycle) with
  | none => exact absurd hs (by simpa using List.find?_eq_none.mp hfind cycle hcycle)
  | some cycle' =>
    have hs' : s ∈ cycle' := by simpa using List.find?_some hfind
    rw [mem_unique hdisjoint hcycle (List.mem_of_find?_eq_some hfind) hs hs']
    rfl

theorem replaceInCycles_of_notMem (h : ∀ cycle ∈ cycles, s ∉ cycle) :
    graph.replaceInCycles cycles trigger newStartNodes s = .ok newStartNodes := by
  rw [replaceInCycles]
  induction cycles with
  | nil => rfl
  | cons cycle cycles ih =>
    have hround : graph.replaceStartNode trigger s newStartNodes cycle = .ok newStartNodes :=
      if_neg (h cycle List.mem_cons_self)
    rw [FoldM.foldlM_cons_ok hround]
    exact ih fun cycle' hcycle' => h cycle' (List.mem_cons_of_mem _ hcycle')

theorem replaceInCycles_of_mem (hfirst : FirstNodes graph trigger cycles firstNode)
    (hdisjoint : cycles.Pairwise fun s t => ∀ x ∈ s, x ∉ t)
    (hreach : Reaches graph.children trigger s) {cycle : OrderedSet INode}
    (hcycle : cycle ∈ cycles) (hs : s ∈ cycle) :
    graph.replaceInCycles cycles trigger newStartNodes s =
      .ok ((newStartNodes.delete s).insert (firstNode cycle)) := by
  rw [replaceInCycles]
  induction cycles with
  | nil => cases hcycle
  | cons cycle' cycles ih =>
    obtain ⟨hapart, hdisjoint⟩ := List.pairwise_cons.mp hdisjoint
    rcases List.mem_cons.mp hcycle with rfl | hmem
    · have hfound := (hfirst.found cycle hcycle ⟨s, hs, hreach⟩).1
      have hround : graph.replaceStartNode trigger s newStartNodes cycle =
          .ok ((newStartNodes.delete s).insert (firstNode cycle)) := by
        rw [replaceStartNode, if_pos hs, hfound]
        rfl
      rw [FoldM.foldlM_cons_ok hround]
      exact replaceInCycles_of_notMem fun cycle' hcycle' => hapart cycle' hcycle' s hs
    · have hround : graph.replaceStartNode trigger s newStartNodes cycle' = .ok newStartNodes :=
        if_neg fun hs' => hapart cycle hmem s hs' hs
      rw [FoldM.foldlM_cons_ok hround]
      exact ih ⟨fun c hc => hfirst.found c (List.mem_cons_of_mem _ hc)⟩ hdisjoint hmem

/-- After some start nodes, the set holds what they were replaced by, and the others. -/
theorem replace_all (hfirst : FirstNodes graph trigger cycles firstNode)
    (hdisjoint : cycles.Pairwise fun s t => ∀ x ∈ s, x ∉ t) (todo : List INode)
    (hreach : ∀ s ∈ todo, Reaches graph.children trigger s) (done : List INode)
    (hdone : ∀ s ∈ done, Reaches graph.children trigger s) (hnodup : (done ++ todo).Nodup)
    (hmem : ∀ x, x ∈ newStartNodes ↔
      (∃ s ∈ done, replacement cycles firstNode s = x) ∨ x ∈ todo) :
    ∃ result, todo.foldlM (graph.replaceInCycles cycles trigger) newStartNodes = .ok result ∧
      ∀ x, x ∈ result ↔ ∃ s ∈ done ++ todo, replacement cycles firstNode s = x := by
  induction todo generalizing done newStartNodes with
  | nil => exact ⟨newStartNodes, rfl, by simpa using hmem⟩
  | cons s todo ih =>
    obtain ⟨hdoneNodup, htodo, hapart⟩ := List.nodup_append.mp hnodup
    obtain ⟨hsnew, _⟩ := List.nodup_cons.mp htodo
    have hsdone : s ∉ done := fun hs => hapart s hs s List.mem_cons_self rfl
    have hsreach := hreach s List.mem_cons_self
    have hnodup' : (done ++ [s] ++ todo).Nodup := by
      rwa [List.append_assoc, List.singleton_append]
    have hdone' : ∀ t ∈ done ++ [s], Reaches graph.children trigger t := by
      intro t ht
      rcases List.mem_append.mp ht with ht | ht
      · exact hdone t ht
      · exact List.mem_singleton.mp ht ▸ hsreach
    -- the set after the round, with `s` among those that are done
    obtain ⟨next, hok, hnext⟩ : ∃ next, graph.replaceInCycles cycles trigger newStartNodes s =
        .ok next ∧ ∀ x, x ∈ next ↔
          (∃ t ∈ done ++ [s], replacement cycles firstNode t = x) ∨ x ∈ todo := by
      have hsplit : ∀ x, (∃ t ∈ done ++ [s], replacement cycles firstNode t = x) ↔
          (∃ t ∈ done, replacement cycles firstNode t = x) ∨
            replacement cycles firstNode s = x := by
        intro x
        simp only [List.mem_append, List.mem_singleton, or_and_right, exists_or, exists_eq_left]
      by_cases hin : ∃ cycle ∈ cycles, s ∈ cycle
      · obtain ⟨cycle, hcycle, hs⟩ := hin
        have hrep : replacement cycles firstNode s = firstNode cycle :=
          replacement_of_mem hdisjoint hcycle hs
        obtain ⟨_, hfmem, _⟩ := hfirst.found cycle hcycle ⟨s, hs, hsreach⟩
        refine ⟨_, replaceInCycles_of_mem hfirst hdisjoint hsreach hcycle hs, fun x => ?_⟩
        rw [OrderedSet.mem_insert, OrderedSet.mem_delete, hmem, hsplit, hrep, List.mem_cons]
        constructor
        · rintro (⟨hold | rfl | hx, hne⟩ | rfl)
          · exact Or.inl (Or.inl hold)
          · exact absurd rfl hne
          · exact Or.inr hx
          · exact Or.inl (Or.inr rfl)
        · rintro ((⟨t, ht, rfl⟩ | rfl) | hx)
          · by_cases hts : replacement cycles firstNode t = s
            · refine Or.inr ?_
              by_cases htin : ∃ cycle' ∈ cycles, t ∈ cycle'
              · obtain ⟨cycle', hcycle', ht'⟩ := htin
                have hrep' : replacement cycles firstNode t = firstNode cycle' :=
                  replacement_of_mem hdisjoint hcycle' ht'
                obtain ⟨_, hfmem', _⟩ := hfirst.found cycle' hcycle' ⟨t, ht', hdone t ht⟩
                rw [← hrep', hts] at hfmem'
                rw [hrep', mem_unique hdisjoint hcycle' hcycle hfmem' hs]
              · have htid : replacement cycles firstNode t = t :=
                  replacement_of_notMem fun c hc hm => htin ⟨c, hc, hm⟩
                rw [htid] at hts
                exact absurd (hts ▸ ht) hsdone
            · exact Or.inl ⟨Or.inl ⟨t, ht, rfl⟩, hts⟩
          · exact Or.inr rfl
          · exact Or.inl ⟨Or.inr (Or.inr hx), fun he => hsnew (he ▸ hx)⟩
      · have hnot : ∀ cycle ∈ cycles, s ∉ cycle := fun c hc hm => hin ⟨c, hc, hm⟩
        refine ⟨newStartNodes, replaceInCycles_of_notMem hnot, fun x => ?_⟩
        rw [hmem, hsplit, replacement_of_notMem hnot, List.mem_cons, or_assoc, eq_comm (a := x)]
    obtain ⟨result, hok', hresult⟩ := ih (fun t ht => hreach t (List.mem_cons_of_mem s ht))
      (done ++ [s]) hdone' hnodup' hnext
    refine ⟨result, (FoldM.foldlM_cons_ok hok).trans hok', fun x => ?_⟩
    rw [hresult, List.append_assoc, List.singleton_append]

end Found
end Replace

/-- The start nodes are replaced by nodes that the trigger leads to, each by itself or by a
node that it reaches and that reaches it. -/
theorem handleCycles_safe (graph : DirectedGraph) (hvalid : graph.Valid) (trigger : INode)
    (startNodes : OrderedSet INode)
    (hreach : ∀ s ∈ startNodes, Reaches graph.children trigger s) :
    ∃ result, graph.handleCycles startNodes trigger = .ok result ∧
      (∀ n ∈ result, Reaches graph.children trigger n) ∧
      ∃ replace : INode → INode, (∀ s ∈ startNodes, replace s = s ∨
          Joined graph.children (replace s) s) ∧
        ∀ n, n ∈ result ↔ ∃ s ∈ startNodes, replace s = n := by
  obtain ⟨components, hok, hparts⟩ := getStronglyConnectedComponents_parts hvalid
  obtain ⟨cycles, hcycles⟩ : ∃ cycles,
      cycles = components.filter fun cycle => decide (cycle.size ≥ 1) := ⟨_, rfl⟩
  have hsub : ∀ cycle ∈ cycles, cycle ∈ components := fun cycle hcycle =>
    (List.mem_filter.mp (hcycles ▸ hcycle)).1
  have hdisjoint : cycles.Pairwise fun s t => ∀ x ∈ s, x ∉ t := hcycles ▸ hparts.disjoint.filter _
  obtain ⟨firstNode, hfirst⟩ := @exists_firstNodes graph trigger cycles hvalid
    fun cycle hcycle => hparts.nodes cycle (hsub cycle hcycle)
  rw [handleCycles, hok, FoldM.ok_bind]
  dsimp only
  rw [← hcycles]
  split_ifs
  · exact ⟨startNodes, rfl, hreach, id, fun s _ => Or.inl rfl, fun n => by simp⟩
  · have hstart : ∀ x, x ∈ startNodes ↔
        (∃ s ∈ [], replacement cycles firstNode s = x) ∨ x ∈ startNodes.elems :=
      fun x => by simp [OrderedSet.mem_def]
    obtain ⟨result, hresult, hmem⟩ := replace_all hfirst hdisjoint startNodes.elems hreach []
      nofun startNodes.nodup hstart
    have hreplace : ∀ s ∈ startNodes,
        Reaches graph.children trigger (replacement cycles firstNode s) ∧
          (replacement cycles firstNode s = s ∨
            Joined graph.children (replacement cycles firstNode s) s) := by
      intro s hs
      by_cases hin : ∃ cycle ∈ cycles, s ∈ cycle
      · obtain ⟨cycle, hcycle, hscycle⟩ := hin
        rw [replacement_of_mem hdisjoint hcycle hscycle]
        obtain ⟨_, hfmem, hfreach⟩ := hfirst.found cycle hcycle ⟨s, hscycle, hreach s hs⟩
        exact ⟨hfreach, Or.inr (hparts.joined cycle (hsub cycle hcycle) _ hfmem s hscycle)⟩
      · rw [replacement_of_notMem fun c hc hm => hin ⟨c, hc, hm⟩]
        exact ⟨hreach s hs, Or.inl rfl⟩
    refine ⟨result, hresult, fun n hn => ?_, replacement cycles firstNode,
      fun s hs => (hreplace s hs).2, hmem⟩
    obtain ⟨s, hs, rfl⟩ := (hmem n).mp hn
    exact (hreplace s hs).1

/-- A start node on the cycle of `a` and `b`. -/
def triggerAndCycle : DirectedGraph :=
  ofNames ["trigger", "a", "b"] [("trigger", "a"), ("a", "b"), ("b", "a")]

theorem triggerAndCycle_safe : ∃ result,
    triggerAndCycle.handleCycles (.ofList [noOp "b"]) (noOp "trigger") = .ok result ∧
      (∀ n ∈ result, Reaches triggerAndCycle.children (noOp "trigger") n) ∧
      ∃ replace : INode → INode, (∀ s ∈ OrderedSet.ofList [noOp "b"], replace s = s ∨
          Joined triggerAndCycle.children (replace s) s) ∧
        ∀ n, n ∈ result ↔ ∃ s ∈ OrderedSet.ofList [noOp "b"], replace s = n := by
  refine handleCycles_safe triggerAndCycle (valid_of_entries (by decide) (by decide))
    (noOp "trigger") (.ofList [noOp "b"]) fun s hs => ?_
  obtain rfl := List.mem_singleton.mp (OrderedSet.mem_ofList.mp hs)
  exact .tail (.single (by decide : noOp "a" ∈ _)) (by decide)

end DirectedGraph
end N8n
