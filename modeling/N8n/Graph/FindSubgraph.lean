import N8n.Graph.Reachability
import N8n.Foundations.FoldM
import Mathlib.Data.Finset.Card
import Mathlib.Logic.Relation

/-!
# The part of a graph between trigger and destination

`findSubgraphRecursive` walks backwards from the destination. A call is a node
and the branch that led to it; `Call` relates a call to those it makes, and the
result consists of the branches of the calls that `Keeps` holds of.
-/

namespace N8n
namespace DirectedGraph

def keepBranch (newGraph : DirectedGraph) (branch : List GraphConnection) :
    Except Failure DirectedGraph :=
  branch.foldlM
    (fun newGraph connection =>
      (newGraph.addNodes [connection.fromNode, connection.toNode]).addConnection connection)
    newGraph

def findSubgraphRecursive (graph : DirectedGraph) (destinationNode trigger : INode) :
    ℕ → INode → DirectedGraph → List GraphConnection → Except Failure DirectedGraph
  | 0, _, _, _ => .error .outOfFuel
  | fuel + 1, current, newGraph, currentBranch =>
    -- If the current node is the chosen trigger keep this branch.
    if current = trigger then (newGraph.addNode trigger).keepBranch currentBranch
    else do
      let parentConnections ← graph.getDirectParentConnections current
      if parentConnections.length = 0 then pure newGraph
      -- If the current node is the destination node again, don't keep this branch.
      else if current = destinationNode ∧
          currentBranch.any (fun c => decide (c.toNode = destinationNode)) then
        pure newGraph
      -- If the current node was already visited, keep this branch.
      else if currentBranch.any (fun c => decide (c.toNode = current)) then
        newGraph.keepBranch currentBranch
      else
        parentConnections.foldlM
          (fun newGraph parentConnection =>
            if parentConnection.type ≠ .main then pure newGraph
            else
              findSubgraphRecursive graph destinationNode trigger fuel parentConnection.fromNode
                newGraph (currentBranch ++ [parentConnection]))
          newGraph

def addUtilityConnections (graph : DirectedGraph) (fuel : ℕ) (subgraph : DirectedGraph) :
    Except Failure DirectedGraph :=
  subgraph.nodes.values.foldlM
    (fun subgraph node => do
      let parentConnections ← graph.getParentConnections fuel node
      parentConnections.elems.foldlM
        (fun subgraph connection =>
          if connection.type = .main then pure subgraph
          else
            (subgraph.addNodes [connection.fromNode, connection.toNode]).addConnection connection)
        subgraph)
    subgraph

def findSubgraph (graph : DirectedGraph) (destination trigger : INode) (fuel : ℕ) :
    Except Failure DirectedGraph := do
  let subgraph ← graph.findSubgraphRecursive destination trigger fuel destination empty []
  graph.addUtilityConnections fuel subgraph

/-! ### The calls of the recursion -/

def OnBranch (branch : List GraphConnection) (node : INode) : Prop :=
  ∃ c ∈ branch, c.toNode = node

inductive Call (graph : DirectedGraph) (trigger : INode) :
    INode × List GraphConnection → INode × List GraphConnection → Prop
  | parent {current : INode} {branch : List GraphConnection} {c : GraphConnection} :
      current ≠ trigger → ¬ OnBranch branch current → c ∈ graph.getConnections →
      c.type = .main → c.toNode = current →
      Call graph trigger (current, branch) (c.fromNode, branch ++ [c])

def Keeps (destination trigger : INode) (q : INode × List GraphConnection) : Prop :=
  q.1 = trigger ∨ (q.1 ≠ destination ∧ OnBranch q.2 q.1)

/-- The connection is on a branch that a call below `q` keeps. -/
def Kept (graph : DirectedGraph) (destination trigger : INode) (q : INode × List GraphConnection)
    (c : GraphConnection) : Prop :=
  ∃ q', Relation.ReflTransGen (Call graph trigger) q q' ∧ Keeps destination trigger q' ∧ c ∈ q'.2

theorem kept_of_no_call {graph : DirectedGraph} {destination trigger : INode}
    {q : INode × List GraphConnection} {c : GraphConnection}
    (h : ∀ q', ¬ Call graph trigger q q') :
    Kept graph destination trigger q c ↔ Keeps destination trigger q ∧ c ∈ q.2 := by
  constructor
  · rintro ⟨q', hcalls, hkeeps, hc⟩
    rcases Relation.ReflTransGen.cases_head hcalls with rfl | ⟨q'', hcall, _⟩
    · exact ⟨hkeeps, hc⟩
    · exact absurd hcall (h q'')
  · rintro ⟨hkeeps, hc⟩
    exact ⟨q, .refl, hkeeps, hc⟩

theorem kept_of_not_keeps {graph : DirectedGraph} {destination trigger : INode}
    {q : INode × List GraphConnection} {c : GraphConnection} (h : ¬ Keeps destination trigger q) :
    Kept graph destination trigger q c ↔
      ∃ q', Call graph trigger q q' ∧ Kept graph destination trigger q' c := by
  constructor
  · rintro ⟨q', hcalls, hkeeps, hc⟩
    rcases Relation.ReflTransGen.cases_head hcalls with rfl | ⟨q'', hcall, hcalls⟩
    · exact absurd hkeeps h
    · exact ⟨q'', hcall, q', hcalls, hkeeps, hc⟩
  · rintro ⟨q'', hcall, q', hcalls, hkeeps, hc⟩
    exact ⟨q', .head hcall hcalls, hkeeps, hc⟩

/-! ### What the recursion collects -/

theorem keepBranch_spec {graph : DirectedGraph} (hv : graph.Valid) {newGraph : DirectedGraph}
    (hw : newGraph.Within graph) {branch : List GraphConnection}
    (hb : ∀ c ∈ branch, c ∈ graph.getConnections) :
    ∃ newGraph', newGraph.keepBranch branch = .ok newGraph' ∧ newGraph'.Within graph ∧
      ∀ c, c ∈ newGraph'.getConnections ↔ c ∈ newGraph.getConnections ∨ c ∈ branch := by
  obtain ⟨newGraph', hok, hw', helems⟩ := FoldM.foldlM_collects (fun g : DirectedGraph => g.Within graph)
    (fun g c => c ∈ g.getConnections) (fun c c' => c' = c) hw
    (fun s c hs hc => hs.addConnection hv (hb c hc))
  refine ⟨newGraph', hok, hw', fun c => ?_⟩
  rw [helems]
  simp

def unvisited (graph : DirectedGraph) (branch : List GraphConnection) : Finset INode :=
  graph.nodes.values.toFinset \ (branch.map GraphConnection.toNode).toFinset

theorem nodeExists_mem {graph : DirectedGraph} {node : INode} (h : graph.nodeExists node) :
    node ∈ graph.nodes.values := OrderedMap.mem_values.mpr ⟨_, h⟩

theorem unvisited_lt {graph : DirectedGraph} {branch : List GraphConnection} {c : GraphConnection}
    (hexists : graph.nodeExists c.toNode) (hn : ¬ OnBranch branch c.toNode) :
    (graph.unvisited (branch ++ [c])).card < (graph.unvisited branch).card := by
  apply Finset.card_lt_card
  rw [Finset.ssubset_iff_of_subset]
  · refine ⟨c.toNode, ?_, ?_⟩
    · simp only [unvisited, Finset.mem_sdiff, List.mem_toFinset, List.mem_map]
      exact ⟨nodeExists_mem hexists, hn⟩
    · simp [unvisited]
  · intro n hn'
    simp only [unvisited, Finset.mem_sdiff, List.mem_toFinset, List.map_append, List.mem_append,
      not_or] at hn' ⊢
    exact ⟨hn'.1, hn'.2.1⟩

theorem findSubgraphRecursive_spec {graph : DirectedGraph} (hv : graph.Valid)
    (destination trigger : INode) {fuel : ℕ} {current : INode} {newGraph : DirectedGraph}
    {branch : List GraphConnection} (hc : graph.nodeExists current) (hw : newGraph.Within graph)
    (hb : ∀ c ∈ branch, c ∈ graph.getConnections)
    (hfuel : (graph.unvisited branch).card < fuel) :
    ∃ newGraph', graph.findSubgraphRecursive destination trigger fuel current newGraph branch =
        .ok newGraph' ∧ newGraph'.Within graph ∧
      ∀ c, c ∈ newGraph'.getConnections ↔
        c ∈ newGraph.getConnections ∨ Kept graph destination trigger (current, branch) c := by
  induction fuel generalizing current newGraph branch with
  | zero => omega
  | succ fuel ih =>
    have hany : ∀ n, (branch.any fun c => decide (c.toNode = n)) = true ↔ OnBranch branch n := by
      simp [OnBranch]
    simp only [findSubgraphRecursive, getDirectParentConnections_eq hc, FoldM.ok_bind]
    by_cases ht : current = trigger
    · subst ht
      rw [if_pos rfl]
      obtain ⟨newGraph', hok, hw', helems⟩ := keepBranch_spec hv (hw.addNode hc) hb
      refine ⟨newGraph', hok, hw', fun c => ?_⟩
      rw [helems, kept_of_no_call]
      · simp [Keeps, DirectedGraph.addNode, getConnections]
      · rintro q' ⟨hne, _⟩
        exact hne rfl
    · rw [if_neg ht]
      split_ifs with hempty hdest hvisited
      · refine ⟨newGraph, rfl, hw, fun c => ?_⟩
        have hnone : ∀ c ∈ graph.getConnections, c.toNode ≠ current := by
          simpa using hempty
        rw [kept_of_no_call]
        · have hoff : ¬ OnBranch branch current := by
            rintro ⟨c, hcb, he⟩
            exact hnone c (hb c hcb) he
          simp [Keeps, ht, hoff]
        · rintro q' ⟨_, _, hcg, _, he⟩
          exact hnone _ hcg he
      · obtain ⟨rfl, hdest⟩ := hdest
        refine ⟨newGraph, rfl, hw, fun c => ?_⟩
        rw [kept_of_no_call]
        · simp [Keeps, ht]
        · rintro q' ⟨_, hoff, _⟩
          exact hoff ((hany _).mp hdest)
      · obtain ⟨newGraph', hok, hw', helems⟩ := keepBranch_spec hv hw hb
        have hon := (hany current).mp hvisited
        refine ⟨newGraph', hok, hw', fun c => ?_⟩
        rw [helems, kept_of_no_call]
        · have hne : current ≠ destination := by
            rintro rfl
            exact hdest ⟨rfl, hvisited⟩
          simp [Keeps, hon, hne]
        · rintro q' ⟨_, hoff, _⟩
          exact hoff hon
      · have hoff : ¬ OnBranch branch current := fun h => hvisited ((hany current).mpr h)
        have hstep : ∀ (s : DirectedGraph) (pc : GraphConnection), s.Within graph →
            pc ∈ graph.getConnections.filter (fun c => decide (c.toNode = current)) →
            ∃ s', (if pc.type ≠ .main then pure s
                else graph.findSubgraphRecursive destination trigger fuel pc.fromNode s
                  (branch ++ [pc])) = .ok s' ∧ s'.Within graph ∧
              ∀ c, c ∈ s'.getConnections ↔ c ∈ s.getConnections ∨
                (pc.type = .main ∧
                  Kept graph destination trigger (pc.fromNode, branch ++ [pc]) c) := by
          intro s pc hs hpc
          obtain ⟨hpc, hto⟩ := List.mem_filter.mp hpc
          have hto : pc.toNode = current := of_decide_eq_true hto
          by_cases hmain : pc.type = .main
          · simp only [hmain, ne_eq, not_true_eq_false, if_false, true_and]
            have hexists : graph.nodeExists pc.toNode := hto ▸ hc
            have hoff' : ¬ OnBranch branch pc.toNode := hto ▸ hoff
            have hlt := unvisited_lt hexists hoff'
            apply ih (hv.ends pc hpc).1 hs _ (by omega)
            intro c hm
            rcases List.mem_append.mp hm with hm | hm
            · exact hb c hm
            · exact List.mem_singleton.mp hm ▸ hpc
          · exact ⟨s, if_pos hmain, hs, by simp [hmain]⟩
        obtain ⟨newGraph', hok, hw', helems⟩ := FoldM.foldlM_collects
          (fun g : DirectedGraph => g.Within graph) (fun g c => c ∈ g.getConnections)
          (fun pc c => pc.type = .main ∧
            Kept graph destination trigger (pc.fromNode, branch ++ [pc]) c) hw hstep
        refine ⟨newGraph', hok, hw', fun c => ?_⟩
        rw [helems, kept_of_not_keeps (by simp [Keeps, ht, hoff])]
        apply or_congr_right
        constructor
        · rintro ⟨pc, hpc, hmain, hkept⟩
          obtain ⟨hpc, hto⟩ := List.mem_filter.mp hpc
          exact ⟨_, .parent ht hoff hpc hmain (of_decide_eq_true hto), hkept⟩
        · rintro ⟨_, ⟨_, _, hpc, hmain, hto⟩, hkept⟩
          exact ⟨_, List.mem_filter.mpr ⟨hpc, decide_eq_true hto⟩, hmain, hkept⟩

/-! ### The utility connections -/

/-- The second part of `findSubgraph` succeeds and leaves the main connections alone. -/
theorem addUtilityConnections_spec {graph : DirectedGraph} (hv : graph.Valid) {fuel : ℕ}
    (hfuel : graph.getConnections.toFinset.card < fuel) {part : DirectedGraph}
    (hw : part.Within graph) :
    ∃ part', graph.addUtilityConnections fuel part = .ok part' ∧
      ∀ c, (c ∈ part'.getConnections ∧ c.type = .main) ↔
        (c ∈ part.getConnections ∧ c.type = .main) := by
  have hstep : ∀ (s : DirectedGraph) (c : GraphConnection), s.Within graph →
      c ∈ graph.getConnections →
      ∃ s', (if c.type = .main then pure s
          else (s.addNodes [c.fromNode, c.toNode]).addConnection c) = Except.ok s' ∧
        s'.Within graph ∧ ∀ c', (c' ∈ s'.getConnections ∧ c'.type = .main) ↔
          (c' ∈ s.getConnections ∧ c'.type = .main) ∨ False := by
    intro s c hs hc
    split_ifs with hmain
    · exact ⟨s, rfl, hs, by simp⟩
    · obtain ⟨s', hok, hs', helems⟩ := hs.addConnection hv hc
      refine ⟨s', hok, hs', fun c' => ?_⟩
      rw [helems, or_false]
      constructor
      · rintro ⟨h | rfl, ht⟩
        · exact ⟨h, ht⟩
        · exact absurd ht hmain
      · exact fun h => ⟨Or.inl h.1, h.2⟩
  have hnodes : ∀ (s : DirectedGraph) (node : INode), s.Within graph → node ∈ part.nodes.values →
      ∃ s', (do
          let parentConnections ← graph.getParentConnections fuel node
          parentConnections.elems.foldlM (fun subgraph connection =>
            if connection.type = .main then pure subgraph
            else (subgraph.addNodes [connection.fromNode, connection.toNode]).addConnection
              connection) s) = Except.ok s' ∧
        s'.Within graph ∧ ∀ c', (c' ∈ s'.getConnections ∧ c'.type = .main) ↔
          (c' ∈ s.getConnections ∧ c'.type = .main) ∨ False := by
    intro s node hs hnode
    obtain ⟨name, hname⟩ := OrderedMap.mem_values.mp hnode
    have hn : graph.nodeExists node := by
      have hget := hw.nodes name node hname
      rwa [nodeExists, hv.named name node hget]
    obtain ⟨all, hok, hall⟩ := hv.getParentConnections hn hfuel
    rw [hok, FoldM.ok_bind]
    obtain ⟨s', hok', hs', helems⟩ := FoldM.foldlM_collects
      (fun g : DirectedGraph => g.Within graph)
      (fun g c => c ∈ g.getConnections ∧ c.type = .main) (fun _ _ => False) hs
      (fun s c hs hc => hstep s c hs ((hall c).mp hc).1)
    exact ⟨s', hok', hs', by simpa using helems⟩
  obtain ⟨part', hok, _, helems⟩ := FoldM.foldlM_collects
    (fun g : DirectedGraph => g.Within graph)
    (fun g c => c ∈ g.getConnections ∧ c.type = .main) (fun _ _ => False) hw hnodes
  exact ⟨part', hok, by simpa using helems⟩

end DirectedGraph
end N8n
