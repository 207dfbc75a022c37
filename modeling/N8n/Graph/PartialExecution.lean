import N8n.Graph.CleanRunData
import N8n.Graph.DirtyFrontier
import N8n.Graph.HandleCycles

/-!
# What a partial execution runs again

The run data of the dirty nodes and of all below them is dropped, the start nodes are found in
what is left and moved to the first node of a cycle, and the run data of the start nodes and of
all below them is dropped as well. The nodes below the start nodes run again; the others keep
the data that the new run takes up.
-/

namespace N8n.DirectedGraph

open DepthFirst Relation

variable {ι : Type}

def getNodesByNames (graph : DirectedGraph) (names : List String) : OrderedSet INode :=
  names.foldl
    (fun nodes name =>
      match graph.nodes.get? name with
      | some node => nodes.insert node
      | none => nodes)
    .empty

structure PartialRun (ι : Type) where
  startNodes : OrderedSet INode
  runData : IRunData ι

/-- The steps 3 to 6 of `runPartialWorkflow2`, from the subgraph on. -/
def preparePartialExecution (graph : DirectedGraph) (trigger destination : INode)
    (runData : IRunData ι) (pinData : IPinData ι) (dirtyNodeNames : List String) (fuel : ℕ) :
    Except Failure (PartialRun ι) := do
  let dirtyNodes := graph.getNodesByNames dirtyNodeNames
  let cleaned ← cleanRunData runData graph dirtyNodes
  let startNodes ← graph.findStartNodes trigger destination cleaned.newRunData pinData fuel
  let startNodes ← graph.handleCycles startNodes trigger
  let cleanedAgain ← cleanRunData cleaned.newRunData graph startNodes
  pure ⟨startNodes, cleanedAgain.newRunData⟩

variable {graph : DirectedGraph}

theorem mem_getNodesByNames {names : List String} {node : INode} :
    node ∈ graph.getNodesByNames names ↔ ∃ name ∈ names, graph.nodes.get? name = some node := by
  have hfold : ∀ nodes : OrderedSet INode, node ∈ names.foldl
      (fun nodes name =>
        match graph.nodes.get? name with
        | some node => nodes.insert node
        | none => nodes) nodes ↔
      node ∈ nodes ∨ ∃ name ∈ names, graph.nodes.get? name = some node := by
    induction names with
    | nil => simp
    | cons name names ih =>
      intro nodes
      rw [List.foldl_cons, ih]
      cases hname : graph.nodes.get? name with
      | none => simp [hname]
      | some found =>
        simp only [OrderedSet.mem_insert, List.mem_cons, exists_eq_or_imp, hname,
          Option.some.injEq, or_assoc, eq_comm (a := node)]
  exact (hfold .empty).trans (by simp)

theorem reaches_iff_edges {a b : INode} :
    Reaches graph.children a b ↔ ReflTransGen graph.Edge a b := by
  have hstep : (fun a b => b ∈ graph.children a) = graph.Edge := by
    funext a b
    exact propext mem_childNodes
  rw [Reaches, hstep]

theorem DataEdge.edge {runData : IRunData ι} {pinData : IPinData ι} {a b : INode}
    (h : graph.DataEdge runData pinData a b) : graph.Edge a b := by
  obtain ⟨c, hc, hfrom, hto, -⟩ := h
  exact ⟨c, hc, hfrom, hto⟩

/-! ### The start nodes on cycles -/

/-- Every start node is below a node of the result, and all of these are below the trigger. -/
theorem handleCycles_above (hvalid : graph.Valid) {trigger : INode} {startNodes : OrderedSet INode}
    (hreach : ∀ s ∈ startNodes, Reaches graph.children trigger s) :
    ∃ result, graph.handleCycles startNodes trigger = .ok result ∧
      (∀ n ∈ result, Reaches graph.children trigger n) ∧
      ∀ s ∈ startNodes, ∃ n ∈ result, Reaches graph.children n s := by
  obtain ⟨components, hok, hparts⟩ := getStronglyConnectedComponents_parts hvalid
  obtain ⟨cycles, hcycles⟩ : ∃ cycles,
      cycles = components.filter fun cycle => decide (cycle.size ≥ 1) := ⟨_, rfl⟩
  have hsub : ∀ cycle ∈ cycles, cycle ∈ components := fun cycle hcycle =>
    (List.mem_filter.mp (hcycles ▸ hcycle)).1
  have hdisjoint : cycles.Pairwise fun s t => ∀ x ∈ s, x ∉ t := hcycles ▸ hparts.disjoint.filter _
  obtain ⟨firstNode, hfirst⟩ := @exists_firstNodes graph trigger cycles hvalid
    fun cycle hcycle => hparts.nodes cycle (hsub cycle hcycle)
  have hreplace : ∀ s ∈ startNodes, Reaches graph.children trigger (replacement cycles firstNode s) ∧
      Reaches graph.children (replacement cycles firstNode s) s := by
    intro s hs
    by_cases hin : ∃ cycle ∈ cycles, s ∈ cycle
    · obtain ⟨cycle, hcycle, hscycle⟩ := hin
      obtain ⟨_, hfmem, hfreach⟩ := hfirst.found cycle hcycle ⟨s, hscycle, hreach s hs⟩
      rw [replacement_of_mem hdisjoint hcycle hscycle]
      exact ⟨hfreach, (hparts.joined cycle (hsub cycle hcycle) _ hfmem s hscycle).1⟩
    · rw [replacement_of_notMem fun c hc hm => hin ⟨c, hc, hm⟩]
      exact ⟨hreach s hs, .refl⟩
  rw [handleCycles, hok, FoldM.ok_bind]
  dsimp only
  rw [← hcycles]
  split_ifs
  · exact ⟨startNodes, rfl, hreach, fun s hs => ⟨s, hs, .refl⟩⟩
  · have hstart : ∀ x, x ∈ startNodes ↔
        (∃ s ∈ [], replacement cycles firstNode s = x) ∨ x ∈ startNodes.elems :=
      fun x => by simp [OrderedSet.mem_def]
    obtain ⟨result, hresult, hmem⟩ := replace_all hfirst hdisjoint startNodes.elems hreach []
      (by simp) startNodes.nodup hstart
    refine ⟨result, hresult, fun n hn => ?_, fun s hs => ?_⟩
    · obtain ⟨s, hs, rfl⟩ := (hmem n).mp hn
      exact (hreplace s hs).1
    · exact ⟨_, (hmem _).mpr ⟨s, hs, rfl⟩, (hreplace s hs).2⟩

/-! ### What data gets to -/

section Fed

variable {trigger destination : INode} {runData : IRunData ι} {pinData : IPinData ι}

/-- On its way the data meets the frontier, or no node up to here stops. -/
theorem frontier_above_or_passes (destination : INode) {n : INode}
    (hfed : ReflTransGen (graph.DataEdge runData pinData) trigger n) :
    (∃ v, graph.Frontier trigger destination runData pinData v ∧ ReflTransGen graph.Edge v n) ∨
      ¬ Stopping destination runData pinData n := by
  have hpath : (∃ v, graph.Frontier trigger destination runData pinData v ∧
        ReflTransGen graph.Edge v n) ∨
      ReflTransGen (fun x y => ¬ Stopping destination runData pinData x ∧
        graph.DataEdge runData pinData x y) trigger n := by
    induction hfed with
    | refl => exact Or.inr .refl
    | @tail x y _ hedge ih =>
      rcases ih with ⟨v, hv, hpath⟩ | hpath
      · exact Or.inl ⟨v, hv, hpath.tail hedge.edge⟩
      · by_cases hstop : Stopping destination runData pinData x
        · exact Or.inl ⟨x, ⟨hstop, hpath⟩, .single hedge.edge⟩
        · exact Or.inr (hpath.tail ⟨hstop, hedge⟩)
  rcases hpath with hpath | hpath
  · exact Or.inl hpath
  · by_cases hstop : Stopping destination runData pinData n
    · exact Or.inl ⟨n, ⟨hstop, hpath⟩, .refl⟩
    · exact Or.inr hstop

theorem Frontier.reached {v : INode} (h : graph.Frontier trigger destination runData pinData v) :
    Reaches graph.children trigger v :=
  reaches_iff_edges.mpr (ReflTransGen.mono (fun _ _ hstep => hstep.2.edge) _ _ h.2)

end Fed

theorem HasEntries.of_sub {runData newRunData : IRunData ι} (h : graph.HasEntries runData)
    (hsub : ∀ name runs, newRunData.get? name = some runs → runData.get? name = some runs) :
    graph.HasEntries newRunData :=
  fun node hnode connectionType hleaves runs hruns =>
    h node hnode connectionType hleaves runs (hsub _ _ hruns)

/-! ### The preparation -/

/-- What is left of the run data when the dirty nodes have been cleaned. -/
def DirtyCleaned (graph : DirectedGraph) (runData : IRunData ι) (dirtyNodeNames : List String)
    (cleaned : IRunData ι) : Prop :=
  ∀ name runs, cleaned.get? name = some runs ↔
    runData.get? name = some runs ∧ ∃ node, graph.nodes.get? name = some node ∧
      ¬ (graph.Stale (graph.getNodesByNames dirtyNodeNames) node ∨
        graph.SubNodeAbove (graph.getNodesByNames dirtyNodeNames) node)

/-- What runs again and what does not, where `cleaned` is the run data without the dirty nodes. -/
structure RunsAgain (graph : DirectedGraph) (trigger destination : INode) (cleaned : IRunData ι)
    (pinData : IPinData ι) (prepared : PartialRun ι) : Prop where
  /-- The execution starts at nodes that the trigger leads to. -/
  reached : ∀ start ∈ prepared.startNodes, ReflTransGen graph.Edge trigger start
  /-- A node that runs again has no data of an earlier run. -/
  again : ∀ node, graph.Stale prepared.startNodes node → prepared.runData.get? node.name = none
  /-- The data of all others is left as it is, but for sub nodes of what leads to a start node. -/
  others : ∀ node, graph.nodeExists node → ¬ graph.Stale prepared.startNodes node →
    ¬ graph.SubNodeAbove prepared.startNodes node →
      prepared.runData.get? node.name = cleaned.get? node.name
  /-- A node that data gets to runs again, or it has data, is not the destination and no loop
  that is not done. -/
  fed : ∀ node, ReflTransGen (graph.DataEdge cleaned pinData) trigger node →
    graph.Stale prepared.startNodes node ∨
      (¬ Dirty cleaned pinData node ∧ node ≠ destination ∧ ¬ LoopNotDone cleaned node)

theorem hasEntries_of_main {runData : IRunData ι} (hmain : ∀ c ∈ graph.getConnections, c.type = .main)
    (hdata : ∀ name runs, runData.get? name = some runs → ∀ task ∈ runs,
      ∀ connections, task.data = some connections → (connections.get? .main).isSome) :
    graph.HasEntries runData := by
  intro node _ connectionType hleaves runs hruns task htask connections hconnections
  have htype : connectionType = .main := by
    rcases hleaves with ⟨c, hc, -, rfl⟩ | ⟨-, rfl⟩
    · exact hmain c hc
    · rfl
  exact htype ▸ hdata node.name runs hruns task htask connections hconnections

end N8n.DirectedGraph
