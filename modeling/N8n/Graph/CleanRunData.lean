import N8n.Graph.Reachability
import N8n.Workflow.RunData

/-!
# Cleaning run data

`cleanRunData` works on a copy of the run data that is passed in. A node that is cleaned takes the
data of its children with it, and that of the sub nodes of all of them. The connections above a
node are collected along all types before those of type `main` are skipped, so the sub nodes of
nodes further up are met as well.
-/

namespace N8n.DirectedGraph

open Relation (ReflTransGen TransGen)

variable {ι : Type}

/-- The object that is passed in, and its copy. -/
structure CleanState (ι : Type) where
  runData : IRunData ι
  newRunData : IRunData ι

/-- `delete newRunData[nodeName]` -/
def CleanState.delete (s : CleanState ι) (nodeName : String) : CleanState ι :=
  { s with newRunData := s.newRunData.delete nodeName }

def searchRounds (graph : DirectedGraph) : ℕ := graph.nodes.size + graph.connections.size + 1

/-- The data of a node and of its sub nodes. -/
def deleteWithSubNodes (graph : DirectedGraph) (s : CleanState ι) (node : INode) :
    Except Failure (CleanState ι) := do
  let subNodeConnections ← graph.getParentConnections graph.searchRounds node
  .ok (subNodeConnections.elems.foldl
    (fun s subNodeConnection =>
      if subNodeConnection.type = .main then s else s.delete subNodeConnection.fromNode.name)
    (s.delete node.name))

def cleanNode (graph : DirectedGraph) (s : CleanState ι) (nodeToClean : INode) :
    Except Failure (CleanState ι) := do
  let s := s.delete nodeToClean.name
  let children ← graph.getChildren graph.searchRounds nodeToClean
  (nodeToClean :: children.elems).foldlM graph.deleteWithSubNodes s

def cleanRunData (runData : IRunData ι) (graph : DirectedGraph) (nodesToClean : OrderedSet INode) :
    Except Failure (CleanState ι) := do
  let s ← nodesToClean.elems.foldlM graph.cleanNode ⟨runData, runData⟩
  .ok (s.newRunData.keys.foldl
    (fun s nodeName => if graph.nodes.has nodeName then s else s.delete nodeName) s)

/-! ### Deletions -/

/-- The names of the predicate are deleted, the others left alone. -/
structure Removes (names : String → Prop) (s s' : CleanState ι) : Prop where
  input : s'.runData = s.runData
  gone : ∀ name, names name → s'.newRunData.get? name = none
  kept : ∀ name, ¬ names name → s'.newRunData.get? name = s.newRunData.get? name

section Removes
variable {s s' s'' : CleanState ι} {names names' : String → Prop}

theorem Removes.refl (s : CleanState ι) : Removes (fun _ => False) s s :=
  ⟨rfl, nofun, fun _ _ => rfl⟩

theorem removes_delete (s : CleanState ι) (name : String) :
    Removes (· = name) s (s.delete name) := by
  refine ⟨rfl, ?_, fun name' hne => OrderedMap.get?_delete_of_ne (Ne.symm hne)⟩
  rintro _ rfl
  exact OrderedMap.get?_delete_self _ _

theorem Removes.congr (h : Removes names s s') (heq : ∀ name, names name ↔ names' name) :
    Removes names' s s' := by
  obtain rfl : names = names' := funext fun name => propext (heq name)
  exact h

theorem Removes.trans (h : Removes names s s') (h' : Removes names' s' s'') :
    Removes (fun name => names name ∨ names' name) s s'' := by
  refine ⟨h'.input.trans h.input, fun name hname => ?_, fun name hname => ?_⟩
  · by_cases hlater : names' name
    · exact h'.gone name hlater
    · rw [h'.kept name hlater]
      exact h.gone name (hname.resolve_right hlater)
  · rw [not_or] at hname
    rw [h'.kept name hname.2, h.kept name hname.1]

theorem removes_foldl {α : Type} {f : CleanState ι → α → CleanState ι} {l : List α}
    (names : α → String → Prop) (h : ∀ s, ∀ a ∈ l, Removes (names a) s (f s a)) (s : CleanState ι) :
    Removes (fun name => ∃ a ∈ l, names a name) s (l.foldl f s) := by
  induction l generalizing s with
  | nil => exact (Removes.refl s).congr (by simp)
  | cons a l ih =>
    have hrest := ih (fun s b hb => h s b (List.mem_cons_of_mem a hb)) (f s a)
    exact ((h s a List.mem_cons_self).trans hrest).congr (by simp)

theorem removes_foldlM {α : Type} {f : CleanState ι → α → Except Failure (CleanState ι)}
    {l : List α} (names : α → String → Prop)
    (h : ∀ s, ∀ a ∈ l, ∃ s', f s a = .ok s' ∧ Removes (names a) s s') (s : CleanState ι) :
    ∃ s', l.foldlM f s = .ok s' ∧ Removes (fun name => ∃ a ∈ l, names a name) s s' := by
  induction l generalizing s with
  | nil => exact ⟨s, rfl, (Removes.refl s).congr (by simp)⟩
  | cons a l ih =>
    obtain ⟨t, ht, hfirst⟩ := h s a List.mem_cons_self
    obtain ⟨s', hs', hrest⟩ := ih (fun s b hb => h s b (List.mem_cons_of_mem a hb)) t
    exact ⟨s', (FoldM.foldlM_cons_ok ht).trans hs', (hfirst.trans hrest).congr (by simp)⟩

end Removes

/-! ### The nodes whose data is deleted -/

section Clean
variable (graph : DirectedGraph) (nodesToClean : OrderedSet INode)

/-- A node that is cleaned, or one below it. -/
def Stale (node : INode) : Prop := ∃ first ∈ nodesToClean, ReflTransGen graph.Edge first node

/-- The edges of the connections of other types than `main`. -/
def SubNodeEdge (a b : INode) : Prop :=
  ∃ c ∈ graph.getConnections, c.type ≠ .main ∧ c.fromNode = a ∧ c.toNode = b

/-- A stale node, a sub node of one, a sub node of a sub node, and so on. -/
def StaleOrSubNode (node : INode) : Prop :=
  ∃ stale, graph.Stale nodesToClean stale ∧ ReflTransGen graph.SubNodeEdge node stale

/-- A sub node of a node that a stale node can be reached from. -/
def SubNodeAbove (node : INode) : Prop :=
  ∃ root, graph.SubNodeEdge node root ∧
    ∃ stale, graph.Stale nodesToClean stale ∧ ReflTransGen graph.Edge root stale

variable {graph nodesToClean}

theorem deleteWithSubNodes_removes (hv : graph.Valid) {node : INode} (hnode : graph.nodeExists node)
    (s : CleanState ι) :
    ∃ s', graph.deleteWithSubNodes s node = .ok s' ∧
      Removes (fun name => ∃ n : INode, n.name = name ∧
        (n = node ∨ ∃ root, graph.SubNodeEdge n root ∧ ReflTransGen graph.Edge root node)) s s' := by
  have hrounds : graph.getConnections.toFinset.card < graph.searchRounds := by
    have hle := graph.getConnections.toFinset_card_le
    have hlength : graph.getConnections.length = graph.connections.size := List.length_map _
    rw [searchRounds]
    omega
  obtain ⟨connections, hok, hmem⟩ := hv.getParentConnections hnode hrounds
  refine ⟨_, by rw [deleteWithSubNodes, hok]; rfl, ?_⟩
  have hsub := removes_foldl
    (fun (c : GraphConnection) name => c.type ≠ .main ∧ name = c.fromNode.name)
    (fun (s : CleanState ι) c (_ : c ∈ connections.elems) => show Removes _ s
        (if c.type = .main then s else s.delete c.fromNode.name) by
      split_ifs with hmain
      · exact (Removes.refl s).congr (by simp [hmain])
      · exact (removes_delete s _).congr (by simp [hmain])) (s.delete node.name)
  refine ((removes_delete s node.name).trans hsub).congr fun name => ?_
  constructor
  · rintro (rfl | ⟨c, hc, hmain, rfl⟩)
    · exact ⟨node, rfl, Or.inl rfl⟩
    · obtain ⟨hc, hpath⟩ := (hmem c).mp hc
      exact ⟨c.fromNode, rfl, Or.inr ⟨c.toNode, ⟨c, hc, hmain, rfl, rfl⟩, hpath⟩⟩
  · rintro ⟨n, rfl, rfl | ⟨root, ⟨c, hc, hmain, rfl, rfl⟩, hpath⟩⟩
    · exact Or.inl rfl
    · exact Or.inr ⟨c, (hmem c).mpr ⟨hc, hpath⟩, hmain, rfl⟩

/-- The node is cleaned with `nodeToClean`. -/
def CleanedWith (graph : DirectedGraph) (nodeToClean node : INode) : Prop :=
  ReflTransGen graph.Edge nodeToClean node ∨
    ∃ root, graph.SubNodeEdge node root ∧
      ∃ below, ReflTransGen graph.Edge nodeToClean below ∧ ReflTransGen graph.Edge root below

theorem exists_of_edges (hv : graph.Valid) {first node : INode} (hfirst : graph.nodeExists first)
    (hpath : ReflTransGen graph.Edge first node) : graph.nodeExists node := by
  rcases hpath.cases_tail with rfl | ⟨_, _, c, hc, -, rfl⟩
  · exact hfirst
  · exact (hv.ends c hc).2

theorem CleanedWith.nodeExists (hv : graph.Valid) {nodeToClean node : INode}
    (hwith : graph.CleanedWith nodeToClean node) (hnode : graph.nodeExists nodeToClean) :
    graph.nodeExists node := by
  rcases hwith with hpath | ⟨_, ⟨c, hc, -, rfl, -⟩, -⟩
  · exact exists_of_edges hv hnode hpath
  · exact (hv.ends c hc).1

theorem cleanNode_removes (hv : graph.Valid) {nodeToClean : INode}
    (hnode : graph.nodeExists nodeToClean) (s : CleanState ι) :
    ∃ s', graph.cleanNode s nodeToClean = .ok s' ∧
      Removes (fun name => ∃ n : INode, n.name = name ∧ graph.CleanedWith nodeToClean n) s s' := by
  obtain ⟨children, hok, hmem⟩ := hv.getChildren hnode
    (show graph.nodes.size < graph.searchRounds by rw [searchRounds]; omega)
  have hbelow : ∀ node, node ∈ nodeToClean :: children.elems ↔
      ReflTransGen graph.Edge nodeToClean node := by
    intro node
    rw [List.mem_cons, ← OrderedSet.mem_def, hmem, Relation.reflTransGen_iff_eq_or_transGen]
  have hexists : ∀ node ∈ nodeToClean :: children.elems, graph.nodeExists node :=
    fun node hin => exists_of_edges hv hnode ((hbelow node).mp hin)
  obtain ⟨s', hs', hremoves⟩ := removes_foldlM _
    (fun s node hin => deleteWithSubNodes_removes hv (hexists node hin) s)
    (s.delete nodeToClean.name)
  refine ⟨s', by rw [cleanNode, hok]; exact hs',
    ((removes_delete s nodeToClean.name).trans hremoves).congr fun name => ?_⟩
  constructor
  · rintro (rfl | ⟨node, hin, n, rfl, rfl | ⟨root, hsub, hpath⟩⟩)
    · exact ⟨nodeToClean, rfl, Or.inl .refl⟩
    · exact ⟨n, rfl, Or.inl ((hbelow n).mp hin)⟩
    · exact ⟨n, rfl, Or.inr ⟨root, hsub, node, (hbelow node).mp hin, hpath⟩⟩
  · rintro ⟨n, rfl, hpath | ⟨root, hsub, node, hnode, hpath⟩⟩
    · exact Or.inr ⟨n, (hbelow n).mpr hpath, n, rfl, Or.inl rfl⟩
    · exact Or.inr ⟨node, (hbelow node).mpr hnode, n, rfl, Or.inr ⟨root, hsub, hpath⟩⟩

theorem cleanedWith_iff {node : INode} :
    (∃ nodeToClean ∈ nodesToClean, graph.CleanedWith nodeToClean node) ↔
      graph.Stale nodesToClean node ∨ graph.SubNodeAbove nodesToClean node := by
  constructor
  · rintro ⟨first, hfirst, hpath | ⟨root, hsub, below, hbelow, hpath⟩⟩
    · exact Or.inl ⟨first, hfirst, hpath⟩
    · exact Or.inr ⟨root, hsub, below, ⟨first, hfirst, hbelow⟩, hpath⟩
  · rintro (⟨first, hfirst, hpath⟩ | ⟨root, hsub, below, ⟨first, hfirst, hbelow⟩, hpath⟩)
    · exact ⟨first, hfirst, Or.inl hpath⟩
    · exact ⟨first, hfirst, Or.inr ⟨root, hsub, below, hbelow, hpath⟩⟩

theorem cleanRunData_removes (hv : graph.Valid)
    (hnodes : ∀ node ∈ nodesToClean, graph.nodeExists node) (runData : IRunData ι) :
    ∃ s, cleanRunData runData graph nodesToClean = .ok s ∧ s.runData = runData ∧
      ∀ name runs, s.newRunData.get? name = some runs ↔
        runData.get? name = some runs ∧ ∃ node, graph.nodes.get? name = some node ∧
          ¬ (graph.Stale nodesToClean node ∨ graph.SubNodeAbove nodesToClean node) := by
  obtain ⟨t, hok, hcleaned⟩ := removes_foldlM _
    (fun s node hin => cleanNode_removes hv (hnodes node hin) s) (⟨runData, runData⟩ : CleanState ι)
  have hrest := removes_foldl
    (fun nodeName name => ¬ graph.nodes.has nodeName = true ∧ name = nodeName)
    (fun (s : CleanState ι) nodeName (_ : nodeName ∈ t.newRunData.keys) => show Removes _ s
        (if graph.nodes.has nodeName then s else s.delete nodeName) by
      split_ifs with hhas
      · exact (Removes.refl s).congr (by simp [hhas])
      · exact (removes_delete s nodeName).congr (by simp [hhas])) t
  refine ⟨_, by rw [cleanRunData, hok]; rfl, hrest.input.trans hcleaned.input, fun name runs => ?_⟩
  constructor
  · intro hget
    have hkept : ¬ ∃ nodeName ∈ t.newRunData.keys, ¬ graph.nodes.has nodeName = true ∧
        name = nodeName := fun hgone => by rw [hrest.gone name hgone] at hget; cases hget
    rw [hrest.kept name hkept] at hget
    have hkept' : ¬ ∃ node ∈ nodesToClean.elems, ∃ n : INode, n.name = name ∧
        graph.CleanedWith node n := fun hgone => by rw [hcleaned.gone name hgone] at hget; cases hget
    have hhas : graph.nodes.has name = true := by
      by_contra hhas
      exact hkept ⟨name, OrderedMap.mem_keys_of_get? hget, hhas, rfl⟩
    obtain ⟨node, hnode⟩ := OrderedMap.exists_get?_of_mem_keys (OrderedMap.has_iff.mp hhas)
    refine ⟨(hcleaned.kept name hkept').symm.trans hget, node, hnode, fun hstale => hkept' ?_⟩
    obtain ⟨first, hfirst, hwith⟩ := cleanedWith_iff.mpr hstale
    exact ⟨first, hfirst, node, hv.named name node hnode, hwith⟩
  · rintro ⟨hget, node, hnode, hstale⟩
    have hhas : graph.nodes.has name = true :=
      OrderedMap.has_iff.mpr (OrderedMap.mem_keys_of_get? hnode)
    rw [hrest.kept name (by rintro ⟨_, -, hnot, rfl⟩; exact hnot hhas), hcleaned.kept name]
    · exact hget
    rintro ⟨first, hfirst, n, rfl, hwith⟩
    obtain rfl : n = node :=
      Option.some.inj ((hwith.nodeExists hv (hnodes first hfirst)).symm.trans hnode)
    exact hstale (cleanedWith_iff.mp ⟨first, hfirst, hwith⟩)

theorem nodeExists_of_cleanNode {s s' : CleanState ι} {nodeToClean : INode}
    (hok : graph.cleanNode s nodeToClean = .ok s') : graph.nodeExists nodeToClean := by
  obtain ⟨children, hchildren, -⟩ := FoldM.bind_eq_ok.mp hok
  rw [getChildren, searchRounds, getChildrenRecursive] at hchildren
  obtain ⟨direct, hdirect, -⟩ := FoldM.bind_eq_ok.mp hchildren
  by_contra hnot
  rw [getDirectChildConnections, if_neg hnot] at hdirect
  cases hdirect

theorem nodesExist_of_cleanRunData {runData : IRunData ι} {s : CleanState ι}
    (hok : cleanRunData runData graph nodesToClean = .ok s) :
    ∀ node ∈ nodesToClean, graph.nodeExists node := by
  obtain ⟨t, ht, -⟩ := FoldM.bind_eq_ok.mp hok
  exact FoldM.forall_of_foldlM (fun _ _ _ hstep => nodeExists_of_cleanNode hstep) ht

theorem subNodeAbove_of_staleOrSubNode {node : INode}
    (h : graph.StaleOrSubNode nodesToClean node) :
    graph.Stale nodesToClean node ∨ graph.SubNodeAbove nodesToClean node := by
  obtain ⟨stale, hstale, hpath⟩ := h
  rcases hpath.cases_head with rfl | ⟨root, hsub, hpath⟩
  · exact Or.inl hstale
  · refine Or.inr ⟨root, hsub, stale, hstale, ?_⟩
    exact hpath.lift id fun _ _ ⟨c, hc, _, hends⟩ => (⟨c, hc, hends⟩ : graph.Edge _ _)

end Clean

/-! ### What is kept -/

/-- The call succeeds, leaves its input alone, and keeps the data of exactly the nodes of the graph
that are neither stale nor sub nodes of stale ones. -/
def CleansExactly (runData : IRunData ι) (graph : DirectedGraph) (nodesToClean : OrderedSet INode) :
    Prop :=
  ∃ s, cleanRunData runData graph nodesToClean = .ok s ∧ s.runData = runData ∧
    ∀ name runs, s.newRunData.get? name = some runs ↔
      runData.get? name = some runs ∧ ∃ node, graph.nodes.get? name = some node ∧
        ¬ graph.StaleOrSubNode nodesToClean node

theorem cleansExactly_iff (runData : IRunData ι) (graph : DirectedGraph) (hv : graph.Valid)
    (nodesToClean : OrderedSet INode) :
    CleansExactly runData graph nodesToClean ↔
      (∀ node ∈ nodesToClean, graph.nodeExists node) ∧
        ∀ node, graph.nodeExists node → runData.has node.name = true →
          graph.SubNodeAbove nodesToClean node → graph.StaleOrSubNode nodesToClean node := by
  constructor
  · rintro ⟨s, hok, -, hkept⟩
    have hnodes := nodesExist_of_cleanRunData hok
    refine ⟨hnodes, fun node hnode hhas habove => ?_⟩
    by_contra hnot
    obtain ⟨s', hok', -, hkept'⟩ := cleanRunData_removes hv hnodes runData
    obtain rfl := Except.ok.inj (hok.symm.trans hok')
    obtain ⟨runs, hruns⟩ := OrderedMap.exists_get?_of_mem_keys (OrderedMap.has_iff.mp hhas)
    obtain ⟨-, node', hnode', hstale⟩ :=
      (hkept' node.name runs).mp ((hkept node.name runs).mpr ⟨hruns, node, hnode, hnot⟩)
    obtain rfl := Option.some.inj (hnode.symm.trans hnode')
    exact hstale (Or.inr habove)
  · rintro ⟨hnodes, habove⟩
    obtain ⟨s, hok, hinput, hkept⟩ := cleanRunData_removes hv hnodes runData
    refine ⟨s, hok, hinput, fun name runs => (hkept name runs).trans ?_⟩
    refine and_congr_right fun hruns => exists_congr fun node => and_congr_right fun hnode => ?_
    have hname := hv.named name node hnode
    refine not_congr ⟨?_, subNodeAbove_of_staleOrSubNode⟩
    rintro (hstale | hsub)
    · exact ⟨node, hstale, .refl⟩
    · exact habove node (by rw [nodeExists, hname]; exact hnode)
        (OrderedMap.has_iff.mpr (hname ▸ OrderedMap.mem_keys_of_get? hruns)) hsub

/-- A model is a sub node of the agent, and the agent is above the output. -/
def agentAndOutput : DirectedGraph :=
  ofParts [noOp "model", noOp "agent", noOp "output"]
    [⟨noOp "model", noOp "agent", .aiLanguageModel, 0, 0⟩,
      ⟨noOp "agent", noOp "output", .main, 0, 0⟩]

def allThreeRan : IRunData Unit :=
  [("model", [⟨none⟩]), ("agent", [⟨none⟩]), ("output", [⟨none⟩])].foldl
    (fun runData entry => runData.set entry.1 entry.2) .empty

theorem agentAndOutput_connections : agentAndOutput.getConnections =
    [⟨noOp "model", noOp "agent", .aiLanguageModel, 0, 0⟩,
      ⟨noOp "agent", noOp "output", .main, 0, 0⟩] := by decide

theorem agentAndOutput_subNodeEdge {a b : INode} (h : agentAndOutput.SubNodeEdge a b) :
    a = noOp "model" ∧ b = noOp "agent" := by
  obtain ⟨c, hc, htype, rfl, rfl⟩ := h
  rw [agentAndOutput_connections] at hc
  rcases List.mem_pair.mp hc with rfl | rfl
  · exact ⟨rfl, rfl⟩
  · exact absurd rfl htype

theorem agent_cleansExactly :
    CleansExactly allThreeRan agentAndOutput (.ofList [noOp "agent"]) := by
  refine (cleansExactly_iff allThreeRan agentAndOutput
    (valid_of_entries (by decide) (by decide)) (.ofList [noOp "agent"])).mpr ⟨by decide, ?_⟩
  rintro node - - ⟨root, hsub, -⟩
  obtain ⟨-, rfl⟩ := agentAndOutput_subNodeEdge hsub
  exact ⟨noOp "agent", ⟨noOp "agent", by decide, .refl⟩, .single hsub⟩

theorem output_not_cleansExactly :
    ¬ CleansExactly allThreeRan agentAndOutput (.ofList [noOp "output"]) := by
  rintro ⟨s, hok, -, hkept⟩
  have hlast : ∀ stale, agentAndOutput.Stale (.ofList [noOp "output"]) stale →
      stale = noOp "output" := by
    rintro stale ⟨first, hfirst, hpath⟩
    obtain rfl := List.mem_singleton.mp (OrderedSet.mem_ofList.mp hfirst)
    rcases hpath.cases_head with rfl | ⟨_, ⟨c, hc, hfrom, -⟩, -⟩
    · rfl
    · rw [agentAndOutput_connections] at hc
      rcases List.mem_pair.mp hc with rfl | rfl <;> exact absurd hfrom (by decide)
  have hnot : ¬ agentAndOutput.StaleOrSubNode (.ofList [noOp "output"]) (noOp "model") := by
    rintro ⟨stale, hstale, hpath⟩
    obtain rfl := hlast stale hstale
    rcases hpath.cases_tail with heq | ⟨_, -, hsub⟩
    · exact absurd heq (by decide)
    · exact absurd (agentAndOutput_subNodeEdge hsub).2 (by decide)
  have hruns := (hkept "model" [⟨none⟩]).mpr ⟨rfl, noOp "model", rfl, hnot⟩
  obtain rfl := Except.ok.inj hok
  cases hruns

end N8n.DirectedGraph
