import N8n.Foundations.OrderedMap
import N8n.Foundations.OrderedSet
import N8n.Workflow.Connections
import N8n.Workflow.Node

/-!
# The directed graph of a workflow

Nodes stand under their names and connections under a key made of their parts.
A failed assertion is an error, as is reading a property of `undefined`, and a
recursion that has no `fuel` left.
Node objects are compared by identity in the source; here a node is the record
of its fields, and in a valid graph a name determines the node.
-/

namespace N8n

structure GraphConnection where
  fromNode : INode
  toNode : INode
  type : NodeConnectionType
  outputIndex : ℕ
  inputIndex : ℕ
  deriving DecidableEq, Repr

structure DirectedGraph where
  nodes : OrderedMap String INode
  connections : OrderedMap String GraphConnection

namespace DirectedGraph

def empty : DirectedGraph := ⟨.empty, .empty⟩

def makeKey (connection : GraphConnection) : String :=
  s!"{connection.fromNode.name}-{connection.type.text}-{connection.outputIndex}" ++
    s!"-{connection.inputIndex}-{connection.toNode.name}"

def nodeExists (graph : DirectedGraph) (node : INode) : Prop :=
  graph.nodes.get? node.name = some node

instance (graph : DirectedGraph) (node : INode) : Decidable (graph.nodeExists node) :=
  inferInstanceAs (Decidable (_ = _))

def getConnections (graph : DirectedGraph) : List GraphConnection := graph.connections.values

def addNode (graph : DirectedGraph) (node : INode) : DirectedGraph :=
  { graph with nodes := graph.nodes.set node.name node }

def addNodes (graph : DirectedGraph) (nodes : List INode) : DirectedGraph :=
  nodes.foldl addNode graph

def addConnection (graph : DirectedGraph) (connection : GraphConnection) :
    Except Failure DirectedGraph :=
  if graph.nodeExists connection.fromNode ∧ graph.nodeExists connection.toNode then
    .ok { graph with connections := graph.connections.set (makeKey connection) connection }
  else .error .assertionError

def getDirectChildConnections (graph : DirectedGraph) (node : INode) :
    Except Failure (List GraphConnection) :=
  if graph.nodeExists node then
    .ok (graph.getConnections.filter (fun c => decide (c.fromNode = node)))
  else .error .assertionError

def getDirectParentConnections (graph : DirectedGraph) (node : INode) :
    Except Failure (List GraphConnection) :=
  if graph.nodeExists node then
    .ok (graph.getConnections.filter (fun c => decide (c.toNode = node)))
  else .error .assertionError

def getParentConnectionsRecursive (graph : DirectedGraph) :
    ℕ → INode → OrderedSet GraphConnection → Except Failure (OrderedSet GraphConnection)
  | 0, _, _ => .error .outOfFuel
  | fuel + 1, node, connections => do
    let parentConnections ← graph.getDirectParentConnections node
    parentConnections.foldlM
      (fun connections connection =>
        if connection ∈ connections then pure connections
        else
          graph.getParentConnectionsRecursive fuel connection.fromNode
            (connections.insert connection))
      connections

def getParentConnections (graph : DirectedGraph) (fuel : ℕ) (node : INode) :
    Except Failure (OrderedSet GraphConnection) :=
  graph.getParentConnectionsRecursive fuel node .empty

/-! ### Valid graphs -/

structure Valid (graph : DirectedGraph) : Prop where
  named : ∀ name node, graph.nodes.get? name = some node → node.name = name
  keyed : ∀ key c, graph.connections.get? key = some c → key = makeKey c
  ends : ∀ c ∈ graph.getConnections, graph.nodeExists c.fromNode ∧ graph.nodeExists c.toNode

theorem empty_valid : empty.Valid :=
  ⟨fun _ _ h => (Option.some_ne_none _ h.symm).elim,
    fun _ _ h => (Option.some_ne_none _ h.symm).elim, fun _ h => (List.not_mem_nil h).elim⟩

theorem Valid.mem_nodes_values {graph : DirectedGraph} (h : graph.Valid) {node : INode} :
    node ∈ graph.nodes.values ↔ graph.nodeExists node := by
  refine ⟨fun hnode => ?_, fun hnode => OrderedMap.mem_values.mpr ⟨node.name, hnode⟩⟩
  obtain ⟨name, hname⟩ := OrderedMap.mem_values.mp hnode
  rw [nodeExists, h.named name node hname]
  exact hname

theorem Valid.addNode {graph : DirectedGraph} (h : graph.Valid) {node : INode}
    (hnew : graph.nodes.get? node.name = none ∨ graph.nodeExists node) :
    (graph.addNode node).Valid := by
  have hkeep : ∀ n, graph.nodeExists n → (graph.addNode node).nodeExists n := by
    intro n hn
    simp only [nodeExists, DirectedGraph.addNode, OrderedMap.get?_set] at hn hnew ⊢
    split_ifs with he
    · rw [he, hn] at hnew
      rcases hnew with hnew | hnew
      · cases hnew
      · exact hnew.symm
    · exact hn
  refine ⟨fun name n hn => ?_, h.keyed, fun c hc => ?_⟩
  · simp only [DirectedGraph.addNode, OrderedMap.get?_set] at hn
    split_ifs at hn with he
    · obtain rfl := Option.some.inj hn
      exact he
    · exact h.named name n hn
  · exact ⟨hkeep _ (h.ends c hc).1, hkeep _ (h.ends c hc).2⟩

theorem Valid.addConnection {graph graph' : DirectedGraph} (h : graph.Valid)
    {connection : GraphConnection} (hadd : graph.addConnection connection = .ok graph') :
    graph'.Valid := by
  unfold DirectedGraph.addConnection at hadd
  split_ifs at hadd with he
  obtain rfl := Except.ok.inj hadd
  refine ⟨h.named, fun key c hc => ?_, fun c hc => ?_⟩
  · rw [OrderedMap.get?_set] at hc
    split_ifs at hc with hk
    · obtain rfl := Option.some.inj hc
      exact hk.symm
    · exact h.keyed key c hc
  · rcases OrderedMap.mem_values_of_set hc with rfl | hc
    · exact he
    · exact h.ends c hc

def ofParts (nodes : List INode) (connections : List GraphConnection) : DirectedGraph where
  nodes := nodes.foldl (fun m node => m.set node.name node) .empty
  connections := connections.foldl (fun m c => m.set (makeKey c) c) .empty

def noOp (name : String) : INode := { name := name, type := "n8n-nodes-base.noOp" }

/-- Names stand for nodes and pairs of names for main connections. -/
def ofNames (names : List String) (pairs : List (String × String)) : DirectedGraph :=
  ofParts (names.map noOp) (pairs.map fun p => ⟨noOp p.1, noOp p.2, .main, 0, 0⟩)

theorem valid_of_entries {graph : DirectedGraph}
    (hnodes : ∀ e ∈ graph.nodes.entries, e.2.name = e.1)
    (hconnections : ∀ e ∈ graph.connections.entries, e.1 = makeKey e.2 ∧
      graph.nodeExists e.2.fromNode ∧ graph.nodeExists e.2.toNode) : graph.Valid := by
  refine ⟨fun name node h => ?_, fun key c h => ?_, fun c hc => ?_⟩
  · exact hnodes (name, node) (OrderedMap.get?_eq_some.mp h)
  · exact (hconnections (key, c) (OrderedMap.get?_eq_some.mp h)).1
  · obtain ⟨key, h⟩ := OrderedMap.mem_values.mp hc
    exact (hconnections (key, c) (OrderedMap.get?_eq_some.mp h)).2

theorem Valid.get?_makeKey {graph : DirectedGraph} (h : graph.Valid) {c : GraphConnection}
    (hc : c ∈ graph.getConnections) : graph.connections.get? (makeKey c) = some c := by
  obtain ⟨key, hk⟩ := OrderedMap.mem_values.mp hc
  rwa [← h.keyed key c hk]

theorem getDirectParentConnections_eq {graph : DirectedGraph} {node : INode} (h : graph.nodeExists node) :
    graph.getDirectParentConnections node =
      .ok (graph.getConnections.filter (fun c => decide (c.toNode = node))) :=
  if_pos h

theorem getDirectChildConnections_eq {graph : DirectedGraph} {node : INode} (h : graph.nodeExists node) :
    graph.getDirectChildConnections node =
      .ok (graph.getConnections.filter (fun c => decide (c.fromNode = node))) :=
  if_pos h

/-- The edges of the main connections. -/
def MainEdge (graph : DirectedGraph) (a b : INode) : Prop :=
  ∃ c ∈ graph.getConnections, c.type = .main ∧ c.fromNode = a ∧ c.toNode = b

/-! ### Parts of a graph -/

structure Within (part graph : DirectedGraph) : Prop where
  nodes : ∀ name node, part.nodes.get? name = some node → graph.nodes.get? name = some node
  connections : ∀ key c, part.connections.get? key = some c → graph.connections.get? key = some c

theorem empty_within (graph : DirectedGraph) : empty.Within graph :=
  ⟨fun _ _ h => (Option.some_ne_none _ h.symm).elim,
    fun _ _ h => (Option.some_ne_none _ h.symm).elim⟩

theorem Within.addNode {part graph : DirectedGraph} (h : part.Within graph) {node : INode}
    (hn : graph.nodeExists node) : (part.addNode node).Within graph := by
  refine ⟨fun name n hget => ?_, h.connections⟩
  simp only [DirectedGraph.addNode, OrderedMap.get?_set] at hget
  split_ifs at hget with he
  · obtain rfl := Option.some.inj hget
    exact he ▸ hn
  · exact h.nodes name n hget

/-- A connection of the graph replaces no other connection of the part. -/
theorem Within.addConnection {part graph : DirectedGraph} (h : part.Within graph)
    (hv : graph.Valid) {connection : GraphConnection} (hc : connection ∈ graph.getConnections) :
    ∃ part', (part.addNodes [connection.fromNode, connection.toNode]).addConnection connection =
        .ok part' ∧ part'.Within graph ∧
      ∀ c, c ∈ part'.getConnections ↔ c ∈ part.getConnections ∨ c = connection := by
  obtain ⟨hfrom, hto⟩ := hv.ends connection hc
  have hkey := hv.get?_makeKey hc
  have hw := (h.addNode hfrom).addNode hto
  have hexists : ((part.addNode connection.fromNode).addNode connection.toNode).nodeExists
      connection.fromNode := by
    simp only [nodeExists, DirectedGraph.addNode, OrderedMap.get?_set]
    split_ifs with he
    · unfold nodeExists at hfrom hto
      rw [← he, hto] at hfrom
      exact hfrom
    · rfl
  have hexists' : ((part.addNode connection.fromNode).addNode connection.toNode).nodeExists
      connection.toNode := OrderedMap.get?_set_self _ _ _
  refine ⟨_, if_pos ⟨hexists, hexists'⟩, ⟨hw.nodes, fun key c hget => ?_⟩, fun c => ?_⟩
  · rw [OrderedMap.get?_set] at hget
    split_ifs at hget with he
    · obtain rfl := Option.some.inj hget
      exact he ▸ hkey
    · exact hw.connections key c hget
  · constructor
    · exact fun hm => (OrderedMap.mem_values_of_set hm).symm
    · rintro (hm | rfl)
      · obtain ⟨key, hk⟩ := OrderedMap.mem_values.mp hm
        apply OrderedMap.mem_values.mpr
        refine ⟨key, ?_⟩
        change (part.connections.set _ _).get? key = some c
        rw [OrderedMap.get?_set]
        split_ifs with he
        · have hg := h.connections key c hk
          rw [← he, hkey] at hg
          exact hg
        · exact hk
      · exact OrderedMap.mem_values_set_self _ _ _

end DirectedGraph
end N8n
