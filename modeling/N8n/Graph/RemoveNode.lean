import N8n.Graph.DirectedGraph
import N8n.Foundations.FoldM
import N8n.Foundations.Runs

/-!
# Removing nodes

The connections of a removed node go with it. When they are reconnected, every parent of
the node is connected to every child. A connection from the node to itself is incoming and
outgoing, so that what is made from it ends at the node that is gone.
-/

namespace N8n

open Runs

structure RemoveNodeOptions where
  reconnectConnections : Bool := false
  skipConnectionFn : Option (GraphConnection → Bool) := none

def RemoveNodeOptions.skips (options : RemoveNodeOptions) (connection : GraphConnection) : Bool :=
  options.skipConnectionFn.any (· connection)

/-- From the output of the incoming connection to the input of the outgoing one. -/
def joinConnections (incomingConnection outgoingConnection : GraphConnection) : GraphConnection :=
  { incomingConnection with
    toNode := outgoingConnection.toNode
    inputIndex := outgoingConnection.inputIndex }

def RemoveNodeOptions.reconnect (options : RemoveNodeOptions)
    (incomingConnections outgoingConnections : List GraphConnection) : List GraphConnection :=
  (incomingConnections.filter fun c => !options.skips c).flatMap fun incomingConnection =>
    (outgoingConnections.filter fun c => !options.skips c).map
      (joinConnections incomingConnection)

namespace DirectedGraph

def connectionsWithout (graph : DirectedGraph) (node : INode) :
    OrderedMap String GraphConnection :=
  graph.connections.filter fun _ c => decide (¬ (c.toNode = node ∨ c.fromNode = node))

/-- The graph without the node, and the new connections if the old ones are reconnected. -/
def removeNode (graph : DirectedGraph) (node : INode) (options : RemoveNodeOptions) :
    Except Failure (DirectedGraph × Option (List GraphConnection)) :=
  if options.reconnectConnections then do
    let incomingConnections ← graph.getDirectParentConnections node
    let outgoingConnections ← graph.getDirectChildConnections node
    let newConnections := options.reconnect incomingConnections outgoingConnections
    .ok (⟨graph.nodes.delete node.name,
      (graph.connectionsWithout node).setAll makeKey newConnections⟩, some newConnections)
  else .ok (⟨graph.nodes.delete node.name, graph.connectionsWithout node⟩, none)

def addConnections (graph : DirectedGraph) (connections : List GraphConnection) :
    Except Failure DirectedGraph :=
  connections.foldlM addConnection graph

def clone (graph : DirectedGraph) : Except Failure DirectedGraph :=
  (empty.addNodes graph.nodes.values).addConnections graph.getConnections

/-! ### Cloning -/

theorem addNodes_eq (graph : DirectedGraph) (nodes : List INode) :
    graph.addNodes nodes = { graph with nodes := graph.nodes.setAll (·.name) nodes } := by
  induction nodes generalizing graph with
  | nil => rfl
  | cons node nodes ih => exact ih (graph.addNode node)

theorem addConnections_eq {graph : DirectedGraph} {connections : List GraphConnection}
    (h : ∀ c ∈ connections, graph.nodeExists c.fromNode ∧ graph.nodeExists c.toNode) :
    graph.addConnections connections =
      .ok { graph with connections := graph.connections.setAll makeKey connections } := by
  induction connections generalizing graph with
  | nil => rfl
  | cons c connections ih =>
    have hc : graph.addConnection c = .ok { graph with
        connections := graph.connections.set (makeKey c) c } := if_pos (h c List.mem_cons_self)
    exact (FoldM.foldlM_cons_ok hc).trans (ih fun d hd => h d (List.mem_cons_of_mem c hd))

theorem Valid.nodes_keyed {graph : DirectedGraph} (h : graph.Valid) :
    graph.nodes.Keyed (·.name) := fun name node hnode => (h.named name node hnode).symm

theorem Valid.addNodes_values {graph : DirectedGraph} (h : graph.Valid) :
    empty.addNodes graph.nodes.values = { graph with connections := .empty } := by
  rw [addNodes_eq]
  exact congrArg (DirectedGraph.mk · .empty) h.nodes_keyed.setAll_values

theorem Valid.clone_eq {graph : DirectedGraph} (h : graph.Valid) : graph.clone = .ok graph := by
  have hends : ∀ c ∈ graph.getConnections,
      DirectedGraph.nodeExists { graph with connections := .empty } c.fromNode ∧
        DirectedGraph.nodeExists { graph with connections := .empty } c.toNode := h.ends
  rw [clone, h.addNodes_values, addConnections_eq hends]
  exact congrArg (fun connections => Except.ok (DirectedGraph.mk graph.nodes connections))
    (OrderedMap.Keyed.setAll_values h.keyed)

/-! ### Operations -/

inductive Operation where
  | addNode (node : INode)
  | addConnection (connection : GraphConnection)
  | removeNode (node : INode) (options : RemoveNodeOptions)
  | clone

/-- The node that is added or removed. -/
def Operation.node? : Operation → Option INode
  | .addNode node => some node
  | .removeNode node _ => some node
  | .addConnection _ => none
  | .clone => none

def perform (graph : DirectedGraph) : Operation → Except Failure DirectedGraph
  | .addNode node => .ok (graph.addNode node)
  | .addConnection connection => graph.addConnection connection
  | .removeNode node options => Prod.fst <$> graph.removeNode node options
  | .clone => graph.clone

/-- An operation whose assertion fails leaves the graph as it is. -/
def afterOperation (graph : DirectedGraph) (operation : Operation) : DirectedGraph :=
  (graph.perform operation).toOption.getD graph

def OperationStep (graph : DirectedGraph) (operation : Operation) (graph' : DirectedGraph) : Prop :=
  graph' = graph.afterOperation operation

/-- A name stands for one node throughout. -/
def NamesDistinct (operations : List Operation) : Prop :=
  ∀ a ∈ operations.filterMap Operation.node?, ∀ b ∈ operations.filterMap Operation.node?,
    a.name = b.name → a = b

instance (operations : List Operation) : Decidable (NamesDistinct operations) :=
  inferInstanceAs (Decidable (∀ a ∈ _, ∀ b ∈ _, _ → _))

structure NoDangling (graph : DirectedGraph) : Prop where
  ends : ∀ c ∈ graph.getConnections, graph.nodeExists c.fromNode ∧ graph.nodeExists c.toNode
  direct : ∀ c ∈ graph.getConnections, ∀ node, node = c.fromNode ∨ node = c.toNode →
    (∃ children, graph.getDirectChildConnections node = .ok children) ∧
      ∃ parents, graph.getDirectParentConnections node = .ok parents
  clone : ∃ graph', graph.clone = .ok graph'

/-- No connection from the node to itself is reconnected. -/
def NoLoopReconnected (graph : DirectedGraph) : Operation → Prop
  | .removeNode node options => options.reconnectConnections = true →
      ∀ c ∈ graph.getConnections, c.fromNode = node → c.toNode = node → options.skips c = true
  | .addNode _ => True
  | .addConnection _ => True
  | .clone => True

theorem Valid.noDangling {graph : DirectedGraph} (h : graph.Valid) : graph.NoDangling := by
  refine ⟨h.ends, fun c hc node hnode => ?_, graph, h.clone_eq⟩
  have hexists : graph.nodeExists node := by
    rcases hnode with rfl | rfl
    · exact (h.ends c hc).1
    · exact (h.ends c hc).2
  exact ⟨⟨_, getDirectChildConnections_eq hexists⟩, ⟨_, getDirectParentConnections_eq hexists⟩⟩

section Removal
variable {graph : DirectedGraph} {node : INode} {options : RemoveNodeOptions} {c : GraphConnection}

theorem mem_connectionsWithout :
    c ∈ (graph.connectionsWithout node).values ↔
      c ∈ graph.getConnections ∧ c.toNode ≠ node ∧ c.fromNode ≠ node := by
  rw [connectionsWithout, OrderedMap.mem_values_filter, getConnections, OrderedMap.mem_values]
  simp only [decide_eq_true_iff, not_or, exists_and_right]

theorem mem_reconnect {incomingConnections outgoingConnections : List GraphConnection} :
    c ∈ options.reconnect incomingConnections outgoingConnections ↔
      ∃ i ∈ incomingConnections, options.skips i = false ∧
        ∃ o ∈ outgoingConnections, options.skips o = false ∧ joinConnections i o = c := by
  simp [RemoveNodeOptions.reconnect, and_assoc]

theorem nodeExists_delete {n : INode} (hn : graph.nodeExists n) (hne : n.name ≠ node.name)
    (connections : OrderedMap String GraphConnection) :
    DirectedGraph.nodeExists ⟨graph.nodes.delete node.name, connections⟩ n := by
  rw [nodeExists, OrderedMap.get?_delete_of_ne (Ne.symm hne)]
  exact hn

/-- What is removed, once the assertions hold. -/
theorem removeNode_reconnect (hnode : graph.nodeExists node)
    (hreconnect : options.reconnectConnections = true) :
    graph.removeNode node options = .ok (⟨graph.nodes.delete node.name,
      (graph.connectionsWithout node).setAll makeKey (options.reconnect
        (graph.getConnections.filter fun c => decide (c.toNode = node))
        (graph.getConnections.filter fun c => decide (c.fromNode = node)))⟩,
      some (options.reconnect
        (graph.getConnections.filter fun c => decide (c.toNode = node))
        (graph.getConnections.filter fun c => decide (c.fromNode = node)))) := by
  rw [removeNode, if_pos hreconnect, getDirectParentConnections_eq hnode, FoldM.ok_bind,
    getDirectChildConnections_eq hnode, FoldM.ok_bind]

theorem nodes_of_removeNode {graph' : DirectedGraph}
    {newConnections : Option (List GraphConnection)}
    (hok : graph.removeNode node options = .ok (graph', newConnections)) :
    graph'.nodes = graph.nodes.delete node.name := by
  rw [removeNode] at hok
  split_ifs at hok
  · obtain ⟨_, _, hok⟩ := FoldM.bind_eq_ok.mp hok
    obtain ⟨_, _, hok⟩ := FoldM.bind_eq_ok.mp hok
    rw [← (Prod.mk.inj (Except.ok.inj hok)).1]
  · rw [← (Prod.mk.inj (Except.ok.inj hok)).1]

/-- A new connection joins a parent and a child that are not the node itself. -/
theorem ends_of_reconnect (hloop : ∀ c ∈ graph.getConnections, c.fromNode = node →
      c.toNode = node → options.skips c = true)
    (hc : c ∈ options.reconnect
      (graph.getConnections.filter fun c => decide (c.toNode = node))
      (graph.getConnections.filter fun c => decide (c.fromNode = node))) :
    ∃ i ∈ graph.getConnections, ∃ o ∈ graph.getConnections, i.fromNode ≠ node ∧
      o.toNode ≠ node ∧ joinConnections i o = c := by
  obtain ⟨i, hi, hskip, o, ho, hskip', hjoin⟩ := mem_reconnect.mp hc
  obtain ⟨hi, hto⟩ := List.mem_filter.mp hi
  obtain ⟨ho, hfrom⟩ := List.mem_filter.mp ho
  refine ⟨i, hi, o, ho, fun he => ?_, fun he => ?_, hjoin⟩
  · have hs := hloop i hi he (of_decide_eq_true hto)
    rw [hskip] at hs
    cases hs
  · have hs := hloop o ho (of_decide_eq_true hfrom) he
    rw [hskip'] at hs
    cases hs

theorem Valid.of_removed (h : graph.Valid) (hname : ∀ n, graph.nodeExists n → n.name = node.name →
      n = node) {connections : OrderedMap String GraphConnection}
    (hkeyed : connections.Keyed makeKey)
    (hends : ∀ c ∈ connections.values, (graph.nodeExists c.fromNode ∧ c.fromNode ≠ node) ∧
      graph.nodeExists c.toNode ∧ c.toNode ≠ node) :
    DirectedGraph.Valid ⟨graph.nodes.delete node.name, connections⟩ := by
  refine ⟨fun name n hn => ?_, hkeyed, fun c hc => ?_⟩
  · rw [OrderedMap.get?_delete] at hn
    split_ifs at hn
    exact h.named name n hn
  · obtain ⟨⟨hfrom, hfrom'⟩, hto, hto'⟩ := hends c hc
    exact ⟨nodeExists_delete hfrom (fun he => hfrom' (hname _ hfrom he)) _,
      nodeExists_delete hto (fun he => hto' (hname _ hto he)) _⟩

theorem Valid.connectionsWithout_ends (h : graph.Valid)
    (hc : c ∈ (graph.connectionsWithout node).values) :
    (graph.nodeExists c.fromNode ∧ c.fromNode ≠ node) ∧
      graph.nodeExists c.toNode ∧ c.toNode ≠ node := by
  obtain ⟨hc, hto, hfrom⟩ := mem_connectionsWithout.mp hc
  exact ⟨⟨(h.ends c hc).1, hfrom⟩, (h.ends c hc).2, hto⟩

theorem Valid.removeNode (h : graph.Valid)
    (hname : ∀ n, graph.nodeExists n → n.name = node.name → n = node)
    (hloop : NoLoopReconnected graph (.removeNode node options)) {graph' : DirectedGraph}
    {newConnections : Option (List GraphConnection)}
    (hok : graph.removeNode node options = .ok (graph', newConnections)) : graph'.Valid := by
  have hkeyed : (graph.connectionsWithout node).Keyed makeKey :=
    OrderedMap.Keyed.filter h.keyed _
  by_cases hreconnect : options.reconnectConnections = true
  · by_cases hnode : graph.nodeExists node
    · rw [removeNode_reconnect hnode hreconnect] at hok
      obtain rfl := (Prod.mk.inj (Except.ok.inj hok)).1
      refine h.of_removed hname (hkeyed.setAll _) fun c hc => ?_
      rcases OrderedMap.mem_values_setAll hc with hc | hc
      · exact h.connectionsWithout_ends hc
      · obtain ⟨i, hi, o, ho, hfrom, hto, rfl⟩ := ends_of_reconnect (hloop hreconnect) hc
        exact ⟨⟨(h.ends i hi).1, hfrom⟩, (h.ends o ho).2, hto⟩
    · rw [DirectedGraph.removeNode, if_pos hreconnect, getDirectParentConnections,
        if_neg hnode] at hok
      cases hok
  · rw [DirectedGraph.removeNode, if_neg hreconnect] at hok
    obtain rfl := (Prod.mk.inj (Except.ok.inj hok)).1
    exact h.of_removed hname hkeyed fun c hc => h.connectionsWithout_ends hc

end Removal

/-- The graph is valid and its nodes are among those of the operations. -/
structure ValidWithin (nodes : List INode) (graph : DirectedGraph) : Prop where
  valid : graph.Valid
  within : ∀ node, graph.nodeExists node → node ∈ nodes

theorem ValidWithin.step {nodes : List INode} (hnodes : ∀ a ∈ nodes, ∀ b ∈ nodes,
      a.name = b.name → a = b) {graph graph' : DirectedGraph} {operation : Operation}
    (h : ValidWithin nodes graph) (hnode : ∀ node ∈ operation.node?, node ∈ nodes)
    (hloop : NoLoopReconnected graph operation) (hstep : OperationStep graph operation graph') :
    ValidWithin nodes graph' := by
  rw [OperationStep, afterOperation] at hstep
  cases hok : graph.perform operation with
  | error e =>
    rw [hok] at hstep
    exact hstep ▸ h
  | ok graph'' =>
    rw [hok] at hstep
    obtain rfl : graph' = graph'' := hstep
    cases operation with
    | addNode node =>
      obtain rfl := Except.ok.inj hok
      have hmem := hnode node rfl
      refine ⟨h.valid.addNode ?_, fun n hn => ?_⟩
      · cases hget : graph.nodes.get? node.name with
        | none => exact Or.inl rfl
        | some n =>
          have hn : graph.nodeExists n := by
            rw [nodeExists, h.valid.named _ n hget, hget]
          have he := hnodes n (h.within n hn) node hmem (h.valid.named _ n hget)
          exact Or.inr (he ▸ hn)
      · rw [nodeExists, DirectedGraph.addNode, OrderedMap.get?_set] at hn
        split_ifs at hn
        · exact Option.some.inj hn ▸ hmem
        · exact h.within n hn
    | addConnection connection =>
      refine ⟨h.valid.addConnection hok, fun n hn => h.within n ?_⟩
      rw [perform, addConnection] at hok
      split_ifs at hok
      rw [← Except.ok.inj hok] at hn
      exact hn
    | removeNode node options =>
      have hname : ∀ n, graph.nodeExists n → n.name = node.name → n = node :=
        fun n hn he => hnodes n (h.within n hn) node (hnode node rfl) he
      rw [perform] at hok
      cases hremove : graph.removeNode node options with
      | error e =>
        rw [hremove] at hok
        cases hok
      | ok result =>
        obtain ⟨graph'', newConnections⟩ := result
        rw [hremove] at hok
        obtain rfl : graph'' = graph' := Except.ok.inj hok
        refine ⟨h.valid.removeNode hname hloop hremove, fun n hn => h.within n ?_⟩
        rw [nodeExists, nodes_of_removeNode hremove, OrderedMap.get?_delete] at hn
        split_ifs at hn
        exact hn
    | clone =>
      rw [perform, h.valid.clone_eq] at hok
      exact Except.ok.inj hok ▸ h

/-- When no connection from a removed node to itself is reconnected, no connection is
left without its ends. -/
theorem noDangling_of_run {tr : List (Operation × DirectedGraph)}
    (hr : Run OperationStep empty tr) (hnames : NamesDistinct (tr.map Prod.fst))
    (hloop : EveryStep NoLoopReconnected empty tr) : Always NoDangling empty tr := by
  have hstart : ValidWithin ((tr.map Prod.fst).filterMap Operation.node?) empty :=
    ⟨empty_valid, fun n hn => (Option.some_ne_none n hn.symm).elim⟩
  have hwithin : ∀ p ∈ tr, ∀ node ∈ p.1.node?,
      node ∈ (tr.map Prod.fst).filterMap Operation.node? := fun p hp node hnode =>
    List.mem_filterMap.mpr ⟨p.1, List.mem_map_of_mem hp, hnode⟩
  have hinv := hr.always hstart (C := fun graph operation => (∀ node ∈ operation.node?,
      node ∈ (tr.map Prod.fst).filterMap Operation.node?) ∧ NoLoopReconnected graph operation)
    (fun graph operation graph' h hc hstep => h.step hnames hc.1 hc.2 hstep)
    (hloop.and_of_forall hwithin)
  exact hinv.mono fun graph h => h.valid.noDangling

/-- Reconnecting a node with a connection to itself. -/
def loopOperations : List Operation :=
  [.addNode (noOp "a"), .addNode (noOp "b"), .addConnection ⟨noOp "a", noOp "a", .main, 0, 0⟩,
    .addConnection ⟨noOp "a", noOp "b", .main, 0, 0⟩,
    .removeNode (noOp "a") { reconnectConnections := true }]

theorem loop_dangling : ¬ ∀ tr : List (Operation × DirectedGraph), Run OperationStep empty tr →
    NamesDistinct (tr.map Prod.fst) → Always NoDangling empty tr := by
  intro h
  have hr : Run OperationStep empty (trace afterOperation empty loopOperations) :=
    @run_trace_of_total _ _ OperationStep afterOperation (fun _ _ => rfl) _ _
  have hfinal := (h _ hr (by decide)).final
  have hends := hfinal.ends ⟨noOp "a", noOp "b", .main, 0, 0⟩ (by decide)
  exact absurd hends.1 (by decide)

def chainOperations : List Operation :=
  [.addNode (noOp "a"), .addNode (noOp "b"), .addNode (noOp "c"),
    .addConnection ⟨noOp "a", noOp "b", .main, 0, 0⟩,
    .addConnection ⟨noOp "b", noOp "c", .main, 0, 0⟩,
    .removeNode (noOp "b") { reconnectConnections := true }, .clone]

theorem chain_noDangling : Always NoDangling empty (trace afterOperation empty chainOperations) := by
  have hr : Run OperationStep empty (trace afterOperation empty chainOperations) :=
    @run_trace_of_total _ _ OperationStep afterOperation (fun _ _ => rfl) _ _
  refine noDangling_of_run hr (by decide) ?_
  simp only [chainOperations, trace, EveryStep, NoLoopReconnected, and_true, true_and]
  decide

end DirectedGraph
end N8n
