import N8n.Graph.RemoveNode
import N8n.Workflow.RunData
import N8n.Workflow.Workflow

/-!
# Graphs and workflows

A workflow keeps the connections nested, by the name of the source node, the type and the
index of the output. The lists of a node are made for the type of its first connection; a
connection of another type finds none. Nor does one from a node with the name of a property
that every object has: such a property is read instead of the missing entry.
-/

namespace N8n

/-- A connection in the form of a workflow. -/
def GraphConnection.target (connection : GraphConnection) : Connection :=
  ⟨connection.toNode.name, connection.type, connection.inputIndex⟩

namespace DirectedGraph

/-- The properties of `Object.prototype`. -/
def objectProperties : List String :=
  ["constructor", "__defineGetter__", "__defineSetter__", "hasOwnProperty", "__lookupGetter__",
    "__lookupSetter__", "isPrototypeOf", "propertyIsEnumerable", "toString", "valueOf",
    "__proto__", "toLocaleString"]

/-- `result[from.name] ?? { [type]: [] }`, as far as types of connections are looked up in it. -/
def resultConnection (result : IConnections) (connection : GraphConnection) :
    OrderedMap NodeConnectionType (List (Option (List Connection))) :=
  match result.get? connection.fromNode.name with
  | some resultConnection => resultConnection
  | none =>
    if connection.fromNode.name ∈ objectProperties then .empty
    else OrderedMap.empty.set connection.type []

def group (outputs : List (Option (List Connection))) (outputIndex : ℕ) : List Connection :=
  (outputs[outputIndex]?).join.getD []

def addIConnection (result : IConnections) (connection : GraphConnection) :
    Except Failure IConnections :=
  match (resultConnection result connection).get? connection.type with
  | none => .error .typeError
  | some outputs =>
    .ok (result.set connection.fromNode.name ((resultConnection result connection).set
      connection.type (writeAt outputs connection.outputIndex
        (some (group outputs connection.outputIndex ++ [connection.target])))))

def toIConnections (graph : DirectedGraph) : Except Failure IConnections :=
  graph.getConnections.foldlM addIConnection .empty

def toWorkflow (graph : DirectedGraph) (executionOrderV1 : Bool)
    (nodeType : INode → Option NodeTypeDescription)
    (evaluate : INode → String → Option RequiredInputs) : Except Failure Workflow := do
  let connections ← graph.toIConnections
  pure {
    nodes := graph.nodes.values.foldl (fun nodes node => nodes.set node.name node) .empty
    connectionsBySourceNode := connections
    executionOrderV1, nodeType, evaluate }

def orAssertionError {α : Type} : Option α → Except Failure α
  | none => .error .assertionError
  | some a => .ok a

/-- One connection of the output `outputIndex` of a node. -/
def addWorkflowConnection (workflow : Workflow) (fromNode : INode) (outputType : NodeConnectionType)
    (outputIndex : ℕ) (graph : DirectedGraph) (conn : Connection) :
    Except Failure DirectedGraph := do
  let toNode ← orAssertionError (workflow.getNode conn.node)
  graph.addConnection ⟨fromNode, toNode, outputType, outputIndex, conn.index⟩

def addOutputs (workflow : Workflow) (fromNode : INode) (graph : DirectedGraph)
    (connections : NodeConnectionType × List (Option (List Connection))) :
    Except Failure DirectedGraph :=
  connections.2.zipIdx.foldlM
    (fun graph (conns, outputIndex) => (conns.getD []).foldlM
      (addWorkflowConnection workflow fromNode connections.1 outputIndex) graph)
    graph

def addNodeConnections (workflow : Workflow) (graph : DirectedGraph)
    (iConnection : String × OrderedMap NodeConnectionType (List (Option (List Connection)))) :
    Except Failure DirectedGraph := do
  let fromNode ← orAssertionError (workflow.getNode iConnection.1)
  iConnection.2.entries.foldlM (addOutputs workflow fromNode) graph

def fromWorkflow (workflow : Workflow) : Except Failure DirectedGraph :=
  workflow.connectionsBySourceNode.entries.foldlM (addNodeConnections workflow)
    (empty.addNodes workflow.nodes.values)

/-! ### Nesting the connections -/

/-- What is connected to an output in the nested form. -/
def nestedAt (connections : IConnections) (name : String) (type : NodeConnectionType)
    (outputIndex : ℕ) : List Connection :=
  group (((connections.get? name).bind (·.get? type)).getD []) outputIndex

theorem group_writeAt (outputs : List (Option (List Connection))) (index index' : ℕ)
    (connections : List Connection) :
    group (writeAt outputs index (some connections)) index' =
      if index = index' then connections else group outputs index' := by
  rw [group, join_writeAt]
  split_ifs <;> rfl

theorem nestedAt_empty (name : String) (type : NodeConnectionType) (outputIndex : ℕ) :
    nestedAt .empty name type outputIndex = [] := rfl

theorem nestedAt_eq_resultConnection (result : IConnections) (c : GraphConnection)
    (type : NodeConnectionType) (outputIndex : ℕ) :
    nestedAt result c.fromNode.name type outputIndex =
      group (((resultConnection result c).get? type).getD []) outputIndex := by
  rw [nestedAt, resultConnection]
  cases result.get? c.fromNode.name with
  | some byType => rfl
  | none =>
    dsimp only
    split_ifs
    · rfl
    · rw [OrderedMap.get?_set]
      split_ifs <;> rfl

theorem addIConnection_eq_ok {result result' : IConnections} {c : GraphConnection} :
    addIConnection result c = .ok result' ↔
      ∃ outputs, (resultConnection result c).get? c.type = some outputs ∧
        result' = result.set c.fromNode.name ((resultConnection result c).set c.type
          (writeAt outputs c.outputIndex (some (group outputs c.outputIndex ++ [c.target])))) := by
  rw [addIConnection]
  cases (resultConnection result c).get? c.type with
  | none => simp
  | some outputs => simp [eq_comm]

/-- A connection adds itself to its output and changes no other one. -/
theorem nestedAt_addIConnection {result result' : IConnections} {c : GraphConnection}
    (h : addIConnection result c = .ok result') (name : String) (type : NodeConnectionType)
    (outputIndex : ℕ) :
    nestedAt result' name type outputIndex = nestedAt result name type outputIndex ++
      if c.fromNode.name = name ∧ c.type = type ∧ c.outputIndex = outputIndex then [c.target]
      else [] := by
  obtain ⟨outputs, houtputs, rfl⟩ := addIConnection_eq_ok.mp h
  by_cases hname : c.fromNode.name = name
  · subst hname
    rw [nestedAt_eq_resultConnection result c, nestedAt, OrderedMap.get?_set_self,
      Option.bind_some, OrderedMap.get?_set]
    by_cases htype : c.type = type
    · subst htype
      rw [if_pos rfl, houtputs, Option.getD_some, group_writeAt, Option.getD_some]
      by_cases hindex : c.outputIndex = outputIndex
      · simp [hindex]
      · simp [hindex]
    · simp [htype]
  · rw [nestedAt, OrderedMap.get?_set_of_ne hname]
    simp [hname, nestedAt]

/-- The connections of a node are of one type, and it is not named like a property that
every object has. -/
structure Convertible (graph : DirectedGraph) : Prop where
  sameType : ∀ c ∈ graph.getConnections, ∀ c' ∈ graph.getConnections,
    c.fromNode = c'.fromNode → c.type = c'.type
  ownNames : ∀ c ∈ graph.getConnections, c.fromNode.name ∉ objectProperties

/-- Each node has lists for one type, that of a connection. -/
structure OneType (connections : List GraphConnection) (result : IConnections) : Prop where
  types : ∀ name byType, result.get? name = some byType → ∃ c ∈ connections,
    c.fromNode.name = name ∧ ∀ type, byType.get? type ≠ none ↔ type = c.type
  names : ∀ name, result.get? name ≠ none → name ∉ objectProperties

section OneType
variable {connections : List GraphConnection} {result result' : IConnections}
  {c : GraphConnection}

theorem oneType_empty : OneType connections .empty := ⟨nofun, fun _ h => absurd rfl h⟩

/-- The lists that a connection is added to are for its type. -/
theorem OneType.resultConnection_types (h : OneType connections result)
    {outputs : List (Option (List Connection))}
    (houtputs : (resultConnection result c).get? c.type = some outputs) :
    c.fromNode.name ∉ objectProperties ∧
      ∀ type, (resultConnection result c).get? type ≠ none ↔ type = c.type := by
  rw [resultConnection] at houtputs ⊢
  cases hget : result.get? c.fromNode.name with
  | some byType =>
    rw [hget] at houtputs
    obtain ⟨c', _, _, htypes⟩ := h.types _ byType hget
    have htype : c.type = c'.type := (htypes c.type).mp (by simp [houtputs])
    exact ⟨h.names _ (by simp [hget]), fun type => htype ▸ htypes type⟩
  | none =>
    rw [hget] at houtputs
    dsimp only at houtputs ⊢
    split_ifs at houtputs ⊢ with hname
    · cases houtputs
    · refine ⟨hname, fun type => ?_⟩
      rw [OrderedMap.get?_set]
      split_ifs with he
      · simp [he]
      · simp [Ne.symm he]

theorem OneType.addIConnection (h : OneType connections result) (hc : c ∈ connections)
    (hok : addIConnection result c = .ok result') :
    OneType connections result' ∧ c.fromNode.name ∉ objectProperties ∧
      ∃ byType, result'.get? c.fromNode.name = some byType ∧ byType.get? c.type ≠ none := by
  obtain ⟨outputs, houtputs, rfl⟩ := addIConnection_eq_ok.mp hok
  obtain ⟨hname, htypes⟩ := h.resultConnection_types houtputs
  refine ⟨⟨fun name byType hget => ?_, fun name hget => ?_⟩, hname, _,
    OrderedMap.get?_set_self _ _ _, by simp⟩
  · rw [OrderedMap.get?_set] at hget
    split_ifs at hget with he
    · obtain rfl := Option.some.inj hget
      refine ⟨c, hc, he, fun type => ?_⟩
      rw [OrderedMap.get?_set]
      split_ifs with htype
      · simp [htype]
      · exact htypes type
    · exact h.types name byType hget
  · rw [OrderedMap.get?_set] at hget
    split_ifs at hget with he
    · exact he ▸ hname
    · exact h.names name hget

/-- Lists once made stay. -/
theorem OneType.addIConnection_keeps (hok : DirectedGraph.addIConnection result c = .ok result')
    {name : String} {type : NodeConnectionType}
    (h : ∃ byType, result.get? name = some byType ∧ byType.get? type ≠ none) :
    ∃ byType, result'.get? name = some byType ∧ byType.get? type ≠ none := by
  obtain ⟨outputs, _, rfl⟩ := addIConnection_eq_ok.mp hok
  obtain ⟨byType, hget, htype⟩ := h
  by_cases hname : c.fromNode.name = name
  · subst hname
    refine ⟨_, OrderedMap.get?_set_self _ _ _, ?_⟩
    rw [OrderedMap.get?_set]
    split_ifs
    · simp
    · rw [resultConnection, hget]
      exact htype
  · exact ⟨byType, by rw [OrderedMap.get?_set_of_ne hname, hget], htype⟩

end OneType

theorem Valid.node_eq {graph : DirectedGraph} {a b : INode} (ha : graph.nodeExists a)
    (hb : graph.nodeExists b) (h : a.name = b.name) : a = b := by
  rw [nodeExists, h, hb] at ha
  exact (Option.some.inj ha).symm

theorem toIConnections_ok {graph : DirectedGraph} (hvalid : graph.Valid) (h : Convertible graph) :
    ∃ result, graph.toIConnections = .ok result ∧ OneType graph.getConnections result ∧
      ∀ name type outputIndex conn, conn ∈ nestedAt result name type outputIndex ↔
        ∃ c ∈ graph.getConnections, c.fromNode.name = name ∧ c.type = type ∧
          c.outputIndex = outputIndex ∧ c.target = conn := by
  have hround : ∀ result c, OneType graph.getConnections result → c ∈ graph.getConnections →
      ∃ result', addIConnection result c = .ok result' ∧ OneType graph.getConnections result' ∧
        ∀ b : String × NodeConnectionType × ℕ × Connection,
          b.2.2.2 ∈ nestedAt result' b.1 b.2.1 b.2.2.1 ↔
            b.2.2.2 ∈ nestedAt result b.1 b.2.1 b.2.2.1 ∨ (c.fromNode.name = b.1 ∧
              c.type = b.2.1 ∧ c.outputIndex = b.2.2.1 ∧ c.target = b.2.2.2) := by
    intro result c hone hc
    obtain ⟨outputs, houtputs⟩ :
        ∃ outputs, (resultConnection result c).get? c.type = some outputs := by
      rw [resultConnection]
      cases hget : result.get? c.fromNode.name with
      | some byType =>
        obtain ⟨c', hc', hname, htypes⟩ := hone.types _ byType hget
        have hnode := Valid.node_eq (hvalid.ends c' hc').1 (hvalid.ends c hc).1 hname
        exact Option.ne_none_iff_exists'.mp
          ((htypes c.type).mpr (h.sameType c hc c' hc' hnode.symm))
      | none => exact ⟨[], by simp [h.ownNames c hc]⟩
    have hok := addIConnection_eq_ok.mpr ⟨outputs, houtputs, rfl⟩
    refine ⟨_, hok, (hone.addIConnection hc hok).1, fun b => ?_⟩
    rw [nestedAt_addIConnection hok, List.mem_append]
    refine or_congr_right ?_
    split_ifs with hif
    · simp [hif, eq_comm]
    · simp only [List.not_mem_nil, false_iff]
      rintro ⟨hname, htype, hindex, _⟩
      exact hif ⟨hname, htype, hindex⟩
  obtain ⟨result, hok, hone, hmem⟩ := FoldM.foldlM_collects _ _ _ oneType_empty hround
  refine ⟨result, hok, hone, fun name type outputIndex conn => ?_⟩
  rw [hmem (name, type, outputIndex, conn), nestedAt_empty]
  simp

theorem convertible_of_ok {graph : DirectedGraph} {result : IConnections}
    (hok : graph.toIConnections = .ok result) : Convertible graph := by
  obtain ⟨hone, hall⟩ := FoldM.foldlM_all (OneType graph.getConnections)
    (fun result c => c.fromNode.name ∉ objectProperties ∧
      ∃ byType, result.get? c.fromNode.name = some byType ∧ byType.get? c.type ≠ none)
    oneType_empty (fun _ _ _ hone hc hok => hone.addIConnection hc hok)
    (fun _ _ _ _ _ _ hok hdone => ⟨hdone.1, OneType.addIConnection_keeps hok hdone.2⟩) hok
  refine ⟨fun c hc c' hc' hfrom => ?_, fun c hc => (hall c (Or.inr hc)).1⟩
  obtain ⟨_, byType, hget, htype⟩ := hall c (Or.inr hc)
  obtain ⟨_, byType', hget', htype'⟩ := hall c' (Or.inr hc')
  rw [hfrom, hget', Option.some.injEq] at hget
  subst hget
  obtain ⟨d, _, _, htypes⟩ := hone.types _ _ hget'
  exact ((htypes c.type).mp htype).trans ((htypes c'.type).mp htype').symm

/-! ### Reading the nested connections -/

/-- The same nodes and the same set of connections. -/
structure SameGraph (graph graph' : DirectedGraph) : Prop where
  nodes : ∀ name, graph'.nodes.get? name = graph.nodes.get? name
  connections : ∀ c, c ∈ graph'.getConnections ↔ c ∈ graph.getConnections

/-- A part of the graph with all of its nodes. -/
structure PartOf (graph part : DirectedGraph) : Prop where
  nodes_eq : part.nodes = graph.nodes
  keyed : part.connections.Keyed makeKey
  subset : ∀ c ∈ part.getConnections, c ∈ graph.getConnections

section Read
variable {graph part : DirectedGraph} {workflow : Workflow} {c : GraphConnection}

theorem PartOf.addConnection (h : PartOf graph part) (hvalid : graph.Valid)
    (hc : c ∈ graph.getConnections) : ∃ part', part.addConnection c = .ok part' ∧
      PartOf graph part' ∧ ∀ b, b ∈ part'.getConnections ↔ b ∈ part.getConnections ∨ b = c := by
  have hends : part.nodeExists c.fromNode ∧ part.nodeExists c.toNode := by
    rw [nodeExists, nodeExists, h.nodes_eq]
    exact hvalid.ends c hc
  have hmem : ∀ b, b ∈ (part.connections.set (makeKey c) c).values ↔
      b ∈ part.connections.values ∨ b = c := by
    intro b
    refine h.keyed.mem_values_set fun hb he => ?_
    have hget := hvalid.get?_makeKey (h.subset b hb)
    rw [he, hvalid.get?_makeKey hc] at hget
    exact (Option.some.inj hget).symm
  refine ⟨_, if_pos hends, ⟨h.nodes_eq, h.keyed.set c, fun b hb => ?_⟩, hmem⟩
  rcases (hmem b).mp hb with hb | rfl
  · exact h.subset b hb
  · exact hc

theorem Valid.eq_of_target {b : GraphConnection} (hvalid : graph.Valid)
    (hb : b ∈ graph.getConnections) (hc : c ∈ graph.getConnections)
    (hfrom : b.fromNode = c.fromNode) (hindex : b.outputIndex = c.outputIndex)
    (htarget : b.target = c.target) : b = c := by
  obtain ⟨hto, htype, hinput⟩ := Connection.mk.inj htarget
  have hnode := Valid.node_eq (hvalid.ends b hb).2 (hvalid.ends c hc).2 hto
  cases b
  cases c
  simp_all

/-- The connections of one output are those whose targets are listed. -/
theorem PartOf.addConns (hvalid : graph.Valid) (hnodes : workflow.nodes = graph.nodes)
    {fromNode : INode} {outputType : NodeConnectionType} {outputIndex : ℕ}
    {conns : List Connection} (hconns : ∀ conn ∈ conns, ∃ c ∈ graph.getConnections,
      c.fromNode = fromNode ∧ c.type = outputType ∧ c.outputIndex = outputIndex ∧ c.target = conn)
    (h : PartOf graph part) :
    ∃ part', conns.foldlM (addWorkflowConnection workflow fromNode outputType outputIndex) part =
        .ok part' ∧ PartOf graph part' ∧
      ∀ b, b ∈ part'.getConnections ↔ b ∈ part.getConnections ∨ ∃ conn ∈ conns,
        b ∈ graph.getConnections ∧ b.fromNode = fromNode ∧ b.outputIndex = outputIndex ∧
          b.target = conn := by
  refine FoldM.foldlM_collects (PartOf graph) _ _ h fun part conn h hconn => ?_
  obtain ⟨c, hc, rfl, rfl, rfl, rfl⟩ := hconns conn hconn
  obtain ⟨part', hok, h', hmem⟩ := h.addConnection hvalid hc
  have hnode : workflow.getNode c.target.node = some c.toNode := by
    rw [Workflow.getNode, hnodes]
    exact (hvalid.ends c hc).2
  refine ⟨part', ?_, h', fun b => ?_⟩
  · rw [addWorkflowConnection, hnode]
    exact hok
  · rw [hmem]
    refine or_congr_right ⟨?_, ?_⟩
    · rintro rfl
      exact ⟨hc, rfl, rfl, rfl⟩
    · rintro ⟨hb, hfrom, hindex, htarget⟩
      exact hvalid.eq_of_target hb hc hfrom hindex htarget

theorem PartOf.addOutputs (hvalid : graph.Valid) (hnodes : workflow.nodes = graph.nodes)
    {fromNode : INode} {outputType : NodeConnectionType}
    {outputs : List (Option (List Connection))}
    (houtputs : ∀ outputIndex, ∀ conn ∈ group outputs outputIndex, ∃ c ∈ graph.getConnections,
      c.fromNode = fromNode ∧ c.type = outputType ∧ c.outputIndex = outputIndex ∧ c.target = conn)
    (h : PartOf graph part) :
    ∃ part', addOutputs workflow fromNode part (outputType, outputs) = .ok part' ∧
      PartOf graph part' ∧
      ∀ b, b ∈ part'.getConnections ↔ b ∈ part.getConnections ∨
        (b ∈ graph.getConnections ∧ b.fromNode = fromNode ∧
          b.target ∈ group outputs b.outputIndex) := by
  have hround : ∀ part (output : Option (List Connection) × ℕ), PartOf graph part →
      output ∈ outputs.zipIdx → ∃ part', (output.1.getD []).foldlM
        (addWorkflowConnection workflow fromNode outputType output.2) part = .ok part' ∧
      PartOf graph part' ∧ ∀ b, b ∈ part'.getConnections ↔ b ∈ part.getConnections ∨
        (b ∈ graph.getConnections ∧ b.fromNode = fromNode ∧ b.outputIndex = output.2 ∧
          b.target ∈ output.1.getD []) := by
    rintro part ⟨conns, outputIndex⟩ h hmem
    have hgroup : group outputs outputIndex = conns.getD [] := by
      rw [group, List.mem_zipIdx_iff_getElem?.mp hmem]
      rfl
    obtain ⟨part', hok, h', hadds⟩ := h.addConns hvalid hnodes (hgroup ▸ houtputs outputIndex)
    refine ⟨part', hok, h', fun b => ?_⟩
    rw [hadds]
    refine or_congr_right ⟨?_, ?_⟩
    · rintro ⟨conn, hconn, hb, hfrom, hindex, rfl⟩
      exact ⟨hb, hfrom, hindex, hconn⟩
    · rintro ⟨hb, hfrom, hindex, hconn⟩
      exact ⟨b.target, hconn, hb, hfrom, hindex, rfl⟩
  obtain ⟨part', hok, h', hadds⟩ := FoldM.foldlM_collects (PartOf graph) _ _ h hround
  refine ⟨part', hok, h', fun b => ?_⟩
  rw [hadds]
  refine or_congr_right ⟨?_, ?_⟩
  · rintro ⟨⟨conns, outputIndex⟩, hmem, hb, hfrom, rfl, htarget⟩
    refine ⟨hb, hfrom, ?_⟩
    rw [group, List.mem_zipIdx_iff_getElem?.mp hmem]
    exact htarget
  · rintro ⟨hb, hfrom, htarget⟩
    rw [group] at htarget
    cases hget : outputs[b.outputIndex]? with
    | none =>
      rw [hget] at htarget
      cases htarget
    | some conns =>
      rw [hget] at htarget
      exact ⟨(conns, b.outputIndex), List.mem_zipIdx_iff_getElem?.mpr hget, hb, hfrom, rfl, htarget⟩

theorem PartOf.addNodeConnections (hvalid : graph.Valid) (hnodes : workflow.nodes = graph.nodes)
    {result : IConnections} (hone : OneType graph.getConnections result)
    (hnested : ∀ name type outputIndex conn, conn ∈ nestedAt result name type outputIndex ↔
      ∃ c ∈ graph.getConnections, c.fromNode.name = name ∧ c.type = type ∧
        c.outputIndex = outputIndex ∧ c.target = conn)
    {iConnection : String × OrderedMap NodeConnectionType (List (Option (List Connection)))}
    (hmem : iConnection ∈ result.entries) (h : PartOf graph part) :
    ∃ part', addNodeConnections workflow part iConnection = .ok part' ∧ PartOf graph part' ∧
      ∀ b, b ∈ part'.getConnections ↔ b ∈ part.getConnections ∨
        (b ∈ graph.getConnections ∧ b.fromNode.name = iConnection.1) := by
  obtain ⟨name, byType⟩ := iConnection
  have hget : result.get? name = some byType := OrderedMap.get?_eq_some.mpr hmem
  obtain ⟨c, hc, rfl, _⟩ := hone.types name byType hget
  have hfrom : workflow.getNode c.fromNode.name = some c.fromNode := by
    rw [Workflow.getNode, hnodes]
    exact (hvalid.ends c hc).1
  have hsame : ∀ b ∈ graph.getConnections, b.fromNode.name = c.fromNode.name →
      b.fromNode = c.fromNode :=
    fun b hb he => Valid.node_eq (hvalid.ends b hb).1 (hvalid.ends c hc).1 he
  have hnestedAt : ∀ type outputs, byType.get? type = some outputs → ∀ outputIndex,
      nestedAt result c.fromNode.name type outputIndex = group outputs outputIndex := by
    intro type outputs houtputs outputIndex
    rw [nestedAt, hget, Option.bind_some, houtputs, Option.getD_some]
  have hround : ∀ part (connections : NodeConnectionType × List (Option (List Connection))),
      PartOf graph part → connections ∈ byType.entries →
      ∃ part', DirectedGraph.addOutputs workflow c.fromNode part connections = .ok part' ∧
        PartOf graph part' ∧ ∀ b, b ∈ part'.getConnections ↔ b ∈ part.getConnections ∨ (b ∈ graph.getConnections ∧
          b.fromNode = c.fromNode ∧ b.target ∈ group connections.2 b.outputIndex) := by
    rintro part ⟨type, outputs⟩ h hmem
    have houtputs := hnestedAt type outputs (OrderedMap.get?_eq_some.mpr hmem)
    refine h.addOutputs hvalid hnodes fun outputIndex conn hconn => ?_
    rw [← houtputs] at hconn
    obtain ⟨d, hd, hname, htype, hindex, htarget⟩ := (hnested _ _ _ _).mp hconn
    exact ⟨d, hd, hsame d hd hname, htype, hindex, htarget⟩
  obtain ⟨part', hok, h', hadds⟩ := FoldM.foldlM_collects (PartOf graph) _ _ h hround
  refine ⟨part', ?_, h', fun b => ?_⟩
  · rw [DirectedGraph.addNodeConnections, hfrom]
    exact hok
  · rw [hadds]
    refine or_congr_right ⟨?_, ?_⟩
    · rintro ⟨_, _, hb, hfrom, _⟩
      exact ⟨hb, congrArg INode.name hfrom⟩
    · rintro ⟨hb, hname⟩
      have htarget := (hnested b.fromNode.name b.type b.outputIndex b.target).mpr
        ⟨b, hb, rfl, rfl, rfl, rfl⟩
      rw [nestedAt, hname, hget, Option.bind_some] at htarget
      cases houtputs : byType.get? b.type with
      | none =>
        rw [houtputs] at htarget
        cases htarget
      | some outputs =>
        rw [houtputs] at htarget
        exact ⟨(b.type, outputs), OrderedMap.get?_eq_some.mp houtputs, hb, hsame b hb hname,
          htarget⟩

end Read

/-- Two types of connections from one node. -/
def twoTypes : DirectedGraph :=
  ofParts [noOp "a", noOp "b"]
    [⟨noOp "a", noOp "b", .main, 0, 0⟩, ⟨noOp "a", noOp "b", .aiTool, 0, 0⟩]

/-- Two connections between the same nodes, with an output that is not connected before the
second one, and a connection back. -/
def outputGap : DirectedGraph :=
  ofParts [noOp "a", noOp "b"] [⟨noOp "a", noOp "b", .main, 0, 0⟩,
    ⟨noOp "a", noOp "b", .main, 2, 1⟩, ⟨noOp "b", noOp "a", .aiTool, 0, 0⟩]

end DirectedGraph
end N8n
