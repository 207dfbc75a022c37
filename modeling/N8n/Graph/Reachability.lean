import N8n.Foundations.MarkedSearch
import N8n.Graph.DirectedGraph

/-!
# Children and parent connections

Both recursions of the graph mark what they have met: the one below a node its children, the one
above it the connections that lead there. They follow connections of all types.
-/

namespace N8n.DirectedGraph

open Relation (ReflTransGen TransGen)

def getChildrenRecursive (graph : DirectedGraph) :
    ℕ → INode → OrderedSet INode → Except Failure (OrderedSet INode)
  | 0, _, _ => .error .outOfFuel
  | fuel + 1, node, children => do
    let directChildren ← graph.getDirectChildConnections node
    directChildren.foldlM
      (fun children directChild =>
        if directChild.toNode ∈ children then pure children
        else graph.getChildrenRecursive fuel directChild.toNode (children.insert directChild.toNode))
      children

def getChildren (graph : DirectedGraph) (fuel : ℕ) (node : INode) :
    Except Failure (OrderedSet INode) :=
  graph.getChildrenRecursive fuel node .empty

/-- The edges of the connections of any type. -/
def Edge (graph : DirectedGraph) (a b : INode) : Prop :=
  ∃ c ∈ graph.getConnections, c.fromNode = a ∧ c.toNode = b

section Next
variable (graph : DirectedGraph) (node : INode)

def childNodes : List INode :=
  (graph.getConnections.filter fun c => decide (c.fromNode = node)).map (·.toNode)

def parentConnections : List GraphConnection :=
  graph.getConnections.filter fun c => decide (c.toNode = node)

variable {graph node}

theorem mem_childNodes {child : INode} : child ∈ graph.childNodes node ↔ graph.Edge node child := by
  simp [childNodes, Edge, and_assoc]

theorem mem_parentConnections {c : GraphConnection} :
    c ∈ graph.parentConnections node ↔ c ∈ graph.getConnections ∧ c.toNode = node := by
  simp [parentConnections]

end Next

theorem getChildrenRecursive_eq (graph : DirectedGraph) (fuel : ℕ) (node : INode)
    (children : OrderedSet INode) :
    graph.getChildrenRecursive fuel node children =
      MarkedSearch.collect (fun node => List.map (·.toNode) <$> graph.getDirectChildConnections node)
        id .outOfFuel fuel node children := by
  induction fuel generalizing node children with
  | zero => rfl
  | succ fuel ih =>
    rw [getChildrenRecursive, MarkedSearch.collect]
    cases graph.getDirectChildConnections node with
    | error e => rfl
    | ok directChildren =>
      simp only [ih, id]
      change directChildren.foldlM _ _ = (directChildren.map (·.toNode)).foldlM _ _
      rw [List.foldlM_map]

theorem getParentConnectionsRecursive_eq (graph : DirectedGraph) (fuel : ℕ) (node : INode)
    (connections : OrderedSet GraphConnection) :
    graph.getParentConnectionsRecursive fuel node connections =
      MarkedSearch.collect graph.getDirectParentConnections (·.fromNode) .outOfFuel fuel node
        connections := by
  induction fuel generalizing node connections with
  | zero => rfl
  | succ fuel ih =>
    rw [getParentConnectionsRecursive, MarkedSearch.collect]
    simp only [ih]

section Valid
variable {graph : DirectedGraph} (hv : graph.Valid) {fuel : ℕ} {node : INode}
include hv

theorem Valid.getChildren (hnode : graph.nodeExists node) (hfuel : graph.nodes.size < fuel) :
    ∃ children, graph.getChildren fuel node = .ok children ∧
      ∀ child, child ∈ children ↔ TransGen graph.Edge node child := by
  have hcard : graph.nodes.values.toFinset.card < fuel := by
    have hle := graph.nodes.values.toFinset_card_le
    rw [OrderedMap.values, List.length_map] at hle
    exact Nat.lt_of_le_of_lt hle hfuel
  have hall : ∀ a, graph.nodeExists a → ∀ b ∈ graph.childNodes a,
      b ∈ graph.nodes.values.toFinset ∧ graph.nodeExists (id b) := by
    intro a _ b hb
    obtain ⟨c, hc, -, rfl⟩ := mem_childNodes.mp hb
    have hto := (hv.ends c hc).2
    exact ⟨List.mem_toFinset.mpr (hv.mem_nodes_values.mpr hto), hto⟩
  obtain ⟨children, hok, hmem⟩ := MarkedSearch.collect_empty
    (fun node => List.map (·.toNode) <$> graph.getDirectChildConnections node) Failure.outOfFuel
    (fun a ha => by rw [getDirectChildConnections_eq ha]; rfl) hall hnode hcard
  refine ⟨children, (graph.getChildrenRecursive_eq fuel node .empty).trans hok, fun child => ?_⟩
  have hleads : MarkedSearch.Leads graph.childNodes id = graph.Edge :=
    funext₂ fun a b => propext mem_childNodes
  rw [hmem, MarkedSearch.Reached, hleads, Relation.TransGen.head'_iff]
  simp only [mem_childNodes]

theorem Valid.getParentConnections (hnode : graph.nodeExists node)
    (hfuel : graph.getConnections.toFinset.card < fuel) :
    ∃ connections, graph.getParentConnections fuel node = .ok connections ∧
      ∀ c, c ∈ connections ↔ c ∈ graph.getConnections ∧ ReflTransGen graph.Edge c.toNode node := by
  have hall : ∀ a, graph.nodeExists a → ∀ c ∈ graph.parentConnections a,
      c ∈ graph.getConnections.toFinset ∧ graph.nodeExists c.fromNode := by
    intro a _ c hc
    have hmem := (mem_parentConnections.mp hc).1
    exact ⟨List.mem_toFinset.mpr hmem, (hv.ends c hmem).1⟩
  obtain ⟨connections, hok, hmem⟩ := MarkedSearch.collect_empty
    graph.getDirectParentConnections Failure.outOfFuel
    (fun a ha => getDirectParentConnections_eq ha) hall hnode hfuel
  refine ⟨connections, (graph.getParentConnectionsRecursive_eq fuel node .empty).trans hok,
    fun c => ?_⟩
  rw [hmem]
  constructor
  · rintro ⟨first, hfirst, hpath⟩
    obtain ⟨hmem, hto⟩ := mem_parentConnections.mp hfirst
    induction hpath with
    | refl => exact ⟨hmem, hto ▸ .refl⟩
    | @tail d e _ hstep ih =>
      obtain ⟨he, hto⟩ := mem_parentConnections.mp hstep
      exact ⟨he, .head ⟨d, ih.1, hto.symm, rfl⟩ ih.2⟩
  · rintro ⟨hc, hpath⟩
    generalize hto : c.toNode = a at hpath
    induction hpath using ReflTransGen.head_induction_on generalizing c with
    | refl => exact ⟨c, mem_parentConnections.mpr ⟨hc, hto⟩, .refl⟩
    | @head a b hstep _ ih =>
      obtain ⟨d, hd, hfrom, hdto⟩ := hstep
      obtain ⟨first, hfirst, hpath⟩ := ih d hd hdto
      exact ⟨first, hfirst, hpath.tail (mem_parentConnections.mpr ⟨hc, hto.trans hfrom.symm⟩)⟩

end Valid
end N8n.DirectedGraph
