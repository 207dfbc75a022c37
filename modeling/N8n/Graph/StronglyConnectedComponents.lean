import N8n.Graph.DirectedGraph
import N8n.Foundations.FoldM
import N8n.Foundations.DepthFirst

/-!
# Strongly connected components

`followNode` gives each node an id and a low link value, the lowest value it sees at a
child that is on the stack. When a node comes out with its own id, the nodes on top of
the stack that have this value are taken off as a component. The steps are written
for any type of nodes; the head of `stack` is its top.
-/

namespace N8n

structure LowLinks (α : Type) where
  id : ℕ
  visited : OrderedSet α
  ids : OrderedMap α ℕ
  lowLinkValues : OrderedMap α ℕ
  stack : List α
  stronglyConnectedComponents : List (OrderedSet α)

namespace LowLinks

variable {α : Type} [DecidableEq α]

def initial : LowLinks α := ⟨0, .empty, .empty, .empty, [], []⟩

def enter (node : α) (s : LowLinks α) : LowLinks α :=
  { s with
    id := s.id + 1
    visited := s.visited.insert node
    ids := s.ids.set node s.id
    lowLinkValues := s.lowLinkValues.set node s.id
    stack := node :: s.stack }

/-- If the child is on the stack the node gets the lower of the two values. -/
def followed (node child : α) (s : LowLinks α) : Except Failure (LowLinks α) :=
  if child ∈ s.stack then
    match s.lowLinkValues.get? child, s.lowLinkValues.get? node with
    | some childLowLinkValue, some ownLowLinkValue =>
      .ok { s with lowLinkValues :=
        s.lowLinkValues.set node (min childLowLinkValue ownLowLinkValue) }
    | _, _ => .error .assertionError
  else .ok s

/-- Taking nodes off the stack until one has another value. -/
def popComponent (ownId : ℕ) (s : LowLinks α) : LowLinks α :=
  let popped := s.stack.takeWhile fun next => decide (s.lowLinkValues.get? next = some ownId)
  let scc : OrderedSet α := .ofList popped
  { s with
    stack := s.stack.dropWhile fun next => decide (s.lowLinkValues.get? next = some ownId)
    stronglyConnectedComponents :=
      if scc.size > 0 then s.stronglyConnectedComponents ++ [scc]
      else s.stronglyConnectedComponents }

def finish (node : α) (s : LowLinks α) : Except Failure (LowLinks α) :=
  match s.ids.get? node, s.lowLinkValues.get? node with
  | some ownId, some ownLowLinkValue =>
    .ok (if ownId = ownLowLinkValue then s.popComponent ownId else s)
  | _, _ => .error .assertionError

end LowLinks

namespace DirectedGraph

def followNode (graph : DirectedGraph) : ℕ → LowLinks INode → INode →
    Except Failure (LowLinks INode)
  | 0, _, _ => .error .outOfFuel
  | fuel + 1, s, node => do
    if node ∈ s.visited then .ok s
    else
      let directChildren ← graph.getDirectChildConnections node
      let s ← directChildren.foldlM
        (fun s c => followNode graph fuel s c.toNode >>= LowLinks.followed node c.toNode)
        (s.enter node)
      s.finish node

def getStronglyConnectedComponents (graph : DirectedGraph) :
    Except Failure (List (OrderedSet INode)) :=
  LowLinks.stronglyConnectedComponents <$>
    graph.nodes.values.foldlM (graph.followNode (graph.nodes.size + 1)) .initial

/-- The nodes in the order of the visits, and the edges in the order they are left. -/
def leaveEdges (graph : DirectedGraph) : ℕ → List INode × List (INode × INode) → INode →
    List INode × List (INode × INode)
  | 0, trail, _ => trail
  | fuel + 1, trail, node =>
    if node ∈ trail.1 then trail
    else
      (graph.getConnections.filter fun c => decide (c.fromNode = node)).foldl
        (fun trail c =>
          let trail := leaveEdges graph fuel trail c.toNode
          (trail.1, trail.2 ++ [(node, c.toNode)]))
        (trail.1 ++ [node], trail.2)

def depthFirst (graph : DirectedGraph) : List INode × List (INode × INode) :=
  graph.nodes.values.foldl (graph.leaveEdges (graph.nodes.size + 1)) ([], [])

def children (graph : DirectedGraph) (node : INode) : List INode :=
  (graph.getConnections.filter fun c => decide (c.fromNode = node)).map (·.toNode)

end DirectedGraph
end N8n
