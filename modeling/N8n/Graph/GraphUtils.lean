import N8n.Foundations.OrderedMap
import N8n.Foundations.OrderedSet
import N8n.Workflow.Connections

/-!
# Extractable selections

`parseExtractableSubgraphSelection` decides whether the selected nodes can become
a sub-workflow, and names its entry and exit. `fuel` bounds the rounds of the
loop in `hasPath`; `none` says that they did not suffice.
-/

namespace N8n.GraphUtils

inductive ExtractableErrorResult where
  | multipleInputNodes (nodes : OrderedSet String)
  | multipleOutputNodes (nodes : OrderedSet String)
  | inputEdgeToNonRootNode (node : String)
  | outputEdgeFromNonLeafNode (node : String)
  | noContinuousPathFromRootToLeaf (start end_ : String)

abbrev IConnectionAdjacencyList := OrderedMap String (List Connection)

def getInputEdges (graphIds : OrderedSet String) (adjacencyList : IConnectionAdjacencyList) :
    List (String × Connection) :=
  adjacencyList.entries.flatMap fun (source, tos) =>
    if source ∈ graphIds then []
    else (tos.filter (fun target => decide (target.node ∈ graphIds))).map (fun target => (source, target))

def getOutputEdges (graphIds : OrderedSet String) (adjacencyList : IConnectionAdjacencyList) :
    List (String × Connection) :=
  adjacencyList.entries.flatMap fun (source, tos) =>
    if source ∈ graphIds then
      (tos.filter (fun target => decide (target.node ∉ graphIds))).map (fun target => (source, target))
    else []

/-- The nodes other than itself that a node has a main connection to. -/
def mainTargetsOf (adjacencyList : IConnectionAdjacencyList) (nodeId : String) :
    OrderedSet String :=
  .ofList ((((adjacencyList.get? nodeId).getD []).filter
    (fun x => decide (x.type = .main) && decide (x.node ≠ nodeId))).map Connection.node)

def getRootNodes (graphIds : OrderedSet String) (adjacencyList : IConnectionAdjacencyList) :
    OrderedSet String :=
  let innerNodes := graphIds.elems.foldl
    (fun innerNodes nodeId => innerNodes.union (mainTargetsOf adjacencyList nodeId)) .empty
  graphIds.difference innerNodes

def getLeafNodes (graphIds : OrderedSet String) (adjacencyList : IConnectionAdjacencyList) :
    OrderedSet String :=
  graphIds.elems.foldl
    (fun result nodeId =>
      if ((mainTargetsOf adjacencyList nodeId).inter graphIds).size = 0 then result.insert nodeId
      else result) .empty

def mainChildren (adjacencyList : IConnectionAdjacencyList) (nodeId : String) :
    OrderedSet String :=
  .ofList ((((adjacencyList.get? nodeId).getD []).filter
    (fun x => decide (x.type = .main))).map Connection.node)

/-- The loop of `hasPath`. The end of the array `paths` is the head of the list. -/
def hasPathLoop (adjacencyList : IConnectionAdjacencyList) (end_ : String) :
    ℕ → OrderedSet String → List String → Option Bool
  | 0, _, _ => none
  | fuel + 1, seen, paths =>
    match paths with
    | [] => some false
    | next :: paths =>
      if next = end_ then some true
      else
        let seen := seen.insert next
        hasPathLoop adjacencyList end_ fuel seen
          (((mainChildren adjacencyList next).difference seen).elems.reverse ++ paths)

def hasPath (fuel : ℕ) (start end_ : String) (adjacencyList : IConnectionAdjacencyList) :
    Option Bool :=
  hasPathLoop adjacencyList end_ fuel .empty [start]

structure ExtractableSubgraphData where
  start : Option String
  end_ : Option String
  deriving DecidableEq

/-- The nodes with edges from outside, and the roots. A single entry with a loop back to it
from within the selection counts as a root. -/
def inputAndRootNodes (graphIds : OrderedSet String) (adjacencyList : IConnectionAdjacencyList) :
    OrderedSet String × OrderedSet String :=
  let inputEdges := getInputEdges graphIds adjacencyList
  let inputNodes : OrderedSet String :=
    .ofList ((inputEdges.filter (fun x => decide (x.2.type = .main))).map (fun x => x.2.node))
  let rootNodes := getRootNodes graphIds adjacencyList
  (inputNodes, if rootNodes.size = 0 ∧ inputNodes.size = 1 then inputNodes else rootNodes)

def outputAndLeafNodes (graphIds : OrderedSet String) (adjacencyList : IConnectionAdjacencyList) :
    OrderedSet String × OrderedSet String :=
  let outputEdges := getOutputEdges graphIds adjacencyList
  let outputNodes : OrderedSet String :=
    .ofList ((outputEdges.filter (fun x => decide (x.2.type = .main))).map Prod.fst)
  let leafNodes := getLeafNodes graphIds adjacencyList
  (outputNodes, if leafNodes.size = 0 ∧ outputNodes.size = 1 then outputNodes else leafNodes)

def rootInputNodes (graphIds : OrderedSet String) (adjacencyList : IConnectionAdjacencyList) :
    OrderedSet String :=
  let (inputNodes, rootNodes) := inputAndRootNodes graphIds adjacencyList
  rootNodes.inter inputNodes

def leafOutputNodes (graphIds : OrderedSet String) (adjacencyList : IConnectionAdjacencyList) :
    OrderedSet String :=
  let (outputNodes, leafNodes) := outputAndLeafNodes graphIds adjacencyList
  leafNodes.inter outputNodes

/-- `start && end && !hasPath(start, end, adjacencyList)`: an empty name counts as missing. -/
def lacksPath (fuel : ℕ) (adjacencyList : IConnectionAdjacencyList) :
    Option String → Option String → Option Bool
  | some start, some end_ =>
    if start ≠ "" ∧ end_ ≠ "" then (hasPath fuel start end_ adjacencyList).map (!·)
    else some false
  | _, _ => some false

def parseExtractableSubgraphSelection (fuel : ℕ) (graphIds : OrderedSet String)
    (adjacencyList : IConnectionAdjacencyList) :
    Option (Except (List ExtractableErrorResult) ExtractableSubgraphData) :=
  let (inputNodes, rootNodes) := inputAndRootNodes graphIds adjacencyList
  let rootInputNodes := rootInputNodes graphIds adjacencyList
  let (outputNodes, leafNodes) := outputAndLeafNodes graphIds adjacencyList
  let leafOutputNodes := leafOutputNodes graphIds adjacencyList
  let errors :=
    (inputNodes.difference rootNodes).elems.map .inputEdgeToNonRootNode ++
    (if rootInputNodes.size > 1 then [.multipleInputNodes rootInputNodes] else []) ++
    (outputNodes.difference leafNodes).elems.map .outputEdgeFromNonLeafNode ++
    (if leafOutputNodes.size > 1 then [.multipleOutputNodes leafOutputNodes] else [])
  let start := rootInputNodes.first?
  let end_ := leafOutputNodes.first?
  (lacksPath fuel adjacencyList start end_).map fun lacks =>
    let errors := errors ++
      if lacks then [.noContinuousPathFromRootToLeaf (start.getD "") (end_.getD "")] else []
    if errors.length > 0 then .error errors else .ok ⟨start, end_⟩

end N8n.GraphUtils
