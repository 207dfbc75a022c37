import N8n.Graph.DirectedGraph
import N8n.Workflow.RunData
import N8n.Foundations.FoldM
import N8n.Foundations.Paths
import Mathlib.Data.Finset.Card
import Mathlib.Data.Int.Notation

/-!
# The start nodes of a partial execution

`findStartNodes` walks from the trigger along connections that carry data and
stops on each branch at the first node that has to run again. The nodes seen on
a branch are left out below it; the stopping tests come before that test.
-/

namespace N8n

variable {ι : Type}

/-- `Array.prototype.at`: a negative index counts from the end. -/
def arrayAt {α : Type} (l : List α) (index : ℤ) : Option α :=
  if index < 0 then (if index + l.length < 0 then none else l[(index + l.length).toNat]?)
  else l[index.toNat]?

def ITaskData.output (task : ITaskData ι) (connectionType : NodeConnectionType)
    (outputIndex : ℕ) : Except Failure (Option (List ι)) :=
  match task.data with
  | none => .ok none
  | some connections =>
    match connections.get? connectionType with
    | none => .error .typeError
    | some outputs => .ok (getSlot outputs outputIndex).items?

def getIncomingData (runData : IRunData ι) (nodeName : String) (runIndex : ℤ)
    (connectionType : NodeConnectionType) (outputIndex : ℕ) : Except Failure (Option (List ι)) :=
  match runData.get? nodeName with
  | none => .ok none
  | some runs =>
    match arrayAt runs runIndex with
    | none => .ok none
    | some task => task.output connectionType outputIndex

def getRunIndexLength (runData : IRunData ι) (nodeName : String) : ℕ :=
  ((runData.get? nodeName).map List.length).getD 0

/-- The rounds of the loop from `runIndex` on; `rest` rounds are left. -/
def incomingDataFromRun (runData : IRunData ι) (nodeName : String)
    (connectionType : NodeConnectionType) (outputIndex : ℕ) :
    ℕ → ℕ → Except Failure (Option (List ι × ℕ))
  | 0, _ => .ok none
  | rest + 1, runIndex => do
    match ← getIncomingData runData nodeName runIndex connectionType outputIndex with
    | some data =>
      if data.length > 0 then pure (some (data, runIndex))
      else incomingDataFromRun runData nodeName connectionType outputIndex rest (runIndex + 1)
    | none => incomingDataFromRun runData nodeName connectionType outputIndex rest (runIndex + 1)

def getIncomingDataFromAnyRun (runData : IRunData ι) (nodeName : String)
    (connectionType : NodeConnectionType) (outputIndex : ℕ) :
    Except Failure (Option (List ι × ℕ)) :=
  incomingDataFromRun runData nodeName connectionType outputIndex
    (getRunIndexLength runData nodeName) 0

def isDirty (node : INode) (runData : IRunData ι) (pinData : IPinData ι) : Bool :=
  if pinData.has node.name then false
  else if runData.has node.name then false
  else true

namespace DirectedGraph

/-- A loop node whose `done` output has no data on the last run. -/
def loopNotDone (runData : IRunData ι) (current : INode) : Except Failure Bool := do
  if current.type = "n8n-nodes-base.splitInBatches" then
    let nodeRunData ← getIncomingData runData current.name (-1) .main 0
    pure (nodeRunData.all List.isEmpty)
  else pure false

def findStartNodesRecursive (graph : DirectedGraph) (destination : INode) (runData : IRunData ι)
    (pinData : IPinData ι) :
    ℕ → INode → OrderedSet INode → OrderedSet INode → Except Failure (OrderedSet INode)
  | 0, _, _, _ => .error .outOfFuel
  | fuel + 1, current, startNodes, seen => do
    if isDirty current runData pinData then return startNodes.insert current
    if current = destination then return startNodes.insert current
    if ← loopNotDone runData current then return startNodes.insert current
    if current ∈ seen then return startNodes
    let outGoingConnections ← graph.getDirectChildConnections current
    outGoingConnections.foldlM
      (fun startNodes outGoingConnection => do
        let nodeRunData ← getIncomingDataFromAnyRun runData outGoingConnection.fromNode.name
          outGoingConnection.type outGoingConnection.outputIndex
        let hasNoRunData := nodeRunData.all fun found => found.1.isEmpty
        let hasNoPinnedData := !pinData.has outGoingConnection.fromNode.name
        if hasNoRunData && hasNoPinnedData then pure startNodes
        else
          findStartNodesRecursive graph destination runData pinData fuel
            outGoingConnection.toNode startNodes (seen.insert current))
      startNodes

def findStartNodes (graph : DirectedGraph) (trigger destination : INode) (runData : IRunData ι)
    (pinData : IPinData ι) (fuel : ℕ) : Except Failure (OrderedSet INode) :=
  graph.findStartNodesRecursive destination runData pinData fuel trigger .empty .empty

end DirectedGraph
end N8n
