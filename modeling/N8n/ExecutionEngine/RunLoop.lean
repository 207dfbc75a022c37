import N8n.ExecutionEngine.AddNode
import N8n.ExecutionEngine.WaitingScan

/-!
# One iteration of the run loop

An iteration takes the first item of the stack and executes its node. It leaves early
when the node is filtered out, has to be put back for lack of input data, has no
output or is the destination; only an iteration that does not looks at the waiting
nodes in the end. What a node computes is a parameter, which also stands for the
retries and the error outputs. Iterations in which an error is thrown are failures.
-/

namespace N8n

variable {ι : Type}

inductive NodeOutput (ι : Type) where
  | outputs (outputs : List (Slot ι))
  | null
  | undefined

structure Engine (ι : Type) where
  workflow : Workflow
  runNodeFilter : Option (List String)
  destinationNode : Option String
  pinData : Option (IPinData ι)
  runNode : RunState ι → IExecuteData ι → ℕ → NodeOutput ι

structure LoopState (ι : Type) where
  run : RunState ι
  lastExecutionTry : String

inductive Iteration where
  | filtered
  | deferred
  | noOutput
  | destination
  | executed
  deriving DecidableEq, Repr

section Input
variable [ExecutionItem ι]

def Slot.mapItems (f : List ι → List ι) : Slot ι → Slot ι
  | .items l => .items (f l)
  | .null => .null
  | .undefined => .undefined

/-- Every item is paired with its own place in the input. -/
def updatePairedItems (data : ITaskDataConnections ι) : ITaskDataConnections ι :=
  data.mapValues fun slots => slots.mapIdx fun inputIndex input =>
    input.mapItems fun items => items.mapIdx fun itemIndex item =>
      ExecutionItem.setPairedItem item [⟨itemIndex, orUndefined inputIndex⟩]

/-- The loop over the inputs; when it is left early the node is executed or put back. -/
def inputDataFound (workflow : Workflow) (nodeName : String) (data : ITaskDataConnections ι) :
    List ℕ → Except Failure Bool
  | [] => .ok true
  | connectionIndex :: connectionIndexes => do
    let highestNodes ← workflow.getHighestNode nodeName connectionIndex
    if highestNodes.length = 0 then .ok true
    else
      match data.get? .main with
      | none => .ok false
      | some main =>
        if workflow.executionOrderV1 = false ∧
            (main.length < connectionIndex ∨ (getSlot main connectionIndex).isNull) then .ok false
        else inputDataFound workflow nodeName data connectionIndexes

def ensureInputData (workflow : Workflow) (executionNode : INode) (data : ITaskDataConnections ι) :
    Except Failure Bool :=
  let inputConnections :=
    ((workflow.connectionsByDestinationNode.get? executionNode.name).bind (·.get? .main)).getD []
  inputDataFound workflow executionNode.name data (List.range inputConnections.length)

end Input

section Output
variable [ExecutionItem ι]

/-- The paired item that an item without one gets, if it can be told. -/
def autoPairedItem (main outputs : List (Slot ι)) : Except Failure (Option (ℕ → IPairedItemData)) :=
  let firstLength := (getSlot main 0).items?.map List.length
  if outputs.length = 1 ∧ main.length = 1 then
    match getSlot outputs 0 with
    | .items items =>
      .ok (if firstLength = some 1 then some fun _ => ⟨0, none⟩
        else if firstLength = some items.length then some fun index => ⟨index, none⟩
        else none)
    | .null => .error .typeError
    | .undefined => .error .typeError
  else .ok (if main.length = 1 ∧ firstLength = some 1 then some fun _ => ⟨0, none⟩ else none)

/-- The first item that cannot be paired ends the loop. -/
def pairOutputs (pairedItem : Option (ℕ → IPairedItemData)) :
    List (Slot ι) → Except Failure (List (Slot ι))
  | [] => .ok []
  | .undefined :: _ => .error .typeError
  | .null :: outputs => (.null :: ·) <$> pairOutputs pairedItem outputs
  | .items items :: outputs =>
    match pairedItem with
    | some pairedItem => (.items (items.mapIdx fun index item =>
          if ExecutionItem.hasPairedItem item then item
          else ExecutionItem.setPairedItem item [pairedItem index]) :: ·) <$>
        pairOutputs (some pairedItem) outputs
    | none =>
      if items.all ExecutionItem.hasPairedItem then (.items items :: ·) <$> pairOutputs none outputs
      else .ok (.items items :: outputs)

def assignPairedItems (nodeSuccessData : NodeOutput ι) (data : ITaskDataConnections ι) :
    Except Failure (Option (List (Slot ι))) :=
  match nodeSuccessData with
  | .undefined => .ok none
  | .null => .ok none
  | .outputs [] => .ok (some [])
  | .outputs (output :: outputs) => do
    let main ← orTypeError (data.get? .main)
    let pairedItem ← autoPairedItem main (output :: outputs)
    some <$> pairOutputs pairedItem (output :: outputs)

/-- The paired items of all input items. -/
def allPairedItems (main : List (Slot ι)) : List IPairedItemData :=
  main.zipIdx.flatMap fun (inputData, inputIndex) =>
    (List.range (inputData.items?.getD []).length).map fun itemIndex =>
      ⟨itemIndex, some inputIndex⟩

/-- A node may ask for an empty item where it has no output. -/
def outputAlways (node : INode) (data : ITaskDataConnections ι)
    (nodeSuccessData : Option (List (Slot ι))) : Except Failure (Option (List (Slot ι))) :=
  let outputs := nodeSuccessData.getD []
  if (getSlot outputs 0).items?.all List.isEmpty ∧ node.alwaysOutputData then do
    let main ← orTypeError (data.get? .main)
    .ok (some (setSlot outputs 0 (.items [ExecutionItem.emptyItem (some (allPairedItems main))])))
  else .ok nodeSuccessData

/-- The output of the node, or `none` where its branch ends. -/
def executeNode (engine : Engine ι) (run : RunState ι) (executionNode : INode)
    (executionData : IExecuteData ι) (runIndex : ℕ) : Except Failure (Option (List (Slot ι))) := do
  let pinned := if executionNode.disabled = some true then none
    else engine.pinData.bind (·.get? executionNode.name)
  let nodeSuccessData := match pinned with
    | some nodePinData => .outputs [.items nodePinData]
    | none => engine.runNode run executionData runIndex
  let nodeSuccessData ← assignPairedItems nodeSuccessData executionData.data
  outputAlways executionNode executionData.data nodeSuccessData

def mergeErrors (nodeSuccessData : List (Slot ι)) : Except Failure (List (Slot ι)) :=
  nodeSuccessData.mapM fun execution =>
    match execution with
    | .items items => .ok (.items (items.map ExecutionItem.mergeError))
    | .null => .error .typeError
    | .undefined => .error .typeError

end Output

def RunState.logOutput (run : RunState ι) (executionNode : INode) (outputs : List (Slot ι)) :
    RunState ι :=
  let taskData : ITaskData ι :=
    ⟨some (OrderedMap.empty.set (executionNode.rewireOutputLogTo.getD .main) outputs)⟩
  let runs := (run.runData.get? executionNode.name).getD []
  { run with runData := run.runData.set executionNode.name (runs ++ [taskData]) }

/-- The connections of the node's outputs, each with the output it is from. -/
def outgoingConnections (workflow : Workflow) (nodeName : String) : List (ℕ × Connection) :=
  let outputs := ((workflow.connectionsBySourceNode.get? nodeName).bind (·.get? .main)).getD []
  outputs.zipIdx.flatMap fun (connections, outputIndex) =>
    (connections.getD []).map fun connectionData => (outputIndex, connectionData)

/-- The node is added if the output has items, or to a further input under the legacy order. -/
def isAdded (workflow : Workflow) (outputs : List (Slot ι)) (outgoing : ℕ × Connection) : Bool :=
  match getSlot outputs outgoing.1 with
  | .items items =>
    decide (items.length ≠ 0 ∨ (outgoing.2.index > 0 ∧ workflow.executionOrderV1 = false))
  | .null => false
  | .undefined => false

def positionOf (workflow : Workflow) (outgoing : ℕ × Connection) : ℤ × ℤ :=
  ((workflow.getNode outgoing.2.node).map (·.position)).getD (0, 0)

/-- The second of two nodes does not come before the first: what is lower comes first. -/
def keepsOrder (workflow : Workflow) (a b : ℕ × Connection) : Prop :=
  let (ax, ay) := positionOf workflow a
  let (bx, b_y) := positionOf workflow b
  ¬ (ay < b_y ∨ (ay = b_y ∧ ax < bx))

instance (workflow : Workflow) : DecidableRel (keepsOrder workflow) := fun _ _ =>
  inferInstanceAs (Decidable (¬ _))

section Iterate
variable [ExecutionItem ι]

def addNextNode (workflow : Workflow) (executionNode : INode) (outputs : List (Slot ι))
    (runIndex : ℕ) (run : RunState ι) (outgoing : ℕ × Connection) : Except Failure (RunState ι) :=
  run.addNodeToBeExecuted workflow
    ⟨outgoing.2, outgoing.1, executionNode.name, some outputs, runIndex⟩

def addNextNodes (workflow : Workflow) (executionNode : INode) (outputs : List (Slot ι))
    (runIndex : ℕ) (run : RunState ι) : Except Failure (RunState ι) :=
  let outgoing := outgoingConnections workflow executionNode.name
  let notFound := Failure.applicationError "Destination node not found"
  if workflow.executionOrderV1 then do
    let nodesToAdd ← outgoing.foldlM
      (fun nodesToAdd outgoing =>
        if workflow.nodes.has outgoing.2.node = false then .error notFound
        else if isAdded workflow outputs outgoing then .ok (nodesToAdd ++ [outgoing])
        else .ok nodesToAdd)
      []
    (nodesToAdd.insertionSort (keepsOrder workflow)).foldlM
      (addNextNode workflow executionNode outputs runIndex) run
  else
    outgoing.foldlM
      (fun run outgoing =>
        if workflow.nodes.has outgoing.2.node = false then .error notFound
        else if isAdded workflow outputs outgoing then
          addNextNode workflow executionNode outputs runIndex run outgoing
        else .ok run)
      run

/-- The waiting nodes are looked at when the stack is empty. -/
def searchWaiting (workflow : Workflow) (run : RunState ι) : Except Failure (RunState ι) :=
  if run.nodeExecutionStack.length = 0 then do
    let (item, rest) ← scan workflow run.waitingExecution
    .ok { run with nodeExecutionStack := item.toList, waitingExecution := rest }
  else .ok run

/-- What follows once the node has an output. -/
def finishNode (engine : Engine ι) (executionNode : INode) (runIndex : ℕ)
    (nodeSuccessData : List (Slot ι)) (run : RunState ι) :
    Except Failure (Iteration × RunState ι) := do
  let outputs ← mergeErrors nodeSuccessData
  let run := run.logOutput executionNode outputs
  if engine.destinationNode = some executionNode.name ∧ executionNode.name ≠ "" then
    .ok (.destination, run)
  else
    let run ← addNextNodes engine.workflow executionNode outputs runIndex run
    let run ← searchWaiting engine.workflow run
    .ok (.executed, run)

def iterate (engine : Engine ι) (s : LoopState ι) : Except Failure (Iteration × LoopState ι) :=
  match s.run.nodeExecutionStack with
  | [] => .error .typeError
  | executionData :: stack => do
    let executionNode ← orTypeError executionData.node
    let executionData := { executionData with data := updatePairedItems executionData.data }
    let run := { s.run with nodeExecutionStack := stack }
    let runIndex := ((run.runData.get? executionNode.name).getD []).length
    let currentExecutionTry := s!"{executionNode.name}:{runIndex}"
    if currentExecutionTry = s.lastExecutionTry then
      .error (.applicationError "Stopped execution because it seems to be in an endless loop")
    else if engine.runNodeFilter.any fun names => !names.contains executionNode.name then
      .ok (.filtered, { s with run })
    else
      let hasInputData ← ensureInputData engine.workflow executionNode executionData.data
      if hasInputData then
        match ← executeNode engine run executionNode executionData runIndex with
        | none => .ok (.noOutput, { s with run })
        | some nodeSuccessData => do
          let (iteration, run) ← finishNode engine executionNode runIndex nodeSuccessData run
          .ok (iteration, { s with run })
      else
        .ok (.deferred, ⟨{ run with nodeExecutionStack := stack ++ [executionData] },
          currentExecutionTry⟩)

end Iterate
end N8n
