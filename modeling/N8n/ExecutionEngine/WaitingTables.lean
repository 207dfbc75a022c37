import N8n.ExecutionEngine.AddNode
import N8n.ExecutionEngine.WaitingScan
import N8n.Foundations.RelatedMaps
import N8n.Foundations.Runs

/-!
# The two waiting tables

The engine keeps the data of the waiting nodes and where it came from in two
tables, which it edits one after the other. Here they are kept apart as well, and
what throws on the way leaves them as they are at that moment. A place without a
source and one that is `null` are told apart. The entries have `main` only, as all
entries that the engine makes.
-/

namespace N8n

variable {ι : Type}

inductive SourceSlot where
  | undefined
  | null
  | source (data : ISourceData)
  deriving DecidableEq, Repr

def SourceSlot.toOption : SourceSlot → Option ISourceData
  | .undefined => none
  | .null => none
  | .source data => some data

structure WaitingMain (α : Type) where
  main : List α
  deriving DecidableEq

abbrev WaitingMains (α : Type) := OrderedMap String (OrderedMap ℕ (WaitingMain α))

@[ext]
structure WaitingTables (ι : Type) where
  waitingExecution : WaitingMains (Slot ι)
  waitingExecutionSource : WaitingMains SourceSlot

/-- What is thrown, and the tables at that moment. -/
abbrev Thrown (ι : Type) := Failure × WaitingTables ι

/-- `list[index] = a`; writing past the end leaves holes. -/
def assign {α : Type} (hole : α) (list : List α) (index : ℕ) (a : α) : List α :=
  (list ++ List.replicate (index + 1 - list.length) hole).set index a

namespace WaitingMains
variable {α : Type}

def entryAt? (table : WaitingMains α) (nodeName : String) (runIndex : ℕ) : Option (WaitingMain α) :=
  (table.get? nodeName).bind (·.get? runIndex)

/-- `table[nodeName][runIndex] = { main }` -/
def setMain (table : WaitingMains α) (nodeName : String) (runIndex : ℕ) (main : List α) :
    WaitingMains α :=
  table.set nodeName (((table.get? nodeName).getD .empty).set runIndex ⟨main⟩)

end WaitingMains

def NodeCall.sourceSlot (call : NodeCall ι) : SourceSlot :=
  match call.nodeSuccessData with
  | none => .null
  | some _ => .source call.parentSource

namespace WaitingTables

def empty : WaitingTables ι := ⟨.empty, .empty⟩

def createIfMissing (t : WaitingTables ι) (nodeName : String) : WaitingTables ι :=
  if t.waitingExecution.has nodeName then t
  else ⟨t.waitingExecution.set nodeName .empty, t.waitingExecutionSource.set nodeName .empty⟩

def prepareWaitingToExecution (t : WaitingTables ι) (nodeName : String) (numberOfConnections : ℕ)
    (runIndex : ℕ) : WaitingTables ι where
  waitingExecution :=
    t.waitingExecution.setMain nodeName runIndex (List.replicate numberOfConnections .null)
  waitingExecutionSource :=
    t.waitingExecutionSource.setMain nodeName runIndex (List.replicate numberOfConnections .null)

/-- The first index whose entry lacks data for the input. -/
def findIndex (entries : OrderedMap ℕ (WaitingMain (Slot ι))) (inputIndex : ℕ) : Option ℕ :=
  (entries.keys.insertionSort (· ≤ ·)).find? fun index =>
    (entries.get? index).any fun entry => (getSlot entry.main inputIndex).items?.isNone

/-- An entry that lacks data for the input is there or gets made. -/
def createEntry (t : WaitingTables ι) (nodeName : String) (numberOfConnections inputIndex : ℕ) :
    ℕ × WaitingTables ι :=
  let t := t.createIfMissing nodeName
  let entries := (t.waitingExecution.get? nodeName).getD .empty
  match findIndex entries inputIndex with
  | some waitingNodeIndex => (waitingNodeIndex, t)
  | none => (entries.size,
      t.prepareWaitingToExecution nodeName numberOfConnections entries.size)

/-- Add the new data. -/
def fill (t : WaitingTables ι) (nodeName : String) (waitingNodeIndex inputIndex : ℕ)
    (data : Slot ι) (source : SourceSlot) : Except (Thrown ι) (WaitingTables ι) :=
  match t.waitingExecution.entryAt? nodeName waitingNodeIndex with
  | none => .error (.typeError, t)
  | some entry =>
    let t := { t with
      waitingExecution := t.waitingExecution.setMain nodeName waitingNodeIndex
        (assign .undefined entry.main inputIndex data) }
    match t.waitingExecutionSource.entryAt? nodeName waitingNodeIndex with
    | none => .error (.typeError, t)
    | some entry => .ok { t with
        waitingExecutionSource := t.waitingExecutionSource.setMain nodeName waitingNodeIndex
          (assign .undefined entry.main inputIndex source) }

/-- Remove the entry, and the node when it has no more entries. -/
def removeEntry (t : WaitingTables ι) (nodeName : String) (runIndex : ℕ) :
    Except (Thrown ι) (WaitingTables ι) :=
  match t.waitingExecution.get? nodeName with
  | none => .error (.typeError, t)
  | some entries =>
    let entries := entries.delete runIndex
    let t := { t with waitingExecution := t.waitingExecution.set nodeName entries }
    match t.waitingExecutionSource.get? nodeName with
    | none => .error (.typeError, t)
    | some sources =>
      let t := { t with
        waitingExecutionSource := t.waitingExecutionSource.set nodeName (sources.delete runIndex) }
      if entries.size = 0 then
        .ok ⟨t.waitingExecution.delete nodeName, t.waitingExecutionSource.delete nodeName⟩
      else .ok t

def mainAt (t : WaitingTables ι) (nodeName : String) (runIndex : ℕ) : List (Slot ι) :=
  ((t.waitingExecution.entryAt? nodeName runIndex).map (·.main)).getD []

def sourceMainAt (t : WaitingTables ι) (nodeName : String) (runIndex : ℕ) : List SourceSlot :=
  ((t.waitingExecutionSource.entryAt? nodeName runIndex).map (·.main)).getD []

/-- The entry is prepared anew; its data is replaced and its source put back. -/
def recreate (t : WaitingTables ι) (nodeName : String) (numberOfConnections waitingNodeIndex : ℕ)
    (connectionDataArray : List (Slot ι)) : WaitingTables ι :=
  let waitingExecutionSource := t.sourceMainAt nodeName waitingNodeIndex
  let t := t.prepareWaitingToExecution nodeName numberOfConnections waitingNodeIndex
  { waitingExecution := t.waitingExecution.setMain nodeName waitingNodeIndex connectionDataArray
    waitingExecutionSource :=
      t.waitingExecutionSource.setMain nodeName waitingNodeIndex waitingExecutionSource }

def stackItem (workflow : Workflow) (nodeName : String) (data : List (Slot ι))
    (source : List SourceSlot) : IExecuteData ι where
  node := workflow.getNode nodeName
  data := mainOnly data
  source := some (mainOnly (source.map SourceSlot.toOption))

section Call
variable [ExecutionItem ι]

/-- What is done once the data is written: the entry goes on the stack or stays. -/
def settle (workflow : Workflow) (runData : IRunData ι) (stack : List (IExecuteData ι))
    (t : WaitingTables ι) (call : NodeCall ι) (inputs : List (Option (List Connection)))
    (nodeWasWaiting : Bool) (waitingNodeIndex : ℕ) :
    Except (Thrown ι) (List (IExecuteData ι) × WaitingTables ι) := do
  let nodeName := call.connectionData.node
  let main := t.mainAt nodeName waitingNodeIndex
  if allDataFound main then
    let item := stackItem workflow nodeName main (t.sourceMainAt nodeName waitingNodeIndex)
    let t ← t.removeEntry nodeName waitingNodeIndex
    .ok (enqueue workflow stack item, t)
  else
    let stack ← if nodeWasWaiting then .ok stack
      else (forceInputs workflow runData call inputs stack).mapError (·, t)
    let connectionDataArray := assign .undefined main call.connectionData.index call.data
    .ok (stack, t.recreate nodeName inputs.length waitingNodeIndex connectionDataArray)

def addToWaiting (workflow : Workflow) (runData : IRunData ι) (stack : List (IExecuteData ι))
    (t : WaitingTables ι) (call : NodeCall ι) (inputs : List (Option (List Connection))) :
    Except (Thrown ι) (List (IExecuteData ι) × WaitingTables ι) := do
  let nodeName := call.connectionData.node
  let (waitingNodeIndex, created) :=
    t.createEntry nodeName inputs.length call.connectionData.index
  let filled ← created.fill nodeName waitingNodeIndex call.connectionData.index call.data
    call.sourceSlot
  filled.settle workflow runData stack call inputs (t.waitingExecution.has nodeName)
    waitingNodeIndex

def addNodeToBeExecuted (workflow : Workflow) (runData : IRunData ι)
    (stack : List (IExecuteData ι)) (t : WaitingTables ι) (call : NodeCall ι) :
    Except (Thrown ι) (List (IExecuteData ι) × WaitingTables ι) := do
  match ← (workflow.mainInputs call.connectionData.node).mapError (·, t) with
  | none => .error (.typeError, t)
  | some inputs =>
    if inputs.length > 1 then t.addToWaiting workflow runData stack call inputs
    else .ok (enqueue workflow stack {
      node := workflow.getNode call.connectionData.node
      data := mainOnly (List.replicate call.connectionData.index .null ++ [call.data])
      source := some (mainOnly [some call.parentSource]) }, t)

end Call

section Scan

/-- The first index when they are sorted as texts. -/
def firstRunIndex (entries : OrderedMap ℕ (WaitingMain (Slot ι))) : Option ℕ :=
  (entries.keys.insertionSort fun a b => Nat.toDigits 10 a ≤ Nat.toDigits 10 b).head?

/-- The item for the stack, if any input has items. -/
def itemToExecute (workflow : Workflow) (t : WaitingTables ι) (checkNode : INode)
    (nodeName : String) (runIndex : ℕ) (main : List (Slot ι)) :
    Except Failure (Option (IExecuteData ι)) :=
  if hasItems (taskDataMain main) then do
    let inputsLength ← workflow.inputsLength checkNode
    let _ ← orTypeError (t.waitingExecutionSource.get? nodeName)
    .ok (some (stackItem workflow nodeName (padInputs (taskDataMain main) inputsLength)
      (t.sourceMainAt nodeName runIndex)))
  else .ok none

/-- The entry of a node that may run, and the item for the stack. -/
def entryToTake (workflow : Workflow) (t : WaitingTables ι) (checkNode : INode)
    (nodeName : String) (requiredInputs : Option RequiredInputs) :
    Except Failure (Option (ℕ × Option (IExecuteData ι))) := do
  let entries ← orTypeError (t.waitingExecution.get? nodeName)
  let runIndex ← orTypeError (firstRunIndex entries)
  let entry ← orTypeError (entries.get? runIndex)
  if requiredInputMissing (inputsWithData entry.main) requiredInputs then .ok none
  else
    let item ← t.itemToExecute workflow checkNode nodeName runIndex entry.main
    .ok (some (runIndex, item))

def checkWaiting (workflow : Workflow) (t : WaitingTables ι) (nodeName : String) :
    Except Failure (Option (ℕ × Option (IExecuteData ι))) :=
  match workflow.getNode nodeName with
  | none => .ok none
  | some checkNode => do
    let requiredInputs ← workflow.requiredInputs checkNode
    if ← allRequired workflow checkNode requiredInputs then .ok none
    else if (workflow.getParentNodes nodeName).any fun parentNode =>
        decide (parentNode ∈ objectKeys t.waitingExecution) then .ok none
    else t.entryToTake workflow checkNode nodeName requiredInputs

/-- The loop over the waiting nodes, up to the first that is not passed over. -/
def findTaken (workflow : Workflow) (t : WaitingTables ι) :
    List String → Except Failure (Option (String × ℕ × Option (IExecuteData ι)))
  | [] => .ok none
  | nodeName :: waitingNodes => do
    match ← t.checkWaiting workflow nodeName with
    | some taken => .ok (some (nodeName, taken))
    | none => findTaken workflow t waitingNodes

def scanWaiting (workflow : Workflow) : ℕ → WaitingTables ι →
    Except (Thrown ι) (Option (IExecuteData ι) × WaitingTables ι)
  | 0, t => .error (.outOfFuel, t)
  | fuel + 1, t => do
    match ← (t.findTaken workflow (objectKeys t.waitingExecution)).mapError (·, t) with
    | none => .ok (none, t)
    | some (nodeName, runIndex, item) =>
      let t ← t.removeEntry nodeName runIndex
      match item with
      | some item => .ok (some item, t)
      | none => scanWaiting workflow fuel t

/-- Every round takes an entry off the table. -/
def scan (workflow : Workflow) (t : WaitingTables ι) :
    Except (Thrown ι) (Option (IExecuteData ι) × WaitingTables ι) :=
  scanWaiting workflow (t.waitingExecution.total OrderedMap.size + 1) t

end Scan
end WaitingTables
end N8n
