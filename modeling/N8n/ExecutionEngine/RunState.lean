import N8n.Workflow.Workflow
import N8n.Workflow.RunData
import Mathlib.Data.List.Sort

/-!
# The state of an execution

A node with several inputs waits until all of them got data. Its waiting entries
stand under the index of the run they are collected for; an entry carries the data
and, beside it, where the data came from, which the engine keeps in two tables of
the same shape. A missing source and a source that is `null` are not told apart.

The engine looks at items only through the operations of `ExecutionItem`.
-/

namespace N8n

variable {ι : Type}

structure IPairedItemData where
  item : ℕ
  input : Option ℕ
  deriving DecidableEq, Repr

class ExecutionItem (ι : Type) where
  /-- `{ json: {} }`, with the paired items if there are any. -/
  emptyItem : Option (List IPairedItemData) → ι
  hasPairedItem : ι → Bool
  setPairedItem : ι → List IPairedItemData → ι
  mergeError : ι → ι

/-- An item whose `json` is a text, so that it carries no error. -/
structure TextItem where
  json : String
  pairedItem : Option (List IPairedItemData) := none
  deriving DecidableEq, Repr

instance : ExecutionItem TextItem where
  emptyItem pairedItem := ⟨"", pairedItem⟩
  hasPairedItem item := item.pairedItem.isSome
  setPairedItem item pairedItem := { item with pairedItem := some pairedItem }
  mergeError item := item

structure ISourceData where
  previousNode : String
  previousNodeOutput : Option ℕ
  previousNodeRun : Option ℕ
  deriving DecidableEq, Repr

abbrev ITaskDataConnectionsSource := OrderedMap NodeConnectionType (List (Option ISourceData))

structure IExecuteData (ι : Type) where
  node : Option INode
  data : ITaskDataConnections ι
  source : Option ITaskDataConnectionsSource

structure WaitingEntry (ι : Type) where
  data : ITaskDataConnections ι
  source : ITaskDataConnectionsSource

abbrev WaitingEntries (ι : Type) := OrderedMap ℕ (WaitingEntry ι)

abbrev WaitingTable (ι : Type) := OrderedMap String (WaitingEntries ι)

structure RunState (ι : Type) where
  nodeExecutionStack : List (IExecuteData ι)
  waitingExecution : WaitingTable ι
  runData : IRunData ι

/-- `index || undefined` -/
def orUndefined (index : ℕ) : Option ℕ := if index = 0 then none else some index

/-- The keys of an object that are indexes come in ascending order. -/
def WaitingEntries.runIndexes (entries : WaitingEntries ι) : List ℕ :=
  entries.keys.insertionSort (· ≤ ·)

def WaitingEntry.main? (entry : WaitingEntry ι) : Option (List (Slot ι)) := entry.data.get? .main

/-- The items at an input. -/
def WaitingEntry.inputData? (entry : WaitingEntry ι) (inputIndex : ℕ) : Option (List ι) :=
  entry.main?.bind fun main => (getSlot main inputIndex).items?

def mainOnly {α : Type} (main : List α) : OrderedMap NodeConnectionType (List α) :=
  OrderedMap.empty.set .main main

def WaitingEntry.set (entry : WaitingEntry ι) (main : List (Slot ι)) (index : ℕ) (data : Slot ι)
    (source : Option ISourceData) : WaitingEntry ι where
  data := entry.data.set .main (setSlot main index data)
  source := entry.source.set .main
    (writeAt ((entry.source.get? .main).getD []) index source)

/-- The entry which is made for a node with this number of connections. -/
def prepareWaitingToExecution (numberOfConnections : ℕ) : WaitingEntry ι where
  data := mainOnly (List.replicate numberOfConnections .null)
  source := mainOnly (List.replicate numberOfConnections none)

theorem WaitingEntries.mem_runIndexes {entries : WaitingEntries ι} {index : ℕ} :
    index ∈ entries.runIndexes ↔ index ∈ entries.keys := by
  simp [runIndexes]

@[simp] theorem mainOnly_get? {α : Type} (main : List α) :
    (mainOnly main).get? .main = some main := by
  simp [mainOnly]

@[simp] theorem WaitingEntry.main?_set (entry : WaitingEntry ι) (main : List (Slot ι)) (index : ℕ)
    (data : Slot ι) (source : Option ISourceData) :
    (entry.set main index data source).main? = some (setSlot main index data) := by
  simp [main?, set]

@[simp] theorem main?_prepareWaitingToExecution (numberOfConnections : ℕ) :
    (prepareWaitingToExecution numberOfConnections : WaitingEntry ι).main? =
      some (List.replicate numberOfConnections .null) := by
  simp [WaitingEntry.main?, prepareWaitingToExecution]

end N8n
