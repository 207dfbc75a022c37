import N8n.Workflow.RunData
import N8n.Foundations.AgreeingBranches
import Mathlib.Data.Int.Notation

/-!
# Item linking

From an item back to the item of an earlier node that it was made of, along the paired
items that the nodes have put on their output. Items are told apart as objects. An index
is any number that stands in the data, and a negative one is the place of nothing.
-/

namespace N8n.ItemLinking

structure SourceData where
  previousNode : String
  previousNodeOutput : Option ℤ
  previousNodeRun : Option ℤ
  deriving DecidableEq, Repr

structure PairedItemData where
  item : ℤ
  input : Option ℤ
  sourceOverwrite : Option SourceData
  deriving DecidableEq, Repr

inductive PairedEntry where
  | number (item : ℤ)
  | data (d : PairedItemData)
  deriving DecidableEq, Repr

inductive PairedItem where
  | missing
  | one (p : PairedEntry)
  | many (ps : List PairedEntry)
  deriving DecidableEq, Repr

structure TaskData (ι : Type) where
  main : List (Slot ι)
  source : List (Option SourceData)

structure Execution (ι : Type) where
  runData : OrderedMap String (List (TaskData ι))
  pinData : OrderedMap String (List ι)
  isManual : Bool
  pairedItem : ι → PairedItem

inductive PairedItemMethod where
  | pairedItem
  | itemMatching
  | item
  | getPairedItem
  deriving DecidableEq, Repr

/-- The errors that are thrown, by the functions that create them, and the one of the language. -/
inductive LinkError where
  | pairedItemNotFound (destNode : String) (cause : Option String)
  | missingOutputData (outputIndex : ℤ) (previousNode : String) (nodeCause : Option String)
  | invalidPairedItem (nodeName : String)
  | missingPairedItem (nodeCause : String) (usedMethodName : PairedItemMethod)
  | noConnection (nodeCause : String)
  | branchNotFound (node : String) (item : ℤ) (cause : Option String)
  | multipleItemsFound (destNode : String) (itemIndex : ℤ)
  | typeError (property : String)
  deriving DecidableEq, Repr

def at? {α : Type} (l : List α) : ℤ → Option α
  | .ofNat n => l[n]?
  | .negSucc _ => none

def PairedEntry.toData : PairedEntry → PairedItemData
  | .number item => ⟨item, none, none⟩
  | .data d => d

def normalizeInputs (pairedItem : PairedEntry) (sourceData : Option SourceData) :
    PairedItemData × Option SourceData :=
  (pairedItem.toData, pairedItem.toData.sourceOverwrite.or sourceData)

def normalizePairedItem : PairedItem → List PairedItemData
  | .missing => []
  | .one p => [p.toData]
  | .many ps => ps.map PairedEntry.toData

section Execution
variable {ι : Type} (env : Execution ι)

def pinDataToTask (pinData : List ι) : TaskData ι := ⟨[.items pinData], []⟩

def getPinDataIfManualExecution (nodeName : String) : Option (List ι) :=
  if env.isManual then env.pinData.get? nodeName else none

def getTaskData (source : SourceData) : Option (TaskData ι) :=
  ((env.runData.get? source.previousNode).bind fun runs => at? runs (source.previousNodeRun.getD 0)).or
    ((getPinDataIfManualExecution env source.previousNode).map pinDataToTask)

def outputs? (taskData : Option (TaskData ι)) (source : SourceData) : Option (List ι) :=
  (taskData.bind fun task => at? task.main (source.previousNodeOutput.getD 0)).bind Slot.items?

def getNodeOutput (taskData : Option (TaskData ι)) (source : SourceData) (nodeCause : Option String) :
    Except LinkError (List ι) :=
  match outputs? taskData source with
  | some outputs => .ok outputs
  | none =>
    .error (.missingOutputData (source.previousNodeOutput.getD 0) source.previousNode nodeCause)

variable [DecidableEq ι] (destinationNodeName : String) (usedMethodName : PairedItemMethod)

/-- What the results of the branches come to. An item that is read where none is is `none`. -/
def matchItems (sourceArray : List (Option SourceData)) (sourceData : SourceData)
    (pairedItem : PairedItemData) (nodeBeforeLast : Option String)
    (results : List (Except LinkError (Option ι))) : Except LinkError (Option ι) :=
  if results.all fun result => !result.isOk then
    match results with
    | .error e :: _ => .error e
    | _ => .error (.typeError "error")
  else
    match results.filterMap Except.toOption with
    | [] =>
      if sourceArray.isEmpty then .error (.noConnection destinationNodeName)
      else .error (.branchNotFound sourceData.previousNode pairedItem.item nodeBeforeLast)
    | first :: rest =>
      if rest.any fun r => decide (r ≠ first) then
        .error (.multipleItemsFound destinationNodeName pairedItem.item)
      else .ok first

/-- Without a result the fuel, one unit for each item on the way, does not suffice. -/
def getPairedItem : ℕ → Option SourceData → PairedEntry → Option String →
    Option (Except LinkError (Option ι))
  | 0, _, _, _ => none
  | fuel + 1, incomingSourceData, initialPairedItem, nodeBeforeLast =>
    let (pairedItem, sourceData) := normalizeInputs initialPairedItem incomingSourceData
    match sourceData with
    | none => some (.error (.pairedItemNotFound destinationNodeName nodeBeforeLast))
    | some sourceData =>
      let taskData := getTaskData env sourceData
      match getNodeOutput taskData sourceData nodeBeforeLast with
      | .error e => some (.error e)
      | .ok outputData =>
        let item := at? outputData pairedItem.item
        let sourceArray := (taskData.map TaskData.source).getD []
        if sourceData.previousNode = destinationNodeName then
          if (outputData.length : ℤ) ≤ pairedItem.item then
            some (.error (.invalidPairedItem sourceData.previousNode))
          else some (.ok item)
        else
          match item with
          | none => some (.error (.typeError "pairedItem"))
          | some item =>
            let nextPairedItems := normalizePairedItem (env.pairedItem item)
            if nextPairedItems.isEmpty then
              some (.error (.missingPairedItem sourceData.previousNode usedMethodName))
            else
              (nextPairedItems.mapM fun nextPairedItem =>
                let inputIndex := nextPairedItem.input.getD 0
                if (sourceArray.length : ℤ) ≤ inputIndex then some []
                else
                  let nextSource :=
                    nextPairedItem.sourceOverwrite.or (at? sourceArray inputIndex).join
                  (getPairedItem fuel nextSource (.data { nextPairedItem with input := some inputIndex })
                    (some sourceData.previousNode)).map fun result => [result]).map fun results =>
                matchItems destinationNodeName sourceArray sourceData pairedItem nodeBeforeLast
                  results.flatten

end Execution

end N8n.ItemLinking
