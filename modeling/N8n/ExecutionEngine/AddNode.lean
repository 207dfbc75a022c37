import N8n.ExecutionEngine.RunState

/-!
# Adding a node to be executed

A node with one input goes on the stack at once. A node with several waits in the
table until no slot of an entry is `null`. When a node starts to wait, the legacy
execution order forces the nodes on its other inputs to run; under `v1` that stage
adds nothing, but it can still fail on the way.
-/

namespace N8n

variable {ι : Type}

/-- The arguments of a call. `nodeSuccessData` is `none` where the source has `null`. -/
structure NodeCall (ι : Type) where
  connectionData : Connection
  outputIndex : ℕ
  parentNodeName : String
  nodeSuccessData : Option (List (Slot ι))
  runIndex : ℕ

namespace NodeCall

/-- What the call writes to the input. -/
def data (call : NodeCall ι) : Slot ι :=
  match call.nodeSuccessData with
  | none => .null
  | some outputs => getSlot outputs call.outputIndex

def parentSource (call : NodeCall ι) : ISourceData :=
  ⟨call.parentNodeName, orUndefined call.outputIndex, orUndefined call.runIndex⟩

def source (call : NodeCall ι) : Option ISourceData :=
  call.nodeSuccessData.map fun _ => call.parentSource

end NodeCall

def enqueue (workflow : Workflow) (stack : List (IExecuteData ι)) (item : IExecuteData ι) :
    List (IExecuteData ι) :=
  if workflow.executionOrderV1 then item :: stack else stack ++ [item]

def executionStackNodes (stack : List (IExecuteData ι)) : Except Failure (List String) :=
  stack.mapM fun stackData =>
    match stackData.node with
    | none => .error .typeError
    | some node => .ok node.name

/-- `runData[nodeName][runIndex].data.main[index]`, or `undefined` if the path ends early. -/
def mainDataAt (runData : IRunData ι) (nodeName : String) (runIndex index : ℕ) : Slot ι :=
  match (runData.get? nodeName).bind (·[runIndex]?) with
  | none => .undefined
  | some taskData =>
    match taskData.data.bind (·.get? .main) with
    | none => .undefined
    | some main => getSlot main index

def incomingConnectionIsEmpty (runData : IRunData ι) (runIndex : ℕ) :
    List Connection → Except Failure Bool
  | [] => .ok true
  | inputConnection :: inputConnections =>
    match mainDataAt runData inputConnection.node runIndex inputConnection.index with
    | .undefined => incomingConnectionIsEmpty runData runIndex inputConnections
    | .null => .error .typeError
    | .items items =>
      if items.length ≠ 0 then .ok false
      else incomingConnectionIsEmpty runData runIndex inputConnections

namespace Workflow

/-- `connectionsByDestinationNode[nodeName].main[0] ?? []` -/
def firstInput (workflow : Workflow) (nodeName : String) : Except Failure (List Connection) := do
  match ← workflow.mainInputs nodeName with
  | none => .error .typeError
  | some inputs => .ok ((inputs[0]?).join.getD [])

/-- All nodes on the outputs of the parent node. -/
def outputNodes (workflow : Workflow) (parentNodeName : String) : Except Failure (List String) :=
  match workflow.connectionsBySourceNode.get? parentNodeName with
  | none => .error .typeError
  | some byType =>
    .ok (((byType.get? .main).getD []).flatMap fun output => (output.getD []).map (·.node))

end Workflow

/-- The last node, going up from the input, that neither ran nor is there already. -/
def findNodeToAdd (runData : IRunData ι) (inputNode : String)
    (checkOutputNodes stackNodes : List String) : Option String → List String → Option String
  | nodeToAdd, [] => nodeToAdd
  | nodeToAdd, parentNode :: parentNodes =>
    if inputNode ≠ parentNode ∧ parentNode ∈ checkOutputNodes then none
    else if parentNode ∈ stackNodes then none
    else if runData.has parentNode then nodeToAdd
    else findNodeToAdd runData inputNode checkOutputNodes stackNodes (some parentNode) parentNodes

def emptyItemData [ExecutionItem ι] (workflow : Workflow) (call : NodeCall ι)
    (nodeToAdd : String) : IExecuteData ι where
  node := workflow.getNode nodeToAdd
  data := mainOnly [.items [ExecutionItem.emptyItem none]]
  source := some (mainOnly [some call.parentSource])

/-- The node to add is a child of the parent node, which has no items for it. -/
def childWithoutData (workflow : Workflow) (call : NodeCall ι) (nodeToAdd : Option String) :
    Except Failure Bool :=
  -- A missing node is looked up by the text of `undefined`.
  if call.parentNodeName ∈ workflow.getParentNodes (nodeToAdd.getD "undefined") then
    match call.data with
    | .items items => .ok (decide (items.length = 0))
    | .undefined => .error .typeError
    | .null => .error .typeError
  else .ok false

def needsEmptyItem (workflow : Workflow) (runData : IRunData ι) (runIndex : ℕ)
    (nodeToAdd : String) : Except Failure Bool :=
  match workflow.connectionsByDestinationNode.get? nodeToAdd with
  | none => .ok true
  | some _ => workflow.firstInput nodeToAdd >>= incomingConnectionIsEmpty runData runIndex

/-- The legacy order's part of the loop over the inputs. -/
def forceNode [ExecutionItem ι] (workflow : Workflow) (runData : IRunData ι) (call : NodeCall ι)
    (checkOutputNodes stackNodes : List String) (stack : List (IExecuteData ι))
    (inputNode : String) : Except Failure (List (IExecuteData ι)) := do
  let parentNodes := (workflow.getParentNodes inputNode ++ [inputNode]).reverse
  let nodeToAdd := findNodeToAdd runData inputNode checkOutputNodes stackNodes (some inputNode)
    parentNodes
  let withoutData ← childWithoutData workflow call nodeToAdd
  match nodeToAdd with
  | none => .ok stack
  | some nodeToAdd =>
    if withoutData then .ok stack
    else
      let addEmptyItem ← needsEmptyItem workflow runData call.runIndex nodeToAdd
      .ok (if addEmptyItem then enqueue workflow stack (emptyItemData workflow call nodeToAdd)
        else stack)

/-- The node is on an output of the parent too, and its own inputs have data. -/
def parentAdds (workflow : Workflow) (runData : IRunData ι) (runIndex : ℕ)
    (checkOutputNodes : List String) (inputNode : String) : Except Failure Bool :=
  if inputNode ∈ checkOutputNodes then
    not <$> (workflow.firstInput inputNode >>= incomingConnectionIsEmpty runData runIndex)
  else .ok false

def forceInput [ExecutionItem ι] (workflow : Workflow) (runData : IRunData ι) (call : NodeCall ι)
    (checkOutputNodes : List String) (stack : List (IExecuteData ι)) (inputNode : String) :
    Except Failure (List (IExecuteData ι)) := do
  if inputNode = call.parentNodeName then .ok stack
  else
    let stackNodes ← executionStackNodes stack
    let added ← parentAdds workflow runData call.runIndex checkOutputNodes inputNode
    if added ∨ inputNode ∈ stackNodes ∨ runData.has inputNode ∨ workflow.executionOrderV1 then
      .ok stack
    else forceNode workflow runData call checkOutputNodes stackNodes stack inputNode

def forceInputs [ExecutionItem ι] (workflow : Workflow) (runData : IRunData ι) (call : NodeCall ι)
    (inputs : List (Option (List Connection))) (stack : List (IExecuteData ι)) :
    Except Failure (List (IExecuteData ι)) := do
  let checkOutputNodes ← workflow.outputNodes call.parentNodeName
  (inputs.flatMap fun input => input.getD []).foldlM
    (fun stack inputData => forceInput workflow runData call checkOutputNodes stack inputData.node)
    stack

/-- The first entry that has no data for the input, with its index and its `main`. -/
def findWaiting (entries : WaitingEntries ι) (inputIndex : ℕ) :
    List ℕ → Except Failure (Option (ℕ × WaitingEntry ι × List (Slot ι)))
  | [] => .ok none
  | index :: indexes =>
    match entries.get? index with
    | none => .error .typeError
    | some entry =>
      match entry.main? with
      | none => .error .typeError
      | some main =>
        if (getSlot main inputIndex).items?.isNone then .ok (some (index, entry, main))
        else findWaiting entries inputIndex indexes

/-- The entry to write to; a new one stands under the number of the entries. -/
def waitingEntryFor (entries : WaitingEntries ι) (inputIndex numberOfConnections : ℕ) :
    Except Failure (ℕ × WaitingEntry ι × List (Slot ι)) := do
  match ← findWaiting entries inputIndex entries.runIndexes with
  | some found => .ok found
  | none => .ok (entries.size, prepareWaitingToExecution numberOfConnections,
      List.replicate numberOfConnections .null)

def allDataFound (main : List (Slot ι)) : Bool := main.all fun slot => !slot.isNull

def executionStackItem (workflow : Workflow) (nodeName : String) (entry : WaitingEntry ι) :
    IExecuteData ι where
  node := workflow.getNode nodeName
  data := entry.data
  source := some entry.source

/-- What stays waiting keeps the `main` part only. -/
def keptEntry (entry : WaitingEntry ι) (connectionDataArray : List (Slot ι)) : WaitingEntry ι where
  data := mainOnly connectionDataArray
  source := mainOnly ((entry.source.get? .main).getD [])

namespace RunState

/-- The entry goes on the stack and leaves the table. -/
def moveToStack (workflow : Workflow) (s : RunState ι) (nodeName : String)
    (entries : WaitingEntries ι) (waitingNodeIndex : ℕ) (entry : WaitingEntry ι) : RunState ι :=
  let entries := entries.delete waitingNodeIndex
  { s with
    nodeExecutionStack := enqueue workflow s.nodeExecutionStack
      (executionStackItem workflow nodeName entry)
    waitingExecution :=
      if entries.size = 0 then s.waitingExecution.delete nodeName
      else s.waitingExecution.set nodeName entries }

def keepWaiting (s : RunState ι) (stack : List (IExecuteData ι)) (nodeName : String)
    (entries : WaitingEntries ι) (waitingNodeIndex : ℕ) (entry : WaitingEntry ι)
    (main : List (Slot ι)) : RunState ι :=
  { s with
    nodeExecutionStack := stack
    waitingExecution := s.waitingExecution.set nodeName
      (entries.set waitingNodeIndex (keptEntry entry main)) }

/-- The inputs are forced when the node was not waiting before. -/
def stackWithInputs [ExecutionItem ι] (workflow : Workflow) (s : RunState ι) (call : NodeCall ι)
    (inputs : List (Option (List Connection))) (nodeWasWaiting : Bool) :
    Except Failure (List (IExecuteData ι)) :=
  if nodeWasWaiting then .ok s.nodeExecutionStack
  else forceInputs workflow s.runData call inputs s.nodeExecutionStack

def addToWaiting [ExecutionItem ι] (workflow : Workflow) (s : RunState ι)
    (call : NodeCall ι) (inputs : List (Option (List Connection))) :
    Except Failure (RunState ι) := do
  let nodeName := call.connectionData.node
  let waiting := s.waitingExecution.get? nodeName
  let entries := waiting.getD .empty
  let (waitingNodeIndex, entry, main) ←
    waitingEntryFor entries call.connectionData.index inputs.length
  let entry := entry.set main call.connectionData.index call.data call.source
  let main := setSlot main call.connectionData.index call.data
  if allDataFound main then .ok (s.moveToStack workflow nodeName entries waitingNodeIndex entry)
  else
    let stack ← s.stackWithInputs workflow call inputs waiting.isSome
    .ok (s.keepWaiting stack nodeName entries waitingNodeIndex entry main)

def addToStack (workflow : Workflow) (s : RunState ι) (call : NodeCall ι) : RunState ι :=
  { s with
    nodeExecutionStack := enqueue workflow s.nodeExecutionStack {
      node := workflow.getNode call.connectionData.node
      data := mainOnly (List.replicate call.connectionData.index .null ++ [call.data])
      source := some (mainOnly [some call.parentSource]) } }

def addNodeToBeExecuted [ExecutionItem ι] (workflow : Workflow) (s : RunState ι)
    (call : NodeCall ι) : Except Failure (RunState ι) := do
  match ← workflow.mainInputs call.connectionData.node with
  | none => .error .typeError
  | some inputs =>
    if inputs.length > 1 then s.addToWaiting workflow call inputs
    else .ok (s.addToStack workflow call)

def entriesOf (s : RunState ι) (nodeName : String) : WaitingEntries ι :=
  (s.waitingExecution.get? nodeName).getD .empty

end RunState

/-- Every entry has data for the input. -/
def AllHaveData (entries : WaitingEntries ι) (inputIndex : ℕ) : Prop :=
  ∀ entry ∈ entries.values, (entry.inputData? inputIndex).isSome = true

instance (entries : WaitingEntries ι) (inputIndex : ℕ) :
    Decidable (AllHaveData entries inputIndex) :=
  inferInstanceAs (Decidable (∀ entry ∈ entries.values, _))

@[simp] theorem main?_keptEntry (entry : WaitingEntry ι) (main : List (Slot ι)) :
    (keptEntry entry main).main? = some main := by
  simp [WaitingEntry.main?, keptEntry]

theorem findWaiting_cases {entries : WaitingEntries ι} {inputIndex : ℕ} {indexes : List ℕ}
    {found : Option (ℕ × WaitingEntry ι × List (Slot ι))}
    (h : findWaiting entries inputIndex indexes = .ok found) :
    (∃ index entry main, found = some (index, entry, main) ∧ entries.get? index = some entry ∧
      entry.main? = some main ∧ (getSlot main inputIndex).items? = none) ∨
    (found = none ∧ ∀ index ∈ indexes, ∃ entry, entries.get? index = some entry ∧
      (entry.inputData? inputIndex).isSome = true) := by
  induction indexes with
  | nil => exact Or.inr ⟨(Except.ok.inj h).symm, by simp⟩
  | cons index indexes ih =>
    rw [findWaiting] at h
    cases hentry : entries.get? index with
    | none => simp [hentry] at h
    | some entry =>
      cases hmain : entry.main? with
      | none => simp [hentry, hmain] at h
      | some main =>
        simp only [hentry, hmain] at h
        by_cases hdata : (getSlot main inputIndex).items?.isNone = true
        · rw [if_pos hdata] at h
          exact Or.inl ⟨index, entry, main, (Except.ok.inj h).symm, hentry, hmain,
            Option.isNone_iff_eq_none.mp hdata⟩
        · rw [if_neg hdata] at h
          rcases ih h with hfound | ⟨hnone, hall⟩
          · exact Or.inl hfound
          · refine Or.inr ⟨hnone, fun index' hindex => ?_⟩
            rcases List.mem_cons.mp hindex with rfl | hindex
            · refine ⟨entry, hentry, ?_⟩
              rw [WaitingEntry.inputData?, hmain, Option.bind_some, Option.isSome_iff_ne_none]
              simpa using hdata
            · exact hall index' hindex

/-- The entry written to lacks data for the input, or every entry has it and the entry is new. -/
theorem waitingEntryFor_cases {entries : WaitingEntries ι} {inputIndex n index : ℕ}
    {entry : WaitingEntry ι} {main : List (Slot ι)}
    (h : waitingEntryFor entries inputIndex n = .ok (index, entry, main)) :
    (entries.get? index = some entry ∧ entry.main? = some main ∧
      (getSlot main inputIndex).items? = none) ∨
    (AllHaveData entries inputIndex ∧ index = entries.size ∧
      entry = prepareWaitingToExecution n ∧ main = List.replicate n .null) := by
  rw [waitingEntryFor] at h
  obtain ⟨found, hf, h⟩ := FoldM.bind_eq_ok.mp h
  rcases findWaiting_cases hf with ⟨index', entry', main', rfl, hentry, hmain, hslot⟩ | ⟨rfl, hall⟩
  · simp only [Except.ok.injEq, Prod.mk.injEq] at h
    obtain ⟨rfl, rfl, rfl⟩ := h
    exact Or.inl ⟨hentry, hmain, hslot⟩
  · simp only [Except.ok.injEq, Prod.mk.injEq] at h
    obtain ⟨rfl, rfl, rfl⟩ := h
    refine Or.inr ⟨fun entry hmem => ?_, rfl, rfl, rfl⟩
    obtain ⟨index, hindex⟩ := OrderedMap.mem_values.mp hmem
    have hkey : index ∈ entries.runIndexes := by
      rw [WaitingEntries.mem_runIndexes, ← OrderedMap.has_iff, OrderedMap.has, hindex]
      rfl
    obtain ⟨entry', hentry, hdata⟩ := hall index hkey
    rw [hindex] at hentry
    exact Option.some.inj hentry ▸ hdata

/-- One slot is written, and a node with several inputs has another one. -/
theorem allDataFound_prepared {n : ℕ} (hn : 1 < n) (index : ℕ) (slot : Slot ι) :
    allDataFound (setSlot (List.replicate n .null) index slot) = false := by
  obtain ⟨n, rfl⟩ : ∃ m, n = m + 2 := ⟨n - 2, by omega⟩
  cases index with
  | zero => simp [setSlot, List.replicate_succ, allDataFound, Slot.isNull]
  | succ index => simp [setSlot, List.replicate_succ, allDataFound, Slot.isNull]

/-- Under `v1` no input is forced. -/
theorem forceInputs_v1 [ExecutionItem ι] {workflow : Workflow}
    (hv1 : workflow.executionOrderV1 = true) {runData : IRunData ι} {call : NodeCall ι}
    {inputs : List (Option (List Connection))} {stack stack' : List (IExecuteData ι)}
    (h : forceInputs workflow runData call inputs stack = .ok stack') : stack' = stack := by
  rw [forceInputs] at h
  obtain ⟨checkOutputNodes, _, h⟩ := FoldM.bind_eq_ok.mp h
  refine FoldM.foldlM_preserves (fun stack' => stack' = stack) rfl ?_ h
  rintro s inputData s' rfl - hs
  rw [forceInput] at hs
  split at hs
  · exact (Except.ok.inj hs).symm
  · obtain ⟨stackNodes, _, hs⟩ := FoldM.bind_eq_ok.mp hs
    obtain ⟨added, _, hs⟩ := FoldM.bind_eq_ok.mp hs
    simp only [hv1, or_true, if_true] at hs
    exact (Except.ok.inj hs).symm

namespace RunState

theorem stackWithInputs_v1 [ExecutionItem ι] {workflow : Workflow}
    (hv1 : workflow.executionOrderV1 = true) {s : RunState ι} {call : NodeCall ι}
    {inputs : List (Option (List Connection))} {nodeWasWaiting : Bool}
    {stack : List (IExecuteData ι)}
    (h : s.stackWithInputs workflow call inputs nodeWasWaiting = .ok stack) :
    stack = s.nodeExecutionStack := by
  rw [stackWithInputs] at h
  split at h
  · exact (Except.ok.inj h).symm
  · exact forceInputs_v1 hv1 h

theorem entriesOf_moveToStack (workflow : Workflow) (s : RunState ι) (nodeName : String)
    (entries : WaitingEntries ι) (index : ℕ) (entry : WaitingEntry ι) :
    (s.moveToStack workflow nodeName entries index entry).entriesOf nodeName =
      entries.delete index := by
  rw [entriesOf, moveToStack]
  dsimp only
  split_ifs with hsize
  · rw [OrderedMap.get?_delete_self]
    exact OrderedMap.ext (List.length_eq_zero_iff.mp hsize).symm
  · rw [OrderedMap.get?_set_self]
    rfl

theorem entriesOf_keepWaiting (s : RunState ι) (stack : List (IExecuteData ι)) (nodeName : String)
    (entries : WaitingEntries ι) (index : ℕ) (entry : WaitingEntry ι) (main : List (Slot ι)) :
    (s.keepWaiting stack nodeName entries index entry main).entriesOf nodeName =
      entries.set index (keptEntry entry main) := by
  rw [entriesOf, keepWaiting, OrderedMap.get?_set_self]
  rfl

theorem entriesOf_moveToStack_of_ne {nodeName nodeName' : String} (hne : nodeName ≠ nodeName')
    (workflow : Workflow) (s : RunState ι) (entries : WaitingEntries ι) (index : ℕ)
    (entry : WaitingEntry ι) :
    (s.moveToStack workflow nodeName entries index entry).entriesOf nodeName' =
      s.entriesOf nodeName' := by
  rw [entriesOf, moveToStack, entriesOf]
  dsimp only
  split_ifs with hsize
  · rw [OrderedMap.get?_delete_of_ne hne]
  · rw [OrderedMap.get?_set_of_ne hne]

theorem entriesOf_keepWaiting_of_ne {nodeName nodeName' : String} (hne : nodeName ≠ nodeName')
    (s : RunState ι) (stack : List (IExecuteData ι)) (entries : WaitingEntries ι) (index : ℕ)
    (entry : WaitingEntry ι) (main : List (Slot ι)) :
    (s.keepWaiting stack nodeName entries index entry main).entriesOf nodeName' =
      s.entriesOf nodeName' := by
  rw [entriesOf, keepWaiting, OrderedMap.get?_set_of_ne hne, entriesOf]

/-- A call that returns is for a node with inputs; with one of them it only adds to the stack. -/
theorem inputs_of_addNodeToBeExecuted [ExecutionItem ι] {workflow : Workflow}
    {s s' : RunState ι} {call : NodeCall ι} (h : s.addNodeToBeExecuted workflow call = .ok s') :
    ∃ inputs, workflow.mainInputs call.connectionData.node = .ok (some inputs) ∧
      (inputs.length ≤ 1 → s' = s.addToStack workflow call) := by
  rw [addNodeToBeExecuted] at h
  obtain ⟨inputs, hinputs, h⟩ := FoldM.bind_eq_ok.mp h
  cases inputs with
  | none => cases h
  | some inputs =>
    refine ⟨inputs, hinputs, fun hle => ?_⟩
    dsimp only at h
    rw [if_neg (by omega)] at h
    exact (Except.ok.inj h).symm

/-- What a call does for a node with several inputs. -/
theorem addNodeToBeExecuted_cases [ExecutionItem ι] {workflow : Workflow}
    {s s' : RunState ι} {call : NodeCall ι} {inputs : List (Option (List Connection))}
    (hinputs : workflow.mainInputs call.connectionData.node = .ok (some inputs))
    (hlen : 1 < inputs.length) (h : s.addNodeToBeExecuted workflow call = .ok s') :
    ∃ index entry main, waitingEntryFor (s.entriesOf call.connectionData.node)
        call.connectionData.index inputs.length = .ok (index, entry, main) ∧
      let entry := entry.set main call.connectionData.index call.data call.source
      let main := setSlot main call.connectionData.index call.data
      (allDataFound main = true ∧ s' = s.moveToStack workflow call.connectionData.node
        (s.entriesOf call.connectionData.node) index entry) ∨
      (allDataFound main = false ∧ ∃ stack nodeWasWaiting,
        s.stackWithInputs workflow call inputs nodeWasWaiting = .ok stack ∧
        s' = s.keepWaiting stack call.connectionData.node
          (s.entriesOf call.connectionData.node) index entry main) := by
  rw [addNodeToBeExecuted, hinputs, FoldM.ok_bind] at h
  dsimp only at h
  rw [if_pos hlen, addToWaiting] at h
  obtain ⟨⟨index, entry, main⟩, hfor, h⟩ := FoldM.bind_eq_ok.mp h
  refine ⟨index, entry, main, hfor, ?_⟩
  dsimp only at h ⊢
  split at h
  next hall => exact Or.inl ⟨hall, (Except.ok.inj h).symm⟩
  next hall =>
    obtain ⟨stack, hstack, h⟩ := FoldM.bind_eq_ok.mp h
    exact Or.inr ⟨by simpa using hall, stack, _, hstack, (Except.ok.inj h).symm⟩

end RunState
end N8n
