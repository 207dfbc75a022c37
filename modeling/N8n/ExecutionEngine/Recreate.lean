import N8n.ExecutionEngine.RunState
import N8n.Graph.WorkflowConversion
import N8n.Graph.SourceDataGroups

/-!
# Recreating the state of an execution

A partial execution starts from a stack and a waiting table that are made from
the graph, the start nodes and the data of an earlier run. Unlike the engine, which
fills a new entry with `null`, this code writes to the inputs that have data and
leaves the array short or with holes. So no place of a recreated entry is `null`.
-/

namespace N8n

variable {ι : Type}

/-- `addWaitingExecution` and `addWaitingExecutionSource`. -/
def addWaitingExecution (waitingExecution : WaitingTable ι) (nodeName : String) (runIndex : ℕ)
    (inputType : NodeConnectionType) (inputIndex : ℕ) (executionData : List ι)
    (sourceData : ISourceData) : WaitingTable ι :=
  let waitingExecutionObject := (waitingExecution.get? nodeName).getD .empty
  let entry := (waitingExecutionObject.get? runIndex).getD ⟨.empty, .empty⟩
  let executionDataList := (entry.data.get? inputType).getD []
  let sourceDataList := (entry.source.get? inputType).getD []
  waitingExecution.set nodeName (waitingExecutionObject.set runIndex {
    data := entry.data.set inputType (setSlot executionDataList inputIndex (.items executionData))
    source := entry.source.set inputType (writeAt sourceDataList inputIndex (some sourceData)) })

structure Recreated (ι : Type) where
  nodeExecutionStack : List (IExecuteData ι)
  waitingExecution : WaitingTable ι

/-- The data of one connection of a complete group, and where it is from. -/
def addIncomingData (runData : IRunData ι) (pinData : IPinData ι)
    (incoming : List (Slot ι) × List (Option ISourceData)) (incomingConnection : GraphConnection) :
    Except Failure (List (Slot ι) × List (Option ISourceData)) := do
  let sourceNode := incomingConnection.fromNode
  let sourceAt (runIndex : ℕ) : ISourceData :=
    ⟨sourceNode.name, some incomingConnection.outputIndex, some runIndex⟩
  match pinData.get? sourceNode.name with
  | some pinned => pure (incoming.1 ++ [.items pinned], incoming.2 ++ [some (sourceAt 0)])
  | none =>
    if runData.has sourceNode.name then
      match ← getIncomingDataFromAnyRun runData sourceNode.name incomingConnection.type
          incomingConnection.outputIndex with
      | some (data, runIndex) =>
        pure (incoming.1 ++ [.items data], incoming.2 ++ [some (sourceAt runIndex)])
      | none => pure (incoming.1, incoming.2 ++ [some (sourceAt 0)])
    else .error .assertionError

/-- One connection of a group that is not complete. -/
def addIncomplete (runData : IRunData ι) (nodeName : String) (nextRunIndex : ℕ)
    (waitingExecution : WaitingTable ι) (incomingConnection : GraphConnection) :
    Except Failure (WaitingTable ι) := do
  match ← getIncomingDataFromAnyRun runData incomingConnection.fromNode.name
      incomingConnection.type incomingConnection.outputIndex with
  | some (nodeIncomingData, _) =>
    pure (addWaitingExecution waitingExecution nodeName nextRunIndex incomingConnection.type
      incomingConnection.inputIndex nodeIncomingData
      ⟨incomingConnection.fromNode.name, some incomingConnection.outputIndex, some nextRunIndex⟩)
  | none => pure waitingExecution

def addGroup (runData : IRunData ι) (pinData : IPinData ι) (startNode : INode)
    (recreated : Recreated ι) (sourceData : SourceConnectionGroup) :
    Except Failure (Recreated ι) := do
  if sourceData.complete then
    let incoming ← sourceData.connections.foldlM (addIncomingData runData pinData) ([], [])
    pure { recreated with
      nodeExecutionStack := recreated.nodeExecutionStack ++
        [⟨some startNode, mainOnly incoming.1, some (mainOnly incoming.2)⟩] }
  else
    let nextRunIndex :=
      ((recreated.waitingExecution.get? startNode.name).map OrderedMap.size).getD 0
    let waitingExecution ← sourceData.connections.foldlM
      (addIncomplete runData startNode.name nextRunIndex) recreated.waitingExecution
    pure { recreated with waitingExecution }

def addStartNode [ExecutionItem ι] (localeCompare : String → String → ℤ) (graph : DirectedGraph)
    (runData : IRunData ι) (pinData : IPinData ι) (recreated : Recreated ι) (startNode : INode) :
    Except Failure (Recreated ι) := do
  let incomingStartNodeConnections ← graph.getDirectParentConnections startNode
  if (incomingStartNodeConnections.filter fun c => decide (c.type = .main)).length = 0 then
    pure { recreated with
      nodeExecutionStack := recreated.nodeExecutionStack ++
        [⟨some startNode, mainOnly [.items [ExecutionItem.emptyItem none]], none⟩] }
  else
    let sourceDataSets ← getSourceDataGroups localeCompare graph startNode runData pinData
    sourceDataSets.foldlM (addGroup runData pinData startNode) recreated

def recreateNodeExecutionStack [ExecutionItem ι] (localeCompare : String → String → ℤ)
    (graph : DirectedGraph) (startNodes : OrderedSet INode) (runData : IRunData ι)
    (pinData : IPinData ι) : Except Failure (Recreated ι) :=
  if graph.nodes.values.any fun node => decide (node.disabled = some true) then
    .error .assertionError
  else startNodes.elems.foldlM (addStartNode localeCompare graph runData pinData) ⟨[], .empty⟩

/-- No list of the entry has a place that is `null`. -/
def WaitingEntry.NoNull (entry : WaitingEntry ι) : Prop :=
  ∀ type slots, entry.data.get? type = some slots → ∀ slot ∈ slots, slot ≠ .null

def TableNoNull (waitingExecution : WaitingTable ι) : Prop :=
  ∀ nodeName entries, waitingExecution.get? nodeName = some entries →
    ∀ runIndex entry, entries.get? runIndex = some entry → entry.NoNull

theorem tableNoNull_empty : TableNoNull (.empty : WaitingTable ι) := by
  intro nodeName entries h
  cases h

theorem TableNoNull.entry {waitingExecution : WaitingTable ι} (h : TableNoNull waitingExecution)
    (nodeName : String) (runIndex : ℕ) :
    ((((waitingExecution.get? nodeName).getD .empty).get? runIndex).getD
      ⟨.empty, .empty⟩).NoNull := by
  cases hentries : waitingExecution.get? nodeName with
  | none => intro type slots hslots; cases hslots
  | some entries =>
    rw [Option.getD_some]
    cases hentry : entries.get? runIndex with
    | none => intro type slots hslots; cases hslots
    | some entry => exact h nodeName entries hentries runIndex entry hentry

theorem TableNoNull.addWaitingExecution {waitingExecution : WaitingTable ι}
    (h : TableNoNull waitingExecution) (nodeName : String) (runIndex : ℕ)
    (inputType : NodeConnectionType) (inputIndex : ℕ) (executionData : List ι)
    (sourceData : ISourceData) :
    TableNoNull (addWaitingExecution waitingExecution nodeName runIndex inputType inputIndex
      executionData sourceData) := by
  have hold := h.entry nodeName runIndex
  intro nodeName' entries hentries runIndex' entry hentry
  rw [N8n.addWaitingExecution, OrderedMap.get?_set] at hentries
  split_ifs at hentries with hname
  · obtain rfl := Option.some.inj hentries
    rw [OrderedMap.get?_set] at hentry
    split_ifs at hentry with hindex
    · obtain rfl := Option.some.inj hentry
      intro type slots hslots slot hslot
      rw [OrderedMap.get?_set] at hslots
      split_ifs at hslots with htype
      · obtain rfl := Option.some.inj hslots
        rcases mem_setSlot hslot with hslot | rfl | rfl
        · cases hlist : (((((waitingExecution.get? nodeName).getD .empty).get? runIndex).getD
            ⟨.empty, .empty⟩).data.get? inputType) with
          | none =>
            rw [hlist] at hslot
            cases hslot
          | some list =>
            rw [hlist] at hslot
            exact hold inputType list hlist slot hslot
        · simp
        · simp
      · exact hold type slots hslots slot hslot
    · cases hget : waitingExecution.get? nodeName with
      | none =>
        rw [hget] at hentry
        cases hentry
      | some entries =>
        rw [hget] at hentry
        exact h nodeName entries hget runIndex' entry hentry
  · exact h nodeName' entries hentries runIndex' entry hentry

theorem addGroup_noNull {runData : IRunData ι} {pinData : IPinData ι} {startNode : INode}
    {recreated recreated' : Recreated ι} {sourceData : SourceConnectionGroup}
    (h : TableNoNull recreated.waitingExecution)
    (hok : addGroup runData pinData startNode recreated sourceData = .ok recreated') :
    TableNoNull recreated'.waitingExecution := by
  rw [addGroup] at hok
  split at hok
  · obtain ⟨incoming, _, hok⟩ := FoldM.bind_eq_ok.mp hok
    exact Except.ok.inj hok ▸ h
  · obtain ⟨waitingExecution, hloop, hok⟩ := FoldM.bind_eq_ok.mp hok
    obtain rfl := Except.ok.inj hok
    refine FoldM.foldlM_preserves TableNoNull h (fun table connection table' htable _ hstep => ?_)
      hloop
    rw [addIncomplete] at hstep
    obtain ⟨found, _, hstep⟩ := FoldM.bind_eq_ok.mp hstep
    cases found with
    | none => exact Except.ok.inj hstep ▸ htable
    | some found => exact Except.ok.inj hstep ▸ htable.addWaitingExecution _ _ _ _ _ _

theorem recreateNodeExecutionStack_noNull [ExecutionItem ι] {localeCompare : String → String → ℤ}
    {graph : DirectedGraph} {startNodes : OrderedSet INode} {runData : IRunData ι}
    {pinData : IPinData ι} {recreated : Recreated ι}
    (h : recreateNodeExecutionStack localeCompare graph startNodes runData pinData =
      .ok recreated) : TableNoNull recreated.waitingExecution := by
  rw [recreateNodeExecutionStack] at h
  split at h
  · cases h
  · refine FoldM.foldlM_preserves (fun recreated : Recreated ι =>
      TableNoNull recreated.waitingExecution) tableNoNull_empty ?_ h
    intro recreated startNode recreated' htable _ hstep
    rw [addStartNode] at hstep
    obtain ⟨connections, _, hstep⟩ := FoldM.bind_eq_ok.mp hstep
    split at hstep
    · exact Except.ok.inj hstep ▸ htable
    · obtain ⟨sourceDataSets, _, hstep⟩ := FoldM.bind_eq_ok.mp hstep
      exact FoldM.foldlM_preserves (fun recreated : Recreated ι =>
        TableNoNull recreated.waitingExecution) htable
        (fun _ _ _ htable _ hgroup => addGroup_noNull htable hgroup) hstep

end N8n
