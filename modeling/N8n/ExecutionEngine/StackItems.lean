import N8n.ExecutionEngine.Recreate
import N8n.Graph.DirtyFrontier
import Mathlib.Data.List.Forall2

/-!
# The items of a recreated stack

The lists of a recreated item are pushed in the order of the connections of its group,
and a connection without data pushes its source only. So a list stands under the input
it is for when the group starts with the first input and all its connections have data.
-/

namespace N8n

variable {ι : Type}

section Fed
variable (runData : IRunData ι) (pinData : IPinData ι) (c : GraphConnection)

/-- What a run of the source has put out where the connection starts. -/
def runItems (runIndex : ℕ) : Option (List ι) := do
  let runs ← runData.get? c.fromNode.name
  let task ← runs[runIndex]?
  let connections ← task.data
  let outputs ← connections.get? c.type
  (getSlot outputs c.outputIndex).items?

/-- The first list that is not empty, and its run. -/
def FirstItems (items : List ι) (runIndex : ℕ) : Prop :=
  runItems runData c runIndex = some items ∧ items ≠ [] ∧
    ∀ earlier < runIndex, ∀ items, runItems runData c earlier = some items → items = []

def FedBy (slot : Slot ι) (source : Option (Option ISourceData)) : Prop :=
  ∃ runIndex, source = some (some ⟨c.fromNode.name, some c.outputIndex, some runIndex⟩) ∧
    match pinData.get? c.fromNode.name with
    | some pinned => slot = .items pinned
    | none =>
      (∃ items, FirstItems runData c items runIndex ∧ slot = .items items) ∨
        ((¬ ∃ items runIndex, FirstItems runData c items runIndex) ∧
          (slot = .items [] ∨ slot = .null))

/-- Every input gets the data of its connection, and there are as many lists as sources. -/
def EntryFed (connections : List GraphConnection) (entry : IExecuteData ι) : Prop :=
  ∃ data source, entry.data.get? .main = some data ∧
    entry.source.bind (·.get? .main) = some source ∧ data.length = source.length ∧
    ∀ c ∈ connections, FedBy runData pinData c (getSlot data c.inputIndex) source[c.inputIndex]?

/-- The data that is pushed for a connection, and the run that is named with it. -/
def incomingFrom : Except Failure (Option (List ι) × ℕ) :=
  match pinData.get? c.fromNode.name with
  | some pinned => .ok (some pinned, 0)
  | none =>
    if runData.has c.fromNode.name then do
      match ← getIncomingDataFromAnyRun runData c.fromNode.name c.type c.outputIndex with
      | some (data, runIndex) => .ok (some data, runIndex)
      | none => .ok (none, 0)
    else .error .assertionError

end Fed

/-! ### The groups of the entries -/

section Groups
variable (localeCompare : String → String → ℤ) (graph : DirectedGraph) (runData : IRunData ι)
  (pinData : IPinData ι)

/-- The groups that the entries of a start node are made from. A node without incoming
connections has an entry that is made from none. -/
def startNodeGroups (startNode : INode) : Except Failure (List (Option SourceConnectionGroup)) := do
  let connections ← graph.getDirectParentConnections startNode
  if (connections.filter fun c => decide (c.type = .main)).length = 0 then .ok [none]
  else
    let sourceDataSets ← getSourceDataGroups localeCompare graph startNode runData pinData
    .ok ((sourceDataSets.filter (·.complete)).map some)

def entryGroups (startNodes : OrderedSet INode) :
    Except Failure (List (Option SourceConnectionGroup)) := do
  let groups ← startNodes.elems.mapM (startNodeGroups localeCompare graph runData pinData)
  .ok groups.flatten

def EveryEntryFed (startNodes : OrderedSet INode) (nodeExecutionStack : List (IExecuteData ι)) :
    Prop :=
  ∃ groups, entryGroups localeCompare graph runData pinData startNodes = .ok groups ∧
    List.Forall₂ (fun group entry => ∀ g, group = some g → EntryFed runData pinData g.connections entry)
      groups nodeExecutionStack

/-- The group starts with the first input, and all its connections have data. -/
def GroupFeeds (group : SourceConnectionGroup) : Prop :=
  (∀ c ∈ group.connections.head?, c.inputIndex = 0) ∧
    ∀ c ∈ group.connections, DirectedGraph.CarriesData runData pinData c

end Groups

/-! ### The data of one connection -/

section Connection
variable {runData : IRunData ι} {pinData : IPinData ι} {c : GraphConnection}

theorem getIncomingData_eq {runIndex : ℕ} {data : Option (List ι)}
    (h : getIncomingData runData c.fromNode.name runIndex c.type c.outputIndex = .ok data) :
    data = runItems runData c runIndex := by
  rw [getIncomingData] at h
  cases hruns : runData.get? c.fromNode.name with
  | none =>
    rw [hruns] at h
    simp [runItems, hruns, Except.ok.inj h]
  | some runs =>
    rw [hruns] at h
    dsimp only at h
    rw [DirectedGraph.arrayAt_ofNat] at h
    cases htask : runs[runIndex]? with
    | none =>
      rw [htask] at h
      simp [runItems, hruns, htask, Except.ok.inj h]
    | some task =>
      rw [htask] at h
      dsimp only [ITaskData.output] at h
      cases hdata : task.data with
      | none =>
        rw [hdata] at h
        simp [runItems, hruns, htask, hdata, Except.ok.inj h]
      | some connections =>
        rw [hdata] at h
        dsimp only at h
        cases houtputs : connections.get? c.type with
        | none =>
          rw [houtputs] at h
          cases h
        | some outputs =>
          rw [houtputs] at h
          simp [runItems, hruns, htask, hdata, houtputs, ← Except.ok.inj h]

theorem incomingDataFromRun_spec {rest runIndex : ℕ} {found : Option (List ι × ℕ)}
    (hearlier : ∀ earlier < runIndex, ∀ items, runItems runData c earlier = some items → items = [])
    (h : incomingDataFromRun runData c.fromNode.name c.type c.outputIndex rest runIndex = .ok found) :
    (∃ items index, found = some (items, index) ∧ FirstItems runData c items index) ∨
      (found = none ∧ ∀ index < runIndex + rest, ∀ items,
        runItems runData c index = some items → items = []) := by
  induction rest generalizing runIndex with
  | zero => exact Or.inr ⟨(Except.ok.inj h).symm, hearlier⟩
  | succ rest ih =>
    obtain ⟨data, hdata, h⟩ := FoldM.bind_eq_ok.mp h
    have hitems := getIncomingData_eq hdata
    have hnext : (∀ items, runItems runData c runIndex = some items → items = []) →
        incomingDataFromRun runData c.fromNode.name c.type c.outputIndex rest (runIndex + 1) =
          .ok found → _ := fun hempty hok => ih (fun earlier hlt items hget => by
      rcases Nat.lt_succ_iff_lt_or_eq.mp hlt with hlt | rfl
      · exact hearlier earlier hlt items hget
      · exact hempty items hget) hok
    rw [Nat.add_right_comm, Nat.add_assoc] at hnext
    cases data with
    | none => exact hnext (fun items hget => nomatch hitems.trans hget) h
    | some items =>
      dsimp only at h
      split_ifs at h with hlength
      · obtain rfl := Except.ok.inj h
        exact Or.inl ⟨items, runIndex, rfl, hitems.symm, List.ne_nil_of_length_pos hlength, hearlier⟩
      · refine hnext (fun items' hget => ?_) h
        obtain rfl := Option.some.inj (hitems.trans hget)
        exact List.eq_nil_of_length_eq_zero (by omega)

theorem runItems_eq_none {runIndex : ℕ}
    (h : getRunIndexLength runData c.fromNode.name ≤ runIndex) :
    runItems runData c runIndex = none := by
  rw [getRunIndexLength] at h
  cases hruns : runData.get? c.fromNode.name with
  | none => simp [runItems, hruns]
  | some runs =>
    rw [hruns] at h
    simp [runItems, hruns, List.getElem?_eq_none_iff.mpr (by simpa using h)]

theorem getIncomingDataFromAnyRun_spec {found : Option (List ι × ℕ)}
    (h : getIncomingDataFromAnyRun runData c.fromNode.name c.type c.outputIndex = .ok found) :
    (∃ items index, found = some (items, index) ∧ FirstItems runData c items index) ∨
      (found = none ∧ ¬ ∃ items index, FirstItems runData c items index) := by
  rcases incomingDataFromRun_spec (fun _ hlt => absurd hlt (Nat.not_lt_zero _)) h with
    hfirst | ⟨hfound, hempty⟩
  · exact Or.inl hfirst
  · refine Or.inr ⟨hfound, ?_⟩
    rintro ⟨items, index, hget, hne, _⟩
    by_cases hlt : index < 0 + getRunIndexLength runData c.fromNode.name
    · exact hne (hempty index hlt items hget)
    · rw [runItems_eq_none (by omega)] at hget
      cases hget

theorem incomingFrom_spec {found : Option (List ι) × ℕ}
    (h : incomingFrom runData pinData c = .ok found) :
    (∃ pinned, pinData.get? c.fromNode.name = some pinned ∧ found = (some pinned, 0)) ∨
    (pinData.get? c.fromNode.name = none ∧
      ((∃ items index, FirstItems runData c items index ∧ found = (some items, index)) ∨
        ((¬ ∃ items index, FirstItems runData c items index) ∧ found = (none, 0)))) := by
  rw [incomingFrom] at h
  cases hpinned : pinData.get? c.fromNode.name with
  | some pinned =>
    rw [hpinned] at h
    exact Or.inl ⟨pinned, rfl, (Except.ok.inj h).symm⟩
  | none =>
    rw [hpinned] at h
    dsimp only at h
    split_ifs at h
    obtain ⟨data, hdata, h⟩ := FoldM.bind_eq_ok.mp h
    refine Or.inr ⟨rfl, ?_⟩
    rcases getIncomingDataFromAnyRun_spec hdata with ⟨items, index, rfl, hfirst⟩ | ⟨rfl, hnone⟩
    · exact Or.inl ⟨items, index, hfirst, (Except.ok.inj h).symm⟩
    · exact Or.inr ⟨hnone, (Except.ok.inj h).symm⟩

theorem hasOutput_of_runItems {runIndex : ℕ} {items : List ι}
    (h : runItems runData c runIndex = some items) (hne : items ≠ []) :
    ∃ runs, runData.get? c.fromNode.name = some runs ∧
      ∃ task ∈ runs, task.HasOutput c.type c.outputIndex := by
  simp only [runItems, Option.bind_eq_bind, Option.bind_eq_some_iff] at h
  obtain ⟨runs, hruns, task, htask, connections, hdata, outputs, houtputs, hitems⟩ := h
  refine ⟨runs, hruns, task, List.mem_of_getElem? htask, connections, hdata, outputs, houtputs,
    items, ?_, hne⟩
  cases hslot : getSlot outputs c.outputIndex with
  | undefined =>
    rw [hslot] at hitems
    cases hitems
  | null =>
    rw [hslot] at hitems
    cases hitems
  | items list =>
    rw [hslot] at hitems
    rw [Option.some.inj hitems]

theorem exists_firstItems {runIndex : ℕ} {items : List ι}
    (h : runItems runData c runIndex = some items) (hne : items ≠ []) :
    ∃ items index, FirstItems runData c items index := by
  classical
  have hex : ∃ index items, runItems runData c index = some items ∧ items ≠ [] :=
    ⟨runIndex, items, h, hne⟩
  obtain ⟨items', hget, hne'⟩ := Nat.find_spec hex
  refine ⟨items', Nat.find hex, hget, hne', fun earlier hlt items hget => ?_⟩
  by_contra hitems
  exact Nat.find_min hex hlt ⟨items, hget, hitems⟩

/-- A connection carries data exactly when something is pushed for it. -/
theorem carriesData_iff {found : Option (List ι) × ℕ}
    (h : incomingFrom runData pinData c = .ok found) :
    DirectedGraph.CarriesData runData pinData c ↔ found.1.isSome = true := by
  rw [DirectedGraph.CarriesData, OrderedMap.has]
  rcases incomingFrom_spec h with ⟨pinned, hpinned, rfl⟩ | ⟨hpinned, hfound⟩
  · simp [hpinned]
  · rw [hpinned]
    rcases hfound with ⟨items, index, hfirst, rfl⟩ | ⟨hnone, rfl⟩
    · exact iff_of_true (Or.inr (hasOutput_of_runItems hfirst.1 hfirst.2.1)) rfl
    · refine iff_of_false ?_ Bool.false_ne_true
      rintro (hpin | ⟨runs, hruns, task, htask, connections, hdata, outputs, houtputs, items,
        hitems, hne⟩)
      · cases hpin
      · obtain ⟨index, hlt, rfl⟩ := List.mem_iff_getElem.mp htask
        have hrun : runItems runData c index = some items := by
          simp [runItems, hruns, hlt, hdata, houtputs, hitems, Slot.items?]
        exact hnone (exists_firstItems hrun hne)

end Connection

/-! ### The entry of a group -/

section Entry
variable {runData : IRunData ι} {pinData : IPinData ι}

theorem addIncomingData_eq (incoming : List (Slot ι) × List (Option ISourceData))
    (c : GraphConnection) :
    addIncomingData runData pinData incoming c = (do
      let found ← incomingFrom runData pinData c
      .ok (incoming.1 ++ (found.1.map Slot.items).toList,
        incoming.2 ++ [some ⟨c.fromNode.name, some c.outputIndex, some found.2⟩])) := by
  rw [addIncomingData, incomingFrom]
  cases pinData.get? c.fromNode.name with
  | some pinned => rfl
  | none =>
    dsimp only
    split_ifs
    · cases getIncomingDataFromAnyRun runData c.fromNode.name c.type c.outputIndex with
      | error e => rfl
      | ok found =>
        cases found with
        | none => simp only [FoldM.ok_bind, Option.map_none, Option.toList_none, List.append_nil]; rfl
        | some found => rfl
    · rfl

theorem foldlM_addIncomingData {connections : List GraphConnection}
    {incoming incoming' : List (Slot ι) × List (Option ISourceData)}
    (h : connections.foldlM (addIncomingData runData pinData) incoming = .ok incoming') :
    ∃ found, List.Forall₂ (fun c r => incomingFrom runData pinData c = .ok r) connections found ∧
      incoming' = (incoming.1 ++ found.filterMap fun r => r.1.map Slot.items,
        incoming.2 ++ List.zipWith (fun c r =>
          some ⟨c.fromNode.name, some c.outputIndex, some r.2⟩) connections found) := by
  induction connections generalizing incoming with
  | nil =>
    obtain rfl := Except.ok.inj h
    exact ⟨[], .nil, by simp⟩
  | cons c connections ih =>
    rw [List.foldlM_cons, addIncomingData_eq] at h
    obtain ⟨_, hstep, h⟩ := FoldM.bind_eq_ok.mp h
    obtain ⟨r, hr, hstep⟩ := FoldM.bind_eq_ok.mp hstep
    obtain rfl := Except.ok.inj hstep
    obtain ⟨found, hfound, rfl⟩ := ih h
    refine ⟨r :: found, .cons hr hfound, ?_⟩
    cases hdata : r.1 with
    | none => simp [hdata]
    | some data => simp [hdata]

def BuiltFrom (runData : IRunData ι) (pinData : IPinData ι) :
    Option SourceConnectionGroup → IExecuteData ι → Prop
  | none, entry => entry.source = none
  | some group, entry => ∃ found,
    List.Forall₂ (fun c r => incomingFrom runData pinData c = .ok r) group.connections found ∧
    entry.data = mainOnly (found.filterMap fun r => r.1.map Slot.items) ∧
    entry.source = some (mainOnly (List.zipWith (fun c r =>
      some ⟨c.fromNode.name, some c.outputIndex, some r.2⟩) group.connections found))

theorem foldlM_addGroup {startNode : INode} {groups : List SourceConnectionGroup}
    {recreated recreated' : Recreated ι}
    (h : groups.foldlM (addGroup runData pinData startNode) recreated = .ok recreated') :
    ∃ entries, recreated'.nodeExecutionStack = recreated.nodeExecutionStack ++ entries ∧
      List.Forall₂ (BuiltFrom runData pinData) ((groups.filter (·.complete)).map some) entries := by
  induction groups generalizing recreated with
  | nil =>
    obtain rfl := Except.ok.inj h
    exact ⟨[], (List.append_nil _).symm, .nil⟩
  | cons group groups ih =>
    rw [List.foldlM_cons] at h
    obtain ⟨next, hstep, h⟩ := FoldM.bind_eq_ok.mp h
    obtain ⟨entries, hentries, hbuilt⟩ := ih h
    rw [addGroup] at hstep
    split_ifs at hstep with hcomplete
    · obtain ⟨incoming, hincoming, hstep⟩ := FoldM.bind_eq_ok.mp hstep
      obtain rfl := Except.ok.inj hstep
      obtain ⟨found, hfound, rfl⟩ := foldlM_addIncomingData hincoming
      refine ⟨_ :: entries, by rw [hentries, List.append_assoc]; rfl, ?_⟩
      rw [List.filter_cons_of_pos hcomplete, List.map_cons]
      exact .cons ⟨found, hfound, rfl, rfl⟩ hbuilt
    · obtain ⟨waitingExecution, _, hstep⟩ := FoldM.bind_eq_ok.mp hstep
      obtain rfl := Except.ok.inj hstep
      rw [List.filter_cons_of_neg hcomplete]
      exact ⟨entries, hentries, hbuilt⟩

theorem addStartNode_built [ExecutionItem ι] {localeCompare : String → String → ℤ}
    {graph : DirectedGraph} {startNode : INode} {recreated recreated' : Recreated ι}
    (h : addStartNode localeCompare graph runData pinData recreated startNode = .ok recreated') :
    ∃ groups entries, startNodeGroups localeCompare graph runData pinData startNode = .ok groups ∧
      recreated'.nodeExecutionStack = recreated.nodeExecutionStack ++ entries ∧
      List.Forall₂ (BuiltFrom runData pinData) groups entries := by
  rw [addStartNode] at h
  obtain ⟨connections, hconnections, h⟩ := FoldM.bind_eq_ok.mp h
  rw [startNodeGroups, hconnections, FoldM.ok_bind]
  split_ifs at h ⊢
  · obtain rfl := Except.ok.inj h
    exact ⟨_, _, rfl, rfl, .cons rfl .nil⟩
  · obtain ⟨sourceDataSets, hsets, h⟩ := FoldM.bind_eq_ok.mp h
    rw [hsets, FoldM.ok_bind]
    obtain ⟨entries, hentries, hbuilt⟩ := foldlM_addGroup h
    exact ⟨_, entries, rfl, hentries, hbuilt⟩

theorem stack_built [ExecutionItem ι] {localeCompare : String → String → ℤ} {graph : DirectedGraph}
    {startNodes : List INode} {recreated recreated' : Recreated ι}
    (h : startNodes.foldlM (addStartNode localeCompare graph runData pinData) recreated =
      .ok recreated') :
    ∃ groups entries,
      startNodes.mapM (startNodeGroups localeCompare graph runData pinData) = .ok groups ∧
      recreated'.nodeExecutionStack = recreated.nodeExecutionStack ++ entries ∧
      List.Forall₂ (BuiltFrom runData pinData) groups.flatten entries := by
  induction startNodes generalizing recreated with
  | nil =>
    obtain rfl := Except.ok.inj h
    exact ⟨[], [], rfl, (List.append_nil _).symm, .nil⟩
  | cons startNode startNodes ih =>
    rw [List.foldlM_cons] at h
    obtain ⟨next, hstep, h⟩ := FoldM.bind_eq_ok.mp h
    obtain ⟨groups, entries, hgroups, hentries, hbuilt⟩ := addStartNode_built hstep
    obtain ⟨groups', entries', hgroups', hentries', hbuilt'⟩ := ih h
    refine ⟨groups :: groups', entries ++ entries', ?_, ?_, ?_⟩
    · rw [List.mapM_cons, hgroups, FoldM.ok_bind, hgroups']
      rfl
    · rw [hentries', hentries, List.append_assoc]
    · rw [List.flatten_cons]
      exact List.rel_append hbuilt hbuilt'

end Entry

/-! ### The inputs of a group -/

/-- The connections of a group lead to inputs that follow one another. -/
def Consecutive (first : ℕ) (connections : List GraphConnection) : Prop :=
  connections.map (·.inputIndex) = List.range' first connections.length

theorem Consecutive.getElem {first : ℕ} {connections : List GraphConnection}
    (h : Consecutive first connections) {index : ℕ} (hlt : index < connections.length) :
    connections[index].inputIndex = first + index := by
  have hget := congrArg (·[index]?) h
  simpa [hlt] using hget

theorem consecutive_of_from {first : ℕ} {connections : List GraphConnection}
    (h : ConsecutiveGroups.From IntegerInputs.GraphConnection.inputIndex first
      (connections.map (·.toInteger))) : Consecutive first connections := by
  induction connections generalizing first with
  | nil => rfl
  | cons c connections ih =>
    obtain ⟨hc, hrest⟩ := h
    have hfirst : c.inputIndex = first := Int.natCast_inj.mp hc
    have hnext := @ih (first + 1) hrest
    rw [Consecutive] at hnext ⊢
    rw [List.map_cons, List.length_cons, List.range'_succ, hnext, hfirst]

theorem getSourceDataGroups_consecutive {localeCompare : String → String → ℤ}
    {graph : DirectedGraph} {node : INode} {runData : IRunData ι} {pinData : IPinData ι}
    {groups : List SourceConnectionGroup}
    (h : getSourceDataGroups localeCompare graph node runData pinData = .ok groups) :
    ∀ group ∈ groups, ∃ first, Consecutive first group.connections := by
  obtain ⟨_, _, hok, -, hgrouping, -⟩ := IntegerInputs.getSourceDataGroups_grouping localeCompare
    graph.toInteger node runData pinData
  rw [getSourceDataGroups_toInteger, h] at hok
  obtain rfl := Except.ok.inj hok
  intro group hgroup
  obtain ⟨hne, first, hfrom⟩ := hgrouping.consecutive (group.connections.map (·.toInteger))
    (List.mem_map.mpr ⟨group.toInteger, List.mem_map_of_mem hgroup, rfl⟩)
  obtain ⟨c, connections, hcons⟩ := List.exists_cons_of_ne_nil (mt List.map_eq_nil_iff.mpr hne)
  refine ⟨c.inputIndex, consecutive_of_from ?_⟩
  rw [hcons] at hfrom ⊢
  obtain ⟨rfl, hrest⟩ := hfrom
  exact ⟨rfl, hrest⟩

theorem entryGroups_consecutive {localeCompare : String → String → ℤ} {graph : DirectedGraph}
    {startNodes : OrderedSet INode} {runData : IRunData ι} {pinData : IPinData ι}
    {groups : List (Option SourceConnectionGroup)}
    (h : entryGroups localeCompare graph runData pinData startNodes = .ok groups) :
    ∀ group, some group ∈ groups → ∃ first, Consecutive first group.connections := by
  have hnode : ∀ startNode groups,
      startNodeGroups localeCompare graph runData pinData startNode = .ok groups →
      ∀ group, some group ∈ groups → ∃ first, Consecutive first group.connections := by
    intro startNode groups h group hgroup
    obtain ⟨connections, _, h⟩ := FoldM.bind_eq_ok.mp h
    split_ifs at h
    · obtain rfl := Except.ok.inj h
      simp at hgroup
    · obtain ⟨sourceDataSets, hsets, h⟩ := FoldM.bind_eq_ok.mp h
      obtain rfl := Except.ok.inj h
      obtain ⟨group', hgroup', heq⟩ := List.mem_map.mp hgroup
      obtain rfl := Option.some.inj heq
      exact getSourceDataGroups_consecutive hsets group' (List.mem_filter.mp hgroup').1
  obtain ⟨lists, hlists, h⟩ := FoldM.bind_eq_ok.mp h
  obtain rfl := Except.ok.inj h
  intro group hgroup
  obtain ⟨list, hlist, hgroup⟩ := List.mem_flatten.mp hgroup
  obtain ⟨startNode, hstart⟩ : ∃ startNode,
      startNodeGroups localeCompare graph runData pinData startNode = .ok list :=
    FoldM.exists_of_mem_mapM hlists hlist
  exact hnode startNode list hstart group hgroup

/-! ### Fed entries -/

section EntryFed
variable {runData : IRunData ι} {pinData : IPinData ι} {group : SourceConnectionGroup}
  {entry : IExecuteData ι} {first : ℕ}

/-- Every connection carries data when every one of its finds is there. -/
theorem all_carriesData_iff {connections : List GraphConnection}
    {found : List (Option (List ι) × ℕ)} (hlength : connections.length = found.length)
    (hincoming : ∀ index (hlt : index < connections.length) (hlt' : index < found.length),
      incomingFrom runData pinData connections[index] = .ok found[index]) :
    (∀ c ∈ connections, DirectedGraph.CarriesData runData pinData c) ↔
      ∀ r ∈ found, r.1.isSome = true := by
  constructor
  · intro h r hr
    obtain ⟨index, hlt, rfl⟩ := List.mem_iff_getElem.mp hr
    exact (carriesData_iff (hincoming index (hlength ▸ hlt) hlt)).mp (h _ (List.getElem_mem _))
  · intro h c hc
    obtain ⟨index, hlt, rfl⟩ := List.mem_iff_getElem.mp hc
    exact (carriesData_iff (hincoming index hlt (hlength ▸ hlt))).mpr (h _ (List.getElem_mem _))

/-- Where nothing is missing, the slots are the finds in their order. -/
theorem getSlot_filterMap {found : List (Option (List ι) × ℕ)}
    (hsome : ∀ r ∈ found, r.1.isSome = true) {index : ℕ} (hlt : index < found.length)
    {items : List ι} (hitems : found[index].1 = some items) :
    getSlot (found.filterMap fun r => r.1.map Slot.items) index = .items items := by
  have hmap : (found.filterMap fun r => r.1.map Slot.items) =
      found.map fun r => (r.1.map Slot.items).getD .undefined := by
    rw [← List.filterMap_eq_map]
    refine List.filterMap_congr fun r hr => ?_
    obtain ⟨items, hitems⟩ := Option.isSome_iff_exists.mp (hsome r hr)
    simp [hitems]
  rw [hmap, getSlot, List.getElem?_map, List.getElem?_eq_getElem hlt, Option.map_some, hitems]
  rfl

theorem entryFed_iff (hbuilt : BuiltFrom runData pinData (some group) entry)
    (hinputs : Consecutive first group.connections) :
    EntryFed runData pinData group.connections entry ↔ GroupFeeds runData pinData group := by
  obtain ⟨found, hfound, hdata, hsource⟩ := hbuilt
  have hlength := hfound.length_eq
  have hincoming : ∀ index (hlt : index < group.connections.length) (hlt' : index < found.length),
      incomingFrom runData pinData group.connections[index] = .ok found[index] :=
    fun index hlt hlt' => hfound.get hlt hlt'
  have hcarries := all_carriesData_iff hlength hincoming
  have hsources : (List.zipWith (fun (c : GraphConnection) (r : Option (List ι) × ℕ) =>
      (some ⟨c.fromNode.name, some c.outputIndex, some r.2⟩ : Option ISourceData))
      group.connections found).length = group.connections.length := by
    rw [List.length_zipWith, hlength, Nat.min_self]
  constructor
  · rintro ⟨data, source, hmain, hsourceMain, heq, hfed⟩
    rw [hdata, mainOnly, OrderedMap.get?_set_self] at hmain
    rw [hsource, Option.bind_some, mainOnly, OrderedMap.get?_set_self] at hsourceMain
    obtain rfl := Option.some.inj hmain
    obtain rfl := Option.some.inj hsourceMain
    rw [hsources, hlength, List.filterMap_length_eq_length] at heq
    refine ⟨fun c hc => ?_, hcarries.mpr fun r hr => by simpa using heq r hr⟩
    -- the source of the last connection stands under its input only if the first input is 0
    have hpos : 0 < group.connections.length :=
      List.length_pos_of_mem (List.mem_of_mem_head? hc)
    have hlast : group.connections.length - 1 < group.connections.length := by omega
    obtain ⟨runIndex, hget, _⟩ := hfed _ (List.getElem_mem hlast)
    have hlt := (List.getElem?_eq_some_iff.mp hget).1
    rw [hsources, hinputs.getElem hlast] at hlt
    have hzero := hinputs.getElem hpos
    rw [List.head?_eq_getElem?, List.getElem?_eq_getElem hpos] at hc
    rw [← Option.some.inj hc, hzero]
    omega
  · rintro ⟨hfirst, hall⟩
    have hsome := hcarries.mp hall
    refine ⟨_, _, by rw [hdata, mainOnly, OrderedMap.get?_set_self],
      by rw [hsource, Option.bind_some, mainOnly, OrderedMap.get?_set_self], ?_, fun c hc => ?_⟩
    · rw [hsources, hlength, List.filterMap_length_eq_length]
      exact fun r hr => by simpa using hsome r hr
    · obtain ⟨index, hlt, rfl⟩ := List.mem_iff_getElem.mp hc
      have hpos : 0 < group.connections.length := by omega
      have hzero : first = 0 := by
        have hhead := hfirst group.connections[0]
          (by rw [List.head?_eq_getElem?, List.getElem?_eq_getElem hpos]; rfl)
        rw [hinputs.getElem hpos] at hhead
        omega
      have hlt' : index < found.length := hlength ▸ hlt
      rw [hinputs.getElem hlt, hzero, Nat.zero_add]
      have hfound' := hincoming index hlt hlt'
      obtain ⟨items, hitems⟩ := Option.isSome_iff_exists.mp (hsome _ (List.getElem_mem hlt'))
      have hslot := getSlot_filterMap hsome hlt' hitems
      refine ⟨found[index].2, ?_, ?_⟩
      · rw [List.getElem?_zipWith, List.getElem?_eq_getElem hlt, List.getElem?_eq_getElem hlt']
      · rw [hslot]
        rcases incomingFrom_spec hfound' with ⟨pinned, hpinned, heq⟩ |
          ⟨hpinned, ⟨items', index', hfirstItems, heq⟩ | ⟨_, heq⟩⟩ <;> rw [hpinned]
        · rw [heq] at hitems
          rw [Option.some.inj hitems]
        · rw [heq] at hitems ⊢
          obtain rfl := Option.some.inj hitems
          exact Or.inl ⟨_, hfirstItems, rfl⟩
        · rw [heq] at hitems
          cases hitems

end EntryFed

section Example

/-- `a` and `b` are connected to the two inputs of `D`. -/
def twoInputs : DirectedGraph :=
  .ofParts [⟨"a", "set", (0, 0), none, false, none⟩, ⟨"b", "set", (0, 0), none, false, none⟩,
      ⟨"D", "set", (0, 0), none, false, none⟩]
    [⟨⟨"a", "set", (0, 0), none, false, none⟩, ⟨"D", "set", (0, 0), none, false, none⟩, .main, 0, 0⟩,
      ⟨⟨"b", "set", (0, 0), none, false, none⟩, ⟨"D", "set", (0, 0), none, false, none⟩, .main, 0, 1⟩]

def startD : OrderedSet INode := OrderedSet.empty.insert ⟨"D", "set", (0, 0), none, false, none⟩

def pinnedB : IPinData TextItem := OrderedMap.empty.set "b" [⟨"b", none⟩]

/-- `a` ran and put out an empty list. -/
def aRanEmpty : IRunData TextItem := OrderedMap.empty.set "a" [⟨some (mainOnly [.items []])⟩]

def aRan : IRunData TextItem := OrderedMap.empty.set "a" [⟨some (mainOnly [.items [⟨"a", none⟩]])⟩]

def pairGroup : SourceConnectionGroup := ⟨true, twoInputs.getConnections⟩

def recreatedD (runData : IRunData TextItem) : Recreated TextItem :=
  match recreateNodeExecutionStack (fun _ _ => 0) twoInputs startD runData pinnedB with
  | .ok recreated => recreated
  | .error _ => ⟨[], .empty⟩

end Example
end N8n
