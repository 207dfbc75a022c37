import N8n.ExecutionEngine.StackItems

/-!
# The items of recreated waiting entries

An incomplete group of a start node makes a waiting entry, numbered after those of the groups
before, as soon as a run has items for one of its connections. The items are the first list of a
run that is not empty. Pinned data is not looked at here, and the run that the source names is the
number of the entry.
-/

namespace N8n

variable {ι : Type}

/-! ### The places of a waiting table -/

section Places
variable (waitingExecution : WaitingTable ι) (nodeName : String)

/-- What stands at `main[inputIndex]` of an entry, and its source. -/
def waitingAt (runIndex inputIndex : ℕ) : Slot ι × Option ISourceData :=
  match (waitingExecution.get? nodeName).bind (·.get? runIndex) with
  | none => (.undefined, none)
  | some entry => (getSlot ((entry.data.get? .main).getD []) inputIndex,
      ((entry.source.get? .main).getD [])[inputIndex]?.join)

/-- `Object.keys(waitingExecution[nodeName])` -/
def waitingKeys : List ℕ := ((waitingExecution.get? nodeName).map OrderedMap.keys).getD []

variable {waitingExecution nodeName}

theorem size_eq_length_waitingKeys :
    ((waitingExecution.get? nodeName).map OrderedMap.size).getD 0 =
      (waitingKeys waitingExecution nodeName).length := by
  rw [waitingKeys]
  cases waitingExecution.get? nodeName with
  | none => rfl
  | some entries => exact (List.length_map _).symm

theorem waitingAt_of_notMem {runIndex inputIndex : ℕ}
    (h : runIndex ∉ waitingKeys waitingExecution nodeName) :
    waitingAt waitingExecution nodeName runIndex inputIndex = (.undefined, none) := by
  rw [waitingKeys] at h
  rw [waitingAt]
  cases hentries : waitingExecution.get? nodeName with
  | none => rfl
  | some entries =>
    rw [hentries] at h
    rw [Option.bind_some, OrderedMap.get?_eq_none.mpr h]

theorem waitingAt_eq (waitingExecution : WaitingTable ι) (nodeName : String)
    (runIndex inputIndex : ℕ) : waitingAt waitingExecution nodeName runIndex inputIndex =
      let entry := ((waitingExecution.get? nodeName).bind (·.get? runIndex)).getD ⟨.empty, .empty⟩
      (getSlot ((entry.data.get? .main).getD []) inputIndex,
        ((entry.source.get? .main).getD [])[inputIndex]?.join) := by
  rw [waitingAt]
  cases (waitingExecution.get? nodeName).bind (·.get? runIndex) <;> rfl

theorem waitingAt_addWaitingExecution {nodeName' : String} {runIndex runIndex' inputIndex
    inputIndex' : ℕ} (executionData : List ι) (sourceData : ISourceData) :
    waitingAt (addWaitingExecution waitingExecution nodeName runIndex .main inputIndex executionData
        sourceData) nodeName' runIndex' inputIndex' =
      if nodeName = nodeName' ∧ runIndex = runIndex' ∧ inputIndex = inputIndex' then
        (.items executionData, some sourceData)
      else waitingAt waitingExecution nodeName' runIndex' inputIndex' := by
  rw [waitingAt_eq, waitingAt_eq, addWaitingExecution, OrderedMap.get?_set]
  by_cases hname : nodeName = nodeName'
  · subst hname
    rw [if_pos rfl, Option.bind_some, OrderedMap.get?_set]
    by_cases hrun : runIndex = runIndex'
    · subst hrun
      rw [if_pos rfl, Option.getD_some]
      dsimp only
      rw [OrderedMap.get?_set_self, OrderedMap.get?_set_self, Option.getD_some, Option.getD_some,
        getSlot_setSlot, join_writeAt]
      have hold : ∀ entries : Option (WaitingEntries ι), (((entries.getD .empty).get? runIndex).getD
          ⟨.empty, .empty⟩) = ((entries.bind (·.get? runIndex)).getD ⟨.empty, .empty⟩) := by
        rintro (_ | entries) <;> rfl
      rw [hold]
      split_ifs with hinput hall hall
      · rfl
      · exact absurd ⟨rfl, rfl, hinput⟩ hall
      · exact absurd hall.2.2 hinput
      · rfl
    · rw [if_neg hrun, if_neg fun h => hrun h.2.1]
      cases waitingExecution.get? nodeName <;> rfl
  · rw [if_neg hname, if_neg fun h => hname h.1]

theorem waitingKeys_addWaitingExecution {nodeName' : String} {runIndex inputIndex : ℕ}
    (inputType : NodeConnectionType) (executionData : List ι) (sourceData : ISourceData) :
    waitingKeys (addWaitingExecution waitingExecution nodeName runIndex inputType inputIndex
        executionData sourceData) nodeName' =
      if nodeName = nodeName' then
        if runIndex ∈ waitingKeys waitingExecution nodeName then
          waitingKeys waitingExecution nodeName
        else waitingKeys waitingExecution nodeName ++ [runIndex]
      else waitingKeys waitingExecution nodeName' := by
  have hkeys : ((waitingExecution.get? nodeName).getD .empty).keys =
      waitingKeys waitingExecution nodeName := by
    rw [waitingKeys]
    cases waitingExecution.get? nodeName <;> rfl
  rw [waitingKeys, addWaitingExecution, OrderedMap.get?_set, ← hkeys]
  by_cases hname : nodeName = nodeName'
  · rw [if_pos hname, if_pos hname, Option.map_some, Option.getD_some, OrderedMap.keys_set]
  · rw [if_neg hname, if_neg hname, waitingKeys]

end Places

/-! ### The entry of a group -/

section Entry
variable (runData : IRunData ι)

/-- A run has items for the connection. -/
def ranWithItems (c : GraphConnection) : Bool :=
  (List.range (getRunIndexLength runData c.fromNode.name)).any fun runIndex =>
    (runItems runData c runIndex).any fun items => !items.isEmpty

def makesEntry (group : SourceConnectionGroup) : Bool :=
  !group.complete && group.connections.any (ranWithItems runData)

/-- The number of the entry that comes after those of the groups. -/
def entryIndex (groups : List SourceConnectionGroup) : ℕ := groups.countP (makesEntry runData)

variable {runData} {c : GraphConnection}

theorem ranWithItems_iff : ranWithItems runData c = true ↔
    ∃ items runIndex, FirstItems runData c items runIndex := by
  simp only [ranWithItems, List.any_eq_true, List.mem_range, Option.any_eq_true_iff_get]
  constructor
  · rintro ⟨runIndex, -, hsome, hne⟩
    refine exists_firstItems (Option.some_get hsome).symm ?_
    rintro hnil
    rw [hnil] at hne
    cases hne
  · rintro ⟨items, runIndex, hget, hne, -⟩
    refine ⟨runIndex, ?_, by rw [hget]; rfl, by simpa [hget] using hne⟩
    by_contra hle
    rw [runItems_eq_none (Nat.not_lt.mp hle)] at hget
    cases hget

theorem FirstItems.unique {items items' : List ι} {runIndex runIndex' : ℕ}
    (h : FirstItems runData c items runIndex) (h' : FirstItems runData c items' runIndex') :
    items = items' ∧ runIndex = runIndex' := by
  obtain ⟨hget, hne, hearlier⟩ := h
  obtain ⟨hget', hne', hearlier'⟩ := h'
  rcases Nat.lt_trichotomy runIndex runIndex' with hlt | rfl | hlt
  · exact absurd (hearlier' runIndex hlt items hget) hne
  · exact ⟨Option.some.inj (hget.symm.trans hget'), rfl⟩
  · exact absurd (hearlier runIndex' hlt items' hget') hne'

theorem addIncomplete_spec {nodeName : String} {runIndex : ℕ}
    {waitingExecution waitingExecution' : WaitingTable ι}
    (h : addIncomplete runData nodeName runIndex waitingExecution c = .ok waitingExecution') :
    (∃ items firstRun, FirstItems runData c items firstRun ∧
      waitingExecution' = addWaitingExecution waitingExecution nodeName runIndex c.type c.inputIndex
        items ⟨c.fromNode.name, some c.outputIndex, some runIndex⟩) ∨
      (ranWithItems runData c = false ∧ waitingExecution' = waitingExecution) := by
  obtain ⟨found, hfound, h⟩ := FoldM.bind_eq_ok.mp h
  rcases getIncomingDataFromAnyRun_spec hfound with ⟨items, firstRun, rfl, hfirst⟩ | ⟨rfl, hnone⟩
  · exact Or.inl ⟨items, firstRun, hfirst, (Except.ok.inj h).symm⟩
  · exact Or.inr ⟨Bool.eq_false_iff.mpr (mt ranWithItems_iff.mp hnone), (Except.ok.inj h).symm⟩

/-- What the connections of a group do to a table, where the entry has the given number. -/
structure Filled (runData : IRunData ι) (nodeName : String) (runIndex : ℕ)
    (connections : List GraphConnection) (before after : WaitingTable ι) : Prop where
  frame : ∀ nodeName' runIndex' inputIndex, nodeName ≠ nodeName' ∨ runIndex ≠ runIndex' →
    waitingAt after nodeName' runIndex' inputIndex = waitingAt before nodeName' runIndex' inputIndex
  filled : ∀ c ∈ connections, ∀ items firstRun, FirstItems runData c items firstRun →
    waitingAt after nodeName runIndex c.inputIndex =
      (.items items, some ⟨c.fromNode.name, some c.outputIndex, some runIndex⟩)
  left : ∀ inputIndex,
    (∀ c ∈ connections, c.inputIndex = inputIndex → ranWithItems runData c = false) →
    waitingAt after nodeName runIndex inputIndex = waitingAt before nodeName runIndex inputIndex
  otherKeys : ∀ nodeName', nodeName ≠ nodeName' →
    waitingKeys after nodeName' = waitingKeys before nodeName'
  keys : waitingKeys after nodeName =
    if connections.any (ranWithItems runData) ∧ runIndex ∉ waitingKeys before nodeName then
      waitingKeys before nodeName ++ [runIndex]
    else waitingKeys before nodeName

theorem Filled.add {nodeName : String} {runIndex : ℕ} {connections : List GraphConnection}
    {before after : WaitingTable ι} {items : List ι} {firstRun : ℕ}
    (hfirst : FirstItems runData c items firstRun)
    (hother : ∀ d ∈ connections, d.inputIndex ≠ c.inputIndex)
    (h : Filled runData nodeName runIndex connections
      (addWaitingExecution before nodeName runIndex .main c.inputIndex items
        ⟨c.fromNode.name, some c.outputIndex, some runIndex⟩) after) :
    Filled runData nodeName runIndex (c :: connections) before after := by
  have hitems := ranWithItems_iff.mpr ⟨items, firstRun, hfirst⟩
  refine ⟨fun nodeName' runIndex' inputIndex hne => ?_, fun d hd items' firstRun' hfirst' => ?_,
    fun inputIndex hleft => ?_, fun nodeName' hne => ?_, ?_⟩
  · rw [h.frame nodeName' runIndex' inputIndex hne, waitingAt_addWaitingExecution,
      if_neg fun heq => hne.elim (· heq.1) (· heq.2.1)]
  · rcases List.mem_cons.mp hd with rfl | hd
    · rw [h.left d.inputIndex fun c hc heq => absurd heq (hother c hc),
        waitingAt_addWaitingExecution, if_pos ⟨rfl, rfl, rfl⟩, (hfirst.unique hfirst').1]
    · exact h.filled d hd items' firstRun' hfirst'
  · have hne : c.inputIndex ≠ inputIndex := by
      intro heq
      rw [hleft c List.mem_cons_self heq] at hitems
      cases hitems
    rw [h.left inputIndex fun d hd => hleft d (List.mem_cons_of_mem c hd),
      waitingAt_addWaitingExecution, if_neg fun heq => hne heq.2.2]
  · rw [h.otherKeys nodeName' hne, waitingKeys_addWaitingExecution, if_neg hne]
  · rw [h.keys, waitingKeys_addWaitingExecution, if_pos rfl, List.any_cons, hitems, Bool.true_or]
    by_cases hkey : runIndex ∈ waitingKeys before nodeName
    · rw [if_pos hkey, if_neg fun hnew => hnew.2 hkey, if_neg fun hnew => hnew.2 hkey]
    · rw [if_neg hkey, if_neg fun hnew => hnew.2 (by simp), if_pos ⟨rfl, hkey⟩]

theorem Filled.skip {nodeName : String} {runIndex : ℕ} {connections : List GraphConnection}
    {before after : WaitingTable ι} (hnone : ranWithItems runData c = false)
    (h : Filled runData nodeName runIndex connections before after) :
    Filled runData nodeName runIndex (c :: connections) before after := by
  refine ⟨h.frame, fun d hd items firstRun hfirst => ?_, fun inputIndex hleft => ?_, h.otherKeys, ?_⟩
  · rcases List.mem_cons.mp hd with rfl | hd
    · rw [ranWithItems_iff.mpr ⟨items, firstRun, hfirst⟩] at hnone
      cases hnone
    · exact h.filled d hd items firstRun hfirst
  · exact h.left inputIndex fun d hd => hleft d (List.mem_cons_of_mem c hd)
  · rw [h.keys, List.any_cons, hnone, Bool.false_or]

theorem foldlM_addIncomplete {nodeName : String} {runIndex : ℕ}
    {connections : List GraphConnection} {waitingExecution waitingExecution' : WaitingTable ι}
    (hmain : ∀ c ∈ connections, c.type = .main) (hinputs : (connections.map (·.inputIndex)).Nodup)
    (h : connections.foldlM (addIncomplete runData nodeName runIndex) waitingExecution =
      .ok waitingExecution') :
    Filled runData nodeName runIndex connections waitingExecution waitingExecution' := by
  induction connections generalizing waitingExecution with
  | nil =>
    obtain rfl := Except.ok.inj h
    exact ⟨fun _ _ _ _ => rfl, fun _ hc => absurd hc List.not_mem_nil, fun _ _ => rfl,
      fun _ _ => rfl, (if_neg fun hany => Bool.false_ne_true hany.1).symm⟩
  | cons c connections ih =>
    rw [List.foldlM_cons] at h
    obtain ⟨table, hstep, h⟩ := FoldM.bind_eq_ok.mp h
    rw [List.map_cons, List.nodup_cons] at hinputs
    have hrest := ih (fun d hd => hmain d (List.mem_cons_of_mem c hd)) hinputs.2 h
    rcases addIncomplete_spec hstep with ⟨items, firstRun, hfirst, rfl⟩ | ⟨hnone, rfl⟩
    · rw [hmain c List.mem_cons_self] at hrest
      exact hrest.add hfirst fun d hd heq => hinputs.1 (heq ▸ List.mem_map_of_mem hd)
    · exact hrest.skip hnone

end Entry

/-! ### The entries of the groups -/

section Groups
variable (runData : IRunData ι)

/-- An entry of the number has the items of the connections, and nothing else where they lead to. -/
structure EntryMade (nodeName : String) (runIndex : ℕ) (group : SourceConnectionGroup)
    (waitingExecution : WaitingTable ι) : Prop where
  filled : ∀ c ∈ group.connections, ∀ items firstRun, FirstItems runData c items firstRun →
    waitingAt waitingExecution nodeName runIndex c.inputIndex =
      (.items items, some ⟨c.fromNode.name, some c.outputIndex, some runIndex⟩)
  empty : makesEntry runData group = true →
    ∀ c ∈ group.connections, ranWithItems runData c = false →
    waitingAt waitingExecution nodeName runIndex c.inputIndex = (.undefined, none)

/-- Every group of the start node that is not complete has its entry. -/
structure GroupsMade (nodeName : String) (first : ℕ) (groups : List SourceConnectionGroup)
    (before after : WaitingTable ι) : Prop where
  frame : ∀ nodeName' runIndex inputIndex, nodeName ≠ nodeName' ∨ runIndex < first →
    waitingAt after nodeName' runIndex inputIndex = waitingAt before nodeName' runIndex inputIndex
  otherKeys : ∀ nodeName', nodeName ≠ nodeName' →
    waitingKeys after nodeName' = waitingKeys before nodeName'
  entries : ∀ earlier group later, groups = earlier ++ group :: later → group.complete = false →
    EntryMade runData nodeName (first + entryIndex runData earlier) group after

variable {runData} {pinData : IPinData ι} {startNode : INode}

theorem EntryMade.congr {nodeName : String} {runIndex : ℕ} {group : SourceConnectionGroup}
    {before after : WaitingTable ι} (h : EntryMade runData nodeName runIndex group before)
    (heq : ∀ inputIndex, waitingAt after nodeName runIndex inputIndex =
      waitingAt before nodeName runIndex inputIndex) :
    EntryMade runData nodeName runIndex group after :=
  ⟨fun c hc items firstRun hfirst => (heq _).trans (h.filled c hc items firstRun hfirst),
    fun hmakes c hc hnone => (heq _).trans (h.empty hmakes c hc hnone)⟩

/-- The connections of a group lead to main inputs, each to another one. -/
def MainInputs (group : SourceConnectionGroup) : Prop :=
  (∀ c ∈ group.connections, c.type = .main) ∧ (group.connections.map (·.inputIndex)).Nodup

theorem Filled.entryMade {nodeName : String} {runIndex : ℕ} {group : SourceConnectionGroup}
    {before after : WaitingTable ι}
    (h : Filled runData nodeName runIndex group.connections before after)
    (hinputs : (group.connections.map (·.inputIndex)).Nodup)
    (hnew : runIndex ∉ waitingKeys before nodeName) :
    EntryMade runData nodeName runIndex group after := by
  refine ⟨h.filled, fun _ c hc hnone => ?_⟩
  rw [h.left c.inputIndex fun d hd heq => ?_, waitingAt_of_notMem hnew]
  obtain rfl := List.inj_on_of_nodup_map hinputs hd hc heq
  exact hnone

theorem entryMade_of_not_makesEntry {nodeName : String} {runIndex : ℕ}
    {group : SourceConnectionGroup} {waitingExecution : WaitingTable ι}
    (hincomplete : group.complete = false) (hmakes : makesEntry runData group = false) :
    EntryMade runData nodeName runIndex group waitingExecution := by
  refine ⟨fun c hc items firstRun hfirst => ?_, fun h => ?_⟩
  · rw [makesEntry, hincomplete, Bool.not_false, Bool.true_and, List.any_eq_false] at hmakes
    exact absurd (ranWithItems_iff.mpr ⟨items, firstRun, hfirst⟩) (hmakes c hc)
  · rw [hmakes] at h
    cases h

theorem entryIndex_cons (group : SourceConnectionGroup) (groups : List SourceConnectionGroup) :
    entryIndex runData (group :: groups) = entryIndex runData [group] + entryIndex runData groups :=
  show ([group] ++ groups).countP _ = _ from List.countP_append

theorem GroupsMade.cons {nodeName : String} {first : ℕ} {group : SourceConnectionGroup}
    {groups : List SourceConnectionGroup} {before between after : WaitingTable ι}
    (hrest : GroupsMade runData nodeName (first + entryIndex runData [group]) groups between after)
    (hframe : ∀ nodeName' runIndex inputIndex, nodeName ≠ nodeName' ∨ runIndex < first →
      waitingAt between nodeName' runIndex inputIndex =
        waitingAt before nodeName' runIndex inputIndex)
    (hkeys : ∀ nodeName', nodeName ≠ nodeName' →
      waitingKeys between nodeName' = waitingKeys before nodeName')
    (hmade : group.complete = false → EntryMade runData nodeName first group after) :
    GroupsMade runData nodeName first (group :: groups) before after := by
  refine ⟨fun nodeName' runIndex inputIndex hne => ?_, fun nodeName' hne => ?_,
    fun earlier group' later heq hincomplete => ?_⟩
  · rw [hrest.frame nodeName' runIndex inputIndex (hne.imp_right (Nat.lt_add_right _)),
      hframe nodeName' runIndex inputIndex hne]
  · rw [hrest.otherKeys nodeName' hne, hkeys nodeName' hne]
  · cases earlier with
    | nil =>
      obtain ⟨rfl, -⟩ := List.cons.inj heq
      exact hmade hincomplete
    | cons group'' earlier =>
      obtain ⟨rfl, htail⟩ := List.cons.inj heq
      rw [entryIndex_cons, ← Nat.add_assoc]
      exact hrest.entries earlier group' later htail hincomplete

theorem foldlM_addGroup_made {first : ℕ} {groups : List SourceConnectionGroup}
    {recreated recreated' : Recreated ι} (hinputs : ∀ group ∈ groups, MainInputs group)
    (hkeys : waitingKeys recreated.waitingExecution startNode.name = List.range first)
    (h : groups.foldlM (addGroup runData pinData startNode) recreated = .ok recreated') :
    GroupsMade runData startNode.name first groups recreated.waitingExecution
      recreated'.waitingExecution := by
  induction groups generalizing first recreated with
  | nil =>
    obtain rfl := Except.ok.inj h
    exact ⟨fun _ _ _ _ => rfl, fun _ _ => rfl, fun earlier _ _ heq => by simp at heq⟩
  | cons group groups ih =>
    rw [List.foldlM_cons] at h
    obtain ⟨next, hstep, h⟩ := FoldM.bind_eq_ok.mp h
    have hrestInputs : ∀ group' ∈ groups, MainInputs group' := fun group' hgroup' =>
      hinputs group' (List.mem_cons_of_mem group hgroup')
    rw [addGroup] at hstep
    split_ifs at hstep with hcomplete
    · obtain ⟨incoming, -, hstep⟩ := FoldM.bind_eq_ok.mp hstep
      have hsame := congrArg Recreated.waitingExecution (Except.ok.inj hstep)
      have hnone : entryIndex runData [group] = 0 := by simp [entryIndex, makesEntry, hcomplete]
      have hrest := @ih (first + entryIndex runData [group]) next hrestInputs
        (by rw [hnone, ← hsame]; exact hkeys) h
      rw [← hsame] at hrest
      exact hrest.cons (fun _ _ _ _ => rfl) (fun _ _ => rfl)
        fun hincomplete => absurd (hcomplete.symm.trans hincomplete) (by decide)
    · obtain ⟨waitingExecution, hloop, hstep⟩ := FoldM.bind_eq_ok.mp hstep
      obtain rfl := Except.ok.inj hstep
      have hincomplete : group.complete = false := Bool.eq_false_iff.mpr hcomplete
      obtain ⟨hmain, hnodup⟩ := hinputs group List.mem_cons_self
      rw [size_eq_length_waitingKeys, hkeys, List.length_range] at hloop
      have hfilled := foldlM_addIncomplete hmain hnodup hloop
      have hnew : first ∉ waitingKeys recreated.waitingExecution startNode.name := by
        rw [hkeys, List.mem_range]
        exact Nat.lt_irrefl first
      have hnext : waitingKeys waitingExecution startNode.name =
          List.range (first + entryIndex runData [group]) := by
        have hany : makesEntry runData group = group.connections.any (ranWithItems runData) := by
          rw [makesEntry, hincomplete, Bool.not_false, Bool.true_and]
        rw [hfilled.keys, hkeys, entryIndex, List.countP_singleton, hany]
        rw [hkeys] at hnew
        split_ifs with hmakes hitems hitems
        · exact List.range_succ.symm
        · exact absurd hmakes.1 hitems
        · exact absurd ⟨hitems, hnew⟩ hmakes
        · rfl
      have hrest := @ih _ ⟨_, waitingExecution⟩ hrestInputs hnext h
      refine hrest.cons (fun nodeName' runIndex inputIndex hne => hfilled.frame _ _ _ ?_)
        hfilled.otherKeys fun _ => ?_
      · exact hne.imp_right fun hlt => (Nat.ne_of_lt hlt).symm
      · cases hmakes : makesEntry runData group with
        | false => exact entryMade_of_not_makesEntry hincomplete hmakes
        | true =>
          refine (hfilled.entryMade hnodup hnew).congr fun inputIndex => ?_
          refine hrest.frame _ _ _ (Or.inr ?_)
          simp [entryIndex, hmakes]

end Groups

/-! ### The entries of all start nodes -/

section StartNodes
variable {runData : IRunData ι} {pinData : IPinData ι} {localeCompare : String → String → ℤ}
  {graph : DirectedGraph} {startNode : INode}

theorem groups_mainInputs (hmain : ∀ c ∈ graph.getConnections, c.type = .main)
    {groups : List SourceConnectionGroup}
    (h : getSourceDataGroups localeCompare graph startNode runData pinData = .ok groups) :
    ∀ group ∈ groups, MainInputs group := by
  intro group hgroup
  constructor
  · obtain ⟨_, left, hok, hleft, hgrouping, -⟩ := IntegerInputs.getSourceDataGroups_grouping
      localeCompare graph.toInteger startNode runData pinData
    rw [getSourceDataGroups_toInteger, h] at hok
    obtain rfl := Except.ok.inj hok
    intro c hc
    have hmem : c.toInteger ∈ IntegerInputs.sourceConnections runData pinData graph.toInteger
        startNode := by
      rw [← (hgrouping.perm.trans hleft).mem_iff, ← List.flatMap_def]
      exact List.mem_flatMap.mpr
        ⟨group.toInteger, List.mem_map_of_mem hgroup, List.mem_map_of_mem hc⟩
    have hvalue := List.mem_of_mem_filter (List.mem_of_mem_filter hmem)
    simp only [DirectedGraph.toInteger, OrderedMap.values, OrderedMap.mapValues, List.map_map,
      List.mem_map] at hvalue
    obtain ⟨entry, hentry, heq⟩ := hvalue
    exact (congrArg IntegerInputs.GraphConnection.type heq).symm.trans
      (hmain entry.2 (List.mem_map_of_mem hentry))
  · obtain ⟨first, hconsecutive⟩ := getSourceDataGroups_consecutive h group hgroup
    rw [hconsecutive]
    exact List.nodup_range'

theorem nodeExists_of_addStartNode [ExecutionItem ι] {recreated recreated' : Recreated ι}
    (h : addStartNode localeCompare graph runData pinData recreated startNode = .ok recreated') :
    graph.nodeExists startNode := by
  obtain ⟨connections, hconnections, -⟩ := FoldM.bind_eq_ok.mp h
  by_contra hnot
  rw [DirectedGraph.getDirectParentConnections, if_neg hnot] at hconnections
  cases hconnections

theorem addStartNode_made [ExecutionItem ι] (hmain : ∀ c ∈ graph.getConnections, c.type = .main)
    {recreated recreated' : Recreated ι}
    (hnew : waitingKeys recreated.waitingExecution startNode.name = [])
    (h : addStartNode localeCompare graph runData pinData recreated startNode = .ok recreated') :
    ∃ groups, getSourceDataGroups localeCompare graph startNode runData pinData = .ok groups ∧
      GroupsMade runData startNode.name 0 groups recreated.waitingExecution
        recreated'.waitingExecution := by
  obtain ⟨connections, hconnections, h⟩ := FoldM.bind_eq_ok.mp h
  rw [DirectedGraph.getDirectParentConnections] at hconnections
  split_ifs at hconnections
  obtain rfl := Except.ok.inj hconnections
  split_ifs at h with hnone
  · obtain rfl := Except.ok.inj h
    refine ⟨[], ?_, fun _ _ _ _ => rfl, fun _ _ => rfl, fun earlier _ _ heq => by simp at heq⟩
    rw [List.filter_eq_self.mpr fun c hc => decide_eq_true (hmain c (List.mem_of_mem_filter hc)),
      List.length_eq_zero_iff] at hnone
    rw [getSourceDataGroups, hnone]
    rfl
  · obtain ⟨groups, hgroups, h⟩ := FoldM.bind_eq_ok.mp h
    exact ⟨groups, hgroups, foldlM_addGroup_made (groups_mainInputs hmain hgroups) hnew h⟩

theorem foldlM_addStartNode_made [ExecutionItem ι]
    (hmain : ∀ c ∈ graph.getConnections, c.type = .main) {startNodes : List INode}
    {recreated recreated' : Recreated ι} (hnames : (startNodes.map (·.name)).Nodup)
    (hnew : ∀ node ∈ startNodes, waitingKeys recreated.waitingExecution node.name = [])
    (h : startNodes.foldlM (addStartNode localeCompare graph runData pinData) recreated =
      .ok recreated') :
    (∀ nodeName ∉ startNodes.map (·.name), ∀ runIndex inputIndex,
        waitingAt recreated'.waitingExecution nodeName runIndex inputIndex =
          waitingAt recreated.waitingExecution nodeName runIndex inputIndex) ∧
      ∀ startNode ∈ startNodes, ∃ groups,
        getSourceDataGroups localeCompare graph startNode runData pinData = .ok groups ∧
        ∀ earlier group later, groups = earlier ++ group :: later → group.complete = false →
          EntryMade runData startNode.name (entryIndex runData earlier) group
            recreated'.waitingExecution := by
  induction startNodes generalizing recreated with
  | nil =>
    obtain rfl := Except.ok.inj h
    exact ⟨fun _ _ _ _ => rfl, fun _ hnode => absurd hnode List.not_mem_nil⟩
  | cons startNode startNodes ih =>
    rw [List.foldlM_cons] at h
    obtain ⟨next, hstep, h⟩ := FoldM.bind_eq_ok.mp h
    rw [List.map_cons, List.nodup_cons] at hnames
    obtain ⟨groups, hgroups, hmade⟩ :=
      addStartNode_made hmain (hnew startNode List.mem_cons_self) hstep
    obtain ⟨hframe, hrest⟩ := ih hnames.2 (fun node hnode => by
      rw [hmade.otherKeys node.name fun heq => hnames.1 (heq ▸ List.mem_map_of_mem hnode)]
      exact hnew node (List.mem_cons_of_mem startNode hnode)) h
    constructor
    · intro nodeName hname runIndex inputIndex
      rw [List.map_cons, List.mem_cons, not_or] at hname
      rw [hframe nodeName hname.2, hmade.frame _ _ _ (Or.inl (Ne.symm hname.1))]
    · intro node hnode
      rcases List.mem_cons.mp hnode with rfl | hnode
      · refine ⟨groups, hgroups, fun earlier group later heq hincomplete => ?_⟩
        have hentry := hmade.entries earlier group later heq hincomplete
        rw [Nat.zero_add] at hentry
        exact hentry.congr fun inputIndex => hframe node.name hnames.1 _ inputIndex
      · exact hrest node hnode

/-- No two start nodes have the same name, since both are nodes of the graph. -/
theorem startNodes_names_nodup [ExecutionItem ι] {startNodes : OrderedSet INode}
    {recreated recreated' : Recreated ι}
    (h : startNodes.elems.foldlM (addStartNode localeCompare graph runData pinData) recreated =
      .ok recreated') : (startNodes.elems.map (·.name)).Nodup := by
  have hexists := FoldM.forall_of_foldlM (P := graph.nodeExists)
    (fun _ _ _ hstep => nodeExists_of_addStartNode hstep) h
  refine startNodes.nodup.map_on fun node hnode node' hnode' hname => ?_
  have hget := hexists node hnode
  have hget' := hexists node' hnode'
  rw [DirectedGraph.nodeExists, ← hname, hget] at hget'
  exact Option.some.inj hget'

end StartNodes

/-! ### Fed entries -/

section WaitingFed
variable (localeCompare : String → String → ℤ) (graph : DirectedGraph) (runData : IRunData ι)
  (pinData : IPinData ι)

/-- The place has the pinned data, else the first items of a run, and names where they are from. -/
def WaitingFed (c : GraphConnection) (place : Slot ι × Option ISourceData) : Prop :=
  ∃ items runIndex,
    place = (.items items, some ⟨c.fromNode.name, some c.outputIndex, some runIndex⟩) ∧
    match pinData.get? c.fromNode.name with
    | some pinned => items = pinned
    | none => FirstItems runData c items runIndex

def EveryWaitingEntryFed (startNodes : OrderedSet INode) (waitingExecution : WaitingTable ι) :
    Prop :=
  ∀ startNode ∈ startNodes, ∀ groups,
    getSourceDataGroups localeCompare graph startNode runData pinData = .ok groups →
    ∀ earlier group later, groups = earlier ++ group :: later → group.complete = false →
      ∀ c ∈ group.connections,
        (pinData.has c.fromNode.name = true ∨
          ∃ items runIndex, FirstItems runData c items runIndex) →
        makesEntry runData group = true ∧ WaitingFed runData pinData c
          (waitingAt waitingExecution startNode.name (entryIndex runData earlier) c.inputIndex)

/-- Pinned data is what the first run with items has put out, and items that are not pinned are
from the run that has the number of the entry. -/
def WaitsRight (c : GraphConnection) (index : ℕ) : Prop :=
  match pinData.get? c.fromNode.name with
  | some pinned => ∃ runIndex, FirstItems runData c pinned runIndex
  | none => ∀ items runIndex, FirstItems runData c items runIndex → runIndex = index

variable {localeCompare graph runData pinData}

theorem waitingFed_iff {nodeName : String} {index : ℕ} {group : SourceConnectionGroup}
    {waitingExecution : WaitingTable ι} {c : GraphConnection} (hincomplete : group.complete = false)
    (hmade : EntryMade runData nodeName index group waitingExecution)
    (hc : c ∈ group.connections) :
    ((pinData.has c.fromNode.name = true ∨
        ∃ items runIndex, FirstItems runData c items runIndex) →
      makesEntry runData group = true ∧
        WaitingFed runData pinData c (waitingAt waitingExecution nodeName index c.inputIndex)) ↔
      WaitsRight runData pinData c index := by
  have hmakes : (∃ items runIndex, FirstItems runData c items runIndex) →
      makesEntry runData group = true := by
    intro hitems
    rw [makesEntry, hincomplete, Bool.not_false, Bool.true_and]
    exact List.any_eq_true.mpr ⟨c, hc, ranWithItems_iff.mpr hitems⟩
  rw [WaitsRight, OrderedMap.has]
  cases hpinned : pinData.get? c.fromNode.name with
  | some pinned =>
    constructor
    · intro h
      obtain ⟨hentry, items, runIndex, hplace, hitems⟩ := h (Or.inl rfl)
      rw [hpinned] at hitems
      cases hnone : ranWithItems runData c with
      | false =>
        rw [hmade.empty hentry c hc hnone] at hplace
        cases hplace
      | true =>
        obtain ⟨items', firstRun, hfirst⟩ := ranWithItems_iff.mp hnone
        rw [hmade.filled c hc items' firstRun hfirst] at hplace
        cases hplace
        exact ⟨firstRun, hitems ▸ hfirst⟩
    · rintro ⟨firstRun, hfirst⟩ -
      exact ⟨hmakes ⟨pinned, firstRun, hfirst⟩, pinned, index,
        hmade.filled c hc pinned firstRun hfirst, by rw [hpinned]⟩
  | none =>
    constructor
    · intro h items firstRun hfirst
      obtain ⟨-, items', runIndex, hplace, hitems⟩ := h (Or.inr ⟨items, firstRun, hfirst⟩)
      rw [hpinned] at hitems
      rw [hmade.filled c hc items firstRun hfirst] at hplace
      cases hplace
      exact (hfirst.unique hitems).2
    · rintro hright (hpin | ⟨items, firstRun, hfirst⟩)
      · cases hpin
      · refine ⟨hmakes ⟨items, firstRun, hfirst⟩, items, index,
          hmade.filled c hc items firstRun hfirst, ?_⟩
        rw [hpinned]
        exact hright items firstRun hfirst ▸ hfirst

end WaitingFed

section Example

def bRan : IRunData TextItem :=
  OrderedMap.empty.set "b" [⟨some (mainOnly [.items [⟨"ran", none⟩]])⟩]

def waitingD (runData : IRunData TextItem) (pinData : IPinData TextItem) : Recreated TextItem :=
  match recreateNodeExecutionStack (fun _ _ => 0) twoInputs startD runData pinData with
  | .ok recreated => recreated
  | .error _ => ⟨[], .empty⟩

def incompleteGroup : SourceConnectionGroup := ⟨false, twoInputs.getConnections⟩

end Example
end N8n
