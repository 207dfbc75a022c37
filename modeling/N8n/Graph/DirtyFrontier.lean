import N8n.Graph.FindStartNodes

/-!
# The start nodes are the dirty frontier

A node stops the search when it is dirty, when it is the destination, or when it
is a loop node that is not done. The result consists of the stopping nodes that
data reaches through nodes that do not stop.
-/

namespace N8n

variable {ι : Type}

def ITaskData.HasOutput (task : ITaskData ι) (connectionType : NodeConnectionType)
    (outputIndex : ℕ) : Prop :=
  ∃ connections, task.data = some connections ∧
    ∃ outputs, connections.get? connectionType = some outputs ∧
      ∃ items, getSlot outputs outputIndex = .items items ∧ items ≠ []

theorem ITaskData.output_ok {task : ITaskData ι} {connectionType : NodeConnectionType}
    (h : ∀ connections, task.data = some connections →
      (connections.get? connectionType).isSome) (outputIndex : ℕ) :
    ∃ data, task.output connectionType outputIndex = .ok data ∧
      (task.HasOutput connectionType outputIndex ↔ ∃ items, data = some items ∧ items ≠ []) := by
  unfold output HasOutput
  cases hdata : task.data with
  | none => exact ⟨none, rfl, by simp⟩
  | some connections =>
    obtain ⟨outputs, houtputs⟩ := Option.isSome_iff_exists.mp (h connections hdata)
    simp only [houtputs]
    refine ⟨_, rfl, ?_⟩
    cases hout : getSlot outputs outputIndex <;> simp [houtputs, hout, Slot.items?]

namespace DirectedGraph

/-- The types of the connections that leave a node; the outputs of a loop node are main
outputs, connected or not. -/
def Leaves (graph : DirectedGraph) (node : INode) (connectionType : NodeConnectionType) : Prop :=
  (∃ c ∈ graph.getConnections, c.fromNode = node ∧ c.type = connectionType) ∨
    (node.type = "n8n-nodes-base.splitInBatches" ∧ connectionType = .main)

def HasEntry (runData : IRunData ι) (nodeName : String)
    (connectionType : NodeConnectionType) : Prop :=
  ∀ runs, runData.get? nodeName = some runs → ∀ task ∈ runs,
    ∀ connections, task.data = some connections → (connections.get? connectionType).isSome

def HasEntries (graph : DirectedGraph) (runData : IRunData ι) : Prop :=
  ∀ node, graph.nodeExists node → ∀ connectionType, graph.Leaves node connectionType →
    HasEntry runData node.name connectionType

def CarriesData (runData : IRunData ι) (pinData : IPinData ι) (c : GraphConnection) : Prop :=
  pinData.has c.fromNode.name = true ∨
    ∃ runs, runData.get? c.fromNode.name = some runs ∧
      ∃ task ∈ runs, task.HasOutput c.type c.outputIndex

def DataEdge (graph : DirectedGraph) (runData : IRunData ι) (pinData : IPinData ι)
    (a b : INode) : Prop :=
  ∃ c ∈ graph.getConnections, c.fromNode = a ∧ c.toNode = b ∧ CarriesData runData pinData c

def Dirty (runData : IRunData ι) (pinData : IPinData ι) (node : INode) : Prop :=
  pinData.get? node.name = none ∧ runData.get? node.name = none

def LoopNotDone (runData : IRunData ι) (node : INode) : Prop :=
  node.type = "n8n-nodes-base.splitInBatches" ∧
    ¬ ∃ runs, runData.get? node.name = some runs ∧
      ∃ task, runs.getLast? = some task ∧ task.HasOutput .main 0

def Stopping (destination : INode) (runData : IRunData ι) (pinData : IPinData ι)
    (node : INode) : Prop :=
  Dirty runData pinData node ∨ node = destination ∨ LoopNotDone runData node

/-- A stopping node that data reaches from `a` through nodes outside `seen` that do not stop. -/
def FrontierFrom (graph : DirectedGraph) (destination : INode) (runData : IRunData ι)
    (pinData : IPinData ι) (seen : INode → Prop) (a v : INode) : Prop :=
  Stopping destination runData pinData v ∧
    Relation.ReflTransGen (fun x y => ¬ seen x ∧ ¬ Stopping destination runData pinData x ∧
      graph.DataEdge runData pinData x y) a v

/-! ### Reading run data -/

theorem has_eq_false {κ α : Type} [DecidableEq κ] {m : OrderedMap κ α} {k : κ} :
    m.has k = false ↔ m.get? k = none := by
  rw [OrderedMap.has]
  cases m.get? k <;> simp

theorem isDirty_iff {node : INode} {runData : IRunData ι} {pinData : IPinData ι} :
    isDirty node runData pinData = true ↔ Dirty runData pinData node := by
  unfold isDirty Dirty
  rw [← has_eq_false, ← has_eq_false]
  cases pinData.has node.name <;> cases runData.has node.name <;> simp

theorem arrayAt_ofNat {α : Type} (l : List α) (index : ℕ) : arrayAt l index = l[index]? := by
  simp [arrayAt]

theorem arrayAt_last {α : Type} (l : List α) : arrayAt l (-1) = l.getLast? := by
  rw [List.getLast?_eq_getElem?]
  unfold arrayAt
  by_cases h : l.length = 0
  · simp [List.length_eq_zero_iff.mp h]
  · have hlen : ¬ ((-1 : ℤ) + l.length < 0) := by omega
    have hidx : ((-1 : ℤ) + l.length).toNat = l.length - 1 := by omega
    rw [if_pos (by omega), if_neg hlen, hidx]

theorem mem_of_arrayAt {α : Type} {l : List α} {index : ℤ} {a : α}
    (h : arrayAt l index = some a) : a ∈ l := by
  unfold arrayAt at h
  split_ifs at h
  · exact List.mem_of_getElem? h
  · exact List.mem_of_getElem? h

theorem getIncomingData_ok {runData : IRunData ι} {nodeName : String}
    {connectionType : NodeConnectionType} (h : HasEntry runData nodeName connectionType)
    (runIndex : ℤ) (outputIndex : ℕ) :
    ∃ data, getIncomingData runData nodeName runIndex connectionType outputIndex = .ok data ∧
      ((∃ items, data = some items ∧ items ≠ []) ↔
        ∃ runs, runData.get? nodeName = some runs ∧ ∃ task, arrayAt runs runIndex = some task ∧
          task.HasOutput connectionType outputIndex) := by
  unfold getIncomingData
  cases hruns : runData.get? nodeName with
  | none => exact ⟨none, rfl, by simp⟩
  | some runs =>
    cases hat : arrayAt runs runIndex with
    | none => exact ⟨none, by simp [hat], by simp [hat]⟩
    | some task =>
      obtain ⟨data, hok, hiff⟩ := task.output_ok (h runs hruns task (mem_of_arrayAt hat))
        outputIndex
      exact ⟨data, by simp [hat, hok], by simp [← hiff, hat]⟩

theorem loopNotDone_ok {graph : DirectedGraph} {runData : IRunData ι} {node : INode}
    (he : graph.HasEntries runData) (hn : graph.nodeExists node) :
    ∃ b, loopNotDone runData node = .ok b ∧ (b = true ↔ LoopNotDone runData node) := by
  unfold loopNotDone LoopNotDone
  split_ifs with htype
  · obtain ⟨data, hok, hiff⟩ := getIncomingData_ok
      (he node hn .main (Or.inr ⟨htype, rfl⟩)) (-1) 0
    simp only [arrayAt_last] at hiff
    rw [hok, FoldM.ok_bind]
    refine ⟨_, rfl, ?_⟩
    rw [← hiff]
    cases data <;> simp [htype]
  · exact ⟨false, rfl, by simp [htype]⟩

theorem incomingDataFromRun_ok {runData : IRunData ι} {nodeName : String}
    {connectionType : NodeConnectionType} {runs : List (ITaskData ι)}
    (hruns : runData.get? nodeName = some runs)
    (h : HasEntry runData nodeName connectionType) (outputIndex : ℕ) {rest runIndex : ℕ} (hlen : runIndex + rest = runs.length) :
    ∃ found, incomingDataFromRun runData nodeName connectionType outputIndex rest runIndex =
        .ok found ∧
      (found.all (fun f => f.1.isEmpty) = false ↔
        ∃ task ∈ runs.drop runIndex, task.HasOutput connectionType outputIndex) := by
  induction rest generalizing runIndex with
  | zero =>
    have hnil : runs.drop runIndex = [] := List.drop_eq_nil_iff.mpr (by omega)
    exact ⟨none, rfl, by simp [hnil]⟩
  | succ rest ih =>
    have hlt : runIndex < runs.length := by omega
    obtain ⟨data, hok, hiff⟩ := getIncomingData_ok h runIndex outputIndex
    have hlen' : runIndex + 1 + rest = runs.length := by omega
    obtain ⟨found, hfound, hrest⟩ := ih hlen'
    simp only [hruns, arrayAt_ofNat, Option.some.injEq, exists_eq_left',
      List.getElem?_eq_getElem hlt] at hiff
    simp only [incomingDataFromRun, hok, FoldM.ok_bind, List.drop_eq_getElem_cons hlt,
      List.mem_cons, exists_eq_or_imp, ← hrest, ← hiff]
    cases data with
    | none => exact ⟨found, hfound, by simp⟩
    | some items =>
      cases items with
      | nil => exact ⟨found, hfound, by simp⟩
      | cons item items => exact ⟨_, rfl, by simp⟩

theorem getIncomingDataFromAnyRun_ok {graph : DirectedGraph} {runData : IRunData ι}
    (hv : graph.Valid) (he : graph.HasEntries runData) (pinData : IPinData ι)
    {c : GraphConnection} (hc : c ∈ graph.getConnections) :
    ∃ found, getIncomingDataFromAnyRun runData c.fromNode.name c.type c.outputIndex = .ok found ∧
      ((found.all (fun f => f.1.isEmpty) && !pinData.has c.fromNode.name) = false ↔
        CarriesData runData pinData c) := by
  have hentry := he c.fromNode (hv.ends c hc).1 c.type (Or.inl ⟨c, hc, rfl, rfl⟩)
  unfold getIncomingDataFromAnyRun getRunIndexLength CarriesData
  cases hruns : runData.get? c.fromNode.name with
  | none => exact ⟨none, rfl, by simp⟩
  | some runs =>
    obtain ⟨found, hok, hiff⟩ := incomingDataFromRun_ok hruns hentry c.outputIndex
      (Nat.zero_add runs.length)
    refine ⟨found, hok, ?_⟩
    rw [Bool.and_eq_false_iff, hiff]
    simp [or_comm]

/-! ### The recursion -/

theorem frontierFrom_of_stopping {graph : DirectedGraph} {destination : INode}
    {runData : IRunData ι} {pinData : IPinData ι} {seen : INode → Prop} {a v : INode}
    (h : Stopping destination runData pinData a) :
    graph.FrontierFrom destination runData pinData seen a v ↔ v = a := by
  constructor
  · rintro ⟨_, hpath⟩
    rcases Relation.ReflTransGen.cases_head hpath with he | ⟨_, ⟨_, hns, _⟩, _⟩
    · exact he.symm
    · exact absurd h hns
  · rintro rfl
    exact ⟨h, .refl⟩

theorem not_frontierFrom_of_seen {graph : DirectedGraph} {destination : INode}
    {runData : IRunData ι} {pinData : IPinData ι} {seen : INode → Prop} {a v : INode}
    (h : ¬ Stopping destination runData pinData a) (hs : seen a) :
    ¬ graph.FrontierFrom destination runData pinData seen a v := by
  rintro ⟨hv, hpath⟩
  rcases Relation.ReflTransGen.cases_head hpath with rfl | ⟨_, ⟨hns, _⟩, _⟩
  · exact h hv
  · exact hns hs

/-- Below a node that does not stop, the frontier is reached without coming back to it. -/
theorem frontierFrom_step {graph : DirectedGraph} {destination : INode} {runData : IRunData ι}
    {pinData : IPinData ι} {seen : INode → Prop} {a v : INode}
    (h : ¬ Stopping destination runData pinData a) (hs : ¬ seen a) :
    graph.FrontierFrom destination runData pinData seen a v ↔
      ∃ w, graph.DataEdge runData pinData a w ∧
        graph.FrontierFrom destination runData pinData (fun x => seen x ∨ x = a) w v := by
  have hmono : ∀ {x : INode}, Relation.ReflTransGen (fun x y => ¬ (seen x ∨ x = a) ∧
      ¬ Stopping destination runData pinData x ∧ graph.DataEdge runData pinData x y) x v →
      Relation.ReflTransGen (fun x y => ¬ seen x ∧
        ¬ Stopping destination runData pinData x ∧ graph.DataEdge runData pinData x y) x v :=
    fun hp => Relation.ReflTransGen.mono
      (fun x y ⟨hns, hrest⟩ => ⟨fun hx => hns (Or.inl hx), hrest⟩) _ _ hp
  constructor
  · rintro ⟨hv, hpath⟩
    rcases Paths.leave_for_good hpath a with hpath | ⟨w, ⟨_, _, hedge⟩, hpath⟩
    · rcases Relation.ReflTransGen.cases_head hpath with rfl | ⟨_, ⟨hne, _⟩, _⟩
      · exact absurd hv h
      · exact absurd rfl hne
    · refine ⟨w, hedge, hv, Relation.ReflTransGen.mono ?_ _ _ hpath⟩
      rintro x y ⟨hne, hns, hrest⟩
      exact ⟨not_or.mpr ⟨hns, hne⟩, hrest⟩
  · rintro ⟨w, hedge, hv, hpath⟩
    exact ⟨hv, .head ⟨hs, h, hedge⟩ (hmono hpath)⟩

def unseen (graph : DirectedGraph) (seen : OrderedSet INode) : Finset INode :=
  graph.nodes.values.toFinset.filter (fun n => n ∉ seen)

theorem unseen_insert_lt {graph : DirectedGraph} {seen : OrderedSet INode} {node : INode}
    (hn : graph.nodeExists node) (hs : node ∉ seen) :
    (graph.unseen (seen.insert node)).card < (graph.unseen seen).card := by
  apply Finset.card_lt_card
  rw [Finset.ssubset_iff_of_subset]
  · refine ⟨node, ?_, by simp [unseen]⟩
    simp only [unseen, Finset.mem_filter, List.mem_toFinset]
    exact ⟨OrderedMap.mem_values.mpr ⟨_, hn⟩, hs⟩
  · intro n hn'
    simp only [unseen, Finset.mem_filter, OrderedSet.mem_insert, not_or] at hn' ⊢
    exact ⟨hn'.1, hn'.2.1⟩

theorem findStartNodesRecursive_spec {graph : DirectedGraph} (hv : graph.Valid)
    (destination : INode) {runData : IRunData ι} (he : graph.HasEntries runData)
    (pinData : IPinData ι) {fuel : ℕ} {current : INode} (startNodes seen : OrderedSet INode)
    (hc : graph.nodeExists current) (hfuel : (graph.unseen seen).card < fuel) :
    ∃ found, graph.findStartNodesRecursive destination runData pinData fuel current startNodes
        seen = .ok found ∧
      ∀ v, v ∈ found ↔ v ∈ startNodes ∨
        graph.FrontierFrom destination runData pinData (· ∈ seen) current v := by
  induction fuel generalizing current startNodes seen with
  | zero => omega
  | succ fuel ih =>
    have hstop : Stopping destination runData pinData current →
        ∀ v, v ∈ startNodes.insert current ↔ v ∈ startNodes ∨
          graph.FrontierFrom destination runData pinData (· ∈ seen) current v := by
      intro h v
      rw [OrderedSet.mem_insert, frontierFrom_of_stopping h]
    obtain ⟨notDone, hok, hnotDone⟩ := loopNotDone_ok he hc
    simp only [findStartNodesRecursive, hok, FoldM.ok_bind]
    by_cases hdirty : isDirty current runData pinData = true
    · rw [if_pos hdirty]
      exact ⟨_, rfl, hstop (Or.inl (isDirty_iff.mp hdirty))⟩
    rw [if_neg hdirty]
    by_cases hdest : current = destination
    · rw [if_pos hdest]
      exact ⟨_, rfl, hstop (Or.inr (Or.inl hdest))⟩
    rw [if_neg hdest]
    by_cases hloop : notDone = true
    · rw [if_pos hloop]
      exact ⟨_, rfl, hstop (Or.inr (Or.inr (hnotDone.mp hloop)))⟩
    rw [if_neg hloop]
    have hns : ¬ Stopping destination runData pinData current := by
      rintro (h | h | h)
      · exact hdirty (isDirty_iff.mpr h)
      · exact hdest h
      · exact hloop (hnotDone.mpr h)
    by_cases hseen : current ∈ seen
    · rw [if_pos hseen]
      refine ⟨startNodes, rfl, fun v => ?_⟩
      have := @not_frontierFrom_of_seen _ graph _ _ _ _ _ v hns hseen
      tauto
    rw [if_neg hseen, getDirectChildConnections_eq hc, FoldM.ok_bind]
    have hstep : ∀ (s : OrderedSet INode) (c : GraphConnection), True →
        c ∈ graph.getConnections.filter (fun c => decide (c.fromNode = current)) →
        ∃ s', (do
            let nodeRunData ← getIncomingDataFromAnyRun runData c.fromNode.name c.type
              c.outputIndex
            if (nodeRunData.all fun found => found.1.isEmpty) && !pinData.has c.fromNode.name then
              pure s
            else
              graph.findStartNodesRecursive destination runData pinData fuel c.toNode s
                (seen.insert current)) = Except.ok s' ∧ True ∧
          ∀ v, v ∈ s' ↔ v ∈ s ∨ (CarriesData runData pinData c ∧
            graph.FrontierFrom destination runData pinData (· ∈ seen.insert current) c.toNode
              v) := by
      intro s c _ hcm
      obtain ⟨hcg, _⟩ := List.mem_filter.mp hcm
      obtain ⟨found, hfound, hcarries⟩ := getIncomingDataFromAnyRun_ok hv he pinData hcg
      rw [hfound, FoldM.ok_bind]
      by_cases hdata : CarriesData runData pinData c
      · rw [hcarries.mpr hdata]
        have hlt := unseen_insert_lt hc hseen
        obtain ⟨s', hs', hmem⟩ := ih s (seen.insert current) (hv.ends c hcg).2
          (Nat.lt_of_lt_of_le hlt (by omega))
        exact ⟨s', hs', trivial, fun v => by rw [hmem v]; simp [hdata]⟩
      · rw [Bool.eq_true_of_not_eq_false (fun hf => hdata (hcarries.mp hf))]
        exact ⟨s, rfl, trivial, fun v => by simp [hdata]⟩
    obtain ⟨found, hfound, _, hmem⟩ := FoldM.foldlM_collects (fun _ => True)
      (fun (s : OrderedSet INode) v => v ∈ s)
      (fun c v => CarriesData runData pinData c ∧
        graph.FrontierFrom destination runData pinData (· ∈ seen.insert current) c.toNode v)
      trivial hstep
    refine ⟨found, hfound, fun v => ?_⟩
    rw [hmem, frontierFrom_step hns hseen]
    simp only [OrderedSet.mem_insert]
    apply or_congr_right
    constructor
    · rintro ⟨c, hcm, hdata, hrest⟩
      obtain ⟨hcg, hfrom⟩ := List.mem_filter.mp hcm
      exact ⟨c.toNode, ⟨c, hcg, of_decide_eq_true hfrom, rfl, hdata⟩, hrest⟩
    · rintro ⟨_, ⟨c, hcg, hfrom, rfl, hdata⟩, hrest⟩
      exact ⟨c, List.mem_filter.mpr ⟨hcg, decide_eq_true hfrom⟩, hdata, hrest⟩

/-! ### The frontier -/

def Frontier (graph : DirectedGraph) (trigger destination : INode) (runData : IRunData ι)
    (pinData : IPinData ι) (v : INode) : Prop :=
  Stopping destination runData pinData v ∧
    Relation.ReflTransGen (fun x y => ¬ Stopping destination runData pinData x ∧
      graph.DataEdge runData pinData x y) trigger v

theorem frontier_meets_path {graph : DirectedGraph} {destination : INode} {runData : IRunData ι}
    {pinData : IPinData ι} {trigger : INode} {path : List INode}
    (hpath : (trigger :: path).IsChain (graph.DataEdge runData pinData))
    (hlast : (trigger :: path).getLast? = some destination) :
    ∃ v ∈ trigger :: path, graph.Frontier trigger destination runData pinData v := by
  induction path generalizing trigger with
  | nil =>
    obtain rfl : trigger = destination := by simpa using hlast
    exact ⟨trigger, List.mem_cons_self, Or.inr (Or.inl rfl), .refl⟩
  | cons b path ih =>
    by_cases hs : Stopping destination runData pinData trigger
    · exact ⟨trigger, List.mem_cons_self, hs, .refl⟩
    · obtain ⟨hedge, hrest⟩ := List.isChain_cons_cons.mp hpath
      rw [List.getLast?_cons_cons] at hlast
      obtain ⟨v, hv, hstop, hreach⟩ := ih hrest hlast
      exact ⟨v, List.mem_cons_of_mem trigger hv, hstop, .head ⟨hs, hedge⟩ hreach⟩

def manualTrigger : INode := { name := "trigger", type := "n8n-nodes-base.manualTrigger" }

def setNode : INode := { name := "node", type := "n8n-nodes-base.set" }

def triggerAndNode : DirectedGraph :=
  ofParts [manualTrigger, setNode] [⟨manualTrigger, setNode, .main, 0, 0⟩]

def triggerRun : IRunData ℕ :=
  ⟨[("trigger", [⟨some ⟨[(.main, [.items [0]])], by decide⟩⟩])], by decide⟩

end DirectedGraph
end N8n
