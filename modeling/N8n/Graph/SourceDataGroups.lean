import N8n.Graph.FindStartNodes
import N8n.Graph.IntegerInputs
import Mathlib.Data.List.Sort

/-!
# Groups of incoming connections

The connections that lead to a node are put into groups with one connection for
each input, those with data first. The comparison of names is a parameter, since
it depends on the locale. The loop over the connections carries the input index
it will look for next, which the source keeps less one.
-/

namespace N8n

variable {ι : Type}

/-- `sortByInputIndexThenByName` gives no positive number. -/
def sortByInputIndexThenByName (localeCompare : String → String → ℤ)
    (connection1 connection2 : GraphConnection) : Prop :=
  if connection1.inputIndex = connection2.inputIndex then
    localeCompare connection1.fromNode.name connection2.fromNode.name ≤ 0
  else connection1.inputIndex ≤ connection2.inputIndex

instance (localeCompare : String → String → ℤ) :
    DecidableRel (sortByInputIndexThenByName localeCompare) := fun _ _ =>
  inferInstanceAs (Decidable (ite _ _ _))

structure SourceConnectionGroup where
  complete : Bool
  connections : List GraphConnection

def newGroup : SourceConnectionGroup := ⟨true, []⟩

def lowestInputIndex (connections : List GraphConnection) : ℕ :=
  ((connections.map (·.inputIndex)).min?).getD 0

def groupConnections : ℕ → ℕ → SourceConnectionGroup → List SourceConnectionGroup →
    List GraphConnection → List GraphConnection → Except Failure (List SourceConnectionGroup)
  | 0, _, _, _, _, _ => .error .outOfFuel
  | fuel + 1, inputIndex, currentGroup, groups, withData, withoutData =>
    if withData.length = 0 ∧ withoutData.length = 0 then .ok (groups ++ [currentGroup])
    else
      match withData.find? (·.inputIndex = inputIndex) with
      | some connection =>
        groupConnections fuel (inputIndex + 1)
          { currentGroup with connections := currentGroup.connections ++ [connection] } groups
          (withData.eraseP (·.inputIndex = inputIndex)) withoutData
      | none =>
        match withoutData.find? (·.inputIndex = inputIndex) with
        | some connection =>
          groupConnections fuel (inputIndex + 1)
            ⟨false, currentGroup.connections ++ [connection]⟩ groups withData
            (withoutData.eraseP (·.inputIndex = inputIndex))
        | none =>
          groupConnections fuel (lowestInputIndex (withData ++ withoutData)) newGroup
            (groups ++ [currentGroup]) withData withoutData

def getSourceDataGroups (localeCompare : String → String → ℤ) (graph : DirectedGraph)
    (node : INode) (runData : IRunData ι) (pinnedData : IPinData ι) :
    Except Failure (List SourceConnectionGroup) :=
  let connections := graph.getConnections.filter fun c => decide (c.toNode = node)
  let hasData := fun c : GraphConnection =>
    runData.has c.fromNode.name || pinnedData.has c.fromNode.name
  let sortedWithData := (connections.filter hasData).insertionSort
    (sortByInputIndexThenByName localeCompare)
  let sortedWithoutData := (connections.filter fun c =>
    !hasData c && decide (c.type = .main)).insertionSort (sortByInputIndexThenByName localeCompare)
  if sortedWithData.length = 0 ∧ sortedWithoutData.length = 0 then .ok []
  else
    groupConnections (2 * (sortedWithData.length + sortedWithoutData.length) + 1)
      (lowestInputIndex (sortedWithData ++ sortedWithoutData)) newGroup [] sortedWithData
      sortedWithoutData

/-! ### Integer indices -/

def GraphConnection.toInteger (c : GraphConnection) : IntegerInputs.GraphConnection :=
  ⟨c.fromNode, c.toNode, c.type, c.outputIndex, c.inputIndex⟩

def DirectedGraph.toInteger (graph : DirectedGraph) : IntegerInputs.DirectedGraph :=
  ⟨graph.nodes, graph.connections.mapValues GraphConnection.toInteger⟩

def SourceConnectionGroup.toInteger (group : SourceConnectionGroup) :
    IntegerInputs.SourceConnectionGroup :=
  ⟨group.complete, group.connections.map GraphConnection.toInteger⟩

theorem lowestInputIndex_toInteger (connections : List GraphConnection) :
    IntegerInputs.lowestInputIndex (connections.map (·.toInteger)) =
      (lowestInputIndex connections : ℤ) := by
  cases connections with
  | nil => rfl
  | cons c connections =>
    rw [IntegerInputs.lowestInputIndex, lowestInputIndex, List.map_map, List.map_cons,
      List.map_cons, List.min?_cons', List.min?_cons', Option.getD_some, Option.getD_some, List.foldl_map,
      List.foldl_map]
    exact List.foldl_hom (fun n : ℕ => (n : ℤ)) fun n c =>
      show min (n : ℤ) (c.inputIndex : ℤ) = (min n c.inputIndex : ℕ) by omega

/-- A connection has the index looked for exactly if it has it as an integer. -/
theorem toInteger_inputIndex (index : ℕ) :
    ((fun c : IntegerInputs.GraphConnection => decide (c.inputIndex = (index : ℤ) - 1 + 1)) ∘
      GraphConnection.toInteger) = fun c => decide (c.inputIndex = index) := by
  funext c
  refine decide_eq_decide.mpr ?_
  change ((c.inputIndex : ℕ) : ℤ) = _ ↔ _
  omega

theorem groupConnections_toInteger (fuel index : ℕ) (currentGroup : SourceConnectionGroup)
    (groups : List SourceConnectionGroup) (withData withoutData : List GraphConnection) :
    IntegerInputs.groupConnections fuel ((index : ℤ) - 1) currentGroup.toInteger
        (groups.map (·.toInteger)) (withData.map (·.toInteger)) (withoutData.map (·.toInteger)) =
      List.map (·.toInteger) <$>
        groupConnections fuel index currentGroup groups withData withoutData := by
  induction fuel generalizing index currentGroup groups withData withoutData with
  | zero => rfl
  | succ fuel ih =>
    have hnext : (index : ℤ) - 1 + 1 = ((index + 1 : ℕ) : ℤ) - 1 := by omega
    have hadd : ∀ (complete : Bool) (c : GraphConnection),
        (⟨complete, currentGroup.toInteger.connections ++ [c.toInteger]⟩ :
          IntegerInputs.SourceConnectionGroup) =
          SourceConnectionGroup.toInteger ⟨complete, currentGroup.connections ++ [c]⟩ := by
      intro complete c
      simp [SourceConnectionGroup.toInteger]
    rw [IntegerInputs.groupConnections, groupConnections]
    simp only [List.length_map, List.find?_map, List.eraseP_map, toInteger_inputIndex]
    split_ifs with hdone
    · simp [Functor.map, Except.map]
    · cases withData.find? (·.inputIndex = index) with
      | some c =>
        rw [Option.map_some]
        dsimp only
        rw [hnext, hadd]
        exact ih _ _ _ _ _
      | none =>
        cases withoutData.find? (·.inputIndex = index) with
        | some c =>
          simp only [Option.map_none, Option.map_some]
          rw [hnext, hadd]
          exact ih _ _ _ _ _
        | none =>
          simp only [Option.map_none]
          rw [← List.map_append, lowestInputIndex_toInteger]
          rw [← List.map_singleton, ← List.map_append]
          exact ih _ newGroup _ _ _

/-- Filtering and sorting the connections of the graph with integer indices. -/
theorem sorted_toInteger (localeCompare : String → String → ℤ) (graph : DirectedGraph)
    (node : INode) (p : GraphConnection → Bool) (p' : IntegerInputs.GraphConnection → Bool)
    (hp : ∀ c, p' (GraphConnection.toInteger c) = p c) :
    ((graph.toInteger.getConnections node).filter p').insertionSort
        (IntegerInputs.sortByInputIndexThenByName localeCompare) =
      (((graph.getConnections.filter fun c => decide (c.toNode = node)).filter p).insertionSort
        (sortByInputIndexThenByName localeCompare)).map (·.toInteger) := by
  have hconnections : graph.toInteger.getConnections node =
      (graph.getConnections.filter fun c => decide (c.toNode = node)).map (·.toInteger) := by
    simp only [IntegerInputs.DirectedGraph.getConnections, DirectedGraph.getConnections,
      DirectedGraph.toInteger, OrderedMap.values, OrderedMap.mapValues, List.map_map,
      List.filter_map]
    rfl
  have hsort : ∀ c d : GraphConnection, sortByInputIndexThenByName localeCompare c d ↔
      IntegerInputs.sortByInputIndexThenByName localeCompare c.toInteger d.toInteger := by
    intro c d
    simp only [sortByInputIndexThenByName, IntegerInputs.sortByInputIndexThenByName,
      GraphConnection.toInteger, Int.natCast_inj, Int.ofNat_le]
  rw [hconnections, List.filter_map, List.map_insertionSort _ _ _ _ fun c _ d _ => hsort c d]
  congr 2
  exact List.filter_congr fun c _ => hp c

theorem getSourceDataGroups_toInteger (localeCompare : String → String → ℤ) (graph : DirectedGraph)
    (node : INode) (runData : IRunData ι) (pinnedData : IPinData ι) :
    IntegerInputs.getSourceDataGroups runData pinnedData localeCompare graph.toInteger node =
      List.map (·.toInteger) <$>
        getSourceDataGroups localeCompare graph node runData pinnedData := by
  rw [IntegerInputs.getSourceDataGroups, getSourceDataGroups]
  rw [sorted_toInteger localeCompare graph node (fun c => runData.has c.fromNode.name ||
      pinnedData.has c.fromNode.name) (IntegerInputs.hasData runData pinnedData) fun _ => rfl,
    sorted_toInteger localeCompare graph node (fun c => !(runData.has c.fromNode.name ||
      pinnedData.has c.fromNode.name) && decide (c.type = .main)) _ fun _ => rfl]
  simp only [List.length_map]
  split_ifs
  · rfl
  · rw [← List.map_append, lowestInputIndex_toInteger]
    exact groupConnections_toInteger _ _ newGroup [] _ _

theorem getSourceDataGroups_ok (localeCompare : String → String → ℤ) (graph : DirectedGraph)
    (node : INode) (runData : IRunData ι) (pinnedData : IPinData ι) :
    ∃ groups, getSourceDataGroups localeCompare graph node runData pinnedData = .ok groups := by
  obtain ⟨_, _, hok, -⟩ := IntegerInputs.getSourceDataGroups_grouping localeCompare graph.toInteger
    node runData pinnedData
  rw [getSourceDataGroups_toInteger] at hok
  obtain ⟨groups, hgroups, -⟩ := FoldM.map_eq_ok.mp hok
  exact ⟨groups, hgroups⟩

end N8n
