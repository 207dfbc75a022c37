import N8n.Foundations.OrderedMap
import N8n.Foundations.FoldM
import N8n.Workflow.Node
import Mathlib.Data.Finset.Card
import Mathlib.Data.Finset.Dedup

/-!
# The workflow

The connections are given by source node and rewritten by destination node. The
maps here stand for objects that no one writes to, so their entries are taken in
the order in which a loop over the object meets them. The recursions carry the
nodes that were checked; their `fuel` is one more than there are nodes to check.
-/

namespace N8n

abbrev IConnections :=
  OrderedMap String (OrderedMap NodeConnectionType (List (Option (List Connection))))

inductive RequiredInputs where
  | indexes (inputs : List ℕ)
  | count (inputs : ℕ)
  deriving DecidableEq, Repr

structure NodeTypeDescription where
  inputsLength : ℕ
  requiredInputs : Option (String ⊕ RequiredInputs)

structure Workflow where
  nodes : OrderedMap String INode
  connectionsBySourceNode : IConnections
  executionOrderV1 : Bool
  nodeType : INode → Option NodeTypeDescription
  evaluate : INode → String → Option RequiredInputs

/-- The connection is written to the list of its input, which is made if it is not there. -/
def addByDestination (sourceNode : String) (type : NodeConnectionType)
    (returnConnection : IConnections) (inputIndex : ℕ) (connectionInfo : Connection) :
    IConnections :=
  let byType := (returnConnection.get? connectionInfo.node).getD .empty
  let inputs := (byType.get? connectionInfo.type).getD []
  let inputs := inputs ++ List.replicate (connectionInfo.index + 1 - inputs.length) (some [])
  let inputs := inputs.modify connectionInfo.index
    (Option.map (· ++ [⟨sourceNode, type, inputIndex⟩]))
  returnConnection.set connectionInfo.node (byType.set connectionInfo.type inputs)

def getConnectionsByDestination (connections : IConnections) : IConnections :=
  connections.entries.foldl
    (fun returnConnection (sourceNode, byType) =>
      byType.entries.foldl
        (fun returnConnection (type, outputs) =>
          outputs.zipIdx.foldl
            (fun returnConnection (output, inputIndex) =>
              (output.getD []).foldl
                (fun returnConnection connectionInfo =>
                  addByDestination sourceNode type returnConnection inputIndex connectionInfo)
                returnConnection)
            returnConnection)
        returnConnection)
    .empty

def getConnectedNodesFrom (connections : IConnections) (connectionType : NodeConnectionType) :
    ℕ → String → List String → List String
  | 0, _, _ => []
  | fuel + 1, nodeName, checkedNodesIncoming =>
    match connections.get? nodeName with
    | none => []
    | some byType =>
      match byType.get? connectionType with
      | none => []
      | some lists =>
        if nodeName ∈ checkedNodesIncoming then []
        else
          let checkedNodes := checkedNodesIncoming ++ [nodeName]
          (lists.flatMap fun connectionsByIndex => connectionsByIndex.getD []).foldl
            (fun returnNodes connection =>
              if connection.node ∈ checkedNodes then returnNodes
              else
                let addNodes := getConnectedNodesFrom connections connectionType fuel
                  connection.node checkedNodes
                -- A node that got found before moves to the front.
                addNodes.reverse.foldl
                  (fun returnNodes parentNodeName =>
                    parentNodeName :: returnNodes.erase parentNodeName)
                  (connection.node :: returnNodes))
            []

def getConnectedNodes (connections : IConnections) (nodeName : String)
    (connectionType : NodeConnectionType) : List String :=
  getConnectedNodesFrom connections connectionType (connections.size + 1) nodeName []

/-- The nodes with connections that have not been checked. -/
def unchecked (connections : IConnections) (checkedNodes : List String) : Finset String :=
  connections.keys.toFinset \ checkedNodes.toFinset

theorem unchecked_lt {connections : IConnections} {nodeName : String} {checkedNodes : List String}
    (hkey : connections.get? nodeName ≠ none) (hn : nodeName ∉ checkedNodes) :
    (unchecked connections (checkedNodes ++ [nodeName])).card <
      (unchecked connections checkedNodes).card := by
  apply Finset.card_lt_card
  rw [Finset.ssubset_iff_of_subset]
  · refine ⟨nodeName, ?_, by simp [unchecked]⟩
    rw [ne_eq, OrderedMap.get?_eq_none, not_not] at hkey
    simp [unchecked, hkey, hn]
  · intro n hn'
    simp only [unchecked, Finset.mem_sdiff, List.mem_toFinset, List.mem_append, not_or] at hn' ⊢
    exact ⟨hn'.1, hn'.2.1⟩

theorem foldl_congr {α β : Type} {f g : β → α → β} {l : List α}
    (h : ∀ b, ∀ a ∈ l, f b a = g b a) (b : β) : l.foldl f b = l.foldl g b := by
  induction l generalizing b with
  | nil => rfl
  | cons a l ih =>
    rw [List.foldl_cons, List.foldl_cons, h b a List.mem_cons_self]
    exact ih (fun b a ha => h b a (List.mem_cons_of_mem _ ha)) _

/-- The recursion does not run out of fuel: one round more gives the same nodes. -/
theorem getConnectedNodesFrom_succ {connections : IConnections}
    {connectionType : NodeConnectionType} {fuel : ℕ} {nodeName : String}
    {checkedNodes : List String} (h : (unchecked connections checkedNodes).card < fuel) :
    getConnectedNodesFrom connections connectionType (fuel + 1) nodeName checkedNodes =
      getConnectedNodesFrom connections connectionType fuel nodeName checkedNodes := by
  induction fuel generalizing nodeName checkedNodes with
  | zero => omega
  | succ fuel ih =>
    rw [getConnectedNodesFrom, getConnectedNodesFrom]
    cases hget : connections.get? nodeName with
    | none => rfl
    | some byType =>
      cases hlists : byType.get? connectionType with
      | none => simp only [hlists]
      | some lists =>
        simp only [hlists]
        split_ifs with hin
        · rfl
        · have hlt := unchecked_lt (by rw [hget]; simp) hin
          apply foldl_congr
          intro returnNodes connection _
          rw [ih (by omega)]

namespace Workflow

def connectionsByDestinationNode (workflow : Workflow) : IConnections :=
  getConnectionsByDestination workflow.connectionsBySourceNode

def getNode (workflow : Workflow) (nodeName : String) : Option INode := workflow.nodes.get? nodeName

def getParentNodes (workflow : Workflow) (nodeName : String) : List String :=
  getConnectedNodes workflow.connectionsByDestinationNode nodeName .main

/-- `connectionsByDestinationNode[nodeName].main`, where a missing node is a `TypeError`. -/
def mainInputs (workflow : Workflow) (nodeName : String) :
    Except Failure (Option (List (Option (List Connection)))) :=
  match workflow.connectionsByDestinationNode.get? nodeName with
  | none => .error .typeError
  | some byType => .ok (byType.get? .main)

/-- What a call adds for one connection; `followed` is what the recursive call gives. -/
def addHighest (returnNodes : List String) (connection : Connection) (node : INode)
    (followed : List String × List String) : List String × List String :=
  let addNodes :=
    if followed.1.length = 0 ∧ node.disabled ≠ some true then [connection.node] else followed.1
  (addNodes.foldl
    (fun returnNodes name => if name ∈ returnNodes then returnNodes else returnNodes ++ [name])
    returnNodes, followed.2)

/-- The nodes found, and the nodes checked on the way, which all calls share. -/
def getHighestNodeFrom (workflow : Workflow) :
    ℕ → String → Option ℕ → List String → Except Failure (List String × List String)
  | 0, _, _, checkedNodes => .ok ([], checkedNodes)
  | fuel + 1, nodeName, nodeConnectionIndex, checkedNodes =>
    match workflow.nodes.get? nodeName with
    | none => .error .typeError
    | some node =>
      let currentHighest := if node.disabled = some false then [nodeName] else []
      match (workflow.connectionsByDestinationNode.get? nodeName).bind (·.get? .main) with
      | none => .ok (currentHighest, checkedNodes)
      | some inputs =>
        if nodeName ∈ checkedNodes then .ok (currentHighest, checkedNodes)
        else
          (inputs.zipIdx.flatMap fun (connectionsByIndex, connectionIndex) =>
              if nodeConnectionIndex.any (fun index => decide (index ≠ connectionIndex)) then []
              else connectionsByIndex.getD []).foldlM
            (fun found connection =>
              if connection.node ∈ found.2 then .ok found
              else
                match workflow.nodes.get? connection.node with
                | none => .ok found
                | some node => addHighest found.1 connection node <$>
                    getHighestNodeFrom workflow fuel connection.node none found.2)
            ([], checkedNodes ++ [nodeName])

def getHighestNode (workflow : Workflow) (nodeName : String) (nodeConnectionIndex : ℕ) :
    Except Failure (List String) :=
  Prod.fst <$> workflow.getHighestNodeFrom (workflow.connectionsByDestinationNode.size + 1)
    nodeName (some nodeConnectionIndex) []

theorem checked_subset {workflow : Workflow} {fuel : ℕ} {nodeName : String}
    {nodeConnectionIndex : Option ℕ} {checkedNodes : List String}
    {found : List String × List String}
    (h : workflow.getHighestNodeFrom fuel nodeName nodeConnectionIndex checkedNodes = .ok found) :
    checkedNodes ⊆ found.2 := by
  induction fuel generalizing nodeName nodeConnectionIndex checkedNodes found with
  | zero => exact Except.ok.inj h ▸ List.Subset.refl _
  | succ fuel ih =>
    simp only [getHighestNodeFrom] at h
    split at h
    · cases h
    · split at h
      · exact Except.ok.inj h ▸ List.Subset.refl _
      · by_cases hin : nodeName ∈ checkedNodes
        · rw [if_pos hin] at h
          exact Except.ok.inj h ▸ List.Subset.refl _
        · rw [if_neg hin] at h
          refine FoldM.foldlM_preserves (fun found : List String × List String =>
            checkedNodes ⊆ found.2) (List.subset_append_left _ _) ?_ h
          intro s connection s' hs _ hok
          split at hok
          · exact Except.ok.inj hok ▸ hs
          · split at hok
            · exact Except.ok.inj hok ▸ hs
            · obtain ⟨followed, hf, rfl⟩ := FoldM.map_eq_ok.mp hok
              have hsub := ih hf
              exact List.Subset.trans hs hsub

/-- The recursion does not run out of fuel here either. -/
theorem getHighestNodeFrom_succ {workflow : Workflow} {fuel : ℕ} {nodeName : String}
    {nodeConnectionIndex : Option ℕ} {checkedNodes : List String}
    (h : (unchecked workflow.connectionsByDestinationNode checkedNodes).card < fuel) :
    workflow.getHighestNodeFrom (fuel + 1) nodeName nodeConnectionIndex checkedNodes =
      workflow.getHighestNodeFrom fuel nodeName nodeConnectionIndex checkedNodes := by
  induction fuel generalizing nodeName nodeConnectionIndex checkedNodes with
  | zero => omega
  | succ fuel ih =>
    rw [getHighestNodeFrom, getHighestNodeFrom]
    cases hnode : workflow.nodes.get? nodeName with
    | none => rfl
    | some node =>
      cases hinputs : (workflow.connectionsByDestinationNode.get? nodeName).bind (·.get? .main) with
      | none => rfl
      | some inputs =>
        dsimp only
        by_cases hin : nodeName ∈ checkedNodes
        · rw [if_pos hin, if_pos hin]
        · rw [if_neg hin, if_neg hin]
          have hkey : workflow.connectionsByDestinationNode.get? nodeName ≠ none := by
            intro hnone
            rw [hnone] at hinputs
            cases hinputs
          have hlt := unchecked_lt hkey hin
          apply FoldM.foldlM_congr (fun found : List String × List String =>
            checkedNodes ++ [nodeName] ⊆ found.2) (List.Subset.refl _)
          · intro s connection s' hs _ hok
            split at hok
            · exact Except.ok.inj hok ▸ hs
            · split at hok
              · exact Except.ok.inj hok ▸ hs
              · obtain ⟨followed, hf, rfl⟩ := FoldM.map_eq_ok.mp hok
                have hsub := checked_subset hf
                exact List.Subset.trans hs hsub
          · intro s connection hs _
            have hle : (unchecked workflow.connectionsByDestinationNode s.2).card ≤
                (unchecked workflow.connectionsByDestinationNode
                  (checkedNodes ++ [nodeName])).card := by
              apply Finset.card_le_card
              apply Finset.sdiff_subset_sdiff (Finset.Subset.refl _)
              intro n hn
              exact List.mem_toFinset.mpr (hs (List.mem_toFinset.mp hn))
            rw [ih (by omega)]

end Workflow
end N8n
