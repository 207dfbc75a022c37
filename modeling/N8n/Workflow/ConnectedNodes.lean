import N8n.Foundations.PathSearch
import N8n.Workflow.Workflow

/-!
# Connected nodes up to a depth

`getConnectedNodes` carries the nodes that were checked on the way down only, so it is a search
along paths. A node is put in front for each connection that leads to it; only what a recursive
call has found is looked for before.
-/

namespace N8n.ConnectedNodes

open PathSearch (ReachesWithin ReachesBelow avoiding gather lower raise search)

/-- `NodeConnectionType | 'ALL' | 'ALL_NON_MAIN'` -/
inductive ConnectionTypes where
  | one (type : NodeConnectionType)
  | all
  | allNonMain

abbrev ConnectionsByType := OrderedMap NodeConnectionType (List (Option (List Connection)))

def ConnectionTypes.types (byType : ConnectionsByType) : ConnectionTypes → List NodeConnectionType
  | .one type => [type]
  | .all => byType.keys
  | .allNonMain => byType.keys.filter fun type => decide (type ≠ .main)

/-- The loop over the nodes that a recursive call has found, from the last one on. -/
def addFound (returnNodes addNodes : List String) : List String :=
  addNodes.reverse.foldl
    (fun returnNodes parentNodeName => parentNodeName :: returnNodes.erase parentNodeName)
    returnNodes

def getConnectedNodesFrom (connections : IConnections) (connectionType : ConnectionTypes) :
    ℕ → ℤ → String → List String → List String
  | 0, _, _, _ => []
  | fuel + 1, depth, nodeName, checkedNodesIncoming =>
    let newDepth := if depth = -1 then depth else depth - 1
    if depth = 0 then []
    else
      match connections.get? nodeName with
      | none => []
      | some byType =>
        (connectionType.types byType).foldl
          (fun returnNodes type =>
            match byType.get? type with
            | none => returnNodes
            | some lists =>
              if nodeName ∈ checkedNodesIncoming then returnNodes
              else
                let checkedNodes := checkedNodesIncoming ++ [nodeName]
                lists.foldl
                  (fun returnNodes connectionsByIndex =>
                    (connectionsByIndex.getD []).foldl
                      (fun returnNodes connection =>
                        if connection.node ∈ checkedNodes then returnNodes
                        else addFound (connection.node :: returnNodes)
                          (getConnectedNodesFrom connections connectionType fuel newDepth
                            connection.node checkedNodes))
                      returnNodes)
                  returnNodes)
          []

def getConnectedNodes (connections : IConnections) (nodeName : String)
    (connectionType : ConnectionTypes) (depth : ℤ) : List String :=
  getConnectedNodesFrom connections connectionType (connections.size + 1) depth nodeName []

/-- The ends of the connections of a node that have one of the types, in their order. -/
def connectedTo (connections : IConnections) (connectionType : ConnectionTypes)
    (nodeName : String) : List String :=
  match connections.get? nodeName with
  | none => []
  | some byType =>
    (connectionType.types byType).flatMap fun type =>
      ((byType.get? type).getD []).flatMap fun connectionsByIndex =>
        (connectionsByIndex.getD []).map (·.node)

section Found
variable (connections : IConnections) (connectionType : ConnectionTypes)

theorem getConnectedNodesFrom_eq (fuel : ℕ) (depth : ℤ) (nodeName : String)
    (checkedNodes : List String) :
    getConnectedNodesFrom connections connectionType fuel depth nodeName checkedNodes =
      search (connectedTo connections connectionType) fuel depth nodeName checkedNodes := by
  induction fuel generalizing depth nodeName checkedNodes with
  | zero => rfl
  | succ fuel ih =>
    rw [getConnectedNodesFrom, search]
    by_cases hdepth : depth = 0
    · simp [hdepth]
    · simp only [hdepth, false_or, if_false, ih]
      cases hget : connections.get? nodeName with
      | none => simp [connectedTo, hget, avoiding, gather]
      | some byType =>
        dsimp only
        by_cases hin : nodeName ∈ checkedNodes
        · rw [if_pos hin]
          refine List.foldlRecOn (motive := (· = [])) _ _ rfl fun returnNodes hnil type _ => ?_
          cases byType.get? type with
          | none => exact hnil
          | some lists => exact (if_pos hin).trans hnil
        · rw [if_neg hin, gather, avoiding, List.foldl_filter, connectedTo, hget]
          dsimp only
          rw [List.foldl_flatMap]
          refine foldl_congr (fun returnNodes type _ => ?_) []
          cases byType.get? type with
          | none => rfl
          | some lists =>
            dsimp only
            rw [if_neg hin, Option.getD_some, List.foldl_flatMap]
            refine foldl_congr (fun returnNodes connectionsByIndex _ => ?_) _
            rw [List.foldl_map]
            refine foldl_congr (fun returnNodes connection _ => ?_) _
            by_cases hchecked : connection.node ∈ checkedNodes ++ [nodeName]
            · rw [if_pos hchecked, if_neg fun h => (of_decide_eq_true h : _ ∉ _) hchecked]
            · rw [if_neg hchecked, if_pos (decide_eq_true hchecked)]
              rfl

variable {connections connectionType}

theorem key_of_connectedTo {nodeName : String}
    (h : connectedTo connections connectionType nodeName ≠ []) :
    nodeName ∈ connections.keys.toFinset := by
  rw [List.mem_toFinset]
  by_contra hkey
  rw [connectedTo, OrderedMap.get?_eq_none.mpr hkey] at h
  exact h rfl

theorem card_keys_lt : connections.keys.toFinset.card < connections.size + 1 := by
  have hle := connections.keys.toFinset_card_le
  rw [OrderedMap.keys, List.length_map] at hle
  exact Nat.lt_succ_of_le hle

variable {nodeName : String} {depth : ℤ}

theorem mem_getConnectedNodes {name : String} :
    name ∈ getConnectedNodes connections nodeName connectionType depth ↔
      name ≠ nodeName ∧ ReachesWithin (connectedTo connections connectionType) depth nodeName name := by
  rw [getConnectedNodes, getConnectedNodesFrom_eq]
  exact PathSearch.mem_search_nil (fun _ => key_of_connectedTo) card_keys_lt

variable (connections nodeName connectionType depth) in
/-- The nodes other than the start that a path of at most `depth` connections leads to, each once. -/
def ConnectedOnce : Prop :=
  (∀ name, name ∈ getConnectedNodes connections nodeName connectionType depth ↔
    name ≠ nodeName ∧
      ReachesWithin (connectedTo connections connectionType) depth nodeName name) ∧
  (getConnectedNodes connections nodeName connectionType depth).Nodup

def mainTo (nodes : List String) : ConnectionsByType :=
  OrderedMap.empty.set .main [some (nodes.map fun node => ⟨node, .main, 0⟩)]

/-- `S` is connected to `A` and `B`, and `A` to `B`. -/
def diamond : IConnections := (OrderedMap.empty.set "S" (mainTo ["A", "B"])).set "A" (mainTo ["B"])

end Found

/-- The search of `N8n.getConnectedNodes` is the one for a single type without a depth. -/
theorem getConnectedNodesFrom_one (connections : IConnections) (type : NodeConnectionType)
    (fuel : ℕ) (nodeName : String) (checkedNodes : List String) :
    getConnectedNodesFrom connections (.one type) fuel (-1) nodeName checkedNodes =
      N8n.getConnectedNodesFrom connections type fuel nodeName checkedNodes := by
  induction fuel generalizing nodeName checkedNodes with
  | zero => rfl
  | succ fuel ih =>
    rw [getConnectedNodesFrom, N8n.getConnectedNodesFrom]
    cases connections.get? nodeName with
    | none => rfl
    | some byType =>
      cases hlists : byType.get? type with
      | none => simp [ConnectionTypes.types, hlists]
      | some lists =>
        by_cases hin : nodeName ∈ checkedNodes
        · simp [ConnectionTypes.types, hlists, hin]
        · simp only [ConnectionTypes.types, List.foldl_cons, List.foldl_nil, hlists, hin, ih,
            List.foldl_flatMap, addFound, if_false, if_true, reduceCtorEq]

theorem getConnectedNodes_one (connections : IConnections) (nodeName : String)
    (type : NodeConnectionType) :
    getConnectedNodes connections nodeName (.one type) (-1) =
      N8n.getConnectedNodes connections nodeName type :=
  getConnectedNodesFrom_one connections type _ nodeName []

end N8n.ConnectedNodes
