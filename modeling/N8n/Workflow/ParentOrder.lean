import N8n.Workflow.ConnectedNodes
import N8n.Workflow.ConnectionTables

/-!
# The order of the parent nodes

The parents of a node are searched in the table by destination, whose lists are those of the
connections that lead to the node. Without cycles every ancestor comes before its descendants.
-/

namespace N8n.ConnectedNodes

open PathSearch (LeadsTo Ordered Precedes)
open Relation (TransGen)

def getParentNodes (workflow : Workflow) (nodeName : String) (connectionType : ConnectionTypes)
    (depth : ℤ) : List String :=
  getConnectedNodes workflow.connectionsByDestinationNode nodeName connectionType depth

def ConnectionTypes.Includes (type : NodeConnectionType) : ConnectionTypes → Prop
  | .one type' => type' = type
  | .all => True
  | .allNonMain => type ≠ .main

/-- A connection to an input of one of the types leads from one node to the other. -/
def Feeds (connections : IConnections) (connectionType : ConnectionTypes)
    (source destination : String) : Prop :=
  ∃ e ∈ ends connections, e.1.node = source ∧ e.2.node = destination ∧
    connectionType.Includes e.2.type

section Table
variable {connections : IConnections} {connectionType : ConnectionTypes} {nodeName name : String}

theorem mem_types {byType : ConnectionsByType} {type : NodeConnectionType}
    (h : byType.get? type ≠ none) :
    type ∈ connectionType.types byType ↔ connectionType.Includes type := by
  rw [ne_eq, OrderedMap.get?_eq_none, not_not] at h
  cases connectionType with
  | one type' => simp [ConnectionTypes.types, ConnectionTypes.Includes, eq_comm]
  | all => simp [ConnectionTypes.types, ConnectionTypes.Includes, h]
  | allNonMain => simp [ConnectionTypes.types, ConnectionTypes.Includes, h]

theorem mem_flatten_listsAt {type : NodeConnectionType} {connection : Connection} :
    connection ∈ ((listsAt connections nodeName type).getD []).flatMap (·.getD []) ↔
      ∃ index, connection ∈ connectionsAt connections ⟨nodeName, type, index⟩ := by
  simp only [connectionsAt, List.mem_flatMap]
  constructor
  · rintro ⟨list, hlist, hconnection⟩
    obtain ⟨index, hindex⟩ := List.mem_iff_getElem?.mp hlist
    exact ⟨index, by rw [hindex]; exact hconnection⟩
  · rintro ⟨index, hconnection⟩
    cases hindex : ((listsAt connections nodeName type).getD [])[index]? with
    | none => simp [hindex] at hconnection
    | some list =>
      rw [hindex] at hconnection
      exact ⟨list, List.mem_of_getElem? hindex, hconnection⟩

theorem mem_connectedTo_iff :
    name ∈ connectedTo connections connectionType nodeName ↔
      ∃ place connection, place.node = nodeName ∧ connectionType.Includes place.type ∧
        connection ∈ connectionsAt connections place ∧ connection.node = name := by
  have hlists : name ∈ connectedTo connections connectionType nodeName ↔
      ∃ type, connectionType.Includes type ∧ ∃ connection : Connection,
        connection ∈ ((listsAt connections nodeName type).getD []).flatMap (·.getD []) ∧
          connection.node = name := by
    simp only [connectedTo, listsAt]
    cases connections.get? nodeName with
    | none => simp
    | some byType =>
      simp only [List.mem_flatMap, List.mem_map, Option.bind_some]
      constructor
      · rintro ⟨type, htype, list, hlist, connection, hconnection, hname⟩
        refine ⟨type, (mem_types ?_).mp htype, connection, ⟨list, hlist, hconnection⟩, hname⟩
        rintro hnone
        simp [hnone] at hlist
      · rintro ⟨type, htype, connection, ⟨list, hlist, hconnection⟩, hname⟩
        refine ⟨type, (mem_types ?_).mpr htype, list, hlist, connection, hconnection, hname⟩
        rintro hnone
        simp [hnone] at hlist
  rw [hlists]
  simp only [mem_flatten_listsAt]
  constructor
  · rintro ⟨type, htype, connection, ⟨index, hconnection⟩, hname⟩
    exact ⟨⟨nodeName, type, index⟩, connection, rfl, htype, hconnection, hname⟩
  · rintro ⟨⟨nodeName, type, index⟩, connection, rfl, htype, hconnection, hname⟩
    exact ⟨type, htype, connection, ⟨index, hconnection⟩, hname⟩

/-- The table by destination leads from a node to what feeds it. -/
theorem mem_connectedTo_byDestination :
    name ∈ connectedTo (getConnectionsByDestination connections) connectionType nodeName ↔
      Feeds connections connectionType name nodeName := by
  simp only [mem_connectedTo_iff, connectionsAt_getConnectionsByDestination, List.mem_map,
    List.mem_filter, decide_eq_true_eq]
  constructor
  · rintro ⟨place, _, hnode, htype, ⟨e, ⟨he, rfl⟩, rfl⟩, hname⟩
    exact ⟨e, he, hname, hnode, htype⟩
  · rintro ⟨e, he, hname, hnode, htype⟩
    exact ⟨e.2, e.1, hnode, htype, ⟨e, ⟨he, rfl⟩, rfl⟩, hname⟩

theorem leadsTo_byDestination :
    LeadsTo (connectedTo (getConnectionsByDestination connections) connectionType) nodeName name ↔
      TransGen (Feeds connections connectionType) name nodeName := by
  simp only [LeadsTo, mem_connectedTo_byDestination]
  exact Relation.transGen_swap

end Table

section Diamond

/-- `A` is connected to `B` and `M`, and `B` to `M`. -/
def shortcut : Workflow where
  nodes := .empty
  connectionsBySourceNode :=
    (OrderedMap.empty.set "A" (mainTo ["M", "B"])).set "B" (mainTo ["M"])
  executionOrderV1 := true
  nodeType _ := none
  evaluate _ _ := none

theorem shortcut_acyclic (name : String) :
    ¬ TransGen (Feeds shortcut.connectionsBySourceNode (.one .main)) name name := by
  have hrank : ∀ e ∈ ends shortcut.connectionsBySourceNode,
      ["A", "B", "M"].idxOf e.1.node < ["A", "B", "M"].idxOf e.2.node := by decide
  have hlt : ∀ a b, TransGen (Feeds shortcut.connectionsBySourceNode (.one .main)) a b →
      ["A", "B", "M"].idxOf a < ["A", "B", "M"].idxOf b := by
    intro a b h
    induction h with
    | single h =>
      obtain ⟨e, he, rfl, rfl, -⟩ := h
      exact hrank e he
    | tail _ h ih =>
      obtain ⟨e, he, rfl, rfl, -⟩ := h
      exact lt_trans ih (hrank e he)
  exact fun h => lt_irrefl _ (hlt name name h)

end Diamond
end N8n.ConnectedNodes
