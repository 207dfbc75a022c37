import N8n.Workflow.ConnectionTables

/-!
# The workflow in the editor

Of a node only the id and the name matter to the operations on the canvas; the rest
of its data is carried along.
-/

namespace N8n.Canvas

structure INodeUi (δ : Type) where
  id : String
  name : String
  data : δ
  deriving DecidableEq, Repr

structure IWorkflowDb (δ : Type) where
  nodes : List (INodeUi δ)
  connections : IConnections

variable {δ : Type}

namespace IWorkflowDb

def getNodeById (workflow : IWorkflowDb δ) (nodeId : String) : Option (INodeUi δ) :=
  workflow.nodes.find? fun node => decide (node.id = nodeId)

/-- In the nodes by name, a later node takes the place of an earlier one. -/
def getNodeByName (workflow : IWorkflowDb δ) (nodeName : String) : Option (INodeUi δ) :=
  workflow.nodes.reverse.find? fun node => decide (node.name = nodeName)

def addNode (workflow : IWorkflowDb δ) (nodeData : INodeUi δ) : IWorkflowDb δ :=
  { workflow with nodes := workflow.nodes ++ [nodeData] }

def removeNode (workflow : IWorkflowDb δ) (node : INodeUi δ) : IWorkflowDb δ :=
  { workflow with nodes := workflow.nodes.eraseP fun node' => decide (node'.name = node.name) }

def removeNodeById (workflow : IWorkflowDb δ) (nodeId : String) : IWorkflowDb δ :=
  match workflow.getNodeById nodeId with
  | none => workflow
  | some node => workflow.removeNode node

end IWorkflowDb

/-! ### The table of the connections -/

def setLists (connections : IConnections) (node : String) (type : NodeConnectionType)
    (lists : List (Option (List Connection))) : IConnections :=
  connections.set node (((connections.get? node).getD .empty).set type lists)

def addConnection (connections : IConnections) (sourceData destinationData : Connection) :
    IConnections :=
  let lists := (listsAt connections sourceData.node sourceData.type).getD []
  let lists := lists ++ List.replicate (sourceData.index + 1 - lists.length) (some [])
  let connectionsToCheck := lists[sourceData.index]?.join.getD []
  setLists connections sourceData.node sourceData.type <|
    if destinationData ∈ connectionsToCheck then lists
    else lists.set sourceData.index (some (connectionsToCheck ++ [destinationData]))

/-- The indices are enumerated before the first is taken out of the array: the connection
that moves up to the place of the one taken out is not looked at. -/
def spliceConnections (destinationData : Connection) : List Connection → List Connection
  | [] => []
  | [connection] => if connection = destinationData then [] else [connection]
  | connection :: next :: connections =>
    if connection = destinationData then next :: spliceConnections destinationData connections
    else connection :: spliceConnections destinationData (next :: connections)

def removeConnection (connections : IConnections) (sourceData destinationData : Connection) :
    IConnections :=
  match listsAt connections sourceData.node sourceData.type with
  | none => connections
  | some lists =>
    match lists[sourceData.index]? with
    | some (some list) =>
      setLists connections sourceData.node sourceData.type
        (lists.set sourceData.index (some (spliceConnections destinationData list)))
    | _ => connections

namespace IWorkflowDb

def addConnection (workflow : IWorkflowDb δ) (connection : Connection × Connection) :
    IWorkflowDb δ :=
  { workflow with
    connections := Canvas.addConnection workflow.connections connection.1 connection.2 }

def removeConnection (workflow : IWorkflowDb δ) (connection : Connection × Connection) :
    IWorkflowDb δ :=
  { workflow with
    connections := Canvas.removeConnection workflow.connections connection.1 connection.2 }

def deleteConnections (workflow : IWorkflowDb δ) (nodeName : String) : IWorkflowDb δ :=
  { workflow with connections := workflow.connections.delete nodeName }

end IWorkflowDb

theorem connectionsAt_setLists (connections : IConnections) (node : String)
    (type : NodeConnectionType) (lists : List (Option (List Connection))) (place : Connection) :
    connectionsAt (setLists connections node type lists) place =
      if place.node = node ∧ place.type = type then lists[place.index]?.join.getD []
      else connectionsAt connections place := by
  rw [connectionsAt, listsAt, setLists, OrderedMap.get?_set]
  by_cases hnode : node = place.node
  · rw [if_pos hnode, Option.bind_some, OrderedMap.get?_set]
    by_cases htype : type = place.type
    · rw [if_pos htype, if_pos ⟨hnode.symm, htype.symm⟩, Option.getD_some]
    · rw [if_neg htype, if_neg fun h => htype h.2.symm, connectionsAt, listsAt, hnode]
      cases connections.get? place.node <;> rfl
  · rw [if_neg hnode, if_neg fun h => hnode h.1.symm, connectionsAt, listsAt]

theorem connectionsAt_delete (connections : IConnections) (name : String) (place : Connection) :
    connectionsAt (connections.delete name) place =
      if place.node = name then [] else connectionsAt connections place := by
  rw [connectionsAt, listsAt, OrderedMap.get?_delete]
  by_cases h : name = place.node
  · rw [if_pos h, if_pos h.symm]
    rfl
  · rw [if_neg h, if_neg (Ne.symm h), connectionsAt, listsAt]

theorem getD_join_getElem?_append_replicate (lists : List (Option (List Connection))) (n i : ℕ) :
    (lists ++ List.replicate n (some []))[i]?.join.getD [] = lists[i]?.join.getD [] := by
  by_cases h : i < lists.length
  · rw [List.getElem?_append_left h]
  · rw [List.getElem?_append_right (Nat.le_of_not_lt h), List.getElem?_replicate,
      List.getElem?_eq_none (Nat.le_of_not_lt h)]
    split_ifs <;> rfl

theorem connectionsAt_addConnection (connections : IConnections) (e : Connection × Connection)
    (place : Connection) :
    connectionsAt (addConnection connections e.1 e.2) place =
      if place = e.1 ∧ e.2 ∉ connectionsAt connections place then
        connectionsAt connections place ++ [e.2]
      else connectionsAt connections place := by
  obtain ⟨⟨node, type, index⟩, destination⟩ := e
  obtain ⟨node', type', index'⟩ := place
  rw [addConnection, connectionsAt_setLists, getD_join_getElem?_append_replicate]
  by_cases hplace : node' = node ∧ type' = type
  · obtain ⟨rfl, rfl⟩ := hplace
    have hother := getD_join_getElem?_append_replicate
      ((listsAt connections node' type').getD [])
    rw [if_pos ⟨rfl, rfl⟩, ← connectionsAt.eq_def connections ⟨node', type', index⟩]
    split_ifs with hmem h h
    · obtain rfl : index' = index := congrArg Connection.index h.1
      exact absurd hmem h.2
    · exact hother _ _
    · obtain rfl : index' = index := congrArg Connection.index h.1
      rw [List.getElem?_set_self (by simp; omega)]
      rfl
    · have hne : index ≠ index' := fun hi => h ⟨by rw [hi], hi ▸ hmem⟩
      rw [List.getElem?_set_ne hne, hother]
      rfl
  · rw [if_neg hplace, if_neg fun h => hplace
      ⟨congrArg Connection.node h.1, congrArg Connection.type h.1⟩]

theorem spliceConnections_of_notMem {destination : Connection} {l : List Connection}
    (h : destination ∉ l) : spliceConnections destination l = l := by
  induction l using spliceConnections.induct destination with
  | case1 => rfl
  | case2 => simp at h
  | case3 connection hne => rw [spliceConnections, if_neg hne]
  | case4 next connections ih => simp at h
  | case5 connection next connections hne ih =>
    rw [spliceConnections, if_neg hne, ih fun hmem => h (List.mem_cons_of_mem _ hmem)]

theorem spliceConnections_eq_erase {destination : Connection} {l : List Connection}
    (h : l.Nodup) : spliceConnections destination l = l.erase destination := by
  induction l using spliceConnections.induct destination with
  | case1 => rfl
  | case2 => simp [spliceConnections]
  | case3 connection hne => simp [spliceConnections, hne]
  | case4 next connections ih =>
    have hnot : destination ∉ connections :=
      fun hmem => (List.nodup_cons.mp h).1 (List.mem_cons_of_mem _ hmem)
    rw [spliceConnections, if_pos rfl, spliceConnections_of_notMem hnot, List.erase_cons_head]
  | case5 connection next connections hne ih =>
    rw [spliceConnections, if_neg hne, ih h.of_cons]
    exact (List.erase_cons_tail (by simpa using hne)).symm

/-- There is nothing to remove, or the list is replaced by what the loop leaves of it. -/
theorem removeConnection_cases (connections : IConnections) (e : Connection × Connection) :
    connectionsAt connections e.1 = [] ∧ removeConnection connections e.1 e.2 = connections ∨
      ∃ lists list, listsAt connections e.1.node e.1.type = some lists ∧
        lists[e.1.index]? = some (some list) ∧
        removeConnection connections e.1 e.2 = setLists connections e.1.node e.1.type
          (lists.set e.1.index (some (spliceConnections e.2 list))) := by
  rw [removeConnection, connectionsAt]
  cases hlists : listsAt connections e.1.node e.1.type with
  | none => exact .inl ⟨rfl, rfl⟩
  | some lists =>
    dsimp only [Option.getD_some]
    cases hlist : lists[e.1.index]? with
    | none => exact .inl ⟨rfl, rfl⟩
    | some list =>
      cases list with
      | none => exact .inl ⟨rfl, rfl⟩
      | some list => exact .inr ⟨lists, list, rfl, hlist, rfl⟩

theorem connectionsAt_removeConnection {connections : IConnections} {e : Connection × Connection}
    (h : (connectionsAt connections e.1).Nodup) (place : Connection) :
    connectionsAt (removeConnection connections e.1 e.2) place =
      if place = e.1 then (connectionsAt connections place).erase e.2
      else connectionsAt connections place := by
  rcases removeConnection_cases connections e with ⟨hnil, hsame⟩ | ⟨lists, list, hlists, hlist, hset⟩
  · rw [hsame]
    split_ifs with hplace
    · rw [hplace, hnil]
      rfl
    · rfl
  · have hat : connectionsAt connections e.1 = list := by
      rw [connectionsAt, hlists, Option.getD_some, hlist]
      rfl
    obtain ⟨⟨node, type, index⟩, destination⟩ := e
    obtain ⟨node', type', index'⟩ := place
    rw [hset, connectionsAt_setLists, spliceConnections_eq_erase (hat ▸ h)]
    by_cases hplace : node' = node ∧ type' = type
    · obtain ⟨rfl, rfl⟩ := hplace
      rw [if_pos ⟨rfl, rfl⟩]
      by_cases hi : index = index'
      · subst hi
        obtain ⟨hlt, -⟩ := List.getElem?_eq_some_iff.mp hlist
        rw [if_pos rfl, List.getElem?_set_self hlt, hat]
        rfl
      · rw [List.getElem?_set_ne hi, if_neg fun h => hi (congrArg Connection.index h).symm,
          connectionsAt, hlists]
        rfl
    · rw [if_neg hplace, if_neg fun h => hplace
        ⟨congrArg Connection.node h, congrArg Connection.type h⟩]

/-! ### The set of the connections -/

section Ends
variable {connections : IConnections} {e e' : Connection × Connection}

theorem nodup_ends :
    (ends connections).Nodup ↔ ∀ place, (connectionsAt connections place).Nodup := by
  simp only [List.nodup_iff_count_le_one, count_ends]
  exact ⟨fun h place connection => h (place, connection), fun h e => h e.1 e.2⟩

theorem mem_ends_addConnection :
    e' ∈ ends (addConnection connections e.1 e.2) ↔ e' = e ∨ e' ∈ ends connections := by
  rw [mem_ends, mem_ends, connectionsAt_addConnection, Prod.ext_iff]
  split_ifs with h
  · rw [List.mem_append, List.mem_singleton, or_comm, h.1, eq_self_iff_true, true_and]
  · refine ⟨Or.inr, ?_⟩
    rintro (⟨hsource, hdestination⟩ | hmem)
    · rw [hdestination]
      exact not_not.mp fun hnot => h ⟨hsource, hnot⟩
    · exact hmem

theorem nodup_ends_addConnection (h : (ends connections).Nodup) :
    (ends (addConnection connections e.1 e.2)).Nodup := by
  rw [nodup_ends] at h ⊢
  intro place
  rw [connectionsAt_addConnection]
  split_ifs with hnew
  · exact (h place).append (List.nodup_singleton _) (List.disjoint_singleton.mpr hnew.2)
  · exact h place

theorem mem_ends_removeConnection (h : (ends connections).Nodup) :
    e' ∈ ends (removeConnection connections e.1 e.2) ↔ e' ≠ e ∧ e' ∈ ends connections := by
  rw [nodup_ends] at h
  rw [mem_ends, mem_ends, connectionsAt_removeConnection (h e.1), ne_eq, Prod.ext_iff]
  split_ifs with hplace
  · rw [(h e'.1).mem_erase_iff, hplace, eq_self_iff_true, true_and]
  · exact (and_iff_right fun heq => hplace heq.1).symm

theorem nodup_ends_removeConnection (h : (ends connections).Nodup) :
    (ends (removeConnection connections e.1 e.2)).Nodup := by
  rw [nodup_ends] at h ⊢
  intro place
  rw [connectionsAt_removeConnection (h e.1)]
  split_ifs
  · exact (h place).erase e.2
  · exact h place

theorem mem_ends_delete {name : String} :
    e ∈ ends (connections.delete name) ↔ e.1.node ≠ name ∧ e ∈ ends connections := by
  rw [mem_ends, mem_ends, connectionsAt_delete]
  split_ifs with h <;> simp [h]

theorem nodup_ends_delete (h : (ends connections).Nodup) (name : String) :
    (ends (connections.delete name)).Nodup := by
  rw [nodup_ends] at h ⊢
  intro place
  rw [connectionsAt_delete]
  split_ifs
  · exact List.nodup_nil
  · exact h place

end Ends

/-! ### The nodes -/

section Keyed
variable {α : Type*} {key : α → String} {l : List α} {k : String} {a : α}

theorem find?_key_eq_some (h : (l.map key).Nodup) :
    l.find? (fun a => decide (key a = k)) = some a ↔ a ∈ l ∧ key a = k := by
  constructor
  · intro hfind
    exact ⟨List.mem_of_find?_eq_some hfind, by simpa using List.find?_some hfind⟩
  · rintro ⟨ha, hk⟩
    have hsome : (l.find? fun a => decide (key a = k)).isSome :=
      List.find?_isSome.mpr ⟨a, ha, by simpa using hk⟩
    obtain ⟨a', hfind⟩ := Option.isSome_iff_exists.mp hsome
    have hk' : key a' = k := by simpa using List.find?_some hfind
    rw [hfind, List.inj_on_of_nodup_map h (List.mem_of_find?_eq_some hfind) ha (hk'.trans hk.symm)]

theorem mem_eraseP_key (h : (l.map key).Nodup) :
    a ∈ l.eraseP (fun a => decide (key a = k)) ↔ a ∈ l ∧ key a ≠ k := by
  induction l with
  | nil => simp
  | cons b l ih =>
    obtain ⟨hb, hl⟩ := List.nodup_cons.mp h
    by_cases hk : key b = k
    · rw [List.eraseP_cons_of_pos (by simpa using hk), List.mem_cons]
      constructor
      · exact fun ha => ⟨.inr ha, fun hka => hb (hk ▸ hka ▸ List.mem_map_of_mem ha)⟩
      · rintro ⟨rfl | ha, hne⟩
        · exact absurd hk hne
        · exact ha
    · rw [List.eraseP_cons_of_neg (by simpa using hk), List.mem_cons, List.mem_cons, ih hl]
      constructor
      · rintro (rfl | ha)
        · exact ⟨.inl rfl, hk⟩
        · exact ⟨.inr ha.1, ha.2⟩
      · rintro ⟨rfl | ha, hne⟩
        · exact .inl rfl
        · exact .inr ⟨ha, hne⟩

end Keyed

/-- The ids and names of the nodes are distinct, and no connection is listed twice. -/
structure IWorkflowDb.WellFormed (workflow : IWorkflowDb δ) : Prop where
  ids : (workflow.nodes.map INodeUi.id).Nodup
  names : (workflow.nodes.map INodeUi.name).Nodup
  connections : (ends workflow.connections).Nodup

section Nodes
variable {workflow : IWorkflowDb δ} {node node' : INodeUi δ}

theorem getNodeById_eq_some (h : workflow.WellFormed) {id : String} :
    workflow.getNodeById id = some node ↔ node ∈ workflow.nodes ∧ node.id = id :=
  find?_key_eq_some h.ids

theorem getNodeByName_eq_some (h : workflow.WellFormed) {name : String} :
    workflow.getNodeByName name = some node ↔ node ∈ workflow.nodes ∧ node.name = name := by
  rw [IWorkflowDb.getNodeByName, find?_key_eq_some (by simpa using h.names), List.mem_reverse]

theorem getNodeById_of_mem (h : workflow.WellFormed) (hnode : node ∈ workflow.nodes) :
    workflow.getNodeById node.id = some node :=
  (getNodeById_eq_some h).mpr ⟨hnode, rfl⟩

theorem getNodeByName_of_mem (h : workflow.WellFormed) (hnode : node ∈ workflow.nodes) :
    workflow.getNodeByName node.name = some node :=
  (getNodeByName_eq_some h).mpr ⟨hnode, rfl⟩

theorem mem_removeNode (h : workflow.WellFormed) :
    node' ∈ (workflow.removeNode node).nodes ↔ node' ∈ workflow.nodes ∧ node'.name ≠ node.name :=
  mem_eraseP_key h.names

theorem removeNodeById_of_mem (h : workflow.WellFormed) (hnode : node ∈ workflow.nodes) :
    workflow.removeNodeById node.id = workflow.removeNode node := by
  rw [IWorkflowDb.removeNodeById, getNodeById_of_mem h hnode]

end Nodes

namespace IWorkflowDb.WellFormed
variable {workflow : IWorkflowDb δ}

theorem addConnection (h : workflow.WellFormed) (e : Connection × Connection) :
    (workflow.addConnection e).WellFormed :=
  ⟨h.ids, h.names, nodup_ends_addConnection h.connections⟩

theorem removeConnection (h : workflow.WellFormed) (e : Connection × Connection) :
    (workflow.removeConnection e).WellFormed :=
  ⟨h.ids, h.names, nodup_ends_removeConnection h.connections⟩

theorem deleteConnections (h : workflow.WellFormed) (nodeName : String) :
    (workflow.deleteConnections nodeName).WellFormed :=
  ⟨h.ids, h.names, nodup_ends_delete h.connections nodeName⟩

theorem removeNode (h : workflow.WellFormed) (node : INodeUi δ) :
    (workflow.removeNode node).WellFormed :=
  ⟨h.ids.sublist (List.eraseP_sublist.map _), h.names.sublist (List.eraseP_sublist.map _),
    h.connections⟩

theorem addNode (h : workflow.WellFormed) {node : INodeUi δ}
    (hid : ∀ node' ∈ workflow.nodes, node'.id ≠ node.id)
    (hname : ∀ node' ∈ workflow.nodes, node'.name ≠ node.name) :
    (workflow.addNode node).WellFormed := by
  refine ⟨?_, ?_, h.connections⟩
  · rw [IWorkflowDb.addNode, List.map_append]
    exact h.ids.append (List.nodup_singleton _) (by simpa using hid)
  · rw [IWorkflowDb.addNode, List.map_append]
    exact h.names.append (List.nodup_singleton _) (by simpa using hname)

end IWorkflowDb.WellFormed

end N8n.Canvas
