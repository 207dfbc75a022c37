import N8n.Workflow.RenameNode
import Mathlib.Data.List.Perm.Basic
import Mathlib.Data.List.Forall2

/-!
# The tables of a renamed workflow

Renaming a node to a name that is not used gives the image of every table, and renaming it
back gives the tables again. The key of the node moves to the end of the table by source, so
the entries of an input in the table by destination may change their order.
-/

namespace N8n

namespace RenameNode

def renamed (currentName newName name : String) : String :=
  if name = currentName then newName else name

theorem renamed_ne {a b name : String} (hne : a ≠ b) : renamed a b name ≠ a := by
  rw [renamed]
  split_ifs with h
  · exact hne.symm
  · exact h

theorem renamed_renamed {a b name : String} (hname : name ≠ b) :
    renamed b a (renamed a b name) = name := by
  by_cases h : name = a
  · rw [renamed, renamed, if_pos h, if_pos rfl, h]
  · rw [renamed, renamed, if_neg h, if_neg hname]

theorem renamed_inj {a b name name' : String} (hname : name ≠ b) (hname' : name' ≠ b) :
    renamed a b name = renamed a b name' ↔ name = name' := by
  refine ⟨fun h => ?_, fun h => h ▸ rfl⟩
  rw [← renamed_renamed hname, h, renamed_renamed hname']

/-! ### Maps under the new name -/

section Maps
variable {α β γ : Type} {a b : String}

/-- The entries of one map are those of another one, each under what its name becomes. -/
structure Renamed (currentName newName : String) (R : α → β → Prop) (m : OrderedMap String α)
    (m' : OrderedMap String β) : Prop where
  moved : ∀ name, name ≠ newName →
    Option.Rel R (m.get? name) (m'.get? (renamed currentName newName name))
  absent : m'.get? currentName = none

/-- Two maps have related entries under every name. -/
def Matching (R : α → β → Prop) (m : OrderedMap String α) (m' : OrderedMap String β) : Prop :=
  ∀ name, Option.Rel R (m.get? name) (m'.get? name)

theorem rel_imp {R S : α → β → Prop} {x : Option α} {y : Option β} (h : Option.Rel R x y)
    (hrel : ∀ a b, x = some a → R a b → S a b) : Option.Rel S x y := by
  cases h with
  | none => exact .none
  | some h => exact .some (hrel _ _ rfl h)

theorem rel_map_left {R : β → γ → Prop} {f : α → β} {x : Option α} {y : Option γ} :
    Option.Rel R (x.map f) y ↔ Option.Rel (fun v v' => R (f v) v') x y := by
  cases x <;> cases y <;> simp

theorem Renamed.matching {R : α → β → Prop} {R' : β → γ → Prop} {m : OrderedMap String α}
    {m' : OrderedMap String β} {m'' : OrderedMap String γ} (h : Renamed a b R m m')
    (h' : Renamed b a R' m' m'') (hne : a ≠ b) (hb : m.get? b = none) :
    Matching (fun v v'' => ∃ v', R v v' ∧ R' v' v'') m m'' := by
  intro name
  by_cases hname : name = b
  · rw [hname, hb, h'.absent]
    exact .none
  · have hfirst := h.moved name hname
    have hsecond := h'.moved (renamed a b name) (renamed_ne hne)
    rw [renamed_renamed hname] at hsecond
    revert hfirst hsecond
    generalize m.get? name = x
    generalize m'.get? (renamed a b name) = y
    generalize m''.get? name = z
    intro hfirst hsecond
    cases hfirst with
    | none =>
      cases hsecond
      exact .none
    | some hv =>
      cases hsecond with
      | some hv' => exact .some ⟨_, hv, hv'⟩

theorem get?_moveKey {m : OrderedMap String α} {f : α → α} (hne : a ≠ b) (hb : m.get? b = none)
    {name : String} (hname : name ≠ b) :
    (WorkflowTables.moveKey a b f m).get? (renamed a b name) =
      (m.get? name).map (if name = a then f else id) := by
  rw [WorkflowTables.moveKey, renamed]
  cases hcurrent : m.get? a with
  | none =>
    dsimp only
    by_cases h : name = a
    · rw [if_pos h, hb, h, hcurrent, Option.map_none]
    · rw [if_neg h, if_neg h, Option.map_id_apply]
  | some v =>
    dsimp only
    by_cases h : name = a
    · rw [if_pos h, if_pos h, OrderedMap.get?_delete_of_ne hne, OrderedMap.get?_set_self, h,
        hcurrent, Option.map_some]
    · rw [if_neg h, if_neg h, OrderedMap.get?_delete_of_ne (Ne.symm h),
        OrderedMap.get?_set_of_ne (Ne.symm hname), Option.map_id_apply]

theorem get?_moveKey_self (m : OrderedMap String α) (f : α → α) :
    (WorkflowTables.moveKey a b f m).get? a = none := by
  rw [WorkflowTables.moveKey]
  cases hcurrent : m.get? a with
  | none => exact hcurrent
  | some v => exact OrderedMap.get?_delete_self _ _

theorem option_rel_map {f : α → β} {x : Option α} {y : Option β} :
    Option.Rel (fun v v' => v' = f v) x y ↔ y = x.map f := by
  constructor
  · intro h
    cases h with
    | none => rfl
    | some h => rw [h, Option.map_some]
  · rintro rfl
    cases x with
    | none => exact .none
    | some v => exact .some rfl

theorem Renamed.entries_perm {f : α → β} {m : OrderedMap String α} {m' : OrderedMap String β}
    (h : Renamed a b (fun v v' => v' = f v) m m') (hne : a ≠ b) (hb : m.get? b = none) :
    m'.entries.Perm (m.entries.map fun e => (renamed a b e.1, f e.2)) := by
  have hkey : ∀ {name v}, m.get? name = some v → name ≠ b := by
    rintro name v hv rfl
    rw [hb] at hv
    cases hv
  have hmoved : ∀ {name}, name ≠ b → m'.get? (renamed a b name) = (m.get? name).map f :=
    fun hname => option_rel_map.mp (h.moved _ hname)
  refine (List.perm_ext_iff_of_nodup (List.Nodup.of_map _ m'.nodup) ?_).mpr fun e => ?_
  · refine List.Nodup.of_map Prod.fst ?_
    rw [List.map_map]
    have hkeys : (m.entries.map fun e => renamed a b e.1) = m.keys.map (renamed a b) := by
      rw [OrderedMap.keys, List.map_map]
      rfl
    refine hkeys ▸ m.keys_nodup.map_on fun name hname name' hname' heq => ?_
    have hused : ∀ {name}, name ∈ m.keys → name ≠ b := by
      rintro name hname rfl
      exact OrderedMap.get?_eq_none.mp hb hname
    exact (renamed_inj (hused hname) (hused hname')).mp heq
  · obtain ⟨k, v⟩ := e
    rw [← OrderedMap.get?_eq_some, List.mem_map]
    constructor
    · intro hv
      have hk : k ≠ a := by
        rintro rfl
        rw [h.absent] at hv
        cases hv
      rw [← renamed_renamed (a := b) hk, hmoved (renamed_ne hne.symm)] at hv
      obtain ⟨w, hw, rfl⟩ := Option.map_eq_some_iff.mp hv
      exact ⟨_, OrderedMap.get?_eq_some.mp hw, Prod.ext (renamed_renamed hk) rfl⟩
    · rintro ⟨e, he, heq⟩
      have hv := OrderedMap.get?_eq_some.mpr he
      rw [← (Prod.mk.inj heq).1, ← (Prod.mk.inj heq).2, hmoved (hkey hv), hv, Option.map_some]

end Maps

/-! ### The ends of the connections -/

section Ends
variable {a b : String} {connections : IConnections}

def renamedEnds (currentName newName : String) (e : Connection × Connection) :
    Connection × Connection :=
  (renameTarget currentName newName e.1, renameTarget currentName newName e.2)

theorem renameTarget_eq (connection : Connection) :
    renameTarget a b connection = { connection with node := renamed a b connection.node } := by
  rw [renameTarget, renamed]
  split_ifs <;> rfl

/-- The connections that are listed under one node. -/
def endsOf (node : String) (byType : ByType) : List (Connection × Connection) :=
  byType.entries.flatMap fun (type, lists) =>
    lists.zipIdx.flatMap fun (list, index) =>
      (list.getD []).map fun connection => (⟨node, type, index⟩, connection)

theorem ends_eq (connections : IConnections) :
    ends connections = connections.entries.flatMap fun e => endsOf e.1 e.2 := rfl

theorem endsOf_renamed (node : String) (byType : ByType) :
    endsOf (renamed a b node) (renameTargets a b byType) =
      (endsOf node byType).map (renamedEnds a b) := by
  simp only [endsOf, renameTargets, OrderedMap.mapValues, List.flatMap_map, List.map_flatMap,
    List.zipIdx_map]
  refine List.flatMap_congr fun e _ => List.flatMap_congr fun l _ => ?_
  obtain ⟨list, index⟩ := l
  cases list with
  | none => rfl
  | some list => simp [renamedEnds, renameTarget_eq]

theorem renamed_renamedConnections (hne : a ≠ b) (hb : connections.get? b = none) :
    Renamed a b (fun byType byType' => byType' = renameTargets a b byType) connections
      (WorkflowTables.renamedConnections a b connections) where
  moved name hname := by
    rw [option_rel_map, WorkflowTables.renamedConnections, OrderedMap.get?_mapValues,
      get?_moveKey hne hb hname, ite_self, Option.map_id_apply]
  absent := by
    rw [WorkflowTables.renamedConnections, OrderedMap.get?_mapValues, get?_moveKey_self,
      Option.map_none]

theorem ends_renamedConnections_perm (hne : a ≠ b) (hb : connections.get? b = none) :
    (ends (WorkflowTables.renamedConnections a b connections)).Perm
      ((ends connections).map (renamedEnds a b)) := by
  have hperm := (renamed_renamedConnections hne hb).entries_perm hne hb
  refine (hperm.flatMap_right fun e => endsOf e.1 e.2).trans (List.Perm.of_eq ?_)
  rw [List.flatMap_map, ends_eq, List.map_flatMap]
  exact List.flatMap_congr fun e _ => endsOf_renamed e.1 e.2

theorem mem_keys_of_mem_ends {e : Connection × Connection} (he : e ∈ ends connections) :
    e.1.node ∈ connections.keys := by
  rw [ends_eq] at he
  obtain ⟨entry, hentry, he⟩ := List.mem_flatMap.mp he
  obtain ⟨_, -, he⟩ := List.mem_flatMap.mp he
  obtain ⟨_, -, he⟩ := List.mem_flatMap.mp he
  obtain ⟨_, -, rfl⟩ := List.mem_map.mp he
  exact List.mem_map.mpr ⟨entry, hentry, rfl⟩

theorem renameTarget_renameTarget {connection : Connection} (h : connection.node ≠ b) :
    renameTarget b a (renameTarget a b connection) = connection := by
  rw [renameTarget_eq, renameTarget_eq]
  dsimp only
  rw [renamed_renamed h]

theorem renamedEnds_renamedEnds {es : List (Connection × Connection)}
    (h : ∀ e ∈ es, e.1.node ≠ b ∧ e.2.node ≠ b) :
    (es.map (renamedEnds a b)).map (renamedEnds b a) = es := by
  rw [List.map_map]
  refine (List.map_congr_left fun e he => ?_).trans (List.map_id es)
  rw [Function.comp_apply, renamedEnds, renamedEnds, renameTarget_renameTarget (h e he).1,
    renameTarget_renameTarget (h e he).2]
  rfl

theorem renameTargets_renameTargets (node : String) {byType : ByType}
    (h : ∀ e ∈ endsOf node byType, e.2.node ≠ b) :
    renameTargets b a (renameTargets a b byType) = byType := by
  apply OrderedMap.ext
  simp only [renameTargets, OrderedMap.mapValues, List.map_map]
  refine (List.map_congr_left fun entry hentry => ?_).trans (List.map_id _)
  refine Prod.ext rfl ?_
  simp only [Function.comp_apply, List.map_map, id_eq]
  refine (List.map_congr_left fun list hlist => ?_).trans (List.map_id _)
  cases list with
  | none => rfl
  | some list =>
    simp only [Function.comp_apply, Option.map_some, List.map_map, id_eq]
    refine congrArg some ((List.map_congr_left fun connection hconnection => ?_).trans
      (List.map_id _))
    obtain ⟨index, hindex⟩ := List.mem_iff_getElem?.mp hlist
    refine renameTarget_renameTarget (h (⟨node, entry.1, index⟩, connection) ?_)
    refine List.mem_flatMap.mpr ⟨entry, hentry, ?_⟩
    refine List.mem_flatMap.mpr ⟨_, List.mk_mem_zipIdx_iff_getElem?.mpr hindex, ?_⟩
    exact List.mem_map.mpr ⟨connection, hconnection, rfl⟩

end Ends

/-! ### The table by destination -/

section Destination
variable {a b : String} {es es' : List (Connection × Connection)}

/-- The same entries at every input, in any order. -/
def SameInputs (lists lists' : List (Option (List Connection))) : Prop :=
  List.Forall₂ (Option.Rel List.Perm) lists lists'

def SameByType (byType byType' : ByType) : Prop :=
  ∀ type, Option.Rel SameInputs (byType.get? type) (byType'.get? type)

theorem listLength_perm (h : es.Perm es') : listLength es = listLength es' :=
  (h.map _).foldr_eq 0

theorem inputLists_perm (h : es.Perm es') (node : String) (type : NodeConnectionType) :
    Option.Rel SameInputs (inputLists es node type) (inputLists es' node type) := by
  have hgoes := h.filter (goesTo node type)
  rw [inputLists, inputLists]
  generalize es.filter (goesTo node type) = es at hgoes
  generalize es'.filter (goesTo node type) = es' at hgoes
  rw [hgoes.isEmpty_eq, listLength_perm hgoes]
  split_ifs
  · exact .none
  · refine .some (List.forall₂_map_left_iff.mpr (List.forall₂_map_right_iff.mpr ?_))
    refine List.forall₂_same.mpr fun index _ => .some ?_
    exact (hgoes.filter _).map _

theorem listLength_renamed (es : List (Connection × Connection)) :
    listLength (es.map (renamedEnds a b)) = listLength es := by
  rw [listLength, listLength, List.map_map]
  refine congrArg _ (List.map_congr_left fun e _ => ?_)
  simp [renamedEnds, renameTarget_eq]

theorem inputLists_renamed (hes : ∀ e ∈ es, e.2.node ≠ b) {node : String} (hnode : node ≠ b)
    (type : NodeConnectionType) :
    inputLists (es.map (renamedEnds a b)) (renamed a b node) type =
      (inputLists es node type).map (List.map (Option.map (List.map (renameTarget a b)))) := by
  have hgoes : (es.map (renamedEnds a b)).filter (goesTo (renamed a b node) type) =
      (es.filter (goesTo node type)).map (renamedEnds a b) := by
    rw [List.filter_map]
    refine congrArg _ (List.filter_congr fun e he => ?_)
    simp [goesTo, renamedEnds, renameTarget_eq, renamed_inj (hes e he) hnode]
  rw [inputLists, inputLists, hgoes]
  generalize es.filter (goesTo node type) = es
  rw [List.isEmpty_map, listLength_renamed]
  split_ifs
  · rfl
  · rw [Option.map_some, List.map_map]
    refine congrArg some (List.map_congr_left fun index _ => ?_)
    have hindex : ∀ e ∈ es, decide ((renamedEnds a b e).2.index = index) =
        decide (e.2.index = index) := fun e _ => by simp [renamedEnds, renameTarget_eq]
    simp only [inputList, Function.comp_apply, Option.map_some, List.filter_map, List.map_map]
    rw [List.filter_congr (q := fun e => decide (e.2.index = index)) hindex]
    refine congrArg some (List.map_congr_left fun e _ => rfl)

theorem rel_of_listsAt {R : List (Option (List Connection)) → List (Option (List Connection)) → Prop}
    {connections connections' : IConnections} {node node' : String}
    (hkey : (connections.get? node).isSome = (connections'.get? node').isSome)
    (hlists : ∀ type, Option.Rel R (listsAt connections node type)
      (listsAt connections' node' type)) :
    Option.Rel (fun byType byType' => ∀ type, Option.Rel R (byType.get? type) (byType'.get? type))
      (connections.get? node) (connections'.get? node') := by
  simp only [listsAt] at hlists
  cases hget : connections.get? node with
  | none =>
    rw [hget, Option.isSome_none] at hkey
    rw [Option.isSome_eq_false_iff.mp hkey.symm |> Option.isNone_iff_eq_none.mp]
    exact .none
  | some byType =>
    rw [hget, Option.isSome_some] at hkey
    obtain ⟨byType', hget'⟩ := Option.isSome_iff_exists.mp hkey.symm
    rw [hget, hget'] at hlists
    rw [hget']
    exact .some hlists

theorem matching_of_perm {connections connections' : IConnections}
    (h : (ends connections).Perm (ends connections')) :
    Matching SameByType (getConnectionsByDestination connections)
      (getConnectionsByDestination connections') := by
  intro name
  rw [getConnectionsByDestination_eq, getConnectionsByDestination_eq]
  refine rel_of_listsAt ?_ fun type => ?_
  · rw [isSome_get?_foldl, isSome_get?_foldl]
    exact h.any_eq
  · rw [listsAt_foldl, listsAt_foldl]
    exact inputLists_perm h name type

theorem renamed_getConnectionsByDestination {connections connections' : IConnections} (hne : a ≠ b)
    (h : (ends connections').Perm ((ends connections).map (renamedEnds a b)))
    (hb : ∀ e ∈ ends connections, e.2.node ≠ b) :
    Renamed a b (fun byType => SameByType (renameTargets a b byType))
      (getConnectionsByDestination connections) (getConnectionsByDestination connections') where
  moved name hname := by
    rw [getConnectionsByDestination_eq, getConnectionsByDestination_eq]
    have hlists : ∀ type, Option.Rel (fun lists lists' =>
        SameInputs (lists.map (Option.map (List.map (renameTarget a b)))) lists')
        (listsAt ((ends connections).foldl addEnds .empty) name type)
        (listsAt ((ends connections').foldl addEnds .empty) (renamed a b name) type) := by
      intro type
      rw [listsAt_foldl, listsAt_foldl, ← rel_map_left, ← inputLists_renamed hb hname]
      exact inputLists_perm h.symm _ _
    refine rel_imp (rel_of_listsAt ?_ hlists) fun byType byType' _ hsame type => ?_
    · rw [isSome_get?_foldl, isSome_get?_foldl, h.any_eq, List.any_map, Bool.eq_iff_iff,
        List.any_eq_true, List.any_eq_true]
      refine exists_congr fun e => and_congr_right fun he => ?_
      simp [renamedEnds, renameTarget_eq, renamed_inj (hb e he) hname]
    · rw [renameTargets, OrderedMap.get?_mapValues, rel_map_left]
      exact hsame type
  absent := by
    rw [getConnectionsByDestination_eq, ← Option.not_isSome_iff_eq_none, isSome_get?_foldl,
      h.any_eq, List.any_map, List.any_eq_true]
    rintro ⟨e, -, he⟩
    simp only [Function.comp_apply, decide_eq_true_eq, renamedEnds, renameTarget_eq] at he
    exact renamed_ne hne he

end Destination
end RenameNode

namespace WorkflowTables
open RenameNode

structure Unused (workflow : WorkflowTables) (name : String) : Prop where
  node : workflow.nodes.get? name = none
  source : workflow.connectionsBySourceNode.get? name = none
  destination : workflow.connectionsByDestinationNode.get? name = none

/-- Every table is the image of the one before, and those of the connections are transposes. -/
structure IsRenamed (currentName newName : String) (workflow workflow' : WorkflowTables) :
    Prop where
  nodes : Renamed currentName newName
    (fun node node' => node'.toINode =
      { node.toINode with name := renamed currentName newName node.name })
    workflow.nodes workflow'.nodes
  connectionsBySourceNode : Renamed currentName newName
    (fun byType byType' => byType' = renameTargets currentName newName byType)
    workflow.connectionsBySourceNode workflow'.connectionsBySourceNode
  connectionsByDestinationNode : Renamed currentName newName
    (fun byType => SameByType (renameTargets currentName newName byType))
    workflow.connectionsByDestinationNode workflow'.connectionsByDestinationNode
  transposed : ∀ source destination,
    (connectionsAt workflow'.connectionsByDestinationNode destination).count source =
      (connectionsAt workflow'.connectionsBySourceNode source).count destination

/-- The same nodes up to their parameters, and the same connections. -/
structure SameGraph (workflow workflow' : WorkflowTables) : Prop where
  nodes : Matching (fun node node' => node'.toINode = node.toINode) workflow.nodes workflow'.nodes
  connectionsBySourceNode : Matching (fun byType byType' => byType' = byType)
    workflow.connectionsBySourceNode workflow'.connectionsBySourceNode
  connectionsByDestinationNode : Matching SameByType
    workflow.connectionsByDestinationNode workflow'.connectionsByDestinationNode

variable {toLowerCase : String → String} {workflow workflow' workflow'' : WorkflowTables}
  {a b : String}

theorem Unused.ends_ne (h : workflow.Unused b) :
    ∀ e ∈ ends workflow.connectionsBySourceNode, e.1.node ≠ b ∧ e.2.node ≠ b := by
  intro e he
  constructor
  · rintro rfl
    exact OrderedMap.get?_eq_none.mp h.source (mem_keys_of_mem_ends he)
  · intro heq
    have hdestination := h.destination
    rw [workflow.byDestination, getConnectionsByDestination_eq, ← Option.not_isSome_iff_eq_none,
      isSome_get?_foldl, List.any_eq_true] at hdestination
    exact hdestination ⟨e, he, decide_eq_true heq⟩

theorem renamed_renamedNodes {nodes : OrderedMap String NodeWithParameters}
    (hkeyed : nodes.Keyed fun node => node.name) (hne : a ≠ b) (hb : nodes.get? b = none) :
    Renamed a b
      (fun node node' => node'.toINode = { node.toINode with name := renamed a b node.name })
      nodes (renamedNodes a b nodes) where
  moved name hname := by
    rw [renamedNodes, OrderedMap.get?_mapValues, get?_moveKey hne hb hname]
    cases hget : nodes.get? name with
    | none => exact .none
    | some node =>
      rw [Option.map_some, Option.map_some, Option.rel_some_some]
      obtain rfl := hkeyed name node hget
      rw [renamed]
      split_ifs <;> rfl
  absent := by
    rw [renamedNodes, OrderedMap.get?_mapValues, get?_moveKey_self, Option.map_none]

theorem renameNode_ok (hrestricted : isRestricted toLowerCase b = false) (hne : a ≠ b)
    (hb : workflow.Unused b) :
    ∃ workflow', workflow.renameNode toLowerCase a b = .ok workflow' ∧
      workflow'.connectionsBySourceNode =
        renamedConnections a b workflow.connectionsBySourceNode ∧
      workflow.IsRenamed a b workflow' := by
  rw [renameNode, hrestricted]
  refine ⟨_, if_neg Bool.false_ne_true, rfl, ?_⟩
  constructor
  · exact renamed_renamedNodes workflow.keyed hne hb.node
  · exact renamed_renamedConnections hne hb.source
  · dsimp only
    rw [workflow.byDestination]
    exact renamed_getConnectionsByDestination hne (ends_renamedConnections_perm hne hb.source)
      fun e he => (hb.ends_ne e he).2
  · exact count_connectionsAt _

theorem IsRenamed.unused (h : workflow.IsRenamed a b workflow') : workflow'.Unused a :=
  ⟨h.nodes.absent, h.connectionsBySourceNode.absent, h.connectionsByDestinationNode.absent⟩

theorem sameGraph_of_isRenamed (hne : a ≠ b) (hb : workflow.Unused b)
    (h : workflow.IsRenamed a b workflow') (h' : workflow'.IsRenamed b a workflow'')
    (hends : (ends workflow''.connectionsBySourceNode).Perm
      (ends workflow.connectionsBySourceNode)) :
    workflow.SameGraph workflow'' where
  nodes name := by
    refine rel_imp (h.nodes.matching h'.nodes hne hb.node name) ?_
    rintro node node'' hnode ⟨node', hfirst, hsecond⟩
    have hname : node.name ≠ b := by
      intro heq
      have hkey : name = node.name := workflow.keyed name node hnode
      rw [hkey, heq, hb.node] at hnode
      cases hnode
    rw [hsecond, hfirst]
    dsimp only
    rw [renamed_renamed hname]
  connectionsBySourceNode name := by
    refine rel_imp (h.connectionsBySourceNode.matching h'.connectionsBySourceNode hne hb.source
      name) ?_
    rintro byType _ hbyType ⟨_, rfl, rfl⟩
    refine renameTargets_renameTargets name fun e he => (hb.ends_ne e ?_).2
    rw [ends_eq]
    exact List.mem_flatMap.mpr ⟨_, OrderedMap.get?_eq_some.mp hbyType, he⟩
  connectionsByDestinationNode := by
    rw [workflow.byDestination, workflow''.byDestination]
    exact matching_of_perm hends.symm

section Examples

def asciiLowerCase (s : String) : String := String.ofList (s.toList.map Char.toLower)

def plainNode (name : String) : NodeWithParameters where
  name := name
  type := "n8n-nodes-base.set"
  parameters := []

/-- `A` and `C` are both connected to the only input of `D`. -/
def joined : WorkflowTables :=
  create [plainNode "A", plainNode "C", plainNode "D"]
    ((OrderedMap.empty.set "A" (OrderedMap.empty.set .main [some [⟨"D", .main, 0⟩]])).set
      "C" (OrderedMap.empty.set .main [some [⟨"D", .main, 0⟩]]))

theorem joined_unused : joined.Unused "B" := ⟨by decide, by decide, by decide⟩

def inputOfD (workflow : WorkflowTables) : List String :=
  (connectionsAt workflow.connectionsByDestinationNode ⟨"D", .main, 0⟩).map Connection.node

end Examples

end WorkflowTables
end N8n
