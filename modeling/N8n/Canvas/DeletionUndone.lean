import N8n.Canvas.SameWorkflow

/-!
# Undoing the deletion of nodes

A command takes back what its step did only if the step did something, and a step is
taken back only if its command is in the group. Where each step of a deletion records
its command exactly when it changes the connections, the group leads from the workflow
before to the workflow after, and back.
-/

namespace N8n.Canvas

open Runs (EveryStep trace)
open UndoGroups (Records Leads)

variable {δ : Type}

section Recorded
variable (isConnectionAllowed : INodeUi δ → INodeUi δ → Connection → Connection → Bool)

/-- The command of a bridge is recorded exactly when the bridge is a new connection. -/
def BridgeRecorded (editor : Editor δ) (e : Connection × Connection) : Prop :=
  ∀ source ∈ editor.state.getNodeByName e.1.node, ∀ target ∈ editor.state.getNodeByName e.2.node,
    source.id ≠ "" ∧ target.id ≠ "" →
      (alreadyIn (.addConnection e) editor = false ↔
        isConnectionAllowed source target e.1 e.2 = true ∧ e ∉ ends editor.state.connections)

/-- The command of a removal is recorded exactly when the connection is there. -/
def RemovalRecorded (targetNode : INodeUi δ) (editor : Editor δ) (e : Connection × Connection) :
    Prop :=
  ∀ source ∈ editor.state.getNodeByName e.1.node, ∀ target ∈ editor.state.getNodeByName e.2.node,
    target.id = targetNode.id ∨ source.name = targetNode.name →
      (alreadyIn (.removeConnection e) editor = false ↔ e ∈ ends editor.state.connections)

def RemovalsRecorded (targetNode : INodeUi δ) (editor : Editor δ) : Prop :=
  EveryStep (RemovalRecorded targetNode) editor
    (trace (deleteConnectionOf true targetNode) editor (ends editor.state.connections))

/-- Each step of the deletion of a node is recorded, and no connection from the node leads to a
node that is missing. -/
def DeletionRecorded (editor : Editor δ) (id : String) : Prop :=
  ∀ node ∈ editor.state.getNodeById id,
    EveryStep (BridgeRecorded isConnectionAllowed) editor
        (trace (connectAdjacent isConnectionAllowed true) editor
          (adjacentConnections editor.state.connections node.name)) ∧
      RemovalsRecorded node (connectAdjacentNodes isConnectionAllowed true id editor) ∧
      ∀ e ∈ ends editor.state.connections, e.1.node = node.name →
        (editor.state.getNodeByName e.2.node).isSome = true

/-- Undoing the deletion gives back the workflow, and redoing it then the workflow after the
deletion. -/
def DeletionUndone (ids : List String) (workflow : IWorkflowDb δ) : Prop :=
  let deleted := deleteNodes isConnectionAllowed ids workflow
  let undone := undo isConnectionAllowed deleted.commands deleted.state
  SameWorkflow workflow undone ∧
    SameWorkflow deleted.state (redo isConnectionAllowed deleted.commands undone)

instance (editor : Editor δ) (e : Connection × Connection) :
    Decidable (BridgeRecorded isConnectionAllowed editor e) :=
  inferInstanceAs (Decidable (∀ source ∈ _, ∀ target ∈ _, _ ∧ _ → (_ ↔ _ ∧ _)))

instance (targetNode : INodeUi δ) (editor : Editor δ) (e : Connection × Connection) :
    Decidable (RemovalRecorded targetNode editor e) :=
  inferInstanceAs (Decidable (∀ source ∈ _, ∀ target ∈ _, _ ∨ _ → (_ ↔ _)))

instance (targetNode : INodeUi δ) (editor : Editor δ) :
    Decidable (RemovalsRecorded targetNode editor) :=
  inferInstanceAs (Decidable (EveryStep (RemovalRecorded targetNode) _ _))

instance (editor : Editor δ) (id : String) :
    Decidable (DeletionRecorded isConnectionAllowed editor id) :=
  inferInstanceAs (Decidable (∀ node ∈ editor.state.getNodeById id,
    EveryStep (BridgeRecorded isConnectionAllowed) _ _ ∧ RemovalsRecorded node _ ∧
      ∀ e ∈ ends _, _ → _))

end Recorded

section Steps
variable {isConnectionAllowed : INodeUi δ → INodeUi δ → Connection → Connection → Bool}
  {workflow : IWorkflowDb δ} {source target node : INodeUi δ} {e : Connection × Connection}

theorem revertCreateConnection_of_names (hw : workflow.WellFormed)
    (hsource : workflow.getNodeByName e.1.node = some source)
    (htarget : workflow.getNodeByName e.2.node = some target) :
    revertCreateConnection e workflow = workflow.removeConnection e := by
  rw [revertCreateConnection, hsource, htarget]
  dsimp only
  rw [deleteConnection_of_names hw hsource htarget, track_state]

theorem leads_addConnection (hw : workflow.WellFormed)
    (hsource : workflow.getNodeByName e.1.node = some source)
    (htarget : workflow.getNodeByName e.2.node = some target)
    (he : e ∉ ends workflow.connections) :
    Leads (Command.revert isConnectionAllowed) Command.getReverseCommand SameWorkflow workflow
      [.addConnection e] (workflow.addConnection e) := by
  refine .single (fun t ht => ?_) fun t ht => ht.addConnection e
  have hname := ht.getNodeByName (hw.addConnection e)
  rw [Command.revert, revertCreateConnection_of_names ht.wellFormed
    ((hname _).trans hsource) ((hname _).trans htarget)]
  exact (SameWorkflow.removeConnection_addConnection hw he).trans
    (ht.removeConnection (hw.addConnection e) e)

theorem leads_removeConnection (hw : workflow.WellFormed)
    (hsource : workflow.getNodeByName e.1.node = some source)
    (htarget : workflow.getNodeByName e.2.node = some target)
    (he : e ∈ ends workflow.connections) :
    Leads (Command.revert isConnectionAllowed) Command.getReverseCommand SameWorkflow workflow
      [.removeConnection e] (workflow.removeConnection e) := by
  refine .single (fun t ht => ?_) fun t ht => ?_
  · exact (SameWorkflow.addConnection_removeConnection hw he).trans (ht.addConnection e)
  · have hname := ht.getNodeByName hw
    rw [Command.getReverseCommand, Command.revert, revertCreateConnection_of_names ht.wellFormed
      ((hname _).trans hsource) ((hname _).trans htarget)]
    exact ht.removeConnection hw e

end Steps

/-! ### The removal of a node without connections -/

section Node
variable {isConnectionAllowed : INodeUi δ → INodeUi δ → Connection → Connection → Bool}
  {trackHistory : Bool} {workflow : IWorkflowDb δ} {editor : Editor δ} {node : INodeUi δ}

theorem deleteNode_eq (hw : editor.state.WellFormed) (hnode : node ∈ editor.state.nodes) :
    deleteNode isConnectionAllowed trackHistory node.id editor =
      let connected := (adjacentConnections editor.state.connections node.name).foldl
        (connectAdjacent isConnectionAllowed trackHistory) editor
      let disconnected := (ends connected.state.connections).foldl
        (deleteConnectionOf trackHistory node) connected
      track trackHistory (.removeNode node)
        { disconnected with
          state := (disconnected.state.deleteConnections node.name).removeNode node } := by
  rw [deleteNode, connectAdjacentNodes, getNodeById_of_mem hw hnode]
  dsimp only
  obtain ⟨hw', hnodes, -⟩ := foldl_connectAdjacent isConnectionAllowed trackHistory hw
    (adjacentConnections editor.state.connections node.name)
  set connected := (adjacentConnections editor.state.connections node.name).foldl
    (connectAdjacent isConnectionAllowed trackHistory) editor
  rw [← hnodes] at hnode
  obtain ⟨hw'', hnodes', -⟩ := foldl_deleteConnectionOf trackHistory node hw'
    (ends connected.state.connections)
  rw [deleteConnectionsByNodeId, getNodeById_of_mem hw' hnode]
  dsimp only at hnodes' hw'' ⊢
  rw [← hnodes'] at hnode
  generalize (ends connected.state.connections).foldl (deleteConnectionOf trackHistory node)
    connected = disconnected at hnode hw'' ⊢
  rw [removeNodeById_of_mem (hw''.deleteConnections _) hnode]

/-- A node without connections to other nodes; those from nodes that are missing do not count. -/
structure Isolated (workflow : IWorkflowDb δ) (node : INodeUi δ) : Prop where
  mem : node ∈ workflow.nodes
  outgoing : ∀ e ∈ ends workflow.connections, e.1.node ≠ node.name
  untouched : ∀ e ∈ ends workflow.connections, ¬ Touches workflow node e

theorem Isolated.of_same (hw : workflow.WellFormed) (h : Isolated workflow node)
    {workflow' : IWorkflowDb δ} (hsame : SameWorkflow workflow workflow') :
    Isolated workflow' node where
  mem := (hsame.nodes node).mpr h.mem
  outgoing e he := h.outgoing e ((hsame.connections e).mp he)
  untouched e he := by
    rw [Touches]
    simp only [hsame.getNodeByName hw]
    exact h.untouched e ((hsame.connections e).mp he)

theorem adjacentConnections_eq_nil {connections : IConnections} {name : String}
    (h : ∀ e ∈ ends connections, e.1.node ≠ name) : adjacentConnections connections name = [] := by
  have hnone : ∀ type, connectionsAt connections ⟨name, type, 0⟩ = [] := fun type =>
    List.eq_nil_iff_forall_not_mem.mpr fun destination hmem =>
      h (⟨name, type, 0⟩, destination) (mem_ends.mpr hmem) rfl
  simp [adjacentConnections, hnone]

variable (isConnectionAllowed trackHistory editor) in
theorem Isolated.deleteNode (hw : editor.state.WellFormed) (h : Isolated editor.state node) :
    SameWorkflow ((editor.state.deleteConnections node.name).removeNode node)
      (Canvas.deleteNode isConnectionAllowed trackHistory node.id editor).state := by
  rw [deleteNode_eq hw h.mem, adjacentConnections_eq_nil h.outgoing, track_state]
  obtain ⟨hw', hnodes, hmem⟩ := foldl_deleteConnectionOf trackHistory node hw
    (ends editor.state.connections)
  refine ⟨(hw'.deleteConnections _).removeNode node, fun node' => ?_, fun e => ?_⟩
  · rw [mem_removeNode (hw.deleteConnections _)]
    refine (mem_removeNode (hw'.deleteConnections _)).trans ?_
    exact and_congr_left fun _ => iff_of_eq (congrArg (node' ∈ ·) hnodes)
  · refine mem_ends_delete.trans ((and_congr_right fun _ => (hmem e).trans ?_).trans
      mem_ends_delete.symm)
    exact and_iff_left_of_imp fun he hand => h.untouched e he hand.2

/-- A node that was removed is added to nodes that are the others. -/
theorem addNode_removeNode (hw : workflow.WellFormed) (hnode : node ∈ workflow.nodes)
    {t : IWorkflowDb δ} (ht : t.WellFormed)
    (hnodes : ∀ node', node' ∈ t.nodes ↔ node' ∈ (workflow.removeNode node).nodes) :
    (t.addNode node).WellFormed ∧
      ∀ node', node' ∈ (t.addNode node).nodes ↔ node' ∈ workflow.nodes := by
  have hmem : ∀ node', node' ∈ t.nodes ↔ node' ∈ workflow.nodes ∧ node'.name ≠ node.name :=
    fun node' => (hnodes node').trans (mem_removeNode hw)
  have hid : ∀ node' ∈ t.nodes, node'.id ≠ node.id := by
    intro node' hnode' heq
    obtain ⟨hmem', hne⟩ := (hmem node').mp hnode'
    exact hne (congrArg INodeUi.name (List.inj_on_of_nodup_map hw.ids hmem' hnode heq))
  refine ⟨ht.addNode hid fun node' hnode' => ((hmem node').mp hnode').2, fun node' => ?_⟩
  refine List.mem_append.trans ?_
  rw [hmem, List.mem_singleton]
  constructor
  · rintro (⟨hmem', -⟩ | rfl)
    · exact hmem'
    · exact hnode
  · intro hmem'
    by_cases heq : node' = node
    · exact .inr heq
    · exact .inl ⟨hmem', fun hname => heq (List.inj_on_of_nodup_map hw.names hmem' hnode hname)⟩

theorem leads_removeNode (hw : workflow.WellFormed) (h : Isolated workflow node) :
    Leads (Command.revert isConnectionAllowed) Command.getReverseCommand SameWorkflow workflow
      [.removeNode node] ((workflow.deleteConnections node.name).removeNode node) := by
  refine .single (fun t ht => ?_) fun t ht => ?_
  · obtain ⟨ht', hnodes⟩ := addNode_removeNode hw h.mem ht.wellFormed ht.nodes
    exact ⟨ht', hnodes, fun e => (ht.connections e).trans
      (mem_ends_delete.trans (and_iff_right_of_imp (h.outgoing e)))⟩
  · have hisolated := h.of_same hw ht
    have hname := getNodeByName_of_mem ht.wellFormed hisolated.mem
    rw [Command.getReverseCommand, Command.revert, revertAddNode, hname]
    refine SameWorkflow.trans ⟨?_, fun node' => ?_, fun e => ?_⟩
      (Isolated.deleteNode isConnectionAllowed false ⟨t, []⟩ ht.wellFormed hisolated)
    · exact (ht.wellFormed.deleteConnections _).removeNode node
    · rw [mem_removeNode (ht.wellFormed.deleteConnections _),
        mem_removeNode (hw.deleteConnections _)]
      exact and_congr_left fun _ => ht.nodes node'
    · exact mem_ends_delete.trans ((and_congr_right fun _ => ht.connections e).trans
        mem_ends_delete.symm)

end Node

/-! ### The steps of a deletion -/

section Deletion
variable {isConnectionAllowed : INodeUi δ → INodeUi δ → Connection → Connection → Bool}
  {editor : Editor δ} {node : INodeUi δ} {e : Connection × Connection}

theorem track_of_alreadyIn {c : Command δ} (h : alreadyIn c editor = true)
    (workflow : IWorkflowDb δ) :
    track true c { editor with state := workflow } = { editor with state := workflow } := by
  rw [track, if_pos rfl, pushCommandToUndo]
  exact if_pos h

theorem track_of_not_alreadyIn {c : Command δ} (h : alreadyIn c editor = false)
    (workflow : IWorkflowDb δ) :
    track true c { editor with state := workflow } = ⟨workflow, editor.commands ++ [c]⟩ := by
  rw [track, if_pos rfl, pushCommandToUndo]
  exact if_neg fun h' => absurd (h.symm.trans h') Bool.false_ne_true

theorem connectAdjacent_recorded (hw : editor.state.WellFormed)
    (h : BridgeRecorded isConnectionAllowed editor e) :
    Records (Command.revert isConnectionAllowed) Command.getReverseCommand SameWorkflow editor
      (connectAdjacent isConnectionAllowed true editor e) := by
  rcases connectAdjacent_cases isConnectionAllowed true e hw with
    hsame | ⟨source, target, hsource, htarget, hids, hstep⟩
  · rw [hsame]
    exact .refl editor
  · have hrecorded := h source hsource target htarget hids
    rw [hstep]
    cases halready : alreadyIn (.addConnection e) editor with
    | false =>
      obtain ⟨hallowed, he⟩ := hrecorded.mp halready
      rw [if_pos hallowed, track_of_not_alreadyIn halready]
      exact .single rfl (leads_addConnection hw hsource htarget he)
    | true =>
      have hnot := mt hrecorded.mpr (by simp [halready])
      rw [track_of_alreadyIn halready]
      split_ifs with hallowed
      · have he : e ∈ ends editor.state.connections := not_not.mp fun he => hnot ⟨hallowed, he⟩
        refine .silent rfl (sameWorkflow_congr rfl fun e' => mem_ends_addConnection.trans ?_)
        exact or_iff_right_of_imp fun heq => heq ▸ he
      · exact .refl editor

variable (isConnectionAllowed) in
theorem deleteConnectionOf_recorded (hw : editor.state.WellFormed)
    (h : RemovalRecorded node editor e) :
    Records (Command.revert isConnectionAllowed) Command.getReverseCommand SameWorkflow editor
      (deleteConnectionOf true node editor e) := by
  by_cases htouches : Touches editor.state node e
  · rw [deleteConnectionOf_of_touches hw htouches]
    obtain ⟨source, target, hsource, htarget, hor⟩ := htouches
    have hrecorded := h source hsource target htarget hor
    cases halready : alreadyIn (.removeConnection e) editor with
    | false =>
      rw [track_of_not_alreadyIn halready]
      exact .single rfl (leads_removeConnection hw hsource htarget (hrecorded.mp halready))
    | true =>
      have he := mt hrecorded.mpr (by simp [halready])
      rw [track_of_alreadyIn halready]
      refine .silent rfl (sameWorkflow_congr rfl fun e' =>
        (mem_ends_removeConnection hw.connections).trans ?_)
      exact and_iff_right_of_imp fun hmem heq => he (heq ▸ hmem)
  · rw [deleteConnectionOf_of_not_touches htouches]
    exact .refl editor

/-- After the connections of a node are deleted, it is isolated. -/
theorem isolated_of_deleted (hw : editor.state.WellFormed) (hnode : node ∈ editor.state.nodes)
    (hleads : ∀ e ∈ ends editor.state.connections, e.1.node = node.name →
      (editor.state.getNodeByName e.2.node).isSome = true) :
    Isolated ((ends editor.state.connections).foldl (deleteConnectionOf true node) editor).state
      node := by
  obtain ⟨hw', hnodes, hmem⟩ := foldl_deleteConnectionOf true node hw
    (ends editor.state.connections)
  have hgone : ∀ e ∈ ends ((ends editor.state.connections).foldl
      (deleteConnectionOf true node) editor).state.connections,
      e ∈ ends editor.state.connections ∧ ¬ Touches editor.state node e := by
    intro e he
    obtain ⟨hold, hnot⟩ := (hmem e).mp he
    exact ⟨hold, fun ht => hnot ⟨hold, ht⟩⟩
  refine ⟨hnodes ▸ hnode, fun e he heq => ?_, fun e he => ?_⟩
  · obtain ⟨hold, hnot⟩ := hgone e he
    obtain ⟨target, htarget⟩ := Option.isSome_iff_exists.mp (hleads e hold heq)
    exact hnot ⟨node, target, heq ▸ getNodeByName_of_mem hw hnode, htarget, .inr rfl⟩
  · rw [touches_congr editor.state hnodes]
    exact (hgone e he).2

theorem deleteNode_recorded {id : String} (hw : editor.state.WellFormed)
    (h : DeletionRecorded isConnectionAllowed editor id) :
    (deleteNode isConnectionAllowed true id editor).state.WellFormed ∧
      Records (Command.revert isConnectionAllowed) Command.getReverseCommand SameWorkflow editor
        (deleteNode isConnectionAllowed true id editor) := by
  cases hid : editor.state.getNodeById id with
  | none =>
    rw [deleteNode, hid]
    exact ⟨hw, .refl editor⟩
  | some node =>
    obtain ⟨hbridges, hremovals, hleads⟩ := h node hid
    obtain ⟨hnode, rfl⟩ := (getNodeById_eq_some hw).mp hid
    rw [connectAdjacentNodes, hid] at hremovals
    dsimp only at hremovals
    rw [deleteNode_eq hw hnode]
    obtain ⟨-, hnodes, hadded⟩ := foldl_connectAdjacent isConnectionAllowed true hw
      (adjacentConnections editor.state.connections node.name)
    obtain ⟨hw', hrecords⟩ := Records.foldl (P := fun editor => editor.state.WellFormed)
      (fun editor e hw h => ⟨(foldl_connectAdjacent isConnectionAllowed true hw [e]).1,
        connectAdjacent_recorded hw h⟩) hw hbridges
    set connected := (adjacentConnections editor.state.connections node.name).foldl
      (connectAdjacent isConnectionAllowed true) editor
    have hname : ∀ name, connected.state.getNodeByName name = editor.state.getNodeByName name :=
      fun name => by rw [IWorkflowDb.getNodeByName, hnodes, IWorkflowDb.getNodeByName]
    have hisolated := isolated_of_deleted hw' (hnodes ▸ hnode) fun e he heq => by
      rw [hname]
      exact (hadded e he).elim (fun hold => hleads e hold heq) id
    obtain ⟨hw'', hrecords'⟩ := Records.foldl (P := fun editor => editor.state.WellFormed)
      (fun editor e hw h => ⟨(foldl_deleteConnectionOf true node hw [e]).1,
        deleteConnectionOf_recorded isConnectionAllowed hw h⟩)
      hw' hremovals
    dsimp only
    rw [track_of_not_alreadyIn (alreadyIn_removeNode node _)]
    exact ⟨(hw''.deleteConnections _).removeNode node,
      (hrecords.trans hrecords').trans (.single rfl (leads_removeNode hw'' hisolated))⟩

/-- A deletion that records what it does is undone, and redone. -/
theorem deleteNodes_undone_of_recorded
    (isConnectionAllowed : INodeUi δ → INodeUi δ → Connection → Connection → Bool)
    {workflow : IWorkflowDb δ} (hw : workflow.WellFormed) (ids : List String)
    (h : EveryStep (DeletionRecorded isConnectionAllowed) ⟨workflow, []⟩
      (trace (fun editor id => deleteNode isConnectionAllowed true id editor) ⟨workflow, []⟩ ids)) :
    DeletionUndone isConnectionAllowed ids workflow := by
  obtain ⟨hw', hrecords⟩ := Records.foldl (P := fun editor => editor.state.WellFormed)
    (fun _ _ hw h => deleteNode_recorded hw h) hw h
  have hundone := hrecords.leads.undo _ (.refl hw')
  exact ⟨hundone, hrecords.leads.redo _ hundone⟩

end Deletion

end N8n.Canvas
