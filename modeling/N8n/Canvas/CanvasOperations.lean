import N8n.Foundations.UndoGroups
import N8n.Canvas.WorkflowsStore

/-!
# Deleting nodes on the canvas

While a group is recorded, a command is not added to it if one of its commands says
that it is equal. Of the commands these are the ones that deleting nodes records,
and their inverses.

Before a node is deleted, the nodes before it are connected with the nodes after it;
then its connections are deleted one by one, and it is removed. With the history
tracked, each of these steps records a command. Whether a connection is allowed
depends on the two nodes and the two ends.
-/

namespace N8n.Canvas

open UndoGroups (Recorder)

variable {δ : Type}

inductive Command (δ : Type) where
  | addNode (node : INodeUi δ)
  | removeNode (node : INodeUi δ)
  | addConnection (connectionData : Connection × Connection)
  | removeConnection (connectionData : Connection × Connection)
  deriving DecidableEq, Repr

namespace Command

def getReverseCommand : Command δ → Command δ
  | addNode node => removeNode node
  | removeNode node => addNode node
  | addConnection connectionData => removeConnection connectionData
  | removeConnection connectionData => addConnection connectionData

/-- The types of the two ends are not compared. -/
def equalEnds (connectionData another : Connection × Connection) : Bool :=
  decide (another.1.node = connectionData.1.node ∧ another.2.node = connectionData.2.node ∧
    another.1.index = connectionData.1.index ∧ another.2.index = connectionData.2.index)

/-- The removal of a node compares itself, as the addition does, with additions. -/
def isEqualTo : Command δ → Command δ → Bool
  | addNode node, addNode another => decide (another.name = node.name)
  | removeNode node, addNode another => decide (another.name = node.name)
  | addConnection connectionData, addConnection another => equalEnds connectionData another
  | removeConnection connectionData, removeConnection another => equalEnds connectionData another
  | _, _ => false

theorem isEqualTo_removeNode (c : Command δ) (node : INodeUi δ) :
    c.isEqualTo (removeNode node) = false := by
  cases c <;> rfl

theorem equalEnds_self (connectionData : Connection × Connection) :
    equalEnds connectionData connectionData = true := by
  simp [equalEnds]

end Command

/-- The workflow and the group that is being recorded. -/
abbrev Editor (δ : Type) := Recorder (IWorkflowDb δ) (Command δ)

def alreadyIn (undoable : Command δ) (editor : Editor δ) : Bool :=
  editor.commands.any fun c => c.isEqualTo undoable

def pushCommandToUndo (undoable : Command δ) (editor : Editor δ) : Editor δ :=
  if alreadyIn undoable editor then editor
  else { editor with commands := editor.commands ++ [undoable] }

theorem pushCommandToUndo_state (undoable : Command δ) (editor : Editor δ) :
    (pushCommandToUndo undoable editor).state = editor.state := by
  rw [pushCommandToUndo]
  split_ifs <;> rfl

theorem alreadyIn_removeNode (node : INodeUi δ) (editor : Editor δ) :
    alreadyIn (.removeNode node) editor = false :=
  List.any_eq_false.mpr fun c _ => by rw [c.isEqualTo_removeNode]; exact Bool.false_ne_true

end N8n.Canvas

/-! ### Operations -/

namespace N8n.Canvas

open UndoGroups (revertAll inverseAll)

variable {δ : Type}

/-- The type and index that the text of a handle gives. -/
structure CanvasConnectionHandle where
  type : NodeConnectionType
  index : ℕ

structure CanvasConnection where
  source : String
  sourceHandle : CanvasConnectionHandle
  target : String
  targetHandle : CanvasConnectionHandle

def mapCanvasConnectionToLegacyConnection (sourceNode targetNode : INodeUi δ)
    (connection : CanvasConnection) : Connection × Connection :=
  (⟨sourceNode.name, connection.sourceHandle.type, connection.sourceHandle.index⟩,
    ⟨targetNode.name, connection.targetHandle.type, connection.targetHandle.index⟩)

def mapLegacyConnectionToCanvasConnection (sourceNode targetNode : INodeUi δ)
    (legacyConnection : Connection × Connection) : CanvasConnection where
  source := sourceNode.id
  sourceHandle := ⟨legacyConnection.1.type, legacyConnection.1.index⟩
  target := targetNode.id
  targetHandle := ⟨legacyConnection.2.type, legacyConnection.2.index⟩

def track (trackHistory : Bool) (undoable : Command δ) (editor : Editor δ) : Editor δ :=
  if trackHistory then pushCommandToUndo undoable editor else editor

section Operations
variable (isConnectionAllowed : INodeUi δ → INodeUi δ → Connection → Connection → Bool)

def createConnection (trackHistory : Bool) (connection : CanvasConnection) (editor : Editor δ) :
    Editor δ :=
  match editor.state.getNodeById connection.source,
      editor.state.getNodeById connection.target with
  | some sourceNode, some targetNode =>
    let mappedConnection := mapCanvasConnectionToLegacyConnection sourceNode targetNode connection
    let editor := track trackHistory (.addConnection mappedConnection) editor
    if isConnectionAllowed sourceNode targetNode mappedConnection.1 mappedConnection.2 then
      { editor with state := editor.state.addConnection mappedConnection }
    else editor
  | _, _ => editor

/-- One connection from a node before the deleted node to a node after it. The command is
recorded before it is known what `createConnection` does. -/
def connectAdjacent (trackHistory : Bool) (editor : Editor δ) (e : Connection × Connection) :
    Editor δ :=
  match editor.state.getNodeByName e.1.node, editor.state.getNodeByName e.2.node with
  | some incomingNode, some outgoingNode =>
    -- A node with an empty id is passed over like one that is missing.
    if incomingNode.id = "" ∨ outgoingNode.id = "" then editor
    else
      createConnection isConnectionAllowed false
        (mapLegacyConnectionToCanvasConnection incomingNode outgoingNode e)
        (track trackHistory (.addConnection e) editor)
  | _, _ => editor

/-- The connections from what leads to the first input of a type to what the first output of
the type leads to. The lists are those from before the loops: what is added to the list of the
node itself meanwhile gives a connection that was made from the list before. -/
def adjacentConnections (connections : IConnections) (nodeName : String) :
    List (Connection × Connection) :=
  let incomingConnectionsByType :=
    ((getConnectionsByDestination connections).get? nodeName).getD .empty
  incomingConnectionsByType.entries.flatMap fun (type, incomingConnectionsByInputIndex) =>
    (incomingConnectionsByInputIndex[0]?.join.getD []).flatMap fun incomingConnection =>
      (connectionsAt connections ⟨nodeName, type, 0⟩).map fun outgoingConnection =>
        (⟨incomingConnection.node, type, incomingConnection.index⟩,
          ⟨outgoingConnection.node, type, outgoingConnection.index⟩)

def connectAdjacentNodes (trackHistory : Bool) (id : String) (editor : Editor δ) : Editor δ :=
  match editor.state.getNodeById id with
  | none => editor
  | some node =>
    (adjacentConnections editor.state.connections node.name).foldl
      (connectAdjacent isConnectionAllowed trackHistory) editor

def deleteConnection (trackHistory : Bool) (connection : CanvasConnection) (editor : Editor δ) :
    Editor δ :=
  match editor.state.getNodeById connection.source,
      editor.state.getNodeById connection.target with
  | some sourceNode, some targetNode =>
    let mappedConnection := mapCanvasConnectionToLegacyConnection sourceNode targetNode connection
    track trackHistory (.removeConnection mappedConnection)
      { editor with state := editor.state.removeConnection mappedConnection }
  | _, _ => editor

def deleteConnectionOf (trackHistory : Bool) (targetNode : INodeUi δ) (editor : Editor δ)
    (e : Connection × Connection) : Editor δ :=
  match editor.state.getNodeByName e.1.node, editor.state.getNodeByName e.2.node with
  | some node, some connectionDataNode =>
    if connectionDataNode.id = targetNode.id ∨ node.name = targetNode.name then
      deleteConnection trackHistory
        (mapLegacyConnectionToCanvasConnection node connectionDataNode e) editor
    else editor
  | _, _ => editor

/-- The loops go through a copy of the table. What is left under the name of the node is
dropped with it. -/
def deleteConnectionsByNodeId (trackHistory : Bool) (targetNodeId : String) (editor : Editor δ) :
    Editor δ :=
  match editor.state.getNodeById targetNodeId with
  | none => editor
  | some targetNode =>
    let editor := (ends editor.state.connections).foldl
      (deleteConnectionOf trackHistory targetNode) editor
    { editor with state := editor.state.deleteConnections targetNode.name }

def deleteNode (trackHistory : Bool) (id : String) (editor : Editor δ) : Editor δ :=
  match editor.state.getNodeById id with
  | none => editor
  | some node =>
    let editor := connectAdjacentNodes isConnectionAllowed trackHistory id editor
    let editor := deleteConnectionsByNodeId trackHistory id editor
    track trackHistory (.removeNode node)
      { editor with state := editor.state.removeNodeById id }

/-- The workflow after the deletion, with the group that was recorded. -/
def deleteNodes (ids : List String) (workflow : IWorkflowDb δ) : Editor δ :=
  ids.foldl (fun editor id => deleteNode isConnectionAllowed true id editor) ⟨workflow, []⟩

/-! ### Undo and redo -/

def revertCreateConnection (connection : Connection × Connection) (workflow : IWorkflowDb δ) :
    IWorkflowDb δ :=
  match workflow.getNodeByName connection.1.node, workflow.getNodeByName connection.2.node with
  | some sourceNode, some targetNode =>
    (deleteConnection false
      (mapLegacyConnectionToCanvasConnection sourceNode targetNode connection)
      ⟨workflow, []⟩).state
  | _, _ => workflow

def revertDeleteConnection (connection : Connection × Connection) (workflow : IWorkflowDb δ) :
    IWorkflowDb δ :=
  workflow.addConnection connection

def revertDeleteNode (node : INodeUi δ) (workflow : IWorkflowDb δ) : IWorkflowDb δ :=
  workflow.addNode node

def revertAddNode (nodeName : String) (workflow : IWorkflowDb δ) : IWorkflowDb δ :=
  match workflow.getNodeByName nodeName with
  | none => workflow
  | some node => (deleteNode isConnectionAllowed false node.id ⟨workflow, []⟩).state

def Command.revert : Command δ → IWorkflowDb δ → IWorkflowDb δ
  | addNode node => revertAddNode isConnectionAllowed node.name
  | removeNode node => revertDeleteNode node
  | addConnection connectionData => revertCreateConnection connectionData
  | removeConnection connectionData => revertDeleteConnection connectionData

def undo (commands : List (Command δ)) (workflow : IWorkflowDb δ) : IWorkflowDb δ :=
  revertAll (Command.revert isConnectionAllowed) commands workflow

def redo (commands : List (Command δ)) (workflow : IWorkflowDb δ) : IWorkflowDb δ :=
  undo isConnectionAllowed (inverseAll Command.getReverseCommand commands) workflow

end Operations

end N8n.Canvas
