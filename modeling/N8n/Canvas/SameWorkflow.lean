import N8n.Canvas.CanvasOperations

/-!
# What the operations do to the nodes and the connections

A workflow counts as another if it has the same set of nodes and the same set of
connections. The operations are described here by these sets.
-/

namespace N8n.Canvas

open UndoGroups (Records Leads)

variable {δ : Type}

structure SameWorkflow (workflow workflow' : IWorkflowDb δ) : Prop where
  wellFormed : workflow'.WellFormed
  nodes : ∀ node, node ∈ workflow'.nodes ↔ node ∈ workflow.nodes
  connections : ∀ e, e ∈ ends workflow'.connections ↔ e ∈ ends workflow.connections

namespace SameWorkflow
variable {workflow workflow' : IWorkflowDb δ}

theorem refl (h : workflow.WellFormed) : SameWorkflow workflow workflow :=
  ⟨h, fun _ => Iff.rfl, fun _ => Iff.rfl⟩

theorem getNodeByName (hw : workflow.WellFormed) (h : SameWorkflow workflow workflow')
    (name : String) : workflow'.getNodeByName name = workflow.getNodeByName name := by
  ext node
  rw [getNodeByName_eq_some h.wellFormed, getNodeByName_eq_some hw, h.nodes]

theorem addConnection (h : SameWorkflow workflow workflow') (e : Connection × Connection) :
    SameWorkflow (workflow.addConnection e) (workflow'.addConnection e) where
  wellFormed := h.wellFormed.addConnection e
  nodes := h.nodes
  connections e' := mem_ends_addConnection.trans <|
    (or_congr_right (h.connections e')).trans mem_ends_addConnection.symm

theorem removeConnection (hw : workflow.WellFormed) (h : SameWorkflow workflow workflow')
    (e : Connection × Connection) :
    SameWorkflow (workflow.removeConnection e) (workflow'.removeConnection e) where
  wellFormed := h.wellFormed.removeConnection e
  nodes := h.nodes
  connections e' := (mem_ends_removeConnection h.wellFormed.connections).trans <|
    (and_congr_right fun _ => h.connections e').trans
      (mem_ends_removeConnection hw.connections).symm

theorem trans {workflow'' : IWorkflowDb δ} (h : SameWorkflow workflow workflow')
    (h' : SameWorkflow workflow' workflow'') : SameWorkflow workflow workflow'' :=
  ⟨h'.wellFormed, fun node => (h'.nodes node).trans (h.nodes node),
    fun e => (h'.connections e).trans (h.connections e)⟩

theorem symm (hw : workflow.WellFormed) (h : SameWorkflow workflow workflow') :
    SameWorkflow workflow' workflow :=
  ⟨hw, fun node => (h.nodes node).symm, fun e => (h.connections e).symm⟩

/-- Adding a connection that is new and removing it, or the other way round. -/
theorem removeConnection_addConnection (hw : workflow.WellFormed) {e : Connection × Connection}
    (he : e ∉ ends workflow.connections) :
    SameWorkflow workflow ((workflow.addConnection e).removeConnection e) where
  wellFormed := (hw.addConnection e).removeConnection e
  nodes _ := Iff.rfl
  connections e' := by
    refine (mem_ends_removeConnection (hw.addConnection e).connections).trans ?_
    rw [IWorkflowDb.addConnection, mem_ends_addConnection]
    constructor
    · rintro ⟨hne, rfl | hmem⟩
      · exact absurd rfl hne
      · exact hmem
    · exact fun hmem => ⟨fun heq => he (heq ▸ hmem), .inr hmem⟩

theorem addConnection_removeConnection (hw : workflow.WellFormed) {e : Connection × Connection}
    (he : e ∈ ends workflow.connections) :
    SameWorkflow workflow ((workflow.removeConnection e).addConnection e) where
  wellFormed := (hw.removeConnection e).addConnection e
  nodes _ := Iff.rfl
  connections e' := by
    refine mem_ends_addConnection.trans ?_
    rw [IWorkflowDb.removeConnection, mem_ends_removeConnection hw.connections]
    constructor
    · rintro (rfl | ⟨-, hmem⟩)
      · exact he
      · exact hmem
    · intro hmem
      by_cases heq : e' = e
      · exact .inl heq
      · exact .inr ⟨heq, hmem⟩

end SameWorkflow

theorem mapCanvas_mapLegacy {source target : INodeUi δ} {e : Connection × Connection}
    (hsource : source.name = e.1.node) (htarget : target.name = e.2.node) :
    mapCanvasConnectionToLegacyConnection source target
      (mapLegacyConnectionToCanvasConnection source target e) = e := by
  obtain ⟨⟨_, _, _⟩, ⟨_, _, _⟩⟩ := e
  subst hsource htarget
  rfl

theorem track_state (trackHistory : Bool) (undoable : Command δ) (editor : Editor δ) :
    (track trackHistory undoable editor).state = editor.state := by
  rw [track]
  split_ifs
  · exact pushCommandToUndo_state undoable editor
  · rfl

section Steps
variable {isConnectionAllowed : INodeUi δ → INodeUi δ → Connection → Connection → Bool}
  {trackHistory : Bool} {editor : Editor δ} {source target node : INodeUi δ}
  {e : Connection × Connection}

theorem mapLegacy_source :
    (mapLegacyConnectionToCanvasConnection source target e).source = source.id := rfl

theorem mapLegacy_target :
    (mapLegacyConnectionToCanvasConnection source target e).target = target.id := rfl

theorem deleteConnection_of_names (hw : editor.state.WellFormed)
    (hsource : editor.state.getNodeByName e.1.node = some source)
    (htarget : editor.state.getNodeByName e.2.node = some target) :
    deleteConnection trackHistory (mapLegacyConnectionToCanvasConnection source target e) editor =
      track trackHistory (.removeConnection e)
        { editor with state := editor.state.removeConnection e } := by
  rw [getNodeByName_eq_some hw] at hsource htarget
  simp only [deleteConnection, mapLegacy_source, mapLegacy_target,
    mapCanvas_mapLegacy hsource.2 htarget.2, getNodeById_of_mem hw hsource.1,
    getNodeById_of_mem hw htarget.1]

variable (isConnectionAllowed trackHistory) in
theorem connectAdjacent_of_names (hw : editor.state.WellFormed)
    (hsource : editor.state.getNodeByName e.1.node = some source)
    (htarget : editor.state.getNodeByName e.2.node = some target)
    (hids : source.id ≠ "" ∧ target.id ≠ "") :
    connectAdjacent isConnectionAllowed trackHistory editor e =
      track trackHistory (.addConnection e)
        { editor with
          state := if isConnectionAllowed source target e.1 e.2 then editor.state.addConnection e
            else editor.state } := by
  rw [connectAdjacent, hsource, htarget]
  dsimp only
  rw [if_neg (not_or.mpr hids)]
  rw [getNodeByName_eq_some hw] at hsource htarget
  have hsourceId := getNodeById_of_mem hw hsource.1
  have htargetId := getNodeById_of_mem hw htarget.1
  simp only [createConnection, mapLegacy_source, mapLegacy_target, track_state,
    mapCanvas_mapLegacy hsource.2 htarget.2, hsourceId, htargetId]
  rw [track, if_neg Bool.false_ne_true]
  split_ifs
  · rw [track, track]
    split_ifs
    · rw [pushCommandToUndo, pushCommandToUndo, alreadyIn, alreadyIn]
      split_ifs <;> rfl
    · rfl
  · rfl

variable (isConnectionAllowed trackHistory e) in
/-- An adjacent connection is passed over, or its command is tracked and it is added if it is
allowed. -/
theorem connectAdjacent_cases (hw : editor.state.WellFormed) :
    connectAdjacent isConnectionAllowed trackHistory editor e = editor ∨
      ∃ source target, editor.state.getNodeByName e.1.node = some source ∧
        editor.state.getNodeByName e.2.node = some target ∧ (source.id ≠ "" ∧ target.id ≠ "") ∧
        connectAdjacent isConnectionAllowed trackHistory editor e =
          track trackHistory (.addConnection e)
            { editor with
              state := if isConnectionAllowed source target e.1 e.2 then
                editor.state.addConnection e else editor.state } := by
  cases hsource : editor.state.getNodeByName e.1.node with
  | none => exact .inl (by rw [connectAdjacent, hsource])
  | some source =>
    cases htarget : editor.state.getNodeByName e.2.node with
    | none => exact .inl (by rw [connectAdjacent, hsource, htarget])
    | some target =>
      by_cases hids : source.id ≠ "" ∧ target.id ≠ ""
      · exact .inr ⟨source, target, rfl, rfl, hids,
          connectAdjacent_of_names isConnectionAllowed trackHistory hw hsource htarget hids⟩
      · refine .inl ?_
        rw [connectAdjacent, hsource, htarget]
        exact if_pos (by tauto)

/-- The connections that go with a node: both of their nodes are there, and one is the node. -/
def Touches (workflow : IWorkflowDb δ) (targetNode : INodeUi δ) (e : Connection × Connection) :
    Prop :=
  ∃ node connectionDataNode, workflow.getNodeByName e.1.node = some node ∧
    workflow.getNodeByName e.2.node = some connectionDataNode ∧
      (connectionDataNode.id = targetNode.id ∨ node.name = targetNode.name)

theorem deleteConnectionOf_of_touches (hw : editor.state.WellFormed)
    (h : Touches editor.state node e) :
    deleteConnectionOf trackHistory node editor e =
      track trackHistory (.removeConnection e)
        { editor with state := editor.state.removeConnection e } := by
  obtain ⟨source, target, hsource, htarget, hor⟩ := h
  rw [← deleteConnection_of_names hw hsource htarget, deleteConnectionOf, hsource, htarget]
  exact if_pos hor

theorem deleteConnectionOf_of_not_touches (h : ¬ Touches editor.state node e) :
    deleteConnectionOf trackHistory node editor e = editor := by
  rw [deleteConnectionOf]
  split
  next source target hsource htarget =>
    exact if_neg fun hor => h ⟨source, target, hsource, htarget, hor⟩
  next => rfl

variable (isConnectionAllowed trackHistory e) in
theorem connectAdjacent_state (hw : editor.state.WellFormed) :
    (connectAdjacent isConnectionAllowed trackHistory editor e).state = editor.state ∨
      (editor.state.getNodeByName e.2.node).isSome ∧
        (connectAdjacent isConnectionAllowed trackHistory editor e).state =
          editor.state.addConnection e := by
  rcases connectAdjacent_cases isConnectionAllowed trackHistory e hw with
    hsame | ⟨source, target, -, htarget, -, hstep⟩
  · exact .inl (congrArg _ hsame)
  · rw [hstep, track_state, htarget]
    split_ifs
    · exact .inr ⟨rfl, rfl⟩
    · exact .inl rfl

end Steps

/-! ### The loops -/

section Loops
variable {isConnectionAllowed : INodeUi δ → INodeUi δ → Connection → Connection → Bool}
  {trackHistory : Bool} {editor : Editor δ} {node : INodeUi δ}

theorem touches_congr {workflow' : IWorkflowDb δ} (workflow : IWorkflowDb δ)
    (h : workflow'.nodes = workflow.nodes) (e : Connection × Connection) :
    Touches workflow' node e ↔ Touches workflow node e := by
  rw [Touches, Touches]
  simp only [IWorkflowDb.getNodeByName, h]

theorem sameWorkflow_congr {workflow workflow' : IWorkflowDb δ}
    (hnodes : workflow'.nodes = workflow.nodes)
    (h : ∀ e, e ∈ ends workflow'.connections ↔ e ∈ ends workflow.connections)
    (t : IWorkflowDb δ) : SameWorkflow workflow t ↔ SameWorkflow workflow' t := by
  constructor
  · exact fun ⟨hw, hn, hc⟩ => ⟨hw, hnodes ▸ hn, fun e => (hc e).trans (h e).symm⟩
  · exact fun ⟨hw, hn, hc⟩ => ⟨hw, hnodes ▸ hn, fun e => (hc e).trans (h e)⟩

variable (isConnectionAllowed trackHistory node)

/-- Connecting adjacent nodes leaves the nodes, and what is added leads to one of them. -/
theorem foldl_connectAdjacent (hw : editor.state.WellFormed) (es : List (Connection × Connection)) :
    let editor' := es.foldl (connectAdjacent isConnectionAllowed trackHistory) editor
    editor'.state.WellFormed ∧ editor'.state.nodes = editor.state.nodes ∧
      ∀ e ∈ ends editor'.state.connections,
        e ∈ ends editor.state.connections ∨ (editor.state.getNodeByName e.2.node).isSome := by
  induction es generalizing editor with
  | nil => exact ⟨hw, rfl, fun _ => .inl⟩
  | cons e es ih =>
    rw [List.foldl_cons]
    rcases connectAdjacent_state isConnectionAllowed trackHistory e hw with
      hstate | ⟨htarget, hstate⟩
    · obtain ⟨hw', hnodes, hmem⟩ := ih (hstate ▸ hw)
      rw [hstate] at hnodes hmem
      exact ⟨hw', hnodes, hmem⟩
    · obtain ⟨hw', hnodes, hmem⟩ := ih (hstate ▸ hw.addConnection e)
      rw [hstate] at hnodes hmem
      refine ⟨hw', hnodes, fun e' he' => ?_⟩
      rcases hmem e' he' with hadded | htarget'
      · rcases mem_ends_addConnection.mp hadded with rfl | hold
        · exact .inr htarget
        · exact .inl hold
      · exact .inr htarget'

/-- Deleting connections leaves the nodes, and of the connections it takes those that go with
the node. -/
theorem foldl_deleteConnectionOf (hw : editor.state.WellFormed)
    (es : List (Connection × Connection)) :
    let editor' := es.foldl (deleteConnectionOf trackHistory node) editor
    editor'.state.WellFormed ∧ editor'.state.nodes = editor.state.nodes ∧
      ∀ e, e ∈ ends editor'.state.connections ↔
        e ∈ ends editor.state.connections ∧ ¬ (e ∈ es ∧ Touches editor.state node e) := by
  induction es generalizing editor with
  | nil => exact ⟨hw, rfl, fun e => by simp⟩
  | cons e es ih =>
    rw [List.foldl_cons]
    by_cases h : Touches editor.state node e
    · have hstate : (deleteConnectionOf trackHistory node editor e).state =
          editor.state.removeConnection e := by
        rw [deleteConnectionOf_of_touches hw h, track_state]
      obtain ⟨hw', hnodes, hmem⟩ := ih (hstate ▸ hw.removeConnection e)
      rw [hstate] at hnodes hmem
      refine ⟨hw', hnodes, fun e' => (hmem e').trans ?_⟩
      rw [touches_congr editor.state rfl, IWorkflowDb.removeConnection,
        mem_ends_removeConnection hw.connections, List.mem_cons]
      constructor
      · rintro ⟨⟨hne, hold⟩, hnot⟩
        exact ⟨hold, fun ⟨hor, ht⟩ => hor.elim hne fun hes => hnot ⟨hes, ht⟩⟩
      · rintro ⟨hold, hnot⟩
        exact ⟨⟨fun heq => hnot ⟨.inl heq, heq ▸ h⟩, hold⟩, fun ⟨hes, ht⟩ => hnot ⟨.inr hes, ht⟩⟩
    · rw [deleteConnectionOf_of_not_touches h]
      obtain ⟨hw', hnodes, hmem⟩ := ih hw
      refine ⟨hw', hnodes, fun e' => (hmem e').trans (and_congr_right fun _ => not_congr ?_)⟩
      rw [List.mem_cons]
      constructor
      · exact fun ⟨hes, ht⟩ => ⟨.inr hes, ht⟩
      · rintro ⟨rfl | hes, ht⟩
        · exact absurd ht h
        · exact ⟨hes, ht⟩

end Loops

end N8n.Canvas
