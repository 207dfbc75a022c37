import N8n.Canvas.DeletionUndone

/-!
# What undoing a deletion gives back

Whatever was recorded, undoing it gives back the nodes. Of the connections it gives
those that are there after the deletion or were removed by a command of the group, less
those that were added by one. No command of a group adds what one before it removed: a
connection is removed with one of its nodes.
-/

namespace N8n.Canvas

variable {δ : Type}

def BothThere (workflow : IWorkflowDb δ) (e : Connection × Connection) : Prop :=
  (workflow.getNodeByName e.1.node).isSome = true ∧
    (workflow.getNodeByName e.2.node).isSome = true

/-- The nodes of a workflow with whatever connections. -/
structure SameNodes (workflow workflow' : IWorkflowDb δ) : Prop where
  wellFormed : workflow'.WellFormed
  nodes : ∀ node, node ∈ workflow'.nodes ↔ node ∈ workflow.nodes

theorem SameNodes.getNodeByName {workflow workflow' : IWorkflowDb δ} (hw : workflow.WellFormed)
    (h : SameNodes workflow workflow') (name : String) :
    workflow'.getNodeByName name = workflow.getNodeByName name := by
  ext node
  rw [getNodeByName_eq_some h.wellFormed, getNodeByName_eq_some hw, h.nodes]

section Group
variable (isConnectionAllowed : INodeUi δ → INodeUi δ → Connection → Connection → Bool)
  (workflow : IWorkflowDb δ)

def GivesBack (commands : List (Command δ)) (t : IWorkflowDb δ) : Prop :=
  SameNodes workflow (undo isConnectionAllowed commands t) ∧
    ∀ e, e ∈ ends (undo isConnectionAllowed commands t).connections ↔
      .addConnection e ∉ commands ∧ (e ∈ ends t.connections ∨ .removeConnection e ∈ commands)

/-- The group that was recorded from a workflow. What it removed, it does not add. -/
structure Group (gone : Connection × Connection → Prop) (editor : Editor δ) : Prop where
  wellFormed : editor.state.WellFormed
  givesBack : ∀ t, SameNodes editor.state t →
    GivesBack isConnectionAllowed workflow editor.commands t
  removed : ∀ e, .removeConnection e ∈ editor.commands → gone e

end Group

section Push
variable {isConnectionAllowed : INodeUi δ → INodeUi δ → Connection → Connection → Bool}
  {workflow s s' : IWorkflowDb δ} {commands : List (Command δ)} {e : Connection × Connection}
  {node : INodeUi δ}

theorem undo_snoc (c : Command δ) (t : IWorkflowDb δ) :
    undo isConnectionAllowed (commands ++ [c]) t =
      undo isConnectionAllowed commands (c.revert isConnectionAllowed t) :=
  UndoGroups.revertAll_append commands [c] t

theorem givesBack_addConnection (hs : s.WellFormed)
    (h : ∀ t, SameNodes s t → GivesBack isConnectionAllowed workflow commands t)
    (hthere : BothThere s e) (hnew : .removeConnection e ∉ commands) (t : IWorkflowDb δ)
    (ht : SameNodes s t) :
    GivesBack isConnectionAllowed workflow (commands ++ [.addConnection e]) t := by
  obtain ⟨source, hsource⟩ := Option.isSome_iff_exists.mp hthere.1
  obtain ⟨target, htarget⟩ := Option.isSome_iff_exists.mp hthere.2
  have hname := ht.getNodeByName hs
  have hrevert : (Command.addConnection e).revert isConnectionAllowed t = t.removeConnection e :=
    revertCreateConnection_of_names ht.wellFormed ((hname _).trans hsource)
      ((hname _).trans htarget)
  rw [GivesBack, undo_snoc, hrevert]
  obtain ⟨hnodes, hmem⟩ := h _ ⟨ht.wellFormed.removeConnection e, ht.nodes⟩
  refine ⟨hnodes, fun e' => (hmem e').trans ?_⟩
  rw [IWorkflowDb.removeConnection, mem_ends_removeConnection ht.wellFormed.connections]
  by_cases heq : e' = e
  · subst heq
    simp [hnew]
  · simp [heq]

theorem givesBack_removeConnection
    (h : ∀ t, SameNodes s t → GivesBack isConnectionAllowed workflow commands t)
    (t : IWorkflowDb δ) (ht : SameNodes s t) :
    GivesBack isConnectionAllowed workflow (commands ++ [.removeConnection e]) t := by
  rw [GivesBack, undo_snoc, Command.revert, revertDeleteConnection]
  obtain ⟨hnodes, hmem⟩ := h _ ⟨ht.wellFormed.addConnection e, ht.nodes⟩
  refine ⟨hnodes, fun e' => (hmem e').trans ?_⟩
  rw [IWorkflowDb.addConnection, mem_ends_addConnection]
  simp only [List.mem_append, List.mem_singleton, reduceCtorEq, or_false,
    Command.removeConnection.injEq]
  tauto

theorem givesBack_removeNode (hs : s.WellFormed) (hnode : node ∈ s.nodes)
    (h : ∀ t, SameNodes s t → GivesBack isConnectionAllowed workflow commands t)
    (t : IWorkflowDb δ) (ht : SameNodes ((s.deleteConnections node.name).removeNode node) t) :
    GivesBack isConnectionAllowed workflow (commands ++ [.removeNode node]) t := by
  obtain ⟨ht', hnodes⟩ := addNode_removeNode hs hnode ht.wellFormed ht.nodes
  rw [GivesBack, undo_snoc, Command.revert, revertDeleteNode]
  obtain ⟨hsame, hmem⟩ := h _ ⟨ht', hnodes⟩
  refine ⟨hsame, fun e => (hmem e).trans ?_⟩
  simp [IWorkflowDb.addNode]

end Push

section Steps
variable {isConnectionAllowed : INodeUi δ → INodeUi δ → Connection → Connection → Bool}
  {workflow : IWorkflowDb δ} {gone : Connection × Connection → Prop} {editor : Editor δ}
  {e : Connection × Connection} {node : INodeUi δ}

theorem bothThere_congr {s s' : IWorkflowDb δ} (h : s'.nodes = s.nodes)
    (e : Connection × Connection) : BothThere s' e ↔ BothThere s e := by
  rw [BothThere, BothThere]
  simp only [IWorkflowDb.getNodeByName, h]

theorem track_true (editor : Editor δ) (c : Command δ) (s : IWorkflowDb δ) :
    track true c { editor with state := s } = ⟨s, editor.commands⟩ ∨
      track true c { editor with state := s } = ⟨s, editor.commands ++ [c]⟩ := by
  cases h : alreadyIn c editor with
  | true => exact .inl (track_of_alreadyIn h s)
  | false => exact .inr (track_of_not_alreadyIn h s)

theorem Group.setState (h : Group isConnectionAllowed workflow gone editor) {s : IWorkflowDb δ}
    (hs : s.WellFormed) (hnodes : s.nodes = editor.state.nodes) :
    Group isConnectionAllowed workflow gone { editor with state := s } where
  wellFormed := hs
  givesBack t ht := h.givesBack t ⟨ht.wellFormed, hnodes ▸ ht.nodes⟩
  removed := h.removed

theorem Group.connectAdjacent (h : Group isConnectionAllowed workflow gone editor)
    (hgone : ∀ e, gone e → ¬ BothThere editor.state e) (e : Connection × Connection) :
    Group isConnectionAllowed workflow gone
      (Canvas.connectAdjacent isConnectionAllowed true editor e) := by
  rcases connectAdjacent_cases isConnectionAllowed true e h.wellFormed with
    hsame | ⟨source, target, hsource, htarget, -, hstep⟩
  · rw [hsame]
    exact h
  · have hthere : BothThere editor.state e := by
      rw [BothThere, hsource, htarget]
      exact ⟨rfl, rfl⟩
    rw [hstep]
    obtain ⟨s, hs, hnodes, hstate⟩ : ∃ s : IWorkflowDb δ, s.WellFormed ∧
        s.nodes = editor.state.nodes ∧
        (if isConnectionAllowed source target e.1 e.2 then editor.state.addConnection e
          else editor.state) = s := by
      refine ⟨_, ?_, ?_, rfl⟩ <;> split_ifs
      exacts [h.wellFormed.addConnection e, h.wellFormed, rfl, rfl]
    rw [hstate]
    have hset := h.setState hs hnodes
    rcases track_true editor (.addConnection e) s with hsame | hpushed
    · rw [hsame]
      exact hset
    · rw [hpushed]
      refine ⟨hs, ?_, fun e' he' => h.removed e' ?_⟩
      · exact givesBack_addConnection hs hset.givesBack ((bothThere_congr hnodes e).mpr hthere)
          fun hmem => hgone e (h.removed e hmem) hthere
      · simpa using he'

theorem Group.deleteConnectionOf (h : Group isConnectionAllowed workflow gone editor)
    (hgone : ∀ e, Touches editor.state node e → gone e) (e : Connection × Connection) :
    Group isConnectionAllowed workflow gone
      (Canvas.deleteConnectionOf true node editor e) := by
  by_cases htouches : Touches editor.state node e
  · rw [deleteConnectionOf_of_touches h.wellFormed htouches]
    have hset := h.setState (s := editor.state.removeConnection e)
      (h.wellFormed.removeConnection e) rfl
    rcases track_true editor (.removeConnection e)
      (editor.state.removeConnection e) with hsame | hpushed
    · rw [hsame]
      exact hset
    · rw [hpushed]
      refine ⟨hset.wellFormed, givesBack_removeConnection hset.givesBack, fun e' he' => ?_⟩
      rcases List.mem_append.mp he' with hold | hnew
      · exact h.removed e' hold
      · obtain rfl : e' = e := by simpa using hnew
        exact hgone e' htouches
  · rw [deleteConnectionOf_of_not_touches htouches]
    exact h

theorem Group.foldl_connectAdjacent (h : Group isConnectionAllowed workflow gone editor)
    (hgone : ∀ e, gone e → ¬ BothThere editor.state e) (es : List (Connection × Connection)) :
    Group isConnectionAllowed workflow gone
      (es.foldl (Canvas.connectAdjacent isConnectionAllowed true) editor) := by
  induction es generalizing editor with
  | nil => exact h
  | cons e es ih =>
    obtain ⟨-, hnodes, -⟩ := Canvas.foldl_connectAdjacent isConnectionAllowed true h.wellFormed [e]
    exact ih (h.connectAdjacent hgone e) fun e' he' => (bothThere_congr hnodes e').not.mpr
      (hgone e' he')

theorem Group.foldl_deleteConnectionOf (h : Group isConnectionAllowed workflow gone editor)
    (hgone : ∀ e, Touches editor.state node e → gone e) (es : List (Connection × Connection)) :
    Group isConnectionAllowed workflow gone
      (es.foldl (Canvas.deleteConnectionOf true node) editor) := by
  induction es generalizing editor with
  | nil => exact h
  | cons e es ih =>
    obtain ⟨-, hnodes, -⟩ := Canvas.foldl_deleteConnectionOf true node h.wellFormed [e]
    exact ih (h.deleteConnectionOf hgone e) fun e' he' =>
      hgone e' ((touches_congr editor.state hnodes e').mp he')

theorem isSome_getNodeByName {s : IWorkflowDb δ} (h : s.WellFormed) {name : String} :
    (s.getNodeByName name).isSome = true ↔ ∃ node ∈ s.nodes, node.name = name := by
  rw [Option.isSome_iff_exists]
  exact exists_congr fun _ => getNodeByName_eq_some h

theorem touches_iff {s : IWorkflowDb δ} (hs : s.WellFormed) (hnode : node ∈ s.nodes) :
    Touches s node e ↔ BothThere s e ∧ (e.2.node = node.name ∨ e.1.node = node.name) := by
  constructor
  · rintro ⟨source, target, hsource, htarget, hor⟩
    refine ⟨⟨by rw [hsource]; rfl, by rw [htarget]; rfl⟩, hor.imp ?_ ?_⟩
    · intro hid
      obtain ⟨hmem, hname⟩ := (getNodeByName_eq_some hs).mp htarget
      rw [← hname, List.inj_on_of_nodup_map hs.ids hmem hnode hid]
    · exact ((getNodeByName_eq_some hs).mp hsource).2.symm.trans
  · rintro ⟨⟨hsource, htarget⟩, hor⟩
    obtain ⟨source, hsource⟩ := Option.isSome_iff_exists.mp hsource
    obtain ⟨target, htarget⟩ := Option.isSome_iff_exists.mp htarget
    refine ⟨source, target, hsource, htarget, hor.imp ?_ ?_⟩
    · intro hname
      rw [hname, getNodeByName_of_mem hs hnode, Option.some.injEq] at htarget
      rw [htarget]
    · exact ((getNodeByName_eq_some hs).mp hsource).2.trans

/-- Once a node is removed, the connections that went with it have lost it. -/
theorem bothThere_removeNode {s s' : IWorkflowDb δ} (hs : s.WellFormed) (hnode : node ∈ s.nodes)
    (hnodes : s'.nodes = (s.removeNode node).nodes) :
    BothThere s' e ↔ BothThere s e ∧ ¬ Touches s node e := by
  have hsome : ∀ name, (s'.getNodeByName name).isSome = true ↔
      (s.getNodeByName name).isSome = true ∧ name ≠ node.name := by
    intro name
    rw [IWorkflowDb.getNodeByName, hnodes, ← IWorkflowDb.getNodeByName,
      isSome_getNodeByName (hs.removeNode node), isSome_getNodeByName hs]
    simp only [mem_removeNode hs]
    constructor
    · rintro ⟨node', ⟨hmem, hne⟩, rfl⟩
      exact ⟨⟨node', hmem, rfl⟩, hne⟩
    · rintro ⟨⟨node', hmem, rfl⟩, hne⟩
      exact ⟨node', ⟨hmem, hne⟩, rfl⟩
  rw [touches_iff hs hnode, BothThere, BothThere, hsome, hsome]
  tauto

/-- The node is removed after its connections. -/
theorem Group.removeNode {s : IWorkflowDb δ} (hs : s.WellFormed) (hnode : node ∈ s.nodes)
    (hnodes : editor.state.nodes = s.nodes)
    (h : Group isConnectionAllowed workflow
      (fun e => ¬ BothThere s e ∨ Touches s node e) editor) :
    let removed := (editor.state.deleteConnections node.name).removeNode node
    Group isConnectionAllowed workflow (fun e => ¬ BothThere removed e)
      ⟨removed, editor.commands ++ [.removeNode node]⟩ := by
  refine ⟨(h.wellFormed.deleteConnections _).removeNode node,
    givesBack_removeNode h.wellFormed (hnodes ▸ hnode) h.givesBack, fun e he => ?_⟩
  rw [bothThere_removeNode hs hnode (congrArg (List.eraseP _) hnodes)]
  exact not_and_or.mpr ((h.removed e (by simpa using he)).imp_right not_not.mpr)

theorem Group.deleteNode {id : String}
    (h : Group isConnectionAllowed workflow (fun e => ¬ BothThere editor.state e) editor) :
    Group isConnectionAllowed workflow
      (fun e => ¬ BothThere (Canvas.deleteNode isConnectionAllowed true id editor).state e)
      (Canvas.deleteNode isConnectionAllowed true id editor) := by
  have hw := h.wellFormed
  cases hid : editor.state.getNodeById id with
  | none =>
    rw [Canvas.deleteNode, hid]
    exact h
  | some node =>
    obtain ⟨hnode, rfl⟩ := (getNodeById_eq_some hw).mp hid
    rw [deleteNode_eq hw hnode]
    dsimp only
    rw [track_of_not_alreadyIn (alreadyIn_removeNode node _)]
    obtain ⟨hw', hnodes, -⟩ := Canvas.foldl_connectAdjacent isConnectionAllowed true hw
      (adjacentConnections editor.state.connections node.name)
    have hconnected := h.foldl_connectAdjacent (fun _ => id)
      (adjacentConnections editor.state.connections node.name)
    generalize (adjacentConnections editor.state.connections node.name).foldl
      (Canvas.connectAdjacent isConnectionAllowed true) editor = connected
      at hw' hnodes hconnected ⊢
    have htouched : Group isConnectionAllowed workflow
        (fun e => ¬ BothThere editor.state e ∨ Touches editor.state node e) connected :=
      ⟨hw', hconnected.givesBack, fun e he => .inl (hconnected.removed e he)⟩
    obtain ⟨-, hnodes', -⟩ := Canvas.foldl_deleteConnectionOf true node hw'
      (ends connected.state.connections)
    exact Group.removeNode hw hnode (hnodes'.trans hnodes) (htouched.foldl_deleteConnectionOf
      (fun e he => .inr ((touches_congr editor.state hnodes e).mp he)) _)

theorem Group.foldl_deleteNode
    (h : Group isConnectionAllowed workflow (fun e => ¬ BothThere editor.state e) editor)
    (ids : List String) :
    let editor' := ids.foldl
      (fun editor id => Canvas.deleteNode isConnectionAllowed true id editor) editor
    Group isConnectionAllowed workflow (fun e => ¬ BothThere editor'.state e) editor' := by
  induction ids generalizing editor with
  | nil => exact h
  | cons id ids ih => exact ih h.deleteNode

end Steps

section Undone
variable (isConnectionAllowed : INodeUi δ → INodeUi δ → Connection → Connection → Bool)
  {workflow : IWorkflowDb δ}

/-- What undoing gives back, for every deletion. -/
theorem givesBack_deleteNodes (hw : workflow.WellFormed) (ids : List String) :
    let deleted := deleteNodes isConnectionAllowed ids workflow
    GivesBack isConnectionAllowed workflow deleted.commands deleted.state := by
  have hinit : Group isConnectionAllowed workflow (fun e => ¬ BothThere workflow e)
      ⟨workflow, []⟩ :=
    ⟨hw, fun t ht => ⟨ht, fun e => by simp [undo, UndoGroups.revertAll]⟩,
      fun _ he => absurd he List.not_mem_nil⟩
  have h : Group isConnectionAllowed workflow _ (deleteNodes isConnectionAllowed ids workflow) :=
    Group.foldl_deleteNode hinit ids
  exact h.givesBack _ ⟨h.wellFormed, fun _ => Iff.rfl⟩

/-- Undoing loses a connection of the workflow once the group has a command for adding it. -/
theorem not_undone_of_recorded_addition (hw : workflow.WellFormed) {ids : List String}
    {e : Connection × Connection} (he : e ∈ ends workflow.connections)
    (hrecorded : .addConnection e ∈ (deleteNodes isConnectionAllowed ids workflow).commands) :
    ¬ DeletionUndone isConnectionAllowed ids workflow := fun hundone =>
  (((givesBack_deleteNodes isConnectionAllowed hw ids).2 e).mp
    ((hundone.1.connections e).mpr he)).1 hrecorded

end Undone

end N8n.Canvas
