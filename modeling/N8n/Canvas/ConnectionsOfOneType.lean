import N8n.Canvas.UndoneConnections

/-!
# Deletions among connections of one type

Where every connection is allowed and all are of one type, a command is equal to one of
the group only if it is that one, and a connection that was added is there until one of
its nodes is deleted. Then no later step makes up for one that was not recorded.
-/

namespace N8n.Canvas

open Runs (EveryStep trace)

variable {δ : Type}

def HasType (type : NodeConnectionType) (e : Connection × Connection) : Prop :=
  e.1.type = type ∧ e.2.type = type

theorem HasType.eq {type : NodeConnectionType} {e e' : Connection × Connection}
    (h : HasType type e) (h' : HasType type e') (heq : Command.equalEnds e e' = true) : e = e' := by
  obtain ⟨⟨_, _, _⟩, ⟨_, _, _⟩⟩ := e
  obtain ⟨⟨_, _, _⟩, ⟨_, _, _⟩⟩ := e'
  obtain ⟨hsource, htarget, hsourceIndex, htargetIndex⟩ := of_decide_eq_true heq
  simp only [Prod.mk.injEq, Connection.mk.injEq]
  exact ⟨⟨hsource.symm, h.1.trans h'.1.symm, hsourceIndex.symm⟩,
    htarget.symm, h.2.trans h'.2.symm, htargetIndex.symm⟩

/-- The connections and the commands of an editor. What was added is there or gone with a node,
and what was removed is gone. -/
structure Tracked (type : NodeConnectionType) (workflow : IWorkflowDb δ)
    (gone : Connection × Connection → Prop) (editor : Editor δ) : Prop where
  wellFormed : editor.state.WellFormed
  typed : ∀ e ∈ ends editor.state.connections, HasType type e
  additions : ∀ e, .addConnection e ∈ editor.commands → HasType type e
  removals : ∀ e, .removeConnection e ∈ editor.commands → HasType type e
  origin : ∀ e ∈ ends editor.state.connections,
    e ∈ ends workflow.connections ∨ .addConnection e ∈ editor.commands
  added : ∀ e, .addConnection e ∈ editor.commands → e ∈ ends editor.state.connections ∨ gone e
  there : ∀ e ∈ ends editor.state.connections, .addConnection e ∈ editor.commands →
    BothThere editor.state e
  removed : ∀ e, .removeConnection e ∈ editor.commands →
    gone e ∧ e ∉ ends editor.state.connections

theorem Tracked.mono {type : NodeConnectionType} {workflow : IWorkflowDb δ}
    {gone gone' : Connection × Connection → Prop} {editor : Editor δ}
    (h : Tracked type workflow gone editor) (hgone : ∀ e, gone e → gone' e) :
    Tracked type workflow gone' editor :=
  { h with
    added := fun e he => (h.added e he).imp_right (hgone e)
    removed := fun e he => (h.removed e he).imp_left (hgone e) }

/-- Nothing has been recorded yet. -/
theorem Tracked.start {type : NodeConnectionType} {workflow : IWorkflowDb δ}
    (hw : workflow.WellFormed) (htyped : ∀ e ∈ ends workflow.connections, HasType type e) :
    Tracked type workflow (fun e => ¬ BothThere workflow e) ⟨workflow, []⟩ where
  wellFormed := hw
  typed := htyped
  additions _ he := absurd he List.not_mem_nil
  removals _ he := absurd he List.not_mem_nil
  origin _ := .inl
  added _ he := absurd he List.not_mem_nil
  there _ _ he := absurd he List.not_mem_nil
  removed _ he := absurd he List.not_mem_nil

section Commands
variable {type : NodeConnectionType} {editor : Editor δ} {e : Connection × Connection}

theorem alreadyIn_addConnection
    (h : ∀ e, .addConnection e ∈ editor.commands → HasType type e) (he : HasType type e) :
    alreadyIn (.addConnection e) editor = true ↔ .addConnection e ∈ editor.commands := by
  rw [alreadyIn, List.any_eq_true]
  constructor
  · rintro ⟨c, hc, heq⟩
    cases c with
    | addConnection e' =>
      rw [← (h e' hc).eq he heq]
      exact hc
    | _ => cases heq
  · exact fun hmem => ⟨_, hmem, Command.equalEnds_self e⟩

theorem alreadyIn_removeConnection
    (h : ∀ e, .removeConnection e ∈ editor.commands → HasType type e) (he : HasType type e) :
    alreadyIn (.removeConnection e) editor = true ↔ .removeConnection e ∈ editor.commands := by
  rw [alreadyIn, List.any_eq_true]
  constructor
  · rintro ⟨c, hc, heq⟩
    cases c with
    | removeConnection e' =>
      rw [← (h e' hc).eq he heq]
      exact hc
    | _ => cases heq
  · exact fun hmem => ⟨_, hmem, Command.equalEnds_self e⟩

theorem mem_commands_track {c c' : Command δ} {s : IWorkflowDb δ}
    (h : alreadyIn c editor = true → c ∈ editor.commands) :
    c' ∈ (track true c { editor with state := s }).commands ↔
      c' ∈ editor.commands ∨ c' = c := by
  cases halready : alreadyIn c editor with
  | true =>
    rw [track_of_alreadyIn halready]
    exact (or_iff_left_of_imp fun heq => heq ▸ h halready).symm
  | false =>
    rw [track_of_not_alreadyIn halready, List.mem_append, List.mem_singleton]

theorem commands_subset_track (c : Command δ) (s : IWorkflowDb δ) :
    editor.commands ⊆ (track true c { editor with state := s }).commands := by
  rcases track_true editor c s with hsame | hpushed
  · rw [hsame]
    exact List.Subset.refl _
  · rw [hpushed]
    exact List.subset_append_left _ _

end Commands

section Steps
variable {isConnectionAllowed : INodeUi δ → INodeUi δ → Connection → Connection → Bool}
  {type : NodeConnectionType} {workflow : IWorkflowDb δ}
  {gone : Connection × Connection → Prop} {editor : Editor δ} {e : Connection × Connection}
  {node : INodeUi δ}

theorem Tracked.connectAdjacent
    (hallowed : ∀ source target c c', isConnectionAllowed source target c c' = true)
    (h : Tracked type workflow gone editor) (hgone : ∀ e, gone e → ¬ BothThere editor.state e)
    (he : HasType type e) :
    Tracked type workflow gone (Canvas.connectAdjacent isConnectionAllowed true editor e) := by
  rcases connectAdjacent_cases isConnectionAllowed true e h.wellFormed with
    hsame | ⟨source, target, hsource, htarget, -, hstep⟩
  · rw [hsame]
    exact h
  · rw [hstep, if_pos (hallowed _ _ _ _)]
    have hthere : BothThere editor.state e := by
      rw [BothThere, hsource, htarget]
      exact ⟨rfl, rfl⟩
    have hcommands : ∀ c, c ∈ (track true (.addConnection e)
        { editor with state := editor.state.addConnection e }).commands ↔
        c ∈ editor.commands ∨ c = .addConnection e := fun c =>
      mem_commands_track (alreadyIn_addConnection h.additions he).mp
    have hends : ∀ e', e' ∈ ends (editor.state.addConnection e).connections ↔
        e' = e ∨ e' ∈ ends editor.state.connections := fun _ => mem_ends_addConnection
    constructor <;> simp only [hcommands, track_state, hends, reduceCtorEq, or_false,
      Command.addConnection.injEq]
    case wellFormed => exact h.wellFormed.addConnection e
    case typed => exact fun e' => Or.rec (fun heq => heq ▸ he) (h.typed e')
    case additions => exact fun e' => Or.rec (h.additions e') (fun heq => heq ▸ he)
    case removals => exact h.removals
    case origin =>
      rintro e' (heq | hmem)
      · exact .inr (.inr heq)
      · exact (h.origin e' hmem).imp_right .inl
    case added =>
      rintro e' (hadded | heq)
      · exact (h.added e' hadded).imp_left .inr
      · exact .inl (.inl heq)
    case there =>
      rintro e' hmem hadded
      by_cases heq : e' = e
      · exact heq ▸ hthere
      · exact h.there e' (hmem.resolve_left heq) (hadded.resolve_right heq)
    case removed =>
      intro e' hremoved
      obtain ⟨hgone', hnot⟩ := h.removed e' hremoved
      exact ⟨hgone', not_or.mpr ⟨fun heq => hgone e' hgone' (heq ▸ hthere), hnot⟩⟩

theorem Tracked.deleteConnectionOf (h : Tracked type workflow gone editor)
    (hgone : ∀ e, Touches editor.state node e → gone e) (he : HasType type e) :
    Tracked type workflow gone (Canvas.deleteConnectionOf true node editor e) := by
  by_cases htouches : Touches editor.state node e
  · rw [deleteConnectionOf_of_touches h.wellFormed htouches]
    have hcommands : ∀ c, c ∈ (track true (.removeConnection e)
        { editor with state := editor.state.removeConnection e }).commands ↔
        c ∈ editor.commands ∨ c = .removeConnection e := fun c =>
      mem_commands_track (alreadyIn_removeConnection h.removals he).mp
    have hends : ∀ e', e' ∈ ends (editor.state.removeConnection e).connections ↔
        e' ≠ e ∧ e' ∈ ends editor.state.connections := fun _ =>
      mem_ends_removeConnection h.wellFormed.connections
    constructor <;> simp only [hcommands, track_state, hends, reduceCtorEq, or_false,
      Command.removeConnection.injEq]
    case wellFormed => exact h.wellFormed.removeConnection e
    case typed => exact fun e' hmem => h.typed e' hmem.2
    case additions => exact h.additions
    case removals => exact fun e' => Or.rec (h.removals e') (fun heq => heq ▸ he)
    case origin => exact fun e' hmem => h.origin e' hmem.2
    case added =>
      intro e' hadded
      by_cases heq : e' = e
      · exact .inr (hgone e' (heq ▸ htouches))
      · exact (h.added e' hadded).imp_left fun hmem => ⟨heq, hmem⟩
    case there => exact fun e' hmem => h.there e' hmem.2
    case removed =>
      rintro e' (hremoved | heq)
      · obtain ⟨hgone', hnot⟩ := h.removed e' hremoved
        exact ⟨hgone', fun hmem => hnot hmem.2⟩
      · exact ⟨hgone e' (heq ▸ htouches), fun hmem => hmem.1 heq⟩
  · rw [deleteConnectionOf_of_not_touches htouches]
    exact h

theorem Tracked.removeNode {s : IWorkflowDb δ} (hs : s.WellFormed) (hnode : node ∈ s.nodes)
    (hnodes : editor.state.nodes = s.nodes)
    (huntouched : ∀ e ∈ ends editor.state.connections, ¬ Touches s node e)
    (h : Tracked type workflow (fun e => ¬ BothThere s e ∨ Touches s node e) editor) :
    let removed := (editor.state.deleteConnections node.name).removeNode node
    Tracked type workflow (fun e => ¬ BothThere removed e)
      ⟨removed, editor.commands ++ [.removeNode node]⟩ := by
  intro removed
  have hthere : ∀ e, BothThere removed e ↔ BothThere s e ∧ ¬ Touches s node e := fun e =>
    bothThere_removeNode hs hnode (congrArg (List.eraseP _) hnodes)
  have hends : ∀ e, e ∈ ends removed.connections ↔
      e.1.node ≠ node.name ∧ e ∈ ends editor.state.connections := fun _ => mem_ends_delete
  constructor <;> simp only [hends, hthere, List.mem_append, List.mem_singleton, reduceCtorEq,
    or_false]
  case wellFormed => exact (h.wellFormed.deleteConnections _).removeNode node
  case typed => exact fun e hmem => h.typed e hmem.2
  case additions => exact h.additions
  case removals => exact h.removals
  case origin => exact fun e hmem => h.origin e hmem.2
  case added =>
    intro e hadded
    by_cases hgone : ¬ BothThere s e ∨ Touches s node e
    · exact .inr (not_and_or.mpr (hgone.imp_right not_not.mpr))
    · obtain ⟨hboth, htouches⟩ := not_or.mp hgone
      have hboth := not_not.mp hboth
      refine .inl ⟨fun hname => htouches ?_, (h.added e hadded).resolve_right hgone⟩
      exact (touches_iff hs hnode).mpr ⟨hboth, .inr hname⟩
  case there =>
    exact fun e hmem hadded => ⟨(bothThere_congr hnodes e).mp (h.there e hmem.2 hadded),
      huntouched e hmem.2⟩
  case removed =>
    intro e hremoved
    obtain ⟨hgone, hnot⟩ := h.removed e hremoved
    exact ⟨not_and_or.mpr (hgone.imp_right not_not.mpr), fun hmem => hnot hmem.2⟩

end Steps

/-! ### The loops -/

section Loops
variable {isConnectionAllowed : INodeUi δ → INodeUi δ → Connection → Connection → Bool}
  {type : NodeConnectionType} {workflow : IWorkflowDb δ}
  {gone : Connection × Connection → Prop} {editor : Editor δ} {e : Connection × Connection}
  {node : INodeUi δ} {es : List (Connection × Connection)}

theorem hasType_of_mem_adjacentConnections {connections : IConnections} {name : String}
    (h : ∀ e ∈ ends connections, HasType type e) (he : e ∈ adjacentConnections connections name) :
    HasType type e := by
  simp only [adjacentConnections, List.mem_flatMap, List.mem_map] at he
  obtain ⟨⟨type', lists⟩, -, incoming, -, outgoing, houtgoing, rfl⟩ := he
  have htype : type' = type :=
    (h (⟨name, type', 0⟩, outgoing) (mem_ends.mpr houtgoing)).1
  exact ⟨htype, htype⟩

theorem Tracked.foldl_connectAdjacent
    (hallowed : ∀ source target c c', isConnectionAllowed source target c c' = true)
    (h : Tracked type workflow gone editor) (hgone : ∀ e, gone e → ¬ BothThere editor.state e)
    (hes : ∀ e ∈ es, HasType type e) :
    Tracked type workflow gone (es.foldl (Canvas.connectAdjacent isConnectionAllowed true) editor) ∧
      editor.commands ⊆
        (es.foldl (Canvas.connectAdjacent isConnectionAllowed true) editor).commands := by
  induction es generalizing editor with
  | nil => exact ⟨h, List.Subset.refl _⟩
  | cons e es ih =>
    obtain ⟨-, hnodes, -⟩ := Canvas.foldl_connectAdjacent isConnectionAllowed true h.wellFormed [e]
    have hnext := h.connectAdjacent hallowed hgone (hes e List.mem_cons_self)
    obtain ⟨hlast, hsubset⟩ := ih hnext
      (fun e' he' => (bothThere_congr hnodes e').not.mpr (hgone e' he'))
      fun e' he' => hes e' (List.mem_cons_of_mem e he')
    refine ⟨hlast, List.Subset.trans ?_ hsubset⟩
    rcases connectAdjacent_cases isConnectionAllowed true e h.wellFormed with
      hsame | ⟨_, _, -, -, -, hstep⟩
    · rw [hsame]
      exact List.Subset.refl _
    · rw [hstep]
      exact commands_subset_track _ _

theorem Tracked.bridgesRecorded
    (hallowed : ∀ source target c c', isConnectionAllowed source target c c' = true)
    (h : Tracked type workflow gone editor) (hgone : ∀ e, gone e → ¬ BothThere editor.state e)
    (hes : ∀ e ∈ es, HasType type e) (commands : List (Command δ))
    (hlost : ∀ e ∈ ends workflow.connections, .addConnection e ∉ commands)
    (hsubset : (es.foldl (Canvas.connectAdjacent isConnectionAllowed true) editor).commands ⊆
      commands) :
    EveryStep (BridgeRecorded isConnectionAllowed) editor
      (trace (Canvas.connectAdjacent isConnectionAllowed true) editor es) := by
  induction es generalizing editor with
  | nil => trivial
  | cons e es ih =>
    obtain ⟨-, hnodes, -⟩ := Canvas.foldl_connectAdjacent isConnectionAllowed true h.wellFormed [e]
    have he := hes e List.mem_cons_self
    have hrest : ∀ e' ∈ es, HasType type e' := fun e' he' => hes e' (List.mem_cons_of_mem e he')
    have hnext := h.connectAdjacent hallowed hgone he
    have hgone' : ∀ e', gone e' → ¬ BothThere
        (Canvas.connectAdjacent isConnectionAllowed true editor e).state e' :=
      fun e' he' => (bothThere_congr hnodes e').not.mpr (hgone e' he')
    refine ⟨fun source hsource target htarget hids => ?_, ih hnext hgone' hrest hsubset⟩
    have halready := alreadyIn_addConnection h.additions he
    rw [hallowed, eq_self_iff_true, true_and, ← Bool.not_eq_true, halready]
    refine not_congr ⟨fun hadded => ?_, fun hmem => ?_⟩
    · refine (h.added e hadded).resolve_right fun hgone'' => hgone e hgone'' ?_
      exact ⟨Option.isSome_iff_exists.mpr ⟨source, hsource⟩,
        Option.isSome_iff_exists.mpr ⟨target, htarget⟩⟩
    · -- The command that is recorded else stays in the group, and undoing loses the connection.
      refine (h.origin e hmem).resolve_left fun hworkflow => hlost e hworkflow (hsubset ?_)
      refine (hnext.foldl_connectAdjacent hallowed hgone' hrest).2 ?_
      rw [connectAdjacent_of_names isConnectionAllowed true h.wellFormed hsource htarget hids]
      exact (mem_commands_track halready.mp).mpr (.inr rfl)

theorem Tracked.foldl_deleteConnectionOf (h : Tracked type workflow gone editor)
    (hgone : ∀ e, Touches editor.state node e → gone e) (hes : ∀ e ∈ es, HasType type e) :
    Tracked type workflow gone (es.foldl (Canvas.deleteConnectionOf true node) editor) ∧
      editor.commands ⊆ (es.foldl (Canvas.deleteConnectionOf true node) editor).commands := by
  induction es generalizing editor with
  | nil => exact ⟨h, List.Subset.refl _⟩
  | cons e es ih =>
    obtain ⟨-, hnodes, -⟩ := Canvas.foldl_deleteConnectionOf true node h.wellFormed [e]
    have hnext := h.deleteConnectionOf hgone (hes e List.mem_cons_self)
    obtain ⟨hlast, hsubset⟩ := ih hnext
      (fun e' he' => hgone e' ((touches_congr editor.state hnodes e').mp he'))
      fun e' he' => hes e' (List.mem_cons_of_mem e he')
    refine ⟨hlast, List.Subset.trans ?_ hsubset⟩
    by_cases htouches : Touches editor.state node e
    · rw [deleteConnectionOf_of_touches h.wellFormed htouches]
      exact commands_subset_track _ _
    · rw [deleteConnectionOf_of_not_touches htouches]
      exact List.Subset.refl _

/-- What is removed is there, and no command of the group has removed it. -/
theorem Tracked.removalsRecorded (h : Tracked type workflow gone editor)
    (hgone : ∀ e, Touches editor.state node e → gone e) (hnodup : es.Nodup)
    (hes : ∀ e ∈ es, e ∈ ends editor.state.connections) :
    EveryStep (RemovalRecorded node) editor
      (trace (Canvas.deleteConnectionOf true node) editor es) := by
  induction es generalizing editor with
  | nil => trivial
  | cons e es ih =>
    obtain ⟨hnot, hnodup⟩ := List.nodup_cons.mp hnodup
    obtain ⟨-, hnodes, hmem⟩ := Canvas.foldl_deleteConnectionOf true node h.wellFormed [e]
    have hthere := hes e List.mem_cons_self
    have he := h.typed e hthere
    refine ⟨fun _ _ _ _ _ => ?_, ih (h.deleteConnectionOf hgone he) ?_ hnodup ?_⟩
    · rw [← Bool.not_eq_true, alreadyIn_removeConnection h.removals he]
      exact iff_of_true (fun hremoved => (h.removed e hremoved).2 hthere) hthere
    · exact fun e' he' => hgone e' ((touches_congr editor.state hnodes e').mp he')
    · intro e' he'
      refine (hmem e').mpr ⟨hes e' (List.mem_cons_of_mem e he'), fun hsame => hnot ?_⟩
      rw [← List.mem_singleton.mp hsame.1]
      exact he'

theorem mem_commands_of_track {c c' : Command δ} {s : IWorkflowDb δ}
    (h : c' ∈ (track true c { editor with state := s }).commands) :
    c' ∈ editor.commands ∨ c' = c := by
  rcases track_true editor c s with hsame | hpushed
  · rw [hsame] at h
    exact .inl h
  · rw [hpushed] at h
    exact (List.mem_append.mp h).imp_right List.mem_singleton.mp

variable (isConnectionAllowed es) in
theorem mem_commands_foldl_connectAdjacent (hw : editor.state.WellFormed) (c : Command δ)
    (hc : c ∈ (es.foldl (Canvas.connectAdjacent isConnectionAllowed true) editor).commands) :
    c ∈ editor.commands ∨ ∃ e, c = .addConnection e := by
  induction es generalizing editor with
  | nil => exact .inl hc
  | cons e es ih =>
    obtain ⟨hw', -, -⟩ := Canvas.foldl_connectAdjacent isConnectionAllowed true hw [e]
    refine (ih hw' hc).elim (fun hc => ?_) .inr
    rcases connectAdjacent_cases isConnectionAllowed true e hw with
      hsame | ⟨_, _, -, -, -, hstep⟩
    · rw [List.foldl_cons, List.foldl_nil, hsame] at hc
      exact .inl hc
    · rw [List.foldl_cons, List.foldl_nil, hstep] at hc
      exact (mem_commands_of_track hc).imp_right fun heq => ⟨e, heq⟩

variable (node es) in
theorem mem_commands_foldl_deleteConnectionOf (hw : editor.state.WellFormed) (c : Command δ)
    (hc : c ∈ (es.foldl (Canvas.deleteConnectionOf true node) editor).commands) :
    c ∈ editor.commands ∨ ∃ e, c = .removeConnection e ∧ Touches editor.state node e := by
  induction es generalizing editor with
  | nil => exact .inl hc
  | cons e es ih =>
    obtain ⟨hw', hnodes, -⟩ := Canvas.foldl_deleteConnectionOf true node hw [e]
    rcases ih hw' hc with hc | ⟨e', heq, htouches⟩
    · by_cases htouches : Touches editor.state node e
      · rw [List.foldl_cons, List.foldl_nil, deleteConnectionOf_of_touches hw htouches] at hc
        exact (mem_commands_of_track hc).imp_right fun heq => ⟨e, heq, htouches⟩
      · rw [List.foldl_cons, List.foldl_nil, deleteConnectionOf_of_not_touches htouches] at hc
        exact .inl hc
    · exact .inr ⟨e', heq, (touches_congr editor.state hnodes e').mp htouches⟩

end Loops

/-! ### Connections to nodes that are missing -/

section Missing
variable (isConnectionAllowed : INodeUi δ → INodeUi δ → Connection → Connection → Bool)
  {editor : Editor δ} {e : Connection × Connection}

/-- A connection leads to a node that is missing, and no command of the group removed it. -/
structure Loose (e : Connection × Connection) (editor : Editor δ) : Prop where
  wellFormed : editor.state.WellFormed
  missing : editor.state.getNodeByName e.2.node = none
  kept : .removeConnection e ∉ editor.commands

/-- No command removes a loose connection; with its own node it is gone. -/
theorem Loose.deleteNode (h : Loose e editor) (id : String) :
    let deleted := Canvas.deleteNode isConnectionAllowed true id editor
    Loose e deleted ∧ (e ∈ ends deleted.state.connections → e ∈ ends editor.state.connections ∧
      ∀ node ∈ editor.state.getNodeById id, e.1.node ≠ node.name) := by
  have hw := h.wellFormed
  cases hid : editor.state.getNodeById id with
  | none =>
    rw [Canvas.deleteNode, hid]
    exact ⟨h, fun hmem => ⟨hmem, by simp⟩⟩
  | some node =>
    obtain ⟨hnode, rfl⟩ := (getNodeById_eq_some hw).mp hid
    rw [deleteNode_eq hw hnode]
    dsimp only
    rw [track_of_not_alreadyIn (alreadyIn_removeNode node _)]
    obtain ⟨hw', hnodes, hends⟩ := Canvas.foldl_connectAdjacent isConnectionAllowed true hw
      (adjacentConnections editor.state.connections node.name)
    have hcommands := mem_commands_foldl_connectAdjacent isConnectionAllowed
      (adjacentConnections editor.state.connections node.name) hw (.removeConnection e)
    generalize (adjacentConnections editor.state.connections node.name).foldl
      (Canvas.connectAdjacent isConnectionAllowed true) editor = connected
      at hw' hnodes hends hcommands ⊢
    obtain ⟨hw'', hnodes', hends'⟩ := Canvas.foldl_deleteConnectionOf true node hw'
      (ends connected.state.connections)
    have hcommands' := mem_commands_foldl_deleteConnectionOf node
      (ends connected.state.connections) hw' (.removeConnection e)
    generalize (ends connected.state.connections).foldl
      (Canvas.deleteConnectionOf true node) connected = disconnected
      at hw'' hnodes' hends' hcommands' ⊢
    refine ⟨⟨(hw''.deleteConnections _).removeNode node, ?_, ?_⟩, fun hmem => ?_⟩
    · refine Option.eq_none_iff_forall_not_mem.mpr fun node' hname => ?_
      obtain ⟨hin, hname⟩ :=
        (getNodeByName_eq_some ((hw''.deleteConnections _).removeNode node)).mp hname
      have hin := ((mem_removeNode (hw''.deleteConnections _)).mp hin).1
      have hfound := (getNodeByName_eq_some hw).mpr ⟨(hnodes'.trans hnodes) ▸ hin, hname⟩
      exact Option.some_ne_none node' (hfound.symm.trans h.missing)
    · rw [List.mem_append, List.mem_singleton, or_iff_left (by simp)]
      intro hremoved
      rcases hcommands' hremoved with hremoved | ⟨e', heq, htouches⟩
      · refine (hcommands hremoved).elim h.kept ?_
        rintro ⟨e', heq⟩
        cases heq
      · obtain rfl := Command.removeConnection.inj heq
        obtain ⟨_, target, -, htarget, -⟩ := (touches_congr editor.state hnodes e).mp htouches
        exact Option.some_ne_none target (htarget.symm.trans h.missing)
    · obtain ⟨hname, hmem⟩ := mem_ends_delete.mp hmem
      refine ⟨(hends e ((hends' e).mp hmem).1).resolve_right fun hsome => ?_, ?_⟩
      · rw [h.missing] at hsome
        exact absurd hsome Bool.false_ne_true
      · intro node' hnode'
        exact Option.some.inj hnode' ▸ hname

theorem Loose.foldl_deleteNode (h : Loose e editor) (hmem : e ∉ ends editor.state.connections)
    (ids : List String) :
    let deleted := ids.foldl
      (fun editor id => Canvas.deleteNode isConnectionAllowed true id editor) editor
    Loose e deleted ∧ e ∉ ends deleted.state.connections := by
  induction ids generalizing editor with
  | nil => exact ⟨h, hmem⟩
  | cons id ids ih =>
    obtain ⟨hnext, hmem'⟩ := h.deleteNode isConnectionAllowed id
    exact ih hnext fun hin => hmem (hmem' hin).1

end Missing

section Deletion
variable {isConnectionAllowed : INodeUi δ → INodeUi δ → Connection → Connection → Bool}
  {type : NodeConnectionType} {workflow : IWorkflowDb δ} {editor : Editor δ}

/-- A deletion keeps track of the connections, and the commands before it stay. Its steps are
recorded if no command adds a connection of the workflow. -/
theorem Tracked.deleteNode
    (hallowed : ∀ source target c c', isConnectionAllowed source target c c' = true)
    (h : Tracked type workflow (fun e => ¬ BothThere editor.state e) editor) (id : String) :
    let deleted := Canvas.deleteNode isConnectionAllowed true id editor
    Tracked type workflow (fun e => ¬ BothThere deleted.state e) deleted ∧
      editor.commands ⊆ deleted.commands ∧
      ((∀ e ∈ ends workflow.connections, .addConnection e ∉ deleted.commands) →
        (∀ node ∈ editor.state.getNodeById id, ∀ e ∈ ends editor.state.connections,
          e.1.node = node.name → (editor.state.getNodeByName e.2.node).isSome = true) →
        DeletionRecorded isConnectionAllowed editor id) := by
  have hw := h.wellFormed
  cases hid : editor.state.getNodeById id with
  | none =>
    rw [Canvas.deleteNode, hid]
    refine ⟨h, List.Subset.refl _, fun _ _ node hnode => ?_⟩
    rw [hid] at hnode
    contradiction
  | some node =>
    obtain ⟨hnode, rfl⟩ := (getNodeById_eq_some hw).mp hid
    rw [deleteNode_eq hw hnode]
    dsimp only
    rw [track_of_not_alreadyIn (alreadyIn_removeNode node _)]
    have hadjacent : ∀ e ∈ adjacentConnections editor.state.connections node.name,
        HasType type e := fun e => hasType_of_mem_adjacentConnections h.typed
    obtain ⟨-, hnodes, -⟩ := Canvas.foldl_connectAdjacent isConnectionAllowed true hw
      (adjacentConnections editor.state.connections node.name)
    obtain ⟨htracked, hsubset⟩ := h.foldl_connectAdjacent hallowed (fun _ => id) hadjacent
    have hbridges := h.bridgesRecorded hallowed (fun _ => id) hadjacent
    have hconnected : connectAdjacentNodes isConnectionAllowed true node.id editor =
        (adjacentConnections editor.state.connections node.name).foldl
          (Canvas.connectAdjacent isConnectionAllowed true) editor := by
      rw [connectAdjacentNodes, hid]
    generalize (adjacentConnections editor.state.connections node.name).foldl
      (Canvas.connectAdjacent isConnectionAllowed true) editor = connected
      at hnodes htracked hsubset hbridges hconnected ⊢
    have htouched : Tracked type workflow
        (fun e => ¬ BothThere editor.state e ∨ Touches editor.state node e) connected :=
      htracked.mono fun _ => .inl
    have hgone : ∀ e, Touches connected.state node e →
        ¬ BothThere editor.state e ∨ Touches editor.state node e :=
      fun e htouches => .inr ((touches_congr editor.state hnodes e).mp htouches)
    have hremovals := htouched.removalsRecorded hgone htracked.wellFormed.connections
      fun _ => id
    obtain ⟨-, hnodes', hends⟩ := Canvas.foldl_deleteConnectionOf true node htracked.wellFormed
      (ends connected.state.connections)
    obtain ⟨hdisconnected, hsubset'⟩ := htouched.foldl_deleteConnectionOf hgone htracked.typed
    generalize (ends connected.state.connections).foldl
      (Canvas.deleteConnectionOf true node) connected = disconnected
      at hnodes' hends hdisconnected hsubset' ⊢
    have huntouched : ∀ e ∈ ends disconnected.state.connections,
        ¬ Touches editor.state node e := by
      intro e he htouches
      obtain ⟨hold, hnot⟩ := (hends e).mp he
      exact hnot ⟨hold, (touches_congr editor.state hnodes e).mpr htouches⟩
    have hlast := List.subset_append_left disconnected.commands [Command.removeNode node]
    refine ⟨hdisconnected.removeNode hw hnode (hnodes'.trans hnodes) huntouched,
      List.Subset.trans (List.Subset.trans hsubset hsubset') hlast, fun hlost hleads node' hnode' => ?_⟩
    obtain rfl := Option.some.inj (hid.symm.trans hnode')
    refine ⟨hbridges _ hlost (List.Subset.trans hsubset' hlast), ?_, hleads _ rfl⟩
    rw [hconnected]
    exact hremovals

/-- If undoing gives back the connections, each step of the deletion was recorded. -/
theorem Tracked.deletionsRecorded
    (hallowed : ∀ source target c c', isConnectionAllowed source target c c' = true)
    {final : Editor δ}
    (hundone : ∀ e ∈ ends workflow.connections, .addConnection e ∉ final.commands ∧
      (e ∈ ends final.state.connections ∨ .removeConnection e ∈ final.commands))
    {ids : List String} (h : Tracked type workflow (fun e => ¬ BothThere editor.state e) editor)
    (hfinal : ids.foldl
      (fun editor id => Canvas.deleteNode isConnectionAllowed true id editor) editor = final) :
    editor.commands ⊆ final.commands ∧ EveryStep (DeletionRecorded isConnectionAllowed) editor
      (trace (fun editor id => Canvas.deleteNode isConnectionAllowed true id editor) editor
        ids) := by
  induction ids generalizing editor with
  | nil => exact ⟨hfinal ▸ List.Subset.refl _, trivial⟩
  | cons id ids ih =>
    obtain ⟨hnext, hsubset, hrecorded⟩ := h.deleteNode hallowed id
    obtain ⟨hrest, hsteps⟩ := ih hnext hfinal
    refine ⟨List.Subset.trans hsubset hrest, hrecorded ?_ ?_, hsteps⟩
    · exact fun e he hadded => (hundone e he).1 (hrest hadded)
    · intro node hnode e hmem hname
      by_contra hnone
      have hmissing := Option.not_isSome_iff_eq_none.mp hnone
      have hkept : .removeConnection e ∉ editor.commands :=
        fun hremoved => (h.removed e hremoved).2 hmem
      -- The connection was not added, since its other node is missing.
      have hworkflow : e ∈ ends workflow.connections := (h.origin e hmem).resolve_right
        fun hadded => hnone (h.there e hmem hadded).2
      have hloose : Loose e editor := ⟨h.wellFormed, hmissing, hkept⟩
      obtain ⟨hloose', hgone⟩ := hloose.deleteNode isConnectionAllowed id
      obtain ⟨hlast, hnot⟩ := hloose'.foldl_deleteNode isConnectionAllowed
        (fun hin => (hgone hin).2 node hnode hname) ids
      rw [List.foldl_cons] at hfinal
      rw [hfinal] at hlast hnot
      exact (hundone e hworkflow).2.elim hnot hlast.kept

end Deletion

/-- A deletion that records what it does is undone, and redone. Where every connection is allowed
and all are of one type, no other deletion is. -/
theorem deletionUndone_of_recorded
    (isConnectionAllowed : INodeUi δ → INodeUi δ → Connection → Connection → Bool)
    {workflow : IWorkflowDb δ} (hw : workflow.WellFormed) (ids : List String) :
    (EveryStep (DeletionRecorded isConnectionAllowed) ⟨workflow, []⟩
        (trace (fun editor id => deleteNode isConnectionAllowed true id editor) ⟨workflow, []⟩
          ids) →
      DeletionUndone isConnectionAllowed ids workflow) ∧
    ((∀ source target c c', isConnectionAllowed source target c c' = true) →
      (∃ type, ∀ e ∈ ends workflow.connections, HasType type e) →
      DeletionUndone isConnectionAllowed ids workflow →
      EveryStep (DeletionRecorded isConnectionAllowed) ⟨workflow, []⟩
        (trace (fun editor id => deleteNode isConnectionAllowed true id editor) ⟨workflow, []⟩
          ids)) := by
  refine ⟨deleteNodes_undone_of_recorded isConnectionAllowed hw ids, ?_⟩
  rintro hallowed ⟨type, htyped⟩ hundone
  have hback : ∀ e ∈ ends workflow.connections,
      .addConnection e ∉ (deleteNodes isConnectionAllowed ids workflow).commands ∧
        (e ∈ ends (deleteNodes isConnectionAllowed ids workflow).state.connections ∨
          .removeConnection e ∈ (deleteNodes isConnectionAllowed ids workflow).commands) :=
    fun e he => ((givesBack_deleteNodes isConnectionAllowed hw ids).2 e).mp
      ((hundone.1.connections e).mpr he)
  exact ((Tracked.start hw htyped).deletionsRecorded hallowed hback rfl).2

/-! ### Paths past the deleted node -/

section Paths

def mainConnection (source target : String) : Connection × Connection :=
  (⟨source, .main, 0⟩, ⟨target, .main, 0⟩)

/-- One node after the other. -/
def chained : IWorkflowDb Unit where
  nodes := [⟨"1", "Before", ()⟩, ⟨"2", "Between", ()⟩, ⟨"3", "After", ()⟩]
  connections :=
    [mainConnection "Before" "Between", mainConnection "Between" "After"].foldl
      (fun connections e => addConnection connections e.1 e.2) .empty

theorem chained_wellFormed : chained.WellFormed := ⟨by decide, by decide, by decide⟩

theorem chained_undone :
    chained.WellFormed ∧
      EveryStep (DeletionRecorded fun _ _ _ _ => true) ⟨chained, []⟩
        (trace (fun editor id => deleteNode (fun _ _ _ _ => true) true id editor) ⟨chained, []⟩
          ["2"]) ∧
      DeletionUndone (fun _ _ _ _ => true) ["2"] chained :=
  ⟨chained_wellFormed, by decide,
    (deletionUndone_of_recorded _ chained_wellFormed ["2"]).1 (by decide)⟩

/-- The first node leads to the last one past the node between them. -/
def bypassed : IWorkflowDb Unit := chained.addConnection (mainConnection "Before" "After")

/-- The connection past the node is there before the deletion, and undoing the deletion removes
it. -/
theorem not_undone_of_bypassed :
    ¬ ∀ (isConnectionAllowed : INodeUi Unit → INodeUi Unit → Connection → Connection → Bool)
        (workflow : IWorkflowDb Unit) (ids : List String), workflow.WellFormed →
        DeletionUndone isConnectionAllowed ids workflow := by
  intro h
  have hundone := (h (fun _ _ _ _ => true) bypassed ["2"] (chained_wellFormed.addConnection _)).1
  have hthere : mainConnection "Before" "After" ∈ ends bypassed.connections := by decide
  exact absurd ((hundone.connections _).mpr hthere) (by decide)

end Paths

end N8n.Canvas
