import N8n.EventBus.LogWriter
import N8n.Foundations.SplitLists

/-!
# The executions that a log reports as unfinished

Reading a log builds one entry for each execution: a start opens it, an end deletes it, and what
its nodes report is added to it. Only messages whose class is rebuilt count, and what a node reports
after the end opens the entry again.
-/

namespace N8n.EventBus

/-- The class whose names have this name. -/
def classOfEventName (name : String) : EventMessageClass :=
  if name ∈ eventNamesWorkflow then .workflow
  else if name ∈ eventNamesNode then .node
  else if name ∈ eventNamesExecution then .execution
  else if name ∈ eventNamesAudit then .audit
  else if name ∈ eventNamesAiNodes then .aiNode
  else if name ∈ eventNamesRunner then .runner
  else if name ∈ eventNamesQueue then .queue
  else .generic

section
variable {τ δ : Type}

def WrittenByClass (calls : List (WriterCall τ δ)) : Prop :=
  ∀ msg ∈ putMessages calls, msg.messageClass = classOfEventName msg.eventName.name

namespace EventMessage

def executionId (msg : EventMessage τ δ) : Option String :=
  msg.payload.bind AbstractEventPayload.executionId

def isStart (msg : EventMessage τ δ) : Bool := msg.eventName.name = "n8n.workflow.started"

def isEnd (msg : EventMessage τ δ) : Bool :=
  msg.eventName.name ∈ ["n8n.workflow.success", "n8n.workflow.failed",
    "n8n.execution.throttled", "n8n.execution.started-during-bootup"]

def isNodeEvent (msg : EventMessage τ δ) : Bool :=
  msg.eventName.name ∈ ["n8n.node.started", "n8n.node.finished"]

/-- An end whose class is rebuilt. -/
def isWorkflowEnd (msg : EventMessage τ δ) : Bool :=
  msg.eventName.name ∈ ["n8n.workflow.success", "n8n.workflow.failed"]

end EventMessage

def messagesOf (calls : List (WriterCall τ δ)) (executionId : String) : List (EventMessage τ δ) :=
  (putMessages calls).filter fun msg => msg.executionId = some executionId

/-- What the log is to report of the execution. -/
structure ReportsUnfinished (dateTime : DateTime τ) (mode : EventMessageReturnMode)
    (calls : List (WriterCall τ δ)) (executionId : String) : Prop where
  ended : ∀ before last after, messagesOf calls executionId = before ++ last :: after →
    last.isEnd = true → (∀ msg ∈ after, msg.isStart = false) →
      (readLoggedMessagesFromFile dateTime mode (writtenLines dateTime calls)).unfinishedExecutions
        executionId = none
  unended : ∀ before start after, messagesOf calls executionId = before ++ start :: after →
    start.isStart = true → (∀ msg ∈ after, msg.isStart = false ∧ msg.isEnd = false) →
      (readLoggedMessagesFromFile dateTime mode (writtenLines dateTime calls)).unfinishedExecutions
        executionId =
          some ((start :: after.filter EventMessage.isNodeEvent).map (·.rebuild dateTime))

/-- Every start and every node event comes before a success or a failure of the workflow. -/
def EachClosed (messages : List (EventMessage τ δ)) : Prop :=
  ∀ before msg after, messages = before ++ msg :: after →
    msg.isStart = true ∨ msg.isNodeEvent = true → ∃ last ∈ after, last.isWorkflowEnd = true

def ClosedOnceEnded (messages : List (EventMessage τ δ)) : Prop :=
  ∀ before last after, messages = before ++ last :: after →
    last.isEnd = true → (∀ msg ∈ after, msg.isStart = false) → EachClosed messages

/-! ### The entry of one execution -/

/-- What a message does to the entry of its execution. -/
def record (dateTime : DateTime τ) (entry : Option (List (EventMessage τ δ)))
    (msg : EventMessage τ δ) : Option (List (EventMessage τ δ)) :=
  if msg.isStart then some [msg.rebuild dateTime]
  else if msg.isWorkflowEnd then none
  else if msg.isNodeEvent then some (entry.getD [] ++ [msg.rebuild dateTime])
  else entry

variable {dateTime : DateTime τ} {mode : EventMessageReturnMode} {calls : List (WriterCall τ δ)}
  {msg : EventMessage τ δ} {messages : List (EventMessage τ δ)} {executionId : String}

theorem trackExecution_apply (hid : executionId ≠ "")
    (unfinishedExecutions : String → Option (List (EventMessage τ δ))) :
    trackExecution msg unfinishedExecutions executionId =
      if msg.executionId = some executionId then
        if msg.isStart then some [msg]
        else if msg.isEnd then none
        else if msg.isNodeEvent then some ((unfinishedExecutions executionId).getD [] ++ [msg])
        else unfinishedExecutions executionId
      else unfinishedExecutions executionId := by
  rw [trackExecution, ← EventMessage.executionId]
  simp only [EventMessage.isStart, EventMessage.isEnd, EventMessage.isNodeEvent, decide_eq_true_eq]
  cases hof : msg.executionId with
  | none => simp
  | some id =>
    by_cases h : id = executionId
    · subst h
      simp only [hid, if_false, if_true]
      split_ifs <;> simp
    · have hne : executionId ≠ id := Ne.symm h
      simp only [Option.some.injEq, h, if_false]
      split_ifs <;> simp [hne]

theorem isRebuilt_of_tracked (hclass : msg.messageClass = classOfEventName msg.eventName.name)
    (h : msg.isStart = true ∨ msg.isWorkflowEnd = true ∨ msg.isNodeEvent = true) :
    msg.messageClass.isRebuilt = true := by
  rw [hclass]
  simp only [EventMessage.isStart, EventMessage.isWorkflowEnd, EventMessage.isNodeEvent,
    decide_eq_true_eq, List.mem_cons, List.not_mem_nil, or_false] at h
  rcases h with hname | (hname | hname) | (hname | hname) <;> rw [hname] <;> decide

theorem isWorkflowEnd_of_isRebuilt
    (hclass : msg.messageClass = classOfEventName msg.eventName.name)
    (hrebuilt : msg.messageClass.isRebuilt = true) : msg.isWorkflowEnd = msg.isEnd := by
  have hname : msg.eventName.name ∉ eventNamesExecution := by
    intro hmem
    rw [hclass] at hrebuilt
    simp only [eventNamesExecution, List.mem_cons, List.not_mem_nil, or_false] at hmem
    rcases hmem with hname | hname <;> rw [hname] at hrebuilt <;> exact absurd hrebuilt (by decide)
  simp only [eventNamesExecution, List.mem_cons, List.not_mem_nil, or_false, not_or] at hname
  simp [EventMessage.isWorkflowEnd, EventMessage.isEnd, hname]

theorem unfinishedExecutions_put (hid : executionId ≠ "")
    (hclass : msg.messageClass = classOfEventName msg.eventName.name)
    (results : ReadMessagesFromLogFileResult τ δ) :
    (readLine dateTime mode results
        (.message (msg.serialize dateTime))).unfinishedExecutions executionId =
      if msg.executionId = some executionId then
        record dateTime (results.unfinishedExecutions executionId) msg
      else results.unfinishedExecutions executionId := by
  rw [readLine, EventMessage.serialize, if_pos (matchesEventName_of_mem msg.eventName.allowed),
    ← EventMessage.serialize, getEventMessageObjectByType_serialize]
  cases hrebuilt : msg.messageClass.isRebuilt with
  | true =>
    have htrack := @trackExecution_apply τ δ (msg.rebuild dateTime) executionId hid
      results.unfinishedExecutions
    rw [show (msg.rebuild dateTime).isEnd = msg.isEnd from rfl,
      ← isWorkflowEnd_of_isRebuilt hclass hrebuilt] at htrack
    exact htrack
  | false =>
    have hnone : ∀ kind, msg.isStart = kind ∨ msg.isWorkflowEnd = kind ∨ msg.isNodeEvent = kind →
        kind = false := by
      intro kind hkind
      cases kind with
      | false => rfl
      | true => rw [isRebuilt_of_tracked hclass hkind] at hrebuilt; cases hrebuilt
    simp [record, hnone _ (.inl rfl), hnone _ (.inr (.inl rfl)), hnone _ (.inr (.inr rfl))]

theorem messagesOf_concat (call : WriterCall τ δ) :
    messagesOf (calls ++ [call]) executionId = messagesOf calls executionId ++
      call.message?.toList.filter fun msg => msg.executionId = some executionId := by
  rw [messagesOf, putMessages_concat, List.filter_append, ← messagesOf]

/-- The entry is built from the messages of the execution alone. -/
theorem unfinishedExecutions_eq (dateTime : DateTime τ) (mode : EventMessageReturnMode)
    (hclass : WrittenByClass calls) (hid : executionId ≠ "") :
    (readLoggedMessagesFromFile dateTime mode (writtenLines dateTime calls)).unfinishedExecutions
      executionId = (messagesOf calls executionId).foldl (record dateTime) none := by
  induction calls using List.reverseRecOn with
  | nil => rfl
  | append_singleton calls call ih =>
    have hbefore : WrittenByClass calls := by
      intro msg hmsg
      refine hclass msg ?_
      rw [putMessages_concat]
      exact List.mem_append_left _ hmsg
    rw [read_concat, messagesOf_concat, List.foldl_append, ← ih hbefore]
    cases call with
    | putMessage msg =>
      have hmsg := hclass msg (by simp [putMessages_concat, WriterCall.message?])
      rw [WriterCall.line, unfinishedExecutions_put hid hmsg]
      by_cases hof : msg.executionId = some executionId <;> simp [WriterCall.message?, hof]
    | confirmMessageSent confirm =>
      rw [WriterCall.line, EventMessageConfirm.serialize, readLine]
      split <;> rfl

/-! ### When there is no entry -/

theorem eachClosed_nil : EachClosed ([] : List (EventMessage τ δ)) := by
  intro before msg after h
  simp at h

/-- A start, an end of the workflow and a node event have different names. -/
theorem not_open_of_isWorkflowEnd (h : msg.isWorkflowEnd = true) :
    ¬ (msg.isStart = true ∨ msg.isNodeEvent = true) := by
  simp only [EventMessage.isWorkflowEnd, decide_eq_true_eq, List.mem_cons, List.not_mem_nil,
    or_false] at h
  simp only [EventMessage.isStart, EventMessage.isNodeEvent, decide_eq_true_eq]
  rcases h with hname | hname <;> rw [hname] <;> decide

theorem eachClosed_concat : EachClosed (messages ++ [msg]) ↔
    msg.isWorkflowEnd = true ∨
      EachClosed messages ∧ msg.isStart = false ∧ msg.isNodeEvent = false := by
  rw [EachClosed, SplitLists.forall_split_concat]
  constructor
  · rintro ⟨hlast, hrest⟩
    cases hend : msg.isWorkflowEnd with
    | true => exact .inl rfl
    | false =>
      refine .inr ⟨fun before opening after hsplit hopen => ?_, by simpa [not_or] using hlast⟩
      obtain ⟨last, hmem, hlastEnd⟩ := hrest before opening after hsplit hopen
      rcases List.mem_append.mp hmem with hmem | hmem
      · exact ⟨last, hmem, hlastEnd⟩
      · rw [List.mem_singleton.mp hmem, hend] at hlastEnd
        cases hlastEnd
  · rintro (hend | ⟨hclosed, hstart, hnode⟩)
    · exact ⟨fun hopen => absurd hopen (not_open_of_isWorkflowEnd hend),
        fun before opening after _ _ => ⟨msg, by simp, hend⟩⟩
    · refine ⟨by simp [hstart, hnode], fun before opening after hsplit hopen => ?_⟩
      obtain ⟨last, hmem, hlast⟩ := hclosed before opening after hsplit hopen
      exact ⟨last, by simp [hmem], hlast⟩

theorem record_eq_none {entry : Option (List (EventMessage τ δ))} :
    record dateTime entry msg = none ↔
      msg.isWorkflowEnd = true ∨ entry = none ∧ msg.isStart = false ∧ msg.isNodeEvent = false := by
  rw [record]
  cases hend : msg.isWorkflowEnd with
  | true =>
    have hstart : msg.isStart = false := by
      simpa using fun h => not_open_of_isWorkflowEnd hend (.inl h)
    simp [hstart]
  | false => cases msg.isStart <;> cases msg.isNodeEvent <;> simp

theorem foldl_record_eq_none (dateTime : DateTime τ) :
    messages.foldl (record dateTime) none = none ↔ EachClosed messages := by
  induction messages using List.reverseRecOn with
  | nil => simp [eachClosed_nil]
  | append_singleton messages msg ih =>
    rw [List.foldl_concat, record_eq_none, eachClosed_concat, ih]

/-! ### When there is one -/

theorem foldl_record_nodeEvents {entry : List (EventMessage τ δ)}
    (h : ∀ msg ∈ messages, msg.isStart = false ∧ msg.isEnd = false) :
    messages.foldl (record dateTime) (some entry) =
      some (entry ++ (messages.filter EventMessage.isNodeEvent).map (·.rebuild dateTime)) := by
  induction messages generalizing entry with
  | nil => simp
  | cons msg messages ih =>
    obtain ⟨⟨hstart, hend⟩, hrest⟩ := List.forall_mem_cons.mp h
    have hworkflowEnd : msg.isWorkflowEnd = false := by
      simp only [EventMessage.isEnd, List.mem_cons, List.not_mem_nil, or_false,
        decide_eq_false_iff_not, not_or] at hend
      simp [EventMessage.isWorkflowEnd, hend.1, hend.2.1]
    rw [List.foldl_cons, record, hstart, hworkflowEnd]
    cases hnode : msg.isNodeEvent with
    | true => simp [ih hrest, hnode]
    | false => simp [ih hrest, hnode]

theorem reportsUnfinished_iff (dateTime : DateTime τ) (mode : EventMessageReturnMode)
    (calls : List (WriterCall τ δ)) (hclass : WrittenByClass calls) (executionId : String)
    (hid : executionId ≠ "") :
    ReportsUnfinished dateTime mode calls executionId ↔
      ClosedOnceEnded (messagesOf calls executionId) := by
  have hentry := unfinishedExecutions_eq dateTime mode hclass hid
  constructor
  · intro h before last after hsplit hlast hafter
    rw [← foldl_record_eq_none dateTime, ← hentry]
    exact h.ended before last after hsplit hlast hafter
  · intro h
    constructor
    · intro before last after hsplit hlast hafter
      rw [hentry, foldl_record_eq_none]
      exact h before last after hsplit hlast hafter
    · intro before start after hsplit hstart hafter
      rw [hentry, hsplit, List.foldl_append, List.foldl_cons]
      have hrecord : ∀ entry, record dateTime entry start = some [start.rebuild dateTime] := by
        intro entry
        rw [record, if_pos hstart]
      rw [hrecord, foldl_record_nodeEvents hafter]
      rfl

end

section Example

def ofExecution (messageClass : EventMessageClass) (id : String) (eventName : EventNamesTypes) :
    EventMessage Unit Unit :=
  ⟨messageClass, id, (), eventName, "", some ⟨some "7", ()⟩⟩

def started : EventMessage Unit Unit :=
  ofExecution .workflow "1" workflowStarted

def succeeded : EventMessage Unit Unit :=
  ofExecution .workflow "2" ⟨"n8n.workflow.success", by decide⟩

def throttled : EventMessage Unit Unit :=
  ofExecution .execution "2" executionThrottled.eventName

theorem succeeded_reportsUnfinished :
    ReportsUnfinished noTime .unfinished [.putMessage started, .putMessage succeeded] "7" := by
  refine (reportsUnfinished_iff noTime .unfinished _ ?_ "7" (by decide)).mpr ?_
  · unfold WrittenByClass
    decide
  · intro _ _ _ _ _ _
    refine (foldl_record_eq_none noTime).mp ?_
    decide

/-- The execution was throttled, which the log does not notice. -/
theorem throttled_not_reportsUnfinished :
    WrittenByClass [.putMessage started, .putMessage throttled] ∧
      ¬ ReportsUnfinished noTime .unfinished [.putMessage started, .putMessage throttled] "7" := by
  constructor
  · unfold WrittenByClass
    decide
  · intro h
    have hnone := h.ended [started] throttled [] rfl (by decide) (by simp)
    exact absurd (congrArg Option.isSome hnone) (by decide)

end Example

end N8n.EventBus
