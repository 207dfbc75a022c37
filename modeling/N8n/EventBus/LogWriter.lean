import Mathlib.Data.List.Basic
import Mathlib.Data.List.Induction
import Mathlib.Data.List.Perm.Basic
import Mathlib.Logic.Function.Basic

/-!
# The log of the event bus

Messages and confirmations are appended to a log file, one JSON text a line. A line is
modelled by the value that is read back from it. Reading rebuilds the messages by their type
and takes out those that a later line confirms.
-/

namespace N8n.EventBus

def eventNamesAiNodes : List String :=
  ["n8n.ai.memory.get.messages", "n8n.ai.memory.added.message", "n8n.ai.output.parser.parsed",
    "n8n.ai.retriever.get.relevant.documents", "n8n.ai.embeddings.embedded.document",
    "n8n.ai.embeddings.embedded.query", "n8n.ai.document.processed", "n8n.ai.text.splitter.split",
    "n8n.ai.tool.called", "n8n.ai.vector.store.searched", "n8n.ai.llm.generated",
    "n8n.ai.llm.error", "n8n.ai.vector.store.populated", "n8n.ai.vector.store.updated"]

def eventNamesRunner : List String :=
  ["n8n.runner.task.requested", "n8n.runner.response.received"]

def eventNamesQueue : List String :=
  ["n8n.queue.job.enqueued", "n8n.queue.job.dequeued", "n8n.queue.job.completed",
    "n8n.queue.job.failed", "n8n.queue.job.stalled"]

def eventNamesWorkflow : List String :=
  ["n8n.workflow.started", "n8n.workflow.success", "n8n.workflow.failed"]

def eventNamesGeneric : List String :=
  ["n8n.worker.started", "n8n.worker.stopped"]

def eventNamesNode : List String :=
  ["n8n.node.started", "n8n.node.finished"]

def eventNamesExecution : List String :=
  ["n8n.execution.throttled", "n8n.execution.started-during-bootup"]

def eventNamesAudit : List String :=
  ["n8n.audit.user.login.success", "n8n.audit.user.login.failed", "n8n.audit.user.signedup",
    "n8n.audit.user.updated", "n8n.audit.user.deleted", "n8n.audit.user.invited",
    "n8n.audit.user.invitation.accepted", "n8n.audit.user.reinvited",
    "n8n.audit.user.email.failed", "n8n.audit.user.reset.requested", "n8n.audit.user.reset",
    "n8n.audit.user.credentials.created", "n8n.audit.user.credentials.shared",
    "n8n.audit.user.credentials.updated", "n8n.audit.user.credentials.deleted",
    "n8n.audit.user.api.created", "n8n.audit.user.api.deleted", "n8n.audit.package.installed",
    "n8n.audit.package.updated", "n8n.audit.package.deleted", "n8n.audit.workflow.created",
    "n8n.audit.workflow.deleted", "n8n.audit.workflow.updated", "n8n.audit.workflow.archived",
    "n8n.audit.workflow.unarchived"]

/-- Every name that the type of an event name allows. -/
def eventNames : List String :=
  eventNamesAudit ++ eventNamesWorkflow ++ eventNamesNode ++ eventNamesExecution ++
    eventNamesGeneric ++ eventNamesAiNodes ++ eventNamesRunner ++ eventNamesQueue ++
    ["n8n.destination.test"]

structure EventNamesTypes where
  name : String
  allowed : name ∈ eventNames
  deriving DecidableEq, Repr

inductive EventMessageTypeNames where
  | generic
  | audit
  | confirm
  | workflow
  | node
  | execution
  | aiNode
  | runner
  | queue
  deriving DecidableEq, Repr

/-- The classes of messages. -/
inductive EventMessageClass where
  | generic
  | workflow
  | audit
  | node
  | aiNode
  | execution
  | runner
  | queue
  deriving DecidableEq, Repr

/-- Messages of the queue carry the type of the runner's. -/
def EventMessageClass.typeName : EventMessageClass → EventMessageTypeNames
  | .generic => .generic
  | .workflow => .workflow
  | .audit => .audit
  | .node => .node
  | .aiNode => .aiNode
  | .execution => .execution
  | .runner => .runner
  | .queue => .runner

/-- The payload, by the property that is looked at and the others. -/
structure AbstractEventPayload (δ : Type) where
  executionId : Option String
  others : δ
  deriving DecidableEq, Repr

structure EventMessage (τ δ : Type) where
  messageClass : EventMessageClass
  id : String
  ts : τ
  eventName : EventNamesTypes
  message : String
  payload : Option (AbstractEventPayload δ)

/-- What `serialize` gives. The time is `null` where it has no text. -/
structure AbstractEventMessageOptions (δ : Type) where
  typeName : EventMessageTypeNames
  id : String
  ts : Option String
  eventName : EventNamesTypes
  message : String
  payload : Option (AbstractEventPayload δ)

structure EventMessageConfirmSource where
  id : String
  name : String
  deriving DecidableEq, Repr

structure EventMessageConfirm (τ : Type) where
  confirm : String
  source : Option EventMessageConfirmSource
  ts : τ

/-- A line of a log file. -/
inductive LogLine (δ : Type) where
  | message (options : AbstractEventMessageOptions δ)
  | confirm (confirm : String) (ts : Option String) (source : EventMessageConfirmSource)

/-- The operations on times. -/
structure DateTime (τ : Type) where
  toISO : τ → Option String
  fromISO : String → τ
  now : τ

inductive EventMessageReturnMode where
  | sent
  | unsent
  | all
  | unfinished
  deriving DecidableEq, Repr

structure ReadMessagesFromLogFileResult (τ δ : Type) where
  loggedMessages : List (EventMessage τ δ)
  sentMessages : List (EventMessage τ δ)
  unfinishedExecutions : String → Option (List (EventMessage τ δ))

def ReadMessagesFromLogFileResult.empty {τ δ : Type} : ReadMessagesFromLogFileResult τ δ :=
  ⟨[], [], fun _ => none⟩

/-- The class `\s` of regular expressions. -/
def isSpaceCharacter (c : Char) : Bool :=
  c.toNat ∈ [9, 10, 11, 12, 13, 32, 160, 5760, 8232, 8233, 8239, 8287, 12288, 65279] ||
    (8192 ≤ c.toNat && c.toNat ≤ 8202)

def isSegmentCharacter (c : Char) : Bool := c.isAlphanum || c = '_' || isSpaceCharacter c

/-- What follows a segment `[\w\s]+`. -/
def afterSegment (text : List Char) : Option (List Char) :=
  if (text.takeWhile isSegmentCharacter).isEmpty then none
  else some (text.dropWhile isSegmentCharacter)

/-- The match with `/^[\w\s]+\.[\w\s]+\.[\w\s]+/`; the point is in no segment. -/
def matchesEventName (name : String) : Bool :=
  match afterSegment name.toList with
  | some ('.' :: text) =>
    match afterSegment text with
    | some ('.' :: text) => (afterSegment text).isSome
    | _ => false
  | _ => false

theorem matchesEventName_of_mem {name : String} (h : name ∈ eventNames) :
    matchesEventName name = true := by
  have hall : ∀ name ∈ eventNames, matchesEventName name = true := by decide +kernel
  exact hall name h

section
variable {τ δ : Type} (dateTime : DateTime τ)

def EventMessage.typeName (msg : EventMessage τ δ) : EventMessageTypeNames :=
  msg.messageClass.typeName

def EventMessage.serialize (msg : EventMessage τ δ) : AbstractEventMessageOptions δ :=
  ⟨msg.typeName, msg.id, dateTime.toISO msg.ts, msg.eventName, msg.message, msg.payload⟩

def EventMessageConfirm.serialize (confirm : EventMessageConfirm τ) : LogLine δ :=
  .confirm confirm.confirm (dateTime.toISO confirm.ts) (confirm.source.getD ⟨"", ""⟩)

/-- A message that is constructed from what was serialized. -/
def EventMessage.create (messageClass : EventMessageClass)
    (options : AbstractEventMessageOptions δ) : EventMessage τ δ where
  messageClass := messageClass
  id := options.id
  ts := (options.ts.map dateTime.fromISO).getD dateTime.now
  eventName := options.eventName
  message := options.message
  payload := options.payload

def getEventMessageObjectByType (message : AbstractEventMessageOptions δ) :
    Option (EventMessage τ δ) :=
  match message.typeName with
  | .generic => some (.create dateTime .generic message)
  | .workflow => some (.create dateTime .workflow message)
  | .audit => some (.create dateTime .audit message)
  | .node => some (.create dateTime .node message)
  | _ => none

/-- The executions that were started, each with its messages, until they are over. -/
def trackExecution (msg : EventMessage τ δ)
    (unfinishedExecutions : String → Option (List (EventMessage τ δ))) :
    String → Option (List (EventMessage τ δ)) :=
  match msg.payload.bind AbstractEventPayload.executionId with
  | none => unfinishedExecutions
  | some executionId =>
    if executionId = "" then unfinishedExecutions
    else if msg.eventName.name = "n8n.workflow.started" then
      Function.update unfinishedExecutions executionId (some [msg])
    else if msg.eventName.name ∈ ["n8n.workflow.success", "n8n.workflow.failed",
        "n8n.execution.throttled", "n8n.execution.started-during-bootup"] then
      Function.update unfinishedExecutions executionId none
    else if msg.eventName.name ∈ ["n8n.node.started", "n8n.node.finished"] then
      Function.update unfinishedExecutions executionId
        (some ((unfinishedExecutions executionId).getD [] ++ [msg]))
    else unfinishedExecutions

def readLine (mode : EventMessageReturnMode) (results : ReadMessagesFromLogFileResult τ δ) :
    LogLine δ → ReadMessagesFromLogFileResult τ δ
  | .message options =>
    if matchesEventName options.eventName.name then
      match getEventMessageObjectByType dateTime options with
      | none => results
      | some msg => { results with
          loggedMessages := results.loggedMessages ++ [msg]
          unfinishedExecutions := trackExecution msg results.unfinishedExecutions }
    else results
  | .confirm confirm _ _ =>
    if mode = .all then results
    else
      let removedMessage := results.loggedMessages.filter (·.id = confirm)
      { results with
        loggedMessages := results.loggedMessages.filter (·.id ≠ confirm)
        sentMessages :=
          if mode = .sent then results.sentMessages ++ removedMessage else results.sentMessages }

def readLoggedMessagesFromFile (mode : EventMessageReturnMode) (lines : List (LogLine δ)) :
    ReadMessagesFromLogFileResult τ δ :=
  lines.foldl (readLine dateTime mode) .empty

/-- A call of the log writer. -/
inductive WriterCall (τ δ : Type) where
  | putMessage (msg : EventMessage τ δ)
  | confirmMessageSent (confirm : EventMessageConfirm τ)

def WriterCall.line : WriterCall τ δ → LogLine δ
  | .putMessage msg => .message (msg.serialize dateTime)
  | .confirmMessageSent confirm => confirm.serialize dateTime

def writtenLines (calls : List (WriterCall τ δ)) : List (LogLine δ) :=
  calls.map (WriterCall.line dateTime)

end

section
variable {τ δ : Type}

def WriterCall.message? : WriterCall τ δ → Option (EventMessage τ δ)
  | .putMessage msg => some msg
  | .confirmMessageSent _ => none

def putMessages (calls : List (WriterCall τ δ)) : List (EventMessage τ δ) :=
  calls.filterMap WriterCall.message?

def WriterCall.confirms (msgId : String) : WriterCall τ δ → Bool
  | .putMessage _ => false
  | .confirmMessageSent confirm => confirm.confirm = msgId

def isConfirmed (calls : List (WriterCall τ δ)) (msg : EventMessage τ δ) : Bool :=
  calls.any (WriterCall.confirms msg.id)

/-- The ids are distinct, and only messages that were put are confirmed. -/
def WellWritten (calls : List (WriterCall τ δ)) : Prop :=
  ((putMessages calls).map EventMessage.id).Nodup ∧
  ∀ before confirm after, calls = before ++ .confirmMessageSent confirm :: after →
    confirm.confirm ∈ (putMessages before).map EventMessage.id

/-- What is to come back of a message. -/
def EventMessage.content (msg : EventMessage τ δ) :
    String × EventMessageTypeNames × EventNamesTypes × Option (AbstractEventPayload δ) :=
  (msg.id, msg.typeName, msg.eventName, msg.payload)

/-- The unsent messages come back in order, and so do the sent ones, in any order. -/
def GivesBack (dateTime : DateTime τ) (calls : List (WriterCall τ δ)) : Prop :=
  (readLoggedMessagesFromFile dateTime .unsent (writtenLines dateTime calls)).loggedMessages.map
      EventMessage.content =
    ((putMessages calls).filter fun msg => !isConfirmed calls msg).map EventMessage.content ∧
  ((readLoggedMessagesFromFile dateTime .sent (writtenLines dateTime calls)).sentMessages.map
      EventMessage.content).Perm
    (((putMessages calls).filter (isConfirmed calls)).map EventMessage.content)

/-- The reader has a case for the type. -/
def EventMessageClass.isRebuilt : EventMessageClass → Bool
  | .generic | .workflow | .audit | .node => true
  | .aiNode | .execution | .runner | .queue => false

end

section
variable {τ δ : Type} {dateTime : DateTime τ} {msg : EventMessage τ δ}
  {calls : List (WriterCall τ δ)}

def EventMessage.rebuild (dateTime : DateTime τ) (msg : EventMessage τ δ) : EventMessage τ δ :=
  .create dateTime msg.messageClass (msg.serialize dateTime)

theorem getEventMessageObjectByType_serialize :
    getEventMessageObjectByType dateTime (msg.serialize dateTime) =
      if msg.messageClass.isRebuilt then some (msg.rebuild dateTime) else none := by
  obtain ⟨messageClass, id, ts, eventName, message, payload⟩ := msg
  cases messageClass <;> rfl

theorem loggedMessages_put (mode : EventMessageReturnMode)
    (results : ReadMessagesFromLogFileResult τ δ) :
    (readLine dateTime mode results (.message (msg.serialize dateTime))).loggedMessages =
      results.loggedMessages ++ if msg.messageClass.isRebuilt then [msg.rebuild dateTime] else [] := by
  rw [readLine, EventMessage.serialize, if_pos (matchesEventName_of_mem msg.eventName.allowed),
    ← EventMessage.serialize, getEventMessageObjectByType_serialize]
  cases msg.messageClass.isRebuilt <;> simp

theorem sentMessages_put (mode : EventMessageReturnMode)
    (results : ReadMessagesFromLogFileResult τ δ) :
    (readLine dateTime mode results (.message (msg.serialize dateTime))).sentMessages =
      results.sentMessages := by
  rw [readLine, EventMessage.serialize, if_pos (matchesEventName_of_mem msg.eventName.allowed),
    ← EventMessage.serialize, getEventMessageObjectByType_serialize]
  cases msg.messageClass.isRebuilt <;> rfl

theorem loggedMessages_confirm {mode : EventMessageReturnMode} (hmode : mode ≠ .all)
    (results : ReadMessagesFromLogFileResult τ δ) (confirm : EventMessageConfirm τ) :
    (readLine dateTime mode results (confirm.serialize dateTime)).loggedMessages =
      results.loggedMessages.filter (·.id ≠ confirm.confirm) := by
  rw [EventMessageConfirm.serialize, readLine, if_neg hmode]

theorem sentMessages_confirm (results : ReadMessagesFromLogFileResult τ δ)
    (confirm : EventMessageConfirm τ) :
    (readLine dateTime .sent results (confirm.serialize dateTime)).sentMessages =
      results.sentMessages ++ results.loggedMessages.filter (·.id = confirm.confirm) :=
  rfl

theorem read_concat (mode : EventMessageReturnMode) (call : WriterCall τ δ) :
    readLoggedMessagesFromFile dateTime mode (writtenLines dateTime (calls ++ [call])) =
      readLine dateTime mode (readLoggedMessagesFromFile dateTime mode (writtenLines dateTime calls))
        (call.line dateTime) := by
  rw [readLoggedMessagesFromFile, writtenLines, List.map_append, List.map_singleton,
    List.foldl_concat]
  rfl

theorem putMessages_concat (call : WriterCall τ δ) :
    putMessages (calls ++ [call]) = putMessages calls ++ call.message?.toList := by
  rw [putMessages, List.filterMap_append]
  cases call <;> rfl

theorem isConfirmed_concat (call : WriterCall τ δ) :
    isConfirmed (calls ++ [call]) msg = (isConfirmed calls msg || call.confirms msg.id) := by
  simp [isConfirmed]

theorem WellWritten.of_concat {call : WriterCall τ δ} (h : WellWritten (calls ++ [call])) :
    WellWritten calls := by
  refine ⟨?_, fun before confirm after heq => h.2 before confirm (after ++ [call]) (by simp [heq])⟩
  have hnodup := h.1
  rw [putMessages_concat, List.map_append] at hnodup
  exact (List.nodup_append.mp hnodup).1

/-- Nothing is confirmed before it is put. -/
theorem WellWritten.not_isConfirmed (h : WellWritten (calls ++ [.putMessage msg])) :
    isConfirmed calls msg = false := by
  rw [isConfirmed, List.any_eq_false]
  intro call hcall hconfirms
  cases call with
  | putMessage => cases hconfirms
  | confirmMessageSent confirm =>
    obtain ⟨before, after, rfl⟩ := List.append_of_mem hcall
    have hput := h.of_concat.2 before confirm after rfl
    rw [of_decide_eq_true hconfirms] at hput
    have hnodup := h.1
    rw [putMessages_concat, List.map_append, List.nodup_append] at hnodup
    refine hnodup.2.2 msg.id ?_ msg.id (by simp [WriterCall.message?]) rfl
    simp only [putMessages, List.filterMap_append, List.map_append]
    exact List.mem_append_left _ hput

/-- The messages that the reader rebuilds and no line confirms, in order. -/
theorem loggedMessages_eq (h : WellWritten calls) {mode : EventMessageReturnMode}
    (hmode : mode ≠ .all) :
    (readLoggedMessagesFromFile dateTime mode (writtenLines dateTime calls)).loggedMessages =
      ((putMessages calls).filter fun msg =>
        msg.messageClass.isRebuilt && !isConfirmed calls msg).map (·.rebuild dateTime) := by
  induction calls using List.reverseRecOn with
  | nil => rfl
  | append_singleton calls call ih =>
    rw [read_concat, putMessages_concat]
    simp only [isConfirmed_concat]
    cases call with
    | putMessage msg =>
      rw [WriterCall.line, loggedMessages_put, ih h.of_concat]
      simp only [WriterCall.message?, Option.toList_some, WriterCall.confirms, Bool.or_false,
        List.filter_append, List.map_append]
      cases hrebuilt : msg.messageClass.isRebuilt <;> simp [hrebuilt, h.not_isConfirmed]
    | confirmMessageSent confirm =>
      rw [WriterCall.line, loggedMessages_confirm hmode, ih h.of_concat]
      simp only [WriterCall.message?, Option.toList_none, List.append_nil, List.filter_map,
        List.filter_filter, WriterCall.confirms]
      refine congrArg _ (List.filter_congr fun msg _ => ?_)
      by_cases hid : confirm.confirm = msg.id
      · simp [hid, EventMessage.rebuild, EventMessage.create, EventMessage.serialize]
      · simp [hid, EventMessage.rebuild, EventMessage.create, EventMessage.serialize,
          Ne.symm hid]

/-- The messages that the reader rebuilds and a line confirms. -/
theorem sentMessages_perm (dateTime : DateTime τ) (h : WellWritten calls) :
    (readLoggedMessagesFromFile dateTime .sent (writtenLines dateTime calls)).sentMessages.Perm
      (((putMessages calls).filter fun msg =>
        msg.messageClass.isRebuilt && isConfirmed calls msg).map (·.rebuild dateTime)) := by
  induction calls using List.reverseRecOn with
  | nil => exact .nil
  | append_singleton calls call ih =>
    have ih := ih h.of_concat
    rw [read_concat, putMessages_concat]
    simp only [isConfirmed_concat]
    cases call with
    | putMessage msg =>
      rw [WriterCall.line, sentMessages_put]
      simpa [WriterCall.message?, WriterCall.confirms, h.not_isConfirmed] using ih
    | confirmMessageSent confirm =>
      rw [WriterCall.line, sentMessages_confirm,
        loggedMessages_eq h.of_concat EventMessageReturnMode.noConfusion]
      simp only [WriterCall.message?, Option.toList_none, List.append_nil, WriterCall.confirms]
      refine (ih.append_right _).trans ?_
      rw [List.filter_map, ← List.map_append]
      refine List.Perm.map _ ?_
      -- Of the messages to be confirmed by now, those that were confirmed before come first.
      have hsplit := List.filter_append_perm (isConfirmed calls) ((putMessages calls).filter
        fun msg => msg.messageClass.isRebuilt &&
          (isConfirmed calls msg || decide (confirm.confirm = msg.id)))
      refine List.Perm.trans (List.Perm.of_eq ?_) hsplit
      simp only [List.filter_filter]
      congr 1
      · refine List.filter_congr fun msg _ => ?_
        cases isConfirmed calls msg <;> simp
      · refine List.filter_congr fun msg _ => ?_
        cases isConfirmed calls msg <;>
          simp [EventMessage.rebuild, EventMessage.create, EventMessage.serialize, eq_comm,
            Bool.and_comm]

theorem isRebuilt_of_typeName_eq {messageClass messageClass' : EventMessageClass}
    (h : messageClass.typeName = messageClass'.typeName) :
    messageClass.isRebuilt = messageClass'.isRebuilt := by
  cases messageClass <;> cases messageClass' <;> first | rfl | cases h

/-- What is read is what was put when the reader has a case for every message. -/
theorem givesBack_iff_isRebuilt (h : WellWritten calls) :
    GivesBack dateTime calls ↔ ∀ msg ∈ putMessages calls, msg.messageClass.isRebuilt = true := by
  have hcontent : EventMessage.content ∘ (EventMessage.rebuild dateTime) =
      (EventMessage.content : EventMessage τ δ → _) := rfl
  have hsent := (sentMessages_perm dateTime h).map EventMessage.content
  rw [GivesBack, loggedMessages_eq h EventMessageReturnMode.noConfusion, List.map_map, hcontent]
  rw [List.map_map, hcontent] at hsent
  constructor
  · rintro ⟨hunsent, hsent'⟩ msg hmsg
    -- The message has the type of one that is rebuilt.
    have hfound : ∃ msg' ∈ putMessages calls, msg'.messageClass.isRebuilt = true ∧
        msg'.content = msg.content := by
      cases hconfirmed : isConfirmed calls msg with
      | false =>
        have hmem : msg.content ∈ ((putMessages calls).filter fun msg =>
            !isConfirmed calls msg).map EventMessage.content :=
          List.mem_map_of_mem (List.mem_filter.mpr ⟨hmsg, by simp [hconfirmed]⟩)
        rw [← hunsent, List.mem_map] at hmem
        obtain ⟨msg', hmsg', heq⟩ := hmem
        rw [List.mem_filter, Bool.and_eq_true] at hmsg'
        exact ⟨msg', hmsg'.1, hmsg'.2.1, heq⟩
      | true =>
        have hmem : msg.content ∈ ((putMessages calls).filter
            (isConfirmed calls)).map EventMessage.content :=
          List.mem_map_of_mem (List.mem_filter.mpr ⟨hmsg, hconfirmed⟩)
        rw [← (hsent.symm.trans hsent').mem_iff, List.mem_map] at hmem
        obtain ⟨msg', hmsg', heq⟩ := hmem
        rw [List.mem_filter, Bool.and_eq_true] at hmsg'
        exact ⟨msg', hmsg'.1, hmsg'.2.1, heq⟩
    obtain ⟨msg', -, hrebuilt, heq⟩ := hfound
    have htype : msg'.typeName = msg.typeName := congrArg (·.2.1) heq
    rw [← hrebuilt, ← isRebuilt_of_typeName_eq htype]
  · intro hrebuilt
    constructor
    · refine congrArg _ (List.filter_congr fun msg hmsg => ?_)
      simp [hrebuilt msg hmsg]
    · refine hsent.trans (List.Perm.of_eq (congrArg _ (List.filter_congr fun msg hmsg => ?_)))
      simp [hrebuilt msg hmsg]

end

section Example

/-- Times that are never looked at. -/
def noTime : DateTime Unit := ⟨fun _ => none, fun _ => (), ()⟩

def nodeStarted : EventMessage Unit Unit :=
  ⟨.node, "1", (), ⟨"n8n.node.started", by decide⟩, "started", none⟩

def workflowStarted : EventNamesTypes := ⟨"n8n.workflow.started", by decide⟩

def executionThrottled : EventMessage Unit Unit :=
  ⟨.execution, "2", (), ⟨"n8n.execution.throttled", by decide⟩, "throttled", none⟩

theorem nodeStarted_givesBack :
    GivesBack noTime [.putMessage nodeStarted, .confirmMessageSent ⟨"1", none, ()⟩] := by
  refine (givesBack_iff_isRebuilt ⟨by decide, ?_⟩).mpr (by decide)
  rintro (_ | ⟨call, _ | ⟨call', before⟩⟩) confirm after heq
  · cases heq
  · cases heq
    decide
  · simp at heq

/-- The message of a throttled execution is lost. -/
theorem executionThrottled_not_givesBack :
    WellWritten [.putMessage executionThrottled] ∧
      ¬ GivesBack noTime [.putMessage executionThrottled] := by
  constructor
  · refine ⟨by decide, ?_⟩
    rintro (_ | ⟨call, before⟩) confirm after heq
    · cases heq
    · simp at heq
  · intro h
    exact absurd h.1 (by decide)

end Example
end N8n.EventBus
