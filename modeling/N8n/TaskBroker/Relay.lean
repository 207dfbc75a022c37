import N8n.TaskBroker.Effects

/-!
# The messages that the broker relays

All messages of runners and requesters, dispatched as `onRunnerMessage` and
`onRequesterMessage` do, and the timers of the tasks. `taskDoneHandler`,
`taskErrorHandler` and `handleTaskTimeout` send a message and go on when it has
been sent: what they have left to do is a `Call`. A message to a party that is
not connected takes no time.
-/

namespace N8n.TaskBroker

inductive TaskRunnerMode where
  | internal
  | external
  deriving DecidableEq, Repr

inductive RunnerMessage where
  | info (name : String) (types : List String)
  | taskAccepted (taskId : ℕ)
  | taskRejected (taskId : ℕ) (reason : String)
  | taskDeferred (taskId : ℕ)
  | taskDone (taskId : ℕ) (data : String)
  | taskError (taskId : ℕ) (error : String)
  | taskOffer (offerId taskType : String) (validFor : ℤ)
  | taskDataRequest (taskId : ℕ) (requestId requestParams : String)
  | nodeTypesRequest (taskId : ℕ) (requestId requestParams : String)
  | rpc (taskId : ℕ) (callId name params : String)
  deriving DecidableEq, Repr

inductive RequesterMessage where
  | taskSettings (taskId : ℕ) (settings : String)
  | taskCancel (taskId : ℕ) (reason : String)
  | taskDataResponse (taskId : ℕ) (requestId data : String)
  | nodeTypesResponse (taskId : ℕ) (requestId nodeTypes : String)
  | rpcResponse (taskId : ℕ) (callId : String) (status : RPCStatus) (data : String)
  | taskRequest (requestId taskType : String)
  deriving DecidableEq, Repr

/-! ### The error of a task that ran for too long -/

structure TaskRunnerExecutionTimeoutError where
  message : String
  description : String
  deriving DecidableEq, Repr

namespace TaskRunnerExecutionTimeoutError

def seconds (taskTimeout : ℕ) : String :=
  s!"{taskTimeout} " ++ if taskTimeout = 1 then "second" else "seconds"

def subtitle : TaskRunnerMode → String
  | .internal => "The task runner was taking too long on this task, so it was suspected of " ++
      "being unresponsive and restarted, and the task was aborted."
  | .external => "The task runner was taking too long on this task, so the task was aborted."

def suggestions (taskTimeout : ℕ) (isSelfHosted : Bool) : List String :=
  ["Optimize your script to prevent long-running tasks, e.g. by processing data in " ++
      "smaller batches.",
    "Ensure that all paths in your script are able to terminate, i.e. no infinite loops."] ++
  if isSelfHosted then
    [s!"If your task can reasonably take more than {seconds taskTimeout}, increase the " ++
      "timeout using the N8N_RUNNERS_TASK_TIMEOUT environment variable."]
  else []

def create (taskTimeout : ℕ) (isSelfHosted : Bool) (mode : TaskRunnerMode) :
    TaskRunnerExecutionTimeoutError where
  message := s!"Task execution timed out after {seconds taskTimeout}"
  description :=
    let suggestionsText := "<br/>".intercalate
      ((suggestions taskTimeout isSelfHosted).mapIdx fun index suggestion =>
        s!"{index + 1}. {suggestion}")
    s!"{subtitle mode} You can try the following:<br/><br/>{suggestionsText}"

/-- The error as the payload of a message. -/
def text (e : TaskRunnerExecutionTimeoutError) : String := e.message ++ "\n" ++ e.description

end TaskRunnerExecutionTimeoutError

/-! ### The broker with its calls in progress -/

/-- `failed` stands for a call that ended without removing its task: the answer of the task
could not be sent. -/
inductive Call where
  | answering (taskId : ℕ)
  | timingOut (taskId : ℕ)
  | failed (taskId : ℕ)
  deriving DecidableEq, Repr

/-- `timedOutDuringTask` counts the events `runner:timed-out-during-task`. -/
structure Relay where
  broker : Broker
  mode : TaskRunnerMode
  taskTimeout : ℕ
  isSelfHosted : Bool
  timedOutDuringTask : ℕ
  calls : OrderedMap ℕ Call
  nextCall : ℕ

namespace Broker

/-- The timer of the task has been cleared, or it has fired. -/
def clearTimeout (s : Broker) (taskId : ℕ) : Broker :=
  match s.tasks.get? taskId with
  | none => s
  | some task => { s with tasks := s.tasks.set taskId { task with timeout := false } }

/-- `handleRpcRequest`, `handleDataRequest` and `handleNodeTypesRequest` are this with
their own message. -/
def passToRequester (s : Broker) (taskId : ℕ) (m : ToRequester) : Broker :=
  match s.tasks.get? taskId with
  | none => s
  | some task => s.messageRequester task.requesterId m

def handleRpcRequest (s : Broker) (taskId : ℕ) (callId name params : String) : Broker :=
  s.passToRequester taskId (.rpc taskId callId name params)

def handleDataRequest (s : Broker) (taskId : ℕ) (requestId requestParams : String) : Broker :=
  s.passToRequester taskId (.taskDataRequest taskId requestId requestParams)

def handleNodeTypesRequest (s : Broker) (taskId : ℕ) (requestId requestParams : String) : Broker :=
  s.passToRequester taskId (.nodeTypesRequest taskId requestId requestParams)

/-- The broker afterwards, and the runner's id or the error that is thrown. -/
def getRunnerOrFailTask (s : Broker) (taskId : ℕ) : Broker × Except String String :=
  match s.tasks.get? taskId with
  | none => (s, .error s!"Cannot find runner, failed to find task ({taskId})")
  | some task =>
    if task.runnerId ∈ s.knownRunners then (s, .ok task.runnerId)
    else
      let error := s!"Cannot find runner, failed to find runner ({task.runnerId})"
      (s.failTask taskId error, .error error)

/-- The three handlers of responses are this with their own message. -/
def passToRunner (s : Broker) (taskId : ℕ) (m : ToRunner) : Broker × Except String Unit :=
  match s.getRunnerOrFailTask taskId with
  | (s, .error error) => (s, .error error)
  | (s, .ok runnerId) => (s.messageRunner runnerId m, .ok ())

def handleRequesterRpcResponse (s : Broker) (taskId : ℕ) (callId : String) (status : RPCStatus)
    (data : String) : Broker × Except String Unit :=
  s.passToRunner taskId (.rpcResponse taskId callId status data)

def handleRequesterDataResponse (s : Broker) (taskId : ℕ) (requestId data : String) :
    Broker × Except String Unit :=
  s.passToRunner taskId (.taskDataResponse taskId requestId data)

def handleRequesterNodeTypesResponse (s : Broker) (taskId : ℕ) (requestId nodeTypes : String) :
    Broker × Except String Unit :=
  s.passToRunner taskId (.nodeTypes taskId requestId nodeTypes)

end Broker

namespace Relay

def initial (now : ℤ) (mode : TaskRunnerMode) (taskTimeout : ℕ) (isSelfHosted : Bool) : Relay where
  broker := .initial now
  mode := mode
  taskTimeout := taskTimeout
  isSelfHosted := isSelfHosted
  timedOutDuringTask := 0
  calls := .empty
  nextCall := 0

def onBroker (s : Relay) (f : Broker → Broker) : Relay := { s with broker := f s.broker }

def startCall (s : Relay) (c : Call) : Relay :=
  { s with calls := s.calls.set s.nextCall c, nextCall := s.nextCall + 1 }

/-- `taskDoneHandler` and `taskErrorHandler` are this with their own message: the task is
removed when the message has been sent. -/
def finishTask (s : Relay) (taskId : ℕ) (m : ℕ → ToRequester) : Relay :=
  match s.broker.tasks.get? taskId with
  | none => s
  | some task =>
    let s := s.onBroker (·.clearTimeout taskId)
    if task.requesterId ∈ s.broker.requesters then
      (s.onBroker (·.messageRequester task.requesterId (m task.id))).startCall (.answering task.id)
    else s.onBroker fun b => { b with tasks := b.tasks.delete task.id }

def taskDoneHandler (s : Relay) (taskId : ℕ) (data : String) : Relay :=
  s.finishTask taskId (.taskDone · data)

def taskErrorHandler (s : Relay) (taskId : ℕ) (error : String) : Relay :=
  s.finishTask taskId (.taskError · error)

def executionTimeoutError (s : Relay) : String :=
  (TaskRunnerExecutionTimeoutError.create s.taskTimeout s.isSelfHosted s.mode).text

def handleTaskTimeout (s : Relay) (taskId : ℕ) : Relay :=
  match s.broker.tasks.get? taskId with
  | none => s
  | some task =>
    match s.mode with
    | .internal =>
      { s with timedOutDuringTask := s.timedOutDuringTask + 1 }.taskErrorHandler taskId
        s.executionTimeoutError
    | .external =>
      if task.runnerId ∈ s.broker.knownRunners then
        (s.onBroker (·.messageRunner task.runnerId
          (.taskCancel taskId "Task execution timed out"))).startCall (.timingOut taskId)
      else s.taskErrorHandler taskId s.executionTimeoutError

/-- The timer that `sendTaskSettings` has set fires, unless it was cleared. -/
def taskTimerFires (s : Relay) (taskId : ℕ) : Relay :=
  match s.broker.tasks.get? taskId with
  | none => s
  | some task =>
    if task.timeout then (s.onBroker (·.clearTimeout taskId)).handleTaskTimeout taskId else s

/-- The message of a call has been sent, or sending it has failed. -/
def callSettled (s : Relay) (callId : ℕ) (sent : Bool) : Relay :=
  match s.calls.get? callId with
  | none => s
  | some c =>
    match c, sent with
    | .answering taskId, true =>
      { s with calls := s.calls.delete callId }.onBroker
        fun b => { b with tasks := b.tasks.delete taskId }
    | .answering taskId, false => { s with calls := s.calls.set callId (.failed taskId) }
    | .timingOut taskId, true =>
      { s with calls := s.calls.delete callId }.taskErrorHandler taskId s.executionTimeoutError
    | .timingOut _, false => { s with calls := s.calls.delete callId }
    | .failed _, _ => s

def onRunnerMessage (s : Relay) (runnerId : String) (m : RunnerMessage) : Relay :=
  if runnerId ∈ s.broker.knownRunners then
    match m with
    | .taskAccepted taskId => s.onBroker (·.handleRunnerAccept taskId)
    | .taskRejected taskId reason => s.onBroker (·.handleRunnerReject taskId reason)
    | .taskDeferred taskId => s.onBroker (·.handleRunnerDeferred taskId)
    | .taskOffer offerId taskType validFor =>
      s.onBroker (fun b => b.taskOffered ⟨offerId, runnerId, taskType, validFor,
        if validFor = -1 then 0 else b.now + validFor * 1000000⟩)
    | .taskDone taskId data => s.taskDoneHandler taskId data
    | .taskError taskId error => s.taskErrorHandler taskId error
    | .taskDataRequest taskId requestId requestParams =>
      s.onBroker (·.handleDataRequest taskId requestId requestParams)
    | .nodeTypesRequest taskId requestId requestParams =>
      s.onBroker (·.handleNodeTypesRequest taskId requestId requestParams)
    | .rpc taskId callId name params => s.onBroker (·.handleRpcRequest taskId callId name params)
    | .info _ _ => s
  else s

/-- The relay afterwards, and the error that is thrown. -/
def onRequesterMessage (s : Relay) (requesterId : String) :
    RequesterMessage → Relay × Except String Unit
  | .taskSettings taskId settings =>
    (s.onBroker (·.handleRequesterAccept taskId settings), .ok ())
  | .taskCancel taskId reason =>
    (s.onBroker (fun b => (b.cancelTask taskId reason).getD b), .ok ())
  | .taskRequest requestId taskType =>
    (s.onBroker (·.taskRequested requesterId requestId taskType), .ok ())
  | .taskDataResponse taskId requestId data =>
    let r := s.broker.handleRequesterDataResponse taskId requestId data
    (s.onBroker fun _ => r.1, r.2)
  | .nodeTypesResponse taskId requestId nodeTypes =>
    let r := s.broker.handleRequesterNodeTypesResponse taskId requestId nodeTypes
    (s.onBroker fun _ => r.1, r.2)
  | .rpcResponse taskId callId status data =>
    let r := s.broker.handleRequesterRpcResponse taskId callId status data
    (s.onBroker fun _ => r.1, r.2)

end Relay

inductive RelayEvent where
  | fromRunner (runnerId : String) (m : RunnerMessage)
  | fromRequester (requesterId : String) (m : RequesterMessage)
  | registerRunner (runnerId : String)
  | deregisterRunner (runnerId error : String)
  | registerRequester (requesterId : String)
  | deregisterRequester (requesterId : String)
  | runnerAcceptTimeout (taskId : ℕ)
  | requesterAcceptTimeout (taskId : ℕ)
  | messageSettled (taskId : ℕ) (sent : Bool)
  | clock (elapsed : ℕ)
  | taskTimeout (taskId : ℕ)
  | callSettled (callId : ℕ) (sent : Bool)
  deriving DecidableEq, Repr

/-- The event of the broker alone that is handled, for those the broker handles alone. -/
def RelayEvent.own? : RelayEvent → Option Event
  | .fromRunner runnerId (.taskAccepted taskId) => some (.taskAccepted runnerId taskId)
  | .fromRunner runnerId (.taskRejected taskId reason) => some (.taskRejected runnerId taskId reason)
  | .fromRunner runnerId (.taskDeferred taskId) => some (.taskDeferred runnerId taskId)
  | .fromRunner runnerId (.taskOffer offerId taskType validFor) =>
    some (.taskOffer runnerId offerId taskType validFor)
  | .fromRequester _ (.taskSettings taskId settings) => some (.taskSettings taskId settings)
  | .fromRequester _ (.taskCancel taskId reason) => some (.taskCancel taskId reason)
  | .fromRequester requesterId (.taskRequest requestId taskType) =>
    some (.taskRequest requesterId requestId taskType)
  | .registerRunner runnerId => some (.registerRunner runnerId)
  | .deregisterRunner runnerId error => some (.deregisterRunner runnerId error)
  | .registerRequester requesterId => some (.registerRequester requesterId)
  | .deregisterRequester requesterId => some (.deregisterRequester requesterId)
  | .runnerAcceptTimeout taskId => some (.runnerAcceptTimeout taskId)
  | .requesterAcceptTimeout taskId => some (.requesterAcceptTimeout taskId)
  | .messageSettled taskId sent => some (.messageSettled taskId sent)
  | .clock elapsed => some (.clock elapsed)
  | _ => none

namespace Relay

def next (s : Relay) : RelayEvent → Relay
  | .fromRunner runnerId m => s.onRunnerMessage runnerId m
  | .fromRequester requesterId m => (s.onRequesterMessage requesterId m).1
  | .registerRunner runnerId => s.onBroker (·.registerRunner runnerId)
  | .deregisterRunner runnerId error => s.onBroker (·.deregisterRunner runnerId error)
  | .registerRequester requesterId => s.onBroker (·.registerRequester requesterId)
  | .deregisterRequester requesterId => s.onBroker (·.deregisterRequester requesterId)
  | .runnerAcceptTimeout taskId => s.onBroker (·.answerRunner taskId .timedOut)
  | .requesterAcceptTimeout taskId => s.onBroker (·.answerRequester taskId .timedOut)
  | .messageSettled taskId sent => s.onBroker (·.messageSettled taskId sent)
  | .clock elapsed => s.onBroker fun b => { b with now := b.now + elapsed }
  | .taskTimeout taskId => s.taskTimerFires taskId
  | .callSettled callId sent => s.callSettled callId sent

def Step (s : Relay) (e : RelayEvent) (s' : Relay) : Prop := s' = s.next e

theorem step_next (s : Relay) (e : RelayEvent) : Step s e (s.next e) := rfl

/-- What the broker handles alone is a step of the broker. -/
theorem next_own {s : Relay} {e : RelayEvent} {own : Event} (h : e.own? = some own) :
    s.next e = s.onBroker (·.next own) := by
  cases e with
  | fromRunner runnerId m =>
    cases m <;> cases h <;>
      (simp only [next, onRunnerMessage, onBroker, Broker.next, Broker.fromRunner]; split <;> rfl)
  | fromRequester requesterId m => cases m <;> cases h <;> rfl
  | taskTimeout | callSettled => cases h
  | _ => cases h; rfl

end Relay
end N8n.TaskBroker
