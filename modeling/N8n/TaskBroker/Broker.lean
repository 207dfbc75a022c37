import N8n.Foundations.OrderedMap
import Mathlib.Data.Int.Notation
import Mathlib.Logic.Function.Basic

/-!
# The task broker

The broker matches task offers of runners with task requests. `acceptOffer` is
an async function: a call of it is a `Handshake`, which waits for one thing at a
time (a message to be sent, the answer of the runner, the answer of the
requester) and goes on when that arrives. An event is handled to the end,
with the continuations it makes ready, before the next one.

Request objects are shared by reference: `pendingTaskRequests` and the
handshakes hold numbers, `requests` holds the objects. Task ids are fresh
numbers in place of `nanoid(8)`, times are nanoseconds, and the payloads that
the broker only passes on are texts.
-/

namespace N8n.TaskBroker

structure TaskOffer where
  offerId : String
  runnerId : String
  taskType : String
  validFor : ℤ
  validUntil : ℤ
  deriving DecidableEq, Repr

structure TaskRequest where
  requestId : String
  requesterId : String
  taskType : String
  acceptInProgress : Bool
  deriving DecidableEq, Repr

/-- `timeout` tells whether the timer of the task has been set. -/
structure Task where
  id : ℕ
  taskType : String
  runnerId : String
  requesterId : String
  timeout : Bool
  deriving DecidableEq, Repr

inductive RPCStatus where
  | success
  | error
  deriving DecidableEq, Repr

inductive ToRunner where
  | runnerRegistered
  | taskOfferAccept (offerId : String) (taskId : ℕ)
  | taskCancel (taskId : ℕ) (reason : String)
  | taskSettings (taskId : ℕ) (settings : String)
  | taskDataResponse (taskId : ℕ) (requestId data : String)
  | nodeTypes (taskId : ℕ) (requestId nodeTypes : String)
  | rpcResponse (taskId : ℕ) (callId : String) (status : RPCStatus) (data : String)
  deriving DecidableEq, Repr

inductive ToRequester where
  | taskReady (requestId : String) (taskId : ℕ)
  | taskError (taskId : ℕ) (error : String)
  | taskDone (taskId : ℕ) (data : String)
  | taskDataRequest (taskId : ℕ) (requestId requestParams : String)
  | nodeTypesRequest (taskId : ℕ) (requestId requestParams : String)
  | rpc (taskId : ℕ) (callId name params : String)
  deriving DecidableEq, Repr

inductive RunnerAnswer where
  | accepted
  | rejected (reason : String)
  | deferred
  | timedOut
  deriving DecidableEq, Repr

inductive RequesterAnswer where
  | settings (settings : String)
  | timedOut
  deriving DecidableEq, Repr

/-- What an `acceptOffer` call waits for. -/
inductive Phase where
  | offering
  | awaitingRunner
  | readying
  | awaitingRequester
  | sendingSettings
  | failing
  | cancelling
  deriving DecidableEq, Repr

structure Handshake where
  taskId : ℕ
  offer : TaskOffer
  request : ℕ
  phase : Phase
  runnerAnswer : Option RunnerAnswer
  requesterAnswer : Option RequesterAnswer
  deriving DecidableEq, Repr

structure Broker where
  knownRunners : List String
  requesters : List String
  tasks : OrderedMap ℕ Task
  runnerAcceptRejects : List ℕ
  requesterAcceptRejects : List ℕ
  pendingTaskOffers : List TaskOffer
  pendingTaskRequests : List ℕ
  requests : ℕ → TaskRequest
  nextRequest : ℕ
  handshakes : OrderedMap ℕ Handshake
  nextTaskId : ℕ
  now : ℤ
  sentToRunners : List (String × ToRunner)
  sentToRequesters : List (String × ToRequester)
  escaped : List ℕ

def TaskOffer.expired (o : TaskOffer) (now : ℤ) : Bool :=
  decide (o.validFor ≠ -1) && decide (o.validUntil < now)

namespace Broker

def initial (now : ℤ) : Broker where
  knownRunners := []
  requesters := []
  tasks := .empty
  runnerAcceptRejects := []
  requesterAcceptRejects := []
  pendingTaskOffers := []
  pendingTaskRequests := []
  requests := fun _ => ⟨"", "", "", false⟩
  nextRequest := 0
  handshakes := .empty
  nextTaskId := 0
  now := now
  sentToRunners := []
  sentToRequesters := []
  escaped := []

def expireTasks (s : Broker) : Broker :=
  { s with pendingTaskOffers := s.pendingTaskOffers.filter (fun o => !o.expired s.now) }

def messageRunner (s : Broker) (runnerId : String) (m : ToRunner) : Broker :=
  if runnerId ∈ s.knownRunners then
    { s with sentToRunners := s.sentToRunners ++ [(runnerId, m)] }
  else s

def messageRequester (s : Broker) (requesterId : String) (m : ToRequester) : Broker :=
  if requesterId ∈ s.requesters then
    { s with sentToRequesters := s.sentToRequesters ++ [(requesterId, m)] }
  else s

def putHandshake (s : Broker) (h : Handshake) : Broker :=
  { s with handshakes := s.handshakes.set h.taskId h }

def endHandshake (s : Broker) (h : Handshake) (rejects : Bool) : Broker :=
  { s with
    handshakes := s.handshakes.delete h.taskId
    escaped := if rejects then s.escaped ++ [h.taskId] else s.escaped }

/-- `acceptOffer` up to its first `await`. -/
def acceptOffer (s : Broker) (offer : TaskOffer) (request : ℕ) : Broker :=
  let taskId := s.nextTaskId
  let h : Handshake := ⟨taskId, offer, request, .offering, none, none⟩
  ({ s with
      nextTaskId := taskId + 1
      runnerAcceptRejects := s.runnerAcceptRejects ++ [taskId] }.putHandshake h).messageRunner
    offer.runnerId (.taskOfferAccept offer.offerId taskId)

def settleRequest (s : Broker) (request : ℕ) : Broker :=
  let r := s.requests request
  if r.acceptInProgress then s
  else
    match s.pendingTaskOffers.find? (fun o => o.taskType == r.taskType) with
    | none => s
    | some offer =>
      { s with
        requests := Function.update s.requests request { r with acceptInProgress := true }
        pendingTaskOffers :=
          s.pendingTaskOffers.eraseP (fun o => o.taskType == r.taskType) }.acceptOffer
        offer request

def settleTasks (s : Broker) : Broker :=
  let s := s.expireTasks
  s.pendingTaskRequests.foldl settleRequest s

def taskRequested (s : Broker) (requesterId requestId taskType : String) : Broker :=
  { s with
    requests := Function.update s.requests s.nextRequest ⟨requestId, requesterId, taskType, false⟩
    nextRequest := s.nextRequest + 1
    pendingTaskRequests := s.pendingTaskRequests ++ [s.nextRequest] }.settleTasks

def taskOffered (s : Broker) (offer : TaskOffer) : Broker :=
  { s with pendingTaskOffers := s.pendingTaskOffers ++ [offer] }.settleTasks

/-! ### The requester's half of a handshake -/

/-- `none` when the task is not there: then nothing is sent and nothing awaited. -/
def cancelTask (s : Broker) (taskId : ℕ) (reason : String) : Option Broker :=
  (s.tasks.get? taskId).map fun task =>
    { s with tasks := s.tasks.delete taskId }.messageRunner task.runnerId (.taskCancel taskId reason)

def failTask (s : Broker) (taskId : ℕ) (error : String) : Broker :=
  match s.tasks.get? taskId with
  | none => s
  | some task =>
    { s with tasks := s.tasks.delete taskId }.messageRequester task.requesterId
      (.taskError taskId error)

/-- The `catch` block after the answer of the requester, for errors that are no rejection. -/
def cancelAndThrow (s : Broker) (h : Handshake) : Broker :=
  match s.cancelTask h.taskId "Unknown reason" with
  | none => s.endHandshake h true
  | some s' => s'.putHandshake { h with phase := .cancelling }

def sendTaskSettings (s : Broker) (h : Handshake) (settings : String) : Broker :=
  match s.tasks.get? h.taskId with
  | none => s.cancelAndThrow h
  | some task =>
    if task.runnerId ∈ s.knownRunners then
      ({ s with tasks := s.tasks.set h.taskId { task with timeout := true } }.messageRunner
        task.runnerId (.taskSettings h.taskId settings)).putHandshake
        { h with phase := .sendingSettings }
    else
      (s.failTask h.taskId s!"Cannot find runner, failed to find runner ({task.runnerId})"
        ).putHandshake { h with phase := .failing }

def resumeRequester (s : Broker) (h : Handshake) : Broker :=
  match h.requesterAnswer with
  | none => s
  | some (.settings settings) => s.sendTaskSettings h settings
  | some .timedOut => s.cancelAndThrow h

/-! ### The runner's half of a handshake -/

/-- The runner accepted: the task is created and its requester is told. -/
def createTask (s : Broker) (h : Handshake) : Broker :=
  let request := s.requests h.request
  let task : Task := ⟨h.taskId, h.offer.taskType, h.offer.runnerId, request.requesterId, false⟩
  let s := { s with tasks := s.tasks.set h.taskId task }
  match s.pendingTaskRequests.findIdx? (fun r => (s.requests r).requestId == request.requestId) with
  | none => s.endHandshake h false
  | some requestIndex =>
    ({ s with
        pendingTaskRequests := s.pendingTaskRequests.eraseIdx requestIndex
        requesterAcceptRejects := s.requesterAcceptRejects ++ [h.taskId] }.messageRequester
      request.requesterId (.taskReady request.requestId h.taskId)).putHandshake
      { h with phase := .readying }

/-- The `catch` block after the answer of the runner. -/
def returnRequest (s : Broker) (h : Handshake) (deferred rejects : Bool) : Broker :=
  let r := s.requests h.request
  { s with
    requests := Function.update s.requests h.request { r with acceptInProgress := false }
    pendingTaskRequests :=
      if deferred then s.pendingTaskRequests ++ [h.request] else s.pendingTaskRequests
    }.endHandshake h rejects

def resumeRunner (s : Broker) (h : Handshake) : Broker :=
  match h.runnerAnswer with
  | none => s
  | some .accepted => s.createTask h
  | some (.rejected _) => s.returnRequest h false false
  | some .deferred => s.returnRequest h true false
  | some .timedOut => s.returnRequest h false false

/-- The promise the runner's answer settles: later answers find it settled. -/
def answerRunner (s : Broker) (taskId : ℕ) (a : RunnerAnswer) : Broker :=
  match s.handshakes.get? taskId with
  | none => s
  | some h =>
    if h.runnerAnswer.isSome then s
    else
      let h := { h with runnerAnswer := some a }
      let s := s.putHandshake h
      if h.phase = .awaitingRunner then s.resumeRunner h else s

def handleRunnerAnswer (s : Broker) (taskId : ℕ) (a : RunnerAnswer) : Broker :=
  if taskId ∈ s.runnerAcceptRejects then
    { s with
      runnerAcceptRejects := s.runnerAcceptRejects.filter (fun id => decide (id ≠ taskId))
      }.answerRunner taskId a
  else s

def handleRunnerAccept (s : Broker) (taskId : ℕ) : Broker := s.handleRunnerAnswer taskId .accepted

def handleRunnerReject (s : Broker) (taskId : ℕ) (reason : String) : Broker :=
  s.handleRunnerAnswer taskId (.rejected reason)

def handleRunnerDeferred (s : Broker) (taskId : ℕ) : Broker := s.handleRunnerAnswer taskId .deferred

def answerRequester (s : Broker) (taskId : ℕ) (a : RequesterAnswer) : Broker :=
  match s.handshakes.get? taskId with
  | none => s
  | some h =>
    if h.requesterAnswer.isSome then s
    else
      let h := { h with requesterAnswer := some a }
      let s := s.putHandshake h
      if h.phase = .awaitingRequester then s.resumeRequester h else s

def handleRequesterAccept (s : Broker) (taskId : ℕ) (settings : String) : Broker :=
  if taskId ∈ s.requesterAcceptRejects then
    { s with
      requesterAcceptRejects := s.requesterAcceptRejects.filter (fun id => decide (id ≠ taskId))
      }.answerRequester taskId (.settings settings)
  else s

/-- The message a handshake waits for has been sent, or sending it has failed. -/
def messageSettled (s : Broker) (taskId : ℕ) (sent : Bool) : Broker :=
  match s.handshakes.get? taskId with
  | none => s
  | some h =>
    match h.phase, sent with
    | .offering, true =>
      let h := { h with phase := .awaitingRunner }
      (s.putHandshake h).resumeRunner h
    | .offering, false => s.returnRequest h false true
    | .readying, true =>
      let h := { h with phase := .awaitingRequester }
      (s.putHandshake h).resumeRequester h
    | .readying, false => s.cancelAndThrow h
    | .sendingSettings, true => s.endHandshake h false
    | .sendingSettings, false => s.cancelAndThrow h
    | .failing, _ => s.cancelAndThrow h
    | .cancelling, _ => s.endHandshake h true
    | .awaitingRunner, _ => s
    | .awaitingRequester, _ => s

/-! ### Runners and requesters -/

def registerRunner (s : Broker) (runnerId : String) : Broker :=
  { s with knownRunners := s.knownRunners.insert runnerId }.messageRunner runnerId .runnerRegistered

def failTaskOf (s : Broker) (runnerId error : String) (taskId : ℕ) : Broker :=
  (s.failTask taskId error).handleRunnerReject taskId
    s!"The Task Runner ({runnerId}) has disconnected: {error}"

def deregisterRunner (s : Broker) (runnerId error : String) : Broker :=
  let s := { s with
    knownRunners := s.knownRunners.filter (fun id => decide (id ≠ runnerId))
    pendingTaskOffers := s.pendingTaskOffers.filter (fun o => decide (o.runnerId ≠ runnerId)) }
  ((s.tasks.values.filter (fun task => task.runnerId == runnerId)).map Task.id).foldl
    (fun s taskId => s.failTaskOf runnerId error taskId) s

def registerRequester (s : Broker) (requesterId : String) : Broker :=
  { s with requesters := s.requesters.insert requesterId }

def deregisterRequester (s : Broker) (requesterId : String) : Broker :=
  { s with requesters := s.requesters.filter (fun id => decide (id ≠ requesterId)) }

/-- A message of an unknown runner is ignored. -/
def fromRunner (s : Broker) (runnerId : String) (handle : Broker → Broker) : Broker :=
  if runnerId ∈ s.knownRunners then handle s else s

end Broker

inductive Event where
  | registerRunner (runnerId : String)
  | deregisterRunner (runnerId error : String)
  | registerRequester (requesterId : String)
  | deregisterRequester (requesterId : String)
  | taskRequest (requesterId requestId taskType : String)
  | taskOffer (runnerId offerId taskType : String) (validFor : ℤ)
  | taskAccepted (runnerId : String) (taskId : ℕ)
  | taskRejected (runnerId : String) (taskId : ℕ) (reason : String)
  | taskDeferred (runnerId : String) (taskId : ℕ)
  | taskSettings (taskId : ℕ) (settings : String)
  | taskCancel (taskId : ℕ) (reason : String)
  | runnerAcceptTimeout (taskId : ℕ)
  | requesterAcceptTimeout (taskId : ℕ)
  | messageSettled (taskId : ℕ) (sent : Bool)
  | clock (elapsed : ℕ)
  deriving DecidableEq, Repr

namespace Broker

def next (s : Broker) : Event → Broker
  | .registerRunner runnerId => s.registerRunner runnerId
  | .deregisterRunner runnerId error => s.deregisterRunner runnerId error
  | .registerRequester requesterId => s.registerRequester requesterId
  | .deregisterRequester requesterId => s.deregisterRequester requesterId
  | .taskRequest requesterId requestId taskType => s.taskRequested requesterId requestId taskType
  | .taskOffer runnerId offerId taskType validFor =>
    s.fromRunner runnerId (fun s => s.taskOffered ⟨offerId, runnerId, taskType, validFor,
      if validFor = -1 then 0 else s.now + validFor * 1000000⟩)
  | .taskAccepted runnerId taskId => s.fromRunner runnerId (·.handleRunnerAccept taskId)
  | .taskRejected runnerId taskId reason =>
    s.fromRunner runnerId (·.handleRunnerReject taskId reason)
  | .taskDeferred runnerId taskId => s.fromRunner runnerId (·.handleRunnerDeferred taskId)
  | .taskSettings taskId settings => s.handleRequesterAccept taskId settings
  | .taskCancel taskId reason => (s.cancelTask taskId reason).getD s
  | .runnerAcceptTimeout taskId => s.answerRunner taskId .timedOut
  | .requesterAcceptTimeout taskId => s.answerRequester taskId .timedOut
  | .messageSettled taskId sent => s.messageSettled taskId sent
  | .clock elapsed => { s with now := s.now + elapsed }

def Step (s : Broker) (e : Event) (s' : Broker) : Prop := s' = s.next e

end Broker
end N8n.TaskBroker
