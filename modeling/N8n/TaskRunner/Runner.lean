import N8n.TaskBroker.Relay
import Mathlib.Logic.Function.Iterate

/-!
# A task runner

A runner offers its free places, takes the tasks whose offers are accepted and
executes a task when its settings arrive. A task's state is an object: the map
of running tasks holds its number, and so do the task's timer and its execution.
What `taskExecutionSucceeded` and `taskExecutionFailed` have left to do once
they have sent their message is an `Execution`. `send` does not throw.
-/

namespace N8n.TaskRunner
open N8n.TaskBroker (RunnerMessage ToRunner)

inductive TaskStatus where
  | waitingForSettings
  | running
  | abortingCancelled
  | abortingTimeout
  deriving DecidableEq, Repr

def TaskStatus.text : TaskStatus → String
  | .waitingForSettings => "waitingForSettings"
  | .running => "running"
  | .abortingCancelled => "aborting:cancelled"
  | .abortingTimeout => "aborting:timeout"

/-- `timeoutTimer` says whether the timer is set. -/
structure TaskState where
  taskId : ℕ
  status : TaskStatus
  timeoutTimer : Bool
  deriving DecidableEq, Repr

namespace TaskState

def create (taskId : ℕ) : TaskState := ⟨taskId, .waitingForSettings, true⟩

def cleanup (t : TaskState) : TaskState := { t with timeoutTimer := false }

def toJSON (t : TaskState) : String := s!"[Task {t.taskId} ({t.status.text})]"

/-- The text of the error. -/
def throwUnexpectedTaskStatus (t : TaskState) : String :=
  s!"Unexpected task status: \"{t.toJSON}\""

end TaskState

structure TaskOffer where
  offerId : String
  validUntil : ℤ
  deriving DecidableEq, Repr

/-! ### The error of a task that timed out -/

structure TimeoutError where
  message : String
  description : String
  deriving DecidableEq, Repr

namespace TimeoutError

def create (taskTimeout : ℕ) : TimeoutError where
  message := s!"Task execution timed out after {taskTimeout} " ++
    if taskTimeout = 1 then "second" else "seconds"
  description :=
    let subtitle := "The task runner was taking too long on this task, so the task was aborted."
    let suggestions := ["Optimize your script to prevent long-running tasks, e.g. by processing " ++
        "data in smaller batches.",
      "Ensure that all paths in your script are able to terminate, i.e. no infinite loops."]
    let suggestionsText := "<br/>".intercalate
      (suggestions.mapIdx fun index suggestion => s!"{index + 1}. {suggestion}")
    s!"{subtitle} You can try the following:<br/><br/>{suggestionsText}"

/-- The error as the payload of a message. -/
def text (e : TimeoutError) : String := e.message ++ "\n" ++ e.description

end TimeoutError

/-! ### The runner -/

/-- `succeeding` and `failing` have run their case and go on to `finishTask`; the case may
have thrown. -/
inductive Execution where
  | executing
  | succeeding (thrown : Option String)
  | failing
  deriving DecidableEq, Repr

structure TaskRunnerOpts where
  taskType : String
  name : Option String
  maxConcurrency : ℕ
  taskTimeout : ℕ

/-- What the calls of `nanoid`, `randomInt` and `process.hrtime.bigint` return, one after
the other. -/
structure Surroundings where
  nanoid : ℕ → String
  random : ℕ → ℕ
  hrtime : ℕ → ℤ

/-- `offersMade` and `clockReads` count the calls. -/
structure Runner extends Surroundings where
  name : String
  taskType : String
  maxConcurrency : ℕ
  taskTimeout : ℕ
  canSendOffers : Bool
  openOffers : OrderedMap String TaskOffer
  runningTasks : OrderedMap ℕ ℕ
  taskStates : ℕ → TaskState
  nextState : ℕ
  executions : OrderedMap ℕ Execution
  offersMade : ℕ
  clockReads : ℕ
  sent : List RunnerMessage

def OFFER_VALID_TIME_MS : ℕ := 5000

def OFFER_VALID_EXTRA_MS : ℕ := 100

def msToNs (ms : ℕ) : ℤ := ms * 1000000

namespace Runner

def initial (opts : TaskRunnerOpts) (world : Surroundings) : Runner where
  toSurroundings := world
  name := opts.name.getD "Node.js Task Runner SDK"
  taskType := opts.taskType
  maxConcurrency := opts.maxConcurrency
  taskTimeout := opts.taskTimeout
  canSendOffers := false
  openOffers := .empty
  runningTasks := .empty
  taskStates := fun _ => (TaskState.create 0).cleanup
  nextState := 0
  executions := .empty
  offersMade := 0
  clockReads := 0
  sent := []

def send (s : Runner) (m : RunnerMessage) : Runner := { s with sent := s.sent ++ [m] }

def randomInt (s : Runner) (max : ℕ) : ℕ := s.random s.offersMade % max

def readClock (s : Runner) : Runner := { s with clockReads := s.clockReads + 1 }

def setStatus (s : Runner) (state : ℕ) (status : TaskStatus) : Runner :=
  { s with taskStates :=
      Function.update s.taskStates state { s.taskStates state with status := status } }

def cleanup (s : Runner) (state : ℕ) : Runner :=
  { s with taskStates := Function.update s.taskStates state (s.taskStates state).cleanup }

def deleteIfStale (s : Runner) (e : String × TaskOffer) : Runner :=
  let now := s.hrtime s.clockReads
  let s := s.readClock
  if e.2.validUntil < now then { s with openOffers := s.openOffers.delete e.1 } else s

def deleteStaleOffers (s : Runner) : Runner := s.openOffers.entries.foldl deleteIfStale s

/-- One round of the loop of `sendOffers`. -/
def sendOffer (s : Runner) : Runner :=
  let validForInMs := OFFER_VALID_TIME_MS + s.randomInt 500
  let validUntil := s.hrtime s.clockReads + msToNs (validForInMs + OFFER_VALID_EXTRA_MS)
  let offer : TaskOffer := ⟨s.nanoid s.offersMade, validUntil⟩
  let s := { s.readClock with
    offersMade := s.offersMade + 1, openOffers := s.openOffers.set offer.offerId offer }
  s.send (.taskOffer offer.offerId s.taskType validForInMs)

def offersToSend (s : Runner) : ℕ := s.maxConcurrency - (s.openOffers.size + s.runningTasks.size)

def sendOffers (s : Runner) : Runner :=
  let s := s.deleteStaleOffers
  if s.canSendOffers then sendOffer^[s.offersToSend] s else s

def removeTask (s : Runner) (state : ℕ) : Runner :=
  { s.cleanup state with runningTasks := s.runningTasks.delete (s.taskStates state).taskId }

def finishTask (s : Runner) (state : ℕ) : Runner := (s.removeTask state).sendOffers

def stopTaskOffers (s : Runner) : Runner := { s with canSendOffers := false }

def startTaskOffers (s : Runner) : Runner := { s with canSendOffers := true }

def hasOpenTaskSlots (s : Runner) : Bool := decide (s.runningTasks.size < s.maxConcurrency)

def offerAccepted (s : Runner) (offerId : String) (taskId : ℕ) : Runner :=
  if s.hasOpenTaskSlots then
    match s.openOffers.get? offerId with
    | none => s.send (.taskRejected taskId "Offer expired - not accepted within validity window")
    | some _ =>
      { s with
        openOffers := s.openOffers.delete offerId
        taskStates := Function.update s.taskStates s.nextState (.create taskId)
        runningTasks := s.runningTasks.set taskId s.nextState
        nextState := s.nextState + 1 }.send (.taskAccepted taskId)
  else
    { s with openOffers := s.openOffers.delete offerId }.send
      (.taskRejected taskId "No open task slots - runner already at capacity")

def taskCancelled (s : Runner) (taskId : ℕ) : Runner :=
  match s.runningTasks.get? taskId with
  | none => s
  | some state =>
    match (s.taskStates state).status with
    | .waitingForSettings => s.finishTask state
    | .abortingTimeout => s
    | .abortingCancelled => s
    | .running => s.setStatus state .abortingCancelled

/-- The runner afterwards, and the error that is thrown. -/
def taskTimedOut (s : Runner) (taskId : ℕ) : Runner × Except String Unit :=
  match s.runningTasks.get? taskId with
  | none => (s, .ok ())
  | some state =>
    match (s.taskStates state).status with
    | .waitingForSettings =>
      ((s.send (.taskError taskId (TimeoutError.create s.taskTimeout).text)).finishTask state,
        .ok ())
    | .abortingTimeout => (s, .error (s.taskStates state).throwUnexpectedTaskStatus)
    | .running => (s.setStatus state .abortingTimeout, .ok ())
    | .abortingCancelled => (s, .ok ())

/-- `executeTask` is left to its end. -/
def receivedSettings (s : Runner) (taskId : ℕ) : Runner × Except String Unit :=
  match s.runningTasks.get? taskId with
  | none => (s, .ok ())
  | some state =>
    match (s.taskStates state).status with
    | .waitingForSettings =>
      ({ s.setStatus state .running with executions := s.executions.set state .executing }, .ok ())
    | .abortingCancelled => (s, .error (s.taskStates state).throwUnexpectedTaskStatus)
    | .abortingTimeout => (s, .error (s.taskStates state).throwUnexpectedTaskStatus)
    | .running => (s, .error (s.taskStates state).throwUnexpectedTaskStatus)

/-- `taskExecutionSucceeded` and `taskExecutionFailed` are this with their own message, up to
`finishTask`. -/
def endExecution (s : Runner) (state : ℕ) (m : ℕ → RunnerMessage) : Runner × Option String :=
  match (s.taskStates state).status with
  | .waitingForSettings => (s, some (s.taskStates state).throwUnexpectedTaskStatus)
  | .abortingCancelled => (s, none)
  | .abortingTimeout => (s.send (m (s.taskStates state).taskId), none)
  | .running => (s.send (m (s.taskStates state).taskId), none)

def putExecution (s : Runner) (state : ℕ) (e : Execution) : Runner :=
  { s with executions := s.executions.set state e }

def taskExecutionSucceeded (s : Runner) (state : ℕ) (data : String) : Runner :=
  let (s, thrown) := s.endExecution state (.taskDone · data)
  s.putExecution state (.succeeding thrown)

def taskExecutionFailed (s : Runner) (state : ℕ) (error : String) : Runner :=
  let (s, _) := s.endExecution state (.taskError · error)
  s.putExecution state .failing

/-- The promise of `executeTask` has settled. -/
def executionEnded (s : Runner) (state : ℕ) (result : Except String String) : Runner :=
  match s.executions.get? state, result with
  | some .executing, .ok data => s.taskExecutionSucceeded state data
  | some .executing, .error error => s.taskExecutionFailed state error
  | _, _ => s

/-- The second half of `taskExecutionSucceeded` and of `taskExecutionFailed`. What the first
throws is caught by the second. -/
def executionHandled (s : Runner) (state : ℕ) : Runner :=
  match s.executions.get? state with
  | some (.succeeding none) =>
    { s.finishTask state with executions := s.executions.delete state }
  | some (.succeeding (some error)) => (s.finishTask state).taskExecutionFailed state error
  | some .failing => { s.finishTask state with executions := s.executions.delete state }
  | _ => s

/-- The timer of a task fires, unless it was cleared. -/
def timerFires (s : Runner) (state : ℕ) : Runner :=
  if (s.taskStates state).timeoutTimer then
    ((s.cleanup state).taskTimedOut (s.taskStates state).taskId).1
  else s

/-- The answers to requests of an execution are left to the execution. -/
def onMessage (s : Runner) : ToRunner → Runner
  | .runnerRegistered => s.startTaskOffers
  | .taskOfferAccept offerId taskId => s.offerAccepted offerId taskId
  | .taskCancel taskId _ => s.taskCancelled taskId
  | .taskSettings taskId _ => (s.receivedSettings taskId).1
  | .taskDataResponse _ _ _ => s
  | .nodeTypes _ _ _ => s
  | .rpcResponse _ _ _ _ => s

def infoRequested (s : Runner) : Runner := s.send (.info s.name [s.taskType])

end Runner

/-! ### The runner's steps -/

inductive RunnerEvent where
  | message (m : ToRunner)
  | infoRequest
  | closed
  | offerInterval
  | timer (state : ℕ)
  | ended (state : ℕ) (result : Except String String)
  | handled (state : ℕ)

namespace Runner

def next (s : Runner) : RunnerEvent → Runner
  | .message m => s.onMessage m
  | .infoRequest => s.infoRequested
  | .closed => s.stopTaskOffers
  | .offerInterval => s.sendOffers
  | .timer state => s.timerFires state
  | .ended state result => s.executionEnded state result
  | .handled state => s.executionHandled state

def Step (s : Runner) (e : RunnerEvent) (s' : Runner) : Prop := s' = s.next e

theorem step_next (s : Runner) (e : RunnerEvent) : Step s e (s.next e) := rfl

end Runner
end N8n.TaskRunner
