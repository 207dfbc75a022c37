import N8n.TaskBroker.Turns
import N8n.TaskRunner.Answers

/-!
# A broker and its runner

One broker and one runner that stays connected to it. What a party has sent and
the other has not read is in flight, and is read in order. All else happens at
any time: requesters come, go, ask and answer, and timers fire.
-/

namespace N8n.TaskProtocol
open N8n.TaskBroker N8n.TaskRunner
open N8n.Runs

structure Connection where
  runnerId : String
  relay : Relay
  runner : Runner
  readByRunner : ℕ
  readByBroker : ℕ

inductive ConnectionEvent where
  | runnerReads
  | brokerReads
  | runner (e : RunnerEvent)
  | broker (e : RelayEvent)

/-- Events of the runner that neither are messages nor end the connection. -/
def ofRunner : RunnerEvent → Bool
  | .message _ => false
  | .closed => false
  | _ => true

def ofBroker : RelayEvent → Bool
  | .fromRunner _ _ => false
  | _ => true

namespace Connection

/-- The runner has just been registered. -/
def initial (runnerId : String) (relay : Relay) (runner : Runner) : Connection where
  runnerId := runnerId
  relay := relay.next (.registerRunner runnerId)
  runner := runner
  readByRunner := 0
  readByBroker := 0

def sentToRunner (s : Connection) : List ToRunner :=
  (s.relay.broker.sentToRunners.filter fun p => p.1 == s.runnerId).map Prod.snd

def toRunner (s : Connection) : List ToRunner := s.sentToRunner.drop s.readByRunner

def toBroker (s : Connection) : List RunnerMessage := s.runner.sent.drop s.readByBroker

def next (s : Connection) : ConnectionEvent → Connection
  | .runnerReads =>
    match s.toRunner with
    | [] => s
    | m :: _ => { s with runner := s.runner.next (.message m), readByRunner := s.readByRunner + 1 }
  | .brokerReads =>
    match s.toBroker with
    | [] => s
    | m :: _ => { s with
        relay := s.relay.next (.fromRunner s.runnerId m), readByBroker := s.readByBroker + 1 }
  | .runner e => { s with runner := s.runner.next e }
  | .broker e => { s with relay := s.relay.next e }

def Enabled (s : Connection) : ConnectionEvent → Prop
  | .runnerReads => True
  | .brokerReads => True
  | .runner e => ofRunner e = true
  | .broker e => ofBroker e = true ∧ s.relay.connected s.runnerId e = true

def Step (s : Connection) (e : ConnectionEvent) (s' : Connection) : Prop :=
  s.Enabled e ∧ s' = s.next e

theorem step_next (s : Connection) (e : ConnectionEvent) (h : s.Enabled e) : Step s e (s.next e) :=
  ⟨h, rfl⟩

/-- No message is in flight and no `acceptOffer` call in progress. -/
structure Quiet (s : Connection) : Prop where
  toRunner : s.toRunner = []
  toBroker : s.toBroker = []
  calls : s.relay.broker.handshakes.keys = []

end Connection

/-- The task is running at the runner, with status `waitingForSettings`. -/
def waitsForSettings (s : Runner) (taskId : ℕ) : Prop :=
  ∃ state, s.runningTasks.get? taskId = some state ∧
    (s.taskStates state).status = .waitingForSettings

namespace Connection

def Agreed (s : Connection) : Prop :=
  s.Quiet → ∀ taskId, waitsForSettings s.runner taskId → taskId ∈ s.relay.broker.tasks.keys

/-- The runner accepts no task that the broker no longer asks for. -/
def ReadInTime (s : Connection) : List ToRunner → Prop
  | .taskOfferAccept offerId taskId :: _ =>
    s.runner.accepts offerId = true → s.relay.broker.grip taskId = .asking
  | _ => True

/-- Nor does its time to answer run out on a task that it has accepted. -/
def InTime (s : Connection) : ConnectionEvent → Prop
  | .runnerReads => s.ReadInTime s.toRunner
  | .broker (.runnerAcceptTimeout taskId) =>
    s.relay.broker.grip taskId = .asking → s.runner.phase taskId ≠ .waiting
  | _ => True

instance (s : Connection) (e : ConnectionEvent) : Decidable (s.Enabled e) :=
  match e with
  | .runnerReads => inferInstanceAs (Decidable True)
  | .brokerReads => inferInstanceAs (Decidable True)
  | .runner e => inferInstanceAs (Decidable (ofRunner e = true))
  | .broker e =>
    inferInstanceAs (Decidable (ofBroker e = true ∧ s.relay.connected s.runnerId e = true))

instance (s : Connection) (l : List ToRunner) : Decidable (s.ReadInTime l) :=
  match l with
  | .taskOfferAccept offerId taskId :: _ => inferInstanceAs (Decidable
      (s.runner.accepts offerId = true → s.relay.broker.grip taskId = .asking))
  | [] | .runnerRegistered :: _ | .taskCancel _ _ :: _ | .taskSettings _ _ :: _
  | .taskDataResponse _ _ _ :: _ | .nodeTypes _ _ _ :: _ | .rpcResponse _ _ _ _ :: _ =>
    inferInstanceAs (Decidable True)

instance (s : Connection) (e : ConnectionEvent) : Decidable (s.InTime e) :=
  match e with
  | .runnerReads => inferInstanceAs (Decidable (s.ReadInTime s.toRunner))
  | .brokerReads | .runner _ => inferInstanceAs (Decidable True)
  | .broker e =>
    match e with
    | .runnerAcceptTimeout taskId => inferInstanceAs (Decidable
        (s.relay.broker.grip taskId = .asking → s.runner.phase taskId ≠ .waiting))
    | .fromRunner _ _ | .fromRequester _ _ | .registerRunner _ | .deregisterRunner _ _
    | .registerRequester _ | .deregisterRequester _ | .requesterAcceptTimeout _
    | .messageSettled _ _ | .clock _ | .taskTimeout _ | .callSettled _ _ =>
      inferInstanceAs (Decidable True)

end Connection
end N8n.TaskProtocol
