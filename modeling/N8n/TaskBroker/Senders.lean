import N8n.TaskBroker.FinalAnswers

/-!
# Who may speak for a task

The broker dispatches a message about a task by the task's id alone. It does not
ask whether the runner or the requester that sends the message is the one that
the task belongs to: a foreign message does what the owner's own would do. What
it can change is confined to the task it names.
-/

namespace N8n.TaskBroker
open N8n.Runs

def RunnerMessage.taskId? : RunnerMessage → Option ℕ
  | .info _ _ => none
  | .taskOffer _ _ _ => none
  | .taskAccepted taskId => some taskId
  | .taskRejected taskId _ => some taskId
  | .taskDeferred taskId => some taskId
  | .taskDone taskId _ => some taskId
  | .taskError taskId _ => some taskId
  | .taskDataRequest taskId _ _ => some taskId
  | .nodeTypesRequest taskId _ _ => some taskId
  | .rpc taskId _ _ _ => some taskId

/-- The messages that answer an offer's acceptance. -/
def RunnerMessage.answersOffer : RunnerMessage → Bool
  | .taskAccepted _ => true
  | .taskRejected _ _ => true
  | .taskDeferred _ => true
  | _ => false

/-- The messages that end a task. -/
def RunnerMessage.endsTask : RunnerMessage → Bool
  | .taskDone _ _ => true
  | .taskError _ _ => true
  | _ => false

def RequesterMessage.isSettings : RequesterMessage → Bool
  | .taskSettings _ _ => true
  | _ => false

/-- The messages that answer a request of the task's code. -/
def RequesterMessage.isResponse : RequesterMessage → Bool
  | .taskDataResponse _ _ _ => true
  | .nodeTypesResponse _ _ _ => true
  | .rpcResponse _ _ _ _ => true
  | _ => false

def RequesterMessage.taskId? : RequesterMessage → Option ℕ
  | .taskSettings taskId _ => some taskId
  | .taskCancel taskId _ => some taskId
  | .taskDataResponse taskId _ _ => some taskId
  | .nodeTypesResponse taskId _ _ => some taskId
  | .rpcResponse taskId _ _ _ => some taskId
  | .taskRequest _ _ => none

namespace Broker

/-- The runner of a task, or of a handshake whose task is not there. -/
def runnerOf (s : Broker) (taskId : ℕ) : Option String :=
  match s.tasks.get? taskId with
  | some task => some task.runnerId
  | none => (s.handshakes.get? taskId).map fun h => h.offer.runnerId

def requestOf (s : Broker) (taskId : ℕ) : Option TaskRequest :=
  (s.handshakes.get? taskId).map fun h => s.requests h.request

def requesterOf (s : Broker) (taskId : ℕ) : Option String :=
  match s.tasks.get? taskId with
  | some task => some task.requesterId
  | none => (s.requestOf taskId).map TaskRequest.requesterId

/-- Nothing that a runner's message could change has changed. -/
structure RunnerUntouched (s s' : Broker) : Prop where
  tasks : s'.tasks = s.tasks
  rejects : s'.runnerAcceptRejects = s.runnerAcceptRejects
  pending : s'.pendingTaskRequests = s.pendingTaskRequests
  sent : s'.sentToRequesters = s.sentToRequesters

/-- What a runner's message about the task has changed is the task's own. -/
structure RunnerConfined (taskId : ℕ) (s s' : Broker) : Prop where
  tasks : ∀ id, id ≠ taskId → s'.tasks.get? id = s.tasks.get? id
  rejects : ∀ id, id ≠ taskId → (id ∈ s'.runnerAcceptRejects ↔ id ∈ s.runnerAcceptRejects)
  pending : ∀ requestId, (∀ r ∈ s.requestOf taskId, r.requestId ≠ requestId) →
    s'.pendingTaskRequests.filter (fun r => (s.requests r).requestId == requestId) =
      s.pendingTaskRequests.filter (fun r => (s.requests r).requestId == requestId)
  sent : ∃ new, s'.sentToRequesters = s.sentToRequesters ++ new ∧
    ∀ p ∈ new, s.requesterOf taskId = some p.1

theorem RunnerUntouched.refl (s : Broker) : RunnerUntouched s s := ⟨rfl, rfl, rfl, rfl⟩

theorem RunnerUntouched.confined {s s' : Broker} (h : RunnerUntouched s s') (taskId : ℕ) :
    RunnerConfined taskId s s' :=
  ⟨fun _ _ => by rw [h.tasks], fun _ _ => by rw [h.rejects], fun _ _ => by rw [h.pending],
    [], by rw [h.sent, List.append_nil], nofun⟩

theorem messageRequester_sent (s : Broker) (requesterId : String) (m : ToRequester) :
    ∃ new, (s.messageRequester requesterId m).sentToRequesters = s.sentToRequesters ++ new ∧
      ∀ p ∈ new, p.1 = requesterId := by
  unfold messageRequester
  split
  · exact ⟨_, rfl, fun p hp => by rw [List.mem_singleton.mp hp]⟩
  · exact ⟨[], (List.append_nil _).symm, nofun⟩

/-! ### The runner's answer -/

/-- `t` is `s` on the way through a handler of the answer about the task. -/
structure Answering (taskId : ℕ) (s t : Broker) : Prop where
  tasks : t.tasks = s.tasks
  rejects : ∀ id, id ≠ taskId → (id ∈ t.runnerAcceptRejects ↔ id ∈ s.runnerAcceptRejects)
  pending : t.pendingTaskRequests = s.pendingTaskRequests
  objects : t.requests = s.requests
  sent : t.sentToRequesters = s.sentToRequesters

theorem Answering.confined {taskId : ℕ} {s t : Broker} (h : Answering taskId s t) :
    RunnerConfined taskId s t :=
  ⟨fun _ _ => by rw [h.tasks], h.rejects, fun _ _ => by rw [h.pending],
    [], by rw [h.sent, List.append_nil], nofun⟩

theorem filter_eraseIdx_of_not {α : Type*} {l : List α} {p : α → Bool} {i : ℕ} (hi : i < l.length)
    (hp : p l[i] = false) : (l.eraseIdx i).filter p = l.filter p := by
  conv_rhs => rw [← List.take_append_drop i l, ← List.getElem_cons_drop hi]
  rw [List.eraseIdx_eq_take_drop_succ, List.filter_append, List.filter_append,
    List.filter_cons_of_neg (by simp [hp])]

theorem createTask_confined {s t : Broker} {h : Handshake} (ht : Answering h.taskId s t)
    (hreq : s.requestOf h.taskId = some (s.requests h.request))
    (hnone : s.tasks.get? h.taskId = none) : RunnerConfined h.taskId s (t.createTask h) := by
  have hrequester : s.requesterOf h.taskId = some (s.requests h.request).requesterId := by
    simp [requesterOf, hnone, hreq]
  have htasks : ∀ id, id ≠ h.taskId → ∀ task, (t.tasks.set h.taskId task).get? id =
      s.tasks.get? id := by
    intro id hne task
    rw [OrderedMap.get?_set_of_ne (Ne.symm hne), ht.tasks]
  unfold createTask
  dsimp only
  split
  · exact ⟨fun id hne => htasks id hne _, ht.rejects, fun _ _ => congrArg _ ht.pending,
      [], by rw [List.append_nil]; exact ht.sent, by simp⟩
  · rename_i requestIndex hidx
    obtain ⟨hlt, hid, _⟩ := List.findIdx?_eq_some_iff_getElem.mp hidx
    generalize hu : Broker.mk _ _ _ _ _ _ _ _ _ _ _ _ _ _ _ = u
    obtain ⟨new, hnew, hto⟩ := messageRequester_sent u (t.requests h.request).requesterId
      (.taskReady (t.requests h.request).requestId h.taskId)
    obtain ⟨sent, he⟩ := messageRequester_eq u (t.requests h.request).requesterId
      (.taskReady (t.requests h.request).requestId h.taskId)
    rw [he] at hnew ⊢
    subst hu
    refine ⟨fun id hne => htasks id hne _, ht.rejects, fun requestId hne => ?_, new, ?_,
      fun p hp => ?_⟩
    · have hout : ((s.requests t.pendingTaskRequests[requestIndex]).requestId == requestId) =
          false := by
        have hid' : (s.requests t.pendingTaskRequests[requestIndex]).requestId =
            (s.requests h.request).requestId := by
          simpa [ht.objects] using hid
        rw [hid']
        simpa using hne _ hreq
      exact (filter_eraseIdx_of_not hlt hout).trans (congrArg _ ht.pending)
    · exact hnew.trans (congrArg (· ++ new) ht.sent)
    · rw [hrequester, hto p hp, ht.objects]

theorem returnRequest_confined {s t : Broker} {h : Handshake} (ht : Answering h.taskId s t)
    (hreq : s.requestOf h.taskId = some (s.requests h.request)) (deferred rejects : Bool) :
    RunnerConfined h.taskId s (t.returnRequest h deferred rejects) := by
  refine ⟨fun id _ => congrArg (fun tasks => tasks.get? id) ht.tasks, ht.rejects,
    fun requestId hne => ?_, [], by rw [List.append_nil]; exact ht.sent, nofun⟩
  have hout : ((s.requests h.request).requestId == requestId) = false := by
    simpa using hne _ hreq
  simp only [returnRequest, endHandshake, ht.pending]
  split
  · rw [List.filter_append, List.filter_cons_of_neg (by simp [hout]), List.filter_nil,
      List.append_nil]
  · rfl

theorem resumeRunner_confined {s t : Broker} {h : Handshake} (ht : Answering h.taskId s t)
    (hreq : s.requestOf h.taskId = some (s.requests h.request))
    (hnone : s.tasks.get? h.taskId = none) : RunnerConfined h.taskId s (t.resumeRunner h) := by
  unfold resumeRunner
  split
  · exact ht.confined
  · exact createTask_confined ht hreq hnone
  · exact returnRequest_confined ht hreq false false
  · exact returnRequest_confined ht hreq true false
  · exact returnRequest_confined ht hreq false false

theorem handleRunnerAnswer_confined {s : Broker} (hk : s.Keyed) (taskId : ℕ) (a : RunnerAnswer) :
    RunnerConfined taskId s (s.handleRunnerAnswer taskId a) := by
  unfold handleRunnerAnswer
  split
  · rename_i hin
    have hclosed : Answering taskId s { s with
        runnerAcceptRejects := s.runnerAcceptRejects.filter (fun id => decide (id ≠ taskId)) } :=
      ⟨rfl, fun id hne => by simp [hne], rfl, rfl, rfl⟩
    unfold answerRunner
    split
    · exact hclosed.confined
    · rename_i h hg
      obtain rfl := hk.own taskId h hg
      have hreq : s.requestOf h.taskId = some (s.requests h.request) := congrArg (Option.map _) hg
      split
      · exact hclosed.confined
      · have hput : Answering h.taskId s ({ s with
            runnerAcceptRejects := s.runnerAcceptRejects.filter (fun id => decide (id ≠ h.taskId))
            }.putHandshake { h with runnerAnswer := some a }) :=
          ⟨rfl, hclosed.rejects, rfl, rfl, rfl⟩
        dsimp only
        split
        · exact @resumeRunner_confined s _ { h with runnerAnswer := some a } hput hreq
            (hk.open_ _ hin)
        · exact hput.confined
  · exact (RunnerUntouched.refl s).confined taskId

/-- A task that is there has no entry that an answer could settle. -/
theorem handleRunnerAnswer_of_task {s : Broker} (hk : s.Keyed) {taskId : ℕ}
    (ht : s.tasks.get? taskId ≠ none) (a : RunnerAnswer) : s.handleRunnerAnswer taskId a = s :=
  if_neg fun hin => ht (hk.open_ taskId hin)

theorem passToRequester_confined (s : Broker) (taskId : ℕ) (m : ToRequester) :
    RunnerConfined taskId s (s.passToRequester taskId m) := by
  unfold passToRequester
  split
  · exact (RunnerUntouched.refl s).confined taskId
  · rename_i task ht
    obtain ⟨new, hnew, hto⟩ := messageRequester_sent s task.requesterId m
    obtain ⟨sent, he⟩ := messageRequester_eq s task.requesterId m
    rw [he] at hnew ⊢
    exact ⟨fun _ _ => rfl, fun _ _ => Iff.rfl, fun _ _ => rfl, new, hnew,
      fun p hp => by rw [hto p hp]; simp [requesterOf, ht]⟩

end Broker

namespace Relay

/-! ### Messages of runners -/

theorem next_keyed {s : Relay} (hs : s.broker.Keyed ∧ s.Numbered) (e : RelayEvent) :
    (s.next e).broker.Keyed ∧ (s.next e).Numbered := by
  obtain ⟨hk, hn⟩ := hs
  cases he : e.own? with
  | some own =>
    rw [next_own he]
    exact ⟨hk.next own, hn⟩
  | none =>
    have ht := (next_handles hn hk he).1
    exact ⟨ht.keyed hk, ht.numbered⟩

theorem reached_keyed {now : ℤ} {mode : TaskRunnerMode} {taskTimeout : ℕ} {isSelfHosted : Bool}
    {tr : List (RelayEvent × Relay)} (hr : Run Step (initial now mode taskTimeout isSelfHosted) tr) :
    (finalState (initial now mode taskTimeout isSelfHosted) tr).broker.Keyed := by
  have hinitial : (initial now mode taskTimeout isSelfHosted).broker.Keyed ∧
      (initial now mode taskTimeout isSelfHosted).Numbered :=
    ⟨Broker.initial_keyed now, fun _ _ => rfl⟩
  have hinv := hr.invariant hinitial fun s e s' hs hstep => hstep ▸ next_keyed hs e
  exact hinv.final.1

/-- What `finishTask` leaves alone besides other tasks. -/
theorem finishTask_confined {s : Relay} (hk : s.broker.Keyed) (taskId : ℕ) (m : ℕ → ToRequester) :
    Broker.RunnerConfined taskId s.broker (s.finishTask taskId m).broker ∧
      (s.finishTask taskId m).broker.runnerAcceptRejects = s.broker.runnerAcceptRejects ∧
      (s.finishTask taskId m).broker.pendingTaskRequests = s.broker.pendingTaskRequests := by
  unfold finishTask
  split
  · exact ⟨(Broker.RunnerUntouched.refl _).confined taskId, rfl, rfl⟩
  · rename_i task ht
    have htask : task.id = taskId := hk.ids _ _ ht
    have hrequester : s.broker.requesterOf taskId = some task.requesterId := by
      simp [Broker.requesterOf, ht]
    have hget : ∀ id, id ≠ taskId →
        (s.broker.clearTimeout taskId).tasks.get? id = s.broker.tasks.get? id := by
      intro id hne
      rw [clearTimeout_get?]
      simp [hne]
    obtain ⟨tasks, he⟩ := clearTimeout_eq s.broker taskId
    rw [he] at hget
    dsimp only [onBroker]
    rw [he, htask]
    split
    · obtain ⟨new, hnew, hto⟩ := Broker.messageRequester_sent { s.broker with tasks := tasks }
        task.requesterId (m taskId)
      obtain ⟨sent, hsent⟩ := Broker.messageRequester_eq { s.broker with tasks := tasks }
        task.requesterId (m taskId)
      rw [hsent] at hnew ⊢
      exact ⟨⟨hget, fun _ _ => Iff.rfl, fun _ _ => rfl, new, hnew,
        fun p hp => by rw [hto p hp, hrequester]⟩, rfl, rfl⟩
    · refine ⟨⟨fun id hne => ?_, fun _ _ => Iff.rfl, fun _ _ => rfl, [],
        (List.append_nil _).symm, by simp⟩, rfl, rfl⟩
      exact (OrderedMap.get?_delete_of_ne (Ne.symm hne)).trans (hget id hne)

theorem finishTask_of_none {s : Relay} {taskId : ℕ} (h : s.broker.tasks.get? taskId = none)
    (m : ℕ → ToRequester) : s.finishTask taskId m = s := by
  simp [finishTask, h]

theorem passToRequester_of_none {s : Broker} {taskId : ℕ} (h : s.tasks.get? taskId = none)
    (m : ToRequester) : s.passToRequester taskId m = s := by
  simp [Broker.passToRequester, h]

theorem passToRequester_keeps (s : Broker) (taskId : ℕ) (m : ToRequester) :
    (s.passToRequester taskId m).tasks = s.tasks ∧
      (s.passToRequester taskId m).runnerAcceptRejects = s.runnerAcceptRejects ∧
      (s.passToRequester taskId m).pendingTaskRequests = s.pendingTaskRequests := by
  unfold Broker.passToRequester
  split
  · exact ⟨rfl, rfl, rfl⟩
  · obtain ⟨sent, he⟩ := Broker.messageRequester_eq s _ m
    rw [he]
    exact ⟨rfl, rfl, rfl⟩

/-- What the message of a runner about the task may do. -/
structure RunnerActs (taskId : ℕ) (m : RunnerMessage) (s s' : Relay) : Prop where
  confined : Broker.RunnerConfined taskId s.broker s'.broker
  answered : s.broker.tasks.get? taskId ≠ none → m.answersOffer = true →
    Broker.RunnerUntouched s.broker s'.broker
  missing : s.broker.tasks.get? taskId = none → m.answersOffer = false →
    Broker.RunnerUntouched s.broker s'.broker
  requests : m.answersOffer = false →
    s'.broker.runnerAcceptRejects = s.broker.runnerAcceptRejects ∧
      s'.broker.pendingTaskRequests = s.broker.pendingTaskRequests ∧
      (m.endsTask = false → s'.broker.tasks = s.broker.tasks)

theorem answer_acts {s : Relay} (hk : s.broker.Keyed) (taskId : ℕ) (a : RunnerAnswer)
    {m : RunnerMessage} (hm : m.answersOffer = true) :
    RunnerActs taskId m s (s.onBroker (·.handleRunnerAnswer taskId a)) := by
  refine ⟨Broker.handleRunnerAnswer_confined hk taskId a, fun ht _ => ?_, fun _ h => ?_,
    fun h => ?_⟩
  · dsimp only [onBroker]
    rw [Broker.handleRunnerAnswer_of_task hk ht]
    exact .refl _
  · rw [hm] at h
    cases h
  · rw [hm] at h
    cases h

theorem finish_acts {s : Relay} (hk : s.broker.Keyed) (taskId : ℕ) (f : ℕ → ToRequester)
    {m : RunnerMessage} (hm : m.answersOffer = false) (hends : m.endsTask = true) :
    RunnerActs taskId m s (s.finishTask taskId f) := by
  obtain ⟨hconfined, hrejects, hpending⟩ := finishTask_confined hk taskId f
  refine ⟨hconfined, fun _ h => ?_, fun hnone _ => ?_, fun _ => ⟨hrejects, hpending, fun h => ?_⟩⟩
  · rw [hm] at h
    cases h
  · rw [finishTask_of_none hnone]
    exact .refl _
  · rw [hends] at h
    cases h

theorem pass_acts (s : Relay) (taskId : ℕ) (f : ToRequester) {m : RunnerMessage}
    (hm : m.answersOffer = false) :
    RunnerActs taskId m s (s.onBroker (·.passToRequester taskId f)) := by
  obtain ⟨htasks, hrejects, hpending⟩ := passToRequester_keeps s.broker taskId f
  refine ⟨Broker.passToRequester_confined s.broker taskId f, fun _ h => ?_, fun hnone _ => ?_,
    fun _ => ⟨hrejects, hpending, fun _ => htasks⟩⟩
  · rw [hm] at h
    cases h
  · dsimp only [onBroker]
    rw [passToRequester_of_none hnone]
    exact .refl _

theorem onRunnerMessage_acts {s : Relay} (hk : s.broker.Keyed) {runnerId : String}
    (hr : runnerId ∈ s.broker.knownRunners) {m : RunnerMessage} {taskId : ℕ}
    (hm : m.taskId? = some taskId) : RunnerActs taskId m s (s.onRunnerMessage runnerId m) := by
  unfold onRunnerMessage
  rw [if_pos hr]
  cases m with
  | info | taskOffer => cases hm
  | taskAccepted | taskRejected | taskDeferred =>
    obtain rfl := Option.some.inj hm
    exact answer_acts hk _ _ rfl
  | taskDone | taskError =>
    obtain rfl := Option.some.inj hm
    exact finish_acts hk _ _ rfl rfl
  | taskDataRequest | nodeTypesRequest | rpc =>
    obtain rfl := Option.some.inj hm
    exact pass_acts s _ _ rfl

/-- A message about a task does the same whichever known runner sends it, and what it
changes is confined to the task it names. -/
theorem runner_message_confined (now : ℤ) (mode : TaskRunnerMode) (taskTimeout : ℕ)
    (isSelfHosted : Bool) (tr : List (RelayEvent × Relay))
    (hr : Run Step (initial now mode taskTimeout isSelfHosted) tr) (s : Relay)
    (hs : finalState (initial now mode taskTimeout isSelfHosted) tr = s) (sender owner : String)
    (hsender : sender ∈ s.broker.knownRunners) (howner : owner ∈ s.broker.knownRunners)
    (m : RunnerMessage) (taskId : ℕ) (hm : m.taskId? = some taskId) :
    s.onRunnerMessage sender m = s.onRunnerMessage owner m ∧
      RunnerActs taskId m s (s.onRunnerMessage sender m) := by
  subst hs
  refine ⟨?_, onRunnerMessage_acts (reached_keyed hr) hsender hm⟩
  cases m with
  | info | taskOffer => cases hm
  | _ => simp only [onRunnerMessage, if_pos hsender, if_pos howner]

/-- The state after the first task and one more event. -/
def afterFirstTask (e : RelayEvent) : Relay :=
  finalState (initial 0 .internal 60 true)
    (trace next (initial 0 .internal 60 true) (firstTask ++ [e]))

/-- The runner `r2` sends a result for the task of `r1`. -/
theorem foreign_result : ¬ ∀ (now : ℤ) (mode : TaskRunnerMode) (taskTimeout : ℕ)
    (isSelfHosted : Bool) (tr : List (RelayEvent × Relay)),
    Run Step (initial now mode taskTimeout isSelfHosted) tr → ∀ s : Relay,
    finalState (initial now mode taskTimeout isSelfHosted) tr = s → ∀ sender owner : String,
    sender ∈ s.broker.knownRunners → owner ∈ s.broker.knownRunners → sender ≠ owner →
    ∀ (m : RunnerMessage) (taskId : ℕ), m.taskId? = some taskId →
    s.broker.runnerOf taskId = some owner →
    Broker.RunnerUntouched s.broker (s.onRunnerMessage sender m).broker := by
  intro h
  have hrun := run_events (initial 0 .internal 60 true) (firstTask ++ [.registerRunner "r2"])
  exact absurd (h 0 .internal 60 true _ hrun _ rfl "r2" "r1" (by decide) (by decide) (by decide)
    (.taskDone 0 "forged") 0 rfl (by decide)).sent (by decide)

theorem reached_afterFirstTask (e : RelayEvent) : finalState (initial 0 .internal 60 true)
    (trace next (initial 0 .internal 60 true) (firstTask ++ [e])) = afterFirstTask e := rfl

theorem late_acceptance_confined :
    (afterFirstTask (.registerRunner "r2")).onRunnerMessage "r2" (.taskAccepted 0) =
        (afterFirstTask (.registerRunner "r2")).onRunnerMessage "r1" (.taskAccepted 0) ∧
      RunnerActs 0 (.taskAccepted 0) (afterFirstTask (.registerRunner "r2"))
        ((afterFirstTask (.registerRunner "r2")).onRunnerMessage "r2" (.taskAccepted 0)) :=
  runner_message_confined 0 .internal 60 true _
    (run_events (initial 0 .internal 60 true) (firstTask ++ [.registerRunner "r2"]))
    (afterFirstTask (.registerRunner "r2")) (reached_afterFirstTask (.registerRunner "r2"))
    "r2" "r1" (by decide) (by decide) (.taskAccepted 0) 0 rfl

end Relay

namespace Broker

/-! ### Messages of requesters -/

/-- Nothing that a requester's message about a task could change has changed. -/
structure RequesterUntouched (s s' : Broker) : Prop where
  tasks : s'.tasks = s.tasks
  rejects : s'.requesterAcceptRejects = s.requesterAcceptRejects
  sent : s'.sentToRunners = s.sentToRunners

structure RequesterConfined (taskId : ℕ) (s s' : Broker) : Prop where
  tasks : ∀ id, id ≠ taskId → s'.tasks.get? id = s.tasks.get? id
  rejects : ∀ id, id ≠ taskId → (id ∈ s'.requesterAcceptRejects ↔ id ∈ s.requesterAcceptRejects)
  sent : ∃ new, s'.sentToRunners = s.sentToRunners ++ new ∧
    ∀ p ∈ new, s.runnerOf taskId = some p.1

theorem RequesterUntouched.refl (s : Broker) : RequesterUntouched s s := ⟨rfl, rfl, rfl⟩

theorem RequesterUntouched.confined {s s' : Broker} (h : RequesterUntouched s s') (taskId : ℕ) :
    RequesterConfined taskId s s' :=
  ⟨fun _ _ => by rw [h.tasks], fun _ _ => by rw [h.rejects],
    [], by rw [h.sent, List.append_nil], nofun⟩

theorem messageRunner_sent (s : Broker) (runnerId : String) (m : ToRunner) :
    ∃ new, (s.messageRunner runnerId m).sentToRunners = s.sentToRunners ++ new ∧
      ∀ p ∈ new, p.1 = runnerId := by
  unfold messageRunner
  split
  · exact ⟨_, rfl, fun p hp => by rw [List.mem_singleton.mp hp]⟩
  · exact ⟨[], (List.append_nil _).symm, nofun⟩

/-- The tasks change at one id, and then the runner of this task may be told. -/
theorem tellRunner_confined {s : Broker} {taskId : ℕ} {task : Task}
    (ht : s.tasks.get? taskId = some task) {tasks : OrderedMap ℕ Task}
    (hsame : ∀ id, id ≠ taskId → tasks.get? id = s.tasks.get? id) (m : ToRunner) :
    RequesterConfined taskId s ({ s with tasks := tasks }.messageRunner task.runnerId m) := by
  obtain ⟨new, hnew, hto⟩ := messageRunner_sent { s with tasks := tasks } task.runnerId m
  obtain ⟨sent, he⟩ := messageRunner_eq { s with tasks := tasks } task.runnerId m
  rw [he] at hnew ⊢
  exact ⟨hsame, fun _ _ => Iff.rfl, new, hnew, fun p hp => by rw [hto p hp]; simp [runnerOf, ht]⟩

theorem cancelTask_confined (s : Broker) (taskId : ℕ) (reason : String) :
    RequesterConfined taskId s ((s.cancelTask taskId reason).getD s) ∧
      ((s.cancelTask taskId reason).getD s).requesterAcceptRejects = s.requesterAcceptRejects := by
  unfold cancelTask
  cases ht : s.tasks.get? taskId with
  | none => exact ⟨(RequesterUntouched.refl s).confined taskId, rfl⟩
  | some task =>
    refine ⟨tellRunner_confined ht
      (fun id hne => OrderedMap.get?_delete_of_ne (Ne.symm hne)) _, ?_⟩
    obtain ⟨sent, he⟩ := messageRunner_eq { s with tasks := s.tasks.delete taskId } task.runnerId
      (.taskCancel taskId reason)
    simp only [Option.map_some, Option.getD_some, he]

theorem failTask_confined (s : Broker) (taskId : ℕ) (error : String) :
    RequesterConfined taskId s (s.failTask taskId error) ∧
      (s.failTask taskId error).requesterAcceptRejects = s.requesterAcceptRejects := by
  unfold failTask
  split
  · exact ⟨(RequesterUntouched.refl s).confined taskId, rfl⟩
  · obtain ⟨sent, he⟩ := messageRequester_eq { s with tasks := s.tasks.delete taskId } _ _
    rw [he]
    exact ⟨⟨fun id hne => OrderedMap.get?_delete_of_ne (Ne.symm hne), fun _ _ => Iff.rfl,
      [], (List.append_nil _).symm, nofun⟩, rfl⟩

theorem passToRunner_confined (s : Broker) (taskId : ℕ) (m : ToRunner) :
    RequesterConfined taskId s (s.passToRunner taskId m).1 ∧
      (s.passToRunner taskId m).1.requesterAcceptRejects = s.requesterAcceptRejects ∧
      (s.orphaned taskId = false → (s.passToRunner taskId m).1.tasks = s.tasks) ∧
      (s.tasks.get? taskId = none → (s.passToRunner taskId m).1 = s) := by
  unfold passToRunner getRunnerOrFailTask
  cases ht : s.tasks.get? taskId with
  | none =>
    exact ⟨(RequesterUntouched.refl s).confined taskId, rfl, fun _ => rfl, fun _ => rfl⟩
  | some task =>
    by_cases hr : task.runnerId ∈ s.knownRunners
    · simp only [hr, if_true]
      have hc := tellRunner_confined ht (fun id _ => rfl) m
      obtain ⟨sent, he⟩ := messageRunner_eq s task.runnerId m
      refine ⟨hc, ?_, fun _ => ?_, nofun⟩
      · rw [he]
      · rw [he]
    · simp only [hr, if_false]
      have horphaned : s.orphaned taskId = true := by simp [orphaned, ht, hr]
      obtain ⟨hc, hrejects⟩ := failTask_confined s taskId
        s!"Cannot find runner, failed to find runner ({task.runnerId})"
      refine ⟨hc, hrejects, fun h => ?_, nofun⟩
      rw [horphaned] at h
      cases h

theorem RequesterConfined.of_handshakes {taskId : ℕ} {s t : Broker}
    (h : RequesterConfined taskId s t) {handshakes : OrderedMap ℕ Handshake} {escaped : List ℕ} :
    RequesterConfined taskId s { t with handshakes := handshakes, escaped := escaped } :=
  ⟨h.tasks, h.rejects, h.sent⟩

theorem sendTaskSettings_confined (s : Broker) (h : Handshake) (settings : String) :
    RequesterConfined h.taskId s (s.sendTaskSettings h settings) := by
  unfold sendTaskSettings
  cases ht : s.tasks.get? h.taskId with
  | none =>
    simp only [cancelAndThrow, cancelTask, ht, Option.map_none]
    exact ((RequesterUntouched.refl s).confined h.taskId).of_handshakes
  | some task =>
    dsimp only
    split
    · exact (tellRunner_confined ht
        (fun id hne => OrderedMap.get?_set_of_ne (Ne.symm hne)) _).of_handshakes
    · exact (failTask_confined s h.taskId _).1.of_handshakes

theorem handleRequesterAccept_confined {s : Broker} (hk : s.Keyed) (taskId : ℕ)
    (settings : String) : RequesterConfined taskId s (s.handleRequesterAccept taskId settings) := by
  unfold handleRequesterAccept
  split
  · have hclosed : ∀ id, id ≠ taskId →
        (id ∈ s.requesterAcceptRejects.filter (fun id => decide (id ≠ taskId)) ↔
          id ∈ s.requesterAcceptRejects) := fun id hne => by simp [hne]
    unfold answerRequester
    split
    · exact ⟨fun _ _ => rfl, hclosed, [], (List.append_nil _).symm, nofun⟩
    · rename_i h hg
      obtain rfl := hk.own taskId h hg
      split
      · exact ⟨fun _ _ => rfl, hclosed, [], (List.append_nil _).symm, nofun⟩
      · dsimp only
        split
        · have hsend := sendTaskSettings_confined ({ s with
              requesterAcceptRejects :=
                s.requesterAcceptRejects.filter (fun id => decide (id ≠ h.taskId))
              }.putHandshake { h with requesterAnswer := some (.settings settings) })
            { h with requesterAnswer := some (.settings settings) } settings
          obtain ⟨new, hnew, hto⟩ := hsend.sent
          refine ⟨hsend.tasks, fun id hne => (hsend.rejects id hne).trans (hclosed id hne),
            new, hnew, fun p hp => ?_⟩
          have hrunner := hto p hp
          unfold runnerOf at hrunner ⊢
          simpa [putHandshake, hg] using hrunner
        · exact ⟨fun _ _ => rfl, hclosed, [], (List.append_nil _).symm, nofun⟩
  · exact (RequesterUntouched.refl s).confined taskId

end Broker

namespace Relay

/-- What the message of a requester about the task may do. -/
structure RequesterActs (taskId : ℕ) (m : RequesterMessage) (s s' : Relay) : Prop where
  confined : Broker.RequesterConfined taskId s.broker s'.broker
  settled : taskId ∉ s.broker.requesterAcceptRejects → m.isSettings = true →
    Broker.RequesterUntouched s.broker s'.broker
  missing : s.broker.tasks.get? taskId = none → m.isSettings = false →
    Broker.RequesterUntouched s.broker s'.broker
  others : m.isSettings = false →
    s'.broker.requesterAcceptRejects = s.broker.requesterAcceptRejects ∧
      (m.isResponse = true → s.broker.orphaned taskId = false →
        s'.broker.tasks = s.broker.tasks)

theorem response_acts (s : Relay) (taskId : ℕ) (f : ToRunner) {m : RequesterMessage}
    (hm : m.isSettings = false) :
    RequesterActs taskId m s (s.onBroker fun _ => (s.broker.passToRunner taskId f).1) := by
  obtain ⟨hconfined, hrejects, htasks, hnone⟩ := Broker.passToRunner_confined s.broker taskId f
  refine ⟨hconfined, fun _ h => ?_, fun h _ => ?_, fun _ => ⟨hrejects, fun _ => htasks⟩⟩
  · rw [hm] at h
    cases h
  · dsimp only [onBroker]
    rw [hnone h]
    exact .refl _

theorem onRequesterMessage_acts {s : Relay} (hk : s.broker.Keyed) (requesterId : String)
    {m : RequesterMessage} {taskId : ℕ} (hm : m.taskId? = some taskId) :
    RequesterActs taskId m s (s.onRequesterMessage requesterId m).1 := by
  cases m with
  | taskRequest => cases hm
  | taskSettings id settings =>
    obtain rfl := Option.some.inj hm
    refine ⟨Broker.handleRequesterAccept_confined hk id settings, fun h _ => ?_, fun _ h => ?_,
      fun h => ?_⟩
    · simp only [onRequesterMessage, onBroker, Broker.handleRequesterAccept, if_neg h]
      exact .refl _
    · cases h
    · cases h
  | taskCancel id reason =>
    obtain rfl := Option.some.inj hm
    obtain ⟨hconfined, hrejects⟩ := Broker.cancelTask_confined s.broker id reason
    refine ⟨hconfined, fun _ h => ?_, fun h _ => ?_, fun _ => ⟨hrejects, fun h => ?_⟩⟩
    · cases h
    · simp only [onRequesterMessage, onBroker, Broker.cancelTask, h, Option.map_none,
        Option.getD_none]
      exact .refl _
    · cases h
  | taskDataResponse | nodeTypesResponse | rpcResponse =>
    obtain rfl := Option.some.inj hm
    exact response_acts s _ _ rfl

/-- A message about a task does the same whichever requester sends it, and what it changes
is confined to the task it names. -/
theorem requester_message_confined (now : ℤ) (mode : TaskRunnerMode) (taskTimeout : ℕ)
    (isSelfHosted : Bool) (tr : List (RelayEvent × Relay))
    (hr : Run Step (initial now mode taskTimeout isSelfHosted) tr) (s : Relay)
    (hs : finalState (initial now mode taskTimeout isSelfHosted) tr = s) (sender owner : String)
    (m : RequesterMessage) (taskId : ℕ) (hm : m.taskId? = some taskId) :
    s.onRequesterMessage sender m = s.onRequesterMessage owner m ∧
      RequesterActs taskId m s (s.onRequesterMessage sender m).1 := by
  subst hs
  refine ⟨?_, onRequesterMessage_acts (reached_keyed hr) sender hm⟩
  cases m with
  | taskRequest => cases hm
  | _ => rfl

/-- The requester `p` cancels the task of `q`. -/
theorem foreign_cancel : ¬ ∀ (now : ℤ) (mode : TaskRunnerMode) (taskTimeout : ℕ)
    (isSelfHosted : Bool) (tr : List (RelayEvent × Relay)),
    Run Step (initial now mode taskTimeout isSelfHosted) tr → ∀ s : Relay,
    finalState (initial now mode taskTimeout isSelfHosted) tr = s → ∀ sender owner : String,
    sender ∈ s.broker.requesters → owner ∈ s.broker.requesters → sender ≠ owner →
    ∀ (m : RequesterMessage) (taskId : ℕ), m.taskId? = some taskId →
    s.broker.requesterOf taskId = some owner →
    Broker.RequesterUntouched s.broker (s.onRequesterMessage sender m).1.broker := by
  intro h
  have hrun := run_events (initial 0 .internal 60 true) (firstTask ++ [.registerRequester "p"])
  have hsent := (h 0 .internal 60 true _ hrun _ (reached_afterFirstTask _) "p" "q"
    (by decide) (by decide) (by decide) (.taskCancel 0 "forged") 0 rfl (by decide)).sent
  have hmore : ((afterFirstTask (.registerRequester "p")).onRequesterMessage "p"
      (.taskCancel 0 "forged")).1.broker.sentToRunners.length ≠
      (afterFirstTask (.registerRequester "p")).broker.sentToRunners.length := by decide
  exact hmore (congrArg List.length hsent)

theorem repeated_settings_confined :
    (afterFirstTask (.registerRequester "p")).onRequesterMessage "p" (.taskSettings 0 "again") =
        (afterFirstTask (.registerRequester "p")).onRequesterMessage "q"
          (.taskSettings 0 "again") ∧
      RequesterActs 0 (.taskSettings 0 "again") (afterFirstTask (.registerRequester "p"))
        ((afterFirstTask (.registerRequester "p")).onRequesterMessage "p"
          (.taskSettings 0 "again")).1 := by
  have h := requester_message_confined 0 .internal 60 true _
    (run_events _ (firstTask ++ [.registerRequester "p"]))
  rw [reached_afterFirstTask] at h
  exact h _ rfl "p" "q" (.taskSettings 0 "again") 0 rfl

end Relay
end N8n.TaskBroker
