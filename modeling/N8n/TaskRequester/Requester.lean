import N8n.TaskBroker.ReadyMessages
import N8n.Foundations.OpenedCalls

/-!
# The requester of tasks

A call of `startTask` asks the broker for a task, sends the settings when the task is ready and
returns when the task is done or has failed. What a call has left to do is found by the id of
its request and then by the id of its task. A message is handled to the end, with the calls that
go on at once. What the code of a node gives for data, node types and methods is a parameter.
-/

namespace N8n.TaskRequester
open N8n.OpenedCalls
open TaskBroker (RPCStatus ToRequester RequesterMessage)

structure TaskRequest where
  requestId : String
  taskType : String
  settings : String
  data : String
  deriving DecidableEq, Repr

structure Task where
  taskId : ℕ
  settings : String
  data : String
  deriving DecidableEq, Repr

/-- `taskData` builds and strips the data that was asked for, `hasMethod` looks a method up in
the functions of the task. -/
structure Surroundings where
  taskData : String → String → String
  nodeTypes : String → String
  hasMethod : String → String → Bool

/-- `taskAcceptRejects` leads from the task to the request of the call that waits for it;
`rpcCalls` are the methods in progress, `settled` is what the calls of `startTask` returned. -/
structure Requester where
  requestAcceptRejects : OrderedMap String TaskRequest
  taskAcceptRejects : OrderedMap ℕ String
  tasks : OrderedMap ℕ Task
  rpcCalls : List (ℕ × String)
  sent : List RequesterMessage
  settled : List (String × Except String String)

def EXPOSED_RPC_METHODS : List String :=
  ["helpers.assertBinaryData", "helpers.getBinaryDataBuffer", "helpers.prepareBinaryData",
    "helpers.setBinaryDataBuffer", "helpers.binaryToString", "helpers.httpRequest",
    "helpers.request"]

def AVAILABLE_RPC_METHODS : List String := EXPOSED_RPC_METHODS ++ ["logNodeOutput"]

namespace Requester

def initial : Requester := ⟨.empty, .empty, .empty, [], [], []⟩

def sendMessage (s : Requester) (m : RequesterMessage) : Requester := { s with sent := s.sent ++ [m] }

/-- `startTask` up to its first `await`. -/
def startTask (s : Requester) (request : TaskRequest) : Requester :=
  { s with
    requestAcceptRejects := s.requestAcceptRejects.set request.requestId request }.sendMessage
    (.taskRequest request.requestId request.taskType)

/-- `startTask` from its first `await` to the second. -/
def goOn (s : Requester) (request : TaskRequest) (taskId : ℕ) : Requester :=
  { s with
    tasks := s.tasks.set taskId ⟨taskId, request.settings, request.data⟩
    taskAcceptRejects := s.taskAcceptRejects.set taskId request.requestId }.sendMessage
    (.taskSettings taskId request.settings)

def rejectTask (s : Requester) (jobId : ℕ) (reason : String) : Requester :=
  s.sendMessage (.taskCancel jobId reason)

def taskReady (s : Requester) (requestId : String) (taskId : ℕ) : Requester :=
  match s.requestAcceptRejects.get? requestId with
  | none => s.rejectTask taskId ("Request ID not found. In multi-main setup, it is possible for " ++
      "one of the mains to have reported ready state already.")
  | some request =>
    { s with requestAcceptRejects := s.requestAcceptRejects.delete requestId }.goOn request taskId

/-- `taskDone` and `taskError` are this with their own result: the call returns. -/
def settleTask (s : Requester) (taskId : ℕ) (result : Except String String) : Requester :=
  match s.taskAcceptRejects.get? taskId with
  | none => s
  | some requestId =>
    { s with
      taskAcceptRejects := s.taskAcceptRejects.delete taskId
      tasks := s.tasks.delete taskId
      settled := s.settled ++ [(requestId, result)] }

def taskDone (s : Requester) (taskId : ℕ) (data : String) : Requester :=
  s.settleTask taskId (.ok data)

def taskError (s : Requester) (taskId : ℕ) (error : String) : Requester :=
  s.settleTask taskId (.error error)

variable (around : Surroundings)

def sendTaskData (s : Requester) (taskId : ℕ) (requestId requestParams : String) : Requester :=
  match s.tasks.get? taskId with
  | none => s
  | some job =>
    s.sendMessage (.taskDataResponse taskId requestId (around.taskData job.data requestParams))

def sendNodeTypes (s : Requester) (taskId : ℕ) (requestId neededNodeTypes : String) : Requester :=
  s.sendMessage (.nodeTypesResponse taskId requestId (around.nodeTypes neededNodeTypes))

def handleRpc (s : Requester) (taskId : ℕ) (callId name : String) : Requester :=
  match s.tasks.get? taskId with
  | none => s
  | some job =>
    if name ∉ AVAILABLE_RPC_METHODS then
      s.sendMessage (.rpcResponse taskId callId .error "Method not allowed")
    else if around.hasMethod job.data name then
      { s with rpcCalls := s.rpcCalls ++ [(taskId, callId)] }
    else s.sendMessage (.rpcResponse taskId callId .error "Could not find method")

/-- A method in progress has returned or thrown. -/
def rpcSettled (s : Requester) (index : ℕ) (status : RPCStatus) (data : String) : Requester :=
  match s.rpcCalls[index]? with
  | none => s
  | some (taskId, callId) =>
    { s with rpcCalls := s.rpcCalls.eraseIdx index }.sendMessage
      (.rpcResponse taskId callId status data)

def onMessage (s : Requester) : ToRequester → Requester
  | .taskReady requestId taskId => s.taskReady requestId taskId
  | .taskDone taskId data => s.taskDone taskId data
  | .taskError taskId error => s.taskError taskId error
  | .taskDataRequest taskId requestId requestParams =>
    s.sendTaskData around taskId requestId requestParams
  | .nodeTypesRequest taskId requestId requestParams =>
    s.sendNodeTypes around taskId requestId requestParams
  | .rpc taskId callId name _ => s.handleRpc around taskId callId name

end Requester

/-! ### What the messages that were read come to -/

def answer? : ToRequester → Option (ℕ × Except String String)
  | .taskDone taskId data => some (taskId, .ok data)
  | .taskError taskId error => some (taskId, .error error)
  | _ => none

def asked? : RequesterMessage → Option String
  | .taskRequest requestId _ => some requestId
  | _ => none

def cancels : RequesterMessage → Bool
  | .taskCancel _ _ => true
  | _ => false

def opened (read : List ToRequester) : List (String × ℕ) := read.filterMap ToRequester.ready?

namespace Requester

/-- The requests that were sent. -/
def asks (s : Requester) : List String := s.sent.filterMap asked?

/-- Where each call of `startTask` is, by the messages that were read. -/
structure Follows (s : Requester) (read : List ToRequester) : Prop where
  known : ∀ r ∈ (opened read).map Prod.fst, r ∈ s.asks
  waiting : ∀ r, s.requestAcceptRejects.has r = true ↔
    r ∈ s.asks ∧ r ∉ (opened read).map Prod.fst
  named : ∀ r request, s.requestAcceptRejects.get? r = some request → request.requestId = r
  running : ∀ r t, s.taskAcceptRejects.get? t = some r ↔
    Running ToRequester.ready? answer? read r t
  tasks : ∀ t, s.tasks.has t = s.taskAcceptRejects.has t
  settled : ∀ r a, (r, a) ∈ s.settled ↔ Answered ToRequester.ready? answer? read r a
  once : (s.settled.map Prod.fst).Nodup

theorem initial_follows : initial.Follows [] where
  known := by simp [opened]
  waiting := by simp [initial, asks, OrderedMap.has]
  named := by simp [initial]
  running := by simp [initial, running_nil]
  tasks := fun _ => rfl
  settled := by simp [initial, answered_nil]
  once := List.nodup_nil

variable {s s' : Requester} {read : List ToRequester} {m : ToRequester}

/-- No request is sent, and no task is rejected. -/
def AsksNothing (s s' : Requester) : Prop :=
  ∃ new, s'.sent = s.sent ++ new ∧ ∀ m ∈ new, asked? m = none ∧ cancels m = false

theorem AsksNothing.refl (s : Requester) : AsksNothing s s := ⟨[], by simp, by simp⟩

theorem AsksNothing.of_sent {m : RequesterMessage} (hs : s'.sent = s.sent ++ [m])
    (hm : asked? m = none) (hc : cancels m = false) : AsksNothing s s' :=
  ⟨[m], hs, by simp [hm, hc]⟩

theorem AsksNothing.asks_eq (h : AsksNothing s s') : s'.asks = s.asks := by
  obtain ⟨new, hnew, hm⟩ := h
  rw [asks, hnew, List.filterMap_append,
    List.filterMap_eq_nil_iff.mpr fun m hin => (hm m hin).1, List.append_nil, asks]

/-- Only messages and methods in progress differ. -/
structure SameCalls (s s' : Requester) : Prop where
  requests : s'.requestAcceptRejects = s.requestAcceptRejects
  accepts : s'.taskAcceptRejects = s.taskAcceptRejects
  tasks : s'.tasks = s.tasks
  settled : s'.settled = s.settled
  sent : AsksNothing s s'

theorem SameCalls.refl (s : Requester) : SameCalls s s := ⟨rfl, rfl, rfl, rfl, .refl s⟩

theorem sendMessage_sameCalls (s : Requester) {m : RequesterMessage} (hm : asked? m = none)
    (hc : cancels m = false) : SameCalls s (s.sendMessage m) :=
  ⟨rfl, rfl, rfl, rfl, .of_sent rfl hm hc⟩

theorem Follows.same (h : s.Follows read) (hs : SameCalls s s') : s'.Follows read := by
  refine ⟨?_, ?_, ?_, ?_, ?_, ?_, ?_⟩
  · rw [hs.sent.asks_eq]
    exact h.known
  · rw [hs.requests, hs.sent.asks_eq]
    exact h.waiting
  · rw [hs.requests]
    exact h.named
  · rw [hs.accepts]
    exact h.running
  · rw [hs.tasks, hs.accepts]
    exact h.tasks
  · rw [hs.settled]
    exact h.settled
  · rw [hs.settled]
    exact h.once

theorem opened_concat_of_none (hm : m.ready? = none) : opened (read ++ [m]) = opened read := by
  simp [opened, hm]

theorem opened_concat {r : String} {t : ℕ} (hm : m.ready? = some (r, t)) :
    opened (read ++ [m]) = opened read ++ [(r, t)] := by
  simp [opened, hm]

/-- A message that neither opens nor answers a call. -/
theorem Follows.skip (h : s.Follows read) (hm : m.ready? = none) (ha : answer? m = none) :
    s.Follows (read ++ [m]) := by
  refine ⟨?_, ?_, h.named, fun r t => ?_, h.tasks, fun r a => ?_, h.once⟩
  · rw [opened_concat_of_none hm]
    exact h.known
  · rw [opened_concat_of_none hm]
    exact h.waiting
  · rw [h.running, running_concat, hm, ha]
    simp
  · rw [h.settled, answered_concat, ha]
    simp

theorem startTask_asks (s : Requester) (request : TaskRequest) :
    (s.startTask request).asks = s.asks ++ [request.requestId] := by
  simp [asks, Requester.startTask, sendMessage, asked?]

theorem Follows.startTask (h : s.Follows read) {request : TaskRequest}
    (hnew : request.requestId ∉ s.asks) : (s.startTask request).Follows read := by
  have hasks := s.startTask_asks request
  refine ⟨fun r hr => ?_, fun r => ?_, fun r request' hget => ?_, h.running, h.tasks, h.settled,
    h.once⟩
  · rw [hasks]
    exact List.mem_append_left _ (h.known r hr)
  · change (s.requestAcceptRejects.set request.requestId request).has r = true ↔ _
    rw [hasks, OrderedMap.has_iff, OrderedMap.mem_keys_set, ← OrderedMap.has_iff, h.waiting,
      List.mem_append, List.mem_singleton]
    constructor
    · rintro (rfl | ⟨hr, hno⟩)
      · exact ⟨Or.inr rfl, fun hr => hnew (h.known _ hr)⟩
      · exact ⟨Or.inl hr, hno⟩
    · rintro ⟨hr | rfl, hno⟩
      · exact Or.inr ⟨hr, hno⟩
      · exact Or.inl rfl
  · change (s.requestAcceptRejects.set request.requestId request).get? r = _ at hget
    rw [OrderedMap.get?_set] at hget
    split at hget
    · rename_i hid
      exact Option.some.inj hget ▸ hid
    · exact h.named r request' hget

/-- The call of the request goes on, since no task was ready for it before. -/
theorem Follows.taskReady (h : s.Follows read) {r : String} {t : ℕ} (hm : m.ready? = some (r, t))
    (ha : answer? m = none) (hask : r ∈ s.asks)
    (hkeys : ((opened (read ++ [m])).map Prod.fst).Nodup)
    (htags : ((opened (read ++ [m])).map Prod.snd).Nodup) :
    (s.taskReady r t).Follows (read ++ [m]) ∧ AsksNothing s (s.taskReady r t) := by
  rw [opened_concat hm, List.map_append] at hkeys htags
  have hr : r ∉ (opened read).map Prod.fst := fun hin =>
    (List.nodup_append.mp hkeys).2.2 r hin r (by simp) rfl
  have ht : t ∉ (opened read).map Prod.snd := fun hin =>
    (List.nodup_append.mp htags).2.2 t hin t (by simp) rfl
  obtain ⟨request, hget⟩ := Option.isSome_iff_exists.mp ((h.waiting r).mpr ⟨hask, hr⟩)
  have hname : request.requestId = r := h.named r request hget
  have hsent : AsksNothing s (s.taskReady r t) := by
    refine .of_sent (m := .taskSettings t request.settings) ?_ rfl rfl
    simp [Requester.taskReady, hget, goOn, sendMessage]
  refine ⟨⟨fun r' hr' => ?_, fun r' => ?_, fun r' request' hget' => ?_, fun r' t' => ?_,
    fun t' => ?_, fun r' a => ?_, ?_⟩, hsent⟩
  · rw [hsent.asks_eq]
    rw [opened_concat hm, List.map_append] at hr'
    rcases List.mem_append.mp hr' with hr' | hr'
    · exact h.known r' hr'
    · obtain rfl := List.mem_singleton.mp hr'
      exact hask
  · rw [hsent.asks_eq, opened_concat hm]
    simp only [Requester.taskReady, hget, goOn, sendMessage]
    rw [OrderedMap.has, OrderedMap.get?_delete]
    by_cases hne : r = r'
    · simp [hne]
    · rw [if_neg hne, ← OrderedMap.has, h.waiting]
      simp [Ne.symm hne]
  · simp only [Requester.taskReady, hget, goOn, sendMessage] at hget'
    rw [OrderedMap.get?_delete] at hget'
    split at hget'
    · cases hget'
    · exact h.named r' request' hget'
  · simp only [Requester.taskReady, hget, goOn, sendMessage]
    rw [OrderedMap.get?_set, running_concat, hm, ha, hname]
    by_cases hne : t = t'
    · subst hne
      have hnot : ¬ Running ToRequester.ready? answer? read r' t := fun hrun =>
        ht (List.mem_map.mpr ⟨_, hrun.mem_opened, rfl⟩)
      simp [hnot]
    · rw [if_neg hne, h.running]
      simp [hne]
  · simp only [Requester.taskReady, hget, goOn, sendMessage]
    rw [OrderedMap.has, OrderedMap.has, OrderedMap.get?_set, OrderedMap.get?_set]
    split
    · rfl
    · exact h.tasks t'
  · simp only [Requester.taskReady, hget, goOn, sendMessage]
    rw [h.settled, answered_concat, ha]
    simp
  · simp only [Requester.taskReady, hget, goOn, sendMessage]
    exact h.once

/-- The call that waits for the task returns, if there is one. -/
theorem Follows.settleTask (h : s.Follows read) {t : ℕ} {result : Except String String}
    (hm : m.ready? = none) (ha : answer? m = some (t, result))
    (hkeys : ((opened read).map Prod.fst).Nodup) :
    (s.settleTask t result).Follows (read ++ [m]) ∧ AsksNothing s (s.settleTask t result) := by
  unfold Requester.settleTask
  cases hget : s.taskAcceptRejects.get? t with
  | none =>
    have hnot : ∀ r, ¬ Running ToRequester.ready? answer? read r t := by
      intro r hrun
      rw [(h.running r t).mpr hrun] at hget
      cases hget
    refine ⟨⟨?_, ?_, h.named, fun r t' => ?_, h.tasks, fun r a => ?_, h.once⟩, .refl s⟩
    · rw [opened_concat_of_none hm]
      exact h.known
    · rw [opened_concat_of_none hm]
      exact h.waiting
    · rw [h.running, running_concat, hm, ha]
      by_cases hne : t = t'
      · subst hne
        simp [hnot]
      · simp [hne]
    · rw [h.settled, answered_concat, ha]
      simp [hnot]
  | some r =>
    have hrun : Running ToRequester.ready? answer? read r t := (h.running r t).mp hget
    refine ⟨⟨?_, ?_, h.named, fun r' t' => ?_, fun t' => ?_, fun r' a => ?_, ?_⟩, [], by simp, by simp⟩
    · rw [opened_concat_of_none hm]
      exact h.known
    · rw [opened_concat_of_none hm]
      exact h.waiting
    · dsimp only
      rw [OrderedMap.get?_delete, running_concat, hm, ha]
      by_cases hne : t = t'
      · subst hne
        simp
      · rw [if_neg hne, h.running]
        simp [hne]
    · dsimp only
      rw [OrderedMap.has, OrderedMap.has, OrderedMap.get?_delete, OrderedMap.get?_delete]
      split
      · rfl
      · exact h.tasks t'
    · dsimp only
      rw [List.mem_append, h.settled, answered_concat, ha, List.mem_singleton, Prod.mk.injEq]
      refine or_congr Iff.rfl ?_
      constructor
      · rintro ⟨rfl, rfl⟩
        exact ⟨t, hrun, rfl⟩
      · rintro ⟨t', hrun', heq⟩
        obtain ⟨rfl, rfl⟩ := Prod.mk.inj (Option.some.inj heq)
        rw [← h.running, hget] at hrun'
        exact ⟨(Option.some.inj hrun').symm, rfl⟩
    · dsimp only
      rw [List.map_append]
      refine List.nodup_append.mpr ⟨h.once, List.nodup_singleton _, fun r' hr' r'' hr'' heq => ?_⟩
      obtain ⟨⟨_, a⟩, ha', rfl⟩ := List.mem_map.mp hr'
      obtain rfl := List.mem_singleton.mp hr''
      obtain rfl := heq
      exact hrun.not_answered hkeys ((h.settled _ a).mp ha')

variable (around : Surroundings)

theorem sendTaskData_sameCalls (s : Requester) (taskId : ℕ) (requestId requestParams : String) :
    SameCalls s (s.sendTaskData around taskId requestId requestParams) := by
  unfold sendTaskData
  split
  · exact .refl s
  · exact sendMessage_sameCalls s rfl rfl

theorem handleRpc_sameCalls (s : Requester) (taskId : ℕ) (callId name : String) :
    SameCalls s (s.handleRpc around taskId callId name) := by
  unfold handleRpc
  split
  · exact .refl s
  · split
    · exact sendMessage_sameCalls s rfl rfl
    · split
      · exact ⟨rfl, rfl, rfl, rfl, [], by simp, by simp⟩
      · exact sendMessage_sameCalls s rfl rfl

theorem rpcSettled_sameCalls (s : Requester) (index : ℕ) (status : RPCStatus) (data : String) :
    SameCalls s (s.rpcSettled index status data) := by
  unfold rpcSettled
  split
  · exact .refl s
  · exact ⟨rfl, rfl, rfl, rfl, .of_sent rfl rfl rfl⟩

/-- No task is ready twice for one request, and none for two. -/
theorem Follows.onMessage (h : s.Follows read)
    (hask : ∀ r t, m.ready? = some (r, t) → r ∈ s.asks)
    (hkeys : ((opened (read ++ [m])).map Prod.fst).Nodup)
    (htags : ((opened (read ++ [m])).map Prod.snd).Nodup) :
    (s.onMessage around m).Follows (read ++ [m]) ∧ AsksNothing s (s.onMessage around m) := by
  have hbefore : ((opened read).map Prod.fst).Nodup := by
    rw [opened, List.filterMap_append, List.map_append] at hkeys
    exact (List.nodup_append.mp hkeys).1
  cases m with
  | taskReady requestId taskId => exact h.taskReady rfl rfl (hask _ _ rfl) hkeys htags
  | taskDone taskId data => exact h.settleTask rfl rfl hbefore
  | taskError taskId error => exact h.settleTask rfl rfl hbefore
  | taskDataRequest taskId requestId requestParams =>
    have hs := sendTaskData_sameCalls around s taskId requestId requestParams
    exact ⟨(h.skip rfl rfl).same hs, hs.sent⟩
  | nodeTypesRequest taskId requestId requestParams =>
    have hs : SameCalls s (s.sendNodeTypes around taskId requestId requestParams) :=
      sendMessage_sameCalls s rfl rfl
    exact ⟨(h.skip rfl rfl).same hs, hs.sent⟩
  | rpc taskId callId name params =>
    have hs := handleRpc_sameCalls around s taskId callId name
    exact ⟨(h.skip rfl rfl).same hs, hs.sent⟩

end Requester
end N8n.TaskRequester
