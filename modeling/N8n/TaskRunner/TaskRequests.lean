import N8n.TaskRunner.Offers
import N8n.Foundations.SplitLists

/-!
# The requests of the code of a task

The code of a task asks for data and node types and calls methods of the requester. Every request
waits, under its id, for a promise that is settled once: by the response with its id, or, unless
it is a call, when its task is aborted. What the code does when the promise has settled is a step
of its own.
-/

namespace N8n.TaskBroker

/-- What the code of a task asks of the requester. -/
inductive Query where
  | data (requestParams : String)
  | nodeTypes (requestParams : String)
  | rpc (name params : String)
  deriving DecidableEq, Repr

inductive RequestKind where
  | data
  | nodeTypes
  | rpc
  deriving DecidableEq, Repr

def Query.kind : Query → RequestKind
  | .data _ => .data
  | .nodeTypes _ => .nodeTypes
  | .rpc _ _ => .rpc

inductive Reply where
  | data (data : String)
  | nodeTypes (nodeTypes : String)
  | rpc (status : RPCStatus) (data : String)
  deriving DecidableEq, Repr

/-- Task, id and query of a message. -/
def RunnerMessage.query? : RunnerMessage → Option (ℕ × String × Query)
  | .taskDataRequest taskId requestId requestParams => some (taskId, requestId, .data requestParams)
  | .nodeTypesRequest taskId requestId requestParams =>
    some (taskId, requestId, .nodeTypes requestParams)
  | .rpc taskId callId name params => some (taskId, callId, .rpc name params)
  | _ => none

/-- Task, id and reply of a message. -/
def ToRunner.reply? : ToRunner → Option (ℕ × String × Reply)
  | .taskDataResponse taskId requestId data => some (taskId, requestId, .data data)
  | .nodeTypes taskId requestId types => some (taskId, requestId, .nodeTypes types)
  | .rpcResponse taskId callId status data => some (taskId, callId, .rpc status data)
  | _ => none

end N8n.TaskBroker

namespace N8n.TaskRunner
open N8n.TaskBroker (Query RequestKind Reply RPCStatus RunnerMessage ToRunner)
open N8n.SplitLists N8n.Runs

structure DataRequest where
  taskId : ℕ
  requestId : String
  deriving DecidableEq, Repr

structure NodeTypesRequest where
  taskId : ℕ
  requestId : String
  deriving DecidableEq, Repr

structure RPCCall where
  callId : String
  deriving DecidableEq, Repr

/-- The text of the error. -/
def taskCancelledError (reason : String) : String := s!"Task cancelled: {reason}"

/-- `settled` are the promises that are, by the ids of their requests. -/
structure RequestingRunner where
  runner : Runner
  dataRequests : OrderedMap String DataRequest
  nodeTypesRequests : OrderedMap String NodeTypesRequest
  rpcCalls : OrderedMap String RPCCall
  settled : List (String × Except String String)

namespace RequestingRunner

def initial (runner : Runner) : RequestingRunner := ⟨runner, .empty, .empty, .empty, []⟩

def send (s : RequestingRunner) (m : RunnerMessage) : RequestingRunner :=
  { s with runner := s.runner.send m }

/-- A promise that is settled already stays as it is. -/
def settle (s : RequestingRunner) (id : String) (result : Except String String) :
    RequestingRunner :=
  if id ∈ s.settled.map Prod.fst then s else { s with settled := s.settled ++ [(id, result)] }

def requestData (s : RequestingRunner) (taskId : ℕ) (requestId requestParams : String) :
    RequestingRunner :=
  { s with dataRequests := s.dataRequests.set requestId ⟨taskId, requestId⟩ }.send
    (.taskDataRequest taskId requestId requestParams)

def requestNodeTypes (s : RequestingRunner) (taskId : ℕ) (requestId requestParams : String) :
    RequestingRunner :=
  { s with nodeTypesRequests := s.nodeTypesRequests.set requestId ⟨taskId, requestId⟩ }.send
    (.nodeTypesRequest taskId requestId requestParams)

def makeRpcCall (s : RequestingRunner) (taskId : ℕ) (callId name params : String) :
    RequestingRunner :=
  { s with rpcCalls := s.rpcCalls.set callId ⟨callId⟩ }.send (.rpc taskId callId name params)

def processDataResponse (s : RequestingRunner) (requestId data : String) : RequestingRunner :=
  match s.dataRequests.get? requestId with
  | none => s
  | some request => s.settle request.requestId (.ok data)

def processNodeTypesResponse (s : RequestingRunner) (requestId nodeTypes : String) :
    RequestingRunner :=
  match s.nodeTypesRequests.get? requestId with
  | none => s
  | some request => s.settle request.requestId (.ok nodeTypes)

def handleRpcResponse (s : RequestingRunner) (callId : String) (status : RPCStatus)
    (data : String) : RequestingRunner :=
  match s.rpcCalls.get? callId with
  | none => s
  | some call =>
    match status with
    | .success => s.settle call.callId (.ok data)
    | .error => s.settle call.callId (.error data)

def cancelDataRequest (taskId : ℕ) (reason : String) (s : RequestingRunner)
    (e : String × DataRequest) : RequestingRunner :=
  if e.2.taskId = taskId then
    let s := s.settle e.2.requestId (.error (taskCancelledError reason))
    { s with dataRequests := s.dataRequests.delete e.1 }
  else s

def cancelNodeTypesRequest (taskId : ℕ) (reason : String) (s : RequestingRunner)
    (e : String × NodeTypesRequest) : RequestingRunner :=
  if e.2.taskId = taskId then
    let s := s.settle e.2.requestId (.error (taskCancelledError reason))
    { s with nodeTypesRequests := s.nodeTypesRequests.delete e.1 }
  else s

def cancelTaskRequests (s : RequestingRunner) (taskId : ℕ) (reason : String) : RequestingRunner :=
  let s := s.dataRequests.entries.foldl (cancelDataRequest taskId reason) s
  s.nodeTypesRequests.entries.foldl (cancelNodeTypesRequest taskId reason) s

/-- The task is running, with status `running`. -/
def isRunning (s : Runner) (taskId : ℕ) : Bool :=
  match s.runningTasks.get? taskId with
  | none => false
  | some state => decide ((s.taskStates state).status = .running)

def taskCancelled (s : RequestingRunner) (taskId : ℕ) (reason : String) : RequestingRunner :=
  let cancelled := { s with runner := s.runner.taskCancelled taskId }
  if isRunning s.runner taskId then cancelled.cancelTaskRequests taskId reason else cancelled

def timerFires (s : RequestingRunner) (state : ℕ) : RequestingRunner :=
  let fired := { s with runner := s.runner.timerFires state }
  if (s.runner.taskStates state).timeoutTimer &&
      isRunning s.runner (s.runner.taskStates state).taskId then
    fired.cancelTaskRequests (s.runner.taskStates state).taskId "timeout"
  else fired

/-- The `finally` of `requestData`, `requestNodeTypes` and `makeRpcCall`, with the id of the
request and a map of their own. -/
def requestDataEnds (s : RequestingRunner) (requestId : String) : RequestingRunner :=
  if requestId ∈ s.settled.map Prod.fst then
    { s with dataRequests := s.dataRequests.delete requestId }
  else s

def requestNodeTypesEnds (s : RequestingRunner) (requestId : String) : RequestingRunner :=
  if requestId ∈ s.settled.map Prod.fst then
    { s with nodeTypesRequests := s.nodeTypesRequests.delete requestId }
  else s

def makeRpcCallEnds (s : RequestingRunner) (callId : String) : RequestingRunner :=
  if callId ∈ s.settled.map Prod.fst then { s with rpcCalls := s.rpcCalls.delete callId } else s

end RequestingRunner

inductive TaskRequestEvent where
  | runner (e : RunnerEvent)
  | requestData (taskId : ℕ) (requestId requestParams : String)
  | requestNodeTypes (taskId : ℕ) (requestId requestParams : String)
  | makeRpcCall (taskId : ℕ) (callId name params : String)
  | requestDataEnds (requestId : String)
  | requestNodeTypesEnds (requestId : String)
  | makeRpcCallEnds (callId : String)

namespace RequestingRunner

def onRunner (s : RequestingRunner) : RunnerEvent → RequestingRunner
  | .message (.taskCancel taskId reason) => s.taskCancelled taskId reason
  | .message (.taskDataResponse _ requestId data) => s.processDataResponse requestId data
  | .message (.nodeTypes _ requestId nodeTypes) => s.processNodeTypesResponse requestId nodeTypes
  | .message (.rpcResponse _ callId status data) => s.handleRpcResponse callId status data
  | .timer state => s.timerFires state
  | e => { s with runner := s.runner.next e }

def next (s : RequestingRunner) : TaskRequestEvent → RequestingRunner
  | .runner e => s.onRunner e
  | .requestData taskId requestId requestParams => s.requestData taskId requestId requestParams
  | .requestNodeTypes taskId requestId requestParams =>
    s.requestNodeTypes taskId requestId requestParams
  | .makeRpcCall taskId callId name params => s.makeRpcCall taskId callId name params
  | .requestDataEnds requestId => s.requestDataEnds requestId
  | .requestNodeTypesEnds requestId => s.requestNodeTypesEnds requestId
  | .makeRpcCallEnds callId => s.makeRpcCallEnds callId

/-- Task, id and query of the requests that were sent. -/
def queries (s : RequestingRunner) : List (ℕ × String × Query) :=
  s.runner.sent.filterMap RunnerMessage.query?

def ids (s : RequestingRunner) : List String := s.queries.map fun query => query.2.1

end RequestingRunner

/-! ### What the runner sends by itself -/

namespace Runner

/-- More may be sent, but no request of a task's code. -/
def AsksNothing (s s' : Runner) : Prop := GrowsBy (fun m => m.query? = none) s.sent s'.sent

theorem AsksNothing.of_sent {s s' : Runner} (h : s'.sent = s.sent) : AsksNothing s s' := .of_eq h

theorem AsksNothing.send {s t : Runner} (h : AsksNothing s t) {m : RunnerMessage}
    (hm : m.query? = none) : AsksNothing s (t.send m) :=
  h.trans (growsBy_concat hm)

theorem sendOffers_asksNothing {s t : Runner} (h : AsksNothing s t) :
    AsksNothing s t.sendOffers := by
  obtain ⟨offers, hsent, ho⟩ := t.sendOffers_offers.sent
  refine h.trans ⟨offers, hsent, fun m hm => ?_⟩
  obtain ⟨_, _, _, rfl⟩ := ho m hm
  rfl

theorem finishTask_asksNothing {s t : Runner} (h : AsksNothing s t) (state : ℕ) :
    AsksNothing s (t.finishTask state) :=
  @sendOffers_asksNothing s (t.removeTask state) h

theorem taskTimedOut_asksNothing (s : Runner) (taskId : ℕ) :
    AsksNothing s (s.taskTimedOut taskId).1 := by
  unfold taskTimedOut
  split
  · exact .of_sent rfl
  · split
    · exact finishTask_asksNothing (.send (.of_sent rfl) rfl) _
    all_goals exact .of_sent rfl

theorem endExecution_asksNothing (s : Runner) (state : ℕ) {m : ℕ → RunnerMessage}
    (hm : ∀ t, (m t).query? = none) : AsksNothing s (s.endExecution state m).1 := by
  unfold endExecution
  split
  · exact .of_sent rfl
  · exact .of_sent rfl
  all_goals exact .send (.of_sent rfl) (hm _)

theorem taskExecutionFailed_asksNothing {s t : Runner} (h : AsksNothing s t) (state : ℕ)
    (error : String) : AsksNothing s (t.taskExecutionFailed state error) :=
  h.trans (endExecution_asksNothing t state (m := (.taskError · error)) fun _ => rfl)

theorem offerAccepted_asksNothing (s : Runner) (offerId : String) (taskId : ℕ) :
    AsksNothing s (s.offerAccepted offerId taskId) := by
  unfold offerAccepted
  split
  · split
    · exact .send (.of_sent rfl) rfl
    · exact growsBy_concat rfl
  · exact growsBy_concat rfl

theorem executionHandled_asksNothing (s : Runner) (state : ℕ) :
    AsksNothing s (s.executionHandled state) := by
  unfold executionHandled
  split
  · exact finishTask_asksNothing (.of_sent rfl) state
  · exact taskExecutionFailed_asksNothing (finishTask_asksNothing (.of_sent rfl) state) state _
  · exact finishTask_asksNothing (.of_sent rfl) state
  · exact .of_sent rfl

theorem onMessage_asksNothing (s : Runner) (m : ToRunner) : AsksNothing s (s.onMessage m) := by
  cases m with
  | taskOfferAccept offerId taskId => exact offerAccepted_asksNothing s offerId taskId
  | taskCancel taskId reason =>
    simp only [onMessage, taskCancelled]
    split
    · exact .of_sent rfl
    · split
      · exact finishTask_asksNothing (.of_sent rfl) _
      all_goals exact .of_sent rfl
  | taskSettings taskId settings =>
    simp only [onMessage, receivedSettings]
    split
    · exact .of_sent rfl
    · split
      all_goals exact .of_sent rfl
  | runnerRegistered | taskDataResponse | nodeTypes | rpcResponse => exact .of_sent rfl

theorem next_asksNothing (s : Runner) (e : RunnerEvent) : AsksNothing s (s.next e) := by
  cases e with
  | message m => exact s.onMessage_asksNothing m
  | infoRequest => exact growsBy_concat rfl
  | closed => exact .of_sent rfl
  | offerInterval => exact sendOffers_asksNothing (.of_sent rfl)
  | timer state =>
    simp only [next, timerFires]
    split
    · exact taskTimedOut_asksNothing (s.cleanup state) _
    · exact .of_sent rfl
  | ended state result =>
    simp only [next, executionEnded]
    split
    · exact endExecution_asksNothing s state (m := (.taskDone · _)) fun _ => rfl
    · exact taskExecutionFailed_asksNothing (.of_sent rfl) state _
    · exact .of_sent rfl
  | handled state => exact s.executionHandled_asksNothing state

end Runner

/-! ### What a promise is settled with -/

/-- The promise of the query is resolved with the value. -/
def Resolves : Query → Reply → String → Prop
  | .data _, .data data, value => value = data
  | .nodeTypes _, .nodeTypes nodeTypes, value => value = nodeTypes
  | .rpc _ _, .rpc .success data, value => value = data
  | _, _, _ => False

namespace RequestingRunner

/-- The task that the runner knows of the request: of a call it knows none. -/
def taskOf? (t : ℕ) : Query → Option ℕ
  | .rpc _ _ => none
  | .data _ | .nodeTypes _ => some t

/-- What waits under the id, as its task and the id of its promise. -/
def waiting? (s : RequestingRunner) (id : String) : RequestKind → Option (Option ℕ × String)
  | .data => (s.dataRequests.get? id).map fun request => (some request.taskId, request.requestId)
  | .nodeTypes =>
    (s.nodeTypesRequests.get? id).map fun request => (some request.taskId, request.requestId)
  | .rpc => (s.rpcCalls.get? id).map fun call => (none, call.callId)

/-- The request waits for its promise. -/
def Waits (s : RequestingRunner) (t : ℕ) (id : String) (query : Query) : Prop :=
  s.waiting? id query.kind = some (taskOf? t query, id)

/-- `given` are the values that a promise may be resolved with. -/
structure Sound (s : RequestingRunner) (given : String → String → Prop) : Prop where
  once : s.ids.Nodup
  waiting : ∀ id kind entry, s.waiting? id kind = some entry →
    ∃ t query, (t, id, query) ∈ s.queries ∧ query.kind = kind ∧ entry = (taskOf? t query, id)
  settledOnce : (s.settled.map Prod.fst).Nodup
  made : ∀ id ∈ s.settled.map Prod.fst, id ∈ s.ids
  settled : ∀ id value, (id, .ok value) ∈ s.settled → given id value
  accounted : ∀ t id query, (t, id, query) ∈ s.queries →
    id ∈ s.settled.map Prod.fst ∨ s.Waits t id query

variable {s : RequestingRunner} {given : String → String → Prop} {id : String}
  {result : Except String String}

theorem initial_sound {runner : Runner} (h : runner.sent = []) : (initial runner).Sound given := by
  refine ⟨?_, fun id kind entry hget => ?_, List.nodup_nil, ?_, ?_, ?_⟩
  · simp [initial, ids, queries, h]
  · cases kind <;> cases hget
  all_goals simp [initial, queries, h]

/-- The runner has sent no request of a task's code. -/
theorem Sound.runner (h : s.Sound given) {runner : Runner}
    (hr : Runner.AsksNothing s.runner runner) : Sound { s with runner := runner } given := by
  have hqueries : queries { s with runner := runner } = s.queries := GrowsBy.filterMap hr
  refine ⟨?_, ?_, h.settledOnce, ?_, h.settled, ?_⟩
  · rw [ids, hqueries]
    exact h.once
  · rw [hqueries]
    exact h.waiting
  · rw [ids, hqueries]
    exact h.made
  · rw [hqueries]
    exact h.accounted

/-! ### Promises -/

theorem mem_settle (s : RequestingRunner) (id : String) (result : Except String String) :
    id ∈ (s.settle id result).settled.map Prod.fst := by
  unfold settle
  split
  · assumption
  · simp

/-- The runner is as it was, and what is settled stays so. -/
structure Onward (s s' : RequestingRunner) : Prop where
  runner : s'.runner = s.runner
  settled : s.settled ⊆ s'.settled

theorem Onward.refl (s : RequestingRunner) : Onward s s := ⟨rfl, List.Subset.refl _⟩

theorem Onward.trans {s s' s'' : RequestingRunner} (h : Onward s s') (h' : Onward s' s'') :
    Onward s s'' :=
  ⟨h'.runner.trans h.runner, List.Subset.trans h.settled h'.settled⟩

theorem settle_onward (s : RequestingRunner) (id : String) (result : Except String String) :
    Onward s (s.settle id result) := by
  unfold settle
  split
  · exact .refl s
  · exact ⟨rfl, List.subset_append_left _ _⟩

theorem mem_ids {t : ℕ} {query : Query} (h : (t, id, query) ∈ s.queries) : id ∈ s.ids :=
  List.mem_map.mpr ⟨_, h, rfl⟩

theorem Sound.settle (h : s.Sound given) (hid : id ∈ s.ids)
    (hok : ∀ value, result = .ok value → given id value) :
    (s.settle id result).Sound given := by
  unfold RequestingRunner.settle
  split
  · exact h
  · rename_i hnew
    refine ⟨h.once, h.waiting, ?_, fun id' hin => ?_, fun id' value hin => ?_,
      fun t id' query hquery => ?_⟩
    · dsimp only
      rw [List.map_append]
      refine List.nodup_append.mpr ⟨h.settledOnce, List.nodup_singleton _, fun a ha b hb heq => ?_⟩
      rw [heq, List.mem_singleton.mp hb] at ha
      exact hnew ha
    · dsimp only at hin
      rw [List.map_append] at hin
      rcases List.mem_append.mp hin with hin | hin
      · exact h.made id' hin
      · rw [List.mem_singleton.mp hin]
        exact hid
    · rcases List.mem_append.mp hin with hin | hin
      · exact h.settled id' value hin
      · obtain ⟨rfl, rfl⟩ := Prod.mk.inj (List.mem_singleton.mp hin)
        exact hok value rfl
    · refine (h.accounted t id' query hquery).imp_left fun hin => ?_
      dsimp only
      rw [List.map_append]
      exact List.mem_append_left _ hin

/-- Of one kind the request with the id is dropped, and nothing else. -/
structure Drops (id : String) (kind : RequestKind) (s s' : RequestingRunner) : Prop where
  runner : s'.runner = s.runner
  settled : s'.settled = s.settled
  waiting : ∀ id' kind', s'.waiting? id' kind' =
    if id = id' ∧ kind = kind' then none else s.waiting? id' kind'

theorem Sound.drops (h : s.Sound given) {kind : RequestKind} {s' : RequestingRunner}
    (hd : Drops id kind s s') (hid : id ∈ s.settled.map Prod.fst) : s'.Sound given := by
  have hqueries : s'.queries = s.queries := by rw [queries, hd.runner, queries]
  refine ⟨?_, fun id' kind' entry hget => ?_, hd.settled ▸ h.settledOnce, ?_, ?_,
    fun t id' query hquery => ?_⟩
  · rw [ids, hqueries]
    exact h.once
  · rw [hd.waiting] at hget
    rw [hqueries]
    split at hget
    · cases hget
    · exact h.waiting id' kind' entry hget
  · rw [hd.settled, ids, hqueries]
    exact h.made
  · rw [hd.settled]
    exact h.settled
  · rw [hqueries] at hquery
    rw [hd.settled, Waits, hd.waiting]
    split
    · rename_i heq
      exact Or.inl (heq.1 ▸ hid)
    · exact h.accounted t id' query hquery

theorem deleteData_drops (s : RequestingRunner) (id : String) :
    Drops id .data s { s with dataRequests := s.dataRequests.delete id } := by
  refine ⟨rfl, rfl, fun id' kind => ?_⟩
  cases kind with
  | data =>
    simp only [waiting?, OrderedMap.get?_delete, and_true]
    split <;> rfl
  | nodeTypes | rpc => simp [waiting?]

theorem deleteNodeTypes_drops (s : RequestingRunner) (id : String) :
    Drops id .nodeTypes s { s with nodeTypesRequests := s.nodeTypesRequests.delete id } := by
  refine ⟨rfl, rfl, fun id' kind => ?_⟩
  cases kind with
  | nodeTypes =>
    simp only [waiting?, OrderedMap.get?_delete, and_true]
    split <;> rfl
  | data | rpc => simp [waiting?]

theorem deleteCall_drops (s : RequestingRunner) (id : String) :
    Drops id .rpc s { s with rpcCalls := s.rpcCalls.delete id } := by
  refine ⟨rfl, rfl, fun id' kind => ?_⟩
  cases kind with
  | rpc =>
    simp only [waiting?, OrderedMap.get?_delete, and_true]
    split <;> rfl
  | data | nodeTypes => simp [waiting?]

theorem Sound.waiting_id (h : s.Sound given) {kind : RequestKind} {entry : Option ℕ × String}
    (hw : s.waiting? id kind = some entry) : entry.2 = id ∧ id ∈ s.ids := by
  obtain ⟨t, query, hquery, -, rfl⟩ := h.waiting id kind entry hw
  exact ⟨rfl, mem_ids hquery⟩

/-! ### Requests that are cancelled -/

theorem cancelDataRequest_onward (taskId : ℕ) (reason : String) (s : RequestingRunner)
    (e : String × DataRequest) : Onward s (cancelDataRequest taskId reason s e) := by
  unfold RequestingRunner.cancelDataRequest
  split
  · have hon := settle_onward s e.2.requestId (.error (taskCancelledError reason))
    exact ⟨hon.runner, hon.settled⟩
  · exact .refl s

theorem cancelNodeTypesRequest_onward (taskId : ℕ) (reason : String) (s : RequestingRunner)
    (e : String × NodeTypesRequest) : Onward s (cancelNodeTypesRequest taskId reason s e) := by
  unfold RequestingRunner.cancelNodeTypesRequest
  split
  · have hon := settle_onward s e.2.requestId (.error (taskCancelledError reason))
    exact ⟨hon.runner, hon.settled⟩
  · exact .refl s

section Fold
variable {β : Type} {op : RequestingRunner → β → RequestingRunner} {p : β → Prop}
  {f : β → String}

theorem foldl_onward (hop : ∀ s e, Onward s (op s e)) (s : RequestingRunner) (es : List β) :
    Onward s (es.foldl op s) := by
  induction es generalizing s with
  | nil => exact .refl s
  | cons e es ih => exact (hop s e).trans (ih (op s e))

theorem mem_foldl_settled (hop : ∀ s e, Onward s (op s e))
    (hmem : ∀ s e, p e → f e ∈ (op s e).settled.map Prod.fst) (s : RequestingRunner) {es : List β}
    {e : β} (he : e ∈ es) (hp : p e) : f e ∈ (es.foldl op s).settled.map Prod.fst := by
  induction es generalizing s with
  | nil => cases he
  | cons e' es ih =>
    rcases List.mem_cons.mp he with rfl | he
    · exact List.map_subset _ (foldl_onward hop (op s e) es).settled (hmem s e hp)
    · exact ih (op s e') he

theorem Sound.foldl (h : s.Sound given) (hop : ∀ s e, Onward s (op s e)) {es : List β}
    (hes : ∀ t : RequestingRunner, t.Sound given → t.ids = s.ids → ∀ e ∈ es,
      (op t e).Sound given) : (es.foldl op s).Sound given := by
  have hboth : (es.foldl op s).Sound given ∧ (es.foldl op s).ids = s.ids := by
    apply List.foldlRecOn (motive := fun t => Sound t given ∧ t.ids = s.ids)
    · exact ⟨h, rfl⟩
    · intro t ht e he
      refine ⟨hes t ht.1 ht.2 e he, ?_⟩
      rw [← ht.2, ids, ids, queries, (hop t e).runner, queries]
  exact hboth.1

end Fold

theorem cancelTaskRequests_onward (s : RequestingRunner) (taskId : ℕ) (reason : String) :
    Onward s (s.cancelTaskRequests taskId reason) :=
  (foldl_onward (cancelDataRequest_onward taskId reason) s _).trans
    (foldl_onward (cancelNodeTypesRequest_onward taskId reason) _ _)

/-- A request is rejected and dropped. -/
theorem Sound.reject (h : s.Sound given) {kind : RequestKind} {error : String}
    {s' : RequestingRunner} (hid : id ∈ s.ids) (hd : Drops id kind (s.settle id (.error error)) s') :
    s'.Sound given := by
  have hsettled : (s.settle id (.error error)).Sound given :=
    h.settle hid fun value heq => by cases heq
  exact hsettled.drops hd (mem_settle s id _)

theorem Sound.cancelDataRequest (h : s.Sound given) (taskId : ℕ) (reason : String)
    {e : String × DataRequest} (he : e.2.requestId = e.1) (hid : e.1 ∈ s.ids) :
    (RequestingRunner.cancelDataRequest taskId reason s e).Sound given := by
  unfold RequestingRunner.cancelDataRequest
  split
  · rw [he]
    exact h.reject hid (deleteData_drops _ e.1)
  · exact h

theorem Sound.cancelNodeTypesRequest (h : s.Sound given) (taskId : ℕ) (reason : String)
    {e : String × NodeTypesRequest} (he : e.2.requestId = e.1) (hid : e.1 ∈ s.ids) :
    (RequestingRunner.cancelNodeTypesRequest taskId reason s e).Sound given := by
  unfold RequestingRunner.cancelNodeTypesRequest
  split
  · rw [he]
    exact h.reject hid (deleteNodeTypes_drops _ e.1)
  · exact h

theorem Sound.cancelTaskRequests (h : s.Sound given) (taskId : ℕ) (reason : String) :
    (s.cancelTaskRequests taskId reason).Sound given := by
  have hdata : (s.dataRequests.entries.foldl
      (RequestingRunner.cancelDataRequest taskId reason) s).Sound given := by
    refine h.foldl (cancelDataRequest_onward taskId reason) fun t ht hids e he => ?_
    have hw : s.waiting? e.1 .data = some (some e.2.taskId, e.2.requestId) :=
      congrArg (Option.map _) (OrderedMap.get?_eq_some.mpr he)
    obtain ⟨hid, hin⟩ := h.waiting_id hw
    exact ht.cancelDataRequest taskId reason hid (hids ▸ hin)
  unfold RequestingRunner.cancelTaskRequests
  dsimp only
  refine hdata.foldl (cancelNodeTypesRequest_onward taskId reason) fun t ht hids e he => ?_
  have hw : (s.dataRequests.entries.foldl (RequestingRunner.cancelDataRequest taskId reason)
      s).waiting? e.1 .nodeTypes = some (some e.2.taskId, e.2.requestId) :=
    congrArg (Option.map _) (OrderedMap.get?_eq_some.mpr he)
  obtain ⟨hid, hin⟩ := hdata.waiting_id hw
  exact ht.cancelNodeTypesRequest taskId reason hid (hids ▸ hin)

theorem foldl_cancelDataRequest_nodeTypes (taskId : ℕ) (reason : String) (s : RequestingRunner)
    (es : List (String × DataRequest)) :
    (es.foldl (cancelDataRequest taskId reason) s).nodeTypesRequests = s.nodeTypesRequests := by
  refine List.foldlRecOn es (cancelDataRequest taskId reason)
    (motive := fun t : RequestingRunner => t.nodeTypesRequests = s.nodeTypesRequests) rfl ?_
  intro t ht e _
  rw [← ht]
  unfold RequestingRunner.cancelDataRequest RequestingRunner.settle
  split
  · dsimp only
    split <;> rfl
  · rfl

/-- No request of the task waits for data or node types any longer. -/
theorem Sound.mem_cancelTaskRequests (h : s.Sound given) {taskId : ℕ} (reason : String)
    {query : Query} (hquery : (taskId, id, query) ∈ (s.cancelTaskRequests taskId reason).queries)
    (hno : ∀ name params, query ≠ .rpc name params) :
    id ∈ (s.cancelTaskRequests taskId reason).settled.map Prod.fst := by
  rw [queries, (cancelTaskRequests_onward s taskId reason).runner] at hquery
  have hnode := foldl_onward (cancelNodeTypesRequest_onward taskId reason)
    (s.dataRequests.entries.foldl (RequestingRunner.cancelDataRequest taskId reason) s)
    (s.dataRequests.entries.foldl (RequestingRunner.cancelDataRequest taskId reason)
      s).nodeTypesRequests.entries
  rcases h.accounted taskId id query hquery with hin | hwaits
  · exact List.map_subset _ (cancelTaskRequests_onward s taskId reason).settled hin
  · cases query with
    | data =>
      obtain ⟨request, hget, hentry⟩ := Option.map_eq_some_iff.mp hwaits
      obtain ⟨htask, rfl⟩ := Prod.mk.inj hentry
      refine List.map_subset _ hnode.settled (mem_foldl_settled
        (cancelDataRequest_onward taskId reason) (p := fun e => e.2.taskId = taskId)
        (f := fun e => e.2.requestId) ?_ s (OrderedMap.get?_eq_some.mp hget)
        (Option.some.inj htask))
      intro t e he
      rw [RequestingRunner.cancelDataRequest, if_pos he]
      exact mem_settle t _ _
    | nodeTypes =>
      obtain ⟨request, hget, hentry⟩ := Option.map_eq_some_iff.mp hwaits
      obtain ⟨htask, rfl⟩ := Prod.mk.inj hentry
      rw [← foldl_cancelDataRequest_nodeTypes taskId reason s s.dataRequests.entries] at hget
      refine mem_foldl_settled (cancelNodeTypesRequest_onward taskId reason)
        (p := fun e => e.2.taskId = taskId) (f := fun e => e.2.requestId) ?_ _
        (OrderedMap.get?_eq_some.mp hget) (Option.some.inj htask)
      intro t e he
      rw [RequestingRunner.cancelNodeTypesRequest, if_pos he]
      exact mem_settle t _ _
    | rpc name params => exact absurd rfl (hno name params)

/-! ### Requests that are made -/

/-- A request with a new id is made. -/
structure Asks (t : ℕ) (id : String) (query : Query) (s s' : RequestingRunner) : Prop where
  queries : s'.queries = s.queries ++ [(t, id, query)]
  settled : s'.settled = s.settled
  waiting : ∀ id' kind, s'.waiting? id' kind =
    if id = id' ∧ query.kind = kind then some (taskOf? t query, id) else s.waiting? id' kind

theorem Sound.asks (h : s.Sound given) {s' : RequestingRunner} {t : ℕ} {query : Query}
    (ha : Asks t id query s s') (hnew : id ∉ s.ids) : s'.Sound given := by
  have hold : ∀ {query'}, query' ∈ s.queries → query' ∈ s'.queries := fun h =>
    ha.queries ▸ List.mem_append_left _ h
  have hids : s'.ids = s.ids ++ [id] := by simp [ids, ha.queries]
  refine ⟨?_, fun id' kind entry hget => ?_, ha.settled ▸ h.settledOnce, fun id' hin => ?_,
    ha.settled ▸ h.settled, fun t' id' query' hquery => ?_⟩
  · rw [hids]
    refine List.nodup_append.mpr ⟨h.once, List.nodup_singleton _, fun a hin b hb heq => ?_⟩
    rw [heq, List.mem_singleton.mp hb] at hin
    exact hnew hin
  · rw [ha.waiting] at hget
    split at hget
    · rename_i heq
      obtain ⟨rfl, rfl⟩ := heq
      exact ⟨t, query, by simp [ha.queries], rfl, (Option.some.inj hget).symm⟩
    · obtain ⟨t', query', hquery, hentry⟩ := h.waiting id' kind entry hget
      exact ⟨t', query', hold hquery, hentry⟩
  · rw [ha.settled] at hin
    rw [hids]
    exact List.mem_append_left _ (h.made id' hin)
  · rw [ha.settled, Waits, ha.waiting]
    rw [ha.queries] at hquery
    rcases List.mem_append.mp hquery with hquery | hquery
    · have hne : id ≠ id' := fun heq => hnew (heq ▸ mem_ids hquery)
      rw [if_neg fun heq => hne heq.1]
      exact h.accounted t' id' query' hquery
    · cases List.mem_singleton.mp hquery
      exact Or.inr (if_pos ⟨rfl, rfl⟩)

theorem requestData_asks (s : RequestingRunner) (t : ℕ) (id params : String) :
    Asks t id (.data params) s (s.requestData t id params) := by
  refine ⟨?_, rfl, fun id' kind => ?_⟩
  · simp [queries, requestData, send, Runner.send, RunnerMessage.query?]
  · cases kind with
    | data =>
      simp only [waiting?, requestData, send, OrderedMap.get?_set, Query.kind, and_true]
      split <;> rfl
    | nodeTypes | rpc => simp [waiting?, requestData, send, Query.kind]

theorem requestNodeTypes_asks (s : RequestingRunner) (t : ℕ) (id params : String) :
    Asks t id (.nodeTypes params) s (s.requestNodeTypes t id params) := by
  refine ⟨?_, rfl, fun id' kind => ?_⟩
  · simp [queries, requestNodeTypes, send, Runner.send, RunnerMessage.query?]
  · cases kind with
    | nodeTypes =>
      simp only [waiting?, requestNodeTypes, send, OrderedMap.get?_set, Query.kind, and_true]
      split <;> rfl
    | data | rpc => simp [waiting?, requestNodeTypes, send, Query.kind]

theorem makeRpcCall_asks (s : RequestingRunner) (t : ℕ) (id name params : String) :
    Asks t id (.rpc name params) s (s.makeRpcCall t id name params) := by
  refine ⟨?_, rfl, fun id' kind => ?_⟩
  · simp [queries, makeRpcCall, send, Runner.send, RunnerMessage.query?]
  · cases kind with
    | rpc =>
      simp only [waiting?, makeRpcCall, send, OrderedMap.get?_set, Query.kind, and_true]
      split <;> rfl
    | data | nodeTypes => simp [waiting?, makeRpcCall, send, Query.kind]

/-! ### Responses -/

def repliesOf : TaskRequestEvent → List (ℕ × String × Reply)
  | .runner (.message m) => m.reply?.toList
  | _ => []

/-- The event is the reply to a request, with the value that was asked for. -/
def Answers (s : RequestingRunner) (e : TaskRequestEvent) (id value : String) : Prop :=
  ∃ t query t' reply, (t, id, query) ∈ s.queries ∧ repliesOf e = [(t', id, reply)] ∧
    Resolves query reply value

/-- A response settles the promise of a request of its kind. -/
theorem Sound.respond (h : s.Sound given) {kind : RequestKind} {task : Option ℕ} {id' : String}
    (hw : s.waiting? id kind = some (task, id'))
    (hok : ∀ t query value, query.kind = kind → (t, id, query) ∈ s.queries →
      result = .ok value → given id value) :
    (s.settle id' result).Sound given := by
  obtain ⟨t, query, hquery, hkind, hentry⟩ := h.waiting id kind _ hw
  obtain ⟨-, rfl⟩ := Prod.mk.inj hentry
  exact h.settle (mem_ids hquery) fun value => hok t query value hkind hquery

theorem Sound.processDataResponse {t : ℕ} {data : String} (h : s.Sound given)
    (hgiven : ∀ value, s.Answers (.runner (.message (.taskDataResponse t id data))) id value →
      given id value) : (s.processDataResponse id data).Sound given := by
  unfold RequestingRunner.processDataResponse
  split
  · exact h
  · rename_i request hget
    have hw : s.waiting? id .data = some (some request.taskId, request.requestId) :=
      congrArg (Option.map _) hget
    refine h.respond hw fun t' query value hkind hquery heq => ?_
    cases query with
    | data =>
      obtain rfl := Except.ok.inj heq
      exact hgiven data ⟨t', _, t, .data data, hquery, rfl, rfl⟩
    | nodeTypes | rpc => cases hkind

theorem Sound.processNodeTypesResponse {t : ℕ} {nodeTypes : String} (h : s.Sound given)
    (hgiven : ∀ value, s.Answers (.runner (.message (.nodeTypes t id nodeTypes))) id value →
      given id value) : (s.processNodeTypesResponse id nodeTypes).Sound given := by
  unfold RequestingRunner.processNodeTypesResponse
  split
  · exact h
  · rename_i request hget
    have hw : s.waiting? id .nodeTypes = some (some request.taskId, request.requestId) :=
      congrArg (Option.map _) hget
    refine h.respond hw fun t' query value hkind hquery heq => ?_
    cases query with
    | nodeTypes =>
      obtain rfl := Except.ok.inj heq
      exact hgiven nodeTypes ⟨t', _, t, .nodeTypes nodeTypes, hquery, rfl, rfl⟩
    | data | rpc => cases hkind

theorem Sound.handleRpcResponse {t : ℕ} {status : RPCStatus} {data : String} (h : s.Sound given)
    (hgiven : ∀ value, s.Answers (.runner (.message (.rpcResponse t id status data))) id value →
      given id value) : (s.handleRpcResponse id status data).Sound given := by
  unfold RequestingRunner.handleRpcResponse
  split
  · exact h
  · rename_i call hget
    have hw : s.waiting? id .rpc = some (none, call.callId) := congrArg (Option.map _) hget
    cases status with
    | success =>
      refine h.respond hw fun t' query value hkind hquery heq => ?_
      cases query with
      | rpc =>
        obtain rfl := Except.ok.inj heq
        exact hgiven data ⟨t', _, t, .rpc .success data, hquery, rfl, rfl⟩
      | data | nodeTypes => cases hkind
    | error => exact h.respond hw fun _ _ value _ _ heq => by cases heq

/-! ### Steps -/

def Enabled (s : RequestingRunner) : TaskRequestEvent → Prop
  | .requestData _ id _ => id ∉ s.ids
  | .requestNodeTypes _ id _ => id ∉ s.ids
  | .makeRpcCall _ id _ _ => id ∉ s.ids
  | _ => True

theorem Sound.onRunner (h : s.Sound given) (e : RunnerEvent)
    (hgiven : ∀ id value, s.Answers (.runner e) id value → given id value) :
    (s.onRunner e).Sound given := by
  have hown : Sound { s with runner := s.runner.next e } given :=
    h.runner (s.runner.next_asksNothing e)
  cases e with
  | message m =>
    cases m with
    | taskCancel taskId reason =>
      simp only [RequestingRunner.onRunner, taskCancelled]
      split
      · exact hown.cancelTaskRequests taskId reason
      · exact hown
    | taskDataResponse taskId requestId data => exact h.processDataResponse (hgiven requestId)
    | nodeTypes taskId requestId types => exact h.processNodeTypesResponse (hgiven requestId)
    | rpcResponse taskId callId status data => exact h.handleRpcResponse (hgiven callId)
    | runnerRegistered | taskOfferAccept | taskSettings => exact hown
  | timer state =>
    simp only [RequestingRunner.onRunner, timerFires]
    split
    · exact hown.cancelTaskRequests _ _
    · exact hown
  | infoRequest | closed | offerInterval | ended | handled => exact hown

theorem Sound.next (h : s.Sound given) {e : TaskRequestEvent} (he : s.Enabled e)
    (hgiven : ∀ id value, s.Answers e id value → given id value) : (s.next e).Sound given := by
  cases e with
  | runner e => exact h.onRunner e hgiven
  | requestData t id params => exact h.asks (requestData_asks s t id params) he
  | requestNodeTypes t id params => exact h.asks (requestNodeTypes_asks s t id params) he
  | makeRpcCall t id name params => exact h.asks (makeRpcCall_asks s t id name params) he
  | requestDataEnds id =>
    simp only [RequestingRunner.next, requestDataEnds]
    split
    · exact h.drops (deleteData_drops s id) ‹_›
    · exact h
  | requestNodeTypesEnds id =>
    simp only [RequestingRunner.next, requestNodeTypesEnds]
    split
    · exact h.drops (deleteNodeTypes_drops s id) ‹_›
    · exact h
  | makeRpcCallEnds id =>
    simp only [RequestingRunner.next, makeRpcCallEnds]
    split
    · exact h.drops (deleteCall_drops s id) ‹_›
    · exact h

/-! ### Runs -/

def Step (s : RequestingRunner) (e : TaskRequestEvent) (s' : RequestingRunner) : Prop :=
  s.Enabled e ∧ s' = s.next e

theorem step_next (s : RequestingRunner) (e : TaskRequestEvent) (h : s.Enabled e) :
    Step s e (s.next e) := ⟨h, rfl⟩

instance (s : RequestingRunner) (e : TaskRequestEvent) : Decidable (s.Enabled e) :=
  match e with
  | .requestData _ id _ => inferInstanceAs (Decidable (id ∉ s.ids))
  | .requestNodeTypes _ id _ => inferInstanceAs (Decidable (id ∉ s.ids))
  | .makeRpcCall _ id _ _ => inferInstanceAs (Decidable (id ∉ s.ids))
  | .runner _ | .requestDataEnds _ | .requestNodeTypesEnds _ | .makeRpcCallEnds _ =>
    inferInstanceAs (Decidable True)

/-- The running task that the event aborts. -/
def aborts (s : RequestingRunner) : TaskRequestEvent → Option ℕ
  | .runner (.message (.taskCancel taskId _)) =>
    if isRunning s.runner taskId then some taskId else none
  | .runner (.timer state) =>
    if (s.runner.taskStates state).timeoutTimer &&
      isRunning s.runner (s.runner.taskStates state).taskId
    then some (s.runner.taskStates state).taskId else none
  | _ => none

/-- Every request waits or is settled, and is settled once. -/
structure Accounted (s : RequestingRunner) : Prop where
  once : (s.settled.map Prod.fst).Nodup
  made : ∀ id ∈ s.settled.map Prod.fst, id ∈ s.ids
  waits : ∀ t id query, (t, id, query) ∈ s.queries →
    id ∈ s.settled.map Prod.fst ∨ s.Waits t id query

/-- The runner does what it does without the requests. A promise is resolved by a reply to its
request, and a task that is aborted has no request for data or node types left that is not
settled. -/
structure Settles (s : RequestingRunner) (e : TaskRequestEvent) (s' : RequestingRunner) :
    Prop where
  runner : ∀ own, e = .runner own → s'.runner = s.runner.next own
  aborted : ∀ t ∈ s.aborts e, ∀ id query, (t, id, query) ∈ s'.queries →
    (∀ name params, query ≠ .rpc name params) → id ∈ s'.settled.map Prod.fst
  kept : s.settled ⊆ s'.settled
  answered : ∀ id value, (id, .ok value) ∈ s'.settled →
    (id, .ok value) ∈ s.settled ∨ s.Answers e id value

theorem onRunner_onward (s : RequestingRunner) (e : RunnerEvent) :
    Onward { s with runner := s.runner.next e } (s.onRunner e) := by
  cases e with
  | message m =>
    cases m with
    | taskCancel taskId reason =>
      simp only [RequestingRunner.onRunner, taskCancelled]
      split
      · exact cancelTaskRequests_onward _ taskId reason
      · exact .refl _
    | taskDataResponse taskId requestId data =>
      simp only [RequestingRunner.onRunner, RequestingRunner.processDataResponse]
      split
      · exact .refl s
      · exact settle_onward s _ _
    | nodeTypes taskId requestId types =>
      simp only [RequestingRunner.onRunner, RequestingRunner.processNodeTypesResponse]
      split
      · exact .refl s
      · exact settle_onward s _ _
    | rpcResponse taskId callId status data =>
      simp only [RequestingRunner.onRunner, RequestingRunner.handleRpcResponse]
      split
      · exact .refl s
      · split <;> exact settle_onward s _ _
    | runnerRegistered | taskOfferAccept | taskSettings => exact .refl _
  | timer state =>
    simp only [RequestingRunner.onRunner, timerFires]
    split
    · exact cancelTaskRequests_onward _ _ "timeout"
    · exact .refl _
  | infoRequest | closed | offerInterval | ended | handled => exact .refl _

theorem Sound.next_promises (h : s.Sound given) {e : TaskRequestEvent} (he : s.Enabled e) :
    (s.next e).Sound fun id value => (id, .ok value) ∈ s.settled ∨ s.Answers e id value :=
  Sound.next ⟨h.once, h.waiting, h.settledOnce, h.made, fun _ _ => Or.inl, h.accounted⟩ he
    fun _ _ => Or.inr

theorem Sound.next_settles (h : s.Sound given) {e : TaskRequestEvent} (he : s.Enabled e) :
    Settles s e (s.next e) := by
  refine ⟨?_, fun t ht id query hquery hno => ?_, ?_, ?_⟩
  · rintro own rfl
    exact (s.onRunner_onward own).runner
  · cases e with
    | runner own =>
      have hown : Sound { s with runner := s.runner.next own } given :=
        h.runner (s.runner.next_asksNothing own)
      cases own with
      | message m =>
        cases m with
        | taskCancel taskId reason =>
          simp only [aborts] at ht
          split at ht
          · cases ht
            simp only [RequestingRunner.next, RequestingRunner.onRunner, taskCancelled,
              if_pos ‹isRunning s.runner t = true›] at hquery ⊢
            exact hown.mem_cancelTaskRequests reason hquery hno
          · cases ht
        | _ => cases ht
      | timer state =>
        simp only [aborts] at ht
        split at ht
        · rename_i hfires
          cases ht
          simp only [RequestingRunner.next, RequestingRunner.onRunner, timerFires, if_pos hfires]
            at hquery ⊢
          exact hown.mem_cancelTaskRequests "timeout" hquery hno
        · cases ht
      | _ => cases ht
    | _ => cases ht
  · cases e with
    | runner own => exact (s.onRunner_onward own).settled
    | requestData | requestNodeTypes | makeRpcCall => exact List.Subset.refl _
    | requestDataEnds id =>
      simp only [RequestingRunner.next, requestDataEnds]
      split <;> exact List.Subset.refl _
    | requestNodeTypesEnds id =>
      simp only [RequestingRunner.next, requestNodeTypesEnds]
      split <;> exact List.Subset.refl _
    | makeRpcCallEnds id =>
      simp only [RequestingRunner.next, makeRpcCallEnds]
      split <;> exact List.Subset.refl _
  · exact (h.next_promises he).settled

def Consistent (s : RequestingRunner) : Prop := s.Sound fun _ _ => True

/-- In every run, no promise is forgotten or settled twice, and none but that of a call outlives
its task. -/
theorem promises_accounted {opts : TaskRunnerOpts} {world : Surroundings}
    {tr : List (TaskRequestEvent × RequestingRunner)}
    (hr : Run Step (initial (.initial opts world)) tr) :
    Always Accounted (initial (.initial opts world)) tr ∧
      EveryTransition Settles (initial (.initial opts world)) tr := by
  have hinit : (initial (.initial opts world)).Consistent := initial_sound rfl
  have hnext : ∀ s e s', s.Consistent → Step s e s' → s'.Consistent := by
    rintro s e s' h ⟨he, rfl⟩
    exact Sound.next h he fun _ _ _ => trivial
  constructor
  · refine (hr.invariant hinit hnext).mono fun s h => ?_
    exact ⟨h.settledOnce, h.made, h.accounted⟩
  · refine hr.everyTransition (C := fun _ _ => True) hinit ?_ (.of_forall (fun _ _ => trivial) _ _)
    intro s e s' h _ hs
    refine ⟨hnext s e s' h hs, ?_⟩
    obtain ⟨he, rfl⟩ := hs
    exact Sound.next_settles h he

/-- A task with two requests and a call, cancelled before its second answer. -/
def cancelledTask : List TaskRequestEvent :=
  [.runner (.message .runnerRegistered), .runner .offerInterval,
    .runner (.message (.taskOfferAccept "x" 7)), .runner (.message (.taskSettings 7 "settings")),
    .requestNodeTypes 7 "n" "names", .requestData 7 "d" "input",
    .makeRpcCall 7 "c" "logNodeOutput" "args", .runner (.message (.nodeTypes 7 "n" "types")),
    .requestNodeTypesEnds "n", .runner (.message (.taskCancel 7 "stopped")),
    .runner (.message (.taskDataResponse 7 "d" "data")), .requestDataEnds "d",
    .runner (.ended 0 (.error "cancelled")), .runner (.handled 0)]

theorem promises_accounted_cancelled :
    (finalState (initial Runner.twoPlaces)
      (trace next (initial Runner.twoPlaces) cancelledTask)).settled =
        [("n", .ok "types"), ("d", .error (taskCancelledError "stopped"))] ∧
    Always Accounted (initial Runner.twoPlaces)
        (trace next (initial Runner.twoPlaces) cancelledTask) ∧
      EveryTransition Settles (initial Runner.twoPlaces)
        (trace next (initial Runner.twoPlaces) cancelledTask) :=
  ⟨by rfl, promises_accounted (run_trace step_next (by decide))⟩

end RequestingRunner
end N8n.TaskRunner
