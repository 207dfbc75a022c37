import Mathlib.Data.List.Dedup
import Mathlib.Data.List.Induction
import N8n.Foundations.JsonValues

/-!
# Executions recovered from the event log

An execution that was cut off is amended with what the event log says of its nodes. The nodes are
visited in the order in which the workflow stores them, and for each the first message that it
started and the first message that it finished are taken.
-/

namespace N8n.ExecutionRecovery
open N8n.JsonValues (Value)

/-- `ts` is in milliseconds. -/
structure EventMessage where
  eventName : String
  ts : ℤ
  nodeName : Option String
  deriving DecidableEq, Repr

inductive ExecutionStatus where
  | canceled
  | crashed
  | error
  | new
  | running
  | success
  | unknown
  | waiting
  deriving DecidableEq, Repr

structure ExecutionError where
  message : String
  description : Option String
  node : Option String
  deriving DecidableEq, Repr

structure ITaskData where
  startTime : ℤ
  executionIndex : ℕ
  executionTime : ℤ
  source : List (Option String)
  executionStatus : Option ExecutionStatus
  data : Option Value
  error : Option ExecutionError
  deriving DecidableEq

structure IRunExecutionData where
  runData : OrderedMap String (List ITaskData)
  lastNodeExecuted : Option String
  error : Option ExecutionError

/-- The nodes of the workflow are given by their names. -/
structure IExecutionResponse where
  status : ExecutionStatus
  stoppedAt : Option ℤ
  nodes : List String
  data : Option IRunExecutionData

def artificialTaskData : Value :=
  .object [("main", .array [.array [.object
    [("json", .object [("isArtificialRecoveredEventItem", .boolean true)]),
      ("pairedItem", .undefined)]]])]

def nodeCrashedError (node : String) : ExecutionError :=
  ⟨"Execution stopped at this node", some ("n8n may have run out of memory while running this" ++
    " execution. More context and tips on how to avoid this" ++
    " <a href='https://docs.n8n.io/hosting/scaling/memory-errors/' target='_blank'>in the docs</a>"),
    some node⟩

def workflowCrashedError : ExecutionError :=
  ⟨"Workflow did not finish, possible out-of-memory issue", none, none⟩

def startsWith (name start : String) : Bool := start.toList.isPrefixOf name.toList

namespace EventMessage

def isOf (eventName nodeName : String) (m : EventMessage) : Bool :=
  m.nodeName = some nodeName ∧ m.eventName = eventName

def started (nodeName : String) : EventMessage → Bool := isOf "n8n.node.started" nodeName

def finished (nodeName : String) : EventMessage → Bool := isOf "n8n.node.finished" nodeName

end EventMessage

def isNodeMessage (m : EventMessage) : Bool := startsWith m.eventName "n8n.node."

/-- The messages of nodes and those of workflows. -/
def toRelevantMessages (messages : List EventMessage) : List EventMessage × List EventMessage :=
  (messages.filter isNodeMessage,
    messages.filter fun m => !isNodeMessage m && startsWith m.eventName "n8n.workflow.")

def workflowEndEvents : List String :=
  ["n8n.workflow.success", "n8n.workflow.crashed", "n8n.workflow.failed"]

def toStoppedAt (timestamp : Option ℤ) (messages : List EventMessage) : Option ℤ :=
  timestamp.or (((messages.find? fun m => m.eventName ∈ workflowEndEvents).or
    (messages.find? fun m => m.eventName = "n8n.workflow.started")).map EventMessage.ts)

/-- The task of a node that started, and finished or not. -/
def taskData (node : String) (nodeStartedMessage : EventMessage)
    (nodeFinishedMessage : Option EventMessage) : ITaskData :=
  let task : ITaskData := ⟨nodeStartedMessage.ts / 1000, 0, -1, [none], none, none, none⟩
  match nodeFinishedMessage with
  | some message => { task with
      executionStatus := some .success
      data := some artificialTaskData
      executionTime := message.ts - nodeStartedMessage.ts }
  | none => { task with
      executionStatus := some .crashed
      error := some (nodeCrashedError node)
      executionTime := 0 }

/-- One round of the loop over the nodes. `inherited` are the names under which every object has a
property. -/
def recoverNode (inherited : String → Bool) (nodeMessages : List EventMessage)
    (state : IRunExecutionData × Option ℤ) (node : String) : IRunExecutionData × Option ℤ :=
  let (runExecutionData, _) := state
  match nodeMessages.find? (EventMessage.started node) with
  | none => state
  | some nodeStartedMessage =>
    let nodeHasRunData := runExecutionData.runData.has node || inherited node
    if nodeHasRunData then state
    else
      let nodeFinishedMessage := nodeMessages.find? (EventMessage.finished node)
      ({ runData := runExecutionData.runData.set node
            [taskData node nodeStartedMessage nodeFinishedMessage]
         lastNodeExecuted := some node
         error := if nodeFinishedMessage.isSome then runExecutionData.error
            else some workflowCrashedError },
        some (nodeFinishedMessage.getD nodeStartedMessage).ts)

def noRunData : IRunExecutionData := ⟨.empty, none, none⟩

/-- `execution` is what the repository finds, `now` the time of the amendment. -/
def amend (inherited : String → Bool) (now : ℤ) (execution : Option IExecutionResponse)
    (messages : List EventMessage) : Option IExecutionResponse :=
  if messages = [] then
    execution.map fun execution => { execution with status := .crashed, stoppedAt := some now }
  else
    let (nodeMessages, workflowMessages) := toRelevantMessages messages
    if nodeMessages = [] then none
    else
      match execution with
      | none => none
      | some execution =>
        if execution.status ∈ [.success, .error] ∧ execution.data.isSome then none
        else
          let (runExecutionData, lastNodeRunTimestamp) :=
            execution.nodes.foldl (recoverNode inherited nodeMessages)
              (execution.data.getD noRunData, none)
          some { execution with
            status := if execution.status = .error then .error else .crashed
            stoppedAt := toStoppedAt lastNodeRunTimestamp workflowMessages
            data := some runExecutionData }

/-! ### The names of a list, each where it stands first -/

def firsts (names : List String) : List String := names.reverse.dedup.reverse

theorem mem_firsts {name : String} {names : List String} : name ∈ firsts names ↔ name ∈ names := by
  simp [firsts]

theorem firsts_concat (names : List String) (name : String) :
    firsts (names ++ [name]) = if name ∈ names then firsts names else firsts names ++ [name] := by
  by_cases h : name ∈ names
  · simp [firsts, h]
  · simp [firsts, h]

/-! ### The last state of every node -/

section LastStates
variable (messages : List EventMessage) (execution : IExecutionResponse)

/-- A started or a finished message of the node. -/
def ofNode (node : String) (m : EventMessage) : Bool := m.started node || m.finished node

def latestMessage (node : String) : Option EventMessage :=
  (messages.filter (ofNode node)).getLast?

/-- The node has a started message and no stored run data. -/
def isLost (node : String) : Bool :=
  (messages.find? (EventMessage.started node)).isSome &&
    !(execution.data.getD noRunData).runData.has node

/-- The lost nodes in the order of the workflow. -/
def lostNodes : List String := firsts (execution.nodes.filter (isLost messages execution))

/-- The latest message of all lost nodes. -/
def latestOfLost : Option EventMessage :=
  (messages.filter fun m => (lostNodes messages execution).any fun node => ofNode node m).getLast?

structure RecoversLastStates (amended : Option IExecutionResponse) : Prop where
  statuses : ∀ node ∈ lostNodes messages execution, ∀ m, latestMessage messages node = some m →
    ∃ a ∈ amended, ∃ data ∈ a.data, ∃ task, data.runData.get? node = some [task] ∧
      (task.executionStatus = some .crashed ↔ m.eventName = "n8n.node.started") ∧
      (task.executionStatus = some .success ↔ m.eventName = "n8n.node.finished")
  last : ∀ m, latestOfLost messages execution = some m →
    ∃ a ∈ amended, a.stoppedAt = some m.ts ∧ ∃ data ∈ a.data, data.lastNodeExecuted = m.nodeName

/-- What the loop over the nodes takes for granted. -/
structure RunInOrder (inherited : String → Bool) : Prop where
  ordinary : ∀ node ∈ lostNodes messages execution, inherited node = false
  finished : ∀ node ∈ lostNodes messages execution, ∀ m, latestMessage messages node = some m →
    m.eventName = "n8n.node.started" → messages.find? (EventMessage.finished node) = none
  last : ∀ m, latestOfLost messages execution = some m →
    (lostNodes messages execution).getLast? = m.nodeName ∧
      ∀ node ∈ m.nodeName, ∀ first, messages.find? (EventMessage.isOf m.eventName node) = some first →
        first.ts = m.ts

end LastStates

/-! ### What the loop leaves -/

/-- The task that is recorded for the node, and its time. -/
def recordOf (nodeMessages : List EventMessage) (node : String) : Option (ITaskData × ℤ) :=
  (nodeMessages.find? (EventMessage.started node)).map fun started =>
    let finished := nodeMessages.find? (EventMessage.finished node)
    (taskData node started finished, (finished.getD started).ts)

section Loop
variable (inherited : String → Bool) (nodeMessages : List EventMessage) (stored : IRunExecutionData)

def isRecorded (node : String) : Bool :=
  (recordOf nodeMessages node).isSome && !(stored.runData.has node || inherited node)

def recordedNodes (nodes : List String) : List String :=
  firsts (nodes.filter (isRecorded inherited nodeMessages stored))

/-- What the loop has left after the nodes. -/
structure Recovered (nodes : List String) (state : IRunExecutionData × Option ℤ) : Prop where
  runData : ∀ node, state.1.runData.get? node =
    if node ∈ recordedNodes inherited nodeMessages stored nodes then
      (recordOf nodeMessages node).map fun record => [record.1]
    else stored.runData.get? node
  lastNodeExecuted : state.1.lastNodeExecuted =
    (recordedNodes inherited nodeMessages stored nodes).getLast?.or stored.lastNodeExecuted
  timestamp : state.2 = (recordedNodes inherited nodeMessages stored nodes).getLast?.bind fun node =>
    (recordOf nodeMessages node).map Prod.snd

theorem recordedNodes_concat (nodes : List String) (node : String) :
    recordedNodes inherited nodeMessages stored (nodes ++ [node]) =
      if isRecorded inherited nodeMessages stored node = true ∧
          node ∉ recordedNodes inherited nodeMessages stored nodes then
        recordedNodes inherited nodeMessages stored nodes ++ [node]
      else recordedNodes inherited nodeMessages stored nodes := by
  by_cases h : isRecorded inherited nodeMessages stored node = true
  · by_cases hmem : node ∈ nodes <;>
      simp [recordedNodes, List.filter_append, h, firsts_concat, mem_firsts, hmem]
  · simp [recordedNodes, List.filter_append, h]

variable {inherited nodeMessages stored} {nodes : List String}
  {state : IRunExecutionData × Option ℤ}

theorem mem_recordedNodes {node : String} :
    node ∈ recordedNodes inherited nodeMessages stored nodes ↔
      node ∈ nodes ∧ isRecorded inherited nodeMessages stored node = true := by
  simp [recordedNodes, mem_firsts]

theorem Recovered.has_iff (h : Recovered inherited nodeMessages stored nodes state) {node : String} :
    state.1.runData.has node = true ↔
      node ∈ recordedNodes inherited nodeMessages stored nodes ∨ stored.runData.has node = true := by
  rw [OrderedMap.has, h.runData, OrderedMap.has]
  split
  · next hmem =>
    have := (mem_recordedNodes.mp hmem).2
    simp only [isRecorded, Bool.and_eq_true] at this
    simp [hmem, this.1]
  · next hmem => simp [hmem]

theorem recoverNode_eq (state : IRunExecutionData × Option ℤ) (node : String) :
    recoverNode inherited nodeMessages state node =
      match recordOf nodeMessages node with
      | none => state
      | some record =>
        if state.1.runData.has node || inherited node then state
        else
          ({ runData := state.1.runData.set node [record.1]
             lastNodeExecuted := some node
             error := if (nodeMessages.find? (EventMessage.finished node)).isSome then state.1.error
                else some workflowCrashedError }, some record.2) := by
  unfold recoverNode recordOf
  cases nodeMessages.find? (EventMessage.started node) <;> rfl

theorem Recovered.concat (h : Recovered inherited nodeMessages stored nodes state)
    (node : String) :
    Recovered inherited nodeMessages stored (nodes ++ [node])
      (recoverNode inherited nodeMessages state node) := by
  have hconcat := recordedNodes_concat inherited nodeMessages stored nodes node
  rw [recoverNode_eq]
  cases hrecord : recordOf nodeMessages node with
  | none =>
    rw [if_neg (by simp [isRecorded, hrecord])] at hconcat
    exact ⟨hconcat ▸ h.runData, hconcat ▸ h.lastNodeExecuted, hconcat ▸ h.timestamp⟩
  | some record =>
    by_cases hdata : (state.1.runData.has node || inherited node) = true
    · have hskipped : ¬ (isRecorded inherited nodeMessages stored node = true ∧
          node ∉ recordedNodes inherited nodeMessages stored nodes) := by
        rw [Bool.or_eq_true, h.has_iff] at hdata
        simp only [isRecorded, hrecord]
        grind
      rw [if_neg hskipped] at hconcat
      simp only [hdata, if_true]
      exact ⟨hconcat ▸ h.runData, hconcat ▸ h.lastNodeExecuted, hconcat ▸ h.timestamp⟩
    · have hnew : isRecorded inherited nodeMessages stored node = true ∧
          node ∉ recordedNodes inherited nodeMessages stored nodes := by
        rw [Bool.or_eq_true, h.has_iff] at hdata
        simp only [isRecorded, hrecord]
        grind
      rw [if_pos hnew] at hconcat
      simp only [hdata, Bool.false_eq_true, if_false]
      constructor
      · intro other
        rw [OrderedMap.get?_set, h.runData, hconcat]
        by_cases hother : other = node
        · simp [hother, hrecord]
        · simp [hother, Ne.symm hother]
      · simp [hconcat]
      · simp [hconcat, hrecord]

theorem recovered_foldl (nodes : List String) :
    Recovered inherited nodeMessages stored nodes
      (nodes.foldl (recoverNode inherited nodeMessages) (stored, none)) := by
  induction nodes using List.reverseRecOn with
  | nil => constructor <;> simp [recordedNodes, firsts]
  | append_singleton nodes node ih =>
    rw [List.foldl_append]
    exact ih.concat node

end Loop

/-! ### The latest message of a node -/

section Latest
variable {messages : List EventMessage} {node : String} {m : EventMessage}

theorem EventMessage.isOf_iff {eventName : String} :
    m.isOf eventName node = true ↔ m.nodeName = some node ∧ m.eventName = eventName := by
  simp [EventMessage.isOf]

theorem ofNode_iff : ofNode node m = true ↔
    m.nodeName = some node ∧
      (m.eventName = "n8n.node.started" ∨ m.eventName = "n8n.node.finished") := by
  simp only [ofNode, Bool.or_eq_true, EventMessage.started, EventMessage.finished,
    EventMessage.isOf_iff]
  tauto

theorem find?_toRelevantMessages {eventName : String}
    (h : startsWith eventName "n8n.node." = true) (messages : List EventMessage) (node : String) :
    (toRelevantMessages messages).1.find? (EventMessage.isOf eventName node) =
      messages.find? (EventMessage.isOf eventName node) := by
  rw [toRelevantMessages, List.find?_filter]
  congr 1
  funext m
  by_cases hm : m.isOf eventName node = true
  · simp [hm, isNodeMessage, (EventMessage.isOf_iff.mp hm).2, h]
  · simp [hm]

theorem getLast?_filter_of_imp {p q : EventMessage → Bool} (himp : ∀ m, q m = true → p m = true)
    (h : (messages.filter p).getLast? = some m) (hq : q m = true) :
    (messages.filter q).getLast? = some m := by
  have hfilter : messages.filter q = (messages.filter p).filter q := by
    rw [List.filter_filter]
    congr 1
    funext m
    have := himp m
    cases hm : q m <;> simp_all
  obtain ⟨before, hbefore⟩ := List.getLast?_eq_some_iff.mp h
  rw [hfilter, hbefore, List.filter_append]
  simp [hq]

theorem latestMessage_isSome (h : (messages.find? (EventMessage.started node)).isSome = true) :
    ∃ m, latestMessage messages node = some m := by
  obtain ⟨m, hmem, hm⟩ := List.find?_isSome.mp h
  have : m ∈ messages.filter (ofNode node) := by simp [hmem, ofNode, hm]
  exact ⟨_, List.getLast?_eq_some_getLast (List.ne_nil_of_mem this)⟩

theorem ofNode_of_latestMessage (h : latestMessage messages node = some m) :
    m ∈ messages ∧ ofNode node m = true := by
  have := List.mem_of_getLast? h
  simpa using this

/-- Without a finished message the latest message is a started one. -/
theorem eventName_of_latestMessage (h : latestMessage messages node = some m)
    (hfinished : messages.find? (EventMessage.finished node) = none) :
    m.eventName = "n8n.node.started" := by
  obtain ⟨hmem, hof⟩ := ofNode_of_latestMessage h
  have hnot := List.find?_eq_none.mp hfinished m hmem
  simp only [EventMessage.finished, EventMessage.isOf_iff] at hnot
  have hof := ofNode_iff.mp hof
  tauto

theorem status_iff_latestMessage (h : latestMessage messages node = some m)
    {record : ITaskData × ℤ} (hrecord : recordOf messages node = some record) :
    ((record.1.executionStatus = some .crashed ↔ m.eventName = "n8n.node.started") ∧
      (record.1.executionStatus = some .success ↔ m.eventName = "n8n.node.finished")) ↔
      (m.eventName = "n8n.node.started" →
        messages.find? (EventMessage.finished node) = none) := by
  obtain ⟨started, hstarted, rfl⟩ := Option.map_eq_some_iff.mp hrecord
  cases hfinished : messages.find? (EventMessage.finished node) with
  | none => simp [taskData, eventName_of_latestMessage h hfinished]
  | some finished =>
    have hof := (ofNode_iff.mp (ofNode_of_latestMessage h).2).2
    simp only [taskData, reduceCtorEq, imp_false]
    grind

theorem time_iff_latestMessage (h : latestMessage messages node = some m)
    (hfinished : m.eventName = "n8n.node.started" →
      messages.find? (EventMessage.finished node) = none)
    {record : ITaskData × ℤ} (hrecord : recordOf messages node = some record) :
    record.2 = m.ts ↔ ∀ first,
      messages.find? (EventMessage.isOf m.eventName node) = some first → first.ts = m.ts := by
  obtain ⟨started, hstarted, rfl⟩ := Option.map_eq_some_iff.mp hrecord
  cases hfirst : messages.find? (EventMessage.finished node) with
  | none =>
    rw [eventName_of_latestMessage h hfirst]
    rw [EventMessage.started] at hstarted
    simp [hstarted]
  | some finished =>
    have heventName : m.eventName = "n8n.node.finished" := by
      rcases (ofNode_iff.mp (ofNode_of_latestMessage h).2).2 with hname | hname
      · rw [hfinished hname] at hfirst
        cases hfirst
      · exact hname
    rw [EventMessage.finished] at hfirst
    simp [heventName, hfirst]

end Latest

/-! ### When the last states are recovered -/

section Amended
variable {inherited : String → Bool} {messages : List EventMessage} {execution : IExecutionResponse}

theorem recordOf_toRelevantMessages (messages : List EventMessage) (node : String) :
    recordOf (toRelevantMessages messages).1 node = recordOf messages node := by
  simp only [recordOf, EventMessage.started, EventMessage.finished,
    find?_toRelevantMessages (by decide : startsWith "n8n.node.started" "n8n.node." = true),
    find?_toRelevantMessages (by decide : startsWith "n8n.node.finished" "n8n.node." = true)]

theorem recordOf_isSome (messages : List EventMessage) (node : String) :
    (recordOf messages node).isSome = (messages.find? (EventMessage.started node)).isSome := by
  rw [recordOf, Option.isSome_map]

theorem recordedNodes_toRelevantMessages (messages : List EventMessage)
    (execution : IExecutionResponse) (inherited : String → Bool) :
    recordedNodes inherited (toRelevantMessages messages).1 (execution.data.getD noRunData)
        execution.nodes =
      firsts (execution.nodes.filter fun node =>
        isLost messages execution node && !inherited node) := by
  rw [recordedNodes]
  congr 2
  funext node
  simp [isRecorded, recordOf_toRelevantMessages, isLost, recordOf_isSome, Bool.and_assoc]

theorem amend_of_unfinished (inherited : String → Bool) (now : ℤ)
    (hnodes : (toRelevantMessages messages).1 ≠ [])
    (hunfinished : ¬ (execution.status ∈ [.success, .error] ∧ execution.data.isSome = true)) :
    ∃ amended data timestamp,
      amend inherited now (some execution) messages = some amended ∧ amended.data = some data ∧
        amended.stoppedAt = toStoppedAt timestamp (toRelevantMessages messages).2 ∧
        Recovered inherited (toRelevantMessages messages).1 (execution.data.getD noRunData)
          execution.nodes (data, timestamp) := by
  have hmessages : messages ≠ [] := by
    rintro rfl
    exact hnodes rfl
  simp only [amend, if_neg hmessages, if_neg hnodes, if_neg hunfinished]
  exact ⟨_, _, _, rfl, rfl, rfl, recovered_foldl execution.nodes⟩

theorem mem_lostNodes {node : String} :
    node ∈ lostNodes messages execution ↔
      node ∈ execution.nodes ∧ isLost messages execution node = true := by
  simp [lostNodes, mem_firsts]

theorem find?_started_of_lost {node : String} (h : node ∈ lostNodes messages execution) :
    (messages.find? (EventMessage.started node)).isSome = true := by
  have := (mem_lostNodes.mp h).2
  simp only [isLost, Bool.and_eq_true] at this
  exact this.1

theorem nodeMessages_ne_nil_of_lost {node : String} (h : node ∈ lostNodes messages execution) :
    (toRelevantMessages messages).1 ≠ [] := by
  intro hnil
  have hstarted := find?_started_of_lost h
  rw [EventMessage.started, ← find?_toRelevantMessages (by decide), hnil] at hstarted
  cases hstarted

theorem latestMessage_of_latestOfLost {m : EventMessage}
    (h : latestOfLost messages execution = some m) :
    ∃ node ∈ lostNodes messages execution, m.nodeName = some node ∧
      latestMessage messages node = some m := by
  have hmem := List.mem_of_getLast? h
  simp only [List.mem_filter, List.any_eq_true] at hmem
  obtain ⟨-, node, hlost, hof⟩ := hmem
  refine ⟨node, hlost, (ofNode_iff.mp hof).1, getLast?_filter_of_imp ?_ h hof⟩
  intro m' hm'
  exact List.any_eq_true.mpr ⟨node, hlost, hm'⟩

/-- Nothing is lost whose name is inherited if all lost nodes are recorded, and then the recorded
nodes are the lost ones. -/
theorem recordedNodes_eq_lostNodes
    (h : ∀ node ∈ lostNodes messages execution, inherited node = false) :
    recordedNodes inherited (toRelevantMessages messages).1 (execution.data.getD noRunData)
      execution.nodes = lostNodes messages execution := by
  rw [recordedNodes_toRelevantMessages, lostNodes]
  congr 1
  refine List.filter_congr fun node hnode => ?_
  cases hlost : isLost messages execution node with
  | false => rfl
  | true => simp [h node (mem_lostNodes.mpr ⟨hnode, hlost⟩)]

section Recovered
variable {data : IRunExecutionData} {timestamp : Option ℤ}
  (hrecovered : Recovered inherited (toRelevantMessages messages).1
    (execution.data.getD noRunData) execution.nodes (data, timestamp))
include hrecovered

theorem runData_of_lost {node : String} (hlost : node ∈ lostNodes messages execution) :
    data.runData.get? node = if inherited node = true then none
      else (recordOf messages node).map fun record => [record.1] := by
  have hdata := hrecovered.runData node
  rw [recordedNodes_toRelevantMessages, recordOf_toRelevantMessages] at hdata
  simp only [mem_firsts, List.mem_filter] at hdata
  obtain ⟨hnode, hislost⟩ := mem_lostNodes.mp hlost
  have hstored : (execution.data.getD noRunData).runData.get? node = none := by
    simp only [isLost, OrderedMap.has, Bool.and_eq_true, Bool.not_eq_true',
      Option.isSome_eq_false_iff, Option.isNone_iff_eq_none] at hislost
    exact hislost.2
  cases hinherited : inherited node with
  | true => simpa [hinherited, hstored] using hdata
  | false => simpa [hinherited, hnode, hislost] using hdata

theorem statuses_iff :
    (∀ node ∈ lostNodes messages execution, ∀ m, latestMessage messages node = some m →
      ∃ task, data.runData.get? node = some [task] ∧
        (task.executionStatus = some .crashed ↔ m.eventName = "n8n.node.started") ∧
        (task.executionStatus = some .success ↔ m.eventName = "n8n.node.finished")) ↔
      (∀ node ∈ lostNodes messages execution, inherited node = false) ∧
        ∀ node ∈ lostNodes messages execution, ∀ m, latestMessage messages node = some m →
          m.eventName = "n8n.node.started" →
            messages.find? (EventMessage.finished node) = none := by
  rw [← forall₂_and]
  refine forall₂_congr fun node hlost => ?_
  obtain ⟨m, hlatest⟩ := latestMessage_isSome (find?_started_of_lost hlost)
  have hsome := find?_started_of_lost hlost
  rw [← recordOf_isSome] at hsome
  obtain ⟨record, hrecord⟩ := Option.isSome_iff_exists.mp hsome
  have hget := runData_of_lost hrecovered hlost
  simp only [hlatest, Option.some.injEq, forall_eq']
  rw [← status_iff_latestMessage hlatest hrecord, hget, hrecord]
  cases inherited node <;> simp

theorem last_iff (hordinary : ∀ node ∈ lostNodes messages execution, inherited node = false)
    (hfinished : ∀ node ∈ lostNodes messages execution, ∀ m, latestMessage messages node = some m →
      m.eventName = "n8n.node.started" → messages.find? (EventMessage.finished node) = none)
    (workflowMessages : List EventMessage) {m : EventMessage}
    (hlatest : latestOfLost messages execution = some m) :
    (toStoppedAt timestamp workflowMessages = some m.ts ∧ data.lastNodeExecuted = m.nodeName) ↔
      (lostNodes messages execution).getLast? = m.nodeName ∧
        ∀ node ∈ m.nodeName, ∀ first,
          messages.find? (EventMessage.isOf m.eventName node) = some first →
            first.ts = m.ts := by
  obtain ⟨node, hlost, hnode, hlatestOf⟩ := latestMessage_of_latestOfLost hlatest
  have hlast := hrecovered.lastNodeExecuted
  have htimestamp := hrecovered.timestamp
  rw [recordedNodes_eq_lostNodes hordinary] at hlast htimestamp
  obtain ⟨final, hfinal⟩ : ∃ final, (lostNodes messages execution).getLast? = some final :=
    ⟨_, List.getLast?_eq_some_getLast (List.ne_nil_of_mem hlost)⟩
  simp only [hfinal, Option.some_or, Option.bind_some, recordOf_toRelevantMessages]
    at hlast htimestamp
  have hsome := find?_started_of_lost hlost
  rw [← recordOf_isSome] at hsome
  obtain ⟨record, hrecord⟩ := Option.isSome_iff_exists.mp hsome
  have htime := time_iff_latestMessage hlatestOf (hfinished node hlost m hlatestOf) hrecord
  simp only [hlast, hfinal, hnode, Option.mem_some_iff, forall_eq', Option.some.injEq]
  rw [← htime, and_comm]
  refine and_congr_right fun heq => ?_
  rw [htimestamp, heq, hrecord]
  simp [toStoppedAt]

end Recovered

/-- The last states are recovered exactly if the nodes ran in the order of the workflow, none began
again after its first end, and no lost node has an inherited name. -/
theorem recoversLastStates_iff (inherited : String → Bool) (now : ℤ) (messages : List EventMessage)
    (execution : IExecutionResponse)
    (hunfinished : ¬ (execution.status ∈ [.success, .error] ∧ execution.data.isSome = true)) :
    RecoversLastStates messages execution (amend inherited now (some execution) messages) ↔
      RunInOrder messages execution inherited := by
  by_cases hnodes : (toRelevantMessages messages).1 = []
  · have hnone : ∀ node, node ∉ lostNodes messages execution := fun node hnode =>
      nodeMessages_ne_nil_of_lost hnode hnodes
    have hnoLatest : ∀ m, latestOfLost messages execution ≠ some m := by
      intro m hm
      obtain ⟨node, hnode, -⟩ := latestMessage_of_latestOfLost hm
      exact hnone node hnode
    constructor
    · intro _
      constructor <;> simp [hnone, hnoLatest]
    · intro _
      constructor <;> simp [hnone, hnoLatest]
  · obtain ⟨amended, data, timestamp, hamended, hdata, hstopped, hrecovered⟩ :=
      amend_of_unfinished inherited now hnodes hunfinished
    have hstatuses := statuses_iff hrecovered
    rw [hamended]
    constructor
    · intro h
      obtain ⟨hordinary, hfinished⟩ := hstatuses.mp (by simpa [hdata] using h.statuses)
      refine ⟨hordinary, hfinished, fun m hm => ?_⟩
      rw [← last_iff hrecovered hordinary hfinished (toRelevantMessages messages).2 hm, ← hstopped]
      simpa [hdata] using h.last m hm
    · intro h
      constructor
      · have := hstatuses.mpr ⟨h.ordinary, h.finished⟩
        simpa [hdata] using this
      · intro m hm
        have := (last_iff hrecovered h.ordinary h.finished (toRelevantMessages messages).2 hm).mpr
          (h.last m hm)
        rw [← hstopped] at this
        simpa [hdata] using this

end Amended

/-! ### A node that ran twice -/

def runningWith (nodes : List String) : IExecutionResponse := ⟨.running, none, nodes, none⟩

def message (ts : ℤ) (node event : String) : EventMessage :=
  ⟨"n8n.node." ++ event, ts, some node⟩

/-- The node finished its first run and was in the second when the process died. -/
def secondRun : List EventMessage :=
  [message 1000 "Loop" "started", message 2000 "Loop" "finished", message 3000 "Loop" "started"]

theorem secondRun_not_recovered :
    ¬ RecoversLastStates secondRun (runningWith ["Loop"])
      (amend (fun _ => false) 5000 (some (runningWith ["Loop"])) secondRun) := by
  intro h
  obtain ⟨a, ha, data, hdata, task, hget, hcrashed, -⟩ :=
    h.statuses "Loop" (by decide +kernel) (message 3000 "Loop" "started") (by decide +kernel)
  have hrecorded : ((amend (fun _ => false) 5000 (some (runningWith ["Loop"])) secondRun).bind
      fun a => a.data.bind fun data => data.runData.get? "Loop") =
      some [taskData "Loop" (message 1000 "Loop" "started")
        (some (message 2000 "Loop" "finished"))] := by
    decide +kernel
  rw [Option.mem_def.mp ha, Option.bind_some, Option.mem_def.mp hdata, Option.bind_some, hget]
    at hrecorded
  obtain rfl : task = _ := by simpa using hrecorded
  exact absurd (hcrashed.mpr rfl) (by decide)

def linearRun : List EventMessage :=
  [message 1000 "Trigger" "started", message 2000 "Trigger" "finished",
    message 2000 "Fetch" "started"]

theorem linearRun_recovered :
    RecoversLastStates linearRun (runningWith ["Trigger", "Fetch"])
      (amend (fun _ => false) 5000 (some (runningWith ["Trigger", "Fetch"])) linearRun) := by
  refine (recoversLastStates_iff _ _ _ _ (by decide)).mpr ⟨fun _ _ => rfl, ?_, ?_⟩
  · have hlost : lostNodes linearRun (runningWith ["Trigger", "Fetch"]) = ["Trigger", "Fetch"] := by
      decide +kernel
    have hlatest : latestMessage linearRun "Trigger" = some (message 2000 "Trigger" "finished") := by
      decide +kernel
    rw [hlost]
    intro node hnode m hm hstarted
    rcases List.mem_pair.mp hnode with rfl | rfl
    · rw [hlatest] at hm
      cases hm
      exact absurd hstarted (by decide)
    · decide +kernel
  · have hlatest : latestOfLost linearRun (runningWith ["Trigger", "Fetch"]) =
        some (message 2000 "Fetch" "started") := by
      decide +kernel
    intro m hm
    rw [hlatest] at hm
    cases hm
    refine ⟨by decide +kernel, fun node hnode first hfirst => ?_⟩
    cases hnode
    have hfound : linearRun.find? (EventMessage.isOf "n8n.node.started" "Fetch") =
        some (message 2000 "Fetch" "started") := by
      decide +kernel
    rw [show (message 2000 "Fetch" "started").eventName = "n8n.node.started" from rfl, hfound]
      at hfirst
    cases hfirst
    rfl

end N8n.ExecutionRecovery
