import Mathlib.Logic.Function.Basic
import Mathlib.Data.List.Basic
import N8n.Foundations.Runs

/-!
# Workflows that are active in memory

A workflow is made active by starting its triggers one by one and then polling its poll
nodes, each of which leaves its cron jobs with the scheduled task manager. What its
triggers answered is put down when the last of them has started. Triggers are numbered in
the order in which they were opened, and each of their answers has a `closeFunction`. What
the nodes and the `closeFunction`s do is part of a call.
-/

namespace N8n.Activation
open N8n.Runs

/-- How the start of a trigger ends: with an answer, with `undefined`, or with an error. -/
inductive TriggerStart where
  | opened
  | nothing
  | failed (message : String)
  deriving DecidableEq, Repr

structure TriggerNode where
  name : String
  start : TriggerStart
  deriving DecidableEq, Repr

/-- A cron expression, and the error of `CronJob` when it takes no such expression. -/
structure CronTime where
  expression : List Char
  rejected : Option String
  deriving DecidableEq, Repr

/-- A poll node: the error of its first poll, and its poll times as cron expressions. -/
structure PollNode where
  name : String
  pollError : Option String
  cronTimes : List CronTime
  deriving DecidableEq, Repr

inductive TriggerClose where
  | closed
  | triggerCloseError
  | failed (message : String)
  deriving DecidableEq, Repr

structure WorkflowActivationError where
  message : String
  node : String
  deriving DecidableEq, Repr

structure WorkflowDeactivationError where
  message : String
  workflowId : String
  deriving DecidableEq, Repr

/-- The first part of the expression has a `*`. -/
def CronTime.tooShort (cronTime : CronTime) : Bool :=
  (cronTime.expression.takeWhile (· ≠ ' ')).contains '*'

structure ActiveWorkflows where
  /-- The `triggerResponses` of the workflows that are active. -/
  activeWorkflows : String → Option (List ℕ)
  /-- The cron jobs that are running. -/
  cronJobs : String → List (List Char)
  /-- The triggers that were ever opened for a workflow. -/
  opened : String → List ℕ
  /-- The triggers whose `closeFunction` was called. -/
  closed : List ℕ
  triggers : ℕ

namespace ActiveWorkflows
variable (workflowId : String) (s : ActiveWorkflows)

def initial : ActiveWorkflows := ⟨fun _ => none, fun _ => [], fun _ => [], [], 0⟩

def isActive : Bool := (s.activeWorkflows workflowId).isSome

def activationError (message node : String) : WorkflowActivationError :=
  ⟨"There was a problem activating the workflow: \"" ++ message ++ "\"", node⟩

def openTrigger : ActiveWorkflows :=
  { s with
    opened := Function.update s.opened workflowId (s.opened workflowId ++ [s.triggers])
    triggers := s.triggers + 1 }

/-- The first loop of `add`. -/
def startTriggers (s : ActiveWorkflows) (triggerResponses : List ℕ) :
    List TriggerNode → ActiveWorkflows × Except WorkflowActivationError (List ℕ)
  | [] => (s, .ok triggerResponses)
  | node :: nodes =>
    match node.start with
    | .failed message => (s, .error (activationError message node.name))
    | .nothing => startTriggers s triggerResponses nodes
    | .opened => startTriggers (s.openTrigger workflowId) (triggerResponses ++ [s.triggers]) nodes

def registerCron (cronTime : CronTime) : ActiveWorkflows :=
  { s with
    cronJobs := Function.update s.cronJobs workflowId
      (s.cronJobs workflowId ++ [cronTime.expression]) }

/-- The loop at the end of `activatePolling`, with the error it ends with. -/
def registerCrons (s : ActiveWorkflows) : List CronTime → ActiveWorkflows × Option String
  | [] => (s, none)
  | cronTime :: cronTimes =>
    if cronTime.tooShort then
      (s, some "The polling interval is too short. It has to be at least a minute.")
    else match cronTime.rejected with
      | some message => (s, some message)
      | none => registerCrons (s.registerCron workflowId cronTime) cronTimes

def activatePolling (node : PollNode) : ActiveWorkflows × Option String :=
  match node.pollError with
  | some message => (s, some message)
  | none => registerCrons workflowId s node.cronTimes

/-- The second loop of `add`. -/
def activatePollings (triggerResponses : List ℕ) (s : ActiveWorkflows) :
    List PollNode → ActiveWorkflows × Except WorkflowActivationError Unit
  | [] => (s, .ok ())
  | node :: nodes =>
    match s.activatePolling workflowId node with
    | (s, none) => activatePollings triggerResponses s nodes
    | (s, some message) =>
      -- Do not mark this workflow as active if there are no triggerResponses
      (if triggerResponses.length = 0 then
          { s with activeWorkflows := Function.update s.activeWorkflows workflowId none }
        else s,
        .error (activationError message node.name))

def add (triggerNodes : List TriggerNode) (pollingNodes : List PollNode) :
    ActiveWorkflows × Except WorkflowActivationError Unit :=
  match startTriggers workflowId s [] triggerNodes with
  | (s, .error error) => (s, .error error)
  | (s, .ok triggerResponses) =>
    activatePollings workflowId triggerResponses
      { s with
        activeWorkflows := Function.update s.activeWorkflows workflowId (some triggerResponses) }
      pollingNodes

def deregisterCrons : ActiveWorkflows :=
  { s with cronJobs := Function.update s.cronJobs workflowId [] }

def deactivationError (message : String) : WorkflowDeactivationError :=
  ⟨"Failed to deactivate trigger of workflow ID \"" ++ workflowId ++ "\": \"" ++ message ++ "\"",
    workflowId⟩

/-- The loop of `remove`: a `TriggerCloseError` is only logged. -/
def closeTriggers (close : ℕ → TriggerClose) (s : ActiveWorkflows) :
    List ℕ → ActiveWorkflows × Option WorkflowDeactivationError
  | [] => (s, none)
  | trigger :: triggers =>
    let s := { s with closed := s.closed ++ [trigger] }
    match close trigger with
    | .closed | .triggerCloseError => closeTriggers close s triggers
    | .failed message => (s, some (deactivationError workflowId message))

def remove (close : ℕ → TriggerClose) :
    ActiveWorkflows × Except WorkflowDeactivationError Bool :=
  match s.activeWorkflows workflowId with
  | none => (s, .ok false)
  | some triggerResponses =>
    match closeTriggers workflowId close (s.deregisterCrons workflowId) triggerResponses with
    | (s, some error) => (s, .error error)
    | (s, none) =>
      ({ s with activeWorkflows := Function.update s.activeWorkflows workflowId none }, .ok true)

/-- A call that is over before the next one. -/
inductive Event where
  | add (workflowId : String) (triggerNodes : List TriggerNode) (pollingNodes : List PollNode)
  | remove (workflowId : String) (close : ℕ → TriggerClose)

def next : Event → ActiveWorkflows
  | .add workflowId triggerNodes pollingNodes => (s.add workflowId triggerNodes pollingNodes).1
  | .remove workflowId close => (s.remove workflowId close).1

def Step (s : ActiveWorkflows) (e : Event) (s' : ActiveWorkflows) : Prop := s' = s.next e

theorem run_next (es : List Event) : Run Step s (trace next s es) := by
  have hstep : ∀ s e, Step s e (next s e) := fun _ _ => rfl
  exact run_trace_of_total hstep s es

/-! ### What is left running -/

/-- Every trigger that was opened for the workflow has had its `closeFunction` called, and no
cron job is running. -/
def NothingRunning (workflowId : String) : Prop :=
  (∀ trigger ∈ s.opened workflowId, trigger ∈ s.closed) ∧ s.cronJobs workflowId = []

/-- An inactive workflow has nothing left running. -/
def InactiveAtRest : Prop :=
  ∀ workflowId, s.isActive workflowId = false → s.NothingRunning workflowId

/-- Nothing is left running by a `remove` that resolved with `true`. -/
def RemovedAtRest (s : ActiveWorkflows) (e : Event) (s' : ActiveWorkflows) : Prop :=
  ∀ workflowId close, e = .remove workflowId close →
    (s.remove workflowId close).2 = .ok true → s'.NothingRunning workflowId

/-! ### What a call opens and registers -/

def starts (node : TriggerNode) : Bool :=
  match node.start with
  | .failed _ => false
  | _ => true

/-- How many triggers are opened before one fails. -/
def openedBy (nodes : List TriggerNode) : ℕ := (nodes.takeWhile starts).countP (·.start = .opened)

def accepted (cronTime : CronTime) : Bool := !cronTime.tooShort && cronTime.rejected.isNone

def succeeds (node : PollNode) : Bool := node.pollError.isNone && node.cronTimes.all accepted

/-- The cron times of a node that are registered before one fails. -/
def registers (node : PollNode) : List (List Char) :=
  if node.pollError.isNone then (node.cronTimes.takeWhile accepted).map (·.expression) else []

/-- What the poll nodes register before one fails. -/
def registered : List PollNode → List (List Char)
  | [] => []
  | node :: nodes => registers node ++ if succeeds node then registered nodes else []

def withOpened (count : ℕ) : ActiveWorkflows :=
  { s with
    opened := Function.update s.opened workflowId
      (s.opened workflowId ++ List.range' s.triggers count)
    triggers := s.triggers + count }

def withCrons (cronTimes : List (List Char)) : ActiveWorkflows :=
  { s with
    cronJobs := Function.update s.cronJobs workflowId (s.cronJobs workflowId ++ cronTimes) }

def withRecord (triggerResponses : Option (List ℕ)) : ActiveWorkflows :=
  { s with activeWorkflows := Function.update s.activeWorkflows workflowId triggerResponses }

/-- What the second loop of `add` leaves of the record when a poll node fails. -/
def kept (triggerResponses : List ℕ) : ActiveWorkflows :=
  if triggerResponses.length = 0 then s.withRecord workflowId none else s

section Calls
variable {workflowId s}

theorem withOpened_openTrigger (count : ℕ) :
    (s.openTrigger workflowId).withOpened workflowId count =
      s.withOpened workflowId (count + 1) := by
  simp only [openTrigger, withOpened, Function.update_self, Function.update_idem, List.range'_succ,
    List.append_assoc, List.singleton_append, Nat.add_assoc, Nat.add_comm 1]

theorem withOpened_zero : s.withOpened workflowId 0 = s := by
  simp [withOpened]

theorem startTriggers_state (workflowId : String) (s : ActiveWorkflows) (nodes : List TriggerNode)
    (triggerResponses : List ℕ) :
    (startTriggers workflowId s triggerResponses nodes).1 =
      s.withOpened workflowId (openedBy nodes) := by
  induction nodes generalizing s triggerResponses with
  | nil => exact withOpened_zero.symm
  | cons node nodes ih =>
    cases hstart : node.start with
    | failed message => simp [startTriggers, openedBy, starts, hstart, withOpened_zero]
    | nothing =>
      rw [startTriggers, hstart]
      refine (ih _ triggerResponses).trans ?_
      simp [openedBy, starts, hstart]
    | opened =>
      rw [startTriggers, hstart]
      refine (ih _ _).trans ?_
      rw [withOpened_openTrigger]
      simp [openedBy, starts, hstart]

theorem startTriggers_result (workflowId : String) (s : ActiveWorkflows) (nodes : List TriggerNode)
    (triggerResponses : List ℕ) :
    (nodes.all starts = true ∧ (startTriggers workflowId s triggerResponses nodes).2 =
      .ok (triggerResponses ++ List.range' s.triggers (openedBy nodes))) ∨
    (nodes.all starts = false ∧
      ∃ error, (startTriggers workflowId s triggerResponses nodes).2 = .error error) := by
  induction nodes generalizing s triggerResponses with
  | nil => exact Or.inl ⟨rfl, congrArg Except.ok (List.append_nil _).symm⟩
  | cons node nodes ih =>
    cases hstart : node.start with
    | failed message =>
      refine Or.inr ⟨?_, activationError message node.name, ?_⟩
      · simp [starts, hstart]
      · rw [startTriggers, hstart]
    | nothing =>
      have h := ih s triggerResponses
      simp only [startTriggers, hstart]
      simpa [openedBy, starts, hstart] using h
    | opened =>
      have h := ih (s.openTrigger workflowId) (triggerResponses ++ [s.triggers])
      simp only [startTriggers, hstart]
      simpa [openedBy, starts, hstart, openTrigger, List.range'_succ] using h

theorem withCrons_nil : s.withCrons workflowId [] = s := by
  simp [withCrons]

theorem withCrons_withCrons (cronTimes cronTimes' : List (List Char)) :
    (s.withCrons workflowId cronTimes).withCrons workflowId cronTimes' =
      s.withCrons workflowId (cronTimes ++ cronTimes') := by
  simp only [withCrons, Function.update_self, Function.update_idem, List.append_assoc]

theorem registerCrons_eq (cronTimes : List CronTime) :
    (registerCrons workflowId s cronTimes).1 =
        s.withCrons workflowId ((cronTimes.takeWhile accepted).map (·.expression)) ∧
      (registerCrons workflowId s cronTimes).2.isNone = cronTimes.all accepted := by
  induction cronTimes generalizing s with
  | nil => exact ⟨withCrons_nil.symm, rfl⟩
  | cons cronTime cronTimes ih =>
    rw [registerCrons]
    split_ifs with hshort
    · simp [accepted, hshort, withCrons_nil]
    · split
      · rename_i message hrejected
        simp [accepted, hrejected, withCrons_nil]
      · rename_i hrejected
        have haccepted : accepted cronTime = true := by simp [accepted, hshort, hrejected]
        obtain ⟨hstate, hresult⟩ := ih (s := s.registerCron workflowId cronTime)
        rw [hstate, hresult, List.takeWhile_cons_of_pos haccepted, List.all_cons, haccepted,
          List.map_cons, Bool.true_and]
        exact ⟨withCrons_withCrons [cronTime.expression] _, rfl⟩

theorem activatePolling_eq (workflowId : String) (s : ActiveWorkflows) (node : PollNode) :
    (s.activatePolling workflowId node).1 = s.withCrons workflowId (registers node) ∧
      (s.activatePolling workflowId node).2.isNone = succeeds node := by
  rw [activatePolling, registers, succeeds]
  cases node.pollError with
  | some message => exact ⟨withCrons_nil.symm, rfl⟩
  | none => exact registerCrons_eq node.cronTimes

theorem activatePollings_state (triggerResponses : List ℕ) (nodes : List PollNode) :
    (activatePollings workflowId triggerResponses s nodes).1 =
      if nodes.all succeeds then s.withCrons workflowId (registered nodes)
      else kept workflowId (s.withCrons workflowId (registered nodes)) triggerResponses := by
  induction nodes generalizing s with
  | nil => exact withCrons_nil.symm
  | cons node nodes ih =>
    obtain ⟨hstate, hresult⟩ := activatePolling_eq workflowId s node
    rw [activatePollings]
    generalize s.activatePolling workflowId node = activated at hstate hresult ⊢
    obtain ⟨s', error⟩ := activated
    obtain rfl : s' = s.withCrons workflowId (registers node) := hstate
    cases error with
    | none =>
      have hsucceeds : succeeds node = true := hresult.symm
      simp only [List.all_cons, registered, hsucceeds, Bool.true_and, if_true]
      rw [ih, withCrons_withCrons]
    | some message =>
      have hfails : succeeds node = false := hresult.symm
      simp only [List.all_cons, registered, hfails, Bool.false_and, Bool.false_eq_true, if_false,
        List.append_nil]
      rfl

theorem closeTriggers_eq (workflowId : String) (s : ActiveWorkflows) (close : ℕ → TriggerClose)
    (triggers : List ℕ) :
    ∃ closed, (closeTriggers workflowId close s triggers).1 = { s with closed := s.closed ++ closed } ∧
      ((closeTriggers workflowId close s triggers).2 = none → closed = triggers) := by
  induction triggers generalizing s with
  | nil => exact ⟨[], by simp [closeTriggers], fun _ => rfl⟩
  | cons trigger triggers ih =>
    obtain ⟨closed, hstate, hclosed⟩ := ih { s with closed := s.closed ++ [trigger] }
    have hgoes : ∃ closed, (closeTriggers workflowId close
          { s with closed := s.closed ++ [trigger] } triggers).1 =
          { s with closed := s.closed ++ closed } ∧
        ((closeTriggers workflowId close
          { s with closed := s.closed ++ [trigger] } triggers).2 = none →
            closed = trigger :: triggers) := by
      refine ⟨trigger :: closed, ?_, fun hnone => congrArg _ (hclosed hnone)⟩
      rw [hstate, List.append_assoc, List.singleton_append]
    rw [closeTriggers]
    cases close trigger with
    | closed => exact hgoes
    | triggerCloseError => exact hgoes
    | failed message => exact ⟨[trigger], rfl, nofun⟩

end Calls

/-! ### Nothing goes unrecorded -/

/-- Triggers that are open are on the record of their workflow, and a workflow without a
record has no cron jobs. -/
structure Recorded : Prop where
  opened : ∀ workflowId, ∀ trigger ∈ s.opened workflowId, trigger ∉ s.closed →
    ∃ triggerResponses, s.activeWorkflows workflowId = some triggerResponses ∧
      trigger ∈ triggerResponses
  crons : ∀ workflowId, s.activeWorkflows workflowId = none → s.cronJobs workflowId = []

/-- A call of `add` opens no trigger before one fails; when all start, the triggers that are on
the record have been closed; and when no trigger is opened and a poll node fails, no cron job
of the workflow is running and none is registered before. -/
def AddsCleanly : Event → Prop
  | .remove _ _ => True
  | .add workflowId triggerNodes pollingNodes =>
    if triggerNodes.all starts then
      (∀ triggerResponses, s.activeWorkflows workflowId = some triggerResponses →
        ∀ trigger ∈ triggerResponses, trigger ∈ s.closed) ∧
      (openedBy triggerNodes = 0 → pollingNodes.all succeeds = false →
        s.cronJobs workflowId = [] ∧ registered pollingNodes = [])
    else openedBy triggerNodes = 0

section Recorded
variable {s} {s' : ActiveWorkflows} {e : Event} {workflowId}

theorem Recorded.inactiveAtRest (h : s.Recorded) : s.InactiveAtRest := by
  intro workflowId hinactive
  have hnone : s.activeWorkflows workflowId = none := Option.isNone_iff_eq_none.mp (by
    rw [← Option.not_isSome]; simpa [isActive] using hinactive)
  refine ⟨?_, h.crons workflowId hnone⟩
  intro trigger hopened
  by_contra hclosed
  obtain ⟨triggerResponses, hsome, _⟩ := h.opened workflowId trigger hopened hclosed
  rw [hnone] at hsome
  cases hsome

/-- A record that holds all that a call has opened, in place of one whose triggers are closed. -/
theorem Recorded.withRecord (h : s.Recorded) (count : ℕ)
    (hclosed : ∀ triggerResponses, s.activeWorkflows workflowId = some triggerResponses →
      ∀ trigger ∈ triggerResponses, trigger ∈ s.closed) :
    ((s.withOpened workflowId count).withRecord workflowId
      (some (List.range' s.triggers count))).Recorded := by
  refine ⟨?_, ?_⟩
  · intro workflowId' trigger hopened hopen
    simp only [ActiveWorkflows.withRecord, withOpened] at hopened hopen ⊢
    by_cases hid : workflowId' = workflowId
    · subst hid
      rw [Function.update_self] at hopened ⊢
      refine ⟨_, rfl, ?_⟩
      rcases List.mem_append.mp hopened with hopened | hnew
      · obtain ⟨triggerResponses, hsome, hmem⟩ := h.opened workflowId' trigger hopened hopen
        exact absurd (hclosed triggerResponses hsome trigger hmem) hopen
      · exact hnew
    · rw [Function.update_of_ne hid] at hopened ⊢
      exact h.opened workflowId' trigger hopened hopen
  · intro workflowId' hnone
    simp only [ActiveWorkflows.withRecord, withOpened] at hnone ⊢
    by_cases hid : workflowId' = workflowId
    · subst hid
      rw [Function.update_self] at hnone
      cases hnone
    · rw [Function.update_of_ne hid] at hnone
      exact h.crons workflowId' hnone

theorem Recorded.withCrons (h : s.Recorded) {triggerResponses : List ℕ}
    (hactive : s.activeWorkflows workflowId = some triggerResponses)
    (cronTimes : List (List Char)) : (s.withCrons workflowId cronTimes).Recorded := by
  refine ⟨h.opened, ?_⟩
  intro workflowId' hnone
  have hid : workflowId' ≠ workflowId := by
    rintro rfl
    rw [show s.activeWorkflows workflowId' = none from hnone] at hactive
    cases hactive
  simp only [ActiveWorkflows.withCrons]
  rw [Function.update_of_ne hid]
  exact h.crons workflowId' hnone

/-- A workflow that has nothing on its record and no cron job is made inactive. -/
theorem Recorded.withoutRecord (h : s.Recorded)
    (hclosed : ∀ triggerResponses, s.activeWorkflows workflowId = some triggerResponses →
      ∀ trigger ∈ triggerResponses, trigger ∈ s.closed)
    (hcrons : s.cronJobs workflowId = []) : (s.withRecord workflowId none).Recorded := by
  refine ⟨?_, ?_⟩
  · intro workflowId' trigger hopened hopen
    obtain ⟨triggerResponses, hsome, hmem⟩ := h.opened workflowId' trigger hopened hopen
    have hid : workflowId' ≠ workflowId := by
      rintro rfl
      exact hopen (hclosed triggerResponses hsome trigger hmem)
    refine ⟨triggerResponses, ?_, hmem⟩
    simp only [ActiveWorkflows.withRecord]
    rw [Function.update_of_ne hid]
    exact hsome
  · intro workflowId' hnone
    by_cases hid : workflowId' = workflowId
    · rw [hid]
      exact hcrons
    · simp only [ActiveWorkflows.withRecord] at hnone
      rw [Function.update_of_ne hid] at hnone
      exact h.crons workflowId' hnone

theorem Recorded.add (h : s.Recorded) {triggerNodes : List TriggerNode}
    {pollingNodes : List PollNode}
    (hclean : s.AddsCleanly (.add workflowId triggerNodes pollingNodes)) :
    (s.add workflowId triggerNodes pollingNodes).1.Recorded := by
  have hstate := startTriggers_state workflowId s triggerNodes []
  have hresult := startTriggers_result workflowId s triggerNodes []
  rw [ActiveWorkflows.add]
  generalize startTriggers workflowId s [] triggerNodes = started at hstate hresult ⊢
  obtain ⟨s', result⟩ := started
  obtain rfl : s' = s.withOpened workflowId (openedBy triggerNodes) := hstate
  rw [AddsCleanly] at hclean
  rcases hresult with ⟨hall, hok⟩ | ⟨hall, error, herror⟩
  · obtain rfl : result = .ok (List.range' s.triggers (openedBy triggerNodes)) := hok
    rw [if_pos hall] at hclean
    obtain ⟨hclosed, hpolls⟩ := hclean
    have hrecorded := h.withRecord (openedBy triggerNodes) hclosed
    have hactive := Function.update_self workflowId
      (some (List.range' s.triggers (openedBy triggerNodes))) s.activeWorkflows
    have hcrons := hrecorded.withCrons hactive (registered pollingNodes)
    dsimp only
    rw [activatePollings_state]
    split_ifs with hsucceed
    · exact hcrons
    · rw [kept, List.length_range']
      split_ifs with hzero
      · obtain ⟨hnone, hregistered⟩ := hpolls hzero (Bool.eq_false_iff.mpr hsucceed)
        refine hcrons.withoutRecord ?_ ?_
        · intro triggerResponses hsome trigger hmem
          obtain rfl := Option.some.inj (hactive.symm.trans hsome)
          rw [hzero] at hmem
          cases hmem
        · simp only [ActiveWorkflows.withCrons, ActiveWorkflows.withRecord, withOpened]
          rw [Function.update_self, hnone, hregistered]
          rfl
      · exact hcrons
  · obtain rfl : result = .error error := herror
    rw [if_neg (Bool.eq_false_iff.mp hall)] at hclean
    rw [hclean, withOpened_zero]
    exact h

/-- A workflow has nothing left running when its record was closed to the end. -/
theorem Recorded.remove (h : s.Recorded) (workflowId : String) (close : ℕ → TriggerClose) :
    (s.remove workflowId close).1.Recorded := by
  rw [ActiveWorkflows.remove]
  cases hactive : s.activeWorkflows workflowId with
  | none => exact h
  | some triggerResponses =>
    have hderegistered : (s.deregisterCrons workflowId).Recorded := by
      refine ⟨h.opened, ?_⟩
      intro workflowId' hnone
      simp only [deregisterCrons]
      by_cases hid : workflowId' = workflowId
      · rw [hid, Function.update_self]
      · rw [Function.update_of_ne hid]
        exact h.crons workflowId' hnone
    obtain ⟨closed, hstate, hclosed⟩ := closeTriggers_eq workflowId (s.deregisterCrons workflowId) close
      triggerResponses
    have hrecorded : { s.deregisterCrons workflowId with
        closed := (s.deregisterCrons workflowId).closed ++ closed : ActiveWorkflows }.Recorded := by
      refine ⟨?_, hderegistered.crons⟩
      intro workflowId' trigger hopened hopen
      exact h.opened workflowId' trigger hopened fun hmem => hopen (List.mem_append_left _ hmem)
    dsimp only
    generalize closeTriggers workflowId close (s.deregisterCrons workflowId) triggerResponses =
      result at hstate hclosed ⊢
    obtain ⟨s', error⟩ := result
    obtain rfl := hstate
    cases error with
    | some error => exact hrecorded
    | none =>
      have hcrons : (s.deregisterCrons workflowId).cronJobs workflowId = [] := by
        simp only [deregisterCrons, Function.update_self]
      refine hrecorded.withoutRecord ?_ hcrons
      intro triggerResponses' hsome trigger hmem
      obtain rfl := Option.some.inj (hactive.symm.trans hsome)
      exact List.mem_append_right _ (hclosed rfl ▸ hmem)

theorem Recorded.step (h : s.Recorded) (hclean : s.AddsCleanly e) (hs : Step s e s') :
    s'.Recorded := by
  obtain rfl := hs
  cases e with
  | add workflowId triggerNodes pollingNodes => exact h.add hclean
  | remove workflowId close => exact h.remove workflowId close

/-- A `remove` that resolves with `true` leaves its workflow inactive. -/
theorem remove_inactive {close : ℕ → TriggerClose}
    (htrue : (s.remove workflowId close).2 = .ok true) :
    (s.remove workflowId close).1.isActive workflowId = false := by
  rw [ActiveWorkflows.remove] at htrue ⊢
  cases hactive : s.activeWorkflows workflowId with
  | none =>
    rw [hactive] at htrue
    cases htrue
  | some triggerResponses =>
    rw [hactive] at htrue
    dsimp only at htrue ⊢
    split at htrue
    · cases htrue
    · simp [isActive]

theorem Recorded.removedAtRest (h : s'.Recorded) (hs : Step s e s') : RemovedAtRest s e s' := by
  obtain rfl := hs
  rintro workflowId close rfl htrue
  exact h.inactiveAtRest workflowId (remove_inactive htrue)

theorem atRest_of_addsCleanly {tr : List (Event × ActiveWorkflows)} (hr : Run Step initial tr)
    (hclean : EveryStep AddsCleanly initial tr) :
    Always InactiveAtRest initial tr ∧ EveryTransition RemovedAtRest initial tr := by
  have hinitial : initial.Recorded := ⟨nofun, fun _ _ => rfl⟩
  refine ⟨?_, ?_⟩
  · exact (hr.always hinitial (fun _ _ _ h hc hs => h.step hc hs) hclean).mono
      fun _ h => h.inactiveAtRest
  · refine hr.everyTransition hinitial (fun s e s' h hc hs => ?_) hclean
    exact ⟨h.step hc hs, (h.step hc hs).removedAtRest hs⟩

end Recorded

section Example

/-- The first trigger starts and the second does not. -/
def secondTriggerFails : List Event :=
  [.add "1" [⟨"A", .opened⟩, ⟨"B", .failed "no"⟩] []]

theorem secondTriggerFails_not_atRest :
    Run Step initial (trace next initial secondTriggerFails) ∧
    ¬ (Always InactiveAtRest initial (trace next initial secondTriggerFails) ∧
      EveryTransition RemovedAtRest initial (trace next initial secondTriggerFails)) := by
  refine ⟨run_next _ _, ?_⟩
  rintro ⟨h, -⟩
  have hclosed := (h.final "1" rfl).1 0 (by decide)
  revert hclosed
  decide

/-- Triggers and a poll node, a trigger that cannot be closed at first, and a second start. -/
def restarted : List Event :=
  [.add "1" [⟨"A", .opened⟩, ⟨"B", .opened⟩] [⟨"P", none, [⟨"0 5 * * * *".toList, none⟩]⟩],
    .remove "1" fun _ => .failed "busy", .remove "1" fun _ => .triggerCloseError,
    .add "1" [⟨"A", .nothing⟩] [⟨"P", some "no", []⟩]]

theorem restarted_atRest :
    Always InactiveAtRest initial (trace next initial restarted) ∧
    EveryTransition RemovedAtRest initial (trace next initial restarted) := by
  refine atRest_of_addsCleanly (run_next _ _) ⟨?_, trivial, trivial, ?_, trivial⟩
  · exact ⟨nofun, nofun⟩
  · exact ⟨nofun, fun _ _ => ⟨rfl, rfl⟩⟩

end Example

end ActiveWorkflows
end N8n.Activation
