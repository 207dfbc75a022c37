import N8n.Concurrency.ConcurrencyControl
import N8n.Foundations.OrderedMap

/-!
# Active executions and their shutdown

The executions of a process in regular mode. Every call of `add` makes an object of its
own once `throttle` lets it go on; `activeExecutions` leads from ids to the numbers of
the objects. When the post-execution promise of an object has settled, its handlers give
back the slot and take it out of the map. The ids are gone through in the order in which
they came in, which makes no difference to what is decided for each.
-/

namespace N8n.Concurrency
open N8n.Runs

inductive ExecutionStatus where
  | canceled
  | crashed
  | error
  | new
  | running
  | success
  | unknown
  | waiting
  deriving DecidableEq, Repr

structure ExecutingWorkflow where
  executionId : String
  executionMode : WorkflowExecuteMode
  status : ExecutionStatus
  responsePromise : Bool
  settled : Bool
  handled : Bool
  deriving DecidableEq, Repr

/-- A call of `add` that has called `throttle` and not gone on yet. -/
structure Adding where
  executionId : String
  executionMode : WorkflowExecuteMode
  promise : ℕ
  deriving DecidableEq, Repr

structure ActiveExecutions where
  concurrencyControl : ConcurrencyControlService
  executions : List ExecutingWorkflow
  activeExecutions : OrderedMap String ℕ
  adding : List Adding
  promises : ℕ
  resolved : List ℕ
  released : List String
  cancelMany : List (List String)

namespace ActiveExecutions
variable (s : ActiveExecutions)

/-- The object that an id leads to. -/
def execution (executionId : String) : Option ExecutingWorkflow :=
  (s.activeExecutions.get? executionId).bind (s.executions[·]?)

def absorb (o : ControlOutcome) : ActiveExecutions :=
  { s with
    concurrencyControl := o.service
    resolved := s.resolved ++ o.resolved
    released := s.released ++ o.released }

/-- A change to the object that an id leads to. -/
def modify (executionId : String) (f : ExecutingWorkflow → ExecutingWorkflow) : ActiveExecutions :=
  match s.activeExecutions.get? executionId with
  | none => s
  | some index => { s with executions := s.executions.modify index f }

def stopExecution (executionId : String) : ActiveExecutions :=
  match s.execution executionId with
  | none => s
  | some execution =>
    if execution.status = .waiting then
      { s with activeExecutions := s.activeExecutions.delete executionId }
    else s.modify executionId ({ · with settled := true })

def finalizeExecution (executionId : String) : ActiveExecutions :=
  s.modify executionId ({ · with settled := true })

def setStatus (executionId : String) (status : ExecutionStatus) : ActiveExecutions :=
  s.modify executionId ({ · with status })

def attachResponsePromise (executionId : String) : ActiveExecutions :=
  s.modify executionId ({ · with responsePromise := true })

/-- `add` up to the call of `throttle`. -/
def add (executionId : String) (mode : WorkflowExecuteMode) : ActiveExecutions :=
  { s.absorb (s.concurrencyControl.throttle mode executionId s.promises) with
    adding := s.adding ++ [⟨executionId, mode, s.promises⟩]
    promises := s.promises + 1 }

/-- The rest of `add`. -/
def register (call : Adding) : ActiveExecutions :=
  let execution : ExecutingWorkflow :=
    { executionId := call.executionId
      executionMode := call.executionMode
      status := .running
      responsePromise := (s.execution call.executionId).any (·.responsePromise)
      settled := false
      handled := false }
  { s with
    executions := s.executions ++ [execution]
    activeExecutions := s.activeExecutions.set call.executionId s.executions.length
    adding := s.adding.erase call }

/-- `add` is rejected after `throttle`. -/
def reject (call : Adding) : ActiveExecutions := { s with adding := s.adding.erase call }

/-- The handlers of the post-execution promise of an object. -/
def handlers (index : ℕ) (execution : ExecutingWorkflow) : ActiveExecutions :=
  let s := { s.absorb (s.concurrencyControl.release execution.executionMode) with
    executions := s.executions.modify index ({ · with handled := true }) }
  if execution.status = .waiting then s
  else { s with activeExecutions := s.activeExecutions.delete execution.executionId }

def cancels (cancelAll : Bool) (execution : ExecutingWorkflow) : Bool :=
  execution.responsePromise || cancelAll

/-- One round of the loop of `shutdown`; the second part is `toCancel`. -/
def shutdownOne (cancelAll : Bool) (acc : ActiveExecutions × List String) (executionId : String) :
    ActiveExecutions × List String :=
  match acc.1.execution executionId with
  | none => acc
  | some execution =>
    if cancels cancelAll execution then (acc.1.stopExecution executionId, acc.2 ++ [executionId])
    else if execution.status = .waiting ∨ execution.status = .new then
      ({ acc.1 with activeExecutions := acc.1.activeExecutions.delete executionId }, acc.2)
    else acc

/-- What `shutdown` does before it waits, and the ids it has decided to cancel. -/
def shutdown (cancelAll : Bool) : ActiveExecutions × List String :=
  let disabled := { s with concurrencyControl := s.concurrencyControl.disable }
  let (s, toCancel) := s.activeExecutions.keys.foldl (shutdownOne cancelAll) (disabled, [])
  let (o, cancelled) := s.concurrencyControl.removeAll toCancel
  ({ s.absorb o with cancelMany := s.cancelMany ++ cancelled.toList }, toCancel)

inductive Event where
  | add (executionId : String) (mode : WorkflowExecuteMode)
  | register (call : Adding)
  | reject (call : Adding)
  | finalize (executionId : String)
  | stop (executionId : String)
  | setStatus (executionId : String) (status : ExecutionStatus)
  | attachResponsePromise (executionId : String)
  | handlers (index : ℕ) (execution : ExecutingWorkflow)
  | remove (mode : WorkflowExecuteMode) (executionId : String)

def Enabled : Event → Prop
  | .register call | .reject call => call ∈ s.adding ∧ call.promise ∈ s.resolved
  | .handlers index execution =>
    s.executions[index]? = some execution ∧ execution.settled = true ∧ execution.handled = false
  | _ => True

def next : Event → ActiveExecutions
  | .add executionId mode => s.add executionId mode
  | .register call => s.register call
  | .reject call => s.reject call
  | .finalize executionId => s.finalizeExecution executionId
  | .stop executionId => s.stopExecution executionId
  | .setStatus executionId status => s.setStatus executionId status
  | .attachResponsePromise executionId => s.attachResponsePromise executionId
  | .handlers index execution => s.handlers index execution
  | .remove mode executionId => s.absorb (s.concurrencyControl.remove mode executionId)

def Step (s : ActiveExecutions) (e : Event) (s' : ActiveExecutions) : Prop :=
  s.Enabled e ∧ s' = s.next e

/-! ### What is decided -/

section Decided
variable {s} {cancelAll : Bool}

theorem execution_modify_responsePromise (executionId executionId' : String) :
    ((s.modify executionId ({ · with settled := true })).execution executionId').map
        (·.responsePromise) = (s.execution executionId').map (·.responsePromise) := by
  rw [modify]
  cases hindex : s.activeExecutions.get? executionId with
  | none => rfl
  | some index =>
    simp only [execution]
    cases s.activeExecutions.get? executionId' with
    | none => rfl
    | some index' =>
      simp only [Option.bind_some, List.getElem?_modify]
      cases s.executions[index']? with
      | none => rfl
      | some execution => split_ifs <;> rfl

theorem execution_delete {executionId executionId' : String} (h : executionId ≠ executionId') :
    ({ s with activeExecutions := s.activeExecutions.delete executionId } :
      ActiveExecutions).execution executionId' = s.execution executionId' := by
  simp only [execution, OrderedMap.get?_delete_of_ne h]

/-- A round changes nothing about the response promise of another execution. -/
theorem shutdownOne_other (cancelAll : Bool) (acc : ActiveExecutions × List String)
    {executionId executionId' : String} (h : executionId ≠ executionId') :
    ((shutdownOne cancelAll acc executionId).1.execution executionId').map (·.responsePromise) =
      (acc.1.execution executionId').map (·.responsePromise) := by
  rw [shutdownOne]
  cases hexecution : acc.1.execution executionId with
  | none => rfl
  | some execution =>
    dsimp only
    split_ifs
    · rw [stopExecution, hexecution]
      dsimp only
      split_ifs
      · rw [execution_delete h]
      · exact execution_modify_responsePromise _ _
    · rw [execution_delete h]
    · rfl

def Cancelled (s : ActiveExecutions) (cancelAll : Bool) (executionId : String) : Bool :=
  (s.execution executionId).any (cancels cancelAll)

theorem shutdownOne_toCancel (acc : ActiveExecutions × List String) (executionId : String) :
    (shutdownOne cancelAll acc executionId).2 =
      acc.2 ++ if Cancelled acc.1 cancelAll executionId then [executionId] else [] := by
  rw [shutdownOne, Cancelled]
  split
  · rename_i hnone
    simp [hnone]
  · rename_i execution hexecution
    rw [hexecution, Option.any_some]
    split_ifs <;> simp

theorem foldl_shutdownOne {executionIds : List String} (hnodup : executionIds.Nodup)
    (acc : ActiveExecutions × List String) :
    (executionIds.foldl (shutdownOne cancelAll) acc).2 =
      acc.2 ++ executionIds.filter (Cancelled acc.1 cancelAll) := by
  induction executionIds generalizing acc with
  | nil => simp
  | cons executionId executionIds ih =>
    obtain ⟨hnew, hnodup⟩ := List.nodup_cons.mp hnodup
    have hother : ∀ executionId' ∈ executionIds,
        Cancelled (shutdownOne cancelAll acc executionId).1 cancelAll executionId' =
          Cancelled acc.1 cancelAll executionId' := by
      intro executionId' hmem
      have hne : executionId ≠ executionId' := by
        rintro rfl
        exact hnew hmem
      have hsame := congrArg (Option.any (· || cancelAll)) (shutdownOne_other cancelAll acc hne)
      rw [Option.any_map, Option.any_map] at hsame
      exact hsame
    rw [List.foldl_cons, ih hnodup, List.filter_congr hother, List.filter_cons, shutdownOne_toCancel]
    split_ifs <;> simp

theorem shutdown_toCancel :
    (s.shutdown cancelAll).2 = s.activeExecutions.keys.filter (Cancelled s cancelAll) := by
  rw [shutdown]
  dsimp only
  rw [foldl_shutdownOne s.activeExecutions.keys_nodup]
  rfl

/-- An execution with a response promise, or any of them when all are to be cancelled. -/
theorem mem_toCancel {executionId : String} :
    executionId ∈ (s.shutdown cancelAll).2 ↔ ∃ execution, s.execution executionId = some execution ∧
      (execution.responsePromise = true ∨ cancelAll = true) := by
  rw [shutdown_toCancel, List.mem_filter, Cancelled, Option.any_eq_true]
  simp only [cancels, Bool.or_eq_true]
  refine ⟨fun h => h.2, fun h => ⟨?_, h⟩⟩
  obtain ⟨execution, hexecution, _⟩ := h
  obtain ⟨index, hindex, _⟩ := Option.bind_eq_some_iff.mp hexecution
  by_contra hkey
  rw [OrderedMap.get?_eq_none.mpr hkey] at hindex
  cases hindex

/-! ### Nothing is released -/

theorem stopExecution_frame (s : ActiveExecutions) (executionId : String) :
    (s.stopExecution executionId).concurrencyControl = s.concurrencyControl ∧
      (s.stopExecution executionId).released = s.released ∧
      (s.stopExecution executionId).cancelMany = s.cancelMany := by
  rw [stopExecution]
  cases s.execution executionId with
  | none => exact ⟨rfl, rfl, rfl⟩
  | some execution =>
    dsimp only
    split_ifs
    · exact ⟨rfl, rfl, rfl⟩
    · rw [modify]
      cases s.activeExecutions.get? executionId <;> exact ⟨rfl, rfl, rfl⟩

theorem shutdownOne_frame (cancelAll : Bool) (acc : ActiveExecutions × List String) (executionId : String) :
    (shutdownOne cancelAll acc executionId).1.concurrencyControl = acc.1.concurrencyControl ∧
      (shutdownOne cancelAll acc executionId).1.released = acc.1.released ∧
      (shutdownOne cancelAll acc executionId).1.cancelMany = acc.1.cancelMany := by
  rw [shutdownOne]
  cases acc.1.execution executionId with
  | none => exact ⟨rfl, rfl, rfl⟩
  | some execution =>
    dsimp only
    split_ifs
    · exact stopExecution_frame acc.1 executionId
    · exact ⟨rfl, rfl, rfl⟩
    · exact ⟨rfl, rfl, rfl⟩

theorem foldl_shutdownOne_frame (cancelAll : Bool) (executionIds : List String)
    (acc : ActiveExecutions × List String) :
    (executionIds.foldl (shutdownOne cancelAll) acc).1.concurrencyControl =
        acc.1.concurrencyControl ∧
      (executionIds.foldl (shutdownOne cancelAll) acc).1.released = acc.1.released ∧
      (executionIds.foldl (shutdownOne cancelAll) acc).1.cancelMany = acc.1.cancelMany := by
  induction executionIds generalizing acc with
  | nil => exact ⟨rfl, rfl, rfl⟩
  | cons executionId executionIds ih =>
    obtain ⟨hcontrol, hreleased, hcancel⟩ := ih (shutdownOne cancelAll acc executionId)
    obtain ⟨hcontrol', hreleased', hcancel'⟩ := shutdownOne_frame cancelAll acc executionId
    exact ⟨hcontrol.trans hcontrol', hreleased.trans hreleased', hcancel.trans hcancel'⟩

/-- The service is disabled before the queues are emptied, so nothing is. -/
theorem shutdown_frame (s : ActiveExecutions) (cancelAll : Bool) :
    (s.shutdown cancelAll).1.concurrencyControl = s.concurrencyControl.disable ∧
      (s.shutdown cancelAll).1.released = s.released ∧
      (s.shutdown cancelAll).1.cancelMany = s.cancelMany := by
  obtain ⟨hcontrol, hreleased, hcancel⟩ := foldl_shutdownOne_frame cancelAll
    s.activeExecutions.keys ({ s with concurrencyControl := s.concurrencyControl.disable }, [])
  rw [shutdown]
  dsimp only at hcontrol hreleased hcancel ⊢
  rw [hcontrol, ConcurrencyControlService.removeAll_disabled rfl]
  simp [absorb, hreleased, hcancel]

/-- A disabled service has no part in what happens. -/
structure Stopped (service : ConcurrencyControlService) (released : List String)
    (s : ActiveExecutions) : Prop where
  disabled : service.isEnabled = false
  control : s.concurrencyControl = service
  released : s.released = released

variable {service : ConcurrencyControlService} {released : List String}

theorem Stopped.absorb (h : Stopped service released s) (mode : WorkflowExecuteMode)
    (call : ConcurrencyQueue → Outcome) (otherwise : List ℕ) :
    Stopped service released (s.absorb (s.concurrencyControl.onQueue mode call otherwise)) := by
  rw [h.control, ConcurrencyControlService.onQueue_disabled h.disabled]
  exact ⟨h.disabled, rfl, (List.append_nil _).trans h.released⟩

theorem Stopped.modify (h : Stopped service released s) (executionId : String)
    (f : ExecutingWorkflow → ExecutingWorkflow) :
    Stopped service released (s.modify executionId f) := by
  rw [ActiveExecutions.modify]
  cases s.activeExecutions.get? executionId <;> exact ⟨h.disabled, h.control, h.released⟩

theorem Stopped.step {s' : ActiveExecutions} {e : Event} (h : Stopped service released s)
    (hs : s.Step e s') : Stopped service released s' := by
  obtain ⟨_, rfl⟩ := hs
  cases e with
  | add executionId mode =>
    have habsorb := h.absorb mode (·.enqueue executionId s.promises) [s.promises]
    exact ⟨habsorb.disabled, habsorb.control, habsorb.released⟩
  | register call => exact ⟨h.disabled, h.control, h.released⟩
  | reject call => exact ⟨h.disabled, h.control, h.released⟩
  | finalize executionId => exact h.modify _ _
  | stop executionId =>
    obtain ⟨hcontrol, hreleased, _⟩ := stopExecution_frame s executionId
    exact ⟨h.disabled, hcontrol.trans h.control, hreleased.trans h.released⟩
  | setStatus executionId status => exact h.modify _ _
  | attachResponsePromise executionId => exact h.modify _ _
  | handlers index execution =>
    have habsorb := h.absorb execution.executionMode (·.dequeue) []
    simp only [next, handlers]
    split_ifs <;> exact ⟨habsorb.disabled, habsorb.control, habsorb.released⟩
  | remove mode executionId => exact h.absorb mode (·.remove executionId) []

/-- What is decided to be cancelled is cancelled, and nothing is released from a queue after
the shutdown has begun. -/
def ShutsDown (s : ActiveExecutions) (cancelAll : Bool) (tr : List (Event × ActiveExecutions)) :
    Prop :=
  ((s.shutdown cancelAll).2 ≠ [] →
    (s.shutdown cancelAll).1.cancelMany = s.cancelMany ++ [(s.shutdown cancelAll).2]) ∧
  Always (fun s' => s'.released = s.released) (s.shutdown cancelAll).1 tr

theorem released_always {tr : List (Event × ActiveExecutions)}
    (hr : Run Step (s.shutdown cancelAll).1 tr) :
    Always (fun s' => s'.released = s.released) (s.shutdown cancelAll).1 tr := by
  obtain ⟨hcontrol, hreleased, _⟩ := shutdown_frame s cancelAll
  have hstopped : Stopped s.concurrencyControl.disable s.released (s.shutdown cancelAll).1 :=
    ⟨rfl, hcontrol, hreleased⟩
  exact (hr.invariant hstopped fun _ _ _ h hs => h.step hs).mono fun _ h => h.released

theorem shutsDown_iff {tr : List (Event × ActiveExecutions)}
    (hr : Run Step (s.shutdown cancelAll).1 tr) :
    ShutsDown s cancelAll tr ↔ ∀ executionId execution, s.execution executionId = some execution →
      execution.responsePromise = false ∧ cancelAll = false := by
  have hcancel := (shutdown_frame s cancelAll).2.2
  have hnil : (s.shutdown cancelAll).2 = [] ↔ ∀ executionId execution,
      s.execution executionId = some execution →
        execution.responsePromise = false ∧ cancelAll = false := by
    rw [List.eq_nil_iff_forall_not_mem]
    simp only [mem_toCancel, not_exists, not_and, not_or, Bool.not_eq_true]
  rw [← hnil]
  constructor
  · rintro ⟨hcancels, _⟩
    by_contra hne
    rw [hcancel] at hcancels
    have hlength := congrArg List.length (hcancels hne)
    simp at hlength
  · exact fun hempty => ⟨fun hne => absurd hempty hne, released_always hr⟩

end Decided

section Example

/-- One slot: `1` runs with a response promise, `2` is queued. -/
def oneQueued : ActiveExecutions :=
  let added := (ActiveExecutions.mk ⟨true, some (.create 1), none⟩ [] .empty [] 0 [] [] []).add
    "1" .webhook
  (((added.register ⟨"1", .webhook, 0⟩).attachResponsePromise "1").add "2" .webhook)

def stopped : ExecutingWorkflow := ⟨"1", .webhook, .running, true, true, false⟩

/-- `1` is stopped, its handlers run, and `cancelMany` is never called. -/
theorem oneQueued_notCancelled :
    oneQueued.concurrencyControl.isEnabled = true ∧
    (oneQueued.shutdown false).2 = ["1"] ∧ (oneQueued.shutdown false).1.cancelMany = [] ∧
    Run Step (oneQueued.shutdown false).1
      (trace next (oneQueued.shutdown false).1 [.handlers 0 stopped]) ∧
    ¬ ShutsDown oneQueued false
      (trace next (oneQueued.shutdown false).1 [.handlers 0 stopped]) := by
  refine ⟨rfl, rfl, rfl, .cons ⟨⟨rfl, rfl, rfl⟩, rfl⟩ (.nil _), ?_⟩
  rintro ⟨hcancels, -⟩
  cases hcancels (List.cons_ne_nil "1" [])

/-- Without a response promise nothing is to be cancelled, and the queued one stays queued. -/
def oneQueuedPlain : ActiveExecutions :=
  let added := (ActiveExecutions.mk ⟨true, some (.create 1), none⟩ [] .empty [] 0 [] [] []).add
    "1" .webhook
  (added.register ⟨"1", .webhook, 0⟩).add "2" .webhook

theorem oneQueuedPlain_shutsDown :
    ShutsDown oneQueuedPlain false
      (trace next (oneQueuedPlain.shutdown false).1
        [.finalize "1", .handlers 0 ⟨"1", .webhook, .running, false, true, false⟩]) := by
  have hrun : Run Step (oneQueuedPlain.shutdown false).1
      (trace next (oneQueuedPlain.shutdown false).1
        [.finalize "1", .handlers 0 ⟨"1", .webhook, .running, false, true, false⟩]) :=
    .cons ⟨trivial, rfl⟩ (.cons ⟨⟨rfl, rfl, rfl⟩, rfl⟩ (.nil _))
  refine (shutsDown_iff hrun).mpr ?_
  intro executionId execution h
  obtain ⟨index, hindex, hget⟩ := Option.bind_eq_some_iff.mp h
  have hmem : execution ∈ oneQueuedPlain.executions := List.mem_of_getElem? hget
  rw [List.mem_singleton.mp (show execution ∈ [⟨"1", .webhook, .running, false, false, false⟩]
    from hmem)]
  exact ⟨rfl, rfl⟩

end Example

end ActiveExecutions
end N8n.Concurrency
