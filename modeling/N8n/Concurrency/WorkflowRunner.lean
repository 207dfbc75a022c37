import Mathlib.Data.List.Infix
import N8n.Concurrency.LostSlots

/-!
# The start of a workflow

`WorkflowRunner.run` in regular mode, from the registration of the execution by `add` on. What
`run` waits for may fail, the workflow's promise may resolve, be rejected or never be created,
and other executions go on meanwhile; the execution may also be stopped at any time. The entry
of an execution is removed by the handlers of its post-execution promise, so somebody has to
settle that promise.
-/

namespace N8n.Concurrency
open N8n.Runs

/-! ### What happens to one execution -/

namespace ActiveExecutions

/-- Every id leads to an object of this id. -/
def Filed (s : ActiveExecutions) : Prop :=
  ∀ executionId index, s.activeExecutions.get? executionId = some index →
    ∃ execution, s.executions[index]? = some execution ∧ execution.executionId = executionId

/-- The execution has no entry, or the handlers of its promise will remove it, or it waits. -/
def Released (executionId : String) (index : ℕ) (s : ActiveExecutions) : Prop :=
  s.activeExecutions.get? executionId = none ∨
    ∃ execution, s.executions[index]? = some execution ∧
      (execution.settled = true ∨ execution.status = .waiting)

/-- The object with this number is the only one that the id leads to, and once its handlers have
run it has no entry or waits. -/
structure Owned (executionId : String) (index : ℕ) (s : ActiveExecutions) : Prop where
  filed : s.Filed
  own : ∃ execution, s.executions[index]? = some execution ∧
    execution.executionId = executionId
  entry : ∀ i, s.activeExecutions.get? executionId = some i → i = index
  handled : ∀ execution, s.executions[index]? = some execution → execution.handled = true →
    s.activeExecutions.get? executionId = none ∨ execution.status = .waiting

/-- What a step does to the entry of an id and to the object with a number: the entry does not
come back, the promise stays settled, and the handlers remove the entry of what does not wait. -/
structure Keeps (executionId : String) (index : ℕ) (s s' : ActiveExecutions) : Prop where
  entry : ∀ i, s'.activeExecutions.get? executionId = some i →
    s.activeExecutions.get? executionId = some i
  object : ∀ execution, s.executions[index]? = some execution →
    ∃ execution', s'.executions[index]? = some execution' ∧
      execution'.executionId = execution.executionId ∧
      (execution.settled = true → execution'.settled = true) ∧
      (execution.status = .waiting → execution'.status = .waiting) ∧
      (execution'.handled = true → execution.handled = true ∨
        s'.activeExecutions.get? executionId = none ∨ execution'.status = .waiting)

section
variable {s s' : ActiveExecutions} {executionId : String} {index : ℕ}

theorem Filed.mono (h : s.Filed)
    (hentries : ∀ executionId i, s'.activeExecutions.get? executionId = some i →
      s.activeExecutions.get? executionId = some i)
    (hobjects : ∀ (i : ℕ) execution, s.executions[i]? = some execution →
      ∃ execution', s'.executions[i]? = some execution' ∧
        execution'.executionId = execution.executionId) : s'.Filed := by
  intro executionId i hentry
  obtain ⟨execution, hobject, rfl⟩ := h executionId i (hentries executionId i hentry)
  exact hobjects i execution hobject

/-- An object of a list in which one object is changed. -/
theorem getElem?_modify_some {l : List ExecutingWorkflow}
    {f : ExecutingWorkflow → ExecutingWorkflow} (i : ℕ) {j : ℕ} {execution : ExecutingWorkflow} (h : l[j]? = some execution) :
    (l.modify i f)[j]? = some (if i = j then f execution else execution) := by
  rw [List.getElem?_modify, h]
  split_ifs <;> rfl

theorem Filed.modify (h : s.Filed) (executionId : String)
    {f : ExecutingWorkflow → ExecutingWorkflow}
    (hf : ∀ execution, (f execution).executionId = execution.executionId) :
    (s.modify executionId f).Filed := by
  rw [ActiveExecutions.modify]
  cases s.activeExecutions.get? executionId with
  | none => exact h
  | some i =>
    refine h.mono (fun _ _ hentry => hentry) fun j execution hobject => ?_
    refine ⟨_, getElem?_modify_some i hobject, ?_⟩
    split_ifs
    · exact hf execution
    · rfl

theorem get?_of_delete {executionId executionId' : String} {i : ℕ}
    (h : (s.activeExecutions.delete executionId').get? executionId = some i) :
    s.activeExecutions.get? executionId = some i := by
  rw [OrderedMap.get?_delete] at h
  split_ifs at h
  exact h

theorem Filed.register (h : s.Filed) (call : Adding) : (s.register call).Filed := by
  intro executionId i hentry
  simp only [ActiveExecutions.register, OrderedMap.get?_set] at hentry ⊢
  split_ifs at hentry with hid
  · obtain rfl := Option.some.inj hentry
    exact ⟨_, List.getElem?_concat_length, hid⟩
  · obtain ⟨execution, hobject, hid⟩ := h executionId i hentry
    exact ⟨execution, List.getElem?_append_left (List.getElem?_eq_some_iff.mp hobject).1 ▸ hobject,
      hid⟩

theorem Filed.next (h : s.Filed) (e : Event) : (s.next e).Filed := by
  cases e with
  | register call => exact h.register call
  | add executionId mode => exact h
  | reject call => exact h
  | remove mode executionId => exact h
  | finalize executionId => exact h.modify executionId fun _ => rfl
  | setStatus executionId status => exact h.modify executionId fun _ => rfl
  | attachResponsePromise executionId => exact h.modify executionId fun _ => rfl
  | stop executionId =>
    rw [ActiveExecutions.next, stopExecution]
    split
    · exact h
    split
    · exact h.mono (fun _ _ hentry => get?_of_delete hentry) fun _ execution hobject =>
        ⟨execution, hobject, rfl⟩
    · exact h.modify executionId fun _ => rfl
  | handlers index execution =>
    have hobjects : ∀ (i : ℕ) execution, s.executions[i]? = some execution →
        ∃ execution', (s.executions.modify index ({ · with handled := true }))[i]? =
          some execution' ∧ execution'.executionId = execution.executionId := by
      intro i execution hobject
      refine ⟨_, getElem?_modify_some index hobject, ?_⟩
      split_ifs <;> rfl
    simp only [ActiveExecutions.next, ActiveExecutions.handlers]
    split
    · exact h.mono (fun _ _ hentry => hentry) hobjects
    · exact h.mono (fun _ _ hentry => get?_of_delete hentry) hobjects

/-- The object stays as it is. -/
theorem Keeps.same (hentry : ∀ i, s'.activeExecutions.get? executionId = some i →
      s.activeExecutions.get? executionId = some i)
    (hobject : ∀ execution, s.executions[index]? = some execution →
      s'.executions[index]? = some execution) : Keeps executionId index s s' :=
  ⟨hentry, fun execution h => ⟨execution, hobject execution h, rfl, id, id, Or.inl⟩⟩

theorem Keeps.modify (executionId' : String) {f : ExecutingWorkflow → ExecutingWorkflow}
    (hf : ∀ execution, (f execution).executionId = execution.executionId ∧
      (execution.settled = true → (f execution).settled = true) ∧
      (f execution).handled = execution.handled)
    (hstatus : s.activeExecutions.get? executionId' = some index →
      ∀ execution, execution.status = .waiting → (f execution).status = .waiting) :
    Keeps executionId index s (s.modify executionId' f) := by
  rw [ActiveExecutions.modify]
  cases hindex : s.activeExecutions.get? executionId' with
  | none => exact .same (fun _ h => h) fun _ h => h
  | some i =>
    by_cases hi : i = index
    · subst hi
      refine ⟨fun _ h => h, fun execution h => ?_⟩
      obtain ⟨hid, hsettled, hhandled⟩ := hf execution
      refine ⟨f execution, ?_, hid, hsettled, hstatus hindex execution, ?_⟩
      · exact (getElem?_modify_some i h).trans (congrArg some (if_pos rfl))
      · exact fun h => Or.inl (hhandled ▸ h)
    · refine .same (fun _ h => h) fun execution h => ?_
      exact (getElem?_modify_some i h).trans (congrArg some (if_neg hi))

theorem keeps_next (hfiled : s.Filed) {execution : ExecutingWorkflow}
    (hown : s.executions[index]? = some execution) (hid : execution.executionId = executionId)
    {e : Event} (he : s.Enabled e)
    (hregister : ∀ call, e = .register call → call.executionId ≠ executionId)
    (hstatus : ∀ status, e = .setStatus executionId status → status = .waiting) :
    Keeps executionId index s (s.next e) := by
  cases e with
  | add executionId' mode => exact .same (fun _ h => h) fun _ h => h
  | reject call => exact .same (fun _ h => h) fun _ h => h
  | remove mode executionId' => exact .same (fun _ h => h) fun _ h => h
  | finalize executionId' =>
    exact .modify executionId' (fun _ => ⟨rfl, fun _ => rfl, rfl⟩) fun _ _ h => h
  | attachResponsePromise executionId' =>
    exact .modify executionId' (fun _ => ⟨rfl, id, rfl⟩) fun _ _ h => h
  | setStatus executionId' status =>
    refine .modify executionId' (fun _ => ⟨rfl, id, rfl⟩) fun hindex _ _ => ?_
    -- the object with this number has this id only
    obtain ⟨execution', hobject, rfl⟩ := hfiled executionId' index hindex
    obtain rfl := Option.some.inj (hown.symm.trans hobject)
    exact hstatus status (hid ▸ rfl)
  | register call =>
    refine .same (fun i h => ?_) fun execution' h => ?_
    · exact (OrderedMap.get?_set_of_ne (hregister call rfl)).symm.trans h
    · exact (List.getElem?_append_left (List.getElem?_eq_some_iff.mp h).1).trans h
  | stop executionId' =>
    rw [ActiveExecutions.next, stopExecution]
    split
    · exact .same (fun _ h => h) fun _ h => h
    split
    · exact .same (fun _ h => get?_of_delete h) fun _ h => h
    · exact .modify executionId' (fun _ => ⟨rfl, fun _ => rfl, rfl⟩) fun _ _ h => h
  | handlers i execution' =>
    obtain ⟨hobject, _, _⟩ := he
    simp only [ActiveExecutions.next, ActiveExecutions.handlers]
    by_cases hi : i = index
    · subst hi
      obtain rfl := Option.some.inj (hown.symm.trans hobject)
      obtain rfl := hid
      have hself : (s.executions.modify i ({ · with handled := true }))[i]? =
          some { execution with handled := true } :=
        (getElem?_modify_some i hown).trans (congrArg some (if_pos rfl))
      split_ifs with hwaiting
      · refine ⟨fun _ h => h, fun execution' h => ?_⟩
        obtain rfl := Option.some.inj (hown.symm.trans h)
        exact ⟨_, hself, rfl, id, id, fun _ => Or.inr (Or.inr hwaiting)⟩
      · refine ⟨fun _ h => get?_of_delete h, fun execution' h => ?_⟩
        obtain rfl := Option.some.inj (hown.symm.trans h)
        refine ⟨_, hself, rfl, id, id, fun _ => Or.inr (Or.inl ?_)⟩
        exact OrderedMap.get?_delete_self s.activeExecutions execution.executionId
    · have hother : ∀ execution, s.executions[index]? = some execution →
          (s.executions.modify i ({ · with handled := true }))[index]? = some execution :=
        fun execution h => (getElem?_modify_some i h).trans (congrArg some (if_neg hi))
      split_ifs
      · exact .same (fun _ h => h) hother
      · exact .same (fun _ h => get?_of_delete h) hother

/-- Without an entry there will be none. -/
theorem Keeps.get?_eq_none (h : Keeps executionId index s s')
    (hnone : s.activeExecutions.get? executionId = none) :
    s'.activeExecutions.get? executionId = none := by
  rw [Option.eq_none_iff_forall_ne_some] at hnone ⊢
  exact fun i hi => hnone i (h.entry i hi)

theorem Owned.keeps (h : Owned executionId index s) (hkeeps : Keeps executionId index s s')
    (hfiled : s'.Filed) : Owned executionId index s' := by
  obtain ⟨execution, hown, hid⟩ := h.own
  obtain ⟨execution', hown', hid', _, hwaiting, hhandled⟩ := hkeeps.object execution hown
  refine ⟨hfiled, ⟨execution', hown', hid'.trans hid⟩, ?_, ?_⟩
  · exact fun i hi => h.entry i (hkeeps.entry i hi)
  · intro execution'' hobject hdone
    obtain rfl := Option.some.inj (hown'.symm.trans hobject)
    rcases hhandled hdone with hbefore | hnone | hwaits
    · exact (h.handled execution hown hbefore).imp hkeeps.get?_eq_none hwaiting
    · exact Or.inl hnone
    · exact Or.inr hwaits

theorem Owned.keeps_next (h : Owned executionId index s) {e : Event} (he : s.Enabled e)
    (hregister : ∀ call, e = .register call → call.executionId ≠ executionId)
    (hstatus : ∀ status, e = .setStatus executionId status → status = .waiting) :
    Keeps executionId index s (s.next e) := by
  obtain ⟨execution, hown, hid⟩ := h.own
  exact ActiveExecutions.keeps_next h.filed hown hid he hregister hstatus

theorem Released.keeps (h : Released executionId index s) (hkeeps : Keeps executionId index s s') :
    Released executionId index s' := by
  rcases h with hnone | ⟨execution, hobject, hreleased⟩
  · exact Or.inl (hkeeps.get?_eq_none hnone)
  · obtain ⟨execution', hobject', _, hsettled, hwaiting, _⟩ := hkeeps.object execution hobject
    exact Or.inr ⟨execution', hobject', hreleased.imp hsettled hwaiting⟩

theorem Owned.finalizeExecution (h : Owned executionId index s) :
    Owned executionId index (s.finalizeExecution executionId) :=
  h.keeps (h.keeps_next (e := .finalize executionId) trivial nofun nofun)
    (h.filed.next (.finalize executionId))

theorem Owned.released_finalizeExecution (h : Owned executionId index s) :
    Released executionId index (s.finalizeExecution executionId) := by
  rw [ActiveExecutions.finalizeExecution, ActiveExecutions.modify]
  cases hentry : s.activeExecutions.get? executionId with
  | none => exact Or.inl hentry
  | some i =>
    obtain rfl := h.entry i hentry
    obtain ⟨execution, hown, _⟩ := h.own
    refine Or.inr ⟨_, getElem?_modify_some i hown, Or.inl ?_⟩
    rw [if_pos rfl]

theorem Owned.attachResponsePromise (h : Owned executionId index s) :
    Owned executionId index (s.attachResponsePromise executionId) :=
  h.keeps (h.keeps_next (e := .attachResponsePromise executionId) trivial nofun nofun)
    (h.filed.next (.attachResponsePromise executionId))

/-- A response promise does not release an execution. -/
theorem released_of_attachResponsePromise
    (h : Released executionId index (s.attachResponsePromise executionId)) :
    Released executionId index s := by
  rw [ActiveExecutions.attachResponsePromise, ActiveExecutions.modify] at h
  cases hentry : s.activeExecutions.get? executionId with
  | none => exact Or.inl hentry
  | some i =>
    rw [hentry] at h
    rcases h with hnone | ⟨execution', hobject', hreleased⟩
    · exact Or.inl hnone
    · rw [List.getElem?_modify] at hobject'
      obtain ⟨execution, hobject, rfl⟩ := Option.map_eq_some_iff.mp hobject'
      refine Or.inr ⟨execution, hobject, ?_⟩
      split_ifs at hreleased <;> exact hreleased

/-- The object that `add` makes. -/
theorem owned_register (h : s.Filed) (call : Adding) :
    Owned call.executionId s.executions.length (s.register call) := by
  have hnew : (s.register call).executions[s.executions.length]? =
      some ⟨call.executionId, call.executionMode, .running,
        (s.execution call.executionId).any (·.responsePromise), false, false⟩ :=
    List.getElem?_concat_length
  refine ⟨h.register call, ⟨_, hnew, rfl⟩, fun i hi => ?_, fun execution hobject hdone => ?_⟩
  · exact Option.some.inj (hi.symm.trans (OrderedMap.get?_set_self _ _ _))
  · obtain rfl := Option.some.inj (hnew.symm.trans hobject)
    cases hdone

end

end ActiveExecutions

inductive ErrorType where
  | executionNotFound
  | executionCancelled
  | other
  deriving DecidableEq, Repr

structure ExecutionError where
  type : ErrorType
  message : String
  deriving DecidableEq, Repr

/-- `processError` returns at once for such an error. -/
def ExecutionError.probablyCancelled (error : ExecutionError) : Bool :=
  error.type = .executionNotFound || error.type = .executionCancelled ||
    "cancelled".toList <:+: error.message.toList

/-- How a promise settles, or a call returns. -/
abbrev Settlement := Except ExecutionError Unit

structure ExecutionProcess where
  executionId : String
  hasResponsePromise : Bool
  /-- Static data is to be loaded, and the workflow has an id. -/
  loadStaticData : Bool
  newWorkflow : Settlement
  /-- The promise of the workflow is created, or what creates it throws. -/
  workflowExecution : Settlement

/-- What `run` waits for. -/
inductive RunPhase where
  | checkingPermissions
  | runningHookBefore
  | runningHookAfter
  | loadingStaticData
  | gettingBase
  | settingRunning
  | processingError
  | settled
  deriving DecidableEq, Repr

/-- The promise of the workflow, with its handlers. -/
inductive WorkflowPromise where
  | notCreated
  | pending
  /-- It is pending and has no handlers. -/
  | unattended
  | processingError
  | settled
  deriving DecidableEq, Repr

structure WorkflowRun where
  active : ActiveExecutions
  /-- The number of the object that `add` has made. -/
  index : ℕ
  phase : RunPhase
  workflow : WorkflowPromise

namespace WorkflowRun
variable (data : ExecutionProcess) (s : WorkflowRun)

/-- `add` has registered the execution. -/
def initial (active : ActiveExecutions) (call : Adding) : WorkflowRun where
  active := active.register call
  index := active.executions.length
  phase := .checkingPermissions
  workflow := .notCreated

def has : Bool := s.active.activeExecutions.has data.executionId

def finalizeExecution : WorkflowRun :=
  { s with active := s.active.finalizeExecution data.executionId }

/-- `new Workflow`, which stands in no `try`. -/
def construct : WorkflowRun :=
  match data.newWorkflow with
  | .error _ => { s with phase := .settled }
  | .ok _ => { s with phase := .gettingBase }

def runMainProcess : WorkflowRun :=
  if data.loadStaticData then { s with phase := .loadingStaticData } else s.construct data

/-- The block in `runMainProcess` that catches errors. -/
def startWorkflow : WorkflowRun :=
  match data.workflowExecution with
  | .error error =>
    if error.probablyCancelled then { s with phase := .settled }
    else { s.finalizeExecution data with phase := .processingError }
  | .ok _ =>
    if s.has data then { s with phase := .settled, workflow := .pending }
    -- `attachWorkflowExecution` throws, and `processError` returns
    else { s with phase := .settled, workflow := .unattended }

/-- What `run` waits for settles. -/
def settles (outcome : Settlement) : WorkflowRun :=
  match s.phase, outcome with
  | .checkingPermissions, .error _ => { s with phase := .runningHookBefore }
  | .checkingPermissions, .ok _ =>
    if data.hasResponsePromise then
      if s.has data then
        { s with active := s.active.attachResponsePromise data.executionId }.runMainProcess data
      else { s with phase := .settled }
    else s.runMainProcess data
  | .runningHookBefore, .ok _ => { s with phase := .runningHookAfter }
  | .runningHookAfter, .ok _ => { s.finalizeExecution data with phase := .settled }
  | .loadingStaticData, .ok _ => s.construct data
  | .gettingBase, .ok _ => { s with phase := .settingRunning }
  | .settingRunning, .ok _ => s.startWorkflow data
  | _, _ => { s with phase := .settled }

/-- The promise of the workflow settles, or the hook that its handler waits for. -/
def workflowSettles (outcome : Settlement) : WorkflowRun :=
  match s.workflow, outcome with
  -- without an entry `getStatus` throws, and `processError` returns
  | .pending, .ok _ => { s.finalizeExecution data with workflow := .settled }
  | .pending, .error error =>
    if error.probablyCancelled then { s with workflow := .settled }
    else { s.finalizeExecution data with workflow := .processingError }
  | _, _ => { s with workflow := .settled }

inductive Event where
  | settles (outcome : Settlement)
  | workflowSettles (outcome : Settlement)
  | elsewhere (event : ActiveExecutions.Event)

/-- What others may do: the id is not added again, only the run itself finalizes it, and only a
running workflow puts it to wait. -/
def Foreign : ActiveExecutions.Event → Prop
  | .register call => call.executionId ≠ data.executionId
  | .finalize executionId | .attachResponsePromise executionId => executionId ≠ data.executionId
  | .setStatus executionId status => executionId = data.executionId →
      status = .waiting ∧ (s.workflow = .pending ∨ s.workflow = .unattended)
  | _ => True

def Enabled : Event → Prop
  | .settles _ => s.phase ≠ .settled
  | .workflowSettles _ => s.workflow ≠ .notCreated ∧ s.workflow ≠ .settled
  | .elsewhere event => s.active.Enabled event ∧ s.Foreign data event

def next : Event → WorkflowRun
  | .settles outcome => s.settles data outcome
  | .workflowSettles outcome => s.workflowSettles data outcome
  | .elsewhere event => { s with active := s.active.next event }

def Step (s : WorkflowRun) (e : Event) (s' : WorkflowRun) : Prop :=
  s.Enabled data e ∧ s' = s.next data e

/-! ### Executions that are left behind -/

/-- `run`, the workflow's promise, its handlers and those of the post-execution promise have
settled. -/
structure Settled : Prop where
  run : s.phase = .settled
  workflow : s.workflow = .notCreated ∨ s.workflow = .settled
  handled : ∀ execution, s.active.executions[s.index]? = some execution →
    execution.settled = true → execution.handled = true

/-- The execution has no entry in the end, unless it waits. -/
def NoZombie : Prop :=
  s.Settled → ∀ execution, s.active.executions[s.index]? = some execution →
    execution.status ≠ .waiting → s.active.activeExecutions.get? data.executionId = none

def throws (outcome : Settlement) : Prop := ∃ error, outcome = .error error

def throwsCancelled (outcome : Settlement) : Prop :=
  ∃ error, outcome = .error error ∧ error.probablyCancelled = true

/-- The step ends the run, or the handling of the workflow's promise, and does not finalize the
execution. -/
def EndsUnfinalized (s : WorkflowRun) : Event → Prop
  | .settles outcome =>
    match s.phase with
    | .checkingPermissions =>
      ¬ throws outcome ∧ data.loadStaticData = false ∧ throws data.newWorkflow
    | .loadingStaticData => throws outcome ∨ throws data.newWorkflow
    | .runningHookBefore | .runningHookAfter | .gettingBase => throws outcome
    | .settingRunning => throws outcome ∨ throwsCancelled data.workflowExecution
    | .processingError | .settled => False
  | .workflowSettles outcome => s.workflow = .pending ∧ throwsCancelled outcome
  | .elsewhere _ => False

/-- Such steps are taken only when the execution has been stopped or waits. -/
def EndsReleased (s : WorkflowRun) (e : Event) : Prop :=
  EndsUnfinalized data s e → s.active.Released data.executionId s.index

section Tended
variable {data : ExecutionProcess} {s s' : WorkflowRun} {e : Event}

/-- The run has come to its end, but for the hook of `processError`. -/
def Ending (s : WorkflowRun) : Prop :=
  (s.phase = .settled ∨ s.phase = .processingError) ∧ s.workflow ≠ .pending

structure Tended (data : ExecutionProcess) (s : WorkflowRun) : Prop where
  owned : s.active.Owned data.executionId s.index
  waits : s.phase ≠ .settled → s.workflow = .notCreated
  released : s.Ending → s.active.Released data.executionId s.index

theorem Tended.noZombie (h : Tended data s) : s.NoZombie data := by
  intro hsettled execution hobject hstatus
  have hending : s.Ending := by
    refine ⟨Or.inl hsettled.run, fun hpending => ?_⟩
    rcases hsettled.workflow with hw | hw <;> cases hpending.symm.trans hw
  rcases h.released hending with hnone | ⟨execution', hobject', hdone | hwaiting⟩
  · exact hnone
  · obtain rfl := Option.some.inj (hobject.symm.trans hobject')
    have hhandled := hsettled.handled execution hobject hdone
    exact (h.owned.handled execution hobject hhandled).resolve_right hstatus
  · obtain rfl := Option.some.inj (hobject.symm.trans hobject')
    exact absurd hwaiting hstatus

theorem Tended.elsewhere (h : Tended data s) {event : ActiveExecutions.Event}
    (henabled : s.active.Enabled event) (hforeign : s.Foreign data event) :
    Tended data { s with active := s.active.next event } := by
  have hkeeps : ActiveExecutions.Keeps data.executionId s.index s.active (s.active.next event) := by
    refine h.owned.keeps_next henabled ?_ ?_
    · rintro call rfl
      exact hforeign
    · rintro status rfl
      exact (hforeign rfl).1
  exact ⟨h.owned.keeps hkeeps (h.owned.filed.next event), h.waits,
    fun hending => (h.released hending).keeps hkeeps⟩

/-- The run goes on, or ends with the execution released. -/
theorem Tended.goOn (h : Tended data s) (hphase : s.phase ≠ .settled) (phase : RunPhase)
    (hreleased : phase = .settled ∨ phase = .processingError →
      s.active.Released data.executionId s.index) : Tended data { s with phase } :=
  ⟨h.owned, fun _ => h.waits hphase, fun hending => hreleased hending.1⟩

theorem Tended.finalizes (h : Tended data s) (hphase : s.phase ≠ .settled) (phase : RunPhase) :
    Tended data { s.finalizeExecution data with phase } :=
  ⟨h.owned.finalizeExecution, fun _ => h.waits hphase,
    fun _ => h.owned.released_finalizeExecution⟩

theorem Tended.construct (h : Tended data s) (hphase : s.phase ≠ .settled)
    (hends : throws data.newWorkflow → s.active.Released data.executionId s.index) :
    Tended data (s.construct data) := by
  rw [WorkflowRun.construct]
  cases hnew : data.newWorkflow with
  | error error => exact h.goOn hphase .settled fun _ => hends ⟨error, hnew⟩
  | ok _ => exact h.goOn hphase .gettingBase nofun

theorem Tended.runMainProcess (h : Tended data s) (hphase : s.phase ≠ .settled)
    (hends : data.loadStaticData = false → throws data.newWorkflow →
      s.active.Released data.executionId s.index) : Tended data (s.runMainProcess data) := by
  rw [WorkflowRun.runMainProcess]
  split_ifs with hload
  · exact h.goOn hphase .loadingStaticData nofun
  · exact h.construct hphase (hends (Bool.not_eq_true _ ▸ hload))

theorem released_of_has_eq_false (h : ¬ s.has data = true) :
    s.active.Released data.executionId s.index :=
  Or.inl (OrderedMap.get?_eq_none.mpr fun hmem => h (OrderedMap.has_iff.mpr hmem))

theorem Tended.startWorkflow (h : Tended data s) (hphase : s.phase ≠ .settled)
    (hends : throwsCancelled data.workflowExecution →
      s.active.Released data.executionId s.index) : Tended data (s.startWorkflow data) := by
  rw [WorkflowRun.startWorkflow]
  cases hcreate : data.workflowExecution with
  | error error =>
    dsimp only
    split_ifs with hcancelled
    · exact h.goOn hphase .settled fun _ => hends ⟨error, hcreate, hcancelled⟩
    · exact h.finalizes hphase .processingError
  | ok _ =>
    dsimp only
    split_ifs with hhas
    · exact ⟨h.owned, fun hne => absurd rfl hne, fun hending => absurd rfl hending.2⟩
    · exact ⟨h.owned, fun hne => absurd rfl hne, fun _ => released_of_has_eq_false hhas⟩

theorem throws_error (error : ExecutionError) : throws (.error error) := ⟨error, rfl⟩

theorem not_throws_ok (value : Unit) : ¬ throws (.ok value) := by
  rintro ⟨error, herror⟩
  cases herror

theorem Tended.settles (h : Tended data s) {outcome : Settlement} (hphase : s.phase ≠ .settled)
    (hends : EndsReleased data s (.settles outcome)) : Tended data (s.settles data outcome) := by
  rw [EndsReleased] at hends
  cases hp : s.phase with
  | checkingPermissions =>
    cases outcome with
    | error error =>
      simp only [WorkflowRun.settles, hp]
      exact h.goOn hphase .runningHookBefore nofun
    | ok value =>
      simp only [EndsUnfinalized, hp] at hends
      simp only [WorkflowRun.settles, hp]
      split_ifs with hresponse hhas
      · refine Tended.runMainProcess ⟨h.owned.attachResponsePromise, fun _ => h.waits hphase, ?_⟩
          nofun fun hload hnew => ?_
        · rintro ⟨hsettled | hprocessing, _⟩
          · cases hsettled
          · cases hprocessing
        · exact (hends ⟨not_throws_ok value, hload, hnew⟩).keeps
            (h.owned.keeps_next (e := .attachResponsePromise data.executionId) trivial nofun nofun)
      · exact h.goOn hphase .settled fun _ => released_of_has_eq_false hhas
      · exact h.runMainProcess hphase fun hload hnew => hends ⟨not_throws_ok value, hload, hnew⟩
  | runningHookBefore =>
    simp only [EndsUnfinalized, hp] at hends
    cases outcome with
    | error error =>
      simp only [WorkflowRun.settles, hp]
      exact h.goOn hphase .settled fun _ => hends (throws_error error)
    | ok value =>
      simp only [WorkflowRun.settles, hp]
      exact h.goOn hphase .runningHookAfter nofun
  | runningHookAfter =>
    simp only [EndsUnfinalized, hp] at hends
    cases outcome with
    | error error =>
      simp only [WorkflowRun.settles, hp]
      exact h.goOn hphase .settled fun _ => hends (throws_error error)
    | ok value =>
      simp only [WorkflowRun.settles, hp]
      exact h.finalizes hphase .settled
  | loadingStaticData =>
    simp only [EndsUnfinalized, hp] at hends
    cases outcome with
    | error error =>
      simp only [WorkflowRun.settles, hp]
      exact h.goOn hphase .settled fun _ => hends (Or.inl (throws_error error))
    | ok value =>
      simp only [WorkflowRun.settles, hp]
      exact h.construct hphase fun hnew => hends (Or.inr hnew)
  | gettingBase =>
    simp only [EndsUnfinalized, hp] at hends
    cases outcome with
    | error error =>
      simp only [WorkflowRun.settles, hp]
      exact h.goOn hphase .settled fun _ => hends (throws_error error)
    | ok value =>
      simp only [WorkflowRun.settles, hp]
      exact h.goOn hphase .settingRunning nofun
  | settingRunning =>
    simp only [EndsUnfinalized, hp] at hends
    cases outcome with
    | error error =>
      simp only [WorkflowRun.settles, hp]
      exact h.goOn hphase .settled fun _ => hends (Or.inl (throws_error error))
    | ok value =>
      simp only [WorkflowRun.settles, hp]
      exact h.startWorkflow hphase fun hcreate => hends (Or.inr hcreate)
  | processingError =>
    have hreleased : s.active.Released data.executionId s.index := by
      refine h.released ⟨Or.inr hp, ?_⟩
      rw [h.waits hphase]
      exact nofun
    simp only [WorkflowRun.settles, hp]
    exact h.goOn hphase .settled fun _ => hreleased
  | settled => exact absurd hp hphase

theorem Tended.workflowSettles (h : Tended data s) {outcome : Settlement}
    (hcreated : s.workflow ≠ .notCreated)
    (hends : EndsReleased data s (.workflowSettles outcome)) :
    Tended data (s.workflowSettles data outcome) := by
  have hphase : s.phase = .settled := by
    by_contra hne
    exact hcreated (h.waits hne)
  have hother : s.workflow ≠ .pending → Tended data { s with workflow := .settled } := fun hw =>
    ⟨h.owned, fun hne => absurd hphase hne, fun hending => h.released ⟨hending.1, hw⟩⟩
  have hfinalized : ∀ workflow, Tended data { s.finalizeExecution data with workflow } :=
    fun workflow => ⟨h.owned.finalizeExecution, fun hne => absurd hphase hne,
      fun _ => h.owned.released_finalizeExecution⟩
  cases hw : s.workflow with
  | pending =>
    cases outcome with
    | ok value =>
      simp only [WorkflowRun.workflowSettles, hw]
      exact hfinalized .settled
    | error error =>
      simp only [WorkflowRun.workflowSettles, hw]
      split_ifs with hcancelled
      · exact ⟨h.owned, fun hne => absurd hphase hne,
          fun _ => hends ⟨hw, error, rfl, hcancelled⟩⟩
      · exact hfinalized .processingError
  | notCreated => exact absurd hw hcreated
  | unattended =>
    simp only [WorkflowRun.workflowSettles, hw]
    exact hother (hw ▸ nofun)
  | processingError =>
    simp only [WorkflowRun.workflowSettles, hw]
    exact hother (hw ▸ nofun)
  | settled =>
    simp only [WorkflowRun.workflowSettles, hw]
    exact hother (hw ▸ nofun)

theorem Tended.step (h : Tended data s) (hends : EndsReleased data s e) (hs : Step data s e s') :
    Tended data s' := by
  obtain ⟨henabled, rfl⟩ := hs
  cases e with
  | settles outcome => exact h.settles henabled hends
  | workflowSettles outcome => exact h.workflowSettles henabled.1 hends
  | elsewhere event => exact h.elsewhere henabled.1 henabled.2

/-- What is not released when everything has settled has an entry and does not wait. -/
theorem zombie_of_not_released (howned : s.active.Owned data.executionId s.index)
    (hphase : s.phase = .settled) (hworkflow : s.workflow = .notCreated ∨ s.workflow = .settled)
    (hnot : ¬ s.active.Released data.executionId s.index) : ¬ s.NoZombie data := by
  intro hno
  obtain ⟨execution, hown, _⟩ := howned.own
  have hsettled : s.Settled := by
    refine ⟨hphase, hworkflow, fun execution hobject hdone => ?_⟩
    exact absurd (Or.inr ⟨execution, hobject, Or.inl hdone⟩) hnot
  refine hnot (Or.inl (hno hsettled execution hown fun hwaiting => ?_))
  exact hnot (Or.inr ⟨execution, hown, Or.inr hwaiting⟩)

/-- Everything has settled, and the execution is as it was, but for a response promise. -/
structure EndsAsItWas (data : ExecutionProcess) (s s' : WorkflowRun) : Prop where
  phase : s'.phase = .settled
  workflow : s'.workflow = .notCreated ∨ s'.workflow = .settled
  index : s'.index = s.index
  active : s'.active = s.active ∨
    s'.active = s.active.attachResponsePromise data.executionId

theorem construct_of_throws (s : WorkflowRun) (h : throws data.newWorkflow) :
    s.construct data = { s with phase := .settled } := by
  obtain ⟨error, herror⟩ := h
  rw [construct, herror]

theorem startWorkflow_of_throwsCancelled (s : WorkflowRun)
    (h : throwsCancelled data.workflowExecution) :
    s.startWorkflow data = { s with phase := .settled } := by
  obtain ⟨error, herror, hcancelled⟩ := h
  rw [startWorkflow, herror]
  exact if_pos hcancelled

theorem Tended.endsAsItWas (h : Tended data s) (henabled : s.Enabled data e)
    (hends : EndsUnfinalized data s e) : EndsAsItWas data s (s.next data e) := by
  cases e with
  | elsewhere event => exact hends.elim
  | workflowSettles outcome =>
    obtain ⟨hpending, error, rfl, hcancelled⟩ := hends
    have hphase : s.phase = .settled := by
      by_contra hne
      cases hpending.symm.trans (h.waits hne)
    simp only [next, WorkflowRun.workflowSettles, hpending, hcancelled, if_true]
    exact ⟨hphase, Or.inr rfl, rfl, Or.inl rfl⟩
  | settles outcome =>
    have hworkflow := h.waits henabled
    have hended : EndsAsItWas data s { s with phase := .settled } :=
      ⟨rfl, Or.inl hworkflow, rfl, Or.inl rfl⟩
    rw [next]
    cases hp : s.phase with
    | checkingPermissions =>
      simp only [EndsUnfinalized, hp] at hends
      obtain ⟨hok, hload, hnew⟩ := hends
      cases outcome with
      | error error => exact absurd (throws_error error) hok
      | ok value =>
        simp only [WorkflowRun.settles, hp, WorkflowRun.runMainProcess, hload,
          Bool.false_eq_true, if_false, construct_of_throws _ hnew]
        split_ifs
        · exact ⟨rfl, Or.inl hworkflow, rfl, Or.inr rfl⟩
        · exact hended
        · exact hended
    | runningHookBefore =>
      simp only [EndsUnfinalized, hp] at hends
      obtain ⟨error, rfl⟩ := hends
      simp only [WorkflowRun.settles, hp]
      exact hended
    | runningHookAfter =>
      simp only [EndsUnfinalized, hp] at hends
      obtain ⟨error, rfl⟩ := hends
      simp only [WorkflowRun.settles, hp]
      exact hended
    | loadingStaticData =>
      simp only [EndsUnfinalized, hp] at hends
      cases outcome with
      | error error =>
        simp only [WorkflowRun.settles, hp]
        exact hended
      | ok value =>
        simp only [WorkflowRun.settles, hp]
        rw [construct_of_throws s (hends.resolve_left (not_throws_ok value))]
        exact hended
    | gettingBase =>
      simp only [EndsUnfinalized, hp] at hends
      obtain ⟨error, rfl⟩ := hends
      simp only [WorkflowRun.settles, hp]
      exact hended
    | settingRunning =>
      simp only [EndsUnfinalized, hp] at hends
      cases outcome with
      | error error =>
        simp only [WorkflowRun.settles, hp]
        exact hended
      | ok value =>
        simp only [WorkflowRun.settles, hp]
        rw [startWorkflow_of_throwsCancelled s (hends.resolve_left (not_throws_ok value))]
        exact hended
    | processingError =>
      simp only [EndsUnfinalized, hp] at hends
    | settled => exact absurd hp henabled

/-- A step that ends without finalizing leaves the execution behind. -/
theorem Tended.zombie (h : Tended data s) (hends : ¬ EndsReleased data s e)
    (hs : Step data s e s') : ¬ s'.NoZombie data := by
  obtain ⟨henabled, rfl⟩ := hs
  rw [EndsReleased, Classical.not_imp] at hends
  obtain ⟨hphase, hworkflow, hindex, hactive⟩ := h.endsAsItWas henabled hends.1
  rcases hactive with hactive | hactive
  · refine zombie_of_not_released ?_ hphase hworkflow ?_
    · rw [hactive, hindex]
      exact h.owned
    · rw [hactive, hindex]
      exact hends.2
  · refine zombie_of_not_released ?_ hphase hworkflow ?_
    · rw [hactive, hindex]
      exact h.owned.attachResponsePromise
    · rw [hactive, hindex]
      exact fun hreleased => hends.2 (ActiveExecutions.released_of_attachResponsePromise hreleased)

theorem tended_initial {active : ActiveExecutions} (hfiled : active.Filed) (call : Adding)
    (hid : call.executionId = data.executionId) : Tended data (initial active call) := by
  refine ⟨?_, fun _ => rfl, ?_⟩
  · rw [← hid]
    exact ActiveExecutions.owned_register hfiled call
  · rintro ⟨hsettled | hprocessing, _⟩
    · cases hsettled
    · cases hprocessing

theorem filed_of_run {limit : ℤ} {evaluation : Option ConcurrencyQueue}
    {tr : List (ActiveExecutions.Event × ActiveExecutions)}
    (hr : Run ActiveExecutions.Step (ActiveExecutions.idle limit evaluation) tr) :
    (finalState (ActiveExecutions.idle limit evaluation) tr).Filed := by
  have hidle : (ActiveExecutions.idle limit evaluation).Filed := nofun
  refine (hr.invariant hidle ?_).final
  rintro s e s' hfiled ⟨_, rfl⟩
  exact hfiled.next e

/-- The execution was added after any run of others. It is never left behind exactly when each
step that ends the run, or the handling of the workflow's promise, without finalizing it is taken
after it was stopped or while it waits. -/
theorem noZombie_iff_endsReleased {limit : ℤ} {evaluation : Option ConcurrencyQueue}
    {before : List (ActiveExecutions.Event × ActiveExecutions)}
    (hbefore : Run ActiveExecutions.Step (ActiveExecutions.idle limit evaluation) before)
    {active : ActiveExecutions}
    (hactive : active = finalState (ActiveExecutions.idle limit evaluation) before)
    {call : Adding} (hid : call.executionId = data.executionId) {tr : List (Event × WorkflowRun)}
    (hr : Run (Step data) (initial active call) tr) :
    Always (NoZombie data) (initial active call) tr ↔
      EveryStep (EndsReleased data) (initial active call) tr := by
  have hfiled : active.Filed := hactive ▸ filed_of_run hbefore
  exact hr.always_iff_everyStep (tended_initial hfiled call hid) (fun _ h => h.noZombie)
    (fun _ _ _ h hends hs => h.step hends hs) fun _ _ _ h hends hs => h.zombie hends hs

end Tended

section Example

/-- `throttle` has let the execution go on. -/
def oneAdding : List (ActiveExecutions.Event × ActiveExecutions) :=
  trace ActiveExecutions.next (ActiveExecutions.idle 5 none) [.add "1" .webhook]

def added : Adding := ⟨"1", .webhook, 0⟩

def registered : WorkflowRun :=
  initial (finalState (ActiveExecutions.idle 5 none) oneAdding) added

def withStaticData : ExecutionProcess := ⟨"1", false, true, .ok (), .ok ()⟩

def failure : Settlement := .error ⟨.other, "Connection terminated unexpectedly"⟩

/-- The static data of the workflow cannot be read. -/
def staticDataFails : List Event := [.settles (.ok ()), .settles failure]

theorem staticDataFails_zombie :
    Run ActiveExecutions.Step (ActiveExecutions.idle 5 none) oneAdding ∧
    Run (Step withStaticData) registered
      (trace (fun s e => s.next withStaticData e) registered staticDataFails) ∧
    ¬ Always (NoZombie withStaticData) registered
      (trace (fun s e => s.next withStaticData e) registered staticDataFails) := by
  refine ⟨.cons ⟨trivial, rfl⟩ (.nil _), ?_, fun h => ?_⟩
  · exact .cons ⟨nofun, rfl⟩ (.cons ⟨nofun, rfl⟩ (.nil _))
  · have hsettled : (finalState registered (trace (fun s e => s.next withStaticData e) registered
        staticDataFails)).Settled := by
      refine ⟨rfl, Or.inl rfl, fun execution hobject hdone => ?_⟩
      obtain rfl := Option.some.inj hobject
      cases hdone
    cases h.final hsettled _ rfl nofun

/-- The permissions are missing, and the hooks succeed. -/
def noPermission : List Event :=
  [.settles failure, .settles (.ok ()), .settles (.ok ()),
    .elsewhere (.handlers 0 ⟨"1", .webhook, .running, false, true, false⟩)]

theorem noPermission_noZombie :
    Always (NoZombie withStaticData) registered
      (trace (fun s e => s.next withStaticData e) registered noPermission) := by
  have hbefore : Run ActiveExecutions.Step (ActiveExecutions.idle 5 none) oneAdding :=
    .cons ⟨trivial, rfl⟩ (.nil _)
  have hrun : Run (Step withStaticData) registered
      (trace (fun s e => s.next withStaticData e) registered noPermission) :=
    .cons ⟨nofun, rfl⟩ (.cons ⟨nofun, rfl⟩ (.cons ⟨nofun, rfl⟩
      (.cons ⟨⟨⟨rfl, rfl, rfl⟩, trivial⟩, rfl⟩ (.nil _))))
  refine (noZombie_iff_endsReleased hbefore rfl rfl hrun).mpr ⟨?_, ?_, ?_, ?_, trivial⟩
  · rintro ⟨hok, _⟩
    exact absurd (throws_error _) hok
  · exact fun hthrows => absurd hthrows (not_throws_ok ())
  · exact fun hthrows => absurd hthrows (not_throws_ok ())
  · exact False.elim

end Example

end WorkflowRun
end N8n.Concurrency
