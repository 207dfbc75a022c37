import Mathlib.Data.List.Induction
import Mathlib.Algebra.Order.Group.Nat
import N8n.Foundations.OrderedMap
import N8n.Foundations.SplitLists

/-!
# Cron jobs

The jobs of a workflow are kept in a list under its id. A job starts when it is constructed, and
deregistering the workflow stops its jobs and empties the list. The constructor refuses some
expressions and timezones; `invalid` is what it raises.
-/

namespace N8n.ScheduledTaskManager

structure Workflow where
  id : String
  timezone : String
  deriving DecidableEq, Repr

structure CronJob where
  cronExpression : String
  timezone : String
  isActive : Bool
  deriving DecidableEq, Repr

/-- `jobs` are all jobs constructed so far. The lists of `cronJobs` refer to their positions. -/
structure State where
  cronJobs : OrderedMap String (List ℕ)
  jobs : List CronJob

def State.initial : State := ⟨.empty, []⟩

section Manager
variable (invalid : String → String → Option String)

def newCronJob (cronExpression timezone : String) : Except String CronJob :=
  match invalid cronExpression timezone with
  | some message => .error message
  | none => .ok ⟨cronExpression, timezone, true⟩

def registerCron (s : State) (workflow : Workflow) (cronExpression : String) :
    Except String State := do
  let cronJob ← newCronJob invalid cronExpression workflow.timezone
  let cronJobs := match s.cronJobs.get? workflow.id with
    | some cronJobsForWorkflow =>
        s.cronJobs.set workflow.id (cronJobsForWorkflow ++ [s.jobs.length])
    | none => s.cronJobs.set workflow.id [s.jobs.length]
  return ⟨cronJobs, s.jobs ++ [cronJob]⟩

def stop (jobs : List CronJob) (job : ℕ) : List CronJob :=
  jobs.modify job fun cronJob => { cronJob with isActive := false }

/-- The jobs are popped off the list, the last one first. -/
def deregisterCrons (s : State) (workflowId : String) : State :=
  match s.cronJobs.get? workflowId with
  | none => s
  | some cronJobs => ⟨s.cronJobs.set workflowId [], cronJobs.reverse.foldl stop s.jobs⟩

/-- `Object.keys` of a `Map`: its entries are not properties. -/
def objectKeys (_ : OrderedMap String (List ℕ)) : List String := []

def deregisterAllCrons (s : State) : State := (objectKeys s.cronJobs).foldl deregisterCrons s

inductive Call where
  | registerCron (workflow : Workflow) (cronExpression : String)
  | deregisterCrons (workflowId : String)
  | deregisterAllCrons
  deriving DecidableEq

/-- A call that raises leaves the manager as it was. -/
def Call.apply (s : State) : Call → State
  | .registerCron workflow cronExpression =>
      (ScheduledTaskManager.registerCron invalid s workflow cronExpression).toOption.getD s
  | .deregisterCrons workflowId => ScheduledTaskManager.deregisterCrons s workflowId
  | .deregisterAllCrons => ScheduledTaskManager.deregisterAllCrons s

def run (calls : List Call) : State := calls.foldl (Call.apply invalid) .initial

/-! ### Which jobs should run -/

/-- The job was constructed for the workflow, and then came `after`. -/
def Registered (calls : List Call) (workflowId : String) (job : ℕ) (after : List Call) : Prop :=
  ∃ before workflow cronExpression,
    calls = before ++ .registerCron workflow cronExpression :: after ∧
      invalid cronExpression workflow.timezone = none ∧ workflow.id = workflowId ∧
      job = (run invalid before).jobs.length

def IsRunning (s : State) (job : ℕ) : Prop :=
  ∃ cronJob ∈ s.jobs[job]?, cronJob.isActive = true

def OnlyRegisteredRun (calls : List Call) : Prop :=
  ∀ job, IsRunning (run invalid calls) job ↔
    ∃ workflowId after, Registered invalid calls workflowId job after ∧
      .deregisterCrons workflowId ∉ after ∧ .deregisterAllCrons ∉ after

/-- A workflow with a job from before a `deregisterAllCrons` is deregistered by itself as well. -/
def EachDeregistered (calls : List Call) : Prop :=
  ∀ before workflow cronExpression after,
    calls = before ++ .registerCron workflow cronExpression :: after →
      invalid cronExpression workflow.timezone = none → .deregisterAllCrons ∈ after →
        .deregisterCrons workflow.id ∈ after

end Manager

/-! ### The operations -/

section Operations
variable {invalid : String → String → Option String} {s s' : State} {workflow : Workflow}
  {cronExpression workflowId : String} {job : ℕ}

def Listed (s : State) (workflowId : String) (job : ℕ) : Prop :=
  ∃ jobs ∈ s.cronJobs.get? workflowId, job ∈ jobs

/-- What a call of `registerCron` does that constructs a job. -/
theorem apply_registerCron (hvalid : invalid cronExpression workflow.timezone = none) (s : State) :
    (Call.registerCron workflow cronExpression).apply invalid s =
      ⟨s.cronJobs.set workflow.id ((s.cronJobs.get? workflow.id).getD [] ++ [s.jobs.length]),
        s.jobs ++ [⟨cronExpression, workflow.timezone, true⟩]⟩ := by
  simp only [Call.apply, registerCron, newCronJob, hvalid]
  cases s.cronJobs.get? workflow.id <;> rfl

theorem apply_registerCron_of_invalid {message : String}
    (hinvalid : invalid cronExpression workflow.timezone = some message) (s : State) :
    (Call.registerCron workflow cronExpression).apply invalid s = s := by
  simp only [Call.apply, registerCron, newCronJob, hinvalid]
  rfl

theorem apply_deregisterAllCrons (s : State) : Call.deregisterAllCrons.apply invalid s = s := rfl

theorem listed_registerCron (hvalid : invalid cronExpression workflow.timezone = none) :
    Listed ((Call.registerCron workflow cronExpression).apply invalid s) workflowId job ↔
      Listed s workflowId job ∨ workflow.id = workflowId ∧ job = s.jobs.length := by
  rw [apply_registerCron hvalid, Listed, OrderedMap.get?_set]
  by_cases h : workflow.id = workflowId
  · subst h
    cases hget : s.cronJobs.get? workflow.id <;> simp [Listed, hget]
  · simp [h, Listed]

theorem listed_deregisterCrons {id : String} :
    Listed (deregisterCrons s id) workflowId job ↔ Listed s workflowId job ∧ id ≠ workflowId := by
  rw [deregisterCrons]
  cases hget : s.cronJobs.get? id with
  | none =>
    simp only [iff_self_and]
    rintro ⟨jobs, hjobs, -⟩ rfl
    simp [hget] at hjobs
  | some jobs =>
    by_cases h : id = workflowId <;> simp [Listed, OrderedMap.get?_set, h]

theorem isRunning_registerCron (hvalid : invalid cronExpression workflow.timezone = none) :
    IsRunning ((Call.registerCron workflow cronExpression).apply invalid s) job ↔
      IsRunning s job ∨ job = s.jobs.length := by
  rw [apply_registerCron hvalid]
  simp only [IsRunning]
  rcases Nat.lt_trichotomy job s.jobs.length with h | h | h
  · simp [List.getElem?_append_left h, h.ne]
  · simp [h]
  · have hnone : (s.jobs ++ [⟨cronExpression, workflow.timezone, true⟩])[job]? = none := by
      apply List.getElem?_eq_none
      rw [List.length_append, List.length_singleton]
      omega
    simp [List.getElem?_eq_none h.le, h.ne', hnone]

theorem isRunning_stop {jobs : List CronJob} {cronJobs : OrderedMap String (List ℕ)} {other : ℕ} :
    IsRunning ⟨cronJobs, stop jobs other⟩ job ↔ IsRunning ⟨cronJobs, jobs⟩ job ∧ other ≠ job := by
  simp only [IsRunning, stop, List.getElem?_modify]
  by_cases h : other = job
  · simp [h]
  · simp [h]

theorem isRunning_foldl_stop {jobs : List CronJob} {cronJobs : OrderedMap String (List ℕ)}
    {stopped : List ℕ} :
    IsRunning ⟨cronJobs, stopped.foldl stop jobs⟩ job ↔
      IsRunning ⟨cronJobs, jobs⟩ job ∧ job ∉ stopped := by
  induction stopped generalizing jobs with
  | nil => simp
  | cons other stopped ih =>
    rw [List.foldl_cons, ih, isRunning_stop, List.mem_cons, and_assoc]
    tauto

theorem isRunning_deregisterCrons {id : String} :
    IsRunning (deregisterCrons s id) job ↔ IsRunning s job ∧ ¬ Listed s id job := by
  rw [deregisterCrons]
  cases hget : s.cronJobs.get? id with
  | none => simp [Listed, hget]
  | some jobs =>
    rw [isRunning_foldl_stop, List.mem_reverse]
    simp [Listed, hget, IsRunning]

end Operations

/-! ### Runs -/

section Runs
variable {invalid : String → String → Option String} {calls : List Call} {workflowId : String}
  {job : ℕ} {after : List Call}

theorem run_concat (calls : List Call) (call : Call) :
    run invalid (calls ++ [call]) = call.apply invalid (run invalid calls) := by
  simp [run]

theorem length_jobs_apply (s : State) (call : Call) :
    s.jobs.length ≤ (call.apply invalid s).jobs.length := by
  have hstop : ∀ (stopped : List ℕ) (jobs : List CronJob),
      (stopped.foldl stop jobs).length = jobs.length := by
    intro stopped
    induction stopped with
    | nil => simp
    | cons other stopped ih => simp [ih, stop]
  cases call with
  | registerCron workflow cronExpression =>
    cases hvalid : invalid cronExpression workflow.timezone with
    | none => simp [apply_registerCron hvalid]
    | some message => rw [apply_registerCron_of_invalid hvalid]
  | deregisterCrons id =>
    simp only [Call.apply, deregisterCrons]
    cases s.cronJobs.get? id with
    | none => exact Nat.le_refl _
    | some jobs => exact (hstop _ _).ge
  | deregisterAllCrons => exact Nat.le_refl _

theorem length_jobs_run_append (invalid : String → String → Option String)
    (calls later : List Call) :
    (run invalid calls).jobs.length ≤ (run invalid (calls ++ later)).jobs.length := by
  induction later using List.reverseRecOn with
  | nil => simp
  | append_singleton later call ih =>
    rw [← List.append_assoc, run_concat]
    exact ih.trans (length_jobs_apply _ call)

/-- A job is not constructed twice. -/
theorem not_registered_later (before middle : List Call) {workflow : Workflow}
    {cronExpression : String} (hvalid : invalid cronExpression workflow.timezone = none) :
    (run invalid before).jobs.length <
      (run invalid (before ++ .registerCron workflow cronExpression :: middle)).jobs.length := by
  have hlength := length_jobs_run_append invalid
    (before ++ [.registerCron workflow cronExpression]) middle
  rw [run_concat, apply_registerCron hvalid, List.append_assoc, List.singleton_append,
    List.length_append, List.length_singleton] at hlength
  exact hlength

theorem Registered.unique {workflowId' : String} {after' : List Call}
    (h : Registered invalid calls workflowId job after)
    (h' : Registered invalid calls workflowId' job after') :
    workflowId = workflowId' ∧ after = after' := by
  obtain ⟨before, workflow, cronExpression, rfl, hvalid, rfl, hjob⟩ := h
  obtain ⟨before', workflow', cronExpression', hcalls, hvalid', rfl, hjob'⟩ := h'
  rcases List.append_eq_append_iff.mp hcalls with ⟨middle, hbefore', hrest⟩ | ⟨middle, hbefore, hrest⟩
  · cases middle with
    | nil => simp_all
    | cons call middle =>
      obtain ⟨rfl, -⟩ := List.cons.inj hrest
      have := not_registered_later before middle hvalid
      rw [← hbefore'] at this
      omega
  · cases middle with
    | nil => simp_all
    | cons call middle =>
      obtain ⟨rfl, -⟩ := List.cons.inj hrest
      have := not_registered_later before' middle hvalid'
      rw [← hbefore] at this
      omega

/-- The job was registered for the workflow, and the workflow not deregistered since. -/
def Kept (invalid : String → String → Option String) (calls : List Call) (workflowId : String)
    (job : ℕ) : Prop :=
  ∃ after, Registered invalid calls workflowId job after ∧ .deregisterCrons workflowId ∉ after

theorem kept_concat {call : Call} :
    Kept invalid (calls ++ [call]) workflowId job ↔
      Kept invalid calls workflowId job ∧ call ≠ .deregisterCrons workflowId ∨
        ∃ workflow cronExpression, call = .registerCron workflow cronExpression ∧
          invalid cronExpression workflow.timezone = none ∧ workflow.id = workflowId ∧
          job = (run invalid calls).jobs.length := by
  constructor
  · rintro ⟨after, ⟨before, workflow, cronExpression, hcalls, hvalid, hid, hjob⟩, hafter⟩
    rcases SplitLists.concat_eq_iff.mp hcalls with ⟨rfl, hcall, -⟩ | ⟨after, rfl, rfl⟩
    · exact .inr ⟨workflow, cronExpression, hcall.symm, hvalid, hid, hjob⟩
    · simp only [List.mem_append, List.mem_singleton, not_or] at hafter
      exact .inl ⟨⟨after, ⟨before, workflow, cronExpression, rfl, hvalid, hid, hjob⟩, hafter.1⟩,
        Ne.symm hafter.2⟩
  · rintro (⟨⟨after, ⟨before, workflow, cronExpression, rfl, hvalid, hid, hjob⟩, hafter⟩, hcall⟩ |
      ⟨workflow, cronExpression, rfl, hvalid, hid, hjob⟩)
    · refine ⟨after ++ [call], ⟨before, workflow, cronExpression, by simp, hvalid, hid, hjob⟩, ?_⟩
      simp [hafter, Ne.symm hcall]
    · exact ⟨[], ⟨calls, workflow, cronExpression, rfl, hvalid, hid, hjob⟩, by simp⟩

theorem listed_run : Listed (run invalid calls) workflowId job ↔ Kept invalid calls workflowId job := by
  induction calls using List.reverseRecOn generalizing workflowId job with
  | nil => simp [run, State.initial, Listed, Kept, Registered]
  | append_singleton calls call ih =>
    rw [run_concat, kept_concat, ← ih]
    cases call with
    | registerCron workflow cronExpression =>
      cases hvalid : invalid cronExpression workflow.timezone with
      | none => simp [listed_registerCron hvalid, hvalid]
      | some message => simp [apply_registerCron_of_invalid hvalid, hvalid]
    | deregisterCrons id =>
      simp [Call.apply, listed_deregisterCrons]
    | deregisterAllCrons => simp [apply_deregisterAllCrons]

/-- `deregisterAllCrons` stops nothing: what runs is what no `deregisterCrons` has stopped. -/
theorem isRunning_run :
    IsRunning (run invalid calls) job ↔ ∃ workflowId, Kept invalid calls workflowId job := by
  induction calls using List.reverseRecOn generalizing job with
  | nil => simp [run, State.initial, IsRunning, Kept, Registered]
  | append_singleton calls call ih =>
    rw [run_concat]
    simp only [kept_concat]
    cases call with
    | registerCron workflow cronExpression =>
      cases hvalid : invalid cronExpression workflow.timezone with
      | none => simp [isRunning_registerCron hvalid, ih, hvalid, exists_or]
      | some message => simp [apply_registerCron_of_invalid hvalid, ih, hvalid]
    | deregisterCrons id =>
      rw [Call.apply, isRunning_deregisterCrons, ih, listed_run]
      constructor
      · rintro ⟨⟨workflowId, hkept⟩, hnot⟩
        refine ⟨workflowId, .inl ⟨hkept, ?_⟩⟩
        rintro ⟨⟩
        exact hnot hkept
      · rintro ⟨workflowId, ⟨hkept, hne⟩ | ⟨_, _, hcall, -⟩⟩
        · refine ⟨⟨workflowId, hkept⟩, ?_⟩
          rintro ⟨after, hregistered, -⟩
          obtain ⟨after', hregistered', -⟩ := hkept
          exact hne (congrArg _ (hregistered.unique hregistered').1)
        · cases hcall
    | deregisterAllCrons => simp [apply_deregisterAllCrons, ih]

theorem onlyRegisteredRun_iff (invalid : String → String → Option String) (calls : List Call) :
    OnlyRegisteredRun invalid calls ↔ EachDeregistered invalid calls := by
  simp only [OnlyRegisteredRun, isRunning_run, Kept]
  constructor
  · intro h before workflow cronExpression after hcalls hvalid hall
    by_contra hkept
    have hregistered : Registered invalid calls workflow.id (run invalid before).jobs.length after :=
      ⟨before, workflow, cronExpression, hcalls, hvalid, rfl, rfl⟩
    obtain ⟨workflowId, after', hregistered', -, hnotAll⟩ :=
      (h _).mp ⟨workflow.id, after, hregistered, hkept⟩
    rw [← (hregistered.unique hregistered').2] at hnotAll
    exact hnotAll hall
  · intro h job
    refine exists_congr fun workflowId => exists_congr fun after => and_congr_right ?_
    rintro ⟨before, workflow, cronExpression, hcalls, hvalid, rfl, -⟩
    rw [iff_self_and]
    exact fun hkept hall => hkept (h before workflow cronExpression after hcalls hvalid hall)

end Runs

/-! ### Deregistering all -/

def nightly : Workflow := ⟨"w1", "GMT"⟩

/-- The job still runs right after all jobs were deregistered. -/
theorem deregisteredAll_running :
    ¬ OnlyRegisteredRun (fun _ _ => none)
      [.registerCron nightly "0 0 3 * * *", .deregisterAllCrons] := by
  intro h
  have hrunning : IsRunning (run (fun _ _ => none)
      [.registerCron nightly "0 0 3 * * *", .deregisterAllCrons]) 0 := ⟨_, rfl, rfl⟩
  obtain ⟨workflowId, after, ⟨before, workflow, cronExpression, hcalls, -⟩, -, hnotAll⟩ :=
    (h 0).mp hrunning
  cases before with
  | nil =>
    obtain ⟨-, rfl⟩ := List.cons.inj hcalls
    exact hnotAll List.mem_cons_self
  | cons first before =>
    obtain ⟨-, hrest⟩ := List.cons.inj hcalls
    cases before <;> simp at hrest

end N8n.ScheduledTaskManager
