import Mathlib.Logic.Function.Basic
import Mathlib.Data.List.Basic
import N8n.Concurrency.ActiveExecutions

/-!
# The recovery of executions that the queue has lost

In queue mode the row of an execution is inserted first and its job added to the queue
after that. A worker takes the job, reads the row, marks it as running, writes the final
status, and then the job is gone. Meanwhile the leader reads the executions in progress,
then the jobs of the queue, and marks those as crashed that have no job. Each access to the
table or to the queue is one step.
-/

namespace N8n.Scaling
open N8n.Runs
open N8n.Concurrency (ExecutionStatus)

/-- How far the creation and the run of an execution have come. -/
inductive Stage where
  | absent
  /-- The row is inserted, and the job is still to be added. -/
  | inserted
  /-- The creator has failed before it has added the job. -/
  | abandoned
  | waiting
  /-- A worker has taken the job. -/
  | active
  /-- The worker has found a row that is not crashed. -/
  | found
  /-- The worker has marked the row as running. -/
  | running
  /-- The worker is done with the row. -/
  | finished
  /-- The job is gone. -/
  | gone
  deriving DecidableEq, Repr

def Stage.jobAdded : Stage → Bool
  | .absent | .inserted | .abandoned => false
  | _ => true

/-- The worker is still going to write a status whatever the row says. -/
def Stage.willWrite : Stage → Bool
  | .found | .running => true
  | _ => false

def Stage.ended : Stage → Bool
  | .abandoned | .gone => true
  | _ => false

/-- A call of `recoverFromQueue`, by what it has read so far. -/
inductive Recovery where
  | called
  | storedRead (storedIds : List ℕ)
  | queueRead (storedIds queuedIds : List ℕ)
  | completed (nextWaitMs : ℕ)
  deriving DecidableEq, Repr

structure QueueMode where
  /-- The table of executions. -/
  status : ℕ → Option ExecutionStatus
  /-- The executions of the jobs in the queue, active or waiting. -/
  jobs : List ℕ
  stage : ℕ → Stage
  recovery : Recovery
  /-- The executions for which a worker has written a success. -/
  succeeded : List ℕ

namespace QueueMode
variable (batchSize waitMs : ℕ) (s : QueueMode)

def initial : QueueMode := ⟨fun _ => none, [], fun _ => .absent, .called, []⟩

def inProgress (executionId : ℕ) : Prop :=
  s.status executionId = some .new ∨ s.status executionId = some .running

instance (executionId : ℕ) : Decidable (s.inProgress executionId) :=
  inferInstanceAs (Decidable (_ ∨ _))

def toStage (executionId : ℕ) (stage : Stage) : QueueMode :=
  { s with stage := Function.update s.stage executionId stage }

def write (executionId : ℕ) (status : ExecutionStatus) : QueueMode :=
  { s with status := Function.update s.status executionId (some status) }

/-- Rows that are not there are not updated. -/
def markAsCrashed (executionIds : List ℕ) : QueueMode :=
  { s with
    status := fun executionId =>
      if executionId ∈ executionIds ∧ (s.status executionId).isSome then some .crashed
      else s.status executionId }

def danglingIds (storedIds queuedIds : List ℕ) : List ℕ := storedIds.filter (· ∉ queuedIds)

/-- `recoverFromQueue` has got the ids of executions in progress. -/
def readStored (storedIds : List ℕ) : QueueMode :=
  { s with
    recovery := if storedIds.length = 0 then .completed waitMs else .storedRead storedIds }

/-- `recoverFromQueue` has got the jobs; `queueRead` means that `markAsCrashed` is called. -/
def readQueue (storedIds : List ℕ) : QueueMode :=
  { s with
    recovery :=
      if s.jobs.length = 0 ∨ (danglingIds storedIds s.jobs).length = 0 then .completed waitMs
      else .queueRead storedIds s.jobs }

def recover (storedIds queuedIds : List ℕ) : QueueMode :=
  { s.markAsCrashed (danglingIds storedIds queuedIds) with
    recovery := .completed (if storedIds.length ≥ batchSize then waitMs / 2 else waitMs) }

/-- A worker reads the row of its job. It does not run an execution that is crashed. -/
def readRow (executionId : ℕ) : QueueMode :=
  s.toStage executionId (if s.status executionId = some .crashed then .finished else .found)

inductive Event where
  | insert (executionId : ℕ)
  | abandon (executionId : ℕ) (registered : Bool)
  | addJob (executionId : ℕ)
  | take (executionId : ℕ)
  | readRow (executionId : ℕ)
  | setRunning (executionId : ℕ)
  | write (executionId : ℕ) (status : ExecutionStatus)
  | complete (executionId : ℕ)
  | readStored (storedIds : List ℕ)
  | readQueue (storedIds : List ℕ)
  | markAsCrashed (storedIds queuedIds : List ℕ)
  deriving DecidableEq, Repr

def Enabled : Event → Prop
  | .insert executionId => s.stage executionId = .absent
  | .abandon executionId _ | .addJob executionId => s.stage executionId = .inserted
  | .take executionId => s.stage executionId = .waiting
  | .readRow executionId => s.stage executionId = .active
  | .setRunning executionId => s.stage executionId = .found
  | .write executionId status => s.stage executionId = .running ∧ status ≠ .crashed
  | .complete executionId => s.stage executionId = .finished
  -- the first ones of the table, in an order that is left open
  | .readStored storedIds => s.recovery = .called ∧ storedIds.Nodup ∧
      storedIds.length ≤ batchSize ∧ (∀ executionId ∈ storedIds, s.inProgress executionId) ∧
      (storedIds.length < batchSize → ∀ executionId, s.inProgress executionId →
        executionId ∈ storedIds)
  | .readQueue storedIds => s.recovery = .storedRead storedIds
  | .markAsCrashed storedIds queuedIds => s.recovery = .queueRead storedIds queuedIds

def next : Event → QueueMode
  | .insert executionId => (s.write executionId .new).toStage executionId .inserted
  | .abandon executionId registered =>
    (if registered then s.write executionId .error else s).toStage executionId .abandoned
  | .addJob executionId => { s.toStage executionId .waiting with jobs := s.jobs ++ [executionId] }
  | .take executionId => s.toStage executionId .active
  | .readRow executionId => s.readRow executionId
  | .setRunning executionId => (s.write executionId .running).toStage executionId .running
  | .write executionId status =>
    { (s.write executionId status).toStage executionId .finished with
      succeeded := if status = .success then s.succeeded ++ [executionId] else s.succeeded }
  | .complete executionId => { s.toStage executionId .gone with jobs := s.jobs.erase executionId }
  | .readStored storedIds => s.readStored waitMs storedIds
  | .readQueue storedIds => s.readQueue waitMs storedIds
  | .markAsCrashed storedIds queuedIds => s.recover batchSize waitMs storedIds queuedIds

def Step (s : QueueMode) (e : Event) (s' : QueueMode) : Prop :=
  s.Enabled batchSize e ∧ s' = s.next batchSize waitMs e

/-! ### Which executions end as crashed -/

/-- No execution that has succeeded or whose job was added ends as crashed. Nobody else marks
an execution as crashed. -/
def OnlyLost : Prop :=
  ∀ executionId, (s.stage executionId).ended = true →
    executionId ∈ s.succeeded ∨ (s.stage executionId).jobAdded = true →
      s.status executionId ≠ some .crashed

/-- Of the executions that were in progress and had no job when the recovery has looked, those
whose job has ever been added have a worker that is still going to write their status; and no
job is added for an execution that is crashed. -/
def MarksLost (s : QueueMode) : Event → Prop
  | .markAsCrashed storedIds queuedIds =>
    ∀ executionId ∈ storedIds, executionId ∉ queuedIds →
      (s.stage executionId).jobAdded = true → (s.stage executionId).willWrite = true
  | .addJob executionId => s.status executionId ≠ some .crashed
  | _ => True

/-- An execution with a job that stays crashed. -/
def Doomed (executionId : ℕ) : Prop :=
  (s.stage executionId).jobAdded = true ∧ (s.stage executionId).willWrite = false ∧
    s.status executionId = some .crashed

/-- No execution is doomed. -/
def NoneDoomed : Prop := ∀ executionId, ¬ s.Doomed executionId

structure Stored : Prop where
  rows : ∀ executionId, s.stage executionId ≠ .absent → (s.status executionId).isSome = true
  succeeded : ∀ executionId ∈ s.succeeded, (s.stage executionId).jobAdded = true

/-! ### What a step does to an execution -/

/-- A step of the creator or of the worker, on the stage and the row of the execution. -/
inductive Move : Stage → Option ExecutionStatus → Stage → Option ExecutionStatus → Prop
  | insert (row : Option ExecutionStatus) : Move .absent row .inserted (some .new)
  | abandon (row : Option ExecutionStatus) : Move .inserted row .abandoned row
  | fail (row : Option ExecutionStatus) : Move .inserted row .abandoned (some .error)
  | addJob (row : Option ExecutionStatus) : Move .inserted row .waiting row
  | take (row : Option ExecutionStatus) : Move .waiting row .active row
  | skip : Move .active (some .crashed) .finished (some .crashed)
  | find {row : Option ExecutionStatus} : row ≠ some .crashed → Move .active row .found row
  | setRunning (row : Option ExecutionStatus) : Move .found row .running (some .running)
  | write (row : Option ExecutionStatus) {status : ExecutionStatus} :
      status ≠ .crashed → Move .running row .finished (some status)
  | complete (row : Option ExecutionStatus) : Move .finished row .gone row

/-- A step of the creator or the worker of one execution. -/
structure Moved (s : QueueMode) (e : Event) (s' : QueueMode) (executionId : ℕ) (stage' : Stage)
    (row' : Option ExecutionStatus) : Prop where
  move : Move (s.stage executionId) (s.status executionId) stage' row'
  stage : s'.stage = Function.update s.stage executionId stage'
  status : s'.status = Function.update s.status executionId row'
  addJob : stage' = .waiting → e = .addJob executionId
  succeeded : ∀ id ∈ s'.succeeded, id ∈ s.succeeded ∨ id = executionId ∧ stage' = .finished

/-- A step of the recovery, which updates rows only when it marks them. -/
structure Recovered (s : QueueMode) (e : Event) (s' : QueueMode) : Prop where
  stage : s'.stage = s.stage
  succeeded : s'.succeeded = s.succeeded
  status : s'.status = s.status ∧ (∀ storedIds queuedIds, e ≠ .markAsCrashed storedIds queuedIds) ∨
    ∃ storedIds queuedIds, e = .markAsCrashed storedIds queuedIds ∧
      s'.status = (s.markAsCrashed (danglingIds storedIds queuedIds)).status

section Steps
variable {batchSize waitMs s} {s' : QueueMode} {e : Event} {executionId : ℕ}

theorem step_cases (hs : Step batchSize waitMs s e s') :
    (∃ executionId stage row, Moved s e s' executionId stage row) ∨ Recovered s e s' := by
  obtain ⟨henabled, rfl⟩ := hs
  have hrow : ∀ executionId, Function.update s.status executionId (s.status executionId) = s.status :=
    fun executionId => Function.update_eq_self executionId s.status
  cases e with
  | insert executionId =>
    refine Or.inl ⟨executionId, .inserted, some .new, ?_, rfl, rfl, nofun, fun _ h => Or.inl h⟩
    rw [show s.stage executionId = .absent from henabled]
    exact .insert _
  | abandon executionId registered =>
    have hstage : s.stage executionId = .inserted := henabled
    cases registered with
    | true =>
      refine Or.inl ⟨executionId, .abandoned, some .error, ?_, rfl, rfl, nofun, fun _ h => Or.inl h⟩
      rw [hstage]
      exact .fail _
    | false =>
      refine Or.inl ⟨executionId, .abandoned, s.status executionId, ?_, rfl, (hrow _).symm, nofun,
        fun _ h => Or.inl h⟩
      rw [hstage]
      exact .abandon _
  | addJob executionId =>
    refine Or.inl ⟨executionId, .waiting, s.status executionId, ?_, rfl, (hrow _).symm,
      fun _ => rfl, fun _ h => Or.inl h⟩
    rw [show s.stage executionId = .inserted from henabled]
    exact .addJob _
  | take executionId =>
    refine Or.inl ⟨executionId, .active, s.status executionId, ?_, rfl, (hrow _).symm, nofun,
      fun _ h => Or.inl h⟩
    rw [show s.stage executionId = .waiting from henabled]
    exact .take _
  | readRow executionId =>
    have hstage : s.stage executionId = .active := henabled
    by_cases hcrashed : s.status executionId = some .crashed
    · refine Or.inl ⟨executionId, .finished, s.status executionId, ?_, ?_, (hrow _).symm, nofun,
        fun _ h => Or.inl h⟩
      · rw [hstage, hcrashed]
        exact .skip
      · simp only [next, readRow, if_pos hcrashed, toStage]
    · refine Or.inl ⟨executionId, .found, s.status executionId, ?_, ?_, (hrow _).symm, nofun,
        fun _ h => Or.inl h⟩
      · rw [hstage]
        exact .find hcrashed
      · simp only [next, readRow, if_neg hcrashed, toStage]
  | setRunning executionId =>
    refine Or.inl ⟨executionId, .running, some .running, ?_, rfl, rfl, nofun, fun _ h => Or.inl h⟩
    rw [show s.stage executionId = .found from henabled]
    exact .setRunning _
  | write executionId status =>
    refine Or.inl ⟨executionId, .finished, some status, ?_, rfl, rfl, nofun, ?_⟩
    · rw [henabled.1]
      exact .write _ henabled.2
    · intro id hid
      simp only [next] at hid
      split_ifs at hid
      · exact (List.mem_append.mp hid).imp_right fun h => ⟨List.mem_singleton.mp h, rfl⟩
      · exact Or.inl hid
  | complete executionId =>
    refine Or.inl ⟨executionId, .gone, s.status executionId, ?_, rfl, (hrow _).symm, nofun,
      fun _ h => Or.inl h⟩
    rw [show s.stage executionId = .finished from henabled]
    exact .complete _
  | readStored storedIds => exact Or.inr ⟨rfl, rfl, Or.inl ⟨rfl, nofun⟩⟩
  | readQueue storedIds => exact Or.inr ⟨rfl, rfl, Or.inl ⟨rfl, nofun⟩⟩
  | markAsCrashed storedIds queuedIds =>
    exact Or.inr ⟨rfl, rfl, Or.inr ⟨storedIds, queuedIds, rfl, rfl⟩⟩

/-- What holds of all executions is kept when it is kept of the one that a step is about. -/
theorem Moved.forall {P : Stage → Option ExecutionStatus → Prop} {stage : Stage}
    {row : Option ExecutionStatus} (hm : Moved s e s' executionId stage row)
    (h : ∀ id, P (s.stage id) (s.status id)) (hnew : P stage row) (id : ℕ) :
    P (s'.stage id) (s'.status id) := by
  rw [hm.stage, hm.status]
  by_cases hid : id = executionId
  · rw [hid, Function.update_self, Function.update_self]
    exact hnew
  · rw [Function.update_of_ne hid, Function.update_of_ne hid]
    exact h id

theorem Move.jobAdded {stage stage' : Stage} {row row' : Option ExecutionStatus}
    (hm : Move stage row stage' row') (hadded : stage.jobAdded = true) : stage'.jobAdded = true := by
  cases hm <;> first | rfl | cases hadded

theorem Move.isSome {stage stage' : Stage} {row row' : Option ExecutionStatus}
    (hm : Move stage row stage' row') (hrow : stage ≠ .absent → row.isSome = true) :
    row'.isSome = true := by
  cases hm with
  | insert | fail | setRunning | write | skip => rfl
  | abandon | addJob | take | find | complete => exact hrow nofun

theorem markAsCrashed_isSome (executionIds : List ℕ) (executionId : ℕ) :
    ((s.markAsCrashed executionIds).status executionId).isSome =
      (s.status executionId).isSome := by
  simp only [markAsCrashed]
  split_ifs with h
  · exact h.2.symm
  · rfl

theorem Stored.step (h : s.Stored) (hs : Step batchSize waitMs s e s') : s'.Stored := by
  rcases step_cases hs with ⟨executionId, stage, row, hm⟩ | hr
  · refine ⟨?_, ?_⟩
    · exact hm.forall (P := fun stage row => stage ≠ .absent → row.isSome = true) h.rows
        fun _ => hm.move.isSome (h.rows executionId)
    · intro id hid
      rw [hm.stage]
      by_cases hsame : id = executionId
      · rw [hsame, Function.update_self]
        rcases hm.succeeded id hid with hbefore | ⟨_, hfinished⟩
        · exact hm.move.jobAdded (hsame ▸ h.succeeded id hbefore)
        · rw [hfinished]
          rfl
      · rw [Function.update_of_ne hsame]
        exact h.succeeded id ((hm.succeeded id hid).resolve_right fun hnew => hsame hnew.1)
  · refine ⟨?_, ?_⟩
    · intro executionId hstage
      rw [hr.stage] at hstage
      have hbefore := h.rows executionId hstage
      rcases hr.status with ⟨hstatus, _⟩ | ⟨storedIds, queuedIds, _, hstatus⟩
      · rw [hstatus]
        exact hbefore
      · rw [hstatus, markAsCrashed_isSome]
        exact hbefore
    · rw [hr.succeeded, hr.stage]
      exact h.succeeded

/-- A doomed execution stays doomed: a worker that finds it crashed does not run it. -/
theorem Doomed.step (h : s.Doomed executionId) (hs : Step batchSize waitMs s e s') :
    s'.Doomed executionId := by
  obtain ⟨hadded, hwrite, hcrashed⟩ := h
  rcases step_cases hs with ⟨id, stage', row', hm⟩ | hr
  · by_cases hsame : executionId = id
    · subst hsame
      have hmove := hm.move
      rw [Doomed, hm.stage, hm.status, Function.update_self, Function.update_self]
      rw [hcrashed] at hmove
      generalize s.stage executionId = stage at hadded hwrite hmove
      cases hmove with
      | insert | abandon | fail | addJob => cases hadded
      | setRunning | write => cases hwrite
      | find hrow => exact absurd rfl hrow
      | take | skip | complete => exact ⟨rfl, rfl, rfl⟩
    · rw [Doomed, hm.stage, hm.status, Function.update_of_ne hsame, Function.update_of_ne hsame]
      exact ⟨hadded, hwrite, hcrashed⟩
  · rw [Doomed, hr.stage]
    refine ⟨hadded, hwrite, ?_⟩
    rcases hr.status with ⟨hstatus, _⟩ | ⟨storedIds, queuedIds, _, hstatus⟩
    · rw [hstatus]
      exact hcrashed
    · rw [hstatus, markAsCrashed]
      dsimp only
      split_ifs
      · rfl
      · exact hcrashed

theorem mem_danglingIds {storedIds queuedIds : List ℕ} :
    executionId ∈ danglingIds storedIds queuedIds ↔
      executionId ∈ storedIds ∧ executionId ∉ queuedIds := by
  rw [danglingIds, List.mem_filter, decide_eq_true_eq]

/-- Nobody is doomed by a step of a creator or a worker that meets the condition. -/
theorem Move.not_doomed {stage stage' : Stage} {row row' : Option ExecutionStatus}
    (hm : Move stage row stage' row')
    (h : ¬ (stage.jobAdded = true ∧ stage.willWrite = false ∧ row = some .crashed))
    (hadd : stage' = .waiting → row ≠ some .crashed) :
    ¬ (stage'.jobAdded = true ∧ stage'.willWrite = false ∧ row' = some .crashed) := by
  rintro ⟨hadded, hwrite, hcrashed⟩
  cases hm with
  | insert | abandon | fail => cases hadded
  | addJob => exact hadd rfl hcrashed
  | take | complete => exact h ⟨rfl, rfl, hcrashed⟩
  | skip => exact h ⟨rfl, rfl, rfl⟩
  | find | setRunning => cases hwrite
  | write row hstatus => exact hstatus (Option.some.inj hcrashed)

theorem NoneDoomed.step (h : s.NoneDoomed) (hlost : s.MarksLost e)
    (hs : Step batchSize waitMs s e s') : s'.NoneDoomed := by
  rcases step_cases hs with ⟨executionId, stage', row', hm⟩ | hr
  · refine hm.forall (P := fun stage row =>
      ¬ (stage.jobAdded = true ∧ stage.willWrite = false ∧ row = some .crashed)) h ?_
    refine hm.move.not_doomed (h executionId) fun hwaiting => ?_
    rw [hm.addJob hwaiting] at hlost
    exact hlost
  · rintro executionId ⟨hadded, hwrite, hcrashed⟩
    rw [hr.stage] at hadded hwrite
    rcases hr.status with ⟨hstatus, _⟩ | ⟨storedIds, queuedIds, rfl, hstatus⟩
    · rw [hstatus] at hcrashed
      exact h executionId ⟨hadded, hwrite, hcrashed⟩
    · rw [hstatus, markAsCrashed] at hcrashed
      dsimp only at hcrashed
      split_ifs at hcrashed with hmarked
      · obtain ⟨hstored, hqueued⟩ := mem_danglingIds.mp hmarked.1
        rw [hlost executionId hstored hqueued hadded] at hwrite
        cases hwrite
      · exact h executionId ⟨hadded, hwrite, hcrashed⟩

/-- A step that misses the condition dooms an execution. -/
theorem Stored.doomed_of_not_marksLost (h : s.Stored) (hlost : ¬ s.MarksLost e)
    (hs : Step batchSize waitMs s e s') : ∃ executionId, s'.Doomed executionId := by
  obtain ⟨henabled, rfl⟩ := hs
  cases e with
  | addJob executionId =>
    refine ⟨executionId, ?_, ?_, not_not.mp hlost⟩
    · simp only [next, toStage, Function.update_self]
      rfl
    · simp only [next, toStage, Function.update_self]
      rfl
  | markAsCrashed storedIds queuedIds =>
    simp only [MarksLost, not_forall] at hlost
    obtain ⟨executionId, hstored, hqueued, hadded, hwrite⟩ := hlost
    refine ⟨executionId, hadded, Bool.eq_false_iff.mpr hwrite, ?_⟩
    have hmem := mem_danglingIds.mpr ⟨hstored, hqueued⟩
    have habsent : s.stage executionId ≠ .absent := by
      intro habsent
      rw [habsent] at hadded
      cases hadded
    exact if_pos ⟨hmem, h.rows executionId habsent⟩
  | _ => exact absurd trivial hlost

structure Sound (s : QueueMode) : Prop where
  stored : s.Stored
  noneDoomed : s.NoneDoomed

theorem Sound.step (h : s.Sound) (hlost : s.MarksLost e) (hs : Step batchSize waitMs s e s') :
    s'.Sound :=
  ⟨h.stored.step hs, h.noneDoomed.step hlost hs⟩

/-- Every execution that was ever created has come to its end. -/
def Complete (s : QueueMode) : Prop :=
  ∀ executionId, s.stage executionId ≠ .absent → (s.stage executionId).ended = true

theorem Sound.onlyLost (h : s.Sound) : s.OnlyLost := by
  intro executionId hended hjob hcrashed
  have hadded : (s.stage executionId).jobAdded = true :=
    hjob.elim (h.stored.succeeded executionId) id
  refine h.noneDoomed executionId ⟨hadded, ?_, hcrashed⟩
  cases hstage : s.stage executionId with
  | abandoned | gone => rfl
  | _ =>
    rw [hstage] at hended
    cases hended

theorem Doomed.not_onlyLost (h : s.Doomed executionId) (hcomplete : s.Complete) : ¬ s.OnlyLost := by
  obtain ⟨hadded, _, hcrashed⟩ := h
  intro honly
  refine honly executionId (hcomplete executionId ?_) (Or.inr hadded) hcrashed
  intro habsent
  rw [habsent] at hadded
  cases hadded

end Steps

section Runs
variable {batchSize waitMs : ℕ} {s : QueueMode} {tr : List (Event × QueueMode)}

theorem Doomed.final {executionId : ℕ} (h : s.Doomed executionId)
    (hr : Run (Step batchSize waitMs) s tr) : (finalState s tr).Doomed executionId := by
  induction hr with
  | nil s => exact h
  | cons hs _ ih => exact ih (h.step hs)

theorem Stored.doomed_of_not_everyStep (h : s.Stored) (hr : Run (Step batchSize waitMs) s tr)
    (hlost : ¬ EveryStep MarksLost s tr) : ∃ executionId, (finalState s tr).Doomed executionId := by
  induction hr with
  | nil s => exact absurd trivial hlost
  | @cons s s' e tr hs hr ih =>
    by_cases hstep : s.MarksLost e
    · exact ih (h.step hs) fun hrest => hlost ⟨hstep, hrest⟩
    · obtain ⟨executionId, hdoomed⟩ := h.doomed_of_not_marksLost hstep hs
      exact ⟨executionId, hdoomed.final hr⟩

theorem stored_initial : initial.Stored := ⟨fun _ h => absurd rfl h, nofun⟩

/-- Runs that meet the condition crash lost executions only, and a complete run that does so
has met it. -/
theorem onlyLost_iff_marksLost (hr : Run (Step batchSize waitMs) initial tr) :
    (EveryStep MarksLost initial tr → Always OnlyLost initial tr) ∧
    (Complete (finalState initial tr) →
      (OnlyLost (finalState initial tr) ↔ EveryStep MarksLost initial tr)) := by
  have hinitial : initial.Sound := by
    refine ⟨stored_initial, ?_⟩
    rintro executionId ⟨hadded, _⟩
    cases hadded
  have halways : EveryStep MarksLost initial tr → Always OnlyLost initial tr := fun hlost =>
    (hr.always hinitial (fun _ _ _ h hc hs => h.step hc hs) hlost).mono fun _ h => h.onlyLost
  refine ⟨halways, fun hcomplete => ⟨fun honly => ?_, fun hlost => (halways hlost).final⟩⟩
  by_contra hlost
  obtain ⟨executionId, hdoomed⟩ := stored_initial.doomed_of_not_everyStep hr hlost
  exact hdoomed.not_onlyLost hcomplete honly

end Runs

section Example

/-- Execution `1` succeeds between the two reads of the recovery, while `2` waits. -/
def succeedsMeanwhile : List Event :=
  [.insert 1, .addJob 1, .insert 2, .addJob 2, .take 1, .readRow 1, .setRunning 1,
    .readStored [1, 2], .write 1 .success, .complete 1, .readQueue [1, 2],
    .markAsCrashed [1, 2] [2]]

theorem succeedsMeanwhile_not_onlyLost :
    Run (Step 2 10) initial (trace (next 2 10) initial succeedsMeanwhile) ∧
    ¬ Always OnlyLost initial (trace (next 2 10) initial succeedsMeanwhile) := by
  constructor
  · refine .cons ⟨rfl, rfl⟩ (.cons ⟨rfl, rfl⟩ (.cons ⟨rfl, rfl⟩ (.cons ⟨rfl, rfl⟩
      (.cons ⟨rfl, rfl⟩ (.cons ⟨rfl, rfl⟩ (.cons ⟨rfl, rfl⟩ (.cons ⟨?_, rfl⟩
      (.cons ⟨⟨rfl, nofun⟩, rfl⟩ (.cons ⟨rfl, rfl⟩ (.cons ⟨rfl, rfl⟩ (.cons ⟨rfl, rfl⟩
      (.nil _))))))))))))
    exact ⟨rfl, by decide, Nat.le_refl 2, by decide, fun h => absurd h (Nat.lt_irrefl 2)⟩
  · exact fun h => h.final 1 rfl (Or.inr rfl) rfl

/-- The creator of `2` fails, and the recovery looks while the job of `1` waits. -/
def lostBeforeJob : List Event :=
  [.insert 1, .addJob 1, .insert 2, .abandon 2 false, .readStored [1, 2], .readQueue [1, 2],
    .markAsCrashed [1, 2] [1], .take 1, .readRow 1, .setRunning 1, .write 1 .success, .complete 1]

theorem lostBeforeJob_onlyLost :
    Always OnlyLost initial (trace (next 2 10) initial lostBeforeJob) := by
  have hrun : Run (Step 2 10) initial (trace (next 2 10) initial lostBeforeJob) := by
    refine .cons ⟨rfl, rfl⟩ (.cons ⟨rfl, rfl⟩ (.cons ⟨rfl, rfl⟩ (.cons ⟨rfl, rfl⟩
      (.cons ⟨?_, rfl⟩ (.cons ⟨rfl, rfl⟩ (.cons ⟨rfl, rfl⟩ (.cons ⟨rfl, rfl⟩ (.cons ⟨rfl, rfl⟩
      (.cons ⟨rfl, rfl⟩ (.cons ⟨⟨rfl, nofun⟩, rfl⟩ (.cons ⟨rfl, rfl⟩ (.nil _))))))))))))
    exact ⟨rfl, by decide, Nat.le_refl 2, by decide, fun h => absurd h (Nat.lt_irrefl 2)⟩
  refine (onlyLost_iff_marksLost hrun).1 ⟨trivial, nofun, trivial, trivial, trivial, trivial, ?_,
    trivial, trivial, trivial, trivial, trivial, trivial⟩
  unfold MarksLost
  decide

end Example

end QueueMode
end N8n.Scaling
