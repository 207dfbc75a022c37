import Mathlib.Algebra.GroupWithZero.Nat
import Mathlib.Algebra.BigOperators.Group.List.Basic
import Mathlib.Algebra.Order.Ring.Rat
import N8n.Concurrency.ActiveExecutions
import N8n.Foundations.OrderedSet

/-!
# The buffer of insights

The service collects the insights of finished workflows in a buffer and writes them to the
database in batches. A call of `saveInsightsMetadataAndRaw` ends in one step, which inserts
all events of its set or none of them. Whatever else happens comes between two awaits.
-/

namespace N8n.Insights
open N8n.Runs
open N8n.Concurrency (ExecutionStatus WorkflowExecuteMode)

def shouldSkipStatus : ExecutionStatus → Bool
  | .success | .crashed | .error => false
  | .canceled | .new | .running | .unknown | .waiting => true

def shouldSkipMode : WorkflowExecuteMode → Bool
  | .cli | .error | .retry | .trigger | .webhook | .evaluation => false
  -- sub workflows, error workflows
  | .integrated | .internal => true
  | .manual => true

inductive InsightType where
  | success
  | failure
  | runtime_ms
  | time_saved_min
  deriving DecidableEq, Repr

/-- An object of the heap: two events with the same data are still two. -/
structure BufferedInsight where
  object : ℕ
  workflowId : String
  workflowName : String
  timestamp : ℤ
  type : InsightType
  value : ℚ
  deriving DecidableEq, Repr

structure WorkflowExecuteAfterContext where
  status : ExecutionStatus
  mode : WorkflowExecuteMode
  startedAt : ℤ
  stoppedAt : Option ℤ
  workflowId : String
  workflowName : String
  timeSavedPerExecution : Option ℚ
  deriving DecidableEq, Repr

namespace WorkflowExecuteAfterContext
variable (ctx : WorkflowExecuteAfterContext)

def skipped : Bool := shouldSkipStatus ctx.status || shouldSkipMode ctx.mode

/-- The types and values of the events that a workflow gives rise to. -/
def measured : List (InsightType × ℚ) :=
  let status : InsightType := if ctx.status = .success then .success else .failure
  [(status, 1)] ++
    (match ctx.stoppedAt with
      | some stoppedAt => [(.runtime_ms, ((stoppedAt - ctx.startedAt : ℤ) : ℚ))]
      | none => []) ++
    (match ctx.timeSavedPerExecution with
      -- `0` is not truthy
      | some minutes => if status = .success ∧ minutes ≠ 0 then [(.time_saved_min, minutes)] else []
      | none => [])

/-- The events, as new objects from `object` on. -/
def insights (timestamp : ℤ) (object : ℕ) : List BufferedInsight :=
  (ctx.measured.zipIdx object).map fun ((type, value), object) =>
    { object, workflowId := ctx.workflowId, workflowName := ctx.workflowName, timestamp, type, value }

end WorkflowExecuteAfterContext

/-- A call of `flushEvents` that waits for its save, with `bufferedInsightsToFlush`. -/
structure Flush where
  promise : ℕ
  bufferedInsightsToFlush : OrderedSet BufferedInsight
  deriving DecidableEq

structure InsightsCollectionService where
  bufferedInsights : OrderedSet BufferedInsight
  flushInsightsRawBufferTimer : Option ℕ
  isAsynchronouslySavingInsights : Bool
  flushesInProgress : List Flush
  /-- Calls of `handleWorkflowExecuteAfter` that wait for a flush, or for a call of
  `flushEvents` that had nothing to flush. -/
  handlers : List (Option ℕ)
  /-- The timers that are set and have not fired. -/
  timers : List ℕ
  database : List BufferedInsight
  /-- Every event that was added to the buffer as a new one. -/
  added : List BufferedInsight
  objects : ℕ
  timersSet : ℕ
  promises : ℕ
  deriving DecidableEq

namespace InsightsCollectionService
variable (flushBatchSize : ℕ) (s : InsightsCollectionService)

def initial : InsightsCollectionService :=
  { bufferedInsights := .empty
    flushInsightsRawBufferTimer := none
    isAsynchronouslySavingInsights := true
    flushesInProgress := []
    handlers := []
    timers := []
    database := []
    added := []
    objects := 0
    timersSet := 0
    promises := 0 }

def cancelScheduledFlushing : InsightsCollectionService :=
  match s.flushInsightsRawBufferTimer with
  | none => s
  | some timer => { s with timers := s.timers.erase timer, flushInsightsRawBufferTimer := none }

def scheduleFlushing : InsightsCollectionService :=
  let s := s.cancelScheduledFlushing
  { s with
    timers := s.timers ++ [s.timersSet]
    flushInsightsRawBufferTimer := some s.timersSet
    timersSet := s.timersSet + 1 }

/-- `flushEvents` up to its await. -/
def flushEvents : InsightsCollectionService :=
  if s.bufferedInsights.size = 0 then s.scheduleFlushing
  else
    let s := s.cancelScheduledFlushing
    { s with
      bufferedInsights := .empty
      flushesInProgress := s.flushesInProgress ++ [⟨s.promises, s.bufferedInsights⟩]
      promises := s.promises + 1 }

/-- What a caller of `flushEvents` waits for. -/
def flushPromise : Option ℕ := if s.bufferedInsights.size = 0 then none else some s.promises

/-- The save of a flush has inserted its events. -/
def saved (flush : Flush) : InsightsCollectionService :=
  let s := { s with database := s.database ++ flush.bufferedInsightsToFlush.elems }.scheduleFlushing
  { s with flushesInProgress := s.flushesInProgress.erase flush }

/-- The save of a flush has failed. -/
def saveFailed (flush : Flush) : InsightsCollectionService :=
  let s := { s with
    bufferedInsights := s.bufferedInsights.insertAll flush.bufferedInsightsToFlush.elems
    }.scheduleFlushing
  { s with flushesInProgress := s.flushesInProgress.erase flush }

/-- The end of `handleWorkflowExecuteAfter`: a full buffer is flushed. -/
def flushIfFull : InsightsCollectionService :=
  if s.bufferedInsights.size ≥ flushBatchSize then s.flushEvents else s

def add (insights : List BufferedInsight) : InsightsCollectionService :=
  { s with
    bufferedInsights := s.bufferedInsights.insertAll insights
    added := s.added ++ insights
    objects := s.objects + insights.length }

def handleWorkflowExecuteAfter (timestamp : ℤ) (ctx : WorkflowExecuteAfterContext) :
    InsightsCollectionService :=
  if ctx.skipped then s
  else
    let s := s.add (ctx.insights timestamp s.objects)
    if s.isAsynchronouslySavingInsights then s.flushIfFull flushBatchSize
    else { s.flushEvents with handlers := s.flushEvents.handlers ++ [s.flushPromise] }

/-- A call of `handleWorkflowExecuteAfter` goes on after the flush it has waited for. -/
def resume (handler : Option ℕ) : InsightsCollectionService :=
  { s with handlers := s.handlers.erase handler }.flushIfFull flushBatchSize

def startFlushingTimer : InsightsCollectionService :=
  { s with isAsynchronouslySavingInsights := true }.scheduleFlushing

def shutdown : InsightsCollectionService :=
  { s.cancelScheduledFlushing with isAsynchronouslySavingInsights := false }.flushEvents

inductive Event where
  | handleWorkflowExecuteAfter (timestamp : ℤ) (ctx : WorkflowExecuteAfterContext)
  | resume (handler : Option ℕ)
  | timer (timer : ℕ)
  | saved (flush : Flush)
  | saveFailed (flush : Flush)
  | startFlushingTimer
  | stopFlushingTimer
  | shutdown

def Enabled : Event → Prop
  | .resume handler => handler ∈ s.handlers ∧ ∀ f ∈ s.flushesInProgress, handler ≠ some f.promise
  | .timer timer => timer ∈ s.timers
  | .saved flush | .saveFailed flush => flush ∈ s.flushesInProgress
  | _ => True

def next : Event → InsightsCollectionService
  | .handleWorkflowExecuteAfter timestamp ctx =>
    s.handleWorkflowExecuteAfter flushBatchSize timestamp ctx
  | .resume handler => s.resume flushBatchSize handler
  | .timer timer => { s with timers := s.timers.erase timer }.flushEvents
  | .saved flush => s.saved flush
  | .saveFailed flush => s.saveFailed flush
  | .startFlushingTimer => s.startFlushingTimer
  | .stopFlushingTimer => s.cancelScheduledFlushing
  | .shutdown => s.shutdown

def Step (s : InsightsCollectionService) (e : Event) (s' : InsightsCollectionService) : Prop :=
  s.Enabled e ∧ s' = s.next flushBatchSize e

/-! ### Where the events are -/

/-- The places an event can be in: the database, the buffer, the sets of the flushes. -/
def places : List BufferedInsight :=
  s.database ++ s.bufferedInsights.elems ++
    s.flushesInProgress.flatMap (·.bufferedInsightsToFlush.elems)

/-- An event is in one of the places only, and there once. -/
def InOnePlace (insight : BufferedInsight) : Prop :=
  s.database.count insight + s.bufferedInsights.elems.count insight +
    (s.flushesInProgress.map (·.bufferedInsightsToFlush.elems.count insight)).sum = 1

structure Conserved : Prop where
  places : s.places.Perm s.added
  nodup : s.added.Nodup
  objects : ∀ insight ∈ s.added, insight.object < s.objects

section Conserved
variable {flushBatchSize s} {s' : InsightsCollectionService}

theorem Conserved.inOnePlace (h : s.Conserved) {insight : BufferedInsight}
    (hadded : insight ∈ s.added) : s.InOnePlace insight := by
  have hcount : s.places.count insight = 1 := by
    rw [h.places.count_eq, List.count_eq_one_of_mem h.nodup hadded]
  rw [InsightsCollectionService.places, List.count_append, List.count_append,
    List.count_flatMap] at hcount
  exact hcount

/-- Steps that move events around, or nothing at all. -/
structure Moves (s s' : InsightsCollectionService) : Prop where
  places : s'.places.Perm s.places
  added : s'.added = s.added
  objects : s'.objects = s.objects

theorem Moves.trans {s₁ s₂ s₃ : InsightsCollectionService} (h : Moves s₁ s₂) (h' : Moves s₂ s₃) :
    Moves s₁ s₃ :=
  ⟨h'.places.trans h.places, h'.added.trans h.added, h'.objects.trans h.objects⟩

theorem Conserved.moves (h : s.Conserved) (hm : Moves s s') : s'.Conserved := by
  refine ⟨?_, ?_, ?_⟩
  · rw [hm.added]
    exact hm.places.trans h.places
  · rw [hm.added]
    exact h.nodup
  · rw [hm.added, hm.objects]
    exact h.objects

/-- The timer is a matter of its own. -/
theorem cancelScheduledFlushing_frame (s : InsightsCollectionService) : ∃ timer timers,
    s.cancelScheduledFlushing =
      { s with flushInsightsRawBufferTimer := timer, timers := timers } := by
  unfold cancelScheduledFlushing
  split <;> exact ⟨_, _, rfl⟩

theorem scheduleFlushing_frame (s : InsightsCollectionService) : ∃ timer timers timersSet,
    s.scheduleFlushing = { s with
      flushInsightsRawBufferTimer := timer, timers := timers, timersSet := timersSet } := by
  obtain ⟨timer, timers, h⟩ := cancelScheduledFlushing_frame s
  refine ⟨some s.timersSet, timers ++ [s.timersSet], s.timersSet + 1, ?_⟩
  rw [scheduleFlushing, h]

theorem moves_cancelScheduledFlushing (s : InsightsCollectionService) :
    Moves s s.cancelScheduledFlushing := by
  obtain ⟨timer, timers, h⟩ := cancelScheduledFlushing_frame s
  rw [h]
  exact ⟨List.Perm.refl _, rfl, rfl⟩

theorem moves_scheduleFlushing (s : InsightsCollectionService) : Moves s s.scheduleFlushing := by
  obtain ⟨timer, timers, timersSet, h⟩ := scheduleFlushing_frame s
  rw [h]
  exact ⟨List.Perm.refl _, rfl, rfl⟩

/-- The buffer becomes the set of a new flush. -/
theorem moves_flushEvents (s : InsightsCollectionService) : Moves s s.flushEvents := by
  unfold flushEvents
  split
  · exact moves_scheduleFlushing s
  · refine (moves_cancelScheduledFlushing s).trans ⟨?_, rfl, rfl⟩
    simp only [InsightsCollectionService.places, OrderedSet.empty, List.append_nil,
      List.flatMap_append, List.flatMap_cons, List.flatMap_nil, List.append_assoc]
    exact List.perm_append_comm.append_left _

theorem moves_flushIfFull (s : InsightsCollectionService) :
    Moves s (s.flushIfFull flushBatchSize) := by
  unfold flushIfFull
  split
  · exact moves_flushEvents s
  · exact ⟨List.Perm.refl _, rfl, rfl⟩

/-- The set of a flush in progress, taken out of the others. -/
theorem flatMap_erase {flushes : List Flush} {flush : Flush} (h : flush ∈ flushes) :
    (flushes.flatMap (·.bufferedInsightsToFlush.elems)).Perm (flush.bufferedInsightsToFlush.elems ++
      (flushes.erase flush).flatMap (·.bufferedInsightsToFlush.elems)) :=
  (List.perm_cons_erase h).flatMap_right _

theorem moves_saved {flush : Flush} (h : flush ∈ s.flushesInProgress) :
    Moves s (s.saved flush) := by
  obtain ⟨timer, timers, timersSet, hschedule⟩ := scheduleFlushing_frame
    { s with database := s.database ++ flush.bufferedInsightsToFlush.elems }
  rw [saved, hschedule]
  refine ⟨?_, rfl, rfl⟩
  simp only [InsightsCollectionService.places, List.append_assoc]
  refine List.Perm.append_left _ ?_
  rw [← List.append_assoc]
  refine (List.perm_append_comm.append_right _).trans ?_
  rw [List.append_assoc]
  exact (flatMap_erase h).symm.append_left _

theorem Conserved.not_buffered (h : s.Conserved) {flush : Flush}
    (hflush : flush ∈ s.flushesInProgress) {insight : BufferedInsight}
    (hmem : insight ∈ flush.bufferedInsightsToFlush.elems) : insight ∉ s.bufferedInsights := by
  intro hbuffered
  have hnodup : s.places.Nodup := h.places.nodup_iff.mpr h.nodup
  have hdisjoint := (List.nodup_append.mp hnodup).2.2
  exact hdisjoint insight (List.mem_append_right _ hbuffered) insight
    (List.mem_flatMap.mpr ⟨flush, hflush, hmem⟩) rfl

/-- The events of a flush that has failed are not in the buffer, so each is put back. -/
theorem Conserved.moves_saveFailed (h : s.Conserved) {flush : Flush}
    (hflush : flush ∈ s.flushesInProgress) : Moves s (s.saveFailed flush) := by
  obtain ⟨timer, timers, timersSet, hschedule⟩ := scheduleFlushing_frame
    { s with
      bufferedInsights := s.bufferedInsights.insertAll flush.bufferedInsightsToFlush.elems }
  have helems := OrderedSet.elems_insertAll flush.bufferedInsightsToFlush.nodup
    (fun _ => h.not_buffered hflush)
  rw [saveFailed, hschedule]
  refine ⟨?_, rfl, rfl⟩
  simp only [InsightsCollectionService.places, helems, List.append_assoc]
  exact ((flatMap_erase hflush).symm.append_left _).append_left _

/-- The objects of new events, which no earlier event has. -/
theorem map_object_insights (timestamp : ℤ) (ctx : WorkflowExecuteAfterContext) (object : ℕ) :
    (ctx.insights timestamp object).map (·.object) = List.range' object ctx.measured.length := by
  rw [WorkflowExecuteAfterContext.insights, List.map_map]
  exact List.zipIdx_map_snd _ _

theorem Conserved.add (h : s.Conserved) (timestamp : ℤ) (ctx : WorkflowExecuteAfterContext) :
    (s.add (ctx.insights timestamp s.objects)).Conserved := by
  have hmap := map_object_insights timestamp ctx s.objects
  have hlength : (ctx.insights timestamp s.objects).length = ctx.measured.length := by
    rw [WorkflowExecuteAfterContext.insights, List.length_map, List.length_zipIdx]
  have hnodup : (ctx.insights timestamp s.objects).Nodup := by
    refine List.Nodup.of_map (·.object) ?_
    rw [hmap]
    exact List.nodup_range'
  have hobject : ∀ insight ∈ ctx.insights timestamp s.objects, s.objects ≤ insight.object ∧
      insight.object < s.objects + (ctx.insights timestamp s.objects).length := by
    intro insight hmem
    have hrange := List.mem_map_of_mem (f := (·.object)) hmem
    rw [hmap, List.mem_range'_1] at hrange
    rw [hlength]
    exact hrange
  have hnew : ∀ insight ∈ ctx.insights timestamp s.objects, insight ∉ s.added := by
    intro insight hmem hadded
    have := (hobject insight hmem).1
    have := h.objects insight hadded
    omega
  have hbuffer : ∀ insight ∈ ctx.insights timestamp s.objects, insight ∉ s.bufferedInsights := by
    intro insight hmem hbuffered
    refine hnew insight hmem (h.places.mem_iff.mp ?_)
    exact List.mem_append_left _ (List.mem_append_right _ hbuffered)
  refine ⟨?_, ?_, ?_⟩
  · have helems := OrderedSet.elems_insertAll hnodup hbuffer
    simp only [InsightsCollectionService.places, InsightsCollectionService.add, helems]
    have hplaces := h.places.append_right (ctx.insights timestamp s.objects)
    refine List.Perm.trans ?_ hplaces
    simp only [InsightsCollectionService.places, List.append_assoc]
    exact (List.perm_append_comm.append_left _).append_left _
  · refine List.nodup_append.mpr ⟨h.nodup, hnodup, ?_⟩
    rintro insight hadded _ hmem rfl
    exact hnew insight hmem hadded
  · intro insight hmem
    rcases List.mem_append.mp hmem with hadded | hmem
    · exact Nat.lt_add_right _ (h.objects insight hadded)
    · exact (hobject insight hmem).2

theorem Conserved.handleWorkflowExecuteAfter (h : s.Conserved) (timestamp : ℤ)
    (ctx : WorkflowExecuteAfterContext) :
    (s.handleWorkflowExecuteAfter flushBatchSize timestamp ctx).Conserved := by
  rw [InsightsCollectionService.handleWorkflowExecuteAfter]
  split
  · exact h
  · have hadd := h.add timestamp ctx
    dsimp only
    split
    · exact hadd.moves (moves_flushIfFull _)
    · exact (hadd.moves (moves_flushEvents _)).moves ⟨List.Perm.refl _, rfl, rfl⟩

theorem Conserved.step {e : Event} (h : s.Conserved) (hs : Step flushBatchSize s e s') :
    s'.Conserved := by
  obtain ⟨henabled, rfl⟩ := hs
  cases e with
  | handleWorkflowExecuteAfter timestamp ctx => exact h.handleWorkflowExecuteAfter timestamp ctx
  | resume handler =>
    have hmoves : Moves s { s with handlers := s.handlers.erase handler } :=
      ⟨List.Perm.refl _, rfl, rfl⟩
    exact (h.moves hmoves).moves (moves_flushIfFull _)
  | timer timer =>
    have hmoves : Moves s { s with timers := s.timers.erase timer } := ⟨List.Perm.refl _, rfl, rfl⟩
    exact (h.moves hmoves).moves (moves_flushEvents _)
  | saved flush => exact h.moves (moves_saved henabled)
  | saveFailed flush => exact h.moves (h.moves_saveFailed henabled)
  | startFlushingTimer =>
    have hmoves : Moves s { s with isAsynchronouslySavingInsights := true } :=
      ⟨List.Perm.refl _, rfl, rfl⟩
    exact (h.moves hmoves).moves (moves_scheduleFlushing _)
  | stopFlushingTimer => exact h.moves (moves_cancelScheduledFlushing s)
  | shutdown =>
    have hcancel := h.moves (moves_cancelScheduledFlushing s)
    have hmoves : Moves s.cancelScheduledFlushing
        { s.cancelScheduledFlushing with isAsynchronouslySavingInsights := false } :=
      ⟨List.Perm.refl _, rfl, rfl⟩
    exact (hcancel.moves hmoves).moves (moves_flushEvents _)

theorem conserved_initial : initial.Conserved :=
  ⟨List.Perm.refl _, List.nodup_nil, nofun⟩

/-- No event is lost, and none is there twice. -/
theorem insights_inOnePlace {tr : List (Event × InsightsCollectionService)}
    (hr : Run (Step flushBatchSize) initial tr) :
    Always (fun s => ∀ insight ∈ s.added, s.InOnePlace insight) initial tr :=
  (hr.invariant conserved_initial fun _ _ _ h hs => h.step hs).mono fun _ h _ => h.inOnePlace

end Conserved

section Example

/-- A workflow that saves time gives rise to three events, which fill a buffer of three. -/
def succeeded : WorkflowExecuteAfterContext := ⟨.success, .trigger, 10, some 15, "1", "A", some 2⟩

def crashed : WorkflowExecuteAfterContext := ⟨.crashed, .webhook, 20, none, "2", "B", none⟩

def fullBuffer : Flush := ⟨0, .ofList (succeeded.insights 100 0)⟩

/-- The save of a full buffer fails after another event has come in. -/
def failedSave : List Event :=
  [.handleWorkflowExecuteAfter 100 succeeded, .handleWorkflowExecuteAfter 101 crashed,
    .saveFailed fullBuffer]

theorem failedSave_inOnePlace :
    Run (Step 3) initial (trace (next 3) initial failedSave) ∧
    (finalState initial (trace (next 3) initial failedSave)).bufferedInsights.size = 4 ∧
    Always (fun s => ∀ insight ∈ s.added, s.InOnePlace insight) initial
      (trace (next 3) initial failedSave) := by
  have hflush : fullBuffer ∈ (finalState initial
      (trace (next 3) initial (failedSave.take 2))).flushesInProgress := by decide
  have hrun : Run (Step 3) initial (trace (next 3) initial failedSave) :=
    .cons ⟨trivial, rfl⟩ (.cons ⟨trivial, rfl⟩ (.cons ⟨hflush, rfl⟩ (.nil _)))
  exact ⟨hrun, by decide, insights_inOnePlace hrun⟩

end Example

end InsightsCollectionService
end N8n.Insights
