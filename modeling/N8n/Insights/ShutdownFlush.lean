import N8n.Foundations.ClearedFlags
import N8n.Insights.InsightsCollection

/-!
# The buffer at the end of a shutdown

A call of `shutdown` waits for the flushes in progress and for a flush of its own, all at the same
time. A flush of the former kind that fails gives its events back to the buffer, which the flush of
the shutdown has emptied before.
-/

namespace N8n.Insights.InsightsCollectionService
open N8n.Runs
variable (flushBatchSize : ℕ)

/-- No event arrives, and no save fails but those of `inProgress`. -/
def Permitted (inProgress : List Flush) : Event → Prop
  | .handleWorkflowExecuteAfter _ ctx => ctx.skipped
  | .saveFailed flush => flush ∈ inProgress
  | _ => True

def StepInShutdown (inProgress : List Flush) (s : InsightsCollectionService) (e : Event)
    (s' : InsightsCollectionService) : Prop :=
  Step flushBatchSize s e s' ∧ Permitted inProgress e

/-- A run from a call of `shutdown` in `s` up to a state in which its promise can resolve: all
flushes it waits for have come to their end, its own one among them. -/
structure ShutsDown (s : InsightsCollectionService)
    (tr : List (Event × InsightsCollectionService)) : Prop where
  run : Run (StepInShutdown flushBatchSize s.flushesInProgress) s.shutdown tr
  resolved : ∀ flush ∈ s.shutdown.flushesInProgress,
    flush ∉ (finalState s.shutdown tr).flushesInProgress

/-- The steps in which a save fails. -/
def GivesBack (_ : InsightsCollectionService) : Event → Prop
  | .saveFailed _ => True
  | _ => False

/-- The steps in which `flushEvents` is called, if no event arrives. -/
def CallsFlushEvents (s : InsightsCollectionService) : Event → Prop
  | .resume _ => flushBatchSize ≤ s.bufferedInsights.size
  | .timer _ | .shutdown => True
  | _ => False

instance (s : InsightsCollectionService) : DecidablePred (GivesBack s) := fun e => by
  cases e <;> unfold GivesBack <;> infer_instance

instance (s : InsightsCollectionService) : DecidablePred (CallsFlushEvents flushBatchSize s) :=
  fun e => by cases e <;> unfold CallsFlushEvents <;> infer_instance

/-- No flush was started for an empty buffer. -/
def FlushesNonempty (s : InsightsCollectionService) : Prop :=
  ∀ flush ∈ s.flushesInProgress, flush.bufferedInsightsToFlush.size ≠ 0

section
variable {flushBatchSize} {s s' : InsightsCollectionService}

@[simp] theorem cancelScheduledFlushing_flushesInProgress :
    s.cancelScheduledFlushing.flushesInProgress = s.flushesInProgress := by
  obtain ⟨timer, timers, h⟩ := cancelScheduledFlushing_frame s
  rw [h]

@[simp] theorem cancelScheduledFlushing_bufferedInsights :
    s.cancelScheduledFlushing.bufferedInsights = s.bufferedInsights := by
  obtain ⟨timer, timers, h⟩ := cancelScheduledFlushing_frame s
  rw [h]

@[simp] theorem scheduleFlushing_flushesInProgress :
    s.scheduleFlushing.flushesInProgress = s.flushesInProgress := by
  obtain ⟨timer, timers, timersSet, h⟩ := scheduleFlushing_frame s
  rw [h]

@[simp] theorem scheduleFlushing_bufferedInsights :
    s.scheduleFlushing.bufferedInsights = s.bufferedInsights := by
  obtain ⟨timer, timers, timersSet, h⟩ := scheduleFlushing_frame s
  rw [h]

/-- Whatever the buffer was before, a call of `flushEvents` leaves it empty. -/
theorem flushEvents_size (s : InsightsCollectionService) :
    s.flushEvents.bufferedInsights.size = 0 := by
  unfold flushEvents
  split
  next h => simpa using h
  next => rfl

theorem saveFailed_size {flush : Flush} (h : flush.bufferedInsightsToFlush.size ≠ 0) :
    (s.saveFailed flush).bufferedInsights.size ≠ 0 := by
  intro h0
  apply h
  have hempty : (s.bufferedInsights.insertAll flush.bufferedInsightsToFlush.elems).elems = [] := by
    simpa [saveFailed, OrderedSet.size] using h0
  rw [OrderedSet.size, List.length_eq_zero_iff, List.eq_nil_iff_forall_not_mem]
  intro insight hmem
  have hback : insight ∈ s.bufferedInsights.insertAll flush.bufferedInsightsToFlush.elems :=
    OrderedSet.mem_insertAll.mpr (.inr hmem)
  rw [OrderedSet.mem_def, hempty] at hback
  cases hback

/-! ### Flushes hold events -/

theorem FlushesNonempty.flushEvents (h : s.FlushesNonempty) : s.flushEvents.FlushesNonempty := by
  intro flush hflush
  unfold InsightsCollectionService.flushEvents at hflush
  split at hflush
  next =>
    rw [scheduleFlushing_flushesInProgress] at hflush
    exact h flush hflush
  next hsize =>
    simp only [cancelScheduledFlushing_flushesInProgress,
      cancelScheduledFlushing_bufferedInsights, List.mem_append, List.mem_singleton] at hflush
    rcases hflush with hflush | rfl
    · exact h flush hflush
    · exact hsize

theorem FlushesNonempty.flushIfFull (h : s.FlushesNonempty) :
    (s.flushIfFull flushBatchSize).FlushesNonempty := by
  unfold InsightsCollectionService.flushIfFull
  split
  · exact h.flushEvents
  · exact h

theorem FlushesNonempty.erase (h : s.FlushesNonempty) (flush : Flush)
    (h' : s'.flushesInProgress = s.flushesInProgress.erase flush) : s'.FlushesNonempty := by
  intro other hother
  rw [h'] at hother
  exact h other (List.mem_of_mem_erase hother)

theorem FlushesNonempty.step {e : Event} (h : s.FlushesNonempty) (hs : Step flushBatchSize s e s') :
    s'.FlushesNonempty := by
  obtain ⟨-, rfl⟩ := hs
  cases e with
  | handleWorkflowExecuteAfter timestamp ctx =>
    simp only [next, InsightsCollectionService.handleWorkflowExecuteAfter]
    have hadd : (s.add (ctx.insights timestamp s.objects)).FlushesNonempty := h
    split
    · exact h
    · split
      · exact hadd.flushIfFull
      · exact hadd.flushEvents
  | resume handler =>
    have hrest : ({ s with handlers := s.handlers.erase handler }).FlushesNonempty := h
    exact hrest.flushIfFull
  | timer timer =>
    have hrest : ({ s with timers := s.timers.erase timer }).FlushesNonempty := h
    exact hrest.flushEvents
  | saved flush => exact h.erase flush (by simp [next, saved])
  | saveFailed flush => exact h.erase flush (by simp [next, InsightsCollectionService.saveFailed])
  | startFlushingTimer =>
    intro flush hflush
    simp only [next, startFlushingTimer, scheduleFlushing_flushesInProgress] at hflush
    exact h flush hflush
  | stopFlushingTimer =>
    intro flush hflush
    simp only [next, cancelScheduledFlushing_flushesInProgress] at hflush
    exact h flush hflush
  | shutdown =>
    have hcancelled : FlushesNonempty
        { s.cancelScheduledFlushing with isAsynchronouslySavingInsights := false } := by
      intro flush hflush
      simp only [cancelScheduledFlushing_flushesInProgress] at hflush
      exact h flush hflush
    exact hcancelled.flushEvents

theorem flushesNonempty_of_run {before : List (Event × InsightsCollectionService)}
    (hr : Run (Step flushBatchSize) initial before) : (finalState initial before).FlushesNonempty :=
  (hr.invariant (by intro flush hflush; cases hflush) fun _ _ _ h hs => h.step hs).final

/-! ### Empty and filled again -/

/-- A step that calls `flushEvents` empties the buffer, a failed save fills it again, and the other
steps leave it alone. -/
theorem toggled_bufferedInsights (inProgress : List Flush) :
    Toggled (StepInShutdown flushBatchSize inProgress) FlushesNonempty
      (fun s => s.bufferedInsights.size = 0) GivesBack (CallsFlushEvents flushBatchSize) where
  inv s e s' h hs := h.step hs.1
  cleared s e s' _ hs hclear := by
    obtain ⟨⟨-, rfl⟩, -⟩ := hs
    cases e with
    | resume handler =>
      have hfull : ({ s with handlers := s.handlers.erase handler }).bufferedInsights.size ≥
        flushBatchSize := hclear
      simp only [next, resume, flushIfFull, if_pos hfull]
      exact flushEvents_size _
    | timer timer => exact flushEvents_size _
    | shutdown => exact flushEvents_size _
    | _ => exact hclear.elim
  set s e s' h hs hset := by
    obtain ⟨⟨henabled, rfl⟩, -⟩ := hs
    cases e with
    | saveFailed flush => exact saveFailed_size (h flush henabled)
    | _ => exact hset.elim
  kept s e s' _ hs hclear hset := by
    obtain ⟨⟨-, rfl⟩, hpermitted⟩ := hs
    cases e with
    | handleWorkflowExecuteAfter timestamp ctx =>
      have hskipped : ctx.skipped = true := hpermitted
      simp only [next, handleWorkflowExecuteAfter, if_pos hskipped]
    | resume handler =>
      have hfull : ¬ ({ s with handlers := s.handlers.erase handler }).bufferedInsights.size ≥
        flushBatchSize := hclear
      simp only [next, resume, flushIfFull, if_neg hfull]
    | timer timer => exact absurd trivial hclear
    | saved flush => simp [next, saved]
    | saveFailed flush => exact absurd trivial hset
    | startFlushingTimer => simp [next, startFlushingTimer]
    | stopFlushingTimer => simp [next]
    | shutdown => exact absurd trivial hclear

theorem shutdown_size (s : InsightsCollectionService) :
    s.shutdown.bufferedInsights.size = 0 := flushEvents_size _

theorem shutdown_flushesNonempty (h : s.FlushesNonempty) : s.shutdown.FlushesNonempty := by
  have hs : Step 0 s .shutdown s.shutdown := ⟨trivial, rfl⟩
  exact h.step hs

/-- When the promise of `shutdown` resolves, the buffer is empty exactly if `flushEvents` has been
called once more after every save that has failed. -/
theorem shutdown_leavesNothing_iff {before tr : List (Event × InsightsCollectionService)}
    (hr : Run (Step flushBatchSize) initial before)
    (h : ShutsDown flushBatchSize (finalState initial before) tr) :
    (finalState (finalState initial before).shutdown tr).bufferedInsights.size = 0 ↔
      EachFollowed GivesBack (CallsFlushEvents flushBatchSize)
        (finalState initial before).shutdown tr := by
  have hnonempty := shutdown_flushesNonempty (flushesNonempty_of_run hr)
  rw [(toggled_bufferedInsights _).final_iff h.run hnonempty]
  exact and_iff_right (.inl (shutdown_size _))

/-- All flushes but the first can come to their end before it does. -/
theorem run_savedRest (inProgress : List Flush) {flush : Flush} {rest : List Flush}
    (h : s.flushesInProgress = flush :: rest) : ∃ tr,
      Run (StepInShutdown flushBatchSize inProgress) s tr ∧
      (finalState s tr).flushesInProgress = [flush] := by
  induction rest generalizing s with
  | nil => exact ⟨[], .nil s, h⟩
  | cons other rest ih =>
    have herase : (s.saved other).flushesInProgress = flush :: rest := by
      simp only [saved, scheduleFlushing_flushesInProgress, h, List.erase_cons]
      by_cases heq : flush = other
      · simp [heq]
      · simp [heq]
    obtain ⟨tr, hr, hfinal⟩ := ih herase
    have hother : other ∈ s.flushesInProgress := by simp [h]
    exact ⟨(.saved other, s.saved other) :: tr, .cons ⟨⟨hother, rfl⟩, trivial⟩ hr, hfinal⟩

theorem flushEvents_flushesInProgress (s : InsightsCollectionService) :
    ∃ own, s.flushEvents.flushesInProgress = s.flushesInProgress ++ own := by
  unfold flushEvents
  split
  · exact ⟨[], by simp⟩
  · exact ⟨_, congrArg (· ++ _) cancelScheduledFlushing_flushesInProgress⟩

theorem permitted_of_run {inProgress : List Flush}
    {tr : List (Event × InsightsCollectionService)}
    (hr : Run (StepInShutdown flushBatchSize inProgress) s tr) :
    ∀ p ∈ tr, Permitted inProgress p.1 := by
  induction hr with
  | nil s => exact fun p hp => absurd hp List.not_mem_nil
  | cons hs _ ih =>
    intro p hp
    rcases List.mem_cons.mp hp with rfl | hp
    · exact hs.2
    · exact ih p hp

/-- A flush that is in progress at the call can be the last to end, and fail. -/
theorem exists_leavesBehind (h : s.FlushesNonempty) {flush : Flush}
    (hflush : flush ∈ s.flushesInProgress) :
    ∃ tr, ShutsDown flushBatchSize s tr ∧
      (finalState s.shutdown tr).bufferedInsights.size ≠ 0 := by
  obtain ⟨first, rest, hfirst⟩ := List.exists_cons_of_ne_nil (List.ne_nil_of_mem hflush)
  obtain ⟨own, hown⟩ := flushEvents_flushesInProgress
    { s.cancelScheduledFlushing with isAsynchronouslySavingInsights := false }
  have hflushes : s.shutdown.flushesInProgress = first :: (rest ++ own) := by
    rw [cancelScheduledFlushing_flushesInProgress, hfirst] at hown
    exact hown
  obtain ⟨tr, hr, hlast⟩ := run_savedRest s.flushesInProgress hflushes
  have hmem : first ∈ s.flushesInProgress := by simp [hfirst]
  have henabled : first ∈ (finalState s.shutdown tr).flushesInProgress := by simp [hlast]
  have hfails : Run (StepInShutdown flushBatchSize s.flushesInProgress)
      (finalState s.shutdown tr) [(.saveFailed first, (finalState s.shutdown tr).saveFailed first)] :=
    .cons ⟨⟨henabled, rfl⟩, hmem⟩ (.nil _)
  refine ⟨tr ++ _, ⟨run_append.mpr ⟨hr, hfails⟩, ?_⟩, ?_⟩
  · intro other _
    rw [finalState_append]
    simp [finalState, InsightsCollectionService.saveFailed, hlast]
  · rw [finalState_append]
    exact saveFailed_size (h first hmem)

/-- Nothing is sure to be left behind only if no flush is in progress at the call. -/
theorem shutdown_always_leavesNothing_iff {before : List (Event × InsightsCollectionService)}
    (hr : Run (Step flushBatchSize) initial before) :
    (∀ tr, ShutsDown flushBatchSize (finalState initial before) tr →
      (finalState (finalState initial before).shutdown tr).bufferedInsights.size = 0) ↔
    (finalState initial before).flushesInProgress = [] := by
  constructor
  · intro h
    by_contra hflushes
    obtain ⟨flush, hflush⟩ := List.exists_mem_of_ne_nil _ hflushes
    obtain ⟨tr, htr, hleft⟩ := exists_leavesBehind (flushesNonempty_of_run hr) hflush
    exact hleft (h tr htr)
  · intro hflushes tr h
    have hpermitted := permitted_of_run h.run
    rw [hflushes] at hpermitted
    refine (shutdown_leavesNothing_iff hr h).mpr (EachFollowed.of_never ?_)
    intro s p hp hback
    cases he : p.1 with
    | saveFailed flush =>
      have hmem := hpermitted p hp
      rw [he] at hmem
      cases hmem
    | _ =>
      rw [he] at hback
      exact hback

end

section Example

/-- A full buffer is being saved, and another event has come in. -/
def savingFullBuffer : List Event :=
  [.handleWorkflowExecuteAfter 100 succeeded, .handleWorkflowExecuteAfter 101 crashed]

def remaining : Flush := ⟨1, .ofList (crashed.insights 101 3)⟩

/-- The flush of the shutdown has come to its end when the save of the full buffer fails. -/
def failsLast : List Event := [.saved remaining, .saveFailed fullBuffer]

/-- The timer that the failed flush has set fires before the shutdown is over. -/
def failsFirst : List Event := [.saveFailed fullBuffer, .timer 0, .saved remaining]

theorem failsLast_leavesBehind : ¬ ∀ (flushBatchSize : ℕ)
    (before tr : List (Event × InsightsCollectionService)),
    Run (Step flushBatchSize) initial before →
    ShutsDown flushBatchSize (finalState initial before) tr →
    (finalState (finalState initial before).shutdown tr).bufferedInsights.size = 0 := by
  intro h
  let before := trace (next 3) initial savingFullBuffer
  let s := (finalState initial before).shutdown
  have hbefore : Run (Step 3) initial before := .cons ⟨trivial, rfl⟩ (.cons ⟨trivial, rfl⟩ (.nil _))
  have hremaining : remaining ∈ s.flushesInProgress := by decide
  have hfull : fullBuffer ∈ (s.saved remaining).flushesInProgress := by decide
  have hinProgress : fullBuffer ∈ (finalState initial before).flushesInProgress := by decide
  have hrun : Run (StepInShutdown 3 (finalState initial before).flushesInProgress) s
      (trace (next 3) s failsLast) :=
    .cons ⟨⟨hremaining, rfl⟩, trivial⟩ (.cons ⟨⟨hfull, rfl⟩, hinProgress⟩ (.nil _))
  have hresolved : ∀ flush ∈ s.flushesInProgress,
      flush ∉ (finalState s (trace (next 3) s failsLast)).flushesInProgress := by decide
  have hempty := h 3 before (trace (next 3) s failsLast) hbefore ⟨hrun, hresolved⟩
  exact absurd hempty (by decide)

theorem failsFirst_leavesNothing :
    EachFollowed GivesBack (CallsFlushEvents 3)
      (finalState initial (trace (next 3) initial savingFullBuffer)).shutdown
      (trace (next 3) (finalState initial (trace (next 3) initial savingFullBuffer)).shutdown
        failsFirst) ∧
    (finalState (finalState initial (trace (next 3) initial savingFullBuffer)).shutdown
      (trace (next 3) (finalState initial (trace (next 3) initial savingFullBuffer)).shutdown
        failsFirst)).bufferedInsights.size = 0 := by
  let before := trace (next 3) initial savingFullBuffer
  let s := (finalState initial before).shutdown
  have hbefore : Run (Step 3) initial before := .cons ⟨trivial, rfl⟩ (.cons ⟨trivial, rfl⟩ (.nil _))
  have hfull : fullBuffer ∈ s.flushesInProgress := by decide
  have htimer : 0 ∈ (s.saveFailed fullBuffer).timers := by decide
  have hremaining : remaining ∈
      (next 3 (next 3 s (.saveFailed fullBuffer)) (.timer 0)).flushesInProgress := by decide
  have hinProgress : fullBuffer ∈ (finalState initial before).flushesInProgress := by decide
  have hrun : Run (StepInShutdown 3 (finalState initial before).flushesInProgress) s
      (trace (next 3) s failsFirst) :=
    .cons ⟨⟨hfull, rfl⟩, hinProgress⟩ (.cons ⟨⟨htimer, rfl⟩, trivial⟩
      (.cons ⟨⟨hremaining, rfl⟩, trivial⟩ (.nil _)))
  have hresolved : ∀ flush ∈ s.flushesInProgress,
      flush ∉ (finalState s (trace (next 3) s failsFirst)).flushesInProgress := by decide
  have hfollowed : EachFollowed GivesBack (CallsFlushEvents 3) s
      (trace (next 3) s failsFirst) := by decide
  exact ⟨hfollowed, (shutdown_leavesNothing_iff hbefore ⟨hrun, hresolved⟩).mpr hfollowed⟩

end Example
end N8n.Insights.InsightsCollectionService
