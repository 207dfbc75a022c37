import Mathlib.Data.Int.Notation
import N8n.Foundations.OrderedMap
import N8n.Foundations.Runs

/-!
# The tracker of waiting executions

The leader polls the database for executions that are to be resumed and sets a timer for
each. The map leads from an execution to its timer, and an execution that is in the map
gets no second one. Timers are numbered in the order in which they were set.
-/

namespace N8n.WaitTracking
open N8n.Runs

/-- What a poll selects of an execution. -/
structure WaitingRow where
  id : String
  waitTill : ℤ
  deriving DecidableEq, Repr

inductive TimerState where
  | pending
  | cleared
  | fired
  deriving DecidableEq, Repr

/-- A timeout that calls `startExecution`. -/
structure Timer where
  executionId : String
  triggerTime : ℤ
  state : TimerState
  deriving DecidableEq, Repr

/-- `clearTimeout`, which does nothing to a timer that has fired. -/
def Timer.clear (timer : Timer) : Timer :=
  if timer.state = .pending then { timer with state := .cleared } else timer

structure WaitingExecution where
  executionId : String
  timer : ℕ
  deriving DecidableEq, Repr

structure WaitTracker where
  waitingExecutions : OrderedMap String WaitingExecution
  mainTimer : Option ℕ
  timers : List Timer
  /-- The intervals that are running. -/
  intervals : List ℕ
  intervalsSet : ℕ
  /-- The calls of `getWaitingExecutions` that wait for the database. -/
  polls : ℕ
  /-- Whether `startTracking` was called after the last call of `stopTracking`. -/
  tracking : Bool
  /-- The executions that polls have returned since then, less those that were started or
  stopped. -/
  due : List String

namespace WaitTracker
variable (s : WaitTracker)

def initial : WaitTracker :=
  { waitingExecutions := .empty
    mainTimer := none
    timers := []
    intervals := []
    intervalsSet := 0
    polls := 0
    tracking := false
    due := [] }

def has (executionId : String) : Bool := s.waitingExecutions.has executionId

def startTracking : WaitTracker :=
  { s with
    mainTimer := some s.intervalsSet
    intervals := s.intervals ++ [s.intervalsSet]
    intervalsSet := s.intervalsSet + 1
    polls := s.polls + 1
    tracking := true }

/-- One round of the loop of `getWaitingExecutions`. -/
def setTimer (now : ℤ) (s : WaitTracker) (execution : WaitingRow) : WaitTracker :=
  if s.has execution.id then s
  else
    { s with
      waitingExecutions := s.waitingExecutions.set execution.id ⟨execution.id, s.timers.length⟩
      timers := s.timers ++ [⟨execution.id, execution.waitTill - now, .pending⟩] }

/-- `getWaitingExecutions` after the database has answered. -/
def polled (now : ℤ) (executions : List WaitingRow) : WaitTracker :=
  let s' := executions.foldl (setTimer now) s
  { s' with
    polls := s.polls - 1
    due := if s.tracking then s.due ++ executions.map (·.id) else s.due }

def stopExecution (executionId : String) : WaitTracker :=
  match s.waitingExecutions.get? executionId with
  | none => s
  | some entry =>
    { s with
      timers := s.timers.modify entry.timer Timer.clear
      waitingExecutions := s.waitingExecutions.delete executionId
      due := s.due.filter (· ≠ executionId) }

/-- What `startExecution` does before it reads the execution from the database. -/
def startExecution (executionId : String) : WaitTracker :=
  { s with
    waitingExecutions := s.waitingExecutions.delete executionId
    due := s.due.filter (· ≠ executionId) }

/-- The timer `index` fires. -/
def fire (index : ℕ) (timer : Timer) : WaitTracker :=
  { s with timers := s.timers.modify index ({ · with state := .fired }) }.startExecution
    timer.executionId

/-- The entries stay in the map. -/
def stopTracking : WaitTracker :=
  match s.mainTimer with
  | none => { s with tracking := false, due := [] }
  | some mainTimer =>
    { s with
      intervals := s.intervals.erase mainTimer
      timers := s.waitingExecutions.values.foldl
        (fun timers entry => timers.modify entry.timer Timer.clear) s.timers
      tracking := false
      due := [] }

inductive Event where
  | startTracking
  | stopTracking
  | interval (interval : ℕ)
  | polled (now : ℤ) (executions : List WaitingRow)
  | pollFailed
  | stopExecution (executionId : String)
  | fire (index : ℕ) (timer : Timer)
  /-- A child execution has ended, and its parent is started again. -/
  | resumeParent (executionId : String)

def Enabled : Event → Prop
  | .interval interval => interval ∈ s.intervals
  | .polled _ _ | .pollFailed => 0 < s.polls
  | .fire index timer => s.timers[index]? = some timer ∧ timer.state = .pending
  | _ => True

def next : Event → WaitTracker
  | .startTracking => s.startTracking
  | .stopTracking => s.stopTracking
  | .interval _ => { s with polls := s.polls + 1 }
  | .polled now executions => s.polled now executions
  | .pollFailed => { s with polls := s.polls - 1 }
  | .stopExecution executionId => s.stopExecution executionId
  | .fire index timer => s.fire index timer
  | .resumeParent executionId => s.startExecution executionId

def Step (s : WaitTracker) (e : Event) (s' : WaitTracker) : Prop := s.Enabled e ∧ s' = s.next e

/-! ### Live timers -/

/-- The timer of an entry is set: when it fires, it starts the execution. -/
def Live (executionId : String) (entry : WaitingExecution) : Prop :=
  ∃ timer ∈ s.timers[entry.timer]?, timer.executionId = executionId ∧ timer.state = .pending

/-- While tracking is on every entry has a live timer, and so has every execution that was
returned by a poll and neither started nor stopped since. -/
def Tracked : Prop :=
  s.tracking = true →
    (∀ executionId entry, s.waitingExecutions.get? executionId = some entry →
      s.Live executionId entry) ∧
    ∀ executionId ∈ s.due, ∃ entry, s.waitingExecutions.get? executionId = some entry ∧
      s.Live executionId entry

/-- An entry whose timer was cleared. Only `stopTracking` leaves one behind. -/
def LeftBehind (entry : WaitingExecution) : Prop :=
  ∃ timer ∈ s.timers[entry.timer]?, timer.state = .cleared

/-- Tracking starts only when no entry is left behind. -/
def StartsClean (s : WaitTracker) : Event → Prop
  | .startTracking => ∀ executionId entry,
      s.waitingExecutions.get? executionId = some entry → ¬ s.LeftBehind entry
  | _ => True

structure Sound (s : WaitTracker) : Prop where
  timer : ∀ executionId entry, s.waitingExecutions.get? executionId = some entry →
    ∃ timer, s.timers[entry.timer]? = some timer ∧ timer.executionId = executionId ∧
      timer.state ≠ .fired ∧ (s.tracking = true → timer.state = .pending)
  due : ∀ executionId ∈ s.due, s.has executionId = true

section Sound
variable {s} {s' : WaitTracker}

theorem Sound.tracked (h : s.Sound) : s.Tracked := by
  intro htracking
  have hlive : ∀ executionId entry, s.waitingExecutions.get? executionId = some entry →
      s.Live executionId entry := by
    intro executionId entry hentry
    obtain ⟨timer, htimer, hid, _, hpending⟩ := h.timer executionId entry hentry
    exact ⟨timer, htimer, hid, hpending htracking⟩
  refine ⟨hlive, ?_⟩
  intro executionId hdue
  obtain ⟨entry, hentry⟩ := Option.isSome_iff_exists.mp (h.due executionId hdue)
  exact ⟨entry, hentry, hlive executionId entry hentry⟩

theorem sound_initial : initial.Sound := ⟨nofun, nofun⟩

theorem Sound.startTracking (h : s.Sound)
    (hclean : ∀ executionId entry, s.waitingExecutions.get? executionId = some entry →
      ¬ s.LeftBehind entry) : s.startTracking.Sound := by
  refine ⟨?_, h.due⟩
  intro executionId entry hentry
  obtain ⟨timer, htimer, hid, hfired, _⟩ := h.timer executionId entry hentry
  refine ⟨timer, htimer, hid, hfired, fun _ => ?_⟩
  have hcleared : timer.state ≠ .cleared := fun hstate =>
    hclean executionId entry hentry ⟨timer, htimer, hstate⟩
  cases hstate : timer.state with
  | pending => rfl
  | cleared => exact absurd hstate hcleared
  | fired => exact absurd hstate hfired

theorem setTimer_frame (s : WaitTracker) (now : ℤ) (execution : WaitingRow) :
    (setTimer now s execution).tracking = s.tracking ∧ (setTimer now s execution).due = s.due := by
  unfold setTimer
  split <;> exact ⟨rfl, rfl⟩

theorem has_setTimer (s : WaitTracker) (now : ℤ) (execution : WaitingRow) (executionId : String) :
    (setTimer now s execution).has executionId = true ↔
      s.has executionId = true ∨ executionId = execution.id := by
  unfold setTimer
  split_ifs with hhas
  · refine ⟨Or.inl, fun h => h.elim id ?_⟩
    rintro rfl
    exact hhas
  · simp only [WaitTracker.has, OrderedMap.has_iff, OrderedMap.mem_keys_set, or_comm]

theorem Sound.setTimer (h : s.Sound) (now : ℤ) (execution : WaitingRow) :
    (setTimer now s execution).Sound := by
  refine ⟨?_, ?_⟩
  · unfold WaitTracker.setTimer
    split_ifs with hhas
    · exact h.timer
    · intro executionId entry hentry
      simp only [OrderedMap.get?_set] at hentry
      split_ifs at hentry with hid
      · obtain rfl := Option.some.inj hentry
        exact ⟨⟨execution.id, execution.waitTill - now, .pending⟩, List.getElem?_concat_length,
          hid, by simp, fun _ => rfl⟩
      · obtain ⟨timer, htimer, hrest⟩ := h.timer executionId entry hentry
        exact ⟨timer, List.getElem?_append_left (List.getElem?_eq_some_iff.mp htimer).1 ▸ htimer,
          hrest⟩
  · intro executionId hdue
    rw [(setTimer_frame s now execution).2] at hdue
    exact (has_setTimer s now execution executionId).mpr (Or.inl (h.due executionId hdue))

/-- After the loop all executions that were returned are in the map. -/
theorem Sound.foldl_setTimer (h : s.Sound) (now : ℤ) (executions : List WaitingRow) :
    (executions.foldl (WaitTracker.setTimer now) s).Sound ∧
    (executions.foldl (WaitTracker.setTimer now) s).tracking = s.tracking ∧
    (executions.foldl (WaitTracker.setTimer now) s).due = s.due ∧
    ∀ executionId, (executions.foldl (WaitTracker.setTimer now) s).has executionId = true ↔
      s.has executionId = true ∨ executionId ∈ executions.map (·.id) := by
  induction executions generalizing s with
  | nil => exact ⟨h, rfl, rfl, by simp⟩
  | cons execution executions ih =>
    obtain ⟨hsound, htracking, hdue, hhas⟩ := ih (h.setTimer now execution)
    obtain ⟨htracking', hdue'⟩ := setTimer_frame s now execution
    refine ⟨hsound, htracking.trans htracking', hdue.trans hdue', ?_⟩
    intro executionId
    rw [List.foldl_cons, hhas executionId, has_setTimer, List.map_cons, List.mem_cons, or_assoc]

theorem Sound.polled (h : s.Sound) (now : ℤ) (executions : List WaitingRow) :
    (s.polled now executions).Sound := by
  obtain ⟨hsound, htracking, _, hhas⟩ := h.foldl_setTimer now executions
  refine ⟨hsound.timer, ?_⟩
  intro executionId hdue
  refine (hhas executionId).mpr ?_
  simp only [WaitTracker.polled] at hdue
  split_ifs at hdue
  · exact (List.mem_append.mp hdue).imp_left (h.due executionId)
  · exact Or.inl (h.due executionId hdue)

/-- The map without an entry, when the timers of the others are as they were. -/
theorem Sound.delete (h : s.Sound) (executionId : String) {timers : List Timer}
    (htimers : ∀ (index : ℕ) (timer : Timer), s.timers[index]? = some timer →
      timer.executionId ≠ executionId → timers[index]? = some timer) :
    { s with
      timers := timers
      waitingExecutions := s.waitingExecutions.delete executionId
      due := s.due.filter (· ≠ executionId) : WaitTracker }.Sound := by
  refine ⟨?_, ?_⟩
  · intro executionId' entry hentry
    simp only [OrderedMap.get?_delete] at hentry
    split_ifs at hentry with hid
    obtain ⟨timer, htimer, rfl, hrest⟩ := h.timer executionId' entry hentry
    exact ⟨timer, htimers entry.timer timer htimer (Ne.symm hid), rfl, hrest⟩
  · intro executionId' hdue
    obtain ⟨hdue, hne⟩ := List.mem_filter.mp hdue
    have hhas := h.due executionId' hdue
    simp only [WaitTracker.has, OrderedMap.has] at hhas ⊢
    rw [OrderedMap.get?_delete_of_ne (Ne.symm (of_decide_eq_true hne))]
    exact hhas

theorem Sound.startExecution (h : s.Sound) (executionId : String) :
    (s.startExecution executionId).Sound :=
  h.delete executionId fun _ _ htimer _ => htimer

/-- A change to the timer of an execution is none to the timers of others. -/
theorem getElem?_modify_of_ne {timers : List Timer} {index : ℕ} {timer : Timer}
    (hindex : timers[index]? = some timer) (f : Timer → Timer) (index' : ℕ) (timer' : Timer)
    (htimer : timers[index']? = some timer') (hne : timer'.executionId ≠ timer.executionId) :
    (timers.modify index f)[index']? = some timer' := by
  have hindexes : index ≠ index' := by
    rintro rfl
    rw [hindex] at htimer
    exact hne (congrArg Timer.executionId (Option.some.inj htimer)).symm
  rw [List.getElem?_modify_ne f timers hindexes]
  exact htimer

theorem Sound.stopExecution (h : s.Sound) (executionId : String) :
    (s.stopExecution executionId).Sound := by
  rw [WaitTracker.stopExecution]
  cases hentry : s.waitingExecutions.get? executionId with
  | none => exact h
  | some entry =>
    obtain ⟨timer, htimer, rfl, _⟩ := h.timer executionId entry hentry
    exact h.delete timer.executionId (getElem?_modify_of_ne htimer Timer.clear)

theorem Sound.fire (h : s.Sound) {index : ℕ} {timer : Timer} (htimer : s.timers[index]? = some timer) :
    (s.fire index timer).Sound :=
  h.delete timer.executionId (getElem?_modify_of_ne htimer ({ · with state := .fired }))

/-- Clearing timers leaves them in their places and fires none. -/
theorem foldl_clear (entries : List WaitingExecution) (timers : List Timer) (index : ℕ)
    (timer : Timer) (htimer : timers[index]? = some timer) (hfired : timer.state ≠ .fired) :
    ∃ timer', (entries.foldl (fun timers entry => timers.modify entry.timer Timer.clear)
        timers)[index]? = some timer' ∧
      timer'.executionId = timer.executionId ∧ timer'.state ≠ .fired := by
  induction entries generalizing timers timer with
  | nil => exact ⟨timer, htimer, rfl, hfired⟩
  | cons entry entries ih =>
    have hclear : timer.clear.executionId = timer.executionId ∧ timer.clear.state ≠ .fired := by
      unfold Timer.clear
      split_ifs
      · exact ⟨rfl, nofun⟩
      · exact ⟨rfl, hfired⟩
    rw [List.foldl_cons]
    by_cases hindex : entry.timer = index
    · have hmodify : (timers.modify entry.timer Timer.clear)[index]? = some timer.clear := by
        rw [hindex, List.getElem?_modify_eq, htimer]
        rfl
      obtain ⟨timer', htimer', hid, hstate⟩ := ih _ _ hmodify hclear.2
      exact ⟨timer', htimer', hid.trans hclear.1, hstate⟩
    · have hmodify : (timers.modify entry.timer Timer.clear)[index]? = some timer := by
        rw [List.getElem?_modify_ne Timer.clear timers hindex]
        exact htimer
      exact ih _ _ hmodify hfired

theorem Sound.stopTracking (h : s.Sound) : s.stopTracking.Sound := by
  rw [WaitTracker.stopTracking]
  split
  · refine ⟨?_, nofun⟩
    intro executionId entry hentry
    obtain ⟨timer, htimer, hid, hfired, _⟩ := h.timer executionId entry hentry
    exact ⟨timer, htimer, hid, hfired, nofun⟩
  · refine ⟨?_, nofun⟩
    intro executionId entry hentry
    obtain ⟨timer, htimer, hid, hfired, _⟩ := h.timer executionId entry hentry
    obtain ⟨timer', htimer', hid', hfired'⟩ :=
      foldl_clear s.waitingExecutions.values s.timers entry.timer timer htimer hfired
    exact ⟨timer', htimer', hid'.trans hid, hfired', nofun⟩

theorem Sound.step {e : Event} (h : s.Sound) (hclean : s.StartsClean e) (hs : Step s e s') :
    s'.Sound := by
  obtain ⟨henabled, rfl⟩ := hs
  cases e with
  | startTracking => exact h.startTracking hclean
  | stopTracking => exact h.stopTracking
  | interval interval => exact ⟨h.timer, h.due⟩
  | polled now executions => exact h.polled now executions
  | pollFailed => exact ⟨h.timer, h.due⟩
  | stopExecution executionId => exact h.stopExecution executionId
  | fire index timer => exact h.fire henabled.1
  | resumeParent executionId => exact h.startExecution executionId

/-- A takeover with an entry left behind is what goes wrong. -/
theorem not_tracked_of_leftBehind {e : Event} (hclean : ¬ s.StartsClean e) (hs : Step s e s') :
    ¬ s'.Tracked := by
  obtain ⟨_, rfl⟩ := hs
  intro htracked
  cases e with
  | startTracking =>
    refine hclean ?_
    rintro executionId entry hentry ⟨timer, htimer, hcleared⟩
    obtain ⟨timer', htimer', _, hpending⟩ := (htracked rfl).1 executionId entry hentry
    have hsame : s.timers[entry.timer]? = some timer' := htimer'
    rw [Option.mem_def.mp htimer] at hsame
    obtain rfl := Option.some.inj hsame
    rw [hcleared] at hpending
    cases hpending
  | _ => exact hclean trivial

theorem tracked_iff_startsClean {tr : List (Event × WaitTracker)} (hr : Run Step initial tr) :
    Always Tracked initial tr ↔ EveryStep StartsClean initial tr :=
  hr.always_iff_everyStep sound_initial (fun _ h => h.tracked) (fun _ _ _ h hc hs => h.step hc hs)
    fun _ _ _ _ hc hs => not_tracked_of_leftBehind hc hs

end Sound

section Example

/-- A stepdown while an execution waits, and a takeover after it. -/
def stepdown : List Event := [.startTracking, .polled 0 [⟨"1", 60⟩], .stopTracking, .startTracking]

/-- The next poll finds `1` in the map and sets no timer. -/
theorem stepdown_not_tracked :
    Run Step initial (trace next initial (stepdown ++ [.polled 5 [⟨"1", 60⟩]])) ∧
    ¬ Always Tracked initial (trace next initial (stepdown ++ [.polled 5 [⟨"1", 60⟩]])) := by
  constructor
  · exact .cons ⟨trivial, rfl⟩ (.cons ⟨Nat.zero_lt_one, rfl⟩ (.cons ⟨trivial, rfl⟩
      (.cons ⟨trivial, rfl⟩ (.cons ⟨Nat.zero_lt_one, rfl⟩ (.nil _)))))
  · intro h
    obtain ⟨entry, hentry, timer, htimer, _, hpending⟩ := (h.final rfl).2 "1" List.mem_cons_self
    obtain rfl : ⟨"1", 0⟩ = entry := Option.some.inj hentry
    obtain rfl : ⟨"1", 60, .cleared⟩ = timer := Option.some.inj htimer
    cases hpending

/-- The stepdown comes when the execution has been started. -/
def startedFirst : List Event :=
  [.startTracking, .polled 0 [⟨"1", 60⟩], .fire 0 ⟨"1", 60, .pending⟩, .stopTracking,
    .startTracking, .polled 5 [⟨"2", 60⟩]]

theorem startedFirst_tracked : Always Tracked initial (trace next initial startedFirst) := by
  have hrun : Run Step initial (trace next initial startedFirst) :=
    .cons ⟨trivial, rfl⟩ (.cons ⟨Nat.zero_lt_one, rfl⟩ (.cons ⟨⟨rfl, rfl⟩, rfl⟩
      (.cons ⟨trivial, rfl⟩ (.cons ⟨trivial, rfl⟩ (.cons ⟨Nat.zero_lt_one, rfl⟩ (.nil _))))))
  exact (tracked_iff_startsClean hrun).mpr ⟨nofun, trivial, trivial, trivial, nofun, trivial, trivial⟩

end Example

end WaitTracker
end N8n.WaitTracking
