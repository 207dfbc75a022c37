import N8n.Concurrency.ConcurrencyQueue

/-!
# The concurrency control service

The service has a queue for production executions and one for evaluations, each of them
only when there is a limit. A call reports which promises of `throttle` it resolves and
which executions it releases from a queue. Without a queue or when the service is
disabled `throttle` returns at once.
-/

namespace N8n.Concurrency

inductive WorkflowExecuteMode where
  | cli
  | error
  | integrated
  | internal
  | manual
  | retry
  | trigger
  | webhook
  | evaluation
  deriving DecidableEq, Repr

inductive ConcurrencyQueueType where
  | production
  | evaluation
  deriving DecidableEq, Repr

structure ConcurrencyControlService where
  isEnabled : Bool
  production : Option ConcurrencyQueue
  evaluation : Option ConcurrencyQueue
  deriving DecidableEq, Repr

/-- What a call leaves behind. -/
structure ControlOutcome where
  service : ConcurrencyControlService
  resolved : List ℕ
  released : List String
  deriving DecidableEq, Repr

namespace ConcurrencyControlService
variable (s : ConcurrencyControlService)

def queueType : WorkflowExecuteMode → Option ConcurrencyQueueType
  | .webhook | .trigger => some .production
  | .evaluation => some .evaluation
  | _ => none

def queueOf : ConcurrencyQueueType → Option ConcurrencyQueue
  | .production => s.production
  | .evaluation => s.evaluation

def getQueue (mode : WorkflowExecuteMode) : Option ConcurrencyQueue :=
  (queueType mode).bind s.queueOf

def setQueue (type : ConcurrencyQueueType) (queue : ConcurrencyQueue) : ConcurrencyControlService :=
  match type with
  | .production => { s with production := some queue }
  | .evaluation => { s with evaluation := some queue }

/-- A call of a queue, when the service is enabled and the mode has one. -/
def onQueue (mode : WorkflowExecuteMode) (call : ConcurrencyQueue → Outcome)
    (otherwise : List ℕ) : ControlOutcome :=
  match s.isEnabled, queueType mode with
  | true, some type =>
    match s.queueOf type with
    | none => ⟨s, otherwise, []⟩
    | some queue =>
      ⟨s.setQueue type (call queue).queue, (call queue).resolved.toList,
        releasedIn (call queue).events⟩
  | _, _ => ⟨s, otherwise, []⟩

def throttle (mode : WorkflowExecuteMode) (executionId : String) (promise : ℕ) : ControlOutcome :=
  s.onQueue mode (·.enqueue executionId promise) [promise]

def release (mode : WorkflowExecuteMode) : ControlOutcome :=
  s.onQueue mode (·.dequeue) []

def remove (mode : WorkflowExecuteMode) (executionId : String) : ControlOutcome :=
  s.onQueue mode (·.remove executionId) []

def disable : ConcurrencyControlService := { s with isEnabled := false }

/-- The calls of `remove` for everything that a queue holds. -/
def removeQueued (queue : ConcurrencyQueue) (executionIds : List String) :
    ConcurrencyQueue × List ℕ × List String :=
  executionIds.foldl (fun acc executionId =>
    let o := acc.1.remove executionId
    (o.queue, acc.2.1 ++ o.resolved.toList, acc.2.2 ++ releasedIn o.events)) (queue, [], [])

def emptyQueue (type : ConcurrencyQueueType) (o : ControlOutcome) : ControlOutcome :=
  match o.service.queueOf type with
  | none => o
  | some queue =>
    let (queue, resolved, released) := removeQueued queue queue.getAll
    ⟨o.service.setQueue type queue, o.resolved ++ resolved, o.released ++ released⟩

/-- The second part is the call of `cancelMany`. -/
def removeAll (executionIdsToCancel : List String) : ControlOutcome × Option (List String) :=
  if s.isEnabled = false then (⟨s, [], []⟩, none)
  else
    (emptyQueue .evaluation (emptyQueue .production ⟨s, [], []⟩),
      if executionIdsToCancel.length = 0 then none else some executionIdsToCancel)

variable {s}

theorem onQueue_disabled (h : s.isEnabled = false) (mode : WorkflowExecuteMode)
    (call : ConcurrencyQueue → Outcome) (otherwise : List ℕ) :
    s.onQueue mode call otherwise = ⟨s, otherwise, []⟩ := by
  rw [onQueue, h]

theorem removeAll_disabled (h : s.isEnabled = false) (executionIds : List String) :
    s.removeAll executionIds = (⟨s, [], []⟩, none) := by
  rw [removeAll, if_pos h]

/-! ### Emptying the queues -/

theorem removeQueued_append (executionIds : List String) (queue : ConcurrencyQueue)
    (resolved : List ℕ) (released : List String) :
    executionIds.foldl (fun acc executionId =>
      let o := acc.1.remove executionId
      (o.queue, acc.2.1 ++ o.resolved.toList, acc.2.2 ++ releasedIn o.events))
      (queue, resolved, released) =
      ((removeQueued queue executionIds).1, resolved ++ (removeQueued queue executionIds).2.1,
        released ++ (removeQueued queue executionIds).2.2) := by
  induction executionIds generalizing queue resolved released with
  | nil => simp [removeQueued]
  | cons executionId executionIds ih =>
    rw [removeQueued, List.foldl_cons, List.foldl_cons]
    dsimp only
    rw [ih, ih _ ([] ++ _)]
    simp

theorem removeQueued_cons (queue : ConcurrencyQueue) (executionId : String)
    (executionIds : List String) :
    removeQueued queue (executionId :: executionIds) =
      ((removeQueued (queue.remove executionId).queue executionIds).1,
        (queue.remove executionId).resolved.toList ++
          (removeQueued (queue.remove executionId).queue executionIds).2.1,
        releasedIn (queue.remove executionId).events ++
          (removeQueued (queue.remove executionId).queue executionIds).2.2) := by
  rw [removeQueued, List.foldl_cons]
  dsimp only
  rw [removeQueued_append, List.nil_append, List.nil_append]

theorem remove_first (capacity : ℤ) (first : QueueItem) (items : List QueueItem) :
    (⟨capacity, first :: items⟩ : ConcurrencyQueue).remove first.executionId =
      ConcurrencyQueue.resolveNext ⟨capacity + 1, items⟩ := by
  have hfirst : List.findIdx? (fun item => item.executionId == first.executionId)
      (first :: items) = some 0 := by simp [List.findIdx?_cons]
  rw [ConcurrencyQueue.remove]
  simp only [hfirst, List.eraseIdx_cons_zero]

/-- The removal of the first of several executions releases the second. -/
theorem removeQueued_getAll_iff (queue : ConcurrencyQueue) :
    ((removeQueued queue queue.getAll).1.queue = [] ∧
      (removeQueued queue queue.getAll).2.1 = []) ↔ queue.queue.length ≤ 1 := by
  obtain ⟨capacity, items⟩ := queue
  cases items with
  | nil => exact iff_of_true ⟨rfl, rfl⟩ (Nat.zero_le 1)
  | cons first items =>
    have hall : ∃ ids, (⟨capacity, first :: items⟩ : ConcurrencyQueue).getAll =
        first.executionId :: ids ∧ (items = [] → ids = []) :=
      ⟨_, by rw [ConcurrencyQueue.getAll, List.map_cons, List.eraseDups_cons], by rintro rfl; rfl⟩
    obtain ⟨ids, hall, hids⟩ := hall
    rw [hall, removeQueued_cons, remove_first]
    cases items with
    | nil =>
      rw [hids rfl]
      exact iff_of_true ⟨rfl, rfl⟩ (Nat.le_refl 1)
    | cons second items =>
      refine iff_of_false ?_ (by simp)
      rintro ⟨-, hnone⟩
      exact absurd hnone (List.cons_ne_nil _ _)

theorem emptyQueue_queueOf (type type' : ConcurrencyQueueType) (o : ControlOutcome) :
    (emptyQueue type o).service.queueOf type' =
      if type = type' then
        (o.service.queueOf type).map fun queue => (removeQueued queue queue.getAll).1
      else o.service.queueOf type' := by
  rw [emptyQueue]
  cases hqueue : o.service.queueOf type with
  | none => cases type <;> cases type' <;> simp_all
  | some queue => cases type <;> cases type' <;> simp_all [setQueue, queueOf]

theorem emptyQueue_resolved (type : ConcurrencyQueueType) (o : ControlOutcome) :
    (emptyQueue type o).resolved = o.resolved ++
      ((o.service.queueOf type).elim [] fun queue => (removeQueued queue queue.getAll).2.1) := by
  rw [emptyQueue]
  cases o.service.queueOf type with
  | none => exact (List.append_nil _).symm
  | some queue => rfl

variable (s) in
/-- The queues are empty, no promise of `throttle` is resolved, and the executions to cancel are
cancelled. -/
def EmptiesQuietly (executionIdsToCancel : List String) : Prop :=
  (∀ type queue, (s.removeAll executionIdsToCancel).1.service.queueOf type = some queue →
    queue.queue = []) ∧
  (s.removeAll executionIdsToCancel).1.resolved = [] ∧
  (executionIdsToCancel ≠ [] →
    (s.removeAll executionIdsToCancel).2 = some executionIdsToCancel)

/-- Emptying the queues starts nothing exactly when no two executions wait in one queue. -/
theorem emptiesQuietly_iff (h : s.isEnabled = true) (executionIdsToCancel : List String) :
    s.EmptiesQuietly executionIdsToCancel ↔
      ∀ type queue, s.queueOf type = some queue → queue.queue.length ≤ 1 := by
  have hcancel : executionIdsToCancel ≠ [] →
      (s.removeAll executionIdsToCancel).2 = some executionIdsToCancel := by
    intro hne
    rw [removeAll, if_neg (by simp [h])]
    exact if_neg fun hlen => hne (List.length_eq_zero_iff.mp hlen)
  have hempty : (∀ type queue, (s.removeAll executionIdsToCancel).1.service.queueOf type =
      some queue → queue.queue = []) ↔
      ∀ type queue, s.queueOf type = some queue → (removeQueued queue queue.getAll).1.queue = [] := by
    refine forall_congr' fun type => ?_
    rw [removeAll, if_neg (by simp [h])]
    cases type <;> simp [emptyQueue_queueOf]
  have hresolved : (s.removeAll executionIdsToCancel).1.resolved = [] ↔
      ∀ type queue, s.queueOf type = some queue → (removeQueued queue queue.getAll).2.1 = [] := by
    rw [removeAll, if_neg (by simp [h])]
    simp only [emptyQueue_resolved, emptyQueue_queueOf]
    constructor
    · rintro hnil (_ | _) queue hqueue <;> simp_all
    · intro hnil
      have hproduction := hnil .production
      have hevaluation := hnil .evaluation
      cases hp : s.queueOf .production <;> cases he : s.queueOf .evaluation <;> simp_all
  rw [EmptiesQuietly, hempty, hresolved]
  constructor
  · rintro ⟨hqueues, hnone, -⟩ type queue hqueue
    exact (removeQueued_getAll_iff queue).mp ⟨hqueues type queue hqueue, hnone type queue hqueue⟩
  · intro hle
    refine ⟨fun type queue hqueue => ?_, fun type queue hqueue => ?_, hcancel⟩
    · exact ((removeQueued_getAll_iff queue).mpr (hle type queue hqueue)).1
    · exact ((removeQueued_getAll_iff queue).mpr (hle type queue hqueue)).2

/-- One slot: the first execution runs, the others wait. -/
def throttled (executionIds : List String) : ConcurrencyControlService :=
  executionIds.zipIdx.foldl (fun s (executionId, promise) =>
    (s.throttle .webhook executionId promise).service) ⟨true, some (.create 1), none⟩

theorem twoWaiting_not_emptiesQuietly : ¬ ∀ (s : ConcurrencyControlService)
    (executionIdsToCancel : List String), s.isEnabled = true →
    s.EmptiesQuietly executionIdsToCancel := by
  intro h
  have hnone := (h (throttled ["1", "2", "3"]) [] rfl).2.1
  revert hnone
  decide

theorem oneWaiting_emptiesQuietly : (throttled ["1", "2"]).EmptiesQuietly ["2"] := by
  refine (emptiesQuietly_iff rfl ["2"]).mpr ?_
  rintro (_ | _) queue hqueue
  · obtain rfl := Option.some.inj hqueue
    decide
  · cases hqueue

end ConcurrencyControlService
end N8n.Concurrency
