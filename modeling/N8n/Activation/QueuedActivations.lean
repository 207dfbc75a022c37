import N8n.Foundations.Runs

/-!
# Activations that are retried

A workflow that could not be activated is put into the queue of activations and tried again
by a timer, with longer and longer waits, until the activation succeeds or the workflow is
removed. Everything here is about one workflow of a single main instance. A retry and a
removal go on from one await to the next, and anything may come between.
-/

namespace N8n.Activation
open N8n.Runs

def workflowReactivateInitialTimeout : ℕ := 1000

def workflowReactivateMaxTimeout : ℕ := 24 * 60 * 60 * 1000

structure QueuedActivation where
  lastTimeout : ℕ
  timeout : ℕ
  deriving DecidableEq, Repr

/-- Where a call of `retryFunction` is. -/
inductive Retry where
  /-- `add` before the workflow is put down as active in memory. -/
  | activating
  /-- `add` while the poll nodes are activated. -/
  | polling
  /-- `add` after the queue entry was removed. -/
  | settling
  /-- `add` while the static data is saved. -/
  | saving
  /-- `add` while it registers the error that it is going to throw. -/
  | failing
  deriving DecidableEq, Repr

/-- Where a call of `remove` is. -/
inductive Removal where
  | clearing
  | deregistering
  /-- The triggers are closed one by one. -/
  | closing
  /-- Nothing is left to be done. -/
  | ending
  deriving DecidableEq, Repr

structure ActiveWorkflowManager where
  isActive : Bool
  queuedActivation : Option QueuedActivation
  /-- The timers that are set and have not fired. -/
  timers : List ℕ
  timersSet : ℕ
  retries : List Retry
  removals : List Removal
  /-- Whether a removal was completed after the last request for an activation. -/
  removed : Bool
  /-- The calls of `retryFunction` that have ended with an exception. -/
  exceptions : ℕ
  deriving DecidableEq, Repr

namespace ActiveWorkflowManager
variable (s : ActiveWorkflowManager)

def initial : ActiveWorkflowManager := ⟨false, none, [], 0, [], [], false, 0⟩

def setTimeout (lastTimeout : ℕ) : ActiveWorkflowManager :=
  { s with
    queuedActivation := some ⟨lastTimeout, s.timersSet⟩
    timers := s.timers ++ [s.timersSet]
    timersSet := s.timersSet + 1 }

def removeQueuedWorkflowActivation : ActiveWorkflowManager :=
  match s.queuedActivation with
  | none => s
  | some queued => { s with timers := s.timers.erase queued.timeout, queuedActivation := none }

def addQueuedWorkflowActivation : ActiveWorkflowManager :=
  { s.removeQueuedWorkflowActivation.setTimeout workflowReactivateInitialTimeout with
    removed := false }

/-- A retry goes on, or is over. -/
def retryTo (retry : Retry) (retry' : Option Retry) : ActiveWorkflowManager :=
  { s with retries := s.retries.erase retry ++ retry'.toList }

def removalTo (removal : Removal) (removal' : Option Removal) : ActiveWorkflowManager :=
  { s with removals := s.removals.erase removal ++ removal'.toList }

def nextTimeout (lastTimeout : ℕ) : ℕ :=
  if lastTimeout < workflowReactivateMaxTimeout then
    min (lastTimeout * 2) workflowReactivateMaxTimeout
  else lastTimeout

/-- What `retryFunction` does when `add` has failed. -/
def retryFailed : ActiveWorkflowManager :=
  match s.queuedActivation with
  -- the entry is read without a check
  | none => { s with exceptions := s.exceptions + 1 }
  | some queued => s.setTimeout (nextTimeout queued.lastTimeout)

/-- The removal has deregistered the activation error. -/
def dequeue : ActiveWorkflowManager :=
  s.removeQueuedWorkflowActivation.removalTo .deregistering
    (some (if s.isActive then .closing else .ending))

inductive Event where
  | addQueued
  | timer (timer : ℕ)
  /-- The workflow is not active according to the data that the retry was given. -/
  | skipped
  | activated
  | pollFailed (noTriggerResponses : Bool)
  | added (retry : Retry)
  | addFailed (retry : Retry)
  | settled
  | saved
  | retryFailed (retry : Retry)
  | removeCalled
  | webhooksCleared
  | deregisterFailed
  | dequeued
  | closeFailed
  | closed
  | removeCompleted
  deriving DecidableEq, Repr

def Enabled : Event → Prop
  | .addQueued | .removeCalled => True
  | .timer timer => timer ∈ s.timers
  | .skipped | .activated => .activating ∈ s.retries
  | .pollFailed _ => .polling ∈ s.retries
  -- a workflow with webhooks only goes from the webhooks to the end
  | .added retry => retry ∈ s.retries ∧ (retry = .activating ∨ retry = .polling)
  | .addFailed retry => retry ∈ s.retries ∧ (retry = .activating ∨ retry = .settling)
  | .settled => .settling ∈ s.retries
  | .saved => .saving ∈ s.retries
  | .retryFailed retry => retry ∈ s.retries ∧ (retry = .failing ∨ retry = .saving)
  | .webhooksCleared => .clearing ∈ s.removals
  | .deregisterFailed | .dequeued => .deregistering ∈ s.removals
  | .closeFailed | .closed => .closing ∈ s.removals
  | .removeCompleted => .ending ∈ s.removals

def next : Event → ActiveWorkflowManager
  | .addQueued => s.addQueuedWorkflowActivation
  | .timer timer =>
    { s with timers := s.timers.erase timer, retries := s.retries ++ [.activating] }
  | .skipped => s.retryTo .activating none
  | .activated => { s.retryTo .activating (some .polling) with isActive := true }
  | .pollFailed noTriggerResponses =>
    { s.retryTo .polling (some .failing) with isActive := s.isActive && !noTriggerResponses }
  | .added retry => (s.retryTo retry (some .settling)).removeQueuedWorkflowActivation
  | .addFailed retry => s.retryTo retry (some .failing)
  | .settled => s.retryTo .settling (some .saving)
  | .saved => s.retryTo .saving none
  | .retryFailed retry => (s.retryTo retry none).retryFailed
  | .removeCalled => { s with removals := s.removals ++ [.clearing] }
  | .webhooksCleared => s.removalTo .clearing (some .deregistering)
  | .deregisterFailed => s.removalTo .deregistering none
  | .dequeued => s.dequeue
  | .closeFailed => s.removalTo .closing none
  | .closed => { s.removalTo .closing (some .ending) with isActive := false }
  | .removeCompleted => { s.removalTo .ending none with removed := true }

def Step (s : ActiveWorkflowManager) (e : Event) (s' : ActiveWorkflowManager) : Prop :=
  s.Enabled e ∧ s' = s.next e

instance (e : Event) : Decidable (s.Enabled e) := by
  cases e <;> unfold Enabled <;> infer_instance

/-! ### What a completed removal promises -/

/-- When nothing is in progress after a completed removal, the workflow is not active, and
neither an entry of the queue nor a timer is left. No retry has ended with an exception. -/
def StaysRemoved : Prop :=
  (s.retries = [] → s.removals = [] → s.removed = true →
    s.isActive = false ∧ s.queuedActivation = none ∧ s.timers = []) ∧
  s.exceptions = 0

/-- A removal that is past the queue. -/
def Dequeued (removal : Removal) : Prop := removal = .closing ∨ removal = .ending

instance (removal : Removal) : Decidable (Dequeued removal) :=
  inferInstanceAs (Decidable (removal = .closing ∨ removal = .ending))

/-- No activation is requested while a removal is past the queue; no retry puts the workflow
down as active when a removal is done with it; and a retry that has failed finds the entry,
with no timer that is still to fire. -/
def NotOvertaken (s : ActiveWorkflowManager) : Event → Prop
  | .addQueued => ∀ removal ∈ s.removals, ¬ Dequeued removal
  | .activated => s.removed = false ∧ .ending ∉ s.removals
  | .retryFailed _ => ∃ queued, s.queuedActivation = some queued ∧ queued.timeout ∉ s.timers
  | _ => True

structure Consistent : Prop where
  timers : s.timers = [] ∨ ∃ queued, s.queuedActivation = some queued ∧ s.timers = [queued.timeout]
  dequeued : ∀ removal ∈ s.removals, Dequeued removal → s.queuedActivation = none
  ending : .ending ∈ s.removals → s.isActive = false
  removed : s.removed = true → s.isActive = false ∧ s.queuedActivation = none
  exceptions : s.exceptions = 0

section Consistent
variable {s} {s' : ActiveWorkflowManager} {e : Event}

theorem Consistent.staysRemoved (h : s.Consistent) : s.StaysRemoved := by
  refine ⟨fun _ _ hremoved => ?_, h.exceptions⟩
  obtain ⟨hactive, hnone⟩ := h.removed hremoved
  refine ⟨hactive, hnone, h.timers.resolve_right ?_⟩
  rintro ⟨queued, hsome, _⟩
  rw [hnone] at hsome
  cases hsome

/-- The retries themselves are a matter of their own. -/
theorem Consistent.retryTo (h : s.Consistent) (retry : Retry) (retry' : Option Retry) :
    (s.retryTo retry retry').Consistent :=
  ⟨h.timers, h.dequeued, h.ending, h.removed, h.exceptions⟩

theorem Consistent.inactive (h : s.Consistent) : { s with isActive := false }.Consistent :=
  ⟨h.timers, h.dequeued, fun _ => rfl, fun hremoved => ⟨rfl, (h.removed hremoved).2⟩,
    h.exceptions⟩

/-- After the entry was removed there is none, and no timer. -/
theorem Consistent.removeQueued (h : s.Consistent) :
    s.removeQueuedWorkflowActivation.Consistent ∧
      s.removeQueuedWorkflowActivation.queuedActivation = none ∧
      s.removeQueuedWorkflowActivation.timers = [] := by
  rw [removeQueuedWorkflowActivation]
  cases hqueued : s.queuedActivation with
  | none =>
    refine ⟨h, hqueued, h.timers.resolve_right ?_⟩
    rintro ⟨queued, hsome, _⟩
    rw [hqueued] at hsome
    cases hsome
  | some queued =>
    have htimers : s.timers.erase queued.timeout = [] := by
      rcases h.timers with hnil | ⟨queued', hsome, htimers⟩
      · rw [hnil]
        rfl
      · obtain rfl := Option.some.inj (hqueued.symm.trans hsome)
        rw [htimers]
        exact List.erase_cons_head queued.timeout []
    exact ⟨⟨Or.inl htimers, fun _ _ _ => rfl, h.ending,
      fun hremoved => ⟨(h.removed hremoved).1, rfl⟩, h.exceptions⟩, rfl, htimers⟩

theorem Consistent.addQueued (h : s.Consistent)
    (hremovals : ∀ removal ∈ s.removals, ¬ Dequeued removal) :
    s.addQueuedWorkflowActivation.Consistent := by
  obtain ⟨hconsistent, _, htimers⟩ := h.removeQueued
  have hsame : s.removeQueuedWorkflowActivation.removals = s.removals := by
    unfold removeQueuedWorkflowActivation
    split <;> rfl
  refine ⟨Or.inr ⟨_, rfl, ?_⟩, ?_, hconsistent.ending, nofun, hconsistent.exceptions⟩
  · simp only [addQueuedWorkflowActivation, setTimeout, htimers, List.nil_append]
  · intro removal hmem hdequeued
    exact absurd hdequeued (hremovals removal (hsame ▸ hmem))

theorem Consistent.retryFailed (h : s.Consistent) {queued : QueuedActivation}
    (hqueued : s.queuedActivation = some queued) (htimer : queued.timeout ∉ s.timers) :
    s.retryFailed.Consistent := by
  have hsome : s.queuedActivation ≠ none := by
    rw [hqueued]
    exact nofun
  have htimers : s.timers = [] := by
    refine h.timers.resolve_right ?_
    rintro ⟨queued', hsome', htimers⟩
    obtain rfl := Option.some.inj (hqueued.symm.trans hsome')
    rw [htimers] at htimer
    exact htimer List.mem_cons_self
  rw [ActiveWorkflowManager.retryFailed, hqueued]
  refine ⟨Or.inr ⟨_, rfl, ?_⟩, ?_, h.ending, ?_, h.exceptions⟩
  · simp only [setTimeout, htimers, List.nil_append]
  · exact fun removal hmem hdequeued => absurd (h.dequeued removal hmem hdequeued) hsome
  · exact fun hremoved => absurd (h.removed hremoved).2 hsome

/-- A removal goes on, past the queue only when the entry is gone and to its end only when the
workflow is not active. -/
theorem Consistent.removalTo (h : s.Consistent) (removal : Removal) {removal' : Option Removal}
    (hdequeued : ∀ removal ∈ removal', Dequeued removal → s.queuedActivation = none)
    (hending : .ending ∈ removal' → s.isActive = false) :
    (s.removalTo removal removal').Consistent := by
  refine ⟨h.timers, ?_, ?_, h.removed, h.exceptions⟩
  · intro removal'' hmem hpast
    rcases List.mem_append.mp hmem with hmem | hmem
    · exact h.dequeued removal'' (List.mem_of_mem_erase hmem) hpast
    · exact hdequeued removal'' (Option.mem_toList.mp hmem) hpast
  · intro hmem
    rcases List.mem_append.mp hmem with hmem | hmem
    · exact h.ending (List.mem_of_mem_erase hmem)
    · exact hending (Option.mem_toList.mp hmem)

theorem Consistent.dequeue (h : s.Consistent) : s.dequeue.Consistent := by
  obtain ⟨hconsistent, hnone, _⟩ := h.removeQueued
  have hsame : s.removeQueuedWorkflowActivation.isActive = s.isActive := by
    unfold removeQueuedWorkflowActivation
    split <;> rfl
  refine hconsistent.removalTo .deregistering (fun _ _ _ => hnone) ?_
  intro hending
  rw [hsame]
  cases hactive : s.isActive with
  | false => rfl
  | true =>
    rw [hactive] at hending
    cases hending

theorem Consistent.step (h : s.Consistent) (hovertaken : s.NotOvertaken e) (hs : Step s e s') :
    s'.Consistent := by
  obtain ⟨henabled, rfl⟩ := hs
  cases e with
  | addQueued => exact h.addQueued hovertaken
  | timer timer =>
    refine ⟨Or.inl ?_, h.dequeued, h.ending, h.removed, h.exceptions⟩
    have hmem : timer ∈ s.timers := henabled
    simp only [next]
    rcases h.timers with hnil | ⟨queued, _, htimers⟩
    · rw [hnil]
      rfl
    · rw [htimers] at hmem ⊢
      rw [List.mem_singleton.mp hmem]
      exact List.erase_cons_head queued.timeout []
  | skipped => exact h.retryTo _ _
  | activated =>
    refine ⟨h.timers, h.dequeued, ?_, ?_, h.exceptions⟩
    · exact fun hending => absurd hending hovertaken.2
    · intro hremoved
      have hfalse : s.removed = false := hovertaken.1
      rw [show s.removed = true from hremoved] at hfalse
      cases hfalse
  | pollFailed noTriggerResponses =>
    have hretry := h.retryTo .polling (some .failing)
    cases noTriggerResponses with
    | true =>
      simp only [next, Bool.not_true, Bool.and_false]
      exact hretry.inactive
    | false =>
      simp only [next, Bool.not_false, Bool.and_true]
      exact hretry
  | added retry => exact (h.retryTo retry (some .settling)).removeQueued.1
  | addFailed retry => exact h.retryTo _ _
  | settled => exact h.retryTo _ _
  | saved => exact h.retryTo _ _
  | retryFailed retry =>
    obtain ⟨queued, hqueued, htimer⟩ := hovertaken
    exact (h.retryTo retry none).retryFailed hqueued htimer
  | removeCalled =>
    refine ⟨h.timers, ?_, ?_, h.removed, h.exceptions⟩
    · intro removal hmem hdequeued
      rcases List.mem_append.mp hmem with hmem | hmem
      · exact h.dequeued removal hmem hdequeued
      · rw [List.mem_singleton.mp hmem] at hdequeued
        rcases hdequeued with hdequeued | hdequeued <;> cases hdequeued
    · intro hmem
      rcases List.mem_append.mp hmem with hmem | hmem
      · exact h.ending hmem
      · cases List.mem_singleton.mp hmem
  | webhooksCleared =>
    refine h.removalTo .clearing ?_ nofun
    rintro removal hmem hdequeued
    obtain rfl := Option.some.inj hmem
    rcases hdequeued with hdequeued | hdequeued <;> cases hdequeued
  | deregisterFailed => exact h.removalTo .deregistering nofun nofun
  | dequeued => exact h.dequeue
  | closeFailed => exact h.removalTo .closing nofun nofun
  | closed =>
    have hnone := h.dequeued .closing henabled (Or.inl rfl)
    exact h.inactive.removalTo .closing (fun _ _ _ => hnone) fun _ => rfl
  | removeCompleted =>
    have hnone := h.dequeued .ending henabled (Or.inr rfl)
    have hremoval : (s.removalTo .ending none).Consistent := h.removalTo .ending nofun nofun
    exact ⟨hremoval.timers, hremoval.dequeued, hremoval.ending,
      fun _ => ⟨h.ending henabled, hnone⟩, hremoval.exceptions⟩

theorem staysRemoved_of_notOvertaken {tr : List (Event × ActiveWorkflowManager)}
    (hr : Run Step initial tr) (hovertaken : EveryStep NotOvertaken initial tr) :
    Always StaysRemoved initial tr := by
  have hinitial : initial.Consistent := ⟨Or.inl rfl, nofun, nofun, nofun, rfl⟩
  exact (hr.always hinitial (fun _ _ _ h hc hs => h.step hc hs) hovertaken).mono
    fun _ h => h.staysRemoved

end Consistent

section Example

/-- A retry is on its way when the workflow is removed, and succeeds after that. -/
def overtaken : List Event :=
  [.addQueued, .timer 0, .removeCalled, .webhooksCleared, .dequeued, .removeCompleted, .activated,
    .added .polling, .settled, .saved]

theorem overtaken_not_staysRemoved :
    Run Step initial (trace next initial overtaken) ∧
    ¬ Always StaysRemoved initial (trace next initial overtaken) := by
  refine ⟨run_trace (fun _ _ h => ⟨h, rfl⟩) (by decide), fun h => ?_⟩
  have hactive := (h.final.1 (by decide) (by decide) (by decide)).1
  revert hactive
  decide

/-- A retry fails, the next one succeeds, and then the workflow is removed. -/
def retriedThenRemoved : List Event :=
  [.addQueued, .timer 0, .addFailed .activating, .retryFailed .failing, .timer 1, .activated,
    .added .polling, .settled, .saved, .removeCalled, .webhooksCleared, .dequeued, .closed,
    .removeCompleted]

theorem retriedThenRemoved_staysRemoved :
    Always StaysRemoved initial (trace next initial retriedThenRemoved) := by
  refine staysRemoved_of_notOvertaken (run_trace (fun _ _ h => ⟨h, rfl⟩) (by decide)) ?_
  refine ⟨nofun, trivial, trivial, ⟨⟨1000, 0⟩, rfl, nofun⟩, trivial, ⟨rfl, nofun⟩, ?_⟩
  exact ⟨trivial, trivial, trivial, trivial, trivial, trivial, trivial, trivial, trivial⟩

end Example

end ActiveWorkflowManager
end N8n.Activation
