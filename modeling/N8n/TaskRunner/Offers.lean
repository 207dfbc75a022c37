import N8n.TaskRunner.Runner
import N8n.TaskBroker.Senders
import N8n.Foundations.Runs
import N8n.Foundations.Totals

/-!
# What a runner has promised

An open offer is a promise of a place, and a running task takes one. The two maps
together never hold more than `maxConcurrency`: `sendOffers` fills up to it and no
further, and a task that is accepted takes the place of the offer it came with.
-/

namespace N8n.TaskRunner
open N8n.TaskBroker (RunnerMessage ToRunner)
open N8n.Runs

namespace Runner

/-- The places that are promised or taken. -/
def committed (s : Runner) : ℕ := s.openOffers.size + s.runningTasks.size

/-- The tasks are as they were, and only offers have been sent. -/
structure Offers (s s' : Runner) : Prop where
  places : s'.maxConcurrency = s.maxConcurrency
  running : s'.runningTasks = s.runningTasks
  states : s'.taskStates = s.taskStates
  count : s'.nextState = s.nextState
  executions : s'.executions = s.executions
  sent : ∃ offers, s'.sent = s.sent ++ offers ∧
    ∀ m ∈ offers, ∃ offerId taskType validFor, m = .taskOffer offerId taskType validFor

theorem Offers.refl (s : Runner) : Offers s s :=
  ⟨rfl, rfl, rfl, rfl, rfl, [], (List.append_nil _).symm, nofun⟩

theorem Offers.trans {s t u : Runner} (h : Offers s t) (h' : Offers t u) : Offers s u := by
  obtain ⟨sent, hsent, ho⟩ := h.sent
  obtain ⟨sent', hsent', ho'⟩ := h'.sent
  refine ⟨h'.places.trans h.places, h'.running.trans h.running, h'.states.trans h.states,
    h'.count.trans h.count, h'.executions.trans h.executions, sent ++ sent', ?_, ?_⟩
  · rw [hsent', hsent, List.append_assoc]
  · intro m hm
    rcases List.mem_append.mp hm with hm | hm
    · exact ho m hm
    · exact ho' m hm

/-! ### Stale offers -/

theorem deleteIfStale_offers (s : Runner) (e : String × TaskOffer) :
    Offers s (s.deleteIfStale e) ∧ (s.deleteIfStale e).committed ≤ s.committed := by
  unfold deleteIfStale
  dsimp only
  split
  · exact ⟨⟨rfl, rfl, rfl, rfl, rfl, [], (List.append_nil _).symm, nofun⟩,
      Nat.add_le_add_right (s.openOffers.size_delete_le e.1) _⟩
  · exact ⟨⟨rfl, rfl, rfl, rfl, rfl, [], (List.append_nil _).symm, nofun⟩, Nat.le_refl _⟩

theorem deleteStaleOffers_offers (s : Runner) :
    Offers s s.deleteStaleOffers ∧ s.deleteStaleOffers.committed ≤ s.committed := by
  have hfold : ∀ (es : List (String × TaskOffer)) (t : Runner),
      Offers t (es.foldl deleteIfStale t) ∧ (es.foldl deleteIfStale t).committed ≤ t.committed := by
    intro es
    induction es with
    | nil => intro t; exact ⟨.refl t, Nat.le_refl _⟩
    | cons e es ih =>
      intro t
      obtain ⟨ho, hle⟩ := t.deleteIfStale_offers e
      obtain ⟨ho', hle'⟩ := ih (t.deleteIfStale e)
      exact ⟨ho.trans ho', hle'.trans hle⟩
  exact hfold s.openOffers.entries s

/-! ### New offers -/

theorem sendOffer_offers (s : Runner) :
    Offers s s.sendOffer ∧ s.sendOffer.committed ≤ s.committed + 1 := by
  refine ⟨⟨rfl, rfl, rfl, rfl, rfl, _, rfl, fun m hm => ?_⟩, ?_⟩
  · exact ⟨_, _, _, List.mem_singleton.mp hm⟩
  · obtain ⟨offer, ho⟩ : ∃ offer,
        s.sendOffer.openOffers = s.openOffers.set (s.nanoid s.offersMade) offer := ⟨_, rfl⟩
    have hset := s.openOffers.size_set_le (s.nanoid s.offersMade) offer
    have hrunning : s.sendOffer.runningTasks = s.runningTasks := rfl
    rw [committed, committed, ho, hrunning]
    omega

theorem iterate_sendOffer (n : ℕ) (s : Runner) :
    Offers s (sendOffer^[n] s) ∧ (sendOffer^[n] s).committed ≤ s.committed + n := by
  induction n generalizing s with
  | zero => exact ⟨.refl s, Nat.le_refl _⟩
  | succ n ih =>
    obtain ⟨ho, hle⟩ := s.sendOffer_offers
    obtain ⟨ho', hle'⟩ := ih s.sendOffer
    rw [Function.iterate_succ_apply]
    exact ⟨ho.trans ho', by omega⟩

theorem sendOffers_offers (s : Runner) : Offers s s.sendOffers := by
  unfold sendOffers
  dsimp only
  split
  · exact s.deleteStaleOffers_offers.1.trans (iterate_sendOffer _ _).1
  · exact s.deleteStaleOffers_offers.1

theorem sendOffers_committed {s : Runner} (h : s.committed ≤ s.maxConcurrency) :
    s.sendOffers.committed ≤ s.maxConcurrency := by
  obtain ⟨ho, hle⟩ := s.deleteStaleOffers_offers
  unfold sendOffers
  dsimp only
  split
  · have hroom := (iterate_sendOffer s.deleteStaleOffers.offersToSend s.deleteStaleOffers).2
    have hfree : s.deleteStaleOffers.offersToSend =
        s.maxConcurrency - s.deleteStaleOffers.committed := by
      rw [← ho.places]
      rfl
    omega
  · exact hle.trans h

/-! ### One step -/

/-- `s'` has been made from `s` without answering to an offer's acceptance. -/
structure Keeps (s s' : Runner) : Prop where
  places : s'.maxConcurrency = s.maxConcurrency
  committed : s.committed ≤ s.maxConcurrency → s'.committed ≤ s.maxConcurrency
  sent : ∃ new, s'.sent = s.sent ++ new ∧ ∀ m ∈ new, m.answersOffer = false

theorem Keeps.refl (s : Runner) : Keeps s s :=
  ⟨rfl, fun h => h, [], (List.append_nil _).symm, nofun⟩

theorem Keeps.trans {s t u : Runner} (h : Keeps s t) (h' : Keeps t u) : Keeps s u := by
  obtain ⟨sent, hsent, ho⟩ := h.sent
  obtain ⟨sent', hsent', ho'⟩ := h'.sent
  refine ⟨h'.places.trans h.places, fun hs => ?_, sent ++ sent', ?_, fun m hm => ?_⟩
  · rw [← h.places]
    exact h'.committed (h.places.symm ▸ h.committed hs)
  · rw [hsent', hsent, List.append_assoc]
  · rcases List.mem_append.mp hm with hm | hm
    · exact ho m hm
    · exact ho' m hm

/-- Nothing but the states and the executions of tasks has changed. -/
theorem Keeps.of_eq {s s' : Runner} (hmax : s'.maxConcurrency = s.maxConcurrency)
    (hoffers : s'.openOffers = s.openOffers) (hrunning : s'.runningTasks = s.runningTasks)
    (hsent : s'.sent = s.sent) : Keeps s s' := by
  refine ⟨hmax, fun h => ?_, [], by rw [hsent, List.append_nil], nofun⟩
  unfold Runner.committed at *
  rw [hoffers, hrunning]
  exact h

theorem send_keeps (s : Runner) {m : RunnerMessage} (hm : m.answersOffer = false) :
    Keeps s (s.send m) :=
  ⟨rfl, fun h => h, [m], rfl, fun _ h => List.mem_singleton.mp h ▸ hm⟩

theorem sendOffers_keeps (s : Runner) : Keeps s s.sendOffers := by
  obtain ⟨offers, hsent, ho⟩ := s.sendOffers_offers.sent
  refine ⟨s.sendOffers_offers.places, sendOffers_committed, offers, hsent, fun m hm => ?_⟩
  obtain ⟨_, _, _, rfl⟩ := ho m hm
  rfl

theorem finishTask_keeps (s : Runner) (state : ℕ) : Keeps s (s.finishTask state) := by
  refine .trans (t := s.removeTask state)
    ⟨rfl, fun h => ?_, [], (List.append_nil _).symm, nofun⟩ (sendOffers_keeps _)
  exact (Nat.add_le_add_left (s.runningTasks.size_delete_le _) _).trans h

theorem taskCancelled_keeps (s : Runner) (taskId : ℕ) : Keeps s (s.taskCancelled taskId) := by
  unfold taskCancelled
  split
  · exact .refl s
  split
  · exact s.finishTask_keeps _
  · exact .refl s
  · exact .refl s
  · exact .of_eq rfl rfl rfl rfl

theorem taskTimedOut_keeps (s : Runner) (taskId : ℕ) : Keeps s (s.taskTimedOut taskId).1 := by
  unfold taskTimedOut
  split
  · exact .refl s
  split
  · exact (s.send_keeps rfl).trans (finishTask_keeps _ _)
  · exact .refl s
  · exact .of_eq rfl rfl rfl rfl
  · exact .refl s

theorem timerFires_keeps (s : Runner) (state : ℕ) : Keeps s (s.timerFires state) := by
  unfold timerFires
  split
  · exact .trans (t := s.cleanup state) (.of_eq rfl rfl rfl rfl) (taskTimedOut_keeps _ _)
  · exact .refl s

theorem receivedSettings_keeps (s : Runner) (taskId : ℕ) :
    Keeps s (s.receivedSettings taskId).1 := by
  unfold receivedSettings
  split
  · exact .refl s
  split
  · exact .of_eq rfl rfl rfl rfl
  all_goals exact .refl s

theorem endExecution_keeps (s : Runner) (state : ℕ) {m : ℕ → RunnerMessage}
    (hm : ∀ t, (m t).answersOffer = false) : Keeps s (s.endExecution state m).1 := by
  unfold endExecution
  split
  · exact .refl s
  · exact .refl s
  all_goals exact s.send_keeps (hm _)

theorem taskExecutionFailed_keeps (s : Runner) (state : ℕ) (error : String) :
    Keeps s (s.taskExecutionFailed state error) :=
  (s.endExecution_keeps (m := (.taskError · error)) state fun _ => rfl).trans
    (.of_eq rfl rfl rfl rfl)

theorem taskExecutionSucceeded_keeps (s : Runner) (state : ℕ) (data : String) :
    Keeps s (s.taskExecutionSucceeded state data) :=
  (s.endExecution_keeps (m := (.taskDone · data)) state fun _ => rfl).trans
    (.of_eq rfl rfl rfl rfl)

theorem executionEnded_keeps (s : Runner) (state : ℕ) (result : Except String String) :
    Keeps s (s.executionEnded state result) := by
  unfold executionEnded
  split
  · exact s.taskExecutionSucceeded_keeps state _
  · exact s.taskExecutionFailed_keeps state _
  · exact .refl s

theorem executionHandled_keeps (s : Runner) (state : ℕ) :
    Keeps s (s.executionHandled state) := by
  unfold executionHandled
  split
  · exact (s.finishTask_keeps state).trans (.of_eq rfl rfl rfl rfl)
  · exact (s.finishTask_keeps state).trans (taskExecutionFailed_keeps _ _ _)
  · exact (s.finishTask_keeps state).trans (.of_eq rfl rfl rfl rfl)
  · exact .refl s

/-- A task is accepted for the offer it came with, and the offer is used up. -/
structure TakesOffer (s : Runner) (offerId : String) (taskId : ℕ) (s' : Runner) : Prop where
  opened : offerId ∈ s.openOffers.keys
  used : s'.openOffers = s.openOffers.delete offerId
  sent : s'.sent = s.sent ++ [.taskAccepted taskId]
  running : (s'.runningTasks.get? taskId).isSome

structure RefusesOffer (s : Runner) (taskId : ℕ) (s' : Runner) : Prop where
  places : s'.maxConcurrency = s.maxConcurrency
  committed : s'.committed ≤ s.committed
  sent : ∃ reason, s'.sent = s.sent ++ [.taskRejected taskId reason]

/-- There is a place for the task, and its offer is still open. -/
def accepts (s : Runner) (offerId : String) : Bool :=
  s.hasOpenTaskSlots && s.openOffers.has offerId

theorem offerAccepted_refuses {s : Runner} {offerId : String} (h : s.accepts offerId = false)
    (taskId : ℕ) : RefusesOffer s taskId (s.offerAccepted offerId taskId) := by
  unfold offerAccepted
  split
  · rename_i hroom
    have hnone : s.openOffers.get? offerId = none := by
      simpa [accepts, hroom, OrderedMap.has] using h
    rw [hnone]
    exact ⟨rfl, Nat.le_refl _, _, rfl⟩
  · exact ⟨rfl, Nat.add_le_add_right (s.openOffers.size_delete_le offerId) _, _, rfl⟩

theorem offerAccepted_takes {s : Runner} {offerId : String} (h : s.accepts offerId = true)
    (taskId : ℕ) : TakesOffer s offerId taskId (s.offerAccepted offerId taskId) ∧
      (s.offerAccepted offerId taskId).maxConcurrency = s.maxConcurrency ∧
      (s.offerAccepted offerId taskId).committed ≤ s.committed := by
  obtain ⟨hroom, hopened⟩ := Bool.and_eq_true_iff.mp h
  obtain ⟨offer, ho⟩ := Option.isSome_iff_exists.mp hopened
  have hkey : offerId ∈ s.openOffers.keys := by
    by_contra hno
    rw [OrderedMap.get?_eq_none.mpr hno] at ho
    cases ho
  rw [offerAccepted, if_pos hroom, ho]
  refine ⟨⟨hkey, rfl, rfl, ?_⟩, rfl, ?_⟩
  · simp [send]
  -- the task takes the place of the offer
  · have hfree : (s.openOffers.delete offerId).size + 1 = s.openOffers.size :=
      OrderedMap.size_delete ho
    have htaken := s.runningTasks.size_set_le taskId s.nextState
    simp only [committed, send]
    omega

theorem next_keeps (s : Runner) {e : RunnerEvent}
    (he : ∀ offerId taskId, e ≠ .message (.taskOfferAccept offerId taskId)) :
    Keeps s (s.next e) := by
  cases e with
  | message m =>
    cases m with
    | taskOfferAccept offerId taskId => exact absurd rfl (he offerId taskId)
    | taskCancel taskId reason => exact s.taskCancelled_keeps taskId
    | taskSettings taskId settings => exact s.receivedSettings_keeps taskId
    | _ => exact .of_eq rfl rfl rfl rfl
  | infoRequest => exact s.send_keeps rfl
  | closed => exact .of_eq rfl rfl rfl rfl
  | offerInterval => exact s.sendOffers_keeps
  | timer state => exact s.timerFires_keeps state
  | ended state result => exact s.executionEnded_keeps state result
  | handled state => exact s.executionHandled_keeps state

theorem next_cases (s : Runner) (e : RunnerEvent) :
    Keeps s (s.next e) ∨ ∃ offerId taskId, e = .message (.taskOfferAccept offerId taskId) ∧
      (RefusesOffer s taskId (s.next e) ∨ TakesOffer s offerId taskId (s.next e) ∧
        (s.next e).maxConcurrency = s.maxConcurrency ∧ (s.next e).committed ≤ s.committed) := by
  by_cases he : ∃ offerId taskId, e = .message (.taskOfferAccept offerId taskId)
  · obtain ⟨offerId, taskId, rfl⟩ := he
    refine Or.inr ⟨offerId, taskId, rfl, ?_⟩
    cases h : s.accepts offerId with
    | false => exact Or.inl (offerAccepted_refuses h taskId)
    | true => exact Or.inr (offerAccepted_takes h taskId)
  · exact Or.inl (s.next_keeps fun offerId taskId h => he ⟨offerId, taskId, h⟩)

/-- The acceptances of a step are one, of the task that the broker named, and it has used
up the open offer that the broker named. -/
def AcceptsForOffer (s : Runner) (e : RunnerEvent) (s' : Runner) : Prop :=
  ∃ new, s'.sent = s.sent ++ new ∧ ∀ taskId, .taskAccepted taskId ∈ new →
    ∃ offerId, e = .message (.taskOfferAccept offerId taskId) ∧ TakesOffer s offerId taskId s'

theorem next_acceptsForOffer (s : Runner) (e : RunnerEvent) :
    AcceptsForOffer s e (s.next e) := by
  rcases s.next_cases e with hk | ⟨offerId, taskId, he, hr | ⟨ht, _⟩⟩
  · obtain ⟨new, hsent, hno⟩ := hk.sent
    exact ⟨new, hsent, fun taskId hm => absurd (hno _ hm) nofun⟩
  · obtain ⟨reason, hsent⟩ := hr.sent
    exact ⟨_, hsent, fun taskId hm => by simp at hm⟩
  · refine ⟨_, ht.sent, fun taskId' hm => ?_⟩
    cases List.mem_singleton.mp hm
    exact ⟨offerId, he, ht⟩

theorem next_committed {s : Runner} (e : RunnerEvent) (h : s.committed ≤ s.maxConcurrency) :
    (s.next e).committed ≤ (s.next e).maxConcurrency ∧
      (s.next e).maxConcurrency = s.maxConcurrency := by
  rcases s.next_cases e with hk | ⟨_, _, _, hr | ⟨_, hmax, hle⟩⟩
  · rw [hk.places]
    exact ⟨hk.committed h, rfl⟩
  · rw [hr.places]
    exact ⟨hr.committed.trans h, rfl⟩
  · rw [hmax]
    exact ⟨hle.trans h, rfl⟩

/-- Offers and tasks together never exceed the places, and a task that is accepted uses up
exactly one open offer. -/
theorem never_overcommits {opts : TaskRunnerOpts} {world : Surroundings}
    {tr : List (RunnerEvent × Runner)} (hr : Run Step (initial opts world) tr) :
    Always (fun s => s.openOffers.size + s.runningTasks.size ≤ opts.maxConcurrency)
        (initial opts world) tr ∧
      EveryTransition AcceptsForOffer (initial opts world) tr := by
  constructor
  · have hinv : Always (fun s => s.committed ≤ s.maxConcurrency ∧
        s.maxConcurrency = opts.maxConcurrency) (initial opts world) tr := by
      refine hr.invariant ⟨Nat.zero_le _, rfl⟩ ?_
      rintro s e s' ⟨hle, hmax⟩ rfl
      obtain ⟨hle', hmax'⟩ := next_committed e hle
      exact ⟨hle', hmax'.trans hmax⟩
    exact hinv.mono fun s h => h.2 ▸ h.1
  · exact hr.transitions fun s e s' hs => hs ▸ s.next_acceptsForOffer e

/-- Two places, an offer for each, and one offer that is accepted twice. -/
def acceptedTwice : List RunnerEvent :=
  [.message .runnerRegistered, .offerInterval, .message (.taskOfferAccept "x" 7),
    .message (.taskOfferAccept "x" 8), .offerInterval]

def twoPlaces : Runner :=
  initial ⟨"javascript", none, 2, 60⟩
    ⟨fun n => String.ofList (List.replicate (n + 1) 'x'), fun n => n, fun n => n⟩

theorem never_overcommits_two :
    ((finalState twoPlaces (trace next twoPlaces acceptedTwice)).openOffers.size = 1 ∧
      (finalState twoPlaces (trace next twoPlaces acceptedTwice)).runningTasks.keys = [7]) ∧
    Always (fun s => s.openOffers.size + s.runningTasks.size ≤ 2) twoPlaces
        (trace next twoPlaces acceptedTwice) ∧
      EveryTransition AcceptsForOffer twoPlaces (trace next twoPlaces acceptedTwice) :=
  ⟨by decide, never_overcommits (run_trace_of_total step_next twoPlaces _)⟩

end Runner
end N8n.TaskRunner
