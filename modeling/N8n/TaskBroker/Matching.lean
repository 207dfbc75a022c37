import N8n.TaskBroker.Handshakes
import N8n.Foundations.Runs

/-!
# Offers and requests the broker leaves unmatched

`settleTasks` leaves no pending request that is free and no unexpired offer of
the same type side by side. It runs when a request or an offer arrives. A
request comes free again when `acceptOffer` returns it: after a rejection, a
deferral, a timeout, or a message that could not be sent. The pair is missed
exactly when an offer of its type is pending at that moment.
-/

namespace N8n.TaskBroker
open N8n.Runs

theorem TaskOffer.expired_mono {o : TaskOffer} {t t' : ℤ} (h : t ≤ t')
    (ho : o.expired t' = false) : o.expired t = false := by
  simp only [expired, Bool.and_eq_false_iff, decide_eq_false_iff_not] at ho ⊢
  omega

namespace Broker

def NoMissedMatch (s : Broker) : Prop :=
  ∀ o ∈ s.pendingTaskOffers, o.expired s.now = false →
    ∀ r ∈ s.pendingTaskRequests, (s.requests r).acceptInProgress = false →
      o.taskType ≠ (s.requests r).taskType

instance (s : Broker) : Decidable s.NoMissedMatch := by
  unfold NoMissedMatch
  infer_instance

theorem NoMissedMatch.of_quieter {s s' : Broker} (h : s.NoMissedMatch) (hq : Quieter s s') :
    s'.NoMissedMatch := by
  intro o ho hexp r hr hfree
  rw [hq.objects] at hfree ⊢
  exact h o (hq.offers o ho) (TaskOffer.expired_mono hq.later hexp) r (hq.pending r hr) hfree

/-! ### What settling leaves -/

def Settled (s : Broker) (request : ℕ) : Prop :=
  (s.requests request).acceptInProgress = false →
    ∀ o ∈ s.pendingTaskOffers, o.taskType ≠ (s.requests request).taskType

theorem acceptOffer_fields (s : Broker) (offer : TaskOffer) (request : ℕ) :
    (s.acceptOffer offer request).pendingTaskOffers = s.pendingTaskOffers ∧
      (s.acceptOffer offer request).pendingTaskRequests = s.pendingTaskRequests ∧
      (s.acceptOffer offer request).requests = s.requests := by
  unfold acceptOffer
  dsimp only
  obtain ⟨sent, he⟩ := messageRunner_eq ({ s with
    nextTaskId := s.nextTaskId + 1
    runnerAcceptRejects := s.runnerAcceptRejects ++ [s.nextTaskId] }.putHandshake
      ⟨s.nextTaskId, offer, request, .offering, none, none⟩) offer.runnerId
    (.taskOfferAccept offer.offerId s.nextTaskId)
  rw [he]
  exact ⟨rfl, rfl, rfl⟩

theorem settleRequest_cases (s : Broker) (request : ℕ) :
    (s.settleRequest request = s ∧ s.Settled request) ∨
      ((s.settleRequest request).pendingTaskRequests = s.pendingTaskRequests ∧
        (∀ o ∈ (s.settleRequest request).pendingTaskOffers, o ∈ s.pendingTaskOffers) ∧
        (s.settleRequest request).requests = Function.update s.requests request
          { s.requests request with acceptInProgress := true }) := by
  unfold settleRequest Settled
  dsimp only
  split
  · rename_i hb
    left
    exact ⟨rfl, fun hf => absurd hb (by simp [hf])⟩
  · split
    · rename_i hn
      left
      refine ⟨rfl, fun _ o ho he => ?_⟩
      simpa [he] using List.find?_eq_none.mp hn o ho
    · rename_i offer _
      right
      obtain ⟨ho, hp, hr⟩ := acceptOffer_fields { s with
        requests := Function.update s.requests request
          { s.requests request with acceptInProgress := true }
        pendingTaskOffers := s.pendingTaskOffers.eraseP
          (fun o => o.taskType == (s.requests request).taskType) } offer request
      refine ⟨hp, fun o hm => ?_, hr⟩
      rw [ho] at hm
      exact List.mem_of_mem_eraseP hm

theorem settleRequest_settles (s : Broker) (request : ℕ) :
    (s.settleRequest request).Settled request := by
  rcases settleRequest_cases s request with ⟨he, hs⟩ | ⟨_, _, hr⟩
  · rw [he]
    exact hs
  · intro hf
    rw [hr] at hf
    simp at hf

theorem settleRequest_keeps {s : Broker} {r : ℕ} (h : s.Settled r) (request : ℕ) :
    (s.settleRequest request).Settled r := by
  rcases settleRequest_cases s request with ⟨he, _⟩ | ⟨_, ho, hr⟩
  · rw [he]
    exact h
  · intro hf o hm
    rw [hr] at hf ⊢
    by_cases hrr : r = request
    · subst hrr
      simp at hf
    · rw [Function.update_of_ne hrr] at hf ⊢
      exact h hf o (ho o hm)

theorem settleRequest_pending (s : Broker) (request : ℕ) :
    (s.settleRequest request).pendingTaskRequests = s.pendingTaskRequests := by
  rcases settleRequest_cases s request with ⟨he, _⟩ | ⟨hp, _⟩
  · rw [he]
  · exact hp

theorem foldl_settleRequest (l : List ℕ) (s : Broker) :
    (l.foldl settleRequest s).pendingTaskRequests = s.pendingTaskRequests ∧
      (∀ r, r ∈ l ∨ s.Settled r → (l.foldl settleRequest s).Settled r) := by
  induction l generalizing s with
  | nil => exact ⟨rfl, fun r h => h.resolve_left (by simp)⟩
  | cons request l ih =>
    obtain ⟨hp, hs⟩ := ih (s.settleRequest request)
    refine ⟨hp.trans (settleRequest_pending s request), fun r h => hs r ?_⟩
    rcases h with h | h
    · rcases List.mem_cons.mp h with rfl | h
      · exact Or.inr (settleRequest_settles s r)
      · exact Or.inl h
    · exact Or.inr (settleRequest_keeps h request)

theorem settleTasks_noMissedMatch (s : Broker) : s.settleTasks.NoMissedMatch := by
  intro o ho _ r hr hfree
  obtain ⟨hp, hs⟩ := foldl_settleRequest s.expireTasks.pendingTaskRequests s.expireTasks
  have hr' : r ∈ s.expireTasks.pendingTaskRequests := hp ▸ hr
  exact hs r (Or.inl hr') hfree o ho

/-! ### Steps that return a request -/

def awaiting (s : Broker) (taskId : ℕ) : Option Handshake :=
  (s.handshakes.get? taskId).filter
    (fun h => decide (h.phase = .awaitingRunner) && h.runnerAnswer.isNone)

def answerable (s : Broker) (runnerId : String) (taskId : ℕ) : Option Handshake :=
  if runnerId ∈ s.knownRunners ∧ taskId ∈ s.runnerAcceptRejects then s.awaiting taskId else none

end Broker

/-- The answers that make `acceptOffer` give its request back; a deferral also puts it
on the list once more. -/
def Handshake.returnOn (h : Handshake) : RunnerAnswer → Option (Handshake × Bool)
  | .accepted => none
  | .rejected _ => some (h, false)
  | .deferred => some (h, true)
  | .timedOut => some (h, false)

namespace Broker

def returned (s : Broker) : Event → Option (Handshake × Bool)
  | .taskRejected runnerId taskId reason =>
    (s.answerable runnerId taskId).bind (·.returnOn (.rejected reason))
  | .taskDeferred runnerId taskId => (s.answerable runnerId taskId).bind (·.returnOn .deferred)
  | .runnerAcceptTimeout taskId => (s.awaiting taskId).bind (·.returnOn .timedOut)
  | .messageSettled taskId sent =>
    ((s.handshakes.get? taskId).filter (fun h => decide (h.phase = .offering))).bind fun h =>
      if sent then h.runnerAnswer.bind h.returnOn else some (h, false)
  | _ => none

/-- A request is given back while an unexpired offer of its type is pending. -/
def ReturnsToOffer (s : Broker) (e : Event) : Prop :=
  ∃ p ∈ s.returned e, (p.2 = true ∨ p.1.request ∈ s.pendingTaskRequests) ∧
    ∃ o ∈ s.pendingTaskOffers, o.expired s.now = false ∧
      o.taskType = (s.requests p.1.request).taskType

instance (s : Broker) (e : Event) : Decidable (s.ReturnsToOffer e) := by
  unfold ReturnsToOffer
  infer_instance

/-- The queues after the step are those that `returnRequest` leaves. -/
structure Returns (s : Broker) (p : Handshake × Bool) (s' : Broker) : Prop where
  offers : s'.pendingTaskOffers = s.pendingTaskOffers
  pending : s'.pendingTaskRequests =
    if p.2 then s.pendingTaskRequests ++ [p.1.request] else s.pendingTaskRequests
  objects : s'.requests = Function.update s.requests p.1.request
    { s.requests p.1.request with acceptInProgress := false }
  later : s'.now = s.now

theorem returnRequest_returns (s : Broker) (h : Handshake) (deferred rejects : Bool) :
    Returns s (h, deferred) (s.returnRequest h deferred rejects) := ⟨rfl, rfl, rfl, rfl⟩

theorem Returns.missed_iff {s s' : Broker} {p : Handshake × Bool} (hr : Returns s p s')
    (h : s.NoMissedMatch) : s'.NoMissedMatch ↔
      ¬ ((p.2 = true ∨ p.1.request ∈ s.pendingTaskRequests) ∧ ∃ o ∈ s.pendingTaskOffers,
        o.expired s.now = false ∧ o.taskType = (s.requests p.1.request).taskType) := by
  have hmem : ∀ r, r ∈ s'.pendingTaskRequests ↔
      r ∈ s.pendingTaskRequests ∨ (p.2 = true ∧ r = p.1.request) := by
    intro r
    rw [hr.pending]
    split <;> simp_all
  constructor
  · rintro hn ⟨hp, o, ho, hexp, htype⟩
    have hin : p.1.request ∈ s'.pendingTaskRequests := by
      rw [hmem]
      tauto
    refine hn o (hr.offers ▸ ho) (hr.later ▸ hexp) p.1.request hin ?_ ?_
    · simp [hr.objects]
    · simpa [hr.objects] using htype
  · intro hn o ho hexp r hrm hfree
    rw [hr.offers] at ho
    rw [hr.later] at hexp
    rw [hr.objects] at hfree ⊢
    by_cases hrr : r = p.1.request
    · subst hrr
      rw [Function.update_self]
      intro htype
      have := (hmem _).mp hrm
      exact hn ⟨by tauto, o, ho, hexp, htype⟩
    · rw [Function.update_of_ne hrr] at hfree ⊢
      exact h o ho hexp r (((hmem r).mp hrm).resolve_right (fun hh => hrr hh.2)) hfree

/-- What a step does to the queues: either it returns `p`, or it returns nothing. -/
def Accounts (s : Broker) (p : Option (Handshake × Bool)) (s' : Broker) : Prop :=
  match p with
  | none => Quieter s s'
  | some p => Returns s p s'

@[simp] theorem accounts_none {s s' : Broker} : Accounts s none s' ↔ Quieter s s' := Iff.rfl

@[simp] theorem accounts_some {s s' : Broker} {p : Handshake × Bool} :
    Accounts s (some p) s' ↔ Returns s p s' := Iff.rfl

theorem resumeRunner_accounts (s : Broker) {h h' : Handshake} {a : RunnerAnswer}
    (ha : h'.runnerAnswer = some a) (hr : h'.request = h.request) :
    Accounts s (h.returnOn a) ((s.putHandshake h').resumeRunner h') := by
  unfold resumeRunner
  rw [ha]
  cases a with
  | accepted => exact (putHandshake_quieter s h').trans (createTask_quieter _ _)
  | rejected reason => exact ⟨rfl, rfl, by rw [← hr]; rfl, rfl⟩
  | deferred => exact ⟨rfl, by rw [← hr]; rfl, by rw [← hr]; rfl, rfl⟩
  | timedOut => exact ⟨rfl, rfl, by rw [← hr]; rfl, rfl⟩

theorem answerRunner_accounts (s : Broker) (taskId : ℕ) (a : RunnerAnswer) :
    Accounts s ((s.awaiting taskId).bind (·.returnOn a)) (s.answerRunner taskId a) := by
  unfold answerRunner awaiting
  cases hg : s.handshakes.get? taskId with
  | none => exact .refl s
  | some h =>
    rcases Option.eq_none_or_eq_some h.runnerAnswer with hn | ⟨b, hb⟩
    · by_cases hph : h.phase = .awaitingRunner
      · simpa [hn, hph, Option.filter_some] using
          @resumeRunner_accounts s h { h with runnerAnswer := some a } a rfl rfl
      · simpa [hn, hph, Option.filter_some] using putHandshake_quieter s _
    · simpa [hb, Option.filter_some] using Quieter.refl s

theorem handleRunnerAnswer_accounts (s : Broker) (runnerId : String) (taskId : ℕ)
    (a : RunnerAnswer) :
    Accounts s ((s.answerable runnerId taskId).bind (·.returnOn a))
      (s.fromRunner runnerId (·.handleRunnerAnswer taskId a)) := by
  unfold fromRunner answerable handleRunnerAnswer
  by_cases hk : runnerId ∈ s.knownRunners
  · by_cases hr : taskId ∈ s.runnerAcceptRejects
    · simp only [hk, hr, if_true, and_self]
      have h := answerRunner_accounts { s with
        runnerAcceptRejects := s.runnerAcceptRejects.filter (fun id => decide (id ≠ taskId)) }
        taskId a
      revert h
      change Accounts _ ((s.awaiting taskId).bind _) _ → _
      cases (s.awaiting taskId).bind (·.returnOn a) with
      | none => exact fun h => ⟨h.offers, h.pending, h.objects, h.later⟩
      | some p => exact fun h => ⟨h.offers, h.pending, h.objects, h.later⟩
    · simp only [hk, hr, if_true, if_false, and_false]
      exact .refl s
  · simp only [hk, if_false, false_and]
    exact .refl s

theorem messageSettled_accounts (s : Broker) (taskId : ℕ) (sent : Bool) :
    Accounts s (s.returned (.messageSettled taskId sent)) (s.messageSettled taskId sent) := by
  simp only [messageSettled, returned]
  cases hg : s.handshakes.get? taskId with
  | none => exact Quieter.refl s
  | some h =>
    simp only [Option.filter_some]
    cases hph : h.phase with
    | offering =>
      cases sent with
      | false => exact returnRequest_returns s h false true
      | true =>
        rcases Option.eq_none_or_eq_some h.runnerAnswer with hn | ⟨a, ha⟩
        · simpa [hn, resumeRunner] using putHandshake_quieter s _
        · simpa [ha] using @resumeRunner_accounts s h { h with phase := .awaitingRunner } a ha
            rfl
    | readying =>
      cases sent with
      | false => exact cancelAndThrow_quieter s h
      | true => exact (putHandshake_quieter s _).trans (resumeRequester_quieter _ _)
    | sendingSettings =>
      cases sent with
      | false => exact cancelAndThrow_quieter s h
      | true => exact endHandshake_quieter s h false
    | failing => exact cancelAndThrow_quieter s h
    | cancelling => exact endHandshake_quieter s h true
    | awaitingRunner => exact Quieter.refl s
    | awaitingRequester => exact Quieter.refl s

/-! ### Runs -/

theorem next_cases {s : Broker} (hk : s.Keyed) (e : Event) :
    Accounts s (s.returned e) (s.next e) ∨ (s.returned e = none ∧ (s.next e).NoMissedMatch) := by
  have hsame : ∀ {s' : Broker}, s'.pendingTaskOffers = s.pendingTaskOffers →
      s'.pendingTaskRequests = s.pendingTaskRequests → s'.requests = s.requests →
      s.now ≤ s'.now → Quieter s s' :=
    fun ho hp hr hn => ⟨fun o h => ho ▸ h, fun r h => hp ▸ h, hr, hn⟩
  cases e with
  | registerRunner runnerId =>
    left
    have hq : Quieter s { s with knownRunners := s.knownRunners.insert runnerId } :=
      hsame rfl rfl rfl (le_refl _)
    exact hq.trans (messageRunner_quieter _ _ _)
  | deregisterRunner runnerId error => exact Or.inl (deregisterRunner_spec hk runnerId error).2
  | registerRequester | deregisterRequester => exact Or.inl (hsame rfl rfl rfl (le_refl _))
  | taskRequest requesterId requestId taskType =>
    exact Or.inr ⟨rfl, settleTasks_noMissedMatch _⟩
  | taskOffer runnerId offerId taskType validFor =>
    by_cases hrun : runnerId ∈ s.knownRunners
    · right
      simp only [next, fromRunner, hrun, if_true]
      exact ⟨rfl, settleTasks_noMissedMatch _⟩
    · left
      simp only [next, fromRunner, hrun, if_false]
      exact Quieter.refl s
  | taskAccepted runnerId taskId =>
    left
    have h := handleRunnerAnswer_accounts s runnerId taskId .accepted
    have hnone : ((s.answerable runnerId taskId).bind (·.returnOn .accepted)) = none := by
      cases s.answerable runnerId taskId <;> rfl
    rw [hnone] at h
    exact h
  | taskRejected runnerId taskId reason =>
    exact Or.inl (handleRunnerAnswer_accounts s runnerId taskId _)
  | taskDeferred runnerId taskId => exact Or.inl (handleRunnerAnswer_accounts s runnerId taskId _)
  | taskSettings taskId settings =>
    left
    simp only [next, handleRequesterAccept]
    split
    · have hq : Quieter s { s with requesterAcceptRejects :=
          s.requesterAcceptRejects.filter (fun id => decide (id ≠ taskId)) } :=
        hsame rfl rfl rfl (le_refl _)
      exact hq.trans (answerRequester_quieter _ _ _)
    · exact Quieter.refl s
  | taskCancel taskId reason =>
    left
    simp only [next]
    cases hc : s.cancelTask taskId reason with
    | none => exact Quieter.refl s
    | some s' => exact cancelTask_quieter hc
  | runnerAcceptTimeout taskId => exact Or.inl (answerRunner_accounts s taskId .timedOut)
  | requesterAcceptTimeout taskId => exact Or.inl (answerRequester_quieter s taskId .timedOut)
  | messageSettled taskId sent => exact Or.inl (messageSettled_accounts s taskId sent)
  | clock elapsed =>
    have hle : s.now ≤ s.now + elapsed := by omega
    exact Or.inl (hsame rfl rfl rfl hle)

theorem next_noMissedMatch_iff {s : Broker} (hk : s.Keyed) (hm : s.NoMissedMatch) (e : Event) :
    (s.next e).NoMissedMatch ↔ ¬ s.ReturnsToOffer e := by
  rcases next_cases hk e with h | ⟨hnone, h⟩
  · cases hp : s.returned e with
    | none =>
      rw [hp] at h
      exact iff_of_true (hm.of_quieter h) (by simp [ReturnsToOffer, hp])
    | some p =>
      rw [hp] at h
      simpa [ReturnsToOffer, hp] using Returns.missed_iff h hm
  · exact iff_of_true h (by simp [ReturnsToOffer, hnone])

theorem initial_noMissedMatch (now : ℤ) : (initial now).NoMissedMatch := by
  intro o ho
  cases ho

/-- No match is missed in a run exactly when none of its steps returns a request while
an unexpired offer of its type is pending. -/
theorem noMissedMatch_iff (now : ℤ) (tr : List (Event × Broker)) (hr : Run Step (initial now) tr) :
    Always NoMissedMatch (initial now) tr ↔
      EveryStep (fun s e => ¬ s.ReturnsToOffer e) (initial now) tr := by
  apply hr.always_iff_everyStep ⟨initial_keyed now, initial_noMissedMatch now⟩
    (fun s (h : s.Keyed ∧ s.NoMissedMatch) => h.2)
  · rintro s e s' ⟨hk, hm⟩ hc rfl
    exact ⟨hk.next e, (next_noMissedMatch_iff hk hm e).mpr hc⟩
  · rintro s e s' ⟨hk, hm⟩ hc rfl h
    exact hc ((next_noMissedMatch_iff hk hm e).mp h)

theorem step_next (s : Broker) (e : Event) : Step s e (s.next e) := rfl

theorem run_events (s : Broker) (es : List Event) : Run Step s (trace next s es) :=
  run_trace_of_total step_next s es

/-- Two runners offer, one while the other's handshake is open; the rejection leaves the
request free beside the second offer. -/
theorem missed_match : ¬ ∀ (now : ℤ) (tr : List (Event × Broker)), Run Step (initial now) tr →
    Always NoMissedMatch (initial now) tr := by
  intro h
  have hrun := run_events (initial 0) [.registerRunner "r1", .registerRunner "r2",
    .taskRequest "q" "request" "javascript", .taskOffer "r1" "o1" "javascript" 5000,
    .taskOffer "r2" "o2" "javascript" 5000, .messageSettled 0 true, .taskRejected "r1" 0 "busy"]
  exact absurd (h 0 _ hrun) (by decide)

theorem noMissedMatch_deferred : Always NoMissedMatch (initial 0)
    (trace next (initial 0) [.registerRunner "r1", .taskRequest "q" "request" "javascript",
      .taskOffer "r1" "o1" "javascript" 5000, .messageSettled 0 true, .taskDeferred "r1" 0,
      .taskOffer "r1" "o2" "javascript" 5000]) :=
  (noMissedMatch_iff 0 _ (run_events _ _)).mpr (by decide)

end Broker
end N8n.TaskBroker
