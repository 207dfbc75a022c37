import N8n.TaskBroker.PendingRequests

/-!
# How a handshake ends

The promise of a handshake is not awaited, so nothing catches its rejection. It is rejected when a
message of the handshake cannot be sent, when the requester gives no answer in time, and when the
settings arrive and the task or its runner is gone.
-/

namespace N8n.TaskBroker
open N8n.Runs

namespace Broker

/-- The requester of the handshake's request is there. -/
def hears (s : Broker) (h : Handshake) : Bool :=
  decide ((s.requests h.request).requesterId ∈ s.requesters)

/-- The task is there, and so is its runner. -/
def settable (s : Broker) (taskId : ℕ) : Bool :=
  (s.tasks.get? taskId).any fun task => decide (task.runnerId ∈ s.knownRunners)

/-- The event makes a handshake fail, now or when its last message has been settled. -/
def breaksOff (s : Broker) : Event → Bool
  | .taskAccepted runnerId taskId => (s.answerable runnerId taskId).any fun h => !s.hears h
  | .taskSettings taskId _ =>
    decide (taskId ∈ s.requesterAcceptRejects) && (s.handshakes.get? taskId).any fun h =>
      decide (h.phase = .awaitingRequester) && h.requesterAnswer.isNone && !s.settable taskId
  | .requesterAcceptTimeout taskId =>
    (s.handshakes.get? taskId).any fun h => h.requesterAnswer.isNone
  | .messageSettled taskId sent => (s.handshakes.get? taskId).any fun h =>
    match h.phase, sent with
    | .offering, true => decide (h.runnerAnswer = some .accepted) && !s.hears h
    | .readying, true => h.requesterAnswer.isSome && !s.settable taskId
    | .offering, false => true
    | .readying, false => true
    | .sendingSettings, false => true
    | _, _ => false
  | _ => false

/-- The requester has been told that a runner is ready for its request. -/
def Ready (s : Broker) (id : ℕ) (h : Handshake) : Prop :=
  ((s.requests h.request).requesterId, .taskReady (s.requests h.request).requestId id) ∈
    s.sentToRequesters

/-- A handshake that ends without a task has given its request back or handed it on. -/
def SettlesWell (s s' : Broker) : Prop :=
  ∀ id h, s.handshakes.get? id = some h → s'.handshakes.get? id = none →
    s'.tasks.get? id = none →
      (h.request ∈ s'.pendingTaskRequests ∧ (s'.requests h.request).acceptInProgress = false) ∨
        s'.Ready id h

/-- The handshake is on none of the ways out that reject its promise. -/
structure Sound (s : Broker) (id : ℕ) (h : Handshake) : Prop where
  failing : h.phase ≠ .failing
  cancelling : h.phase ≠ .cancelling
  inTime : h.requesterAnswer ≠ some .timedOut
  ready : h.accepting = false → s.Ready id h

structure Orderly (s : Broker) : Prop where
  escaped : s.escaped = []
  sound : ∀ id h, s.handshakes.get? id = some h → s.Sound id h

theorem initial_orderly (now : ℤ) : (initial now).Orderly := ⟨rfl, by simp [initial]⟩

section Advances
variable {s s' : Broker} {h : Handshake} {id : ℕ}

/-- Every handshake stays, goes on soundly or ends well. -/
structure Advances (s s' : Broker) : Prop where
  escaped : s'.escaped = s.escaped
  sent : ∀ m ∈ s.sentToRequesters, m ∈ s'.sentToRequesters
  names : ∀ r < s.nextRequest, (s'.requests r).requestId = (s.requests r).requestId ∧
    (s'.requests r).requesterId = (s.requests r).requesterId
  goesOn : ∀ id h', s'.handshakes.get? id = some h' →
    s.handshakes.get? id = some h' ∨ s'.Sound id h'
  ends : ∀ id h, s.handshakes.get? id = some h → h.accepting = true →
    s'.handshakes.get? id = none → s'.tasks.get? id = none →
      h.request ∈ s'.pendingTaskRequests ∧ (s'.requests h.request).acceptInProgress = false

theorem Ready.advances (hr : s.Ready id h) (ha : Advances s s') (hlt : h.request < s.nextRequest) :
    s'.Ready id h := by
  obtain ⟨hid, hrequester⟩ := ha.names h.request hlt
  rw [Ready, hid, hrequester]
  exact ha.sent _ hr

theorem OnList.lt (hl : s.OnList) (hg : s.handshakes.get? id = some h) :
    h.request < s.nextRequest := by
  obtain ⟨served, hc⟩ := hl.claimed
  exact (hc.calls id h hg).2

theorem Orderly.advances (ho : s.Orderly) (hl : s.OnList) (ha : Advances s s') : s'.Orderly := by
  refine ⟨ha.escaped.trans ho.escaped, fun id h' hg' => ?_⟩
  rcases ha.goesOn id h' hg' with hg | hsound
  · obtain ⟨hf, hc, ht, hr⟩ := ho.sound id h' hg
    exact ⟨hf, hc, ht, fun hacc => (hr hacc).advances ha (hl.lt hg)⟩
  · exact hsound

theorem Orderly.settlesWell (ho : s.Orderly) (hl : s.OnList) (ha : Advances s s') :
    SettlesWell s s' := by
  intro id h hg hnone htask
  cases hacc : h.accepting with
  | true => exact Or.inl (ha.ends id h hg hacc hnone htask)
  | false => exact Or.inr (((ho.sound id h hg).ready hacc).advances ha (hl.lt hg))

theorem Leaves.advances (hl : Leaves s s') : Advances s s' where
  escaped := hl.escaped
  sent := hl.sent
  names r _ := by
    rw [hl.objects]
    exact ⟨rfl, rfl⟩
  goesOn id h' hg' := Or.inl (hl.handshakes ▸ hg')
  ends id h hg _ hnone _ := by
    rw [hl.handshakes, hg] at hnone
    cases hnone

/-- One handshake goes on. -/
theorem advances_set {h' : Handshake} (hescaped : s'.escaped = s.escaped)
    (hsent : ∀ m ∈ s.sentToRequesters, m ∈ s'.sentToRequesters) (hobjects : s'.requests = s.requests)
    (hget : ∀ id', s'.handshakes.get? id' = if id = id' then some h' else s.handshakes.get? id')
    (hsound : s'.Sound id h') : Advances s s' := by
  refine ⟨hescaped, hsent, fun r _ => ?_, fun id' c hg => ?_, fun id' c hg _ hnone _ => ?_⟩
  · rw [hobjects]
    exact ⟨rfl, rfl⟩
  · rw [hget] at hg
    split_ifs at hg with heq
    · obtain rfl := Option.some.inj hg
      exact Or.inr (heq ▸ hsound)
    · exact Or.inl hg
  · rw [hget] at hnone
    split_ifs at hnone
    rw [hg] at hnone
    cases hnone

/-! ### The runner's half -/

/-- The handshake `h` has gone on to `h'`. -/
structure Succeeds (s : Broker) (h h' : Handshake) : Prop where
  held : s.handshakes.get? h.taskId = some h
  accepting : h.accepting = true
  listed : h.request ∈ s.pendingTaskRequests
  inTime : h.requesterAnswer ≠ some .timedOut
  taskId : h'.taskId = h.taskId
  request : h'.request = h.request
  answer : h'.requesterAnswer = h.requesterAnswer

theorem putHandshake_getElem (s : Broker) (h' : Handshake) (id : ℕ) :
    (s.putHandshake h').handshakes.get? id =
      if h'.taskId = id then some h' else s.handshakes.get? id := OrderedMap.get?_set _ _ _ _

theorem createTask_advances {h' : Handshake} (hs : Succeeds s h h') (hhears : s.hears h = true) :
    Advances s ((s.putHandshake h').createTask h') := by
  obtain ⟨hheld, hacc, -, hinTime, hid, hreq, hanswer⟩ := hs
  unfold createTask
  dsimp only
  split
  · refine ⟨rfl, fun _ hm => hm, fun r _ => ⟨rfl, rfl⟩, fun id c hg => Or.inl ?_,
      fun id c hg _ hnone htask => ?_⟩
    · simp only [endHandshake, OrderedMap.get?_delete] at hg
      split_ifs at hg with heq
      rw [putHandshake_getElem, if_neg heq] at hg
      exact hg
    · simp only [endHandshake, OrderedMap.get?_delete] at hnone
      split_ifs at hnone with heq
      · rw [← heq] at htask
        exact absurd ((OrderedMap.get?_set_self _ _ _).symm.trans htask) (by simp)
      · rw [putHandshake_getElem, if_neg heq, hg] at hnone
        cases hnone
  · have hin : (s.requests h'.request).requesterId ∈ s.requesters := by
      rw [hreq]
      simpa [hears] using hhears
    simp only [messageRequester, putHandshake, hin, ↓reduceIte]
    have hget : ∀ id', ((s.handshakes.set h'.taskId h').set h'.taskId
        { h' with phase := .readying }).get? id' =
          if h'.taskId = id' then some { h' with phase := .readying }
          else s.handshakes.get? id' := by
      intro id'
      rw [OrderedMap.get?_set, OrderedMap.get?_set]
      split_ifs <;> rfl
    refine advances_set rfl (fun m hm => List.mem_append_left _ hm) rfl hget
      ⟨by simp, by simp, ?_, fun _ => ?_⟩
    · rw [hanswer]
      exact hinTime
    · exact List.mem_append_right _ (List.mem_singleton_self _)

theorem returnRequest_advances {h' : Handshake} (hs : Succeeds s h h') (deferred : Bool) :
    Advances s ((s.putHandshake h').returnRequest h' deferred false) := by
  obtain ⟨hheld, hacc, hlisted, -, hid, hreq, -⟩ := hs
  refine ⟨rfl, fun _ hm => hm, fun r _ => ?_, fun id c hg => Or.inl ?_, fun id c hg _ hnone _ => ?_⟩
  · by_cases hr : r = h'.request
    · simp [returnRequest, endHandshake, putHandshake, hr]
    · simp [returnRequest, endHandshake, putHandshake, Function.update_of_ne hr]
  · simp only [returnRequest, endHandshake, OrderedMap.get?_delete] at hg
    split_ifs at hg with heq
    rw [putHandshake_getElem, if_neg heq] at hg
    exact hg
  · simp only [returnRequest, endHandshake, OrderedMap.get?_delete] at hnone
    split_ifs at hnone with heq
    · rw [hid] at heq
      subst heq
      obtain rfl := Option.some.inj (hheld.symm.trans hg)
      refine ⟨?_, by simp [returnRequest, endHandshake, hreq]⟩
      cases deferred with
      | false => exact hlisted
      | true => exact List.mem_append_left _ hlisted
    · rw [putHandshake_getElem, if_neg heq, hg] at hnone
      cases hnone

theorem resumeRunner_advances {h' : Handshake} (hs : Succeeds s h h')
    (hphase : h'.phase = .awaitingRunner)
    (hhears : h'.runnerAnswer = some .accepted → s.hears h = true) :
    Advances s ((s.putHandshake h').resumeRunner h') := by
  unfold resumeRunner
  cases ha : h'.runnerAnswer with
  | none =>
    refine advances_set rfl (fun _ hm => hm) rfl (putHandshake_getElem s h')
      ⟨by simp [hphase], by simp [hphase], ?_, fun hacc => ?_⟩
    · rw [hs.answer]
      exact hs.inTime
    · simp [Handshake.accepting, hphase] at hacc
  | some a =>
    cases a with
    | accepted => exact createTask_advances hs (hhears ha)
    | rejected reason => exact returnRequest_advances hs false
    | deferred => exact returnRequest_advances hs true
    | timedOut => exact returnRequest_advances hs false

theorem answerRunner_advances (ho : s.Orderly) (hl : s.OnList) {taskId : ℕ} {a : RunnerAnswer}
    (hhears : ∀ h, s.awaiting taskId = some h → a = .accepted → s.hears h = true) :
    Advances s (s.answerRunner taskId a) := by
  unfold answerRunner
  split
  · exact (Leaves.refl s).advances
  · rename_i h hg
    obtain rfl := hl.keyed.own taskId h hg
    have hsound := ho.sound h.taskId h hg
    by_cases hanswered : h.runnerAnswer.isSome = true
    · rw [if_pos hanswered]
      exact (Leaves.refl s).advances
    · rw [if_neg hanswered]
      dsimp only
      split_ifs with hphase
      · have hacc : h.accepting = true := by simp [Handshake.accepting, hphase]
        have hs : Succeeds s h { h with runnerAnswer := some a } :=
          ⟨hg, hacc, hl.listed _ h hg hacc, hsound.inTime, rfl, rfl, rfl⟩
        refine resumeRunner_advances hs hphase fun ha => hhears h ?_ (Option.some.inj ha)
        simpa [awaiting, hg, hphase, Option.filter] using hanswered
      · exact advances_set rfl (fun _ hm => hm) rfl
          (putHandshake_getElem s { h with runnerAnswer := some a })
          ⟨hsound.failing, hsound.cancelling, hsound.inTime, hsound.ready⟩

/-! ### The requester's half -/

theorem sendTaskSettings_advances {h' : Handshake} (hsettable : s.settable h'.taskId = true)
    (hinTime : h'.requesterAnswer ≠ some .timedOut) (hready : s.Ready h'.taskId h')
    (settings : String) : Advances s ((s.putHandshake h').sendTaskSettings h' settings) := by
  obtain ⟨task, htask, hrunner⟩ := Option.any_eq_true _ _ |>.mp hsettable
  unfold sendTaskSettings
  have htask' : (s.putHandshake h').tasks.get? h'.taskId = some task := htask
  rw [htask']
  have hknown : task.runnerId ∈ (s.putHandshake h').knownRunners := of_decide_eq_true hrunner
  dsimp only
  rw [if_pos hknown]
  obtain ⟨sent, he⟩ := messageRunner_eq { s.putHandshake h' with
    tasks := (s.putHandshake h').tasks.set h'.taskId { task with timeout := true } }
    task.runnerId (.taskSettings h'.taskId settings)
  rw [he]
  have hget : ∀ id', ((s.handshakes.set h'.taskId h').set h'.taskId
      { h' with phase := .sendingSettings }).get? id' =
        if h'.taskId = id' then some { h' with phase := .sendingSettings }
        else s.handshakes.get? id' := by
    intro id'
    rw [OrderedMap.get?_set, OrderedMap.get?_set]
    split_ifs <;> rfl
  exact advances_set rfl (fun _ hm => hm) rfl hget ⟨by simp, by simp, hinTime, fun _ => hready⟩

theorem resumeRequester_advances {h' : Handshake} (hphase : h'.phase = .awaitingRequester)
    (hsettable : h'.requesterAnswer.isSome = true → s.settable h'.taskId = true)
    (hinTime : h'.requesterAnswer ≠ some .timedOut) (hready : s.Ready h'.taskId h') :
    Advances s ((s.putHandshake h').resumeRequester h') := by
  unfold resumeRequester
  cases ha : h'.requesterAnswer with
  | none =>
    exact advances_set rfl (fun _ hm => hm) rfl (putHandshake_getElem s h')
      ⟨by simp [hphase], by simp [hphase], hinTime, fun _ => hready⟩
  | some a =>
    cases a with
    | timedOut => exact absurd ha hinTime
    | settings settings =>
      exact sendTaskSettings_advances (hsettable (by simp [ha])) hinTime hready settings

theorem answerRequester_advances (ho : s.Orderly) (hk : s.Keyed) {taskId : ℕ} {settings : String}
    (hsettable : ∀ h, s.handshakes.get? taskId = some h → h.phase = .awaitingRequester →
      h.requesterAnswer = none → s.settable taskId = true) :
    Advances s (s.answerRequester taskId (.settings settings)) := by
  unfold answerRequester
  split
  · exact (Leaves.refl s).advances
  · rename_i h hg
    obtain rfl := hk.own taskId h hg
    have hsound := ho.sound h.taskId h hg
    by_cases hanswered : h.requesterAnswer.isSome = true
    · rw [if_pos hanswered]
      exact (Leaves.refl s).advances
    · rw [if_neg hanswered]
      have hnone : h.requesterAnswer = none := by simpa using hanswered
      dsimp only
      split_ifs with hphase
      · have hacc : h.accepting = false := by simp [Handshake.accepting, hphase]
        exact @resumeRequester_advances s { h with requesterAnswer := some (.settings settings) }
          hphase (fun _ => hsettable h hg hphase hnone) (by simp) (hsound.ready hacc)
      · exact advances_set rfl (fun _ hm => hm) rfl
          (putHandshake_getElem s { h with requesterAnswer := some (.settings settings) })
          ⟨hsound.failing, hsound.cancelling, by simp, hsound.ready⟩

/-! ### Messages that have been sent -/

theorem messageSettled_advances (ho : s.Orderly) (hl : s.OnList) {taskId : ℕ} {sent : Bool}
    (hcond : s.breaksOff (.messageSettled taskId sent) = false) :
    Advances s (s.messageSettled taskId sent) := by
  unfold messageSettled
  split
  · exact (Leaves.refl s).advances
  · rename_i h hg
    obtain rfl := hl.keyed.own taskId h hg
    have hsound := ho.sound h.taskId h hg
    simp only [breaksOff, hg, Option.any_some] at hcond
    cases hphase : h.phase with
    | failing => exact absurd hphase hsound.failing
    | cancelling => exact absurd hphase hsound.cancelling
    | awaitingRunner => exact (Leaves.refl s).advances
    | awaitingRequester => exact (Leaves.refl s).advances
    | offering =>
      cases sent with
      | false => simp [hphase] at hcond
      | true =>
        have hacc : h.accepting = true := by simp [Handshake.accepting, hphase]
        have hs : Succeeds s h { h with phase := .awaitingRunner } :=
          ⟨hg, hacc, hl.listed _ h hg hacc, hsound.inTime, rfl, rfl, rfl⟩
        refine resumeRunner_advances hs rfl fun ha => ?_
        have ha' : h.runnerAnswer = some .accepted := ha
        simpa [hphase, ha'] using hcond
    | readying =>
      cases sent with
      | false => simp [hphase] at hcond
      | true =>
        have hacc : h.accepting = false := by simp [Handshake.accepting, hphase]
        refine @resumeRequester_advances s { h with phase := .awaitingRequester } rfl
          (fun hanswer => ?_) hsound.inTime (hsound.ready hacc)
        have hanswer' : h.requesterAnswer.isSome = true := hanswer
        simpa [hphase, hanswer'] using hcond
    | sendingSettings =>
      cases sent with
      | false => simp [hphase] at hcond
      | true =>
        refine ⟨rfl, fun _ hm => hm, fun r _ => ⟨rfl, rfl⟩, fun id c hg' => Or.inl ?_,
          fun id c hg' hacc hnone _ => ?_⟩
        · simp only [endHandshake, OrderedMap.get?_delete] at hg'
          split_ifs at hg'
          exact hg'
        · simp only [endHandshake, OrderedMap.get?_delete] at hnone
          split_ifs at hnone with heq
          · subst heq
            obtain rfl := Option.some.inj (hg.symm.trans hg')
            simp [Handshake.accepting, hphase] at hacc
          · rw [hg'] at hnone
            cases hnone

/-! ### New handshakes -/

/-- Handshakes are only opened. -/
structure Opens (s t : Broker) : Prop where
  escaped : t.escaped = s.escaped
  sent : t.sentToRequesters = s.sentToRequesters
  names : ∀ r < s.nextRequest, (t.requests r).requestId = (s.requests r).requestId ∧
    (t.requests r).requesterId = (s.requests r).requesterId
  stays : ∀ id h, s.handshakes.get? id = some h → t.handshakes.get? id = some h
  opens : ∀ id h', t.handshakes.get? id = some h' → s.handshakes.get? id = some h' ∨
    (h'.phase = .offering ∧ h'.requesterAnswer = none)

theorem Opens.advances {t : Broker} (h : Opens s t) : Advances s t where
  escaped := h.escaped
  sent m hm := h.sent ▸ hm
  names := h.names
  goesOn id h' hg := (h.opens id h' hg).imp_right fun ⟨hphase, hanswer⟩ =>
    ⟨by simp [hphase], by simp [hphase], by simp [hanswer],
      fun hacc => by simp [Handshake.accepting, hphase] at hacc⟩
  ends id h' hg _ hnone _ := by
    rw [h.stays id h' hg] at hnone
    cases hnone

theorem acceptOffer_handshakes (s : Broker) (offer : TaskOffer) (request : ℕ) :
    (s.acceptOffer offer request).handshakes =
        s.handshakes.set s.nextTaskId ⟨s.nextTaskId, offer, request, .offering, none, none⟩ ∧
      (s.acceptOffer offer request).escaped = s.escaped ∧
      (s.acceptOffer offer request).sentToRequesters = s.sentToRequesters := by
  unfold acceptOffer
  dsimp only
  obtain ⟨sent, he⟩ := messageRunner_eq ({ s with
    nextTaskId := s.nextTaskId + 1
    runnerAcceptRejects := s.runnerAcceptRejects ++ [s.nextTaskId] }.putHandshake
      ⟨s.nextTaskId, offer, request, .offering, none, none⟩) offer.runnerId
    (.taskOfferAccept offer.offerId s.nextTaskId)
  rw [he]
  exact ⟨rfl, rfl, rfl⟩

theorem Opens.settleRequest {t : Broker} (h : Opens s t) (hk : t.Keyed) (request : ℕ) :
    Opens s (t.settleRequest request) := by
  unfold Broker.settleRequest
  dsimp only
  split_ifs
  · exact h
  · split
    · exact h
    · rename_i offer _
      obtain ⟨hhandshakes, hescaped, hsent⟩ := acceptOffer_handshakes { t with
        requests := Function.update t.requests request
          { t.requests request with acceptInProgress := true }
        pendingTaskOffers := t.pendingTaskOffers.eraseP
          (fun o => o.taskType == (t.requests request).taskType) } offer request
      have hobjects := (acceptOffer_fields { t with
        requests := Function.update t.requests request
          { t.requests request with acceptInProgress := true }
        pendingTaskOffers := t.pendingTaskOffers.eraseP
          (fun o => o.taskType == (t.requests request).taskType) } offer request).2.2
      refine ⟨hescaped.trans h.escaped, hsent.trans h.sent, fun r hr => ?_, fun id c hg => ?_,
        fun id c hg => ?_⟩
      · rw [hobjects]
        by_cases hne : r = request
        · simpa [hne] using h.names request (hne ▸ hr)
        · simpa [Function.update_of_ne hne] using h.names r hr
      · have hg' := h.stays id c hg
        have hlt := hk.lt hg'
        rw [hhandshakes, OrderedMap.get?_set_of_ne (Nat.ne_of_gt hlt)]
        exact hg'
      · rw [hhandshakes, OrderedMap.get?_set] at hg
        split_ifs at hg
        · obtain rfl := Option.some.inj hg
          exact Or.inr ⟨rfl, rfl⟩
        · exact h.opens id c hg

theorem settleTasks_opens {t : Broker} (h : Opens s t) (hk : t.Keyed) : Opens s t.settleTasks := by
  refine (settleTasks_induction (P := fun u => Opens s u ∧ u.Keyed)
    ⟨⟨h.escaped, h.sent, h.names, h.stays, h.opens⟩,
      ⟨hk.fresh, hk.open_, hk.own, hk.accepted, hk.ids⟩⟩ fun u r _ ⟨hu, hku⟩ => ?_).1
  exact ⟨hu.settleRequest hku r, hku.settleRequest r⟩

theorem handleRunnerAnswer_advances (ho : s.Orderly) (hl : s.OnList) {taskId : ℕ} {a : RunnerAnswer}
    (hhears : ∀ h, taskId ∈ s.runnerAcceptRejects → s.awaiting taskId = some h → a = .accepted →
      s.hears h = true) : Advances s (s.handleRunnerAnswer taskId a) := by
  have hentries : ∀ entries, taskId ∈ s.runnerAcceptRejects →
      (∀ id ∈ entries, id ∈ s.runnerAcceptRejects) →
      Advances s ({ s with runnerAcceptRejects := entries }.answerRunner taskId a) := by
    intro entries hentry hsub
    have hk := hl.keyed
    have hl' : s.Leaves { s with runnerAcceptRejects := entries } :=
      ⟨rfl, rfl, rfl, rfl, rfl, fun _ h => h, fun _ h => h⟩
    have hk' : Keyed { s with runnerAcceptRejects := entries } :=
      ⟨fun id hid => ⟨(hk.fresh id hid).1, (hk.fresh id hid).2.1,
          fun hin => (hk.fresh id hid).2.2 (hsub id hin)⟩,
        fun id hin => hk.open_ id (hsub id hin), hk.own,
        fun id h hg ha hin => hk.accepted id h hg ha (hsub id hin), hk.ids⟩
    have hadv := @answerRunner_advances { s with runnerAcceptRejects := entries }
      (ho.advances hl hl'.advances) (hl.leaves hl' hk') taskId a
      fun h hg ha => hhears h hentry hg ha
    exact ⟨hadv.escaped, hadv.sent, hadv.names, hadv.goesOn, hadv.ends⟩
  unfold handleRunnerAnswer
  split_ifs with hentry
  · exact hentries _ hentry fun id hin => (List.mem_filter.mp hin).1
  · exact (Leaves.refl s).advances

theorem handleRequesterAccept_advances (ho : s.Orderly) (hl : s.OnList) {taskId : ℕ}
    {settings : String} (hcond : s.breaksOff (.taskSettings taskId settings) = false) :
    Advances s (s.handleRequesterAccept taskId settings) := by
  have hentries : ∀ entries, taskId ∈ s.requesterAcceptRejects →
      Advances s ({ s with requesterAcceptRejects := entries }.answerRequester taskId
        (.settings settings)) := by
    intro entries hentry
    have hk := hl.keyed
    have hl' : s.Leaves { s with requesterAcceptRejects := entries } :=
      ⟨rfl, rfl, rfl, rfl, rfl, fun _ h => h, fun _ h => h⟩
    have hadv := @answerRequester_advances { s with requesterAcceptRejects := entries }
      (ho.advances hl hl'.advances) ⟨hk.fresh, hk.open_, hk.own, hk.accepted, hk.ids⟩ taskId settings
      fun h hg hphase hnone => by
        have hg' : s.handshakes.get? taskId = some h := hg
        have hsettable : s.settable taskId = true := by
          simpa [breaksOff, hentry, hg', hphase, hnone] using hcond
        exact hsettable
    exact ⟨hadv.escaped, hadv.sent, hadv.names, hadv.goesOn, hadv.ends⟩
  unfold handleRequesterAccept
  split_ifs with hentry
  · exact hentries _ hentry
  · exact (Leaves.refl s).advances

/-- A step that breaks nothing off moves every handshake on or ends it well. -/
theorem next_advances (ho : s.Orderly) (hl : s.OnList) {e : Event} (hcond : s.breaksOff e = false) :
    Advances s (s.next e) := by
  have hk := hl.keyed
  have hfromRunner : ∀ runnerId taskId a, (a = .accepted →
      ∀ h, s.answerable runnerId taskId = some h → s.hears h = true) →
      Advances s (s.fromRunner runnerId (·.handleRunnerAnswer taskId a)) := by
    intro runnerId taskId a hhears
    unfold fromRunner
    split_ifs with hrunner
    · refine handleRunnerAnswer_advances ho hl fun h hentry hg ha => hhears ha h ?_
      rw [answerable, if_pos ⟨hrunner, hentry⟩]
      exact hg
    · exact (Leaves.refl s).advances
  cases e with
  | registerRunner runnerId =>
    have hl' : s.Leaves { s with knownRunners := s.knownRunners.insert runnerId } :=
      ⟨rfl, rfl, rfl, rfl, rfl, fun _ h => h, fun _ h => h⟩
    exact (hl'.trans (messageRunner_leaves _ _ _)).advances
  | deregisterRunner runnerId error => exact (deregisterRunner_leaves hk runnerId error).advances
  | registerRequester | deregisterRequester | clock =>
    exact Leaves.advances ⟨rfl, rfl, rfl, rfl, rfl, fun _ h => h, fun _ h => h⟩
  | taskRequest requesterId requestId taskType =>
    have hopens : Opens s (s.asked requesterId requestId taskType) := by
      refine ⟨rfl, rfl, fun r hr => ?_, fun _ _ hg => hg, fun _ _ hg => Or.inl hg⟩
      simp [asked, Function.update_of_ne (Nat.ne_of_lt hr)]
    exact (settleTasks_opens hopens ⟨hk.fresh, hk.open_, hk.own, hk.accepted, hk.ids⟩).advances
  | taskOffer runnerId offerId taskType validFor =>
    have hoffered : ∀ offer, Advances s (s.taskOffered offer) := by
      intro offer
      have hopens : Opens s { s with pendingTaskOffers := s.pendingTaskOffers ++ [offer] } :=
        ⟨rfl, rfl, fun _ _ => ⟨rfl, rfl⟩, fun _ _ hg => hg, fun _ _ hg => Or.inl hg⟩
      exact (settleTasks_opens hopens ⟨hk.fresh, hk.open_, hk.own, hk.accepted, hk.ids⟩).advances
    rw [next, fromRunner]
    split
    · exact hoffered _
    · exact (Leaves.refl s).advances
  | taskAccepted runnerId taskId =>
    refine hfromRunner runnerId taskId .accepted fun _ h hg => ?_
    simpa [breaksOff, hg] using hcond
  | taskRejected runnerId taskId reason => exact hfromRunner runnerId taskId _ (by simp)
  | taskDeferred runnerId taskId => exact hfromRunner runnerId taskId _ (by simp)
  | taskSettings taskId settings =>
    exact handleRequesterAccept_advances ho hl hcond
  | taskCancel taskId reason =>
    simp only [next]
    cases hc : s.cancelTask taskId reason with
    | none => exact (Leaves.refl s).advances
    | some s' => exact (cancelTask_leaves hc).advances
  | runnerAcceptTimeout taskId =>
    refine answerRunner_advances ho hl fun h _ haccepted => ?_
    cases haccepted
  | requesterAcceptTimeout taskId =>
    simp only [next, answerRequester]
    split
    · exact (Leaves.refl s).advances
    · rename_i h hg
      have hanswered : h.requesterAnswer.isSome = true := by
        simpa [breaksOff, hg, Option.isSome_iff_ne_none] using hcond
      rw [if_pos hanswered]
      exact (Leaves.refl s).advances
  | messageSettled taskId sent => exact messageSettled_advances ho hl hcond

end Advances

end Broker

namespace Relay

def breaksOff (s : Relay) (e : RelayEvent) : Bool := e.own?.any s.broker.breaksOff

/-- No promise of a handshake has been rejected. -/
def Quiet (s : Relay) : Prop := s.broker.escaped = []

instance (s : Relay) : Decidable s.Quiet := inferInstanceAs (Decidable (_ = _))

structure Contained (s : Relay) : Prop where
  orderly : s.broker.Orderly
  onList : s.broker.OnList
  numbered : s.Numbered

theorem Contained.advances {s : Relay} (h : s.Contained) {e : RelayEvent}
    (hcond : s.breaksOff e = false) : s.broker.Advances (s.next e).broker := by
  cases he : e.own? with
  | some own =>
    rw [next_own he]
    rw [breaksOff, he] at hcond
    exact Broker.next_advances h.orderly h.onList hcond
  | none => exact (next_leaves he).advances

theorem Contained.next {s : Relay} (h : s.Contained) {e : RelayEvent}
    (hcond : s.breaksOff e = false)
    (hfresh : (s.broker.knownIds ++ e.requestId?.toList).Nodup) : (s.next e).Contained where
  orderly := h.orderly.advances h.onList (h.advances hcond)
  onList := next_onList h.onList h.numbered hfresh
  numbered := (next_keyed ⟨h.onList.keyed, h.numbered⟩ e).2

theorem Contained.run {s : Relay} {tr : List (RelayEvent × Relay)} (h : s.Contained)
    (hr : Run FreshStep s tr) (hcond : EveryStep (fun s e => s.breaksOff e = false) s tr) :
    Always Quiet s tr ∧
      EveryTransition (fun s _ s' => Broker.SettlesWell s.broker s'.broker) s tr := by
  induction hr with
  | nil s => exact ⟨always_nil.mpr h.orderly.escaped, trivial⟩
  | @cons s s' e tr hstep _ ih =>
    obtain ⟨rfl, hfresh⟩ := hstep
    obtain ⟨hquiet, hwell⟩ := ih (h.next hcond.1 hfresh) hcond.2
    exact ⟨always_cons.mpr ⟨h.orderly.escaped, hquiet⟩,
      h.orderly.settlesWell h.onList (h.advances hcond.1), hwell⟩

/-- In a run that breaks no handshake off, no promise is rejected and every handshake ends well. -/
theorem handshakes_end_well (now : ℤ) (mode : TaskRunnerMode) (taskTimeout : ℕ)
    (isSelfHosted : Bool) (tr : List (RelayEvent × Relay))
    (hr : Run Step (initial now mode taskTimeout isSelfHosted) tr) (hids : (requestIds tr).Nodup)
    (hcond : EveryStep (fun s e => s.breaksOff e = false)
      (initial now mode taskTimeout isSelfHosted) tr) :
    Always Quiet (initial now mode taskTimeout isSelfHosted) tr ∧
      EveryTransition (fun s _ s' => Broker.SettlesWell s.broker s'.broker)
        (initial now mode taskTimeout isSelfHosted) tr := by
  have hstart : (initial now mode taskTimeout isSelfHosted).Contained :=
    ⟨Broker.initial_orderly now, Broker.initial_onList now, fun _ _ => rfl⟩
  exact hstart.run (run_fresh hr ⟨hstart.onList.keyed, hstart.numbered⟩ hids) hcond

/-- A rejection by the runner and a whole handshake end well. -/
theorem rejected_then_done_end_well :
    Always Quiet (initial 0 .internal 60 true) (trace next (initial 0 .internal 60 true)
        (firstTask ++ [.fromRequester "q" (.taskRequest "request2" "javascript"),
          .fromRunner "r1" (.taskOffer "o2" "javascript" 5000), .messageSettled 1 true,
          .fromRunner "r1" (.taskRejected 1 "busy")])) ∧
      EveryTransition (fun s _ s' => Broker.SettlesWell s.broker s'.broker)
        (initial 0 .internal 60 true) (trace next (initial 0 .internal 60 true)
        (firstTask ++ [.fromRequester "q" (.taskRequest "request2" "javascript"),
          .fromRunner "r1" (.taskOffer "o2" "javascript" 5000), .messageSettled 1 true,
          .fromRunner "r1" (.taskRejected 1 "busy")])) :=
  handshakes_end_well 0 .internal 60 true _ (run_events _ _) (by decide) (by decide)

/-- The requester does not send its settings in time. -/
theorem requester_late : ¬ ∀ (now : ℤ) (mode : TaskRunnerMode) (taskTimeout : ℕ)
    (isSelfHosted : Bool) (tr : List (RelayEvent × Relay)),
    Run Step (initial now mode taskTimeout isSelfHosted) tr → (requestIds tr).Nodup →
    Always Quiet (initial now mode taskTimeout isSelfHosted) tr := by
  intro h
  have hrun := run_events (initial 0 .internal 60 true)
    (firstTask.take 7 ++ [.requesterAcceptTimeout 0, .messageSettled 0 true])
  exact absurd (h 0 .internal 60 true _ hrun (by decide)).final (by decide)

end Relay

end N8n.TaskBroker
