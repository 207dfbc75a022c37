import N8n.TaskBroker.Matching

/-!
# What an event does to requests, tasks and answers

Most operations of the broker are `Steady`: they keep the pending requests, open
no handshake, create no task, and send a final answer only for a task that they
remove. What remains is a handshake that creates its task, a handshake that
gives its request back, and the settling of requests and offers.
-/

namespace N8n.TaskBroker

/-- The runner of the handshake has not been heard. -/
def Handshake.accepting (h : Handshake) : Bool :=
  decide (h.phase = .offering) || decide (h.phase = .awaitingRunner)

def ToRequester.finishes (taskId : ℕ) : ToRequester → Bool
  | .taskDone id _ => id == taskId
  | .taskError id _ => id == taskId
  | _ => false

namespace Broker

/-- How many final answers for the task have been sent. -/
def finalAnswers (s : Broker) (taskId : ℕ) : ℕ :=
  s.sentToRequesters.countP (fun m => m.2.finishes taskId)

structure Steady (s s' : Broker) : Prop where
  pending : s'.pendingTaskRequests = s.pendingTaskRequests
  objects : s'.requests = s.requests
  count : s'.nextRequest = s.nextRequest
  ids : s'.nextTaskId = s.nextTaskId
  calls : ∀ id h', s'.handshakes.get? id = some h' → ∃ h, s.handshakes.get? id = some h ∧
    h'.request = h.request ∧ (h'.accepting = true → h.accepting = true)
  tasks : ∀ id, s.tasks.get? id = none → s'.tasks.get? id = none
  answers : ∀ id, s'.finalAnswers id = s.finalAnswers id ∨
    s'.finalAnswers id = s.finalAnswers id + 1 ∧ s.tasks.get? id ≠ none ∧ s'.tasks.get? id = none

theorem Steady.refl (s : Broker) : Steady s s :=
  ⟨rfl, rfl, rfl, rfl, fun _ h hh => ⟨h, hh, rfl, id⟩, fun _ h => h, fun _ => Or.inl rfl⟩

theorem Steady.trans {s t u : Broker} (h₁ : Steady s t) (h₂ : Steady t u) : Steady s u := by
  refine ⟨h₂.pending.trans h₁.pending, h₂.objects.trans h₁.objects, h₂.count.trans h₁.count,
    h₂.ids.trans h₁.ids, fun id h' hh => ?_, fun id h => h₂.tasks id (h₁.tasks id h),
    fun id => ?_⟩
  · obtain ⟨h, hh', hr', ha'⟩ := h₂.calls id h' hh
    obtain ⟨h₀, hh₀, hr₀, ha₀⟩ := h₁.calls id h hh'
    exact ⟨h₀, hh₀, hr'.trans hr₀, fun ha => ha₀ (ha' ha)⟩
  · rcases h₂.answers id with he₂ | ⟨he₂, hin₂, hout₂⟩
    · rcases h₁.answers id with he₁ | ⟨he₁, hin₁, hout₁⟩
      · exact Or.inl (he₂.trans he₁)
      · exact Or.inr ⟨he₂.trans he₁, hin₁, h₂.tasks id hout₁⟩
    · have hin : s.tasks.get? id ≠ none := fun h => hin₂ (h₁.tasks id h)
      rcases h₁.answers id with he₁ | ⟨_, _, hout₁⟩
      · exact Or.inr ⟨he₂.trans (congrArg (· + 1) he₁), hin, hout₂⟩
      · exact absurd hout₁ hin₂

/-- `h` is a handshake of the table that may have gone on. -/
def Tracks (s : Broker) (h : Handshake) : Prop :=
  ∃ h₀, s.handshakes.get? h.taskId = some h₀ ∧ h.request = h₀.request ∧
    (h.accepting = true → h₀.accepting = true)

theorem Keyed.tracks {s : Broker} (hk : s.Keyed) {id : ℕ} {h : Handshake}
    (hh : s.handshakes.get? id = some h) : s.Tracks h := by
  obtain rfl := hk.own id h hh
  exact ⟨h, hh, rfl, fun ha => ha⟩

theorem finalAnswers_messageRequester (s : Broker) (requesterId : String) (m : ToRequester)
    (id : ℕ) : (s.messageRequester requesterId m).finalAnswers id = s.finalAnswers id +
      if requesterId ∈ s.requesters ∧ m.finishes id = true then 1 else 0 := by
  unfold messageRequester finalAnswers
  by_cases hr : requesterId ∈ s.requesters
  · by_cases hm : m.finishes id = true
    · simp [hr, hm]
    · simp [hr, hm]
  · simp [hr]

theorem messageRunner_steady (s : Broker) (runnerId : String) (m : ToRunner) :
    Steady s (s.messageRunner runnerId m) := by
  obtain ⟨sent, he⟩ := messageRunner_eq s runnerId m
  rw [he]
  exact ⟨rfl, rfl, rfl, rfl, fun _ h hh => ⟨h, hh, rfl, id⟩, fun _ h => h, fun _ => Or.inl rfl⟩

theorem withTasks_steady (s : Broker) {tasks : OrderedMap ℕ Task}
    (h : ∀ id, s.tasks.get? id = none → tasks.get? id = none) :
    Steady s { s with tasks := tasks } :=
  ⟨rfl, rfl, rfl, rfl, fun _ h hh => ⟨h, hh, rfl, id⟩, h, fun _ => Or.inl rfl⟩

theorem deleteTask_steady (s : Broker) (taskId : ℕ) :
    Steady s { s with tasks := s.tasks.delete taskId } := by
  apply withTasks_steady
  intro id h
  rw [OrderedMap.get?_delete, h, ite_self]

theorem Steady.putHandshake {s t : Broker} (ht : Steady s t) {h : Handshake} (hh : s.Tracks h) :
    Steady s (t.putHandshake h) := by
  refine ⟨ht.pending, ht.objects, ht.count, ht.ids, fun id h' hg => ?_, ht.tasks, ht.answers⟩
  simp only [Broker.putHandshake, OrderedMap.get?_set] at hg
  split at hg
  · rename_i hid
    obtain rfl := Option.some.inj hg
    exact hid ▸ hh
  · exact ht.calls id h' hg

theorem Steady.endHandshake {s t : Broker} (ht : Steady s t) (h : Handshake) (rejects : Bool) :
    Steady s (t.endHandshake h rejects) := by
  refine ⟨ht.pending, ht.objects, ht.count, ht.ids, fun id h' hg => ?_, ht.tasks, ht.answers⟩
  simp only [Broker.endHandshake, OrderedMap.get?_delete] at hg
  split at hg
  · cases hg
  · exact ht.calls id h' hg

theorem cancelTask_steady {s s' : Broker} {taskId : ℕ} {reason : String}
    (h : s.cancelTask taskId reason = some s') : Steady s s' := by
  simp only [cancelTask, Option.map_eq_some_iff] at h
  obtain ⟨task, _, rfl⟩ := h
  exact (deleteTask_steady s taskId).trans (messageRunner_steady _ _ _)

theorem failTask_steady (s : Broker) (taskId : ℕ) (error : String) :
    Steady s (s.failTask taskId error) := by
  unfold failTask
  split
  · exact .refl s
  · rename_i task ht
    have hanswers := finalAnswers_messageRequester { s with tasks := s.tasks.delete taskId }
      task.requesterId (.taskError taskId error)
    have hd := deleteTask_steady s taskId
    obtain ⟨sent, he⟩ := messageRequester_eq { s with tasks := s.tasks.delete taskId }
      task.requesterId (.taskError taskId error)
    rw [he] at hanswers ⊢
    refine ⟨hd.pending, hd.objects, hd.count, hd.ids, hd.calls, hd.tasks, fun id => ?_⟩
    by_cases hid : task.requesterId ∈ s.requesters ∧ taskId = id
    · obtain ⟨hr, rfl⟩ := hid
      refine Or.inr ⟨?_, by simp [ht], OrderedMap.get?_delete_self _ _⟩
      rw [hanswers]
      simp [hr, ToRequester.finishes, finalAnswers]
    · refine Or.inl ((hanswers id).trans ?_)
      simp only [ToRequester.finishes, beq_iff_eq, if_neg hid]
      rfl

theorem cancelAndThrow_steady {s : Broker} {h : Handshake} (hh : s.Tracks h) :
    Steady s (s.cancelAndThrow h) := by
  obtain ⟨h₀, hg, hr, _⟩ := hh
  unfold cancelAndThrow
  split
  · exact (Steady.refl s).endHandshake h true
  · exact (cancelTask_steady ‹_›).putHandshake ⟨h₀, hg, hr, by simp [Handshake.accepting]⟩

theorem sendTaskSettings_steady {s : Broker} {h : Handshake} (hh : s.Tracks h)
    (settings : String) : Steady s (s.sendTaskSettings h settings) := by
  have hcancel := cancelAndThrow_steady hh
  obtain ⟨h₀, hg, hr, _⟩ := hh
  unfold sendTaskSettings
  split
  · exact hcancel
  · rename_i task ht
    split
    · refine Steady.putHandshake ((withTasks_steady s fun id hid => ?_).trans
        (messageRunner_steady _ _ _)) ⟨h₀, hg, hr, by simp [Handshake.accepting]⟩
      rw [OrderedMap.get?_set]
      split
      · rename_i he
        rw [he, hid] at ht
        cases ht
      · exact hid
    · exact (failTask_steady s _ _).putHandshake ⟨h₀, hg, hr, by simp [Handshake.accepting]⟩

theorem resumeRequester_steady {s : Broker} {h : Handshake} (hh : s.Tracks h) :
    Steady s (s.resumeRequester h) := by
  unfold resumeRequester
  split
  · exact .refl s
  · exact sendTaskSettings_steady hh _
  · exact cancelAndThrow_steady hh

theorem tracks_putHandshake (s : Broker) (h : Handshake) : (s.putHandshake h).Tracks h :=
  ⟨h, OrderedMap.get?_set_self _ _ _, rfl, fun ha => ha⟩

theorem answerRequester_steady {s : Broker} (hk : s.Keyed) (taskId : ℕ) (a : RequesterAnswer) :
    Steady s (s.answerRequester taskId a) := by
  unfold answerRequester
  split
  · exact .refl s
  · rename_i h hg
    split
    · exact .refl s
    · have htracks : s.Tracks h := hk.tracks hg
      have hput : Steady s (s.putHandshake { h with requesterAnswer := some a }) :=
        (Steady.refl s).putHandshake htracks
      dsimp only
      split
      · exact hput.trans (resumeRequester_steady (tracks_putHandshake s _))
      · exact hput

/-! ### Handshakes that end with the runner's answer -/

/-- The handshake creates its task. -/
structure Creates (s : Broker) (h : Handshake) (s' : Broker) : Prop where
  tasks : s'.tasks = s.tasks.set h.taskId ⟨h.taskId, h.offer.taskType, h.offer.runnerId,
    (s.requests h.request).requesterId, false⟩
  pending : s'.pendingTaskRequests =
    match s.pendingTaskRequests.findIdx?
      (fun r => (s.requests r).requestId == (s.requests h.request).requestId) with
    | none => s.pendingTaskRequests
    | some requestIndex => s.pendingTaskRequests.eraseIdx requestIndex
  objects : s'.requests = s.requests
  count : s'.nextRequest = s.nextRequest
  ids : s'.nextTaskId = s.nextTaskId
  calls : ∀ id h', s'.handshakes.get? id = some h' →
    (id ≠ h.taskId ∧ s.handshakes.get? id = some h') ∨
      (id = h.taskId ∧ h'.request = h.request ∧ h'.accepting = false)
  answers : ∀ id, s'.finalAnswers id = s.finalAnswers id

/-- The handshake gives its request back, once more on the list when it was deferred. -/
structure GivesBack (s : Broker) (h : Handshake) (deferred : Bool) (s' : Broker) : Prop where
  pending : s'.pendingTaskRequests =
    if deferred then s.pendingTaskRequests ++ [h.request] else s.pendingTaskRequests
  objects : s'.requests = Function.update s.requests h.request
    { s.requests h.request with acceptInProgress := false }
  count : s'.nextRequest = s.nextRequest
  ids : s'.nextTaskId = s.nextTaskId
  calls : ∀ id h', s'.handshakes.get? id = some h' →
    id ≠ h.taskId ∧ s.handshakes.get? id = some h'
  tasks : s'.tasks = s.tasks
  answers : ∀ id, s'.finalAnswers id = s.finalAnswers id

theorem createTask_creates (s : Broker) (h : Handshake) : Creates s h (s.createTask h) := by
  unfold createTask
  dsimp only
  split
  · rename_i hidx
    refine ⟨rfl, by rw [hidx]; rfl, rfl, rfl, rfl, fun id h' hg => Or.inl ?_, fun _ => rfl⟩
    simp only [endHandshake, OrderedMap.get?_delete] at hg
    split at hg
    · cases hg
    · exact ⟨Ne.symm ‹_›, hg⟩
  · rename_i requestIndex hidx
    have hanswers := finalAnswers_messageRequester { s with
        tasks := s.tasks.set h.taskId ⟨h.taskId, h.offer.taskType, h.offer.runnerId,
          (s.requests h.request).requesterId, false⟩
        pendingTaskRequests := s.pendingTaskRequests.eraseIdx requestIndex
        requesterAcceptRejects := s.requesterAcceptRejects ++ [h.taskId] }
      (s.requests h.request).requesterId (.taskReady (s.requests h.request).requestId h.taskId)
    obtain ⟨sent, he⟩ := messageRequester_eq { s with
        tasks := s.tasks.set h.taskId ⟨h.taskId, h.offer.taskType, h.offer.runnerId,
          (s.requests h.request).requesterId, false⟩
        pendingTaskRequests := s.pendingTaskRequests.eraseIdx requestIndex
        requesterAcceptRejects := s.requesterAcceptRejects ++ [h.taskId] }
      (s.requests h.request).requesterId (.taskReady (s.requests h.request).requestId h.taskId)
    rw [he] at hanswers ⊢
    refine ⟨rfl, by rw [hidx]; rfl, rfl, rfl, rfl, fun id h' hg => ?_, fun id => ?_⟩
    · simp only [putHandshake, OrderedMap.get?_set] at hg
      split at hg
      · obtain rfl := Option.some.inj hg
        exact Or.inr ⟨Eq.symm ‹_›, rfl, rfl⟩
      · exact Or.inl ⟨Ne.symm ‹_›, hg⟩
    · exact (hanswers id).trans (by simp [ToRequester.finishes, finalAnswers])

theorem returnRequest_givesBack (s : Broker) (h : Handshake) (deferred rejects : Bool) :
    GivesBack s h deferred (s.returnRequest h deferred rejects) := by
  refine ⟨rfl, rfl, rfl, rfl, fun id h' hg => ?_, rfl, fun _ => rfl⟩
  simp only [returnRequest, endHandshake, OrderedMap.get?_delete] at hg
  split at hg
  · cases hg
  · exact ⟨Ne.symm ‹_›, hg⟩

/-- What a step does that settles no requests, by what it returns. -/
inductive Effect (s s' : Broker) : Option (Handshake × Bool) → Prop
  | steady : Steady s s' → Effect s s' none
  | created (h : Handshake) : s.handshakes.get? h.taskId = some h → h.accepting = true →
      Creates s h s' → Effect s s' none
  | givenBack (h : Handshake) (deferred : Bool) : s.handshakes.get? h.taskId = some h →
      h.accepting = true → GivesBack s h deferred s' → Effect s s' (some (h, deferred))

/-- The handshake `h` has gone on to `h'` and the runner's answer is heard. -/
theorem resumeRunner_effect {s : Broker} {h h' : Handshake} {a : RunnerAnswer}
    (hg : s.handshakes.get? h.taskId = some h) (hacc : h.accepting = true)
    (hid : h'.taskId = h.taskId) (hoffer : h'.offer = h.offer) (hreq : h'.request = h.request)
    (ha : h'.runnerAnswer = some a) :
    Effect s ((s.putHandshake h').resumeRunner h') (h.returnOn a) := by
  have hback : ∀ deferred rejects, GivesBack s h deferred
      ((s.putHandshake h').returnRequest h' deferred rejects) := by
    intro deferred rejects
    obtain ⟨hp, ho, hc, hn, hcalls, ht, hans⟩ :=
      returnRequest_givesBack (s.putHandshake h') h' deferred rejects
    rw [hreq] at hp ho
    refine ⟨hp, ho, hc, hn, fun id h'' hg'' => ?_, ht, hans⟩
    obtain ⟨hne, hg''⟩ := hcalls id h'' hg''
    rw [hid] at hne
    exact ⟨hne, (OrderedMap.get?_set_of_ne (by rw [hid]; exact Ne.symm hne)).symm.trans hg''⟩
  unfold resumeRunner
  rw [ha]
  cases a with
  | accepted =>
    obtain ⟨ht, hp, ho, hc, hn, hcalls, hans⟩ := createTask_creates (s.putHandshake h') h'
    rw [hid, hoffer, hreq] at ht
    rw [hreq] at hp
    refine .created h hg hacc ⟨ht, hp, ho, hc, hn, fun id h'' hg'' => ?_, hans⟩
    rcases hcalls id h'' hg'' with ⟨hne, hg''⟩ | ⟨rfl, hr, hacc'⟩
    · rw [hid] at hne
      exact Or.inl ⟨hne, (OrderedMap.get?_set_of_ne (by rw [hid]; exact Ne.symm hne)).symm.trans
        hg''⟩
    · exact Or.inr ⟨hid, hr.trans hreq, hacc'⟩
  | rejected reason => exact .givenBack h false hg hacc (hback false false)
  | deferred => exact .givenBack h true hg hacc (hback true false)
  | timedOut => exact .givenBack h false hg hacc (hback false false)

theorem answerRunner_effect {s : Broker} (hk : s.Keyed) (taskId : ℕ) (a : RunnerAnswer) :
    Effect s (s.answerRunner taskId a) ((s.awaiting taskId).bind (·.returnOn a)) := by
  unfold answerRunner awaiting
  cases hg : s.handshakes.get? taskId with
  | none => exact .steady (.refl s)
  | some h =>
    obtain rfl := hk.own taskId h hg
    rcases Option.eq_none_or_eq_some h.runnerAnswer with hn | ⟨b, hb⟩
    · by_cases hph : h.phase = .awaitingRunner
      · have hacc : h.accepting = true := by simp [Handshake.accepting, hph]
        simpa [hn, hph, Option.filter_some] using
          @resumeRunner_effect s h { h with runnerAnswer := some a } a hg hacc rfl rfl rfl rfl
      · have htracks : s.Tracks h := hk.tracks hg
        simpa [hn, hph, Option.filter_some] using Effect.steady
          (@Steady.putHandshake s s (.refl s) { h with runnerAnswer := some a } htracks)
    · simpa [hb, Option.filter_some] using Effect.steady (.refl s)

theorem handleRunnerAnswer_effect {s : Broker} (hk : s.Keyed) (runnerId : String) (taskId : ℕ)
    (a : RunnerAnswer) :
    Effect s (s.fromRunner runnerId (·.handleRunnerAnswer taskId a))
      ((s.answerable runnerId taskId).bind (·.returnOn a)) := by
  unfold fromRunner answerable handleRunnerAnswer
  by_cases hr : runnerId ∈ s.knownRunners
  · by_cases ht : taskId ∈ s.runnerAcceptRejects
    · simp only [hr, ht, if_true, and_self]
      have hk' : Keyed { s with
          runnerAcceptRejects := s.runnerAcceptRejects.filter (fun id => decide (id ≠ taskId)) } :=
        ⟨fun id hid => ⟨(hk.fresh id hid).1, (hk.fresh id hid).2.1,
            fun hm => (hk.fresh id hid).2.2 (List.mem_filter.mp hm).1⟩,
          fun id hid => hk.open_ id (List.mem_filter.mp hid).1, hk.own,
          fun id h hh ha hm => hk.accepted id h hh ha (List.mem_filter.mp hm).1, hk.ids⟩
      have h := answerRunner_effect hk' taskId a
      change Effect _ _ ((s.awaiting taskId).bind _) at h
      generalize (s.awaiting taskId).bind (·.returnOn a) = p at h ⊢
      cases h with
      | steady h =>
        exact .steady ⟨h.pending, h.objects, h.count, h.ids, h.calls, h.tasks, h.answers⟩
      | created h₀ hg hacc h =>
        exact .created h₀ hg hacc
          ⟨h.tasks, h.pending, h.objects, h.count, h.ids, h.calls, h.answers⟩
      | givenBack h₀ deferred hg hacc h =>
        exact .givenBack h₀ deferred hg hacc
          ⟨h.pending, h.objects, h.count, h.ids, h.calls, h.tasks, h.answers⟩
    · simp only [hr, ht, if_true, if_false, and_false]
      exact .steady (.refl s)
  · simp only [hr, if_false, false_and]
    exact .steady (.refl s)

theorem messageSettled_effect {s : Broker} (hk : s.Keyed) (taskId : ℕ) (sent : Bool) :
    Effect s (s.messageSettled taskId sent) (s.returned (.messageSettled taskId sent)) := by
  simp only [messageSettled, returned]
  cases hg : s.handshakes.get? taskId with
  | none => exact .steady (.refl s)
  | some h =>
    obtain rfl := hk.own taskId h hg
    have htracks : s.Tracks h := hk.tracks hg
    simp only [Option.filter_some]
    cases hph : h.phase with
    | offering =>
      have hacc : h.accepting = true := by simp [Handshake.accepting, hph]
      cases sent with
      | false => exact .givenBack h false hg hacc (returnRequest_givesBack s h false true)
      | true =>
        rcases Option.eq_none_or_eq_some h.runnerAnswer with hn | ⟨a, ha⟩
        · have hput : Steady s (s.putHandshake { h with phase := .awaitingRunner }) :=
            (Steady.refl s).putHandshake ⟨h, hg, rfl, fun _ => hacc⟩
          simpa [hn, resumeRunner] using Effect.steady hput
        · simpa [ha] using
            @resumeRunner_effect s h { h with phase := .awaitingRunner } a hg hacc rfl rfl rfl ha
    | readying =>
      cases sent with
      | false => exact .steady (cancelAndThrow_steady htracks)
      | true =>
        have hput : Steady s (s.putHandshake { h with phase := .awaitingRequester }) :=
          (Steady.refl s).putHandshake ⟨h, hg, rfl, by simp [Handshake.accepting]⟩
        exact .steady (hput.trans (resumeRequester_steady (tracks_putHandshake s _)))
    | sendingSettings =>
      cases sent with
      | false => exact .steady (cancelAndThrow_steady htracks)
      | true => exact .steady ((Steady.refl s).endHandshake h false)
    | failing => exact .steady (cancelAndThrow_steady htracks)
    | cancelling => exact .steady ((Steady.refl s).endHandshake h true)
    | awaitingRunner => exact .steady (.refl s)
    | awaitingRequester => exact .steady (.refl s)

/-! ### Settling, and every event -/

/-- A free request is matched: a new handshake is opened for it. -/
structure Matches (s : Broker) (request : ℕ) (s' : Broker) : Prop where
  free : (s.requests request).acceptInProgress = false
  pending : s'.pendingTaskRequests = s.pendingTaskRequests
  objects : s'.requests = Function.update s.requests request
    { s.requests request with acceptInProgress := true }
  count : s'.nextRequest = s.nextRequest
  ids : s'.nextTaskId = s.nextTaskId + 1
  calls : ∀ id h', s'.handshakes.get? id = some h' → s.handshakes.get? id = some h' ∨
    (id = s.nextTaskId ∧ h'.request = request)
  tasks : s'.tasks = s.tasks
  answers : ∀ id, s'.finalAnswers id = s.finalAnswers id

theorem settleRequest_matches (s : Broker) (request : ℕ) :
    s.settleRequest request = s ∨ Matches s request (s.settleRequest request) := by
  unfold settleRequest
  dsimp only
  split
  · exact Or.inl rfl
  · rename_i hfree
    split
    · exact Or.inl rfl
    · rename_i offer _
      right
      unfold acceptOffer
      dsimp only
      generalize hm : messageRunner _ offer.runnerId _ = s'
      obtain ⟨sent, he⟩ := messageRunner_eq _ offer.runnerId _
      rw [he] at hm
      subst hm
      refine ⟨by simpa using hfree, rfl, rfl, rfl, rfl, fun id h' hg => ?_, rfl, fun _ => rfl⟩
      simp only [putHandshake, OrderedMap.get?_set] at hg
      split at hg
      · obtain rfl := Option.some.inj hg
        exact Or.inr ⟨Eq.symm ‹_›, rfl⟩
      · exact Or.inl hg

theorem failTasks_steady {s : Broker} (runnerId error : String) (ids : List ℕ)
    (hids : ∀ id ∈ ids, id ∉ s.runnerAcceptRejects) :
    Steady s (ids.foldl (fun s taskId => s.failTaskOf runnerId error taskId) s) := by
  rw [foldl_failTaskOf_eq hids]
  apply List.foldlRecOn (motive := Steady s)
  · exact .refl s
  · intro t ht id _
    exact ht.trans (failTask_steady t id error)

theorem deregisterRunner_steady {s : Broker} (hk : s.Keyed) (runnerId error : String) :
    Steady s (s.deregisterRunner runnerId error) := by
  have hfail := @failTasks_steady { s with
      knownRunners := s.knownRunners.filter (fun id => decide (id ≠ runnerId))
      pendingTaskOffers := s.pendingTaskOffers.filter (fun o => decide (o.runnerId ≠ runnerId)) }
    runnerId error _ (hk.not_rejectable runnerId)
  exact ⟨hfail.pending, hfail.objects, hfail.count, hfail.ids, hfail.calls, hfail.tasks,
    hfail.answers⟩

/-- The request of the event is on the list; it has not been settled. -/
def asked (s : Broker) (requesterId requestId taskType : String) : Broker :=
  { s with
    requests := Function.update s.requests s.nextRequest ⟨requestId, requesterId, taskType, false⟩
    nextRequest := s.nextRequest + 1
    pendingTaskRequests := s.pendingTaskRequests ++ [s.nextRequest] }

inductive Outcome (s : Broker) (e : Event) (s' : Broker) : Prop
  | effect : Effect s s' (s.returned e) → Outcome s e s'
  | offered (t : Broker) : s.returned e = none → t.Keyed → Steady s t → s' = t.settleTasks →
      Outcome s e s'
  | requested (requesterId requestId taskType : String) :
      e = .taskRequest requesterId requestId taskType →
      s' = (s.asked requesterId requestId taskType).settleTasks → Outcome s e s'

theorem next_outcome {s : Broker} (hk : s.Keyed) (e : Event) : Outcome s e (s.next e) := by
  have hsame : ∀ {s' : Broker}, s'.pendingTaskRequests = s.pendingTaskRequests →
      s'.requests = s.requests → s'.nextRequest = s.nextRequest → s'.nextTaskId = s.nextTaskId →
      s'.handshakes = s.handshakes → s'.tasks = s.tasks →
      s'.sentToRequesters = s.sentToRequesters → Steady s s' := by
    intro s' hp ho hc hn hh ht hm
    refine ⟨hp, ho, hc, hn, fun id h' hg => ⟨h', hh ▸ hg, rfl, fun ha => ha⟩,
      fun id hid => ht ▸ hid, fun id => Or.inl ?_⟩
    rw [finalAnswers, hm, finalAnswers]
  cases e with
  | registerRunner runnerId =>
    have hs : Steady s { s with knownRunners := s.knownRunners.insert runnerId } :=
      hsame rfl rfl rfl rfl rfl rfl rfl
    exact .effect (.steady (hs.trans (messageRunner_steady _ _ _)))
  | deregisterRunner runnerId error =>
    exact .effect (.steady (deregisterRunner_steady hk runnerId error))
  | registerRequester | deregisterRequester | clock =>
    exact .effect (.steady (hsame rfl rfl rfl rfl rfl rfl rfl))
  | taskRequest requesterId requestId taskType => exact .requested _ _ _ rfl rfl
  | taskOffer runnerId offerId taskType validFor =>
    by_cases hr : runnerId ∈ s.knownRunners
    · simp only [next, fromRunner, hr, if_true]
      exact .offered { s with pendingTaskOffers := s.pendingTaskOffers ++ [⟨offerId, runnerId,
        taskType, validFor, if validFor = -1 then 0 else s.now + validFor * 1000000⟩] } rfl
        ⟨hk.fresh, hk.open_, hk.own, hk.accepted, hk.ids⟩ (hsame rfl rfl rfl rfl rfl rfl rfl) rfl
    · simp only [next, fromRunner, hr, if_false]
      exact .effect (.steady (.refl s))
  | taskAccepted runnerId taskId =>
    have h := handleRunnerAnswer_effect hk runnerId taskId .accepted
    have hnone : ((s.answerable runnerId taskId).bind (·.returnOn .accepted)) = none := by
      cases s.answerable runnerId taskId <;> rfl
    rw [hnone] at h
    exact .effect h
  | taskRejected runnerId taskId reason =>
    exact .effect (handleRunnerAnswer_effect hk runnerId taskId _)
  | taskDeferred runnerId taskId =>
    exact .effect (handleRunnerAnswer_effect hk runnerId taskId _)
  | taskSettings taskId settings =>
    refine .effect (.steady ?_)
    simp only [next, handleRequesterAccept]
    split
    · have hk' : Keyed { s with requesterAcceptRejects :=
          s.requesterAcceptRejects.filter (fun id => decide (id ≠ taskId)) } :=
        ⟨hk.fresh, hk.open_, hk.own, hk.accepted, hk.ids⟩
      have hs : Steady s { s with requesterAcceptRejects :=
          s.requesterAcceptRejects.filter (fun id => decide (id ≠ taskId)) } :=
        hsame rfl rfl rfl rfl rfl rfl rfl
      exact hs.trans (answerRequester_steady hk' _ _)
    · exact .refl s
  | taskCancel taskId reason =>
    refine .effect (.steady ?_)
    simp only [next]
    cases hc : s.cancelTask taskId reason with
    | none => exact .refl s
    | some s' => exact cancelTask_steady hc
  | runnerAcceptTimeout taskId => exact .effect (answerRunner_effect hk taskId .timedOut)
  | requesterAcceptTimeout taskId =>
    exact .effect (.steady (answerRequester_steady hk taskId .timedOut))
  | messageSettled taskId sent => exact .effect (messageSettled_effect hk taskId sent)

end Broker
end N8n.TaskBroker
