import N8n.TaskBroker.Relay
import N8n.TaskBroker.Requests

/-!
# The final answers to the requester

A task is removed when its final answer is sent, except by `taskDoneHandler` and
`taskErrorHandler`: they remove it only after the message has been sent. A
requester gets a second final answer exactly when a task is finished once more
while it is still there because its answer is being sent.
-/

namespace N8n.TaskBroker
open N8n.Runs

namespace Broker

/-! ### Steps that answer no requester for good -/

def Silent (s s' : Broker) : Prop := ∀ id, s'.finalAnswers id = s.finalAnswers id

theorem Silent.refl (s : Broker) : Silent s s := fun _ => rfl

theorem Silent.trans {s t u : Broker} (h₁ : Silent s t) (h₂ : Silent t u) : Silent s u :=
  fun id => (h₂ id).trans (h₁ id)

theorem messageRunner_silent (s : Broker) (runnerId : String) (m : ToRunner) :
    Silent s (s.messageRunner runnerId m) := by
  obtain ⟨sent, he⟩ := messageRunner_eq s runnerId m
  rw [he]
  exact fun _ => rfl

theorem cancelTask_silent {s s' : Broker} {taskId : ℕ} {reason : String}
    (h : s.cancelTask taskId reason = some s') : Silent s s' := by
  simp only [cancelTask, Option.map_eq_some_iff] at h
  obtain ⟨task, _, rfl⟩ := h
  exact messageRunner_silent _ _ _

theorem cancelAndThrow_silent (s : Broker) (h : Handshake) : Silent s (s.cancelAndThrow h) := by
  unfold cancelAndThrow
  split
  · exact .refl s
  · rename_i s' hs
    have hsilent : Silent s s' := cancelTask_silent hs
    exact hsilent

theorem settleTasks_silent (s : Broker) : Silent s s.settleTasks := by
  apply settleTasks_induction (P := Silent s)
  · exact fun _ => rfl
  · intro t r _ ht
    rcases settleRequest_matches t r with he | hm
    · rw [he]
      exact ht
    · exact ht.trans hm.answers

theorem resumeRunner_silent (s : Broker) (h : Handshake) : Silent s (s.resumeRunner h) := by
  unfold resumeRunner
  split
  · exact .refl s
  · exact (createTask_creates s h).answers
  · exact (returnRequest_givesBack s h false false).answers
  · exact (returnRequest_givesBack s h true false).answers
  · exact (returnRequest_givesBack s h false false).answers

theorem answerRunner_silent (s : Broker) (taskId : ℕ) (a : RunnerAnswer) :
    Silent s (s.answerRunner taskId a) := by
  unfold answerRunner
  split
  · exact .refl s
  · split
    · exact .refl s
    · dsimp only
      split
      · exact resumeRunner_silent _ _
      · exact .refl s

theorem handleRunnerAnswer_silent (s : Broker) (runnerId : String) (taskId : ℕ) (a : RunnerAnswer) :
    Silent s (s.fromRunner runnerId (·.handleRunnerAnswer taskId a)) := by
  unfold fromRunner
  split
  · dsimp only [handleRunnerAnswer]
    split
    · have h := answerRunner_silent { s with
        runnerAcceptRejects := s.runnerAcceptRejects.filter (fun id => decide (id ≠ taskId)) }
        taskId a
      exact h
    · exact .refl s
  · exact .refl s

/-! ### Tasks that the broker fails -/

/-- A message about the task reaches its requester. -/
def told (s : Broker) (taskId : ℕ) : Bool :=
  (s.tasks.get? taskId).any fun task => decide (task.requesterId ∈ s.requesters)

/-- The runner of the task is gone. -/
def orphaned (s : Broker) (taskId : ℕ) : Bool :=
  (s.tasks.get? taskId).any fun task => decide (task.runnerId ∉ s.knownRunners)

@[simp] theorem putHandshake_told (s : Broker) (h : Handshake) (taskId : ℕ) :
    (s.putHandshake h).told taskId = s.told taskId := rfl

@[simp] theorem putHandshake_orphaned (s : Broker) (h : Handshake) (taskId : ℕ) :
    (s.putHandshake h).orphaned taskId = s.orphaned taskId := rfl

@[simp] theorem putHandshake_answers (s : Broker) (h : Handshake) (taskId : ℕ) :
    (s.putHandshake h).finalAnswers taskId = s.finalAnswers taskId := rfl

theorem failTask_answers (s : Broker) (taskId : ℕ) (error : String) (id : ℕ) :
    (s.failTask taskId error).finalAnswers id =
      s.finalAnswers id + if id = taskId ∧ s.told id = true then 1 else 0 := by
  unfold failTask told
  split
  · rename_i hn
    by_cases hid : id = taskId
    · simp [hid, hn]
    · simp [hid]
  · rename_i task ht
    rw [finalAnswers_messageRequester]
    by_cases hid : id = taskId
    · simp [hid, ht, ToRequester.finishes, finalAnswers]
    · simp [hid, Ne.symm hid, ToRequester.finishes, finalAnswers]

theorem failTask_told (s : Broker) (taskId : ℕ) (error : String) (id : ℕ) :
    (s.failTask taskId error).told id = (s.told id && decide (id ≠ taskId)) := by
  unfold failTask
  split
  · rename_i hn
    by_cases hid : id = taskId
    · simp [told, hid, hn]
    · simp [hid]
  · rename_i task ht
    obtain ⟨sent, he⟩ := messageRequester_eq { s with tasks := s.tasks.delete taskId }
      task.requesterId (.taskError taskId error)
    rw [he]
    by_cases hid : id = taskId
    · simp [told, hid]
    · simp [told, hid, OrderedMap.get?_delete_of_ne (Ne.symm hid)]

theorem failTasks_answers {s : Broker} (runnerId error : String) (ids : List ℕ)
    (hids : ∀ id ∈ ids, id ∉ s.runnerAcceptRejects) (id : ℕ) :
    (ids.foldl (fun s taskId => s.failTaskOf runnerId error taskId) s).finalAnswers id =
      s.finalAnswers id + if id ∈ ids ∧ s.told id = true then 1 else 0 := by
  rw [foldl_failTaskOf_eq hids]
  clear hids
  induction ids generalizing s with
  | nil => simp
  | cons taskId ids ih =>
    rw [List.foldl_cons, ih, failTask_answers, failTask_told]
    by_cases hid : id = taskId
    · simp [hid]
    · simp [hid]

theorem sendTaskSettings_answers (s : Broker) (h : Handshake) (settings : String) (id : ℕ) :
    (s.sendTaskSettings h settings).finalAnswers id = s.finalAnswers id +
      if id = h.taskId ∧ s.orphaned id = true ∧ s.told id = true then 1 else 0 := by
  unfold sendTaskSettings
  split
  · rename_i hn
    rw [cancelAndThrow_silent s h id]
    by_cases hid : id = h.taskId
    · simp [hid, orphaned, hn]
    · simp [hid]
  · rename_i task ht
    split
    · rename_i hr
      have hs := messageRunner_silent
        { s with tasks := s.tasks.set h.taskId { task with timeout := true } } task.runnerId
        (.taskSettings h.taskId settings) id
      refine hs.trans ?_
      by_cases hid : id = h.taskId
      · simp [hid, orphaned, ht, hr, finalAnswers]
      · simp [hid, finalAnswers]
    · rename_i hr
      refine (failTask_answers s h.taskId _ id).trans ?_
      by_cases hid : id = h.taskId
      · simp [hid, orphaned, ht, hr]
      · simp [hid]

end Broker

def RequesterAnswer.isSettings : RequesterAnswer → Bool
  | .settings _ => true
  | .timedOut => false

namespace Broker

/-- The event makes the broker fail the task because its runner is gone. -/
def fails (s : Broker) : Event → ℕ → Bool
  | .deregisterRunner runnerId _, id => (s.tasks.get? id).any fun task => task.runnerId == runnerId
  | .taskSettings taskId _, id =>
    decide (id = taskId ∧ taskId ∈ s.requesterAcceptRejects) && s.orphaned id &&
      (s.handshakes.get? id).any fun h =>
        decide (h.phase = .awaitingRequester) && h.requesterAnswer.isNone
  | .messageSettled taskId true, id =>
    decide (id = taskId) && s.orphaned id && (s.handshakes.get? id).any fun h =>
      decide (h.phase = .readying) && h.requesterAnswer.any RequesterAnswer.isSettings
  | _, _ => false

theorem deregisterRunner_answers {s : Broker} (hk : s.Keyed) (runnerId error : String) (id : ℕ) :
    (s.deregisterRunner runnerId error).finalAnswers id = s.finalAnswers id +
      if (s.tasks.get? id).any (fun task => task.runnerId == runnerId) = true ∧ s.told id = true
      then 1 else 0 := by
  have h := @failTasks_answers { s with
      knownRunners := s.knownRunners.filter (fun id => decide (id ≠ runnerId))
      pendingTaskOffers := s.pendingTaskOffers.filter (fun o => decide (o.runnerId ≠ runnerId)) }
    runnerId error _ (hk.not_rejectable runnerId) id
  have hmem : id ∈ (s.tasks.values.filter (fun task => task.runnerId == runnerId)).map Task.id ↔
      (s.tasks.get? id).any (fun task => task.runnerId == runnerId) = true := by
    rw [List.mem_map, Option.any_eq_true]
    constructor
    · rintro ⟨task, htask, rfl⟩
      obtain ⟨hin, hrunner⟩ := List.mem_filter.mp htask
      obtain ⟨key, hg⟩ := OrderedMap.mem_values.mp hin
      exact ⟨task, hk.ids key task hg ▸ hg, hrunner⟩
    · rintro ⟨task, hg, hrunner⟩
      exact ⟨task, List.mem_filter.mpr ⟨OrderedMap.mem_values.mpr ⟨id, hg⟩, hrunner⟩,
        hk.ids id task hg⟩
  refine h.trans ?_
  simp only [hmem]
  rfl

theorem answerRequester_answers {s : Broker} (hk : s.Keyed) (taskId : ℕ) (a : RequesterAnswer)
    (id : ℕ) : (s.answerRequester taskId a).finalAnswers id = s.finalAnswers id +
      if (id = taskId ∧ a.isSettings = true ∧ s.orphaned id = true ∧
        (s.handshakes.get? id).any (fun h =>
          decide (h.phase = .awaitingRequester) && h.requesterAnswer.isNone) = true) ∧
        s.told id = true then 1 else 0 := by
  unfold answerRequester
  split
  · rename_i hn
    by_cases hid : id = taskId
    · simp [hid, hn]
    · simp [hid]
  · rename_i h hg
    obtain rfl := hk.own taskId h hg
    rcases Option.eq_none_or_eq_some h.requesterAnswer with hnone | ⟨b, hb⟩
    · simp only [hnone, Option.isSome_none, Bool.false_eq_true, if_false]
      by_cases hph : h.phase = .awaitingRequester
      · simp only [hph, if_true, resumeRequester]
        cases a with
        | settings settings =>
          refine (sendTaskSettings_answers _ _ _ id).trans ?_
          by_cases hid : id = h.taskId
          · simp [hid, hg, hnone, hph, RequesterAnswer.isSettings]
          · simp [hid]
        | timedOut =>
          refine (cancelAndThrow_silent _ _ id).trans ?_
          simp [RequesterAnswer.isSettings]
      · by_cases hid : id = h.taskId
        · simp [hid, hg, hph]
        · simp [hid, hph]
    · by_cases hid : id = h.taskId
      · simp [hid, hg, hb]
      · simp [hid, hb]

theorem messageSettled_answers {s : Broker} (hk : s.Keyed) (taskId : ℕ) (sent : Bool) (id : ℕ) :
    (s.messageSettled taskId sent).finalAnswers id = s.finalAnswers id +
      if s.fails (.messageSettled taskId sent) id = true ∧ s.told id = true then 1 else 0 := by
  unfold messageSettled
  cases hg : s.handshakes.get? taskId with
  | none =>
    by_cases hid : id = taskId
    · cases sent <;> simp [fails, hid, hg]
    · cases sent <;> simp [fails, hid]
  | some h =>
    obtain rfl := hk.own taskId h hg
    -- only a handshake that waits for its message to the requester can fail the task
    have hother : h.phase ≠ .readying → s.fails (.messageSettled h.taskId sent) id = false := by
      intro hph
      by_cases hid : id = h.taskId
      · cases sent <;> simp [fails, hid, hg, hph]
      · cases sent <;> simp [fails, hid]
    dsimp only
    cases hph : h.phase with
    | offering =>
      rw [hother (by simp [hph])]
      cases sent with
      | false => exact (returnRequest_givesBack s h false true).answers id
      | true => exact resumeRunner_silent _ _ id
    | readying =>
      cases sent with
      | false => simpa [fails] using cancelAndThrow_silent s h id
      | true =>
        have hmine : s.fails (.messageSettled h.taskId true) id = (decide (id = h.taskId) &&
            s.orphaned id && h.requesterAnswer.any RequesterAnswer.isSettings) := by
          by_cases hid : id = h.taskId
          · simp [fails, hid, hg, hph]
          · simp [fails, hid]
        rw [hmine]
        simp only [resumeRequester]
        split
        · rename_i hn
          simp [hn]
        · rename_i settings hn
          refine (sendTaskSettings_answers _ _ settings id).trans ?_
          simp [hn, RequesterAnswer.isSettings, and_assoc]
        · rename_i hn
          refine (cancelAndThrow_silent _ _ id).trans ?_
          simp [hn, RequesterAnswer.isSettings]
    | sendingSettings =>
      rw [hother (by simp [hph])]
      cases sent with
      | false => exact cancelAndThrow_silent s h id
      | true => rfl
    | failing =>
      rw [hother (by simp [hph])]
      exact cancelAndThrow_silent s h id
    | cancelling | awaitingRunner | awaitingRequester =>
      rw [hother (by simp [hph])]
      rfl

/-- The final answers that an event of the broker alone sends. -/
theorem next_answers {s : Broker} (hk : s.Keyed) (e : Event) (id : ℕ) :
    (s.next e).finalAnswers id =
      s.finalAnswers id + if s.fails e id = true ∧ s.told id = true then 1 else 0 := by
  cases e with
  | registerRunner runnerId => exact messageRunner_silent _ _ _ id
  | deregisterRunner runnerId error => exact deregisterRunner_answers hk runnerId error id
  | registerRequester | deregisterRequester | clock => rfl
  | taskRequest requesterId requestId taskType => exact settleTasks_silent _ id
  | taskOffer runnerId offerId taskType validFor =>
    simp only [next, fromRunner]
    split
    · exact settleTasks_silent _ id
    · rfl
  | taskAccepted runnerId taskId => exact handleRunnerAnswer_silent s runnerId taskId _ id
  | taskRejected runnerId taskId reason => exact handleRunnerAnswer_silent s runnerId taskId _ id
  | taskDeferred runnerId taskId => exact handleRunnerAnswer_silent s runnerId taskId _ id
  | taskSettings taskId settings =>
    simp only [next, handleRequesterAccept, fails]
    split
    · rename_i hin
      have hk' : Keyed { s with requesterAcceptRejects :=
          s.requesterAcceptRejects.filter (fun id => decide (id ≠ taskId)) } :=
        ⟨hk.fresh, hk.open_, hk.own, hk.accepted, hk.ids⟩
      refine (answerRequester_answers hk' taskId (.settings settings) id).trans ?_
      simp only [RequesterAnswer.isSettings, hin, Bool.and_eq_true, decide_eq_true_eq, and_true,
        true_and, and_assoc]
      rfl
    · rename_i hin
      simp [hin]
  | taskCancel taskId reason =>
    simp only [next]
    cases hc : s.cancelTask taskId reason with
    | none => rfl
    | some s' => exact cancelTask_silent hc id
  | runnerAcceptTimeout taskId => exact answerRunner_silent s taskId .timedOut id
  | requesterAcceptTimeout taskId =>
    refine (answerRequester_answers hk taskId .timedOut id).trans ?_
    simp [RequesterAnswer.isSettings, fails]
  | messageSettled taskId sent => exact messageSettled_answers hk taskId sent id

end Broker

/-! ### Tasks whose answer is being sent -/

/-- The task whose answer the call sends or could not send. -/
def Call.answers? : Call → Option ℕ
  | .answering taskId => some taskId
  | .failed taskId => some taskId
  | .timingOut _ => none

namespace Relay

def answering (s : Relay) : List ℕ := s.calls.values.filterMap Call.answers?

theorem mem_answering {s : Relay} {id : ℕ} :
    id ∈ s.answering ↔ ∃ k c, s.calls.get? k = some c ∧ c.answers? = some id := by
  simp only [answering, List.mem_filterMap, OrderedMap.mem_values]
  constructor
  · rintro ⟨c, ⟨k, hk⟩, hc⟩
    exact ⟨k, c, hk, hc⟩
  · rintro ⟨k, c, hk, hc⟩
    exact ⟨c, ⟨k, hk⟩, hc⟩

def Numbered (s : Relay) : Prop := ∀ k, s.nextCall ≤ k → s.calls.get? k = none

theorem mem_answering_startCall {s : Relay} (hn : s.Numbered) (c : Call) {id : ℕ} :
    id ∈ (s.startCall c).answering ↔ id ∈ s.answering ∨ c.answers? = some id := by
  simp only [mem_answering, startCall, OrderedMap.get?_set]
  constructor
  · rintro ⟨k, d, hd, hid⟩
    split at hd
    · obtain rfl := Option.some.inj hd
      exact Or.inr hid
    · exact Or.inl ⟨k, d, hd, hid⟩
  · rintro (⟨k, d, hd, hid⟩ | hid)
    · have hne : s.nextCall ≠ k := by
        rintro rfl
        rw [hn _ (Nat.le_refl _)] at hd
        cases hd
      exact ⟨k, d, by rw [if_neg hne]; exact hd, hid⟩
    · exact ⟨s.nextCall, c, if_pos rfl, hid⟩

theorem Numbered.startCall {s : Relay} (hn : s.Numbered) (c : Call) : (s.startCall c).Numbered := by
  intro k hk
  change s.nextCall + 1 ≤ k at hk
  exact (OrderedMap.get?_set_of_ne (by omega)).trans (hn k (by omega))

/-- What the handlers of tasks do: they open no handshake and create no task, and a task
whose final answer they send is gone or being answered. -/
structure Tended (s s' : Relay) : Prop where
  keyed : s.broker.Keyed → s'.broker.Keyed
  handshakes : s'.broker.handshakes = s.broker.handshakes
  ids : s'.broker.nextTaskId = s.broker.nextTaskId
  tasks : ∀ id, s.broker.tasks.get? id = none → s'.broker.tasks.get? id = none
  numbered : s'.Numbered
  kept : ∀ id ∈ s.answering, id ∈ s'.answering ∨ s'.broker.tasks.get? id = none
  new : ∀ id ∈ s'.answering, id ∈ s.answering ∨
    s'.broker.finalAnswers id = s.broker.finalAnswers id + 1
  answered : ∀ id, s'.broker.finalAnswers id = s.broker.finalAnswers id ∨
    s'.broker.finalAnswers id = s.broker.finalAnswers id + 1 ∧
      s.broker.tasks.get? id ≠ none ∧
      (id ∈ s'.answering ∨ s'.broker.tasks.get? id = none)

theorem Tended.refl {s : Relay} (hn : s.Numbered) : Tended s s :=
  ⟨fun h => h, rfl, rfl, fun _ h => h, hn, fun _ h => Or.inl h, fun _ h => Or.inl h,
    fun _ => Or.inl rfl⟩

/-- A change of the broker that answers no requester for good. -/
theorem tended_onBroker {s : Relay} (hn : s.Numbered) {f : Broker → Broker}
    (hk : s.broker.Keyed → (f s.broker).Keyed)
    (hh : (f s.broker).handshakes = s.broker.handshakes)
    (hi : (f s.broker).nextTaskId = s.broker.nextTaskId)
    (ht : ∀ id, s.broker.tasks.get? id = none → (f s.broker).tasks.get? id = none)
    (ha : s.broker.Silent (f s.broker)) : Tended s (s.onBroker f) :=
  ⟨hk, hh, hi, ht, hn, fun _ h => Or.inl h, fun _ h => Or.inl h, fun id => Or.inl (ha id)⟩

/-- A silent step before a step of the handlers. -/
theorem Tended.after {s t u : Relay} (h₁ : Tended s t) (ha : s.broker.Silent t.broker)
    (h₂ : Tended t u) : Tended s u := by
  refine ⟨fun hk => h₂.keyed (h₁.keyed hk), h₂.handshakes.trans h₁.handshakes,
    h₂.ids.trans h₁.ids, fun id h => h₂.tasks id (h₁.tasks id h), h₂.numbered, fun id hid => ?_,
    fun id hid => ?_, fun id => ?_⟩
  · rcases h₁.kept id hid with h | h
    · exact h₂.kept id h
    · exact Or.inr (h₂.tasks id h)
  · rcases h₂.new id hid with h | h
    · exact (h₁.new id h).imp_right fun he => absurd ((ha id).symm.trans he) (by omega)
    · exact Or.inr (h.trans (by rw [ha id]))
  · rcases h₂.answered id with h | ⟨h, hin, hout⟩
    · exact Or.inl (h.trans (ha id))
    · exact Or.inr ⟨h.trans (by rw [ha id]), fun hn => hin (h₁.tasks id hn), hout⟩

theorem clearTimeout_get? (s : Broker) (taskId id : ℕ) :
    (s.clearTimeout taskId).tasks.get? id =
      (s.tasks.get? id).map fun task => if id = taskId then { task with timeout := false } else task := by
  unfold Broker.clearTimeout
  split
  · rename_i hn
    by_cases hid : id = taskId
    · simp [hid, hn]
    · simp [hid]
  · rename_i task ht
    by_cases hid : id = taskId
    · simp [hid, ht]
    · simp [hid, OrderedMap.get?_set_of_ne (Ne.symm hid)]

theorem clearTimeout_eq (s : Broker) (taskId : ℕ) :
    ∃ tasks, s.clearTimeout taskId = { s with tasks := tasks } := by
  unfold Broker.clearTimeout
  split
  · exact ⟨s.tasks, rfl⟩
  · exact ⟨_, rfl⟩

theorem clearTimeout_tended {s : Relay} (hn : s.Numbered) (taskId : ℕ) :
    Tended s (s.onBroker (·.clearTimeout taskId)) := by
  have hget := clearTimeout_get? s.broker taskId
  obtain ⟨tasks, he⟩ := clearTimeout_eq s.broker taskId
  have hnone : ∀ id, s.broker.tasks.get? id = none →
      (s.broker.clearTimeout taskId).tasks.get? id = none := by
    intro id h
    rw [hget, h, Option.map_none]
  apply tended_onBroker hn
  · intro hk
    rw [he] at hget hnone ⊢
    refine hk.withTasks hnone fun id task h => ?_
    have h' := (hget id).symm.trans h
    obtain ⟨task', ht', rfl⟩ := Option.map_eq_some_iff.mp h'
    split <;> exact hk.ids id task' ht'
  · rw [he]
  · rw [he]
  · exact hnone
  · rw [he]
    exact fun _ => rfl

theorem clearTimeout_orphaned (s : Broker) (taskId id : ℕ) :
    (s.clearTimeout taskId).orphaned id = s.orphaned id := by
  have hget := clearTimeout_get? s taskId id
  obtain ⟨tasks, he⟩ := clearTimeout_eq s taskId
  rw [he] at hget ⊢
  unfold Broker.orphaned
  rw [hget]
  cases s.tasks.get? id with
  | none => rfl
  | some task =>
    by_cases hid : id = taskId
    · simp [hid]
    · simp [hid]

theorem clearTimeout_told (s : Broker) (taskId id : ℕ) :
    (s.clearTimeout taskId).told id = s.told id := by
  have hget := clearTimeout_get? s taskId id
  obtain ⟨tasks, he⟩ := clearTimeout_eq s taskId
  rw [he] at hget ⊢
  unfold Broker.told
  rw [hget]
  cases s.tasks.get? id with
  | none => rfl
  | some task =>
    by_cases hid : id = taskId
    · simp [hid]
    · simp [hid]

/-- A message with the final answer of the task it names. -/
def Final (m : ℕ → ToRequester) : Prop := ∀ taskId id, (m taskId).finishes id = (taskId == id)

theorem deleteTask_tended {s : Relay} (hn : s.Numbered) (taskId : ℕ) :
    Tended s (s.onBroker fun b => { b with tasks := b.tasks.delete taskId }) := by
  refine tended_onBroker hn (fun hk => hk.withoutTask taskId) rfl rfl (fun id h => ?_)
    fun _ => rfl
  exact (OrderedMap.get?_delete _ _ _).trans (by rw [h, ite_self])

theorem answering_tended {s : Relay} (hn : s.Numbered) {requesterId : String} {taskId : ℕ}
    {m : ToRequester} (hin : requesterId ∈ s.broker.requesters)
    (ht : s.broker.tasks.get? taskId ≠ none) (hm : ∀ id, m.finishes id = (taskId == id)) :
    Tended s ((s.onBroker (·.messageRequester requesterId m)).startCall (.answering taskId)) := by
  have hans : ∀ id, (s.broker.messageRequester requesterId m).finalAnswers id =
      s.broker.finalAnswers id + if taskId = id then 1 else 0 := by
    intro id
    rw [Broker.finalAnswers_messageRequester, hm]
    simp [hin]
  have hcalls : ∀ id, id ∈ ((s.onBroker (·.messageRequester requesterId m)).startCall
      (.answering taskId)).answering ↔ id ∈ s.answering ∨ taskId = id := by
    intro id
    have hn' : (s.onBroker (·.messageRequester requesterId m)).Numbered := hn
    rw [mem_answering_startCall hn', Call.answers?, Option.some.injEq]
    rfl
  have hnum : ((s.onBroker (·.messageRequester requesterId m)).startCall
      (.answering taskId)).Numbered := Numbered.startCall hn _
  have hkeyed := fun hk : s.broker.Keyed => hk.messageRequester requesterId m
  have hsame : (s.broker.messageRequester requesterId m).handshakes = s.broker.handshakes ∧
      (s.broker.messageRequester requesterId m).nextTaskId = s.broker.nextTaskId ∧
      (s.broker.messageRequester requesterId m).tasks = s.broker.tasks := by
    obtain ⟨sent, he⟩ := Broker.messageRequester_eq s.broker requesterId m
    rw [he]
    exact ⟨rfl, rfl, rfl⟩
  refine ⟨hkeyed, hsame.1, hsame.2.1, fun id h => ?_, hnum,
    fun id h => Or.inl ((hcalls id).mpr (Or.inl h)), fun id h => ?_, fun id => ?_⟩
  · exact (congrArg (·.get? id) hsame.2.2).trans h
  · rcases (hcalls id).mp h with h | rfl
    · exact Or.inl h
    · exact Or.inr ((hans taskId).trans (by rw [if_pos rfl]))
  · by_cases hid : taskId = id
    · subst hid
      exact Or.inr ⟨(hans taskId).trans (by rw [if_pos rfl]), ht,
        Or.inl ((hcalls taskId).mpr (Or.inr rfl))⟩
    · exact Or.inl ((hans id).trans (by rw [if_neg hid, Nat.add_zero]))

theorem finishTask_tended {s : Relay} (hn : s.Numbered) (hk : s.broker.Keyed) (taskId : ℕ)
    {m : ℕ → ToRequester} (hm : Final m) : Tended s (s.finishTask taskId m) ∧
      ∀ id, (s.finishTask taskId m).broker.finalAnswers id = s.broker.finalAnswers id +
        if id = taskId ∧ s.broker.told id = true then 1 else 0 := by
  unfold finishTask
  split
  · rename_i hnone
    refine ⟨.refl hn, fun id => ?_⟩
    by_cases hid : id = taskId
    · simp [hid, Broker.told, hnone]
    · simp [hid]
  · rename_i task ht
    have htask : task.id = taskId := hk.ids _ _ ht
    have hclear := clearTimeout_tended hn taskId
    have hin : (s.broker.clearTimeout taskId).tasks.get? taskId ≠ none := by
      rw [clearTimeout_get?, ht]
      simp
    have hsame : (s.broker.clearTimeout taskId).requesters = s.broker.requesters ∧
        s.broker.Silent (s.broker.clearTimeout taskId) := by
      obtain ⟨tasks, he⟩ := clearTimeout_eq s.broker taskId
      rw [he]
      exact ⟨rfl, fun _ => rfl⟩
    obtain ⟨hreq, hsilent⟩ := hsame
    have htold : s.broker.told taskId = decide (task.requesterId ∈ s.broker.requesters) := by
      simp [Broker.told, ht]
    dsimp only
    rw [htask]
    split
    · rename_i hrequester
      refine ⟨hclear.after hsilent (answering_tended hclear.numbered hrequester hin (hm taskId)),
        fun id => ?_⟩
      refine (Broker.finalAnswers_messageRequester _ _ _ id).trans ?_
      rw [hm, show (s.onBroker (·.clearTimeout taskId)).broker.finalAnswers id =
        s.broker.finalAnswers id from hsilent id]
      rw [show (s.onBroker (·.clearTimeout taskId)).broker.requesters = s.broker.requesters
        from hreq] at hrequester ⊢
      by_cases hid : id = taskId
      · simp [hid, htold]
      · simp [hid, Ne.symm hid]
    · rename_i hrequester
      refine ⟨hclear.after hsilent (deleteTask_tended hclear.numbered taskId), fun id => ?_⟩
      refine (hsilent id).trans ?_
      rw [show (s.onBroker (·.clearTimeout taskId)).broker.requesters = s.broker.requesters
        from hreq] at hrequester
      by_cases hid : id = taskId
      · simp [hid, htold, hrequester]
      · simp [hid]

/-! ### The handlers of the relay -/

/-- The event makes a handler finish the task. -/
def finishes (s : Relay) (e : RelayEvent) (taskId : ℕ) : Bool :=
  match e.own? with
  | some own => s.broker.fails own taskId
  | none =>
    match e with
    | .fromRunner runnerId (.taskDone id _) | .fromRunner runnerId (.taskError id _) =>
      decide (taskId = id ∧ runnerId ∈ s.broker.knownRunners)
    | .fromRequester _ (.taskDataResponse id _ _) | .fromRequester _ (.nodeTypesResponse id _ _)
    | .fromRequester _ (.rpcResponse id _ _ _) => decide (taskId = id) && s.broker.orphaned taskId
    | .taskTimeout id =>
      decide (taskId = id) && (s.broker.tasks.get? id).any Task.timeout &&
        (decide (s.mode = .internal) || s.broker.orphaned taskId)
    | .callSettled callId true => decide (s.calls.get? callId = some (.timingOut taskId))
    | _ => false

/-- What a handler does to the tasks, and the final answers that it sends. -/
def Handles (s s' : Relay) (finishes : ℕ → Bool) : Prop :=
  Tended s s' ∧ ∀ id, s'.broker.finalAnswers id = s.broker.finalAnswers id +
    if finishes id = true ∧ s.broker.told id = true then 1 else 0

theorem Handles.none {s s' : Relay} (ht : Tended s s') (ha : s.broker.Silent s'.broker) :
    Handles s s' fun _ => false := ⟨ht, fun id => by simpa using ha id⟩

theorem Handles.of_eq {s s' t : Relay} {f g : ℕ → Bool} (h : Handles s t g) (hs : s' = t)
    (hf : ∀ id, f id = g id) : Handles s s' f := by
  obtain rfl := hs
  obtain rfl := funext hf
  exact h

theorem taskDone_final (data : String) : Final (.taskDone · data) := fun _ _ => rfl

theorem taskError_final (error : String) : Final (.taskError · error) := fun _ _ => rfl

theorem finishTask_handles {s : Relay} (hn : s.Numbered) (hk : s.broker.Keyed) (taskId : ℕ)
    {m : ℕ → ToRequester} (hm : Final m) :
    Handles s (s.finishTask taskId m) fun id => decide (id = taskId) := by
  obtain ⟨ht, ha⟩ := finishTask_tended hn hk taskId hm
  exact ⟨ht, fun id => by simpa using ha id⟩

theorem messageRunner_tended {s : Relay} (hn : s.Numbered) (runnerId : String) (m : ToRunner) :
    Tended s (s.onBroker (·.messageRunner runnerId m)) := by
  have hkeyed := fun hk : s.broker.Keyed => hk.messageRunner runnerId m
  have hsilent := Broker.messageRunner_silent s.broker runnerId m
  obtain ⟨sent, he⟩ := Broker.messageRunner_eq s.broker runnerId m
  exact tended_onBroker hn hkeyed (by rw [he]) (by rw [he]) (fun id h => by rw [he]; exact h)
    hsilent

/-- A call that answers no task begins. -/
theorem startCall_tended {s : Relay} (hn : s.Numbered) (taskId : ℕ) :
    Tended s (s.startCall (.timingOut taskId)) := by
  have hcalls : ∀ id, id ∈ (s.startCall (.timingOut taskId)).answering ↔ id ∈ s.answering := by
    intro id
    rw [mem_answering_startCall hn]
    simp [Call.answers?]
  exact ⟨fun h => h, rfl, rfl, fun _ h => h, hn.startCall _, fun id h => Or.inl ((hcalls id).mpr h),
    fun id h => Or.inl ((hcalls id).mp h), fun _ => Or.inl rfl⟩

theorem handleTaskTimeout_handles {s : Relay} (hn : s.Numbered) (hk : s.broker.Keyed)
    (taskId : ℕ) : Handles s (s.handleTaskTimeout taskId) fun id => decide (id = taskId) &&
      (decide (s.mode = .internal) || s.broker.orphaned id) := by
  unfold handleTaskTimeout
  split
  · rename_i hnone
    refine ⟨.refl hn, fun id => ?_⟩
    by_cases hid : id = taskId
    · simp [hid, Broker.told, hnone]
    · simp [hid]
  · rename_i task ht
    have horphaned : s.broker.orphaned taskId = decide (task.runnerId ∉ s.broker.knownRunners) := by
      simp [Broker.orphaned, ht]
    split
    · rename_i hmode
      obtain ⟨⟨h₁, h₂, h₃, h₄, h₅, h₆, h₇, h₈⟩, ha⟩ := @finishTask_handles
        { s with timedOutDuringTask := s.timedOutDuringTask + 1 } hn hk taskId _
        (taskError_final s.executionTimeoutError)
      exact ⟨⟨h₁, h₂, h₃, h₄, h₅, h₆, h₇, h₈⟩, fun id => (ha id).trans (by simp [hmode])⟩
    · rename_i hmode
      split
      · rename_i hrunner
        have hsilent := Broker.messageRunner_silent s.broker task.runnerId
          (.taskCancel taskId "Task execution timed out")
        have hmessage := messageRunner_tended hn task.runnerId
          (.taskCancel taskId "Task execution timed out")
        refine ⟨hmessage.after hsilent (startCall_tended hmessage.numbered taskId), fun id => ?_⟩
        refine (hsilent id).trans ?_
        by_cases hid : id = taskId
        · simp [hid, hmode, horphaned, hrunner]
        · simp [hid]
      · rename_i hrunner
        obtain ⟨ht', ha⟩ := finishTask_handles hn hk taskId
          (taskError_final s.executionTimeoutError)
        refine ⟨ht', fun id => (ha id).trans ?_⟩
        by_cases hid : id = taskId
        · simp [hid, hmode, horphaned, hrunner]
        · simp [hid]

theorem taskTimerFires_handles {s : Relay} (hn : s.Numbered) (hk : s.broker.Keyed) (taskId : ℕ) :
    Handles s (s.taskTimerFires taskId) (s.finishes (.taskTimeout taskId)) := by
  unfold taskTimerFires
  split
  · rename_i hnone
    refine ⟨.refl hn, fun id => ?_⟩
    simp [finishes, RelayEvent.own?, hnone]
  · rename_i task ht
    split
    · rename_i htimer
      have hclear := clearTimeout_tended hn taskId
      obtain ⟨ht', ha⟩ := handleTaskTimeout_handles hclear.numbered (hclear.keyed hk) taskId
      have hsilent : s.broker.Silent (s.broker.clearTimeout taskId) := by
        obtain ⟨tasks, he⟩ := clearTimeout_eq s.broker taskId
        rw [he]
        exact fun _ => rfl
      refine ⟨hclear.after hsilent ht', fun id => (ha id).trans ?_⟩
      simp only [onBroker, clearTimeout_told, clearTimeout_orphaned]
      rw [hsilent id]
      by_cases hid : id = taskId
      · by_cases hmode : s.mode = .internal
        · simp [hid, finishes, RelayEvent.own?, ht, htimer, hmode]
        · simp [hid, finishes, RelayEvent.own?, ht, htimer, hmode]
      · simp [hid, finishes, RelayEvent.own?]
    · rename_i htimer
      refine ⟨.refl hn, fun id => ?_⟩
      simp [finishes, RelayEvent.own?, ht, htimer]

/-- The calls change, but not the tasks that are being answered. -/
theorem withCalls_tended {s : Relay} {calls : OrderedMap ℕ Call}
    (hn : Numbered { s with calls := calls })
    (hc : ∀ id, id ∈ answering { s with calls := calls } ↔ id ∈ s.answering) :
    Tended s { s with calls := calls } :=
  ⟨fun h => h, rfl, rfl, fun _ h => h, hn, fun id h => Or.inl ((hc id).mpr h),
    fun id h => Or.inl ((hc id).mp h), fun _ => Or.inl rfl⟩

theorem numbered_deleteCall {s : Relay} (hn : s.Numbered) (callId : ℕ) :
    Numbered { s with calls := s.calls.delete callId } := by
  intro k hk
  exact (OrderedMap.get?_delete _ _ _).trans (by rw [hn k hk, ite_self])

/-- A call that runs into a timeout answers no task. -/
theorem deleteTimingOut_tended {s : Relay} (hn : s.Numbered) {callId taskId : ℕ}
    (hc : s.calls.get? callId = some (.timingOut taskId)) :
    Tended s { s with calls := s.calls.delete callId } := by
  refine withCalls_tended (numbered_deleteCall hn callId) fun id => ?_
  simp only [mem_answering, OrderedMap.get?_delete]
  constructor
  · rintro ⟨k, c, hg, hid⟩
    split at hg
    · cases hg
    · exact ⟨k, c, hg, hid⟩
  · rintro ⟨k, c, hg, hid⟩
    refine ⟨k, c, ?_, hid⟩
    rw [if_neg]
    · exact hg
    · rintro rfl
      rw [hc] at hg
      obtain rfl := Option.some.inj hg
      cases hid

/-- The answer has been sent, and the task is gone. -/
theorem deleteAnswered_tended {s : Relay} (hn : s.Numbered) {callId taskId : ℕ}
    (hc : s.calls.get? callId = some (.answering taskId)) :
    Tended s ({ s with calls := s.calls.delete callId }.onBroker
      fun b => { b with tasks := b.tasks.delete taskId }) := by
  refine ⟨fun hk => hk.withoutTask taskId, rfl, rfl, fun id h => ?_, numbered_deleteCall hn callId,
    fun id h => ?_, fun id h => Or.inl ?_, fun _ => Or.inl rfl⟩
  · exact (OrderedMap.get?_delete _ _ _).trans (by rw [h, ite_self])
  · obtain ⟨k, c, hg, hid⟩ := mem_answering.mp h
    by_cases hk : callId = k
    · subst hk
      rw [hc] at hg
      obtain rfl := Option.some.inj hg
      obtain rfl := Option.some.inj hid
      exact Or.inr (OrderedMap.get?_delete_self _ _)
    · exact Or.inl (mem_answering.mpr ⟨k, c, (OrderedMap.get?_delete_of_ne hk).trans hg, hid⟩)
  · obtain ⟨k, c, hg, hid⟩ := mem_answering.mp h
    simp only [onBroker, OrderedMap.get?_delete] at hg
    split at hg
    · cases hg
    · exact mem_answering.mpr ⟨k, c, hg, hid⟩

/-- The task of an answer that could not be sent stays one that is being answered. -/
theorem setFailed_tended {s : Relay} (hn : s.Numbered) {callId taskId : ℕ}
    (hc : s.calls.get? callId = some (.answering taskId)) :
    Tended s { s with calls := s.calls.set callId (.failed taskId) } := by
  refine withCalls_tended (fun k hk => ?_) fun id => ?_
  · refine (OrderedMap.get?_set_of_ne ?_).trans (hn k hk)
    rintro rfl
    rw [hn _ hk] at hc
    cases hc
  · simp only [mem_answering, OrderedMap.get?_set]
    constructor
    · rintro ⟨k, c, hg, hid⟩
      split at hg
      · obtain rfl := Option.some.inj hg
        exact ⟨callId, _, hc, hid⟩
      · exact ⟨k, c, hg, hid⟩
    · rintro ⟨k, c, hg, hid⟩
      by_cases hk : callId = k
      · subst hk
        rw [hc] at hg
        obtain rfl := Option.some.inj hg
        exact ⟨callId, .failed taskId, if_pos rfl, hid⟩
      · exact ⟨k, c, by rw [if_neg hk]; exact hg, hid⟩

theorem callSettled_handles {s : Relay} (hn : s.Numbered) (hk : s.broker.Keyed) (callId : ℕ)
    (sent : Bool) :
    Handles s (s.callSettled callId sent) (s.finishes (.callSettled callId sent)) := by
  -- a call that does not go on with `taskErrorHandler` finishes no task
  have hnone : ∀ t : Relay, Tended s t → s.broker.Silent t.broker →
      (sent = true → ∀ id, s.calls.get? callId ≠ some (.timingOut id)) →
      Handles s t (s.finishes (.callSettled callId sent)) := by
    intro t ht ha hno
    refine ⟨ht, fun id => (ha id).trans ?_⟩
    cases sent with
    | false => simp [finishes, RelayEvent.own?]
    | true => simp [finishes, RelayEvent.own?, hno rfl id]
  unfold callSettled
  cases hc : s.calls.get? callId with
  | none => exact hnone s (.refl hn) (.refl _) (by simp [hc])
  | some c =>
    cases c with
    | answering taskId =>
      cases sent with
      | true => exact hnone _ (deleteAnswered_tended hn hc) (fun _ => rfl) (by simp [hc])
      | false => exact hnone _ (setFailed_tended hn hc) (fun _ => rfl) (by simp [hc])
    | timingOut taskId =>
      have hdeleted := deleteTimingOut_tended hn hc
      cases sent with
      | true =>
        obtain ⟨ht, ha⟩ := finishTask_handles hdeleted.numbered (hdeleted.keyed hk) taskId
          (taskError_final s.executionTimeoutError)
        refine ⟨hdeleted.after (fun _ => rfl) ht, fun id => (ha id).trans ?_⟩
        by_cases hid : id = taskId
        · simp [finishes, RelayEvent.own?, hc, hid]
        · simp [finishes, RelayEvent.own?, hc, hid, Ne.symm hid]
      | false => exact hnone _ hdeleted (fun _ => rfl) (by simp)
    | failed taskId => exact hnone s (.refl hn) (.refl _) (by simp [hc])

theorem passToRequester_tended {s : Relay} (hn : s.Numbered) (taskId : ℕ) {m : ToRequester}
    (hm : ∀ id, m.finishes id = false) :
    Tended s (s.onBroker (·.passToRequester taskId m)) ∧
      s.broker.Silent (s.broker.passToRequester taskId m) := by
  unfold Broker.passToRequester
  split
  · rename_i hnone
    simp only [onBroker, hnone]
    exact ⟨.refl hn, .refl _⟩
  · rename_i task ht
    have hkeyed := fun hk : s.broker.Keyed => hk.messageRequester task.requesterId m
    have hsilent : s.broker.Silent (s.broker.messageRequester task.requesterId m) := by
      intro id
      rw [Broker.finalAnswers_messageRequester, hm]
      simp
    obtain ⟨sent, he⟩ := Broker.messageRequester_eq s.broker task.requesterId m
    refine ⟨tended_onBroker hn ?_ ?_ ?_ ?_ ?_, hsilent⟩ <;> simp only [ht]
    · exact hkeyed
    · rw [he]
    · rw [he]
    · rw [he]
      exact fun id h => h
    · exact hsilent

theorem failTask_tended {s : Relay} (hn : s.Numbered) (taskId : ℕ) (error : String) :
    Tended s (s.onBroker (·.failTask taskId error)) := by
  have hsteady := Broker.failTask_steady s.broker taskId error
  have hsame : (s.broker.failTask taskId error).handshakes = s.broker.handshakes := by
    unfold Broker.failTask
    split
    · rfl
    · obtain ⟨sent, he⟩ := Broker.messageRequester_eq
        { s.broker with tasks := s.broker.tasks.delete taskId } _ _
      rw [he]
  refine ⟨fun hk => hk.failTask taskId error, hsame, hsteady.ids, hsteady.tasks, hn,
    fun _ h => Or.inl h, fun _ h => Or.inl h, fun id => ?_⟩
  exact (hsteady.answers id).imp_right fun ⟨he, hin, hout⟩ => ⟨he, hin, Or.inr hout⟩

theorem passToRunner_handles {s : Relay} (hn : s.Numbered) (taskId : ℕ) (m : ToRunner) :
    Handles s (s.onBroker fun _ => (s.broker.passToRunner taskId m).1)
      fun id => decide (id = taskId) && s.broker.orphaned id := by
  unfold Broker.passToRunner Broker.getRunnerOrFailTask
  cases ht : s.broker.tasks.get? taskId with
  | none =>
    refine ⟨.refl hn, fun id => ?_⟩
    by_cases hid : id = taskId
    · simp [onBroker, hid, Broker.orphaned, ht]
    · simp [onBroker, hid]
  | some task =>
    have horphaned : s.broker.orphaned taskId = decide (task.runnerId ∉ s.broker.knownRunners) := by
      simp [Broker.orphaned, ht]
    dsimp only
    split
    · rename_i s' error heq
      split at heq
      · cases heq
      · rename_i hrunner
        obtain ⟨rfl, -⟩ := Prod.mk.inj heq
        refine ⟨failTask_tended hn taskId _, fun id => ?_⟩
        refine (Broker.failTask_answers s.broker taskId _ id).trans ?_
        by_cases hid : id = taskId
        · simp [hid, horphaned, hrunner]
        · simp [hid]
    · rename_i s' runnerId heq
      split at heq
      · rename_i hrunner
        obtain ⟨rfl, -⟩ := Prod.mk.inj heq
        refine ⟨messageRunner_tended hn runnerId m, fun id => ?_⟩
        refine (Broker.messageRunner_silent s.broker runnerId m id).trans ?_
        by_cases hid : id = taskId
        · simp [hid, horphaned, hrunner]
        · simp [hid]
      · cases heq

/-- What the events do that the broker does not handle alone. -/
theorem next_handles {s : Relay} (hn : s.Numbered) (hk : s.broker.Keyed) {e : RelayEvent}
    (h : e.own? = none) : Handles s (s.next e) (s.finishes e) := by
  cases e with
  | fromRunner runnerId m =>
    by_cases hr : runnerId ∈ s.broker.knownRunners
    · have hpass : ∀ (taskId : ℕ) (m : ToRequester), (∀ id, m.finishes id = false) →
          Handles s (s.onBroker (·.passToRequester taskId m)) fun _ => false :=
        fun taskId m hm => .none (passToRequester_tended hn taskId hm).1
          (passToRequester_tended hn taskId hm).2
      cases m with
      | info name types => exact (Handles.none (.refl hn) (.refl _)).of_eq (if_pos hr) fun _ => rfl
      | taskAccepted | taskRejected | taskDeferred | taskOffer => cases h
      | taskDone taskId data =>
        exact (finishTask_handles hn hk taskId (taskDone_final data)).of_eq (if_pos hr) fun id => by
          simp [finishes, RelayEvent.own?, hr]
      | taskError taskId error =>
        exact (finishTask_handles hn hk taskId (taskError_final error)).of_eq (if_pos hr) fun id => by
          simp [finishes, RelayEvent.own?, hr]
      | taskDataRequest taskId requestId requestParams =>
        exact (hpass taskId (.taskDataRequest taskId requestId requestParams) fun _ => rfl).of_eq
          (if_pos hr) fun _ => rfl
      | nodeTypesRequest taskId requestId requestParams =>
        exact (hpass taskId (.nodeTypesRequest taskId requestId requestParams) fun _ => rfl).of_eq
          (if_pos hr) fun _ => rfl
      | rpc taskId callId name params =>
        exact (hpass taskId (.rpc taskId callId name params) fun _ => rfl).of_eq (if_pos hr) fun _ => rfl
    · have hnone : s.finishes (.fromRunner runnerId m) = fun _ => false := by
        funext id
        cases m <;> simp_all [finishes, RelayEvent.own?]
      rw [hnone]
      exact (Handles.none (.refl hn) (.refl _)).of_eq (if_neg hr) fun _ => rfl
  | fromRequester requesterId m =>
    cases m with
    | taskSettings | taskCancel | taskRequest => cases h
    | taskDataResponse taskId requestId data =>
      exact passToRunner_handles hn taskId (.taskDataResponse taskId requestId data)
    | nodeTypesResponse taskId requestId nodeTypes =>
      exact passToRunner_handles hn taskId (.nodeTypes taskId requestId nodeTypes)
    | rpcResponse taskId callId status data =>
      exact passToRunner_handles hn taskId (.rpcResponse taskId callId status data)
  | taskTimeout taskId => exact taskTimerFires_handles hn hk taskId
  | callSettled callId sent => exact callSettled_handles hn hk callId sent
  | _ => cases h

end Relay

namespace Broker

/-! ### Answered tasks are gone or on the list -/

/-- A task that was answered is gone, or it is on the list `answering`. -/
structure Answered (s : Broker) (answering : List ℕ) : Prop where
  keyed : s.Keyed
  untasked : ∀ id h, s.handshakes.get? id = some h → h.accepting = true → s.tasks.get? id = none
  early : ∀ id h, s.handshakes.get? id = some h → h.accepting = true → s.finalAnswers id = 0
  fresh : ∀ id, s.nextTaskId ≤ id → s.finalAnswers id = 0
  once : ∀ id, s.finalAnswers id ≤ 1
  held : ∀ id, s.finalAnswers id = 1 → s.tasks.get? id = none ∨ id ∈ answering
  sending : ∀ id ∈ answering, s.finalAnswers id = 1

variable {s s' : Broker} {answering : List ℕ}

/-- A task that is answered now, while no other answer to it is on its way, has not been answered
before. -/
theorem Answered.eq_zero_of_answers (ha : s.Answered answering) {id : ℕ}
    (hsame : s.tasks.get? id = none → s'.finalAnswers id = s.finalAnswers id)
    (hnew : id ∈ answering → s'.finalAnswers id = s.finalAnswers id)
    (he : s'.finalAnswers id = s.finalAnswers id + 1) : s.finalAnswers id = 0 := by
  rcases Nat.le_one_iff_eq_zero_or_eq_one.mp (ha.once id) with h | h
  · exact h
  · rcases ha.held id h with hn | hin
    · rw [hsame hn] at he
      omega
    · rw [hnew hin] at he
      omega

theorem Answered.steady (ha : s.Answered answering) (hs : Steady s s') (hk : s'.Keyed)
    (hnew : ∀ id ∈ answering, s'.finalAnswers id = s.finalAnswers id) :
    s'.Answered answering := by
  have hsame : ∀ id, s.tasks.get? id = none → s'.finalAnswers id = s.finalAnswers id := by
    intro id hid
    exact (hs.answers id).resolve_right fun h => h.2.1 hid
  refine ⟨hk, fun id h' hg hacc => ?_, fun id h' hg hacc => ?_, fun id hid => ?_, fun id => ?_,
    fun id h1 => ?_, fun id hin => (hnew id hin).trans (ha.sending id hin)⟩
  · obtain ⟨h, hh, _, hacc'⟩ := hs.calls id h' hg
    exact hs.tasks id (ha.untasked id h hh (hacc' hacc))
  · obtain ⟨h, hh, _, hacc'⟩ := hs.calls id h' hg
    rw [hsame id (ha.untasked id h hh (hacc' hacc))]
    exact ha.early id h hh (hacc' hacc)
  · rw [hs.ids] at hid
    rw [hsame id (ha.keyed.fresh id hid).1]
    exact ha.fresh id hid
  · rcases hs.answers id with he | ⟨he, _⟩
    · rw [he]
      exact ha.once id
    · have h0 := ha.eq_zero_of_answers (hsame id) (hnew id) he
      omega
  · rcases hs.answers id with he | ⟨_, _, hout⟩
    · exact (ha.held id (he ▸ h1)).imp_left (hs.tasks id)
    · exact Or.inl hout

theorem Answered.creates (ha : s.Answered answering) {h : Handshake}
    (hg : s.handshakes.get? h.taskId = some h) (hacc : h.accepting = true)
    (hs : Creates s h s') (hk : s'.Keyed) : s'.Answered answering := by
  have hcall : ∀ id h', s'.handshakes.get? id = some h' → h'.accepting = true →
      id ≠ h.taskId ∧ s.handshakes.get? id = some h' := by
    intro id h' hg' hacc'
    rcases hs.calls id h' hg' with hh | ⟨_, _, hn⟩
    · exact hh
    · rw [hn] at hacc'
      cases hacc'
  have htasks : ∀ id, id ≠ h.taskId → s'.tasks.get? id = s.tasks.get? id := by
    intro id hne
    rw [hs.tasks, OrderedMap.get?_set_of_ne (Ne.symm hne)]
  refine ⟨hk, fun id h' hg' hacc' => ?_, fun id h' hg' hacc' => ?_, fun id hid => ?_, fun id => ?_,
    fun id h1 => ?_, fun id hin => (hs.answers id).trans (ha.sending id hin)⟩
  · obtain ⟨hne, hh⟩ := hcall id h' hg' hacc'
    rw [htasks id hne]
    exact ha.untasked id h' hh hacc'
  · rw [hs.answers]
    exact ha.early id h' (hcall id h' hg' hacc').2 hacc'
  · rw [hs.answers]
    rw [hs.ids] at hid
    exact ha.fresh id hid
  · rw [hs.answers]
    exact ha.once id
  · rw [hs.answers] at h1
    by_cases hid : id = h.taskId
    · have h0 := ha.early h.taskId h hg hacc
      rw [← hid, h1] at h0
      cases h0
    · rw [htasks id hid]
      exact ha.held id h1

theorem Answered.givesBack (ha : s.Answered answering) {h : Handshake} {deferred : Bool}
    (hs : GivesBack s h deferred s') (hk : s'.Keyed) : s'.Answered answering := by
  refine ⟨hk, fun id h' hg' hacc' => ?_, fun id h' hg' hacc' => ?_, fun id hid => ?_, fun id => ?_,
    fun id h1 => ?_, fun id hin => (hs.answers id).trans (ha.sending id hin)⟩
  · rw [hs.tasks]
    exact ha.untasked id h' (hs.calls id h' hg').2 hacc'
  · rw [hs.answers]
    exact ha.early id h' (hs.calls id h' hg').2 hacc'
  · rw [hs.answers]
    rw [hs.ids] at hid
    exact ha.fresh id hid
  · rw [hs.answers]
    exact ha.once id
  · rw [hs.tasks]
    exact ha.held id (hs.answers id ▸ h1)

theorem Answered.matches (ha : s.Answered answering) {request : ℕ} (hs : Matches s request s')
    (hk : s'.Keyed) : s'.Answered answering := by
  refine ⟨hk, fun id h' hg' hacc' => ?_, fun id h' hg' hacc' => ?_, fun id hid => ?_, fun id => ?_,
    fun id h1 => ?_, fun id hin => (hs.answers id).trans (ha.sending id hin)⟩
  · rw [hs.tasks]
    rcases hs.calls id h' hg' with hh | ⟨rfl, _⟩
    · exact ha.untasked id h' hh hacc'
    · exact (ha.keyed.fresh _ (Nat.le_refl _)).1
  · rw [hs.answers]
    rcases hs.calls id h' hg' with hh | ⟨rfl, _⟩
    · exact ha.early id h' hh hacc'
    · exact ha.fresh _ (Nat.le_refl _)
  · rw [hs.answers]
    rw [hs.ids] at hid
    exact ha.fresh id (by omega)
  · rw [hs.answers]
    exact ha.once id
  · rw [hs.tasks]
    exact ha.held id (hs.answers id ▸ h1)

theorem Answered.settleTasks (ha : s.Answered answering) : s.settleTasks.Answered answering := by
  apply settleTasks_induction (P := fun t => t.Answered answering)
  · exact ⟨⟨ha.keyed.fresh, ha.keyed.open_, ha.keyed.own, ha.keyed.accepted, ha.keyed.ids⟩,
      ha.untasked, ha.early, ha.fresh, ha.once, ha.held, ha.sending⟩
  · intro t r _ ht
    rcases settleRequest_matches t r with he | hm
    · rw [he]
      exact ht
    · exact ht.matches hm (ht.keyed.settleRequest r)

theorem Answered.next (ha : s.Answered answering) {e : Event}
    (hnew : ∀ id ∈ answering, (s.next e).finalAnswers id = s.finalAnswers id) :
    (s.next e).Answered answering := by
  have hk := ha.keyed.next e
  rcases next_outcome ha.keyed e with heff | ⟨t, _, hkt, ht, he⟩ |
    ⟨requesterId, requestId, taskType, _, he⟩
  · generalize s.returned e = p at heff
    cases heff with
    | steady hs => exact ha.steady hs hk hnew
    | created h hg hacc hs => exact ha.creates hg hacc hs hk
    | givenBack h deferred _ _ hs => exact ha.givesBack hs hk
  · rw [he] at hnew ⊢
    refine (ha.steady ht hkt fun id hin => ?_).settleTasks
    rw [← hnew id hin, settleTasks_silent t id]
  · rw [he]
    exact Answered.settleTasks ⟨⟨ha.keyed.fresh, ha.keyed.open_, ha.keyed.own, ha.keyed.accepted,
      ha.keyed.ids⟩, ha.untasked, ha.early, ha.fresh, ha.once, ha.held, ha.sending⟩

end Broker

namespace Relay

/-- A handler finishes a task whose earlier answer is still being sent, or could not be sent,
and its requester is told again. -/
def AnswersAgain (s : Relay) (e : RelayEvent) : Prop :=
  ∃ id ∈ s.answering, s.finishes e id = true ∧ s.broker.told id = true

instance (s : Relay) (e : RelayEvent) : Decidable (s.AnswersAgain e) := by
  unfold AnswersAgain
  infer_instance

def AtMostOneAnswer (s : Relay) : Prop := ∀ taskId, s.broker.finalAnswers taskId ≤ 1

structure Answered (s : Relay) : Prop where
  broker : s.broker.Answered s.answering
  numbered : s.Numbered

theorem initial_answered (now : ℤ) (mode : TaskRunnerMode) (taskTimeout : ℕ) (isSelfHosted : Bool) :
    (initial now mode taskTimeout isSelfHosted).Answered := by
  have hanswers : ∀ id, (Broker.initial now).finalAnswers id = 0 := fun _ => rfl
  have hcalls : ∀ id h, (Broker.initial now).handshakes.get? id = some h → False := by
    intro id h hg
    cases hg
  refine ⟨⟨Broker.initial_keyed now, fun id h hg => (hcalls id h hg).elim,
    fun id h hg => (hcalls id h hg).elim, fun id _ => hanswers id, fun id => ?_, fun id h1 => ?_,
    fun id hin => ?_⟩, fun _ _ => rfl⟩
  · change (Broker.initial now).finalAnswers id ≤ 1
    rw [hanswers]
    exact Nat.zero_le 1
  · exact absurd ((hanswers id).symm.trans h1) (by decide)
  · cases hin

/-- The final answers that a step sends. -/
theorem next_answers {s : Relay} (ha : s.Answered) (e : RelayEvent) (id : ℕ) :
    (s.next e).broker.finalAnswers id = s.broker.finalAnswers id +
      if s.finishes e id = true ∧ s.broker.told id = true then 1 else 0 := by
  cases he : e.own? with
  | some own =>
    rw [next_own he]
    refine (Broker.next_answers ha.broker.keyed own id).trans ?_
    simp [finishes, he]
  | none => exact (next_handles ha.numbered ha.broker.keyed he).2 id

theorem Answered.tended {s s' : Relay} (ha : s.Answered) (ht : Tended s s')
    (hnew : ∀ id ∈ s.answering, s'.broker.finalAnswers id = s.broker.finalAnswers id) :
    s'.Answered := by
  have hb := ha.broker
  have hsame : ∀ id, s.broker.tasks.get? id = none →
      s'.broker.finalAnswers id = s.broker.finalAnswers id := by
    intro id hid
    exact (ht.answered id).resolve_right fun h => h.2.1 hid
  have hzero : ∀ id, s'.broker.finalAnswers id = s.broker.finalAnswers id + 1 →
      s.broker.finalAnswers id = 0 := fun id he => hb.eq_zero_of_answers (hsame id) (hnew id) he
  refine ⟨⟨ht.keyed hb.keyed, fun id h hg hacc => ?_, fun id h hg hacc => ?_, fun id hid => ?_,
    fun id => ?_, fun id h1 => ?_, fun id hin => ?_⟩, ht.numbered⟩
  · rw [ht.handshakes] at hg
    exact ht.tasks id (hb.untasked id h hg hacc)
  · rw [ht.handshakes] at hg
    rw [hsame id (hb.untasked id h hg hacc)]
    exact hb.early id h hg hacc
  · rw [ht.ids] at hid
    rw [hsame id (hb.keyed.fresh id hid).1]
    exact hb.fresh id hid
  · rcases ht.answered id with he | ⟨he, _⟩
    · rw [he]
      exact hb.once id
    · have h0 := hzero id he
      omega
  · rcases ht.answered id with he | ⟨_, _, hout⟩
    · rcases hb.held id (he ▸ h1) with hn | hin
      · exact Or.inl (ht.tasks id hn)
      · exact (ht.kept id hin).symm
    · exact hout.symm
  · rcases ht.new id hin with h | h
    · exact (hnew id h).trans (hb.sending id h)
    · rw [h, hzero id h]

theorem Answered.next {s : Relay} (ha : s.Answered) {e : RelayEvent} (hagain : ¬ s.AnswersAgain e) :
    (s.next e).Answered := by
  have hnew : ∀ id ∈ s.answering,
      (s.next e).broker.finalAnswers id = s.broker.finalAnswers id := by
    intro id hin
    have hno : ¬ (s.finishes e id = true ∧ s.broker.told id = true) :=
      fun h => hagain ⟨id, hin, h⟩
    rw [next_answers ha, if_neg hno, Nat.add_zero]
  cases he : e.own? with
  | some own =>
    rw [next_own he] at hnew ⊢
    exact ⟨ha.broker.next hnew, ha.numbered⟩
  | none => exact ha.tended (next_handles ha.numbered ha.broker.keyed he).1 hnew

theorem again_not_once {s : Relay} (ha : s.Answered) {e : RelayEvent} (hagain : s.AnswersAgain e) :
    ¬ (s.next e).AtMostOneAnswer := by
  obtain ⟨id, hin, hf⟩ := hagain
  intro h
  have hle := h id
  rw [next_answers ha, if_pos hf, ha.broker.sending id hin] at hle
  omega

/-- No requester gets two final answers for a task exactly when no task is finished again
while its answer is being sent. -/
theorem atMostOneAnswer_iff (now : ℤ) (mode : TaskRunnerMode) (taskTimeout : ℕ)
    (isSelfHosted : Bool) (tr : List (RelayEvent × Relay))
    (hr : Run Step (initial now mode taskTimeout isSelfHosted) tr) :
    Always AtMostOneAnswer (initial now mode taskTimeout isSelfHosted) tr ↔
      EveryStep (fun s e => ¬ s.AnswersAgain e) (initial now mode taskTimeout isSelfHosted) tr := by
  apply hr.always_iff_everyStep (initial_answered now mode taskTimeout isSelfHosted)
    (fun s (ha : s.Answered) => ha.broker.once)
  · rintro s e s' ha hc rfl
    exact ha.next hc
  · rintro s e s' ha hc rfl
    exact again_not_once ha (not_not.mp hc)

theorem run_events (s : Relay) (es : List RelayEvent) : Run Step s (trace next s es) :=
  run_trace_of_total step_next s es

/-- The steps up to the settings of the first task, for the runner `r1` and the requester `q`. -/
def firstTask : List RelayEvent :=
  [.registerRunner "r1", .registerRequester "q",
    .fromRequester "q" (.taskRequest "request" "javascript"),
    .fromRunner "r1" (.taskOffer "o1" "javascript" 5000), .messageSettled 0 true,
    .fromRunner "r1" (.taskAccepted 0), .messageSettled 0 true,
    .fromRequester "q" (.taskSettings 0 "settings"), .messageSettled 0 true]

/-- The runner disconnects while the result of its task is being sent. -/
theorem answered_twice : ¬ ∀ (now : ℤ) (mode : TaskRunnerMode) (taskTimeout : ℕ)
    (isSelfHosted : Bool) (tr : List (RelayEvent × Relay)),
    Run Step (initial now mode taskTimeout isSelfHosted) tr →
    Always AtMostOneAnswer (initial now mode taskTimeout isSelfHosted) tr := by
  intro h
  have hrun := run_events (initial 0 .internal 60 true)
    (firstTask ++ [.fromRunner "r1" (.taskDone 0 "result"), .deregisterRunner "r1" "closed"])
  exact absurd ((h 0 .internal 60 true _ hrun).final 0) (by decide)

theorem answered_once : Always AtMostOneAnswer (initial 0 .internal 60 true)
    (trace next (initial 0 .internal 60 true) (firstTask ++
      [.fromRunner "r1" (.taskDone 0 "result"), .callSettled 0 true,
        .fromRunner "r1" (.taskError 0 "late"), .deregisterRunner "r1" "closed"])) :=
  (atMostOneAnswer_iff 0 .internal 60 true _ (run_events _ _)).mpr (by decide)

end Relay
end N8n.TaskBroker
