import N8n.TaskBroker.Broker
import Mathlib.Data.Int.Order.Basic

/-!
# Handshakes and their promises

Two facts about every operation of the broker. Most of them are `Quieter`: they
add no offer and no pending request and leave the request objects alone. All of
them keep the promises `Keyed`: the entry of a promise that a runner can still
settle belongs to no created task, so a rejection for a created task, which
`deregisterRunner` sends for each task of the runner, finds nothing to settle.
-/

namespace N8n.TaskBroker
namespace Broker

/-! ### Steps that only take offers and requests away -/

structure Quieter (s s' : Broker) : Prop where
  offers : ∀ o ∈ s'.pendingTaskOffers, o ∈ s.pendingTaskOffers
  pending : ∀ r ∈ s'.pendingTaskRequests, r ∈ s.pendingTaskRequests
  objects : s'.requests = s.requests
  later : s.now ≤ s'.now

theorem Quieter.refl (s : Broker) : Quieter s s :=
  ⟨fun _ h => h, fun _ h => h, rfl, le_refl _⟩

theorem Quieter.trans {s t u : Broker} (h₁ : Quieter s t) (h₂ : Quieter t u) : Quieter s u :=
  ⟨fun o h => h₁.offers o (h₂.offers o h), fun r h => h₁.pending r (h₂.pending r h),
    h₂.objects.trans h₁.objects, le_trans h₁.later h₂.later⟩

theorem messageRunner_eq (s : Broker) (runnerId : String) (m : ToRunner) :
    ∃ sent, s.messageRunner runnerId m = { s with sentToRunners := sent } := by
  unfold messageRunner
  split
  · exact ⟨_, rfl⟩
  · exact ⟨s.sentToRunners, rfl⟩

theorem messageRequester_eq (s : Broker) (requesterId : String) (m : ToRequester) :
    ∃ sent, s.messageRequester requesterId m = { s with sentToRequesters := sent } := by
  unfold messageRequester
  split
  · exact ⟨_, rfl⟩
  · exact ⟨s.sentToRequesters, rfl⟩

theorem messageRunner_quieter (s : Broker) (runnerId : String) (m : ToRunner) :
    Quieter s (s.messageRunner runnerId m) := by
  obtain ⟨sent, he⟩ := messageRunner_eq s runnerId m
  rw [he]
  exact ⟨fun _ h => h, fun _ h => h, rfl, le_refl _⟩

theorem messageRequester_quieter (s : Broker) (requesterId : String) (m : ToRequester) :
    Quieter s (s.messageRequester requesterId m) := by
  obtain ⟨sent, he⟩ := messageRequester_eq s requesterId m
  rw [he]
  exact ⟨fun _ h => h, fun _ h => h, rfl, le_refl _⟩

theorem putHandshake_quieter (s : Broker) (h : Handshake) : Quieter s (s.putHandshake h) :=
  ⟨fun _ h => h, fun _ h => h, rfl, le_refl _⟩

theorem endHandshake_quieter (s : Broker) (h : Handshake) (rejects : Bool) :
    Quieter s (s.endHandshake h rejects) :=
  ⟨fun _ h => h, fun _ h => h, rfl, le_refl _⟩

theorem withTasks_quieter (s : Broker) (tasks : OrderedMap ℕ Task) :
    Quieter s { s with tasks := tasks } :=
  ⟨fun _ h => h, fun _ h => h, rfl, le_refl _⟩

theorem cancelTask_quieter {s s' : Broker} {taskId : ℕ} {reason : String}
    (h : s.cancelTask taskId reason = some s') : Quieter s s' := by
  simp only [cancelTask, Option.map_eq_some_iff] at h
  obtain ⟨task, _, rfl⟩ := h
  exact (withTasks_quieter s _).trans (messageRunner_quieter _ _ _)

theorem failTask_quieter (s : Broker) (taskId : ℕ) (error : String) :
    Quieter s (s.failTask taskId error) := by
  unfold failTask
  split
  · exact .refl s
  · exact (withTasks_quieter s _).trans (messageRequester_quieter _ _ _)

theorem cancelAndThrow_quieter (s : Broker) (h : Handshake) : Quieter s (s.cancelAndThrow h) := by
  unfold cancelAndThrow
  split
  · exact endHandshake_quieter s h true
  · exact (cancelTask_quieter ‹_›).trans (putHandshake_quieter _ _)

theorem sendTaskSettings_quieter (s : Broker) (h : Handshake) (settings : String) :
    Quieter s (s.sendTaskSettings h settings) := by
  unfold sendTaskSettings
  split
  · exact cancelAndThrow_quieter s h
  · split
    · exact ((withTasks_quieter s _).trans (messageRunner_quieter _ _ _)).trans
        (putHandshake_quieter _ _)
    · exact (failTask_quieter s _ _).trans (putHandshake_quieter _ _)

theorem resumeRequester_quieter (s : Broker) (h : Handshake) : Quieter s (s.resumeRequester h) := by
  unfold resumeRequester
  split
  · exact .refl s
  · exact sendTaskSettings_quieter s h _
  · exact cancelAndThrow_quieter s h

theorem answerRequester_quieter (s : Broker) (taskId : ℕ) (a : RequesterAnswer) :
    Quieter s (s.answerRequester taskId a) := by
  unfold answerRequester
  split
  · exact .refl s
  · split
    · exact .refl s
    · dsimp only
      split
      · exact (putHandshake_quieter s _).trans (resumeRequester_quieter _ _)
      · exact putHandshake_quieter s _

theorem createTask_quieter (s : Broker) (h : Handshake) : Quieter s (s.createTask h) := by
  unfold createTask
  dsimp only
  split
  · exact (withTasks_quieter s _).trans (endHandshake_quieter _ _ _)
  · obtain ⟨sent, he⟩ := messageRequester_eq
      { s with
        tasks := s.tasks.set h.taskId ⟨h.taskId, h.offer.taskType, h.offer.runnerId,
          (s.requests h.request).requesterId, false⟩
        pendingTaskRequests := s.pendingTaskRequests.eraseIdx ‹ℕ›
        requesterAcceptRejects := s.requesterAcceptRejects ++ [h.taskId] }
      (s.requests h.request).requesterId
      (.taskReady (s.requests h.request).requestId h.taskId)
    rw [he]
    exact ⟨fun _ h => h, fun _ h => List.mem_of_mem_eraseIdx h, rfl, le_refl _⟩

/-! ### Handshakes and their promises -/

structure Keyed (s : Broker) : Prop where
  fresh : ∀ id, s.nextTaskId ≤ id →
    s.tasks.get? id = none ∧ s.handshakes.get? id = none ∧ id ∉ s.runnerAcceptRejects
  open_ : ∀ id ∈ s.runnerAcceptRejects, s.tasks.get? id = none
  own : ∀ id h, s.handshakes.get? id = some h → h.taskId = id
  accepted : ∀ id h, s.handshakes.get? id = some h → h.runnerAnswer = some .accepted →
    id ∉ s.runnerAcceptRejects
  ids : ∀ id task, s.tasks.get? id = some task → task.id = id

theorem initial_keyed (now : ℤ) : (initial now).Keyed := by
  constructor <;> simp [initial]

theorem Keyed.lt {s : Broker} (hk : s.Keyed) {id : ℕ} {h : Handshake}
    (hh : s.handshakes.get? id = some h) : id < s.nextTaskId := by
  by_contra hge
  have hn := (hk.fresh id (by omega)).2.1
  rw [hn] at hh
  cases hh

theorem Keyed.messageRunner {s : Broker} (hk : s.Keyed) (runnerId : String) (m : ToRunner) :
    (s.messageRunner runnerId m).Keyed := by
  obtain ⟨sent, he⟩ := messageRunner_eq s runnerId m
  rw [he]
  exact ⟨hk.fresh, hk.open_, hk.own, hk.accepted, hk.ids⟩

theorem Keyed.messageRequester {s : Broker} (hk : s.Keyed) (requesterId : String)
    (m : ToRequester) : (s.messageRequester requesterId m).Keyed := by
  obtain ⟨sent, he⟩ := messageRequester_eq s requesterId m
  rw [he]
  exact ⟨hk.fresh, hk.open_, hk.own, hk.accepted, hk.ids⟩

theorem Keyed.putHandshake {s : Broker} (hk : s.Keyed) {h : Handshake}
    (hlt : h.taskId < s.nextTaskId)
    (hacc : h.runnerAnswer = some .accepted → h.taskId ∉ s.runnerAcceptRejects) :
    (s.putHandshake h).Keyed := by
  refine ⟨fun id hid => ?_, hk.open_, fun id h' hh => ?_, fun id h' hh ha => ?_, hk.ids⟩
  · have hne : h.taskId ≠ id := by
      change s.nextTaskId ≤ id at hid
      omega
    obtain ⟨ht, hn, hr⟩ := hk.fresh id hid
    exact ⟨ht, (OrderedMap.get?_set_of_ne hne).trans hn, hr⟩
  · simp only [Broker.putHandshake, OrderedMap.get?_set] at hh
    split at hh
    · obtain rfl := Option.some.inj hh
      assumption
    · exact hk.own id h' hh
  · simp only [Broker.putHandshake, OrderedMap.get?_set] at hh
    split at hh
    · obtain rfl := Option.some.inj hh
      rename_i he
      exact he ▸ hacc ha
    · exact hk.accepted id h' hh ha

theorem Keyed.endHandshake {s : Broker} (hk : s.Keyed) (h : Handshake) (rejects : Bool) :
    (s.endHandshake h rejects).Keyed := by
  have hsub : ∀ id h', (s.handshakes.delete h.taskId).get? id = some h' →
      s.handshakes.get? id = some h' := by
    intro id h' hh
    rw [OrderedMap.get?_delete] at hh
    split at hh
    · cases hh
    · exact hh
  refine ⟨fun id hid => ?_, hk.open_, fun id h' hh => hk.own id h' (hsub id h' hh),
    fun id h' hh => hk.accepted id h' (hsub id h' hh), hk.ids⟩
  obtain ⟨ht, hn, hr⟩ := hk.fresh id hid
  refine ⟨ht, ?_, hr⟩
  simp only [Broker.endHandshake, OrderedMap.get?_delete, hn, ite_self]

theorem Keyed.withTasks {s : Broker} (hk : s.Keyed) {tasks : OrderedMap ℕ Task}
    (hsub : ∀ id, s.tasks.get? id = none → tasks.get? id = none)
    (hids : ∀ id task, tasks.get? id = some task → task.id = id) :
    Keyed { s with tasks := tasks } :=
  ⟨fun id hid => ⟨hsub id (hk.fresh id hid).1, (hk.fresh id hid).2⟩,
    fun id hid => hsub id (hk.open_ id hid), hk.own, hk.accepted, hids⟩

theorem Keyed.withoutTask {s : Broker} (hk : s.Keyed) (taskId : ℕ) :
    Keyed { s with tasks := s.tasks.delete taskId } := by
  apply hk.withTasks
  · intro id h
    rw [OrderedMap.get?_delete, h, ite_self]
  · intro id task h
    rw [OrderedMap.get?_delete] at h
    split at h
    · cases h
    · exact hk.ids id task h

theorem Keyed.cancelTask {s s' : Broker} (hk : s.Keyed) {taskId : ℕ} {reason : String}
    (h : s.cancelTask taskId reason = some s') : s'.Keyed := by
  simp only [Broker.cancelTask, Option.map_eq_some_iff] at h
  obtain ⟨task, _, rfl⟩ := h
  exact (hk.withoutTask taskId).messageRunner _ _

theorem cancelTask_fields {s s' : Broker} {taskId : ℕ} {reason : String}
    (h : s.cancelTask taskId reason = some s') :
    s'.nextTaskId = s.nextTaskId ∧ s'.runnerAcceptRejects = s.runnerAcceptRejects := by
  simp only [Broker.cancelTask, Option.map_eq_some_iff] at h
  obtain ⟨task, _, rfl⟩ := h
  obtain ⟨sent, he⟩ := messageRunner_eq { s with tasks := s.tasks.delete taskId } task.runnerId
    (.taskCancel taskId reason)
  rw [he]
  exact ⟨rfl, rfl⟩

theorem Keyed.failTask {s : Broker} (hk : s.Keyed) (taskId : ℕ) (error : String) :
    (s.failTask taskId error).Keyed := by
  unfold Broker.failTask
  split
  · exact hk
  · exact (hk.withoutTask taskId).messageRequester _ _

theorem failTask_fields (s : Broker) (taskId : ℕ) (error : String) :
    (s.failTask taskId error).nextTaskId = s.nextTaskId ∧
      (s.failTask taskId error).runnerAcceptRejects = s.runnerAcceptRejects := by
  unfold Broker.failTask
  split
  · exact ⟨rfl, rfl⟩
  · rename_i task _
    obtain ⟨sent, he⟩ := messageRequester_eq { s with tasks := s.tasks.delete taskId }
      task.requesterId (.taskError taskId error)
    rw [he]
    exact ⟨rfl, rfl⟩

/-- What is known of a handshake of the table when its promise is accepted or still open. -/
structure Held (s : Broker) (h : Handshake) : Prop where
  lt : h.taskId < s.nextTaskId
  closed : h.runnerAnswer = some .accepted → h.taskId ∉ s.runnerAcceptRejects

theorem Keyed.held {s : Broker} (hk : s.Keyed) {id : ℕ} {h : Handshake}
    (hh : s.handshakes.get? id = some h) : s.Held h := by
  obtain rfl := hk.own id h hh
  exact ⟨hk.lt hh, hk.accepted _ h hh⟩

theorem Keyed.cancelAndThrow {s : Broker} (hk : s.Keyed) {h : Handshake} (hh : s.Held h) :
    (s.cancelAndThrow h).Keyed := by
  unfold Broker.cancelAndThrow
  split
  · exact hk.endHandshake h true
  · rename_i s' hs
    obtain ⟨hn, hr⟩ := cancelTask_fields hs
    exact (hk.cancelTask hs).putHandshake (by rw [hn]; exact hh.lt) (by rw [hr]; exact hh.closed)

theorem Keyed.sendTaskSettings {s : Broker} (hk : s.Keyed) {h : Handshake} (hh : s.Held h)
    (settings : String) : (s.sendTaskSettings h settings).Keyed := by
  unfold Broker.sendTaskSettings
  split
  · exact hk.cancelAndThrow hh
  · rename_i task ht
    split
    · have hset : ∀ id, s.tasks.get? id = none →
          (s.tasks.set h.taskId { task with timeout := true }).get? id = none := by
        intro id hid
        rw [OrderedMap.get?_set]
        split
        · rename_i he
          rw [he, hid] at ht
          cases ht
        · exact hid
      have hids : ∀ id task', (s.tasks.set h.taskId { task with timeout := true }).get? id =
          some task' → task'.id = id := by
        intro id task' hid
        rw [OrderedMap.get?_set] at hid
        split at hid
        · rename_i he
          obtain rfl := Option.some.inj hid
          exact (hk.ids _ _ ht).trans he
        · exact hk.ids id task' hid
      have hk' := hk.withTasks hset hids
      obtain ⟨sent, he⟩ := messageRunner_eq
        { s with tasks := s.tasks.set h.taskId { task with timeout := true } } task.runnerId
        (.taskSettings h.taskId settings)
      have hm := hk'.messageRunner task.runnerId (.taskSettings h.taskId settings)
      rw [he] at hm ⊢
      exact hm.putHandshake hh.lt hh.closed
    · obtain ⟨hn, hr⟩ := failTask_fields s h.taskId
        s!"Cannot find runner, failed to find runner ({task.runnerId})"
      exact (hk.failTask _ _).putHandshake (by rw [hn]; exact hh.lt) (by rw [hr]; exact hh.closed)

theorem Keyed.resumeRequester {s : Broker} (hk : s.Keyed) {h : Handshake} (hh : s.Held h) :
    (s.resumeRequester h).Keyed := by
  unfold Broker.resumeRequester
  split
  · exact hk
  · exact hk.sendTaskSettings hh _
  · exact hk.cancelAndThrow hh

theorem Keyed.answerRequester {s : Broker} (hk : s.Keyed) (taskId : ℕ) (a : RequesterAnswer) :
    (s.answerRequester taskId a).Keyed := by
  unfold Broker.answerRequester
  split
  · exact hk
  · rename_i h hg
    obtain ⟨hlt, hclosed⟩ := hk.held hg
    split
    · exact hk
    · have hk' : (s.putHandshake { h with requesterAnswer := some a }).Keyed :=
        hk.putHandshake hlt hclosed
      dsimp only
      split
      · exact hk'.resumeRequester ⟨hlt, hclosed⟩
      · exact hk'

theorem Keyed.createTask {s : Broker} (hk : s.Keyed) {h : Handshake} (hlt : h.taskId < s.nextTaskId)
    (hclosed : h.taskId ∉ s.runnerAcceptRejects) : (s.createTask h).Keyed := by
  have hk' : Keyed { s with tasks := s.tasks.set h.taskId ⟨h.taskId, h.offer.taskType,
      h.offer.runnerId, (s.requests h.request).requesterId, false⟩ } := by
    refine ⟨fun id hid => ?_, fun id hid => ?_, hk.own, hk.accepted, fun id task hid => ?_⟩
    · obtain ⟨ht, hrest⟩ := hk.fresh id hid
      have hne : h.taskId ≠ id := by
        change s.nextTaskId ≤ id at hid
        omega
      exact ⟨(OrderedMap.get?_set_of_ne hne).trans ht, hrest⟩
    · have hne : h.taskId ≠ id := by
        rintro rfl
        exact hclosed hid
      exact (OrderedMap.get?_set_of_ne hne).trans (hk.open_ id hid)
    · rw [OrderedMap.get?_set] at hid
      split at hid
      · obtain rfl := Option.some.inj hid
        assumption
      · exact hk.ids id task hid
  unfold Broker.createTask
  dsimp only
  split
  · exact hk'.endHandshake h false
  · rename_i requestIndex _
    have hk'' : Keyed { s with
        tasks := s.tasks.set h.taskId ⟨h.taskId, h.offer.taskType, h.offer.runnerId,
          (s.requests h.request).requesterId, false⟩
        pendingTaskRequests := s.pendingTaskRequests.eraseIdx requestIndex
        requesterAcceptRejects := s.requesterAcceptRejects ++ [h.taskId] } :=
      ⟨hk'.fresh, hk'.open_, hk'.own, hk'.accepted, hk'.ids⟩
    have hm := hk''.messageRequester (s.requests h.request).requesterId
      (.taskReady (s.requests h.request).requestId h.taskId)
    obtain ⟨sent, he⟩ := messageRequester_eq _ (s.requests h.request).requesterId
      (.taskReady (s.requests h.request).requestId h.taskId)
    rw [he] at hm ⊢
    exact hm.putHandshake hlt (fun _ => hclosed)

theorem Keyed.returnRequest {s : Broker} (hk : s.Keyed) (h : Handshake) (deferred rejects : Bool) :
    (s.returnRequest h deferred rejects).Keyed := by
  unfold Broker.returnRequest
  apply Keyed.endHandshake
  exact ⟨hk.fresh, hk.open_, hk.own, hk.accepted, hk.ids⟩

theorem Keyed.resumeRunner {s : Broker} (hk : s.Keyed) {h : Handshake} (hh : s.Held h) :
    (s.resumeRunner h).Keyed := by
  unfold Broker.resumeRunner
  split
  · exact hk
  · exact hk.createTask hh.lt (hh.closed ‹_›)
  · exact hk.returnRequest h false false
  · exact hk.returnRequest h true false
  · exact hk.returnRequest h false false

theorem Keyed.answerRunner {s : Broker} (hk : s.Keyed) (taskId : ℕ) (a : RunnerAnswer)
    (ha : a = .accepted → taskId ∉ s.runnerAcceptRejects) : (s.answerRunner taskId a).Keyed := by
  unfold Broker.answerRunner
  split
  · exact hk
  · rename_i h hg
    obtain rfl := hk.own taskId h hg
    have hlt := hk.lt hg
    split
    · exact hk
    · have hclosed : some a = some RunnerAnswer.accepted → h.taskId ∉ s.runnerAcceptRejects :=
        fun he => ha (Option.some.inj he)
      have hk' : (s.putHandshake { h with runnerAnswer := some a }).Keyed :=
        hk.putHandshake hlt hclosed
      dsimp only
      split
      · exact hk'.resumeRunner ⟨hlt, hclosed⟩
      · exact hk'

theorem Keyed.handleRunnerAnswer {s : Broker} (hk : s.Keyed) (taskId : ℕ) (a : RunnerAnswer) :
    (s.handleRunnerAnswer taskId a).Keyed := by
  unfold Broker.handleRunnerAnswer
  split
  · apply Keyed.answerRunner
    · exact ⟨fun id hid => ⟨(hk.fresh id hid).1, (hk.fresh id hid).2.1,
          fun hm => (hk.fresh id hid).2.2 (List.mem_filter.mp hm).1⟩,
        fun id hid => hk.open_ id (List.mem_filter.mp hid).1, hk.own,
        fun id h hh ha hm => hk.accepted id h hh ha (List.mem_filter.mp hm).1, hk.ids⟩
    · simp
  · exact hk

theorem Keyed.messageSettled {s : Broker} (hk : s.Keyed) (taskId : ℕ) (sent : Bool) :
    (s.messageSettled taskId sent).Keyed := by
  unfold Broker.messageSettled
  split
  · exact hk
  · rename_i h hg
    have hh := hk.held hg
    split
    · have hk' : (s.putHandshake { h with phase := .awaitingRunner }).Keyed :=
        hk.putHandshake hh.lt hh.closed
      exact hk'.resumeRunner ⟨hh.lt, hh.closed⟩
    · exact hk.returnRequest h false true
    · have hk' : (s.putHandshake { h with phase := .awaitingRequester }).Keyed :=
        hk.putHandshake hh.lt hh.closed
      exact hk'.resumeRequester ⟨hh.lt, hh.closed⟩
    · exact hk.cancelAndThrow hh
    · exact hk.endHandshake h false
    · exact hk.cancelAndThrow hh
    · exact hk.cancelAndThrow hh
    · exact hk.endHandshake h true
    · exact hk
    · exact hk

theorem Keyed.acceptOffer {s : Broker} (hk : s.Keyed) (offer : TaskOffer) (request : ℕ) :
    (s.acceptOffer offer request).Keyed := by
  unfold Broker.acceptOffer
  apply Keyed.messageRunner
  refine ⟨fun id hid => ?_, fun id hid => ?_, fun id h hh => ?_, fun id h hh ha => ?_, hk.ids⟩
  · change s.nextTaskId + 1 ≤ id at hid
    obtain ⟨ht, hn, hr⟩ := hk.fresh id (by omega)
    refine ⟨ht, (OrderedMap.get?_set_of_ne (by dsimp only; omega)).trans hn, ?_⟩
    simp only [Broker.putHandshake, List.mem_append, List.mem_singleton, not_or]
    exact ⟨hr, by omega⟩
  · simp only [Broker.putHandshake, List.mem_append, List.mem_singleton] at hid
    rcases hid with hid | rfl
    · exact hk.open_ id hid
    · exact (hk.fresh _ (Nat.le_refl _)).1
  · simp only [Broker.putHandshake, OrderedMap.get?_set] at hh
    split at hh
    · obtain rfl := Option.some.inj hh
      assumption
    · exact hk.own id h hh
  · simp only [Broker.putHandshake, OrderedMap.get?_set] at hh
    split at hh
    · obtain rfl := Option.some.inj hh
      cases ha
    · have hlt := hk.lt hh
      simp only [Broker.putHandshake, List.mem_append, List.mem_singleton, not_or]
      exact ⟨hk.accepted id h hh ha, by omega⟩

theorem Keyed.settleRequest {s : Broker} (hk : s.Keyed) (request : ℕ) :
    (s.settleRequest request).Keyed := by
  unfold Broker.settleRequest
  dsimp only
  split
  · exact hk
  · split
    · exact hk
    · apply Keyed.acceptOffer
      exact ⟨hk.fresh, hk.open_, hk.own, hk.accepted, hk.ids⟩

theorem Keyed.settleTasks {s : Broker} (hk : s.Keyed) : s.settleTasks.Keyed := by
  have hfold : ∀ (l : List ℕ) (t : Broker), t.Keyed →
      (l.foldl Broker.settleRequest t).Keyed := by
    intro l
    induction l with
    | nil => exact fun _ ht => ht
    | cons r l ih => exact fun t ht => ih _ (ht.settleRequest r)
  exact hfold _ _ ⟨hk.fresh, hk.open_, hk.own, hk.accepted, hk.ids⟩

/-- A task that has been created has no entry that a rejection could settle. -/
theorem failTaskOf_eq {s : Broker} {taskId : ℕ} (h : taskId ∉ s.runnerAcceptRejects)
    (runnerId error : String) : s.failTaskOf runnerId error taskId = s.failTask taskId error := by
  have hr := (failTask_fields s taskId error).2
  simp [failTaskOf, handleRunnerReject, handleRunnerAnswer, hr, h]

theorem foldl_failTaskOf_eq {s : Broker} {ids : List ℕ}
    (hids : ∀ id ∈ ids, id ∉ s.runnerAcceptRejects) (runnerId error : String) :
    ids.foldl (fun s taskId => s.failTaskOf runnerId error taskId) s =
      ids.foldl (fun s taskId => s.failTask taskId error) s := by
  induction ids generalizing s with
  | nil => rfl
  | cons id ids ih =>
    have hr := (failTask_fields s id error).2
    rw [List.foldl_cons, List.foldl_cons, failTaskOf_eq (hids id List.mem_cons_self)]
    apply ih
    intro id' hid'
    rw [hr]
    exact hids id' (List.mem_cons_of_mem _ hid')

theorem failTasks {s : Broker} (hk : s.Keyed) (runnerId error : String) (ids : List ℕ)
    (hids : ∀ id ∈ ids, id ∉ s.runnerAcceptRejects) :
    (ids.foldl (fun s taskId => s.failTaskOf runnerId error taskId) s).Keyed ∧
      Quieter s (ids.foldl (fun s taskId => s.failTaskOf runnerId error taskId) s) := by
  rw [foldl_failTaskOf_eq hids]
  apply List.foldlRecOn (motive := fun t => t.Keyed ∧ Quieter s t)
  · exact ⟨hk, .refl s⟩
  · intro t ht id _
    exact ⟨ht.1.failTask id error, ht.2.trans (failTask_quieter t id error)⟩

theorem Keyed.not_rejectable {s : Broker} (hk : s.Keyed) (runnerId : String) :
    ∀ id ∈ (s.tasks.values.filter (fun task => task.runnerId == runnerId)).map Task.id,
      id ∉ s.runnerAcceptRejects := by
  intro id hm hr
  obtain ⟨task, htask, rfl⟩ := List.mem_map.mp hm
  obtain ⟨id, hg⟩ := OrderedMap.mem_values.mp (List.mem_filter.mp htask).1
  rw [hk.ids id task hg] at hr
  rw [hk.open_ id hr] at hg
  cases hg

theorem deregisterRunner_spec {s : Broker} (hk : s.Keyed) (runnerId error : String) :
    (s.deregisterRunner runnerId error).Keyed ∧ Quieter s (s.deregisterRunner runnerId error) := by
  have hq : Quieter s { s with
      knownRunners := s.knownRunners.filter (fun id => decide (id ≠ runnerId))
      pendingTaskOffers := s.pendingTaskOffers.filter (fun o => decide (o.runnerId ≠ runnerId)) } :=
    ⟨fun o ho => (List.mem_filter.mp ho).1, fun _ h => h, rfl, le_refl _⟩
  have hk' : Keyed { s with
      knownRunners := s.knownRunners.filter (fun id => decide (id ≠ runnerId))
      pendingTaskOffers := s.pendingTaskOffers.filter (fun o => decide (o.runnerId ≠ runnerId)) } :=
    ⟨hk.fresh, hk.open_, hk.own, hk.accepted, hk.ids⟩
  obtain ⟨hk'', hq'⟩ := failTasks hk' runnerId error _ (hk.not_rejectable runnerId)
  exact ⟨hk'', hq.trans hq'⟩

theorem Keyed.fromRunner {s : Broker} (hk : s.Keyed) (runnerId : String) {handle : Broker → Broker}
    (h : s.Keyed → (handle s).Keyed) : (s.fromRunner runnerId handle).Keyed := by
  unfold Broker.fromRunner
  split
  · exact h hk
  · exact hk

theorem Keyed.next {s : Broker} (hk : s.Keyed) (e : Event) : (s.next e).Keyed := by
  cases e with
  | registerRunner runnerId =>
    apply Keyed.messageRunner
    exact ⟨hk.fresh, hk.open_, hk.own, hk.accepted, hk.ids⟩
  | deregisterRunner runnerId error => exact (deregisterRunner_spec hk runnerId error).1
  | registerRequester | deregisterRequester | clock =>
    exact ⟨hk.fresh, hk.open_, hk.own, hk.accepted, hk.ids⟩
  | taskRequest requesterId requestId taskType =>
    exact Keyed.settleTasks ⟨hk.fresh, hk.open_, hk.own, hk.accepted, hk.ids⟩
  | taskOffer runnerId offerId taskType validFor =>
    apply hk.fromRunner
    intro hk
    apply Keyed.settleTasks
    exact ⟨hk.fresh, hk.open_, hk.own, hk.accepted, hk.ids⟩
  | taskAccepted runnerId taskId =>
    exact hk.fromRunner runnerId fun hk => hk.handleRunnerAnswer taskId _
  | taskRejected runnerId taskId reason =>
    exact hk.fromRunner runnerId fun hk => hk.handleRunnerAnswer taskId _
  | taskDeferred runnerId taskId =>
    exact hk.fromRunner runnerId fun hk => hk.handleRunnerAnswer taskId _
  | taskSettings taskId settings =>
    simp only [Broker.next, handleRequesterAccept]
    split
    · apply Keyed.answerRequester
      exact ⟨hk.fresh, hk.open_, hk.own, hk.accepted, hk.ids⟩
    · exact hk
  | taskCancel taskId reason =>
    simp only [Broker.next]
    cases hc : s.cancelTask taskId reason with
    | none => exact hk
    | some s' => exact hk.cancelTask hc
  | runnerAcceptTimeout taskId => exact hk.answerRunner taskId .timedOut (by simp)
  | requesterAcceptTimeout taskId => exact hk.answerRequester taskId .timedOut
  | messageSettled taskId sent => exact hk.messageSettled taskId sent

end Broker
end N8n.TaskBroker
