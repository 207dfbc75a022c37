import N8n.TaskBroker.Senders

/-!
# What a runner leaves behind

When a runner disconnects, its offers and its tasks go. The entries of the open handshakes are
looked up by the ids of the tasks, but a handshake gets its task only when its entry is gone.
-/

namespace N8n.TaskBroker
open N8n.Runs

/-- The promise of the runner's answer is rejected. -/
def Handshake.rejected (h : Handshake) : Bool :=
  match h.runnerAnswer with
  | none => false
  | some a => decide (a ≠ .accepted)

def ToRequester.isTaskError (taskId : ℕ) : ToRequester → Bool
  | .taskError id _ => decide (id = taskId)
  | _ => false

namespace Broker

/-- How often the requester was told that the task failed. -/
def taskErrors (s : Broker) (requesterId : String) (taskId : ℕ) : ℕ :=
  s.sentToRequesters.countP fun m => decide (m.1 = requesterId) && m.2.isTaskError taskId

/-- Nothing of the runner is left, and all that waited for it has been told. -/
structure TakesAllWork (runnerId : String) (s s' : Broker) : Prop where
  offers : ∀ o ∈ s'.pendingTaskOffers, o.runnerId ≠ runnerId
  tasks : ∀ id task, s'.tasks.get? id = some task → task.runnerId ≠ runnerId
  told : ∀ id task, s.tasks.get? id = some task → task.runnerId = runnerId →
    s'.taskErrors task.requesterId id = s.taskErrors task.requesterId id + 1
  rejected : ∀ id h, s.handshakes.get? id = some h → h.accepting = true →
    h.offer.runnerId = runnerId → id ∉ s'.runnerAcceptRejects ∧
      ∀ h', s'.handshakes.get? id = some h' → h'.rejected = true

/-- The requesters of the runner's tasks are there, and the runner has turned down itself what it
was asked to accept. -/
structure TurnedDown (runnerId : String) (s : Broker) : Prop where
  told : ∀ id task, s.tasks.get? id = some task → task.runnerId = runnerId →
    task.requesterId ∈ s.requesters
  rejected : ∀ id h, s.handshakes.get? id = some h → h.accepting = true →
    h.offer.runnerId = runnerId → id ∉ s.runnerAcceptRejects ∧ h.rejected = true

section Disconnects
variable {s : Broker} {runnerId error requesterId : String} {ids : List ℕ} {taskId id : ℕ}

structure Unanswered (s s' : Broker) : Prop where
  handshakes : s'.handshakes = s.handshakes
  entries : s'.runnerAcceptRejects = s.runnerAcceptRejects
  offers : s'.pendingTaskOffers = s.pendingTaskOffers
  requesters : s'.requesters = s.requesters

theorem failTask_unanswered (s : Broker) (taskId : ℕ) (error : String) :
    Unanswered s (s.failTask taskId error) := by
  unfold failTask
  split
  · exact ⟨rfl, rfl, rfl, rfl⟩
  · rename_i task _
    obtain ⟨sent, he⟩ := messageRequester_eq { s with tasks := s.tasks.delete taskId }
      task.requesterId (.taskError taskId error)
    rw [he]
    exact ⟨rfl, rfl, rfl, rfl⟩

theorem failTask_get? (s : Broker) (taskId : ℕ) (error : String) (id : ℕ) :
    (s.failTask taskId error).tasks.get? id = if taskId = id then none else s.tasks.get? id := by
  unfold failTask
  split
  · rename_i hnone
    split_ifs with hid
    · rw [← hid, hnone]
    · rfl
  · rename_i task _
    obtain ⟨sent, he⟩ := messageRequester_eq { s with tasks := s.tasks.delete taskId }
      task.requesterId (.taskError taskId error)
    rw [he]
    exact OrderedMap.get?_delete _ _ _

/-- The requester would be told that the task failed. -/
def reaches (s : Broker) (requesterId : String) (taskId : ℕ) : Bool :=
  (s.tasks.get? taskId).any fun task =>
    decide (task.requesterId = requesterId ∧ requesterId ∈ s.requesters)

theorem failTask_taskErrors (s : Broker) (taskId : ℕ) (error requesterId : String) (id : ℕ) :
    (s.failTask taskId error).taskErrors requesterId id = s.taskErrors requesterId id +
      if id = taskId ∧ s.reaches requesterId id = true then 1 else 0 := by
  unfold failTask
  split
  · rename_i hnone
    by_cases hid : id = taskId
    · simp [hid, reaches, hnone]
    · simp [hid]
  · rename_i task hg
    by_cases hin : task.requesterId ∈ s.requesters
    · by_cases hid : id = taskId
      · by_cases hq : task.requesterId = requesterId
        · simp [messageRequester, hin, taskErrors, ToRequester.isTaskError, hid, hg, reaches,
            ← hq]
        · simp [messageRequester, hin, taskErrors, ToRequester.isTaskError, hid, hg, reaches, hq]
      · simp [messageRequester, hin, taskErrors, ToRequester.isTaskError, hid, Ne.symm hid]
    · have hreach : ¬ (id = taskId ∧ s.reaches requesterId id = true) := by
        rintro ⟨rfl, h⟩
        simp only [reaches, hg, Option.any_some, decide_eq_true_eq] at h
        exact hin (h.1 ▸ h.2)
      rw [if_neg hreach]
      simp [messageRequester, hin, taskErrors]

theorem failTask_reaches (s : Broker) (taskId : ℕ) (error requesterId : String) (id : ℕ) :
    (s.failTask taskId error).reaches requesterId id =
      (s.reaches requesterId id && decide (id ≠ taskId)) := by
  rw [reaches, failTask_get?, (failTask_unanswered s taskId error).requesters, reaches]
  by_cases hid : id = taskId
  · simp [hid]
  · simp [hid, Ne.symm hid]

/-- Tasks that are failed one after the other, each once. -/
theorem failTasks_fields (hids : ∀ id ∈ ids, id ∉ s.runnerAcceptRejects) :
    Unanswered s (ids.foldl (fun s taskId => s.failTaskOf runnerId error taskId) s) ∧
      ∀ id, (ids.foldl (fun s taskId => s.failTaskOf runnerId error taskId) s).tasks.get? id =
        if id ∈ ids then none else s.tasks.get? id := by
  rw [foldl_failTaskOf_eq hids]
  clear hids
  induction ids generalizing s with
  | nil => exact ⟨⟨rfl, rfl, rfl, rfl⟩, fun id => by simp⟩
  | cons taskId ids ih =>
    have hsame := failTask_unanswered s taskId error
    rw [List.foldl_cons]
    obtain ⟨hrest, htasks⟩ := ih (s := s.failTask taskId error)
    refine ⟨⟨hrest.handshakes.trans hsame.handshakes, hrest.entries.trans hsame.entries,
      hrest.offers.trans hsame.offers, hrest.requesters.trans hsame.requesters⟩, fun id => ?_⟩
    rw [htasks, failTask_get?]
    by_cases hid : id = taskId
    · simp [hid]
    · simp [hid, Ne.symm hid]

theorem failTasks_taskErrors (hids : ∀ id ∈ ids, id ∉ s.runnerAcceptRejects) (id : ℕ) :
    (ids.foldl (fun s taskId => s.failTaskOf runnerId error taskId) s).taskErrors requesterId id =
      s.taskErrors requesterId id +
        if id ∈ ids ∧ s.reaches requesterId id = true then 1 else 0 := by
  rw [foldl_failTaskOf_eq hids]
  clear hids
  induction ids generalizing s with
  | nil => simp
  | cons taskId ids ih =>
    rw [List.foldl_cons, ih, failTask_taskErrors, failTask_reaches]
    by_cases hid : id = taskId
    · simp [hid]
    · simp [hid]

/-- The runner is not known any more, and its offers are gone. -/
def withoutRunner (s : Broker) (runnerId : String) : Broker :=
  { s with
    knownRunners := s.knownRunners.filter (fun id => decide (id ≠ runnerId))
    pendingTaskOffers := s.pendingTaskOffers.filter (fun o => decide (o.runnerId ≠ runnerId)) }

def tasksOf (s : Broker) (runnerId : String) : List ℕ :=
  (s.tasks.values.filter (fun task => task.runnerId == runnerId)).map Task.id

theorem deregisterRunner_eq (s : Broker) (runnerId error : String) :
    s.deregisterRunner runnerId error = (s.tasksOf runnerId).foldl
      (fun s taskId => s.failTaskOf runnerId error taskId) (s.withoutRunner runnerId) := rfl

theorem Keyed.mem_tasksOf (hk : s.Keyed) :
    id ∈ s.tasksOf runnerId ↔ ∃ task, s.tasks.get? id = some task ∧ task.runnerId = runnerId := by
  rw [tasksOf, List.mem_map]
  constructor
  · rintro ⟨task, htask, rfl⟩
    obtain ⟨hin, hrunner⟩ := List.mem_filter.mp htask
    obtain ⟨key, hg⟩ := OrderedMap.mem_values.mp hin
    exact ⟨task, hk.ids key task hg ▸ hg, by simpa using hrunner⟩
  · rintro ⟨task, hg, hrunner⟩
    refine ⟨task, List.mem_filter.mpr ⟨OrderedMap.mem_values.mpr ⟨id, hg⟩, ?_⟩, hk.ids id task hg⟩
    simpa using hrunner

/-- What a disconnect does to offers, tasks, handshakes and the requesters of the tasks. -/
theorem deregisterRunner_fields (hk : s.Keyed) (runnerId error : String) :
    (s.deregisterRunner runnerId error).pendingTaskOffers =
        s.pendingTaskOffers.filter (fun o => decide (o.runnerId ≠ runnerId)) ∧
      (s.deregisterRunner runnerId error).handshakes = s.handshakes ∧
      (s.deregisterRunner runnerId error).runnerAcceptRejects = s.runnerAcceptRejects ∧
      (∀ id, (s.deregisterRunner runnerId error).tasks.get? id =
        (s.tasks.get? id).filter fun task => decide (task.runnerId ≠ runnerId)) ∧
      ∀ id task, s.tasks.get? id = some task → task.runnerId = runnerId →
        (s.deregisterRunner runnerId error).taskErrors task.requesterId id =
          s.taskErrors task.requesterId id + if task.requesterId ∈ s.requesters then 1 else 0 := by
  have hrejectable : ∀ id ∈ s.tasksOf runnerId, id ∉ (s.withoutRunner runnerId).runnerAcceptRejects :=
    hk.not_rejectable runnerId
  obtain ⟨hsame, htasks⟩ := @failTasks_fields (s.withoutRunner runnerId) runnerId error _ hrejectable
  rw [deregisterRunner_eq]
  refine ⟨hsame.offers, hsame.handshakes, hsame.entries, fun id => ?_, fun id task hg hrunner => ?_⟩
  · rw [htasks]
    change (if _ then none else s.tasks.get? id) = _
    cases hg : s.tasks.get? id with
    | none => simp
    | some task => simp [hk.mem_tasksOf, hg, Option.filter]
  · rw [failTasks_taskErrors hrejectable]
    have hmem := hk.mem_tasksOf.mpr ⟨task, hg, hrunner⟩
    have hreaches : (s.withoutRunner runnerId).reaches task.requesterId id =
        decide (task.requesterId ∈ s.requesters) := by
      simp [reaches, withoutRunner, hg]
    simp only [hmem, hreaches, true_and, decide_eq_true_eq]
    rfl

theorem takesAllWork_iff (hk : s.Keyed) (runnerId error : String) :
    TakesAllWork runnerId s (s.deregisterRunner runnerId error) ↔ TurnedDown runnerId s := by
  obtain ⟨hoffers, hhandshakes, hentries, htasks, herrors⟩ := deregisterRunner_fields hk runnerId error
  constructor
  · intro h
    refine ⟨fun id task hg hrunner => ?_, fun id hs hg hacc hrunner => ?_⟩
    · have htold := h.told id task hg hrunner
      rw [herrors id task hg hrunner] at htold
      by_contra hnot
      rw [if_neg hnot] at htold
      omega
    · obtain ⟨hentry, hrejected⟩ := h.rejected id hs hg hacc hrunner
      rw [hentries] at hentry
      exact ⟨hentry, hrejected hs (hhandshakes ▸ hg)⟩
  · intro h
    refine ⟨fun o ho => ?_, fun id task hg => ?_, fun id task hg hrunner => ?_,
      fun id hs hg hacc hrunner => ?_⟩
    · rw [hoffers] at ho
      simpa using (List.mem_filter.mp ho).2
    · rw [htasks, Option.filter_eq_some_iff] at hg
      simpa using hg.2
    · rw [herrors id task hg hrunner, if_pos (h.told id task hg hrunner)]
    · obtain ⟨hentry, hrejected⟩ := h.rejected id hs hg hacc hrunner
      refine ⟨by rw [hentries]; exact hentry, fun h' hg' => ?_⟩
      rw [hhandshakes] at hg'
      obtain rfl := Option.some.inj (hg.symm.trans hg')
      exact hrejected

end Disconnects

end Broker

namespace Relay

/-- A disconnecting runner takes all its work with it exactly when nothing waits for its answer and
the requesters of its tasks are there. -/
theorem deregisterRunner_takesAllWork_iff (now : ℤ) (mode : TaskRunnerMode) (taskTimeout : ℕ)
    (isSelfHosted : Bool) (tr : List (RelayEvent × Relay))
    (hr : Run Step (initial now mode taskTimeout isSelfHosted) tr) (runnerId error : String) :
    Broker.TakesAllWork runnerId (finalState (initial now mode taskTimeout isSelfHosted) tr).broker
        ((finalState (initial now mode taskTimeout isSelfHosted) tr).next
          (.deregisterRunner runnerId error)).broker ↔
      Broker.TurnedDown runnerId
        (finalState (initial now mode taskTimeout isSelfHosted) tr).broker :=
  Broker.takesAllWork_iff (reached_keyed hr) runnerId error

/-- The runner disconnects while it has a task and is asked for nothing. -/
theorem working_takesAllWork : Broker.TakesAllWork "r1"
    (finalState (initial 0 .internal 60 true) (trace next (initial 0 .internal 60 true) firstTask)).broker
    ((finalState (initial 0 .internal 60 true)
      (trace next (initial 0 .internal 60 true) firstTask)).next
        (.deregisterRunner "r1" "closed")).broker := by
  refine (deregisterRunner_takesAllWork_iff 0 .internal 60 true _ (run_events _ _) "r1" "closed").mpr
    ⟨fun id task hg => ?_, fun id h hg => ?_⟩
  · have hall : ∀ e ∈ (finalState (initial 0 .internal 60 true)
        (trace next (initial 0 .internal 60 true) firstTask)).broker.tasks.entries,
        e.2.requesterId = "q" := by decide
    have hq := hall _ (OrderedMap.get?_eq_some.mp hg)
    intro _
    rw [hq]
    decide
  · have hnone : (finalState (initial 0 .internal 60 true)
        (trace next (initial 0 .internal 60 true) firstTask)).broker.handshakes.entries = [] := rfl
    have hmem := OrderedMap.get?_eq_some.mp hg
    rw [hnone] at hmem
    cases hmem

/-- The handshake that waits for the runner goes on waiting. -/
theorem waiting_not_takesAllWork : ¬ ∀ (now : ℤ) (mode : TaskRunnerMode) (taskTimeout : ℕ)
    (isSelfHosted : Bool) (tr : List (RelayEvent × Relay)),
    Run Step (initial now mode taskTimeout isSelfHosted) tr → ∀ runnerId error : String,
    Broker.TakesAllWork runnerId (finalState (initial now mode taskTimeout isSelfHosted) tr).broker
      ((finalState (initial now mode taskTimeout isSelfHosted) tr).next
        (.deregisterRunner runnerId error)).broker := by
  intro h
  have hrun := run_events (initial 0 .internal 60 true) (firstTask.take 5)
  have hwork := h 0 .internal 60 true _ hrun "r1" "closed"
  exact absurd (hwork.rejected 0 _ rfl rfl rfl).1 (by decide)

end Relay

end N8n.TaskBroker
