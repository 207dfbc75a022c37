import N8n.TaskBroker.Senders

/-!
# Requests whose handshakes wait for the runner

While a handshake waits for its runner, its request is on the list of pending requests, in every
run whose request ids are distinct.
-/

namespace N8n.TaskBroker
open N8n.Runs

namespace Broker

variable {s s' t u : Broker} {served : List ℕ}

/-- Handshakes and requests stay as they are, and no task is created. -/
structure Leaves (s s' : Broker) : Prop where
  handshakes : s'.handshakes = s.handshakes
  pending : s'.pendingTaskRequests = s.pendingTaskRequests
  objects : s'.requests = s.requests
  count : s'.nextRequest = s.nextRequest
  escaped : s'.escaped = s.escaped
  tasks : ∀ id, s.tasks.get? id = none → s'.tasks.get? id = none
  sent : ∀ m ∈ s.sentToRequesters, m ∈ s'.sentToRequesters

theorem Leaves.refl (s : Broker) : Leaves s s :=
  ⟨rfl, rfl, rfl, rfl, rfl, fun _ h => h, fun _ h => h⟩

theorem Leaves.trans (h : Leaves s t) (h' : Leaves t u) : Leaves s u where
  handshakes := h'.handshakes.trans h.handshakes
  pending := h'.pending.trans h.pending
  objects := h'.objects.trans h.objects
  count := h'.count.trans h.count
  escaped := h'.escaped.trans h.escaped
  tasks := fun id hid => h'.tasks id (h.tasks id hid)
  sent := fun m hm => h'.sent m (h.sent m hm)

theorem messageRunner_leaves (s : Broker) (runnerId : String) (m : ToRunner) :
    Leaves s (s.messageRunner runnerId m) := by
  obtain ⟨sent, he⟩ := messageRunner_eq s runnerId m
  rw [he]
  exact ⟨rfl, rfl, rfl, rfl, rfl, fun _ h => h, fun _ h => h⟩

theorem messageRequester_leaves (s : Broker) (requesterId : String) (m : ToRequester) :
    Leaves s (s.messageRequester requesterId m) := by
  unfold messageRequester
  split
  · exact ⟨rfl, rfl, rfl, rfl, rfl, fun _ h => h, fun _ h => List.mem_append_left _ h⟩
  · exact .refl s

theorem withTasks_leaves (s : Broker) {tasks : OrderedMap ℕ Task}
    (h : ∀ id, s.tasks.get? id = none → tasks.get? id = none) :
    Leaves s { s with tasks := tasks } :=
  ⟨rfl, rfl, rfl, rfl, rfl, h, fun _ h => h⟩

theorem deleteTask_leaves (s : Broker) (taskId : ℕ) :
    Leaves s { s with tasks := s.tasks.delete taskId } := by
  refine withTasks_leaves s fun id hid => ?_
  rw [OrderedMap.get?_delete, hid]
  split <;> rfl

theorem cancelTask_leaves {taskId : ℕ} {reason : String}
    (h : s.cancelTask taskId reason = some s') : Leaves s s' := by
  obtain ⟨task, -, rfl⟩ := Option.map_eq_some_iff.mp h
  exact (deleteTask_leaves s taskId).trans (messageRunner_leaves _ _ _)

theorem failTask_leaves (s : Broker) (taskId : ℕ) (error : String) :
    Leaves s (s.failTask taskId error) := by
  unfold failTask
  split
  · exact .refl s
  · exact (deleteTask_leaves s taskId).trans (messageRequester_leaves _ _ _)

theorem clearTimeout_leaves (s : Broker) (taskId : ℕ) : Leaves s (s.clearTimeout taskId) := by
  unfold clearTimeout
  split
  · exact .refl s
  · rename_i task hg
    refine withTasks_leaves s fun id hid => ?_
    rw [OrderedMap.get?_set]
    split_ifs with heq
    · rw [← heq, hg] at hid
      cases hid
    · exact hid

theorem passToRequester_leaves (s : Broker) (taskId : ℕ) (m : ToRequester) :
    Leaves s (s.passToRequester taskId m) := by
  unfold passToRequester
  split
  · exact .refl s
  · exact messageRequester_leaves _ _ _

theorem passToRunner_leaves (s : Broker) (taskId : ℕ) (m : ToRunner) :
    Leaves s (s.passToRunner taskId m).1 := by
  unfold passToRunner getRunnerOrFailTask
  split
  · rename_i heq
    split at heq
    · obtain ⟨rfl, -⟩ := Prod.mk.inj heq
      exact .refl s
    · split_ifs at heq
      · cases heq
      · obtain ⟨rfl, -⟩ := Prod.mk.inj heq
        exact failTask_leaves _ _ _
  · rename_i heq
    split at heq
    · cases heq
    · split_ifs at heq
      · obtain ⟨rfl, -⟩ := Prod.mk.inj heq
        exact messageRunner_leaves _ _ _
      · cases heq

theorem failTasks_leaves (runnerId error : String) (ids : List ℕ)
    (hids : ∀ id ∈ ids, id ∉ s.runnerAcceptRejects) :
    Leaves s (ids.foldl (fun s taskId => s.failTaskOf runnerId error taskId) s) := by
  rw [foldl_failTaskOf_eq hids]
  apply List.foldlRecOn (motive := Leaves s)
  · exact .refl s
  · intro t ht id _
    exact ht.trans (failTask_leaves t id error)

theorem deregisterRunner_leaves (hk : s.Keyed) (runnerId error : String) :
    Leaves s (s.deregisterRunner runnerId error) := by
  have hstart : Leaves s { s with
      knownRunners := s.knownRunners.filter (fun id => decide (id ≠ runnerId))
      pendingTaskOffers := s.pendingTaskOffers.filter (fun o => decide (o.runnerId ≠ runnerId)) } :=
    ⟨rfl, rfl, rfl, rfl, rfl, fun _ h => h, fun _ h => h⟩
  exact hstart.trans (failTasks_leaves runnerId error _ (hk.not_rejectable runnerId))

end Broker

/-! ### Events that the broker does not handle alone -/

namespace Relay
variable {s : Relay}

theorem finishTask_leaves (s : Relay) (taskId : ℕ) (m : ℕ → ToRequester) :
    s.broker.Leaves (s.finishTask taskId m).broker := by
  unfold finishTask
  split
  · exact .refl _
  · have hclear := Broker.clearTimeout_leaves s.broker taskId
    dsimp only
    split_ifs
    · exact hclear.trans (Broker.messageRequester_leaves _ _ _)
    · exact hclear.trans (Broker.deleteTask_leaves _ _)

theorem handleTaskTimeout_leaves (s : Relay) (taskId : ℕ) :
    s.broker.Leaves (s.handleTaskTimeout taskId).broker := by
  unfold handleTaskTimeout
  split
  · exact .refl _
  · split
    · exact finishTask_leaves { s with timedOutDuringTask := s.timedOutDuringTask + 1 } taskId _
    · split_ifs
      · exact Broker.messageRunner_leaves _ _ _
      · exact finishTask_leaves s taskId _

theorem taskTimerFires_leaves (s : Relay) (taskId : ℕ) :
    s.broker.Leaves (s.taskTimerFires taskId).broker := by
  unfold taskTimerFires
  split
  · exact .refl _
  · split_ifs
    · exact (Broker.clearTimeout_leaves s.broker taskId).trans
        (handleTaskTimeout_leaves (s.onBroker (·.clearTimeout taskId)) taskId)
    · exact .refl _

theorem callSettled_leaves (s : Relay) (callId : ℕ) (sent : Bool) :
    s.broker.Leaves (s.callSettled callId sent).broker := by
  unfold callSettled
  split
  · exact .refl _
  · split
    · exact Broker.deleteTask_leaves _ _
    · exact .refl _
    · exact finishTask_leaves { s with calls := s.calls.delete callId } _ _
    · exact .refl _
    · exact .refl _

theorem next_leaves {e : RelayEvent} (h : e.own? = none) : s.broker.Leaves (s.next e).broker := by
  cases e with
  | fromRunner runnerId m =>
    simp only [next, onRunnerMessage]
    split_ifs
    · cases m with
      | taskAccepted | taskRejected | taskDeferred | taskOffer => cases h
      | taskDone | taskError => exact finishTask_leaves _ _ _
      | taskDataRequest | nodeTypesRequest | rpc => exact Broker.passToRequester_leaves _ _ _
      | info => exact .refl _
    · exact .refl _
  | fromRequester requesterId m =>
    cases m with
    | taskSettings | taskCancel | taskRequest => cases h
    | taskDataResponse | nodeTypesResponse | rpcResponse =>
      exact Broker.passToRunner_leaves _ _ _
  | taskTimeout taskId => exact taskTimerFires_leaves s taskId
  | callSettled callId sent => exact callSettled_leaves s callId sent
  | registerRunner | deregisterRunner | registerRequester | deregisterRequester
  | runnerAcceptTimeout | requesterAcceptTimeout | messageSettled | clock => cases h

end Relay

theorem Ledger.Claimed.leaves {s s' : Broker} {served : List ℕ} (hc : Ledger.Claimed ⟨s, served⟩)
    (hs : s.Leaves s') (hk : s'.Keyed) : Ledger.Claimed ⟨s', served⟩ := by
  refine ⟨hk, fun r hr => ?_, fun id c hg => ?_, fun id id' c c' hg hg' => ?_,
    fun id c hg hacc => hs.tasks id ?_, fun r hr => ?_, hc.nodup⟩
  · dsimp only at hr ⊢
    rw [hs.count]
    exact hc.pending r (hs.pending ▸ hr)
  · dsimp only at hg ⊢
    rw [hs.objects, hs.count]
    exact hc.calls id c (hs.handshakes ▸ hg)
  · dsimp only at hg hg'
    rw [hs.handshakes] at hg hg'
    exact hc.unique id id' c c' hg hg'
  · exact hc.untasked id c (hs.handshakes ▸ hg) hacc
  · dsimp only
    rw [hs.objects, hs.count, hs.handshakes]
    exact hc.served r hr

/-! ### What stays on the list -/

namespace Broker
variable {s s' : Broker} {served : List ℕ}

/-- A request whose handshake waits for the runner is on the list. -/
structure OnList (s : Broker) : Prop where
  claimed : ∃ served, Ledger.Claimed ⟨s, served⟩
  listed : ∀ id h, s.handshakes.get? id = some h → h.accepting = true →
    h.request ∈ s.pendingTaskRequests
  distinct : s.knownIds.Nodup

theorem initial_onList (now : ℤ) : (initial now).OnList :=
  ⟨⟨[], Ledger.start_claimed now⟩, by simp [initial], List.nodup_nil⟩

theorem OnList.keyed (h : s.OnList) : s.Keyed := h.claimed.choose_spec.keyed

theorem OnList.steady (h : s.OnList) (hs : s.Steady s') (hk : s'.Keyed) : s'.OnList := by
  obtain ⟨served, hc⟩ := h.claimed
  refine ⟨⟨served, hc.steady hs hk⟩, fun id h' hg hacc => ?_, ?_⟩
  · obtain ⟨h₀, hh, hreq, ha⟩ := hs.calls id h' hg
    rw [hs.pending, hreq]
    exact h.listed id h₀ hh (ha hacc)
  · rw [knownIds_congr hs.count fun r => by rw [hs.objects]]
    exact h.distinct

theorem mem_eraseIdx_of_ne {l : List ℕ} {r i : ℕ} (hr : r ∈ l) (hi : i < l.length)
    (hne : l[i] ≠ r) : r ∈ l.eraseIdx i := by
  obtain ⟨j, hj⟩ := List.mem_iff_getElem?.mp hr
  refine List.mem_eraseIdx_iff_getElem?.mpr ⟨j, ?_, hj⟩
  rintro rfl
  exact hne (Option.some.inj ((List.getElem?_eq_getElem hi).symm.trans hj))

/-- `createTask` takes an entry of its own request off the list. -/
theorem OnList.creates (h : s.OnList) {c : Handshake} (hg : s.handshakes.get? c.taskId = some c)
    (hacc : c.accepting = true) (hs : s.Creates c s') (hk : s'.Keyed) : s'.OnList := by
  obtain ⟨served, hc⟩ := h.claimed
  have hin : c.request ∈ s.pendingTaskRequests := h.listed _ c hg hacc
  refine ⟨⟨_, hc.creates hg hacc hs hk⟩, fun id h' hg' hacc' => ?_, ?_⟩
  · rcases hs.calls id h' hg' with ⟨hne, hh⟩ | ⟨-, -, hn⟩
    · have hin' : h'.request ∈ s.pendingTaskRequests := h.listed id h' hh hacc'
      rw [hs.pending]
      split
      · exact hin'
      · rename_i requestIndex hsome
        obtain ⟨hlt, hid, -⟩ := List.findIdx?_eq_some_iff_getElem.mp hsome
        refine mem_eraseIdx_of_ne hin' hlt fun heq => hne ?_
        have hsame : s.pendingTaskRequests[requestIndex] = c.request :=
          List.inj_on_of_nodup_map h.distinct
            (List.mem_range.mpr (hc.pending _ (List.getElem_mem hlt)))
            (List.mem_range.mpr (hc.pending _ hin)) (by simpa using hid)
        exact hc.unique id c.taskId h' c hh hg (heq.symm.trans hsame)
    · rw [hn] at hacc'
      cases hacc'
  · rw [knownIds_congr hs.count fun r => by rw [hs.objects]]
    exact h.distinct

theorem OnList.givesBack (h : s.OnList) {c : Handshake} {deferred : Bool}
    (hg : s.handshakes.get? c.taskId = some c) (hacc : c.accepting = true)
    (hs : s.GivesBack c deferred s') (hk : s'.Keyed) : s'.OnList := by
  obtain ⟨served, hc⟩ := h.claimed
  refine ⟨⟨served, hc.givesBack hg hacc hs hk⟩, fun id h' hg' hacc' => ?_, ?_⟩
  · have hin : h'.request ∈ s.pendingTaskRequests := h.listed id h' (hs.calls id h' hg').2 hacc'
    rw [hs.pending]
    split
    · exact List.mem_append_left _ hin
    · exact hin
  · rw [knownIds_congr hs.count fun r => ?_]
    · exact h.distinct
    · rw [hs.objects]
      by_cases hr : r = c.request
      · rw [hr, Function.update_self]
      · rw [Function.update_of_ne hr]

theorem OnList.settleTasks (h : s.OnList) : s.settleTasks.OnList := by
  obtain ⟨served, hc⟩ := h.claimed
  refine ⟨⟨served, hc.settleTasks⟩, ?_, ?_⟩
  · refine (settleTasks_induction (P := fun t => t.pendingTaskRequests = s.pendingTaskRequests ∧
      ∀ id h, t.handshakes.get? id = some h → h.accepting = true →
        h.request ∈ t.pendingTaskRequests) ⟨rfl, h.listed⟩ fun t r hr ⟨hp, hl⟩ => ?_).2
    rcases t.settleRequest_matches r with he | hm
    · rw [he]
      exact ⟨hp, hl⟩
    · refine ⟨hm.pending.trans hp, fun id h' hg hacc => ?_⟩
      rw [hm.pending]
      rcases hm.calls id h' hg with hh | ⟨-, rfl⟩
      · exact hl id h' hh hacc
      · exact hp ▸ hr
  · rw [knownIds_congr s.settleTasks_settledFrom.count s.settleTasks_settledFrom.requestIds]
    exact h.distinct

theorem OnList.asked (h : s.OnList) {requesterId requestId taskType : String}
    (hd : (s.asked requesterId requestId taskType).knownIds.Nodup) :
    (s.asked requesterId requestId taskType).OnList := by
  obtain ⟨served, hc⟩ := h.claimed
  exact ⟨⟨served, hc.asked _ _ _⟩,
    fun id c hg hacc => List.mem_append_left _ (h.listed id c hg hacc), hd⟩

theorem OnList.next (h : s.OnList) (e : Event)
    (hfresh : (s.knownIds ++ e.requestId?.toList).Nodup) : (s.next e).OnList := by
  have hk := h.keyed.next e
  rcases next_outcome h.keyed e with heff | ⟨t, -, hkt, ht, he⟩ |
    ⟨requesterId, requestId, taskType, rfl, he⟩
  · generalize s.returned e = p at heff
    cases heff with
    | steady hs => exact h.steady hs hk
    | created c hg hacc hs => exact h.creates hg hacc hs hk
    | givenBack c deferred hg hacc hs => exact h.givesBack hg hacc hs hk
  · rw [he]
    exact (h.steady ht hkt).settleTasks
  · rw [he]
    refine (h.asked ?_).settleTasks
    rw [knownIds_asked]
    exact hfresh

theorem OnList.leaves (h : s.OnList) (hs : s.Leaves s') (hk : s'.Keyed) : s'.OnList := by
  obtain ⟨served, hc⟩ := h.claimed
  refine ⟨⟨served, hc.leaves hs hk⟩, fun id c hg hacc => ?_, ?_⟩
  · rw [hs.pending]
    exact h.listed id c (hs.handshakes ▸ hg) hacc
  · rw [knownIds_congr hs.count fun r => by rw [hs.objects]]
    exact h.distinct

end Broker

def RelayEvent.requestId? (e : RelayEvent) : Option String := e.own?.bind Event.requestId?

namespace Relay
variable {s : Relay}

/-- The ids of the requests of a run, in the order in which they arrive. -/
def requestIds (tr : List (RelayEvent × Relay)) : List String :=
  tr.filterMap fun p => p.1.requestId?

/-- A step whose request, if it brings one, has a new id. -/
def FreshStep (s : Relay) (e : RelayEvent) (s' : Relay) : Prop :=
  Step s e s' ∧ (s.broker.knownIds ++ e.requestId?.toList).Nodup

theorem knownIds_next (hk : s.broker.Keyed) (e : RelayEvent) : (s.next e).broker.knownIds =
    s.broker.knownIds ++ e.requestId?.toList := by
  cases he : e.own? with
  | some own =>
    rw [next_own he, RelayEvent.requestId?, he]
    exact Broker.knownIds_next hk own
  | none =>
    have hl := next_leaves (s := s) he
    rw [RelayEvent.requestId?, he, Option.bind_none, Option.toList_none, List.append_nil]
    exact Broker.knownIds_congr hl.count fun r => by rw [hl.objects]

theorem run_fresh {tr : List (RelayEvent × Relay)} (hr : Run Step s tr)
    (hs : s.broker.Keyed ∧ s.Numbered) (hids : (s.broker.knownIds ++ requestIds tr).Nodup) :
    Run FreshStep s tr := by
  induction hr with
  | nil s => exact .nil s
  | @cons s s' e tr hstep _ ih =>
    obtain rfl := hstep
    have hsplit : requestIds ((e, s.next e) :: tr) =
        e.requestId?.toList ++ requestIds tr := by
      rw [requestIds, List.filterMap_cons]
      cases e.requestId? <;> rfl
    rw [hsplit, ← List.append_assoc] at hids
    refine .cons ⟨rfl, (List.nodup_append.mp hids).1⟩ (ih (next_keyed hs e) ?_)
    rw [knownIds_next hs.1]
    exact hids

theorem next_onList (h : s.broker.OnList) (hn : s.Numbered) {e : RelayEvent}
    (hfresh : (s.broker.knownIds ++ e.requestId?.toList).Nodup) :
    (s.next e).broker.OnList := by
  cases he : e.own? with
  | some own =>
    rw [next_own he]
    rw [RelayEvent.requestId?, he] at hfresh
    exact h.next own hfresh
  | none => exact h.leaves (next_leaves he) (next_keyed ⟨h.keyed, hn⟩ e).1

end Relay

end N8n.TaskBroker
