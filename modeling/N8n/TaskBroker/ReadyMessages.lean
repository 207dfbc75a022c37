import N8n.TaskBroker.PendingRequests
import Mathlib.Data.List.Perm.Subperm

/-!
# The requests that are told to be ready

A requester is told that a request is ready when the task of the request is created, and only
then. So no request is told to be ready twice, and no two requests with one task.
-/

namespace N8n.TaskBroker
open N8n.Runs

def ToRequester.ready? : ToRequester → Option (String × ℕ)
  | .taskReady requestId taskId => some (requestId, taskId)
  | _ => none

def ToRequester.fails : ToRequester → Bool
  | .taskError _ _ => true
  | _ => false

namespace Broker

/-- Requester, request and task of each message about a request that is ready. -/
def readies (s : Broker) : List (String × String × ℕ) :=
  s.sentToRequesters.filterMap fun p => p.2.ready?.map fun ready => (p.1, ready)

/-! ### What is sent to requesters -/

/-- More may be sent to requesters, all of one kind. -/
def Sends (P : ToRequester → Prop) (s s' : Broker) : Prop :=
  ∃ new, s'.sentToRequesters = s.sentToRequesters ++ new ∧ ∀ m ∈ new, P m.2

abbrev Fails (s s' : Broker) : Prop := Sends (fun m => m.fails = true) s s'

/-- No request is told to be ready. -/
abbrev Untold (s s' : Broker) : Prop := Sends (fun m => m.ready? = none) s s'

section Sends
variable {P Q : ToRequester → Prop} {s t u : Broker}

theorem Sends.of_sent (h : t.sentToRequesters = s.sentToRequesters) : Sends P s t :=
  ⟨[], by rw [h, List.append_nil], by simp⟩

theorem Sends.refl (s : Broker) : Sends P s s := .of_sent rfl

theorem Sends.trans (h₁ : Sends P s t) (h₂ : Sends P t u) : Sends P s u := by
  obtain ⟨new₁, hnew₁, hm₁⟩ := h₁
  obtain ⟨new₂, hnew₂, hm₂⟩ := h₂
  refine ⟨new₁ ++ new₂, by rw [hnew₂, hnew₁, List.append_assoc], fun m hm => ?_⟩
  exact (List.mem_append.mp hm).elim (hm₁ m) (hm₂ m)

theorem Sends.mono (h : Sends P s t) (hPQ : ∀ m, P m → Q m) : Sends Q s t := by
  obtain ⟨new, hnew, hm⟩ := h
  exact ⟨new, hnew, fun m hin => hPQ m.2 (hm m hin)⟩

theorem Untold.readies_eq (h : Untold s t) : t.readies = s.readies := by
  obtain ⟨new, hnew, hm⟩ := h
  have hnone : (new.filterMap fun p => p.2.ready?.map fun ready => (p.1, ready)) = [] := by
    rw [List.filterMap_eq_nil_iff]
    intro m hin
    rw [hm m hin]
    rfl
  rw [readies, hnew, List.filterMap_append, hnone, List.append_nil]
  rfl

theorem Fails.untold (h : Fails s t) : Untold s t := by
  refine h.mono fun m hm => ?_
  cases m with
  | taskError => rfl
  | _ => cases hm

theorem Sends.messageRunner (h : Sends P s t) (runnerId : String) (m : ToRunner) :
    Sends P s (t.messageRunner runnerId m) := by
  obtain ⟨sent, he⟩ := messageRunner_eq t runnerId m
  rw [he]
  exact h

theorem Sends.putHandshake (h : Sends P s t) (c : Handshake) : Sends P s (t.putHandshake c) := h

theorem messageRequester_cases (s : Broker) (requesterId : String) (m : ToRequester) :
    (s.messageRequester requesterId m).sentToRequesters = s.sentToRequesters ∨
      (s.messageRequester requesterId m).sentToRequesters =
        s.sentToRequesters ++ [(requesterId, m)] := by
  unfold messageRequester
  split
  · exact Or.inr rfl
  · exact Or.inl rfl

theorem Sends.messageRequester (h : Sends P s t) (requesterId : String) {m : ToRequester}
    (hm : P m) : Sends P s (t.messageRequester requesterId m) := by
  rcases messageRequester_cases t requesterId m with hsame | hsent
  · exact h.trans (.of_sent hsame)
  · exact h.trans ⟨_, hsent, by simpa using hm⟩

end Sends

/-! ### Steps that tell failures only -/

theorem cancelTask_fails {s s' : Broker} {taskId : ℕ} {reason : String}
    (h : s.cancelTask taskId reason = some s') : Fails s s' := by
  simp only [cancelTask, Option.map_eq_some_iff] at h
  obtain ⟨task, -, rfl⟩ := h
  exact Sends.messageRunner (.of_sent (by rfl)) _ _

theorem failTask_fails (s : Broker) (taskId : ℕ) (error : String) :
    Fails s (s.failTask taskId error) := by
  unfold failTask
  split
  · exact .of_sent rfl
  · exact Sends.messageRequester (.of_sent (by rfl)) _ rfl

theorem cancelAndThrow_fails (s : Broker) (h : Handshake) : Fails s (s.cancelAndThrow h) := by
  unfold cancelAndThrow
  split
  · exact .of_sent rfl
  · rename_i s' hs
    have hfails : Fails s s' := cancelTask_fails hs
    exact hfails

theorem sendTaskSettings_fails (s : Broker) (h : Handshake) (settings : String) :
    Fails s (s.sendTaskSettings h settings) := by
  unfold sendTaskSettings
  split
  · exact cancelAndThrow_fails s h
  · split
    · exact .putHandshake (.messageRunner (.of_sent (by rfl)) _ _) _
    · exact failTask_fails s _ _

theorem resumeRequester_fails (s : Broker) (h : Handshake) : Fails s (s.resumeRequester h) := by
  unfold resumeRequester
  split
  · exact .of_sent rfl
  · exact sendTaskSettings_fails s h _
  · exact cancelAndThrow_fails s h

theorem answerRequester_fails (s : Broker) (taskId : ℕ) (a : RequesterAnswer) :
    Fails s (s.answerRequester taskId a) := by
  unfold answerRequester
  split
  · exact .of_sent rfl
  · split
    · exact .of_sent rfl
    · dsimp only
      split
      · exact resumeRequester_fails _ _
      · exact .of_sent rfl

theorem settleTasks_fails (s : Broker) : Fails s s.settleTasks := by
  apply settleTasks_induction (P := Fails s)
  · exact .of_sent rfl
  · intro t r _ ht
    refine ht.trans ?_
    unfold settleRequest
    dsimp only
    split
    · exact .of_sent rfl
    · split
      · exact .of_sent rfl
      · exact Sends.messageRunner (.of_sent (by rfl)) _ _

theorem failTasks_fails {s : Broker} (runnerId error : String) (ids : List ℕ)
    (hids : ∀ id ∈ ids, id ∉ s.runnerAcceptRejects) :
    Fails s (ids.foldl (fun s taskId => s.failTaskOf runnerId error taskId) s) := by
  rw [foldl_failTaskOf_eq hids]
  apply List.foldlRecOn (motive := Fails s)
  · exact .of_sent rfl
  · intro t ht id _
    exact ht.trans (failTask_fails t id error)

theorem deregisterRunner_fails {s : Broker} (hk : s.Keyed) (runnerId error : String) :
    Fails s (s.deregisterRunner runnerId error) :=
  @failTasks_fails { s with
      knownRunners := s.knownRunners.filter (fun id => decide (id ≠ runnerId))
      pendingTaskOffers := s.pendingTaskOffers.filter (fun o => decide (o.runnerId ≠ runnerId)) }
    runnerId error _ (hk.not_rejectable runnerId)

/-! ### Steps that tell a request to be ready -/

/-- The requester of a handshake is told that its request is ready. -/
def TellsOf (s : Broker) (h : Handshake) (s' : Broker) : Prop :=
  s'.tasks.get? h.taskId ≠ none ∧
    s'.sentToRequesters = s.sentToRequesters ++ [((s.requests h.request).requesterId,
      .taskReady (s.requests h.request).requestId h.taskId)]

def Tells (s s' : Broker) : Prop :=
  Fails s s' ∨ ∃ h, s.handshakes.get? h.taskId = some h ∧ h.accepting = true ∧ TellsOf s h s'

theorem TellsOf.readies_eq {s s' : Broker} {h : Handshake} (ht : TellsOf s h s') :
    s'.readies = s.readies ++
      [((s.requests h.request).requesterId, (s.requests h.request).requestId, h.taskId)] := by
  rw [readies, ht.2, List.filterMap_append]
  rfl

theorem createTask_tells (s : Broker) (h : Handshake) :
    Fails s (s.createTask h) ∨ TellsOf s h (s.createTask h) := by
  unfold createTask
  dsimp only
  split
  · exact Or.inl (.of_sent rfl)
  · rename_i requestIndex _
    generalize ht : ({ s with
        tasks := s.tasks.set h.taskId ⟨h.taskId, h.offer.taskType, h.offer.runnerId,
          (s.requests h.request).requesterId, false⟩
        pendingTaskRequests := s.pendingTaskRequests.eraseIdx requestIndex
        requesterAcceptRejects := s.requesterAcceptRejects ++ [h.taskId] } : Broker) = t
    rcases messageRequester_cases t (s.requests h.request).requesterId
      (.taskReady (s.requests h.request).requestId h.taskId) with hsent | hsent
    · subst ht
      exact Or.inl (.of_sent hsent)
    · refine Or.inr ⟨?_, by subst ht; exact hsent⟩
      obtain ⟨sent, he⟩ := messageRequester_eq t (s.requests h.request).requesterId
        (.taskReady (s.requests h.request).requestId h.taskId)
      rw [he]
      subst ht
      simp [putHandshake]

theorem resumeRunner_tells {s : Broker} {h h' : Handshake}
    (hg : s.handshakes.get? h.taskId = some h) (hacc : h.accepting = true)
    (hid : h'.taskId = h.taskId) (hreq : h'.request = h.request) :
    Tells s ((s.putHandshake h').resumeRunner h') := by
  unfold resumeRunner
  split
  · exact Or.inl (.of_sent rfl)
  · rcases createTask_tells (s.putHandshake h') h' with hsame | ⟨htask, htold⟩
    · exact Or.inl hsame
    · rw [hid] at htask
      rw [hid, hreq] at htold
      exact Or.inr ⟨h, hg, hacc, htask, htold⟩
  all_goals exact Or.inl (.of_sent rfl)

theorem answerRunner_tells {s : Broker} (hk : s.Keyed) (taskId : ℕ) (a : RunnerAnswer) :
    Tells s (s.answerRunner taskId a) := by
  unfold answerRunner
  split
  · exact Or.inl (.of_sent rfl)
  · rename_i h hg
    obtain rfl := hk.own taskId h hg
    split
    · exact Or.inl (.of_sent rfl)
    · dsimp only
      split
      · rename_i hphase
        exact resumeRunner_tells hg (by simp [Handshake.accepting, hphase]) rfl rfl
      · exact Or.inl (.of_sent rfl)

theorem handleRunnerAnswer_tells {s : Broker} (hk : s.Keyed) (runnerId : String) (taskId : ℕ)
    (a : RunnerAnswer) : Tells s (s.fromRunner runnerId (·.handleRunnerAnswer taskId a)) := by
  unfold fromRunner handleRunnerAnswer
  split
  · dsimp only
    split
    · have hk' : Keyed { s with
          runnerAcceptRejects := s.runnerAcceptRejects.filter (fun id => decide (id ≠ taskId)) } :=
        ⟨fun id hid => ⟨(hk.fresh id hid).1, (hk.fresh id hid).2.1,
            fun hm => (hk.fresh id hid).2.2 (List.mem_filter.mp hm).1⟩,
          fun id hid => hk.open_ id (List.mem_filter.mp hid).1, hk.own,
          fun id h hh ha hm => hk.accepted id h hh ha (List.mem_filter.mp hm).1, hk.ids⟩
      exact answerRunner_tells hk' taskId a
    · exact Or.inl (.of_sent rfl)
  · exact Or.inl (.of_sent rfl)

theorem messageSettled_tells {s : Broker} (hk : s.Keyed) (taskId : ℕ) (sent : Bool) :
    Tells s (s.messageSettled taskId sent) := by
  unfold messageSettled
  cases hg : s.handshakes.get? taskId with
  | none => exact Or.inl (.of_sent rfl)
  | some h =>
    obtain rfl := hk.own taskId h hg
    dsimp only
    split
    · rename_i hphase
      exact resumeRunner_tells hg (by simp [Handshake.accepting, hphase]) rfl rfl
    · exact Or.inl (.of_sent rfl)
    · exact Or.inl (resumeRequester_fails _ _)
    · exact Or.inl (cancelAndThrow_fails s h)
    · exact Or.inl (.of_sent rfl)
    · exact Or.inl (cancelAndThrow_fails s h)
    · exact Or.inl (cancelAndThrow_fails s h)
    all_goals exact Or.inl (.of_sent rfl)

theorem next_tells {s : Broker} (hk : s.Keyed) (e : Event) : Tells s (s.next e) := by
  cases e with
  | registerRunner runnerId => exact Or.inl (Sends.messageRunner (.of_sent (by rfl)) _ _)
  | deregisterRunner runnerId error => exact Or.inl (deregisterRunner_fails hk runnerId error)
  | registerRequester | deregisterRequester | clock => exact Or.inl (.of_sent rfl)
  | taskRequest requesterId requestId taskType => exact Or.inl (settleTasks_fails _)
  | taskOffer runnerId offerId taskType validFor =>
    simp only [next, fromRunner]
    split
    · exact Or.inl (settleTasks_fails _)
    · exact Or.inl (.of_sent rfl)
  | taskAccepted runnerId taskId => exact handleRunnerAnswer_tells hk runnerId taskId .accepted
  | taskRejected runnerId taskId reason => exact handleRunnerAnswer_tells hk runnerId taskId _
  | taskDeferred runnerId taskId => exact handleRunnerAnswer_tells hk runnerId taskId _
  | taskSettings taskId settings =>
    simp only [next, handleRequesterAccept]
    split
    · exact Or.inl (answerRequester_fails _ _ _)
    · exact Or.inl (.of_sent rfl)
  | taskCancel taskId reason =>
    simp only [next]
    cases hc : s.cancelTask taskId reason with
    | none => exact Or.inl (.of_sent rfl)
    | some s' => exact Or.inl (cancelTask_fails hc)
  | runnerAcceptTimeout taskId => exact answerRunner_tells hk taskId .timedOut
  | requesterAcceptTimeout taskId => exact Or.inl (answerRequester_fails _ _ _)
  | messageSettled taskId sent => exact messageSettled_tells hk taskId sent

/-! ### The names of the requests -/

/-- Requester and id of a request. -/
def nameOf (s : Broker) (request : ℕ) : String × String :=
  ((s.requests request).requesterId, (s.requests request).requestId)

/-- The requests that are there keep their names. -/
def KeepsNames (s s' : Broker) : Prop :=
  s.nextRequest ≤ s'.nextRequest ∧ ∀ r < s.nextRequest, s'.nameOf r = s.nameOf r

theorem KeepsNames.trans {s t u : Broker} (h₁ : KeepsNames s t) (h₂ : KeepsNames t u) :
    KeepsNames s u :=
  ⟨Nat.le_trans h₁.1 h₂.1,
    fun r hr => (h₂.2 r (Nat.lt_of_lt_of_le hr h₁.1)).trans (h₁.2 r hr)⟩

theorem keepsNames_of_update {s s' : Broker} (hcount : s'.nextRequest = s.nextRequest)
    {request : ℕ} {flag : Bool}
    (hobjects : s'.requests = Function.update s.requests request
      { s.requests request with acceptInProgress := flag }) : KeepsNames s s' := by
  refine ⟨Nat.le_of_eq hcount.symm, fun r _ => ?_⟩
  rw [nameOf, nameOf, hobjects]
  by_cases hr : r = request
  · rw [hr, Function.update_self]
  · rw [Function.update_of_ne hr]

theorem keepsNames_of_eq {s s' : Broker} (hcount : s'.nextRequest = s.nextRequest)
    (hobjects : s'.requests = s.requests) : KeepsNames s s' :=
  ⟨Nat.le_of_eq hcount.symm, fun r _ => by rw [nameOf, nameOf, hobjects]⟩

theorem settleTasks_keepsNames (s : Broker) : KeepsNames s s.settleTasks := by
  apply settleTasks_induction (P := KeepsNames s)
  · exact keepsNames_of_eq rfl rfl
  · intro t r _ ht
    rcases settleRequest_matches t r with he | hm
    · rw [he]
      exact ht
    · exact ht.trans (keepsNames_of_update hm.count hm.objects)

theorem asked_keepsNames (s : Broker) (requesterId requestId taskType : String) :
    KeepsNames s (s.asked requesterId requestId taskType) := by
  refine ⟨Nat.le_succ _, fun r hr => ?_⟩
  rw [nameOf, nameOf, asked]
  dsimp only
  rw [Function.update_of_ne (Nat.ne_of_lt hr)]

theorem next_keepsNames {s : Broker} (hk : s.Keyed) (e : Event) : KeepsNames s (s.next e) := by
  rcases next_outcome hk e with heff | ⟨t, -, -, ht, he⟩ | ⟨requesterId, requestId, taskType, -, he⟩
  · generalize s.returned e = p at heff
    cases heff with
    | steady hs => exact keepsNames_of_eq hs.count hs.objects
    | created h _ _ hs => exact keepsNames_of_eq hs.count hs.objects
    | givenBack h deferred _ _ hs => exact keepsNames_of_update hs.count hs.objects
  · rw [he]
    exact (keepsNames_of_eq ht.count ht.objects).trans (settleTasks_keepsNames t)
  · rw [he]
    exact (asked_keepsNames s _ _ _).trans (settleTasks_keepsNames _)

/-- The requests of one requester, in the order in which they came. -/
def asksOf (s : Broker) (requesterId : String) : List String :=
  (((List.range s.nextRequest).map s.nameOf).filter fun name => name.1 == requesterId).map Prod.snd

theorem asksOf_congr {s s' : Broker} (h : KeepsNames s s') (hcount : s'.nextRequest = s.nextRequest)
    (requesterId : String) : s'.asksOf requesterId = s.asksOf requesterId := by
  rw [asksOf, asksOf, hcount,
    List.map_congr_left fun r hr => h.2 r (List.mem_range.mp hr)]

theorem asksOf_asked (s : Broker) (requesterId requestId taskType asker : String) :
    (s.asked requesterId requestId taskType).asksOf asker =
      s.asksOf asker ++ if requesterId = asker then [requestId] else [] := by
  have hold : ∀ r ∈ List.range s.nextRequest,
      (s.asked requesterId requestId taskType).nameOf r = s.nameOf r :=
    fun r hr => (asked_keepsNames s _ _ _).2 r (List.mem_range.mp hr)
  have hnew : (s.asked requesterId requestId taskType).nameOf s.nextRequest =
      (requesterId, requestId) := by
    simp [nameOf, asked]
  rw [asksOf, show (s.asked requesterId requestId taskType).nextRequest = s.nextRequest + 1
    from rfl, List.range_succ, List.map_append, List.map_congr_left hold, List.map_singleton, hnew,
    List.filter_append, List.map_append, asksOf]
  congr 1
  by_cases hasker : requesterId = asker
  · simp [hasker]
  · simp [hasker]

def asksIn (requesterId : String) : Event → List String
  | .taskRequest asker requestId _ => if asker = requesterId then [requestId] else []
  | _ => []

theorem settleTasks_asksOf (s : Broker) (requesterId : String) :
    s.settleTasks.asksOf requesterId = s.asksOf requesterId :=
  asksOf_congr (settleTasks_keepsNames s) (settleTasks_settledFrom s).count requesterId

theorem next_asksOf {s : Broker} (hk : s.Keyed) (e : Event) (requesterId : String) :
    (s.next e).asksOf requesterId = s.asksOf requesterId ++ asksIn requesterId e := by
  cases hasks : e with
  | taskRequest asker requestId taskType =>
    change (s.asked asker requestId taskType).settleTasks.asksOf requesterId = _
    rw [settleTasks_asksOf, asksOf_asked]
    rfl
  | _ =>
    rw [← hasks]
    have hcount : (s.next e).nextRequest = s.nextRequest := by
      rcases next_outcome hk e with heff | ⟨t, -, -, ht, he⟩ | ⟨_, _, _, he, -⟩
      · generalize s.returned e = p at heff
        cases heff with
        | steady hs => exact hs.count
        | created h _ _ hs => exact hs.count
        | givenBack h deferred _ _ hs => exact hs.count
      · rw [he, (settleTasks_settledFrom t).count, ht.count]
      · rw [hasks] at he
        cases he
    have hnone : asksIn requesterId e = [] := by
      rw [hasks]
      rfl
    rw [asksOf_congr (next_keepsNames hk e) hcount, hnone, List.append_nil]

/-! ### What is told once -/

/-- The requests in `served` have been told to be ready, in this order and with tasks of
their own. -/
structure Told (s : Broker) (served : List ℕ) : Prop where
  claimed : Ledger.Claimed ⟨s, served⟩
  names : s.readies.map (fun ready => (ready.1, ready.2.1)) = served.map s.nameOf
  tasks : (s.readies.map fun ready => ready.2.2).Nodup
  ended : ∀ ready ∈ s.readies, ready.2.2 < s.nextTaskId ∧
    ∀ h, s.handshakes.get? ready.2.2 = some h → h.accepting = false

variable {s s' : Broker} {served : List ℕ}

theorem initial_told (now : ℤ) : (initial now).Told [] :=
  ⟨Ledger.start_claimed now, rfl, List.nodup_nil, by simp [readies, initial]⟩

theorem Told.keyed (h : s.Told served) : s.Keyed := h.claimed.keyed

/-- A task whose handshake still waits for the runner afterwards did so before, or is new. -/
def KeepsAnswers (s s' : Broker) : Prop :=
  s.nextTaskId ≤ s'.nextTaskId ∧ ∀ id < s.nextTaskId, ∀ h', s'.handshakes.get? id = some h' →
    h'.accepting = true → ∃ h, s.handshakes.get? id = some h ∧ h.accepting = true

theorem Steady.keepsAnswers (hs : s.Steady s') : KeepsAnswers s s' := by
  refine ⟨Nat.le_of_eq hs.ids.symm, fun id _ h' hg hacc => ?_⟩
  obtain ⟨h, hh, -, ha⟩ := hs.calls id h' hg
  exact ⟨h, hh, ha hacc⟩

theorem Creates.keepsAnswers {c : Handshake} (hs : s.Creates c s') : KeepsAnswers s s' := by
  refine ⟨Nat.le_of_eq hs.ids.symm, fun id _ h' hg hacc => ?_⟩
  rcases hs.calls id h' hg with ⟨-, hh⟩ | ⟨-, -, hn⟩
  · exact ⟨h', hh, hacc⟩
  · rw [hn] at hacc
    cases hacc

theorem GivesBack.keepsAnswers {c : Handshake} {deferred : Bool} (hs : s.GivesBack c deferred s') :
    KeepsAnswers s s' :=
  ⟨Nat.le_of_eq hs.ids.symm, fun id _ h' hg hacc => ⟨h', (hs.calls id h' hg).2, hacc⟩⟩

theorem KeepsAnswers.trans {t : Broker} (h₁ : KeepsAnswers s t) (h₂ : KeepsAnswers t s') :
    KeepsAnswers s s' := by
  refine ⟨Nat.le_trans h₁.1 h₂.1, fun id hid h' hg hacc => ?_⟩
  obtain ⟨h, hh, ha⟩ := h₂.2 id (Nat.lt_of_lt_of_le hid h₁.1) h' hg hacc
  exact h₁.2 id hid h hh ha

theorem settleTasks_keepsAnswers (s : Broker) : KeepsAnswers s s.settleTasks := by
  apply settleTasks_induction (P := KeepsAnswers s)
  · exact ⟨Nat.le_refl _, fun id _ h hg hacc => ⟨h, hg, hacc⟩⟩
  · intro t r _ ht
    rcases settleRequest_matches t r with he | hm
    · rw [he]
      exact ht
    · refine ht.trans ⟨Nat.le_of_lt (hm.ids ▸ Nat.lt_succ_self _), fun id hid h' hg hacc => ?_⟩
      rcases hm.calls id h' hg with hh | ⟨rfl, -⟩
      · exact ⟨h', hh, hacc⟩
      · exact absurd hid (Nat.lt_irrefl _)

theorem Told.ended_of_keepsAnswers (h : s.Told served) (hk : KeepsAnswers s s') :
    ∀ ready ∈ s.readies, ready.2.2 < s'.nextTaskId ∧
      ∀ h, s'.handshakes.get? ready.2.2 = some h → h.accepting = false := by
  intro ready hready
  obtain ⟨hlt, hno⟩ := h.ended ready hready
  refine ⟨Nat.lt_of_lt_of_le hlt hk.1, fun h' hg => ?_⟩
  by_contra hacc
  obtain ⟨h₀, hh, ha⟩ := hk.2 _ hlt h' hg (by simpa using hacc)
  rw [hno h₀ hh] at ha
  cases ha

/-- A step that tells nothing. -/
theorem Told.untold (h : s.Told served) (hc : Ledger.Claimed ⟨s', served⟩) (hu : Untold s s')
    (hn : KeepsNames s s') (hk : KeepsAnswers s s') : s'.Told served := by
  refine ⟨hc, ?_, ?_, ?_⟩
  · rw [hu.readies_eq, h.names]
    exact List.map_congr_left fun r hr => (hn.2 r (h.claimed.served r hr).2.1).symm
  · rw [hu.readies_eq]
    exact h.tasks
  · rw [hu.readies_eq]
    exact h.ended_of_keepsAnswers hk

theorem Told.givenUp (h : s.Told served) {request : ℕ}
    (hc : Ledger.Claimed ⟨s', served ++ [request]⟩) : Ledger.Claimed ⟨s', served⟩ :=
  ⟨hc.keyed, hc.pending, hc.calls, hc.unique, hc.untasked,
    fun r hr => hc.served r (List.mem_append_left _ hr), h.claimed.nodup⟩

/-- The handshake whose task has been created tells its request. -/
theorem Told.tells (h : s.Told served) {c : Handshake} (hg : s.handshakes.get? c.taskId = some c)
    (hacc : c.accepting = true) (hs : s.Creates c s') (hk : s'.Keyed) (ht : TellsOf s c s') :
    s'.Told (served ++ [c.request]) := by
  have hnames : KeepsNames s s' := keepsNames_of_eq hs.count hs.objects
  have hrequest := (h.claimed.calls _ c hg).2
  refine ⟨h.claimed.creates hg hacc hs hk, ?_, ?_, ?_⟩
  · rw [ht.readies_eq, List.map_append, List.map_append, h.names]
    refine congrArg₂ (· ++ ·) (List.map_congr_left fun r hr => ?_) ?_
    · exact (hnames.2 r (h.claimed.served r hr).2.1).symm
    · rw [List.map_singleton, List.map_singleton, hnames.2 _ hrequest]
      rfl
  · rw [ht.readies_eq, List.map_append]
    refine List.nodup_append.mpr ⟨h.tasks, List.nodup_singleton _, fun id hid id' hid' heq => ?_⟩
    obtain ⟨ready, hready, rfl⟩ := List.mem_map.mp hid
    obtain rfl := List.mem_singleton.mp hid'
    rw [(h.ended ready hready).2 c (by rw [heq]; exact hg)] at hacc
    cases hacc
  · rw [ht.readies_eq]
    intro ready hready
    rcases List.mem_append.mp hready with hready | hready
    · exact h.ended_of_keepsAnswers hs.keepsAnswers ready hready
    · obtain rfl := List.mem_singleton.mp hready
      refine ⟨hs.ids ▸ h.keyed.lt hg, fun h' hg' => ?_⟩
      rcases hs.calls _ h' hg' with ⟨hne, -⟩ | ⟨-, -, hn⟩
      · exact absurd rfl hne
      · exact hn

/-- A step that tells nothing, by its effect. -/
theorem Told.next_untold (h : s.Told served) (e : Event) (hu : Untold s (s.next e)) :
    (s.next e).Told served := by
  have hk := h.keyed.next e
  have hnames := next_keepsNames h.keyed e
  rcases next_outcome h.keyed e with heff | ⟨t, -, hkt, ht, he⟩ | ⟨_, _, _, -, he⟩
  · generalize s.returned e = p at heff
    cases heff with
    | steady hs => exact h.untold (h.claimed.steady hs hk) hu hnames hs.keepsAnswers
    | created c hg hacc hs =>
      exact h.untold (h.givenUp (h.claimed.creates hg hacc hs hk)) hu hnames hs.keepsAnswers
    | givenBack c deferred hg hacc hs =>
      exact h.untold (h.claimed.givesBack hg hacc hs hk) hu hnames hs.keepsAnswers
  · rw [he] at hu hnames ⊢
    exact h.untold (h.claimed.steady ht hkt).settleTasks hu hnames
      (ht.keepsAnswers.trans (settleTasks_keepsAnswers t))
  · rw [he] at hu hnames ⊢
    exact h.untold (h.claimed.asked _ _ _).settleTasks hu hnames
      (settleTasks_keepsAnswers (s.asked _ _ _))

/-- A step after which a task is there that was not there before is that of its handshake. -/
theorem next_creates {e : Event} (hk : s.Keyed) {c : Handshake}
    (hg : s.handshakes.get? c.taskId = some c) (hnone : s.tasks.get? c.taskId = none)
    (htask : (s.next e).tasks.get? c.taskId ≠ none) : s.Creates c (s.next e) := by
  rcases next_outcome hk e with heff | ⟨t, -, -, ht, he⟩ | ⟨_, _, _, -, he⟩
  · generalize s.returned e = p at heff
    cases heff with
    | steady hs => exact absurd (hs.tasks _ hnone) htask
    | created c' hg' _ hs =>
      by_cases hid : c'.taskId = c.taskId
      · rw [hid, hg] at hg'
        obtain rfl := Option.some.inj hg'
        exact hs
      · rw [hs.tasks, OrderedMap.get?_set_of_ne hid] at htask
        exact absurd hnone htask
    | givenBack c' deferred _ _ hs =>
      rw [hs.tasks] at htask
      exact absurd hnone htask
  · rw [he, (settleTasks_settledFrom t).tasks] at htask
    exact absurd (ht.tasks _ hnone) htask
  · rw [he, (settleTasks_settledFrom _).tasks] at htask
    exact absurd hnone htask

theorem Told.next (h : s.Told served) (e : Event) : ∃ served', (s.next e).Told served' := by
  rcases next_tells h.keyed e with hfails | ⟨c, hg, hacc, htold⟩
  · exact ⟨served, h.next_untold e hfails.untold⟩
  · have hs := next_creates h.keyed hg (h.claimed.untasked _ c hg hacc) htold.1
    exact ⟨_, h.tells hg hacc hs (h.keyed.next e) htold⟩

/-- The requests of one requester are told once each. -/
theorem Told.nodup_requests (h : s.Told served) {requesterId : String}
    (hasks : (s.asksOf requesterId).Nodup) :
    ((s.readies.filter fun ready => ready.1 == requesterId).map fun ready => ready.2.1).Nodup := by
  have hle : served.Subperm (List.range s.nextRequest) :=
    List.subperm_of_subset h.claimed.nodup
      fun r hr => List.mem_range.mpr (h.claimed.served r hr).2.1
  have hnames : (s.readies.filter fun ready => ready.1 == requesterId).map
      (fun ready => ready.2.1) =
      ((served.map s.nameOf).filter fun name => name.1 == requesterId).map Prod.snd := by
    rw [← h.names, List.filter_map, List.map_map]
    rfl
  rw [hnames]
  obtain ⟨requests, hperm, hsub⟩ := hle
  have hrequests : (((requests.map s.nameOf).filter fun name => name.1 == requesterId).map
      Prod.snd).Sublist (s.asksOf requesterId) := ((hsub.map _).filter _).map _
  exact (((hperm.map _).filter _).map _).nodup_iff.mp (hasks.sublist hrequests)

theorem Told.mem_asksOf (h : s.Told served) {requesterId requestId : String} {taskId : ℕ}
    (hready : (requesterId, requestId, taskId) ∈ s.readies) : requestId ∈ s.asksOf requesterId := by
  have hname : (requesterId, requestId) ∈ served.map s.nameOf :=
    h.names ▸ List.mem_map.mpr ⟨_, hready, rfl⟩
  obtain ⟨r, hr, hname⟩ := List.mem_map.mp hname
  refine List.mem_map.mpr ⟨(requesterId, requestId), List.mem_filter.mpr ⟨?_, by simp⟩, rfl⟩
  exact hname ▸ List.mem_map_of_mem (List.mem_range.mpr (h.claimed.served r hr).2.1)

end Broker

/-! ### Events that the broker does not handle alone -/

namespace Relay
open Broker (Sends Fails)

variable {P : ToRequester → Prop}

theorem clearTimeout_sends (s : Broker) (taskId : ℕ) : Sends P s (s.clearTimeout taskId) := by
  obtain ⟨tasks, he⟩ := clearTimeout_eq s taskId
  rw [he]
  exact .of_sent rfl

theorem passToRequester_sends (s : Broker) (taskId : ℕ) {m : ToRequester} (hm : P m) :
    Sends P s (s.passToRequester taskId m) := by
  unfold Broker.passToRequester
  split
  · exact .refl s
  · exact Sends.messageRequester (.refl s) _ hm

theorem passToRunner_fails (s : Broker) (taskId : ℕ) (m : ToRunner) :
    Fails s (s.passToRunner taskId m).1 := by
  unfold Broker.passToRunner
  split
  · rename_i heq
    unfold Broker.getRunnerOrFailTask at heq
    split at heq
    · obtain ⟨rfl, -⟩ := Prod.mk.inj heq
      exact .refl s
    · split at heq
      · cases heq
      · obtain ⟨rfl, -⟩ := Prod.mk.inj heq
        exact Broker.failTask_fails _ _ _
  · rename_i heq
    unfold Broker.getRunnerOrFailTask at heq
    split at heq
    · cases heq
    · split at heq
      · obtain ⟨rfl, -⟩ := Prod.mk.inj heq
        exact Sends.messageRunner (.of_sent (by rfl)) _ _
      · cases heq

variable {s : Relay} {served : List ℕ}

theorem finishTask_sends (s : Relay) (taskId : ℕ) {m : ℕ → ToRequester}
    (hm : ∀ task, s.broker.tasks.get? taskId = some task → P (m task.id)) :
    Sends P s.broker (s.finishTask taskId m).broker := by
  unfold finishTask
  split
  · exact .refl _
  · rename_i task htask
    have hclear : Sends P s.broker (s.broker.clearTimeout taskId) := clearTimeout_sends _ _
    dsimp only
    split
    · exact hclear.messageRequester _ (hm task htask)
    · exact hclear

theorem taskErrorHandler_fails (s : Relay) (taskId : ℕ) (error : String) :
    Fails s.broker (s.taskErrorHandler taskId error).broker :=
  finishTask_sends s taskId fun _ _ => rfl

theorem handleTaskTimeout_fails (s : Relay) (taskId : ℕ) :
    Fails s.broker (s.handleTaskTimeout taskId).broker := by
  unfold handleTaskTimeout
  split
  · exact .refl _
  · split
    · exact taskErrorHandler_fails { s with timedOutDuringTask := s.timedOutDuringTask + 1 } _ _
    · split
      · exact Sends.messageRunner (.of_sent (by rfl)) _ _
      · exact taskErrorHandler_fails s _ _

/-- What an event lets the broker send to requesters: a request is ready by an event of the
broker alone, and a result is the one that a runner has sent. -/
def Said (s : Relay) (e : RelayEvent) : ToRequester → Prop
  | .taskReady _ _ => e.own? ≠ none
  | .taskDone taskId data =>
    ∃ runnerId ∈ s.broker.knownRunners, e = .fromRunner runnerId (.taskDone taskId data)
  | _ => True

theorem said_of_fails {e : RelayEvent} {m : ToRequester} (hm : m.fails = true) : s.Said e m := by
  cases m with
  | taskError => trivial
  | _ => cases hm

theorem next_said_of_handled (hk : s.broker.Keyed) {e : RelayEvent} (h : e.own? = none) :
    Sends (s.Said e) s.broker (s.next e).broker := by
  cases e with
  | fromRunner runnerId m =>
    simp only [next, onRunnerMessage]
    split
    · rename_i hknown
      cases m with
      | taskAccepted | taskRejected | taskDeferred | taskOffer => cases h
      | taskDone taskId data =>
        refine finishTask_sends s taskId fun task htask => ?_
        rw [hk.ids taskId task htask]
        exact ⟨runnerId, hknown, rfl⟩
      | taskError => exact finishTask_sends s _ fun _ _ => trivial
      | taskDataRequest | nodeTypesRequest | rpc => exact passToRequester_sends _ _ trivial
      | info => exact .refl _
    · exact .refl _
  | fromRequester requesterId m =>
    cases m with
    | taskSettings | taskCancel | taskRequest => cases h
    | taskDataResponse | nodeTypesResponse | rpcResponse =>
      exact (passToRunner_fails _ _ _).mono fun _ => said_of_fails
  | taskTimeout taskId =>
    refine Sends.mono ?_ fun _ => said_of_fails
    simp only [next, taskTimerFires]
    split
    · exact .refl _
    · split
      · exact (clearTimeout_sends s.broker taskId).trans
          (handleTaskTimeout_fails (s.onBroker (·.clearTimeout taskId)) taskId)
      · exact .refl _
  | callSettled callId sent =>
    refine Sends.mono ?_ fun _ => said_of_fails
    simp only [next, callSettled]
    split
    · exact .refl _
    · split
      · exact .of_sent rfl
      · exact .refl _
      · exact taskErrorHandler_fails { s with calls := s.calls.delete callId } _ _
      · exact .refl _
      · exact .refl _
  | registerRunner | deregisterRunner | registerRequester | deregisterRequester
  | runnerAcceptTimeout | requesterAcceptTimeout | messageSettled | clock => cases h

theorem next_said (hk : s.broker.Keyed) (e : RelayEvent) :
    Sends (s.Said e) s.broker (s.next e).broker := by
  cases he : e.own? with
  | none => exact next_said_of_handled hk he
  | some own =>
    rw [next_own he]
    rcases Broker.next_tells hk own with hfails | ⟨c, -, -, -, hnew⟩
    · exact hfails.mono fun _ => said_of_fails
    · exact ⟨_, hnew, by simp [Said, he]⟩

theorem next_untold (hk : s.broker.Keyed) {e : RelayEvent} (h : e.own? = none) :
    Broker.Untold s.broker (s.next e).broker := by
  refine (next_said hk e).mono fun m hm => ?_
  cases m with
  | taskReady => exact absurd h hm
  | _ => rfl

/-- What the handlers of tasks do tells nothing. -/
theorem next_told (hn : s.Numbered) (h : s.broker.Told served) (e : RelayEvent) :
    ∃ served', (s.next e).broker.Told served' := by
  cases he : e.own? with
  | some own =>
    rw [next_own he]
    exact h.next own
  | none =>
    have hl := next_leaves (s := s) he
    have ht := (next_handles hn h.keyed he).1
    refine ⟨served, h.untold (h.claimed.leaves hl (ht.keyed h.keyed)) (next_untold h.keyed he)
      (Broker.keepsNames_of_eq hl.count hl.objects)
      ⟨Nat.le_of_eq ht.ids.symm, fun id _ c hg hacc => ⟨c, ?_, hacc⟩⟩⟩
    rw [← hl.handshakes]
    exact hg

/-- The requests of a requester, with the one that the event brings. -/
theorem next_asksOf (hk : s.broker.Keyed) (e : RelayEvent) (requesterId : String) :
    (s.next e).broker.asksOf requesterId =
      s.broker.asksOf requesterId ++ (e.own?.map (Broker.asksIn requesterId)).getD [] := by
  cases he : e.own? with
  | some own =>
    rw [next_own he]
    exact Broker.next_asksOf hk own requesterId
  | none =>
    have hl := next_leaves (s := s) he
    rw [Option.map_none, Option.getD_none, List.append_nil]
    exact Broker.asksOf_congr (Broker.keepsNames_of_eq hl.count hl.objects) hl.count requesterId

end Relay
end N8n.TaskBroker
