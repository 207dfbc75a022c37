import N8n.TaskBroker.Grip

/-!
# What a step makes of each task

The broker's side of the agreement about tasks: how a step changes what the
broker has of a task, by what was sent to the runner and what came from it. It is
what the lifecycle of a task is at the runner.
-/

namespace N8n.TaskBroker

def Call.taskId : Call → ℕ
  | .answering taskId => taskId
  | .timingOut taskId => taskId
  | .failed taskId => taskId

namespace RelayEvent

def accepts (t : ℕ) : RelayEvent → Bool
  | .fromRunner _ (.taskAccepted taskId) => taskId == t
  | _ => false

/-- The runner refuses the task, or its time to answer is up. -/
def refuses (t : ℕ) : RelayEvent → Bool
  | .fromRunner _ (.taskRejected taskId _) => taskId == t
  | .fromRunner _ (.taskDeferred taskId) => taskId == t
  | .runnerAcceptTimeout taskId => taskId == t
  | _ => false

/-- The runner has ended the task. -/
def ends (t : ℕ) : RelayEvent → Bool
  | .fromRunner _ m => m.endsTask && decide (m.taskId? = some t)
  | _ => false

end RelayEvent

/-- `settled` says that the task has its settings, or that it is being ended. -/
inductive Turn (t : ℕ) (e : RelayEvent) (new : List ToRunner) (settled : Prop) : Grip → Grip → Prop
  | stay {g : Grip} (h : g = .asking → e.accepts t = false) : Turn t e new settled g g
  | asked : Turn t e new settled .loose .asking
  | accepted {g : Grip} (he : e.accepts t = true) (hg : g = .granted ∨ g = .held) :
      Turn t e new settled .asking g
  | refused (he : e.refuses t = true) : Turn t e new settled .asking .loose
  | created : Turn t e new settled .granted .held
  | letGo {g : Grip} (h : settled ∨ e.ends t = true ∨ ∃ m ∈ new, m.movesOn t = true) :
      Turn t e new settled .held g

namespace Relay

def Settled (s : Relay) (t : ℕ) : Prop :=
  (∃ task, s.broker.tasks.get? t = some task ∧ task.timeout = true) ∨
    ∃ id c, s.calls.get? id = some c ∧ c.taskId = t

/-- What a step has sent to the runner, and what it makes of each task. -/
structure Turns (runnerId : String) (e : RelayEvent) (new : List ToRunner) (s s' : Relay) :
    Prop where
  serves : s'.broker.Serves runnerId
  sent : s'.broker.sentToRunners = s.broker.sentToRunners ++ new.map fun m => (runnerId, m)
  ids : s.broker.nextTaskId ≤ s'.broker.nextTaskId
  offered : ∀ t ∈ new.filterMap ToRunner.offeredTask?,
    s.broker.nextTaskId ≤ t ∧ t < s'.broker.nextTaskId
  distinct : (new.filterMap ToRunner.offeredTask?).Nodup
  turn : ∀ t, Turn t e new (s.Settled t) (s.broker.grip t) (s'.broker.grip t)
  settled : ∀ t, s'.Settled t → s.Settled t ∨ e.ends t = true ∨
    s.broker.grip t = .held ∧ ∃ m ∈ new, m.movesOn t = true

section
variable {runnerId : String} {e : RelayEvent} {s u s' : Relay} {t : ℕ} {new new' : List ToRunner}

/-- A step that concerns one task. -/
theorem Turns.only (ho : Broker.Only runnerId t new s.broker s'.broker)
    (hserves : s'.broker.Serves runnerId) (he : ∀ t' ≠ t, e.accepts t' = false)
    (hcalls : ∀ id c, s'.calls.get? id = some c → s.calls.get? id = some c ∨ c.taskId = t)
    (hturn : Turn t e new (s.Settled t) (s.broker.grip t) (s'.broker.grip t))
    (hsettled : s'.Settled t → s.Settled t ∨ e.ends t = true ∨
      s.broker.grip t = .held ∧ ∃ m ∈ new, m.movesOn t = true) : Turns runnerId e new s s' := by
  have hnone : new.filterMap ToRunner.offeredTask? = [] :=
    List.filterMap_eq_nil_iff.mpr ho.unoffered
  refine ⟨hserves, ho.sent, Nat.le_of_eq ho.ids.symm, by rw [hnone]; exact nofun,
    by rw [hnone]; exact List.nodup_nil, fun t' => ?_, fun t' hs' => ?_⟩
  · by_cases ht : t' = t
    · exact ht ▸ hturn
    · rw [Broker.grip_congr (ho.tasks t' ht) (ho.calls t' ht)]
      exact .stay fun _ => he t' ht
  · by_cases ht : t' = t
    · subst ht
      exact hsettled hs'
    · refine Or.inl (hs'.imp (fun ⟨task, htask, hto⟩ => ?_) fun ⟨id, c, hc, hid⟩ => ?_)
      · exact ⟨task, (ho.tasks t' ht).symm.trans htask, hto⟩
      · exact ⟨id, c, (hcalls id c hc).resolve_right fun h => ht (hid.symm.trans h), hid⟩

/-- A step of the broker that leaves the tasks and the handshakes alone. -/
theorem Turns.still (hs : s.broker.Serves runnerId) {b : Broker} (hk : b.Keyed)
    (ho : Broker.Only runnerId t new s.broker b) (he : ∀ t', e.accepts t' = false)
    (htask : b.tasks.get? t = s.broker.tasks.get? t)
    (hcall : b.handshakes.get? t = s.broker.handshakes.get? t)
    (hrejects : b.runnerAcceptRejects = s.broker.runnerAcceptRejects) :
    Turns runnerId e new s (s.onBroker fun _ => b) := by
  have hserves : b.Serves runnerId := hs.only ho hk (fun task h => hs.tasks t task (htask ▸ h))
    (fun h hh => hs.calls t h (hcall ▸ hh))
    fun h hh hn => hrejects ▸ hs.asked t h (hcall ▸ hh) hn
  refine .only ho hserves (fun t' _ => he t') (fun _ _ h => Or.inl h) ?_ fun hs' => Or.inl ?_
  · dsimp only [onBroker]
    rw [Broker.grip_congr htask hcall]
    exact .stay fun _ => he t
  · exact hs'.imp_left fun ⟨task, ht, hto⟩ => ⟨task, htask ▸ ht, hto⟩

theorem Turns.refl (hs : s.broker.Serves runnerId) (he : ∀ t', e.accepts t' = false) :
    Turns runnerId e [] s s :=
  Turns.still (t := 0) hs hs.keyed (.refl s.broker) he rfl rfl rfl

theorem Turns.onward (hs : s.broker.Serves runnerId) {b : Broker} (hk : b.Keyed)
    (ho : Broker.Onward runnerId t new s.broker b) (he : ∀ t', e.accepts t' = false) :
    Turns runnerId e new s (s.onBroker fun _ => b) := by
  refine .only ho.only (hs.onward ho hk) (fun t' _ => he t') (fun _ _ h => Or.inl h) ?_ ?_
  · rcases ho.grip hs with hg | ⟨hg, hm⟩
    · dsimp only [onBroker]
      rw [hg]
      exact .stay fun _ => he t
    · rw [hg]
      exact .letGo (Or.inr (Or.inr hm))
  · rintro (⟨task, htask, hto⟩ | hc)
    · have hturn := ho.turn
      change b.tasks.get? t = some task at htask
      rw [htask] at hturn
      generalize hb : s.broker.tasks.get? t = before at hturn
      cases hturn with
      | stay => exact Or.inl (Or.inl ⟨task, hb, hto⟩)
      | settings task' settings =>
        exact Or.inr (Or.inr ⟨Broker.grip_of_task hb, _, List.mem_singleton_self _,
          by simp [ToRunner.movesOn]⟩)
    · exact Or.inl (Or.inr hc)

theorem Turns.heard (hs : s.broker.Serves runnerId) {b : Broker} (hk : b.Keyed)
    (hh : Broker.Heard runnerId t s.broker b) (he : ∀ t' ≠ t, e.accepts t' = false)
    (hturn : Turn t e [] (s.Settled t) (s.broker.grip t) (b.grip t)) :
    Turns runnerId e [] s (s.onBroker fun _ => b) := by
  refine .only hh.only (hs.heard hh hk) he (fun _ _ h => Or.inl h) hturn ?_
  rintro (⟨task, htask, hto⟩ | hc)
  · change b.tasks.get? t = some task at htask
    rcases hh.task with hsame | ⟨task', htask', _, hnew⟩
    · exact Or.inl (Or.inl ⟨task, hsame ▸ htask, hto⟩)
    · obtain rfl := Option.some.inj (htask'.symm.trans htask)
      rw [hnew] at hto
      cases hto
  · exact Or.inl (Or.inr hc)

theorem Turns.asks {b : Broker} (ha : Broker.Asks runnerId new s.broker b)
    (he : ∀ t', e.accepts t' = false) : Turns runnerId e new s (s.onBroker fun _ => b) := by
  refine ⟨ha.serves, ha.sent, ha.ids, ha.offered, ha.distinct, fun t => ?_, fun t hs' => Or.inl ?_⟩
  · have htask : b.tasks.get? t = s.broker.tasks.get? t := by rw [ha.tasks]
    rcases ha.calls t with hc | ⟨hn, hasking⟩
    · dsimp only [onBroker]
      rw [Broker.grip_congr htask hc]
      exact .stay fun _ => he t
    · have hloose : s.broker.grip t = .loose := by
        obtain ⟨c, hc, hcn⟩ := ha.serves.asking_iff.mp hasking
        rw [Broker.grip_of_none (htask ▸ ha.serves.tasks_of_asking hc hcn), hn]
        rfl
      dsimp only [onBroker]
      rw [hasking, hloose]
      exact .asked
  · exact hs'.imp_left fun ⟨task, ht, hto⟩ => ⟨task, ha.tasks ▸ ht, hto⟩

/-! ### Tasks that end -/

/-- On the way of a handler that ends the task. -/
structure Ending (runnerId : String) (t : ℕ) (new : List ToRunner) (s s' : Relay) : Prop where
  only : Broker.Only runnerId t new s.broker s'.broker
  handshakes : s'.broker.handshakes = s.broker.handshakes
  rejects : s'.broker.runnerAcceptRejects = s.broker.runnerAcceptRejects
  calls : ∀ id c, s'.calls.get? id = some c → s.calls.get? id = some c ∨ c.taskId = t
  task : ∀ task', s'.broker.tasks.get? t = some task' → ∃ task, s.broker.tasks.get? t = some task ∧
    task'.id = task.id ∧ task'.runnerId = task.runnerId

theorem Ending.refl (s : Relay) : Ending runnerId t [] s s :=
  ⟨.refl _, rfl, rfl, fun _ _ h => Or.inl h, fun task h => ⟨task, h, rfl, rfl⟩⟩

theorem Ending.trans (h : Ending runnerId t new s u) (h' : Ending runnerId t new' u s') :
    Ending runnerId t (new ++ new') s s' := by
  refine ⟨h.only.trans h'.only, h'.handshakes.trans h.handshakes, h'.rejects.trans h.rejects,
    fun id c hc => ?_, fun task'' hs' => ?_⟩
  · rcases h'.calls id c hc with hc | hc
    · exact h.calls id c hc
    · exact Or.inr hc
  · obtain ⟨task', hu, hid', hr'⟩ := h'.task task'' hs'
    obtain ⟨task, hs, hid, hr⟩ := h.task task' hu
    exact ⟨task, hs, hid'.trans hid, hr'.trans hr⟩

theorem Ending.ids (h : Ending runnerId t new s u) (hs : s.broker.Serves runnerId) {task : Task}
    (ht : u.broker.tasks.get? t = some task) : task.id = t := by
  obtain ⟨task₀, ht₀, hid, _⟩ := h.task task ht
  exact hid.trans (hs.keyed.ids t task₀ ht₀)

theorem Turns.ending (hs : s.broker.Serves runnerId) (hk : s'.broker.Keyed)
    (h : Ending runnerId t new s s') (he : ∀ t', e.accepts t' = false)
    (hends : s.Settled t ∨ e.ends t = true) : Turns runnerId e new s s' := by
  have hcall : ∀ id, s'.broker.handshakes.get? id = s.broker.handshakes.get? id := fun id => by
    rw [h.handshakes]
  have hserves : s'.broker.Serves runnerId := by
    refine hs.only h.only hk (fun task' ht' => ?_) (fun c hc => hs.calls t c (hcall t ▸ hc))
      fun c hc hn => h.rejects ▸ hs.asked t c (hcall t ▸ hc) hn
    obtain ⟨task, ht, _, hr⟩ := h.task task' ht'
    exact hr.trans (hs.tasks t task ht)
  refine .only h.only hserves (fun t' _ => he t') h.calls ?_ fun _ => ?_
  · cases ht : s.broker.tasks.get? t with
    | none =>
      have ht' : s'.broker.tasks.get? t = none := by
        refine Option.eq_none_iff_forall_ne_some.mpr fun task' ht' => ?_
        obtain ⟨task, hsome, _⟩ := h.task task' ht'
        rw [ht] at hsome
        cases hsome
      rw [Broker.grip_congr (ht'.trans ht.symm) (hcall t)]
      exact .stay fun _ => he t
    | some task =>
      rw [Broker.grip_of_task ht]
      exact .letGo (hends.imp_right Or.inl)
  · exact hends.imp_right Or.inl

theorem clearTimeout_ending (s : Relay) (t : ℕ) :
    Ending runnerId t [] s (s.onBroker (·.clearTimeout t)) := by
  have hget := clearTimeout_get? s.broker t
  obtain ⟨tasks, he⟩ := clearTimeout_eq s.broker t
  rw [he] at hget
  dsimp only [onBroker]
  rw [he]
  refine ⟨⟨rfl, rfl, rfl, fun id hne => ?_, fun _ _ => rfl, fun _ _ h => h,
    (List.append_nil _).symm, nofun⟩, rfl, rfl, fun _ _ h => Or.inl h, fun task' ht' => ?_⟩
  · simpa [hne] using hget id
  · simp only [hget, if_true, Option.map_eq_some_iff] at ht'
    obtain ⟨task, ht, rfl⟩ := ht'
    exact ⟨task, ht, rfl, rfl⟩

theorem deleteTask_ending (s : Relay) (t : ℕ) :
    Ending runnerId t [] s (s.onBroker fun b => { b with tasks := b.tasks.delete t }) := by
  refine ⟨⟨rfl, rfl, rfl, fun id hne => OrderedMap.get?_delete_of_ne (Ne.symm hne), fun _ _ => rfl,
    fun _ _ h => h, (List.append_nil _).symm, nofun⟩, rfl, rfl, fun _ _ h => Or.inl h,
    fun task ht => ?_⟩
  rw [onBroker, OrderedMap.get?_delete_self] at ht
  cases ht

theorem messageRequester_ending (s : Relay) (requesterId : String) (m : ToRequester) :
    Ending runnerId t [] s (s.onBroker (·.messageRequester requesterId m)) := by
  obtain ⟨sent, he⟩ := Broker.messageRequester_eq s.broker requesterId m
  dsimp only [onBroker]
  rw [he]
  exact ⟨.of_same rfl rfl rfl rfl rfl rfl (List.append_nil _).symm nofun, rfl, rfl,
    fun _ _ h => Or.inl h, fun task ht => ⟨task, ht, rfl, rfl⟩⟩

theorem withCalls_ending (s : Relay) {calls : OrderedMap ℕ Call} (nextCall : ℕ)
    (h : ∀ id c, calls.get? id = some c → s.calls.get? id = some c ∨ c.taskId = t) :
    Ending runnerId t [] s { s with calls := calls, nextCall := nextCall } :=
  ⟨.refl _, rfl, rfl, h, fun task ht => ⟨task, ht, rfl, rfl⟩⟩

theorem startCall_ending (s : Relay) {c : Call} (hc : c.taskId = t) :
    Ending runnerId t [] s (s.startCall c) := by
  refine withCalls_ending s _ fun id c' hc' => ?_
  rw [OrderedMap.get?_set] at hc'
  split at hc'
  · exact Or.inr (Option.some.inj hc' ▸ hc)
  · exact Or.inl hc'

theorem finishTask_ending (hid : ∀ task, s.broker.tasks.get? t = some task → task.id = t)
    (m : ℕ → ToRequester) : Ending runnerId t [] s (s.finishTask t m) := by
  unfold finishTask
  split
  · exact .refl s
  · rename_i task ht
    have hclear : Ending runnerId t [] s (s.onBroker (·.clearTimeout t)) := clearTimeout_ending s t
    dsimp only
    rw [hid task ht]
    split
    · exact (hclear.trans (messageRequester_ending _ task.requesterId (m t))).trans
        (startCall_ending _ rfl)
    · exact hclear.trans (deleteTask_ending _ t)

theorem messageRunner_ending {s : Relay} (hknown : s.broker.knownRunners = [runnerId])
    {runnerId' : String} (hid : runnerId' = runnerId) {m : ToRunner} (hm : m.offeredTask? = none) :
    Ending runnerId t [m] s (s.onBroker (·.messageRunner runnerId' m)) := by
  dsimp only [onBroker]
  rw [Broker.messageRunner_sent_eq hknown hid]
  exact ⟨.of_same rfl rfl rfl rfl rfl rfl rfl fun m' hm' => List.mem_singleton.mp hm' ▸ hm, rfl,
    rfl, fun _ _ h => Or.inl h, fun task ht => ⟨task, ht, rfl, rfl⟩⟩

theorem Ending.handleTaskTimeout (h : Ending runnerId t new s u) (hs : s.broker.Serves runnerId) :
    ∃ new', Ending runnerId t new' s (u.handleTaskTimeout t) := by
  have hfinish : ∀ {v : Relay} {new : List ToRunner}, Ending runnerId t new s v → ∀ m,
      ∃ new', Ending runnerId t new' s (v.finishTask t m) := fun hv m =>
    ⟨_, hv.trans (finishTask_ending (fun _ ht => hv.ids hs ht) m)⟩
  have hknown : u.broker.knownRunners = [runnerId] := h.only.known.trans hs.known
  unfold Relay.handleTaskTimeout
  split
  · exact ⟨new, h⟩
  · rename_i task ht
    split
    · have hcounted : Ending runnerId t new s
          { u with timedOutDuringTask := u.timedOutDuringTask + 1 } :=
        ⟨h.only, h.handshakes, h.rejects, h.calls, h.task⟩
      exact hfinish hcounted _
    split
    · obtain ⟨task₀, ht₀, _, hr⟩ := h.task task ht
      have hrunner : task.runnerId = runnerId := hr.trans (hs.tasks t task₀ ht₀)
      exact ⟨_, (h.trans (messageRunner_ending hknown hrunner rfl)).trans (startCall_ending _ rfl)⟩
    · exact hfinish h _

theorem taskTimerFires_turns (hs : s.broker.Serves runnerId) (hk : (s.taskTimerFires t).broker.Keyed)
    (he : ∀ t', e.accepts t' = false) : ∃ new, Turns runnerId e new s (s.taskTimerFires t) := by
  unfold taskTimerFires at hk ⊢
  split at hk
  · exact ⟨[], .refl hs he⟩
  · rename_i task ht
    split at hk
    · rename_i hto
      obtain ⟨new, h⟩ := (clearTimeout_ending s t).handleTaskTimeout hs
      simp only [hto, if_true]
      exact ⟨new, .ending hs hk h he (Or.inl (Or.inl ⟨task, ht, hto⟩))⟩
    · rename_i hto
      simp only [hto]
      exact ⟨[], .refl hs he⟩

theorem callSettled_turns (hs : s.broker.Serves runnerId) {callId : ℕ} {sent : Bool}
    (hk : (s.callSettled callId sent).broker.Keyed) (he : ∀ t', e.accepts t' = false) :
    ∃ new, Turns runnerId e new s (s.callSettled callId sent) := by
  have hdelete : ∀ t, Ending runnerId t [] s { s with calls := s.calls.delete callId } := by
    refine fun t => withCalls_ending s s.nextCall fun id c hc => Or.inl ?_
    rw [OrderedMap.get?_delete] at hc
    split at hc
    · cases hc
    · exact hc
  unfold callSettled at hk ⊢
  split at hk
  · exact ⟨[], .refl hs he⟩
  · rename_i c hc
    have hends : s.Settled c.taskId ∨ e.ends c.taskId = true := Or.inl (Or.inr ⟨callId, c, hc, rfl⟩)
    cases c with
    | answering t =>
      cases sent with
      | true => exact ⟨_, .ending hs hk ((hdelete t).trans (deleteTask_ending _ t)) he hends⟩
      | false =>
        refine ⟨_, .ending (t := t) hs hk (withCalls_ending s s.nextCall fun id c hc' => ?_) he hends⟩
        rw [OrderedMap.get?_set] at hc'
        split at hc'
        · exact Or.inr (Option.some.inj hc' ▸ rfl)
        · exact Or.inl hc'
    | timingOut t =>
      cases sent with
      | true =>
        refine ⟨_, .ending hs hk ((hdelete t).trans (finishTask_ending (fun task ht => ?_) _)) he hends⟩
        exact hs.keyed.ids t task ht
      | false => exact ⟨_, .ending hs hk (hdelete t) he hends⟩
    | failed t => exact ⟨[], .refl hs he⟩

/-! ### Every event -/

/-- The events while the runner stays connected. Only messages to requesters can fail. -/
def connected (runnerId : String) (s : Relay) : RelayEvent → Bool
  | .fromRunner id _ => id == runnerId
  | .registerRunner _ => false
  | .deregisterRunner _ _ => false
  | .messageSettled taskId false =>
    (s.broker.handshakes.get? taskId).all fun h => h.phase == .readying || h.phase == .failing
  | _ => true

/-- The turn of the task that the runner, or the end of its time, answers to. -/
theorem turn_of_answer (hs : s.broker.Serves runnerId) {b : Broker} {a : RunnerAnswer}
    (hstill : s.broker.grip t ≠ .asking → b.grip t = s.broker.grip t)
    (hasked : s.broker.grip t = .asking → b.grip t = .granted ∧ a = .accepted ∨
      b.grip t = s.broker.gripOn t a)
    (haccepts : a = .accepted → e.accepts t = true)
    (hrefuses : a ≠ .accepted → e.refuses t = true) :
    Turn t e [] (s.Settled t) (s.broker.grip t) (b.grip t) := by
  by_cases hg : s.broker.grip t = .asking
  · rcases hasked hg with ⟨hgranted, ha⟩ | hon
    · rw [hg, hgranted]
      exact .accepted (haccepts ha) (Or.inl rfl)
    · rw [hg, hon]
      obtain ⟨c, hc, hn⟩ := hs.asking_iff.mp hg
      have halone : s.broker.gripAlone t = .loose :=
        Broker.gripAlone_of_none (hs.tasks_of_asking hc hn)
      cases a with
      | accepted => exact .accepted (haccepts rfl) (Or.inr rfl)
      | _ =>
        change Turn t e [] _ .asking (s.broker.gripAlone t)
        rw [halone]
        exact .refused (hrefuses nofun)
  · rw [hstill hg]
    exact .stay fun h => absurd h hg

theorem answer_turns (hs : s.broker.Serves runnerId) {a : RunnerAnswer}
    (hk : (s.broker.handleRunnerAnswer t a).Keyed) (he : ∀ t' ≠ t, e.accepts t' = false)
    (haccepts : a = .accepted → e.accepts t = true)
    (hrefuses : a ≠ .accepted → e.refuses t = true) :
    Turns runnerId e [] s (s.onBroker (·.handleRunnerAnswer t a)) := by
  obtain ⟨hh, hstill, hasked⟩ := Broker.handleRunnerAnswer_heard hs t a
  exact .heard hs hk hh he (turn_of_answer hs hstill hasked haccepts hrefuses)

theorem passToRequester_turns (hs : s.broker.Serves runnerId) (m : ToRequester)
    (hk : (s.broker.passToRequester t m).Keyed) (he : ∀ t', e.accepts t' = false) :
    Turns runnerId e [] s (s.onBroker (·.passToRequester t m)) := by
  dsimp only [onBroker]
  unfold Broker.passToRequester at hk ⊢
  split at hk
  · exact .refl hs he
  · rename_i task _
    obtain ⟨sent, hsent⟩ := Broker.messageRequester_eq s.broker task.requesterId m
    rw [hsent] at hk ⊢
    exact .still (t := t) hs hk
      (.of_same rfl rfl rfl rfl rfl rfl (List.append_nil _).symm nofun) he rfl rfl rfl

theorem passToRunner_turns (hs : s.broker.Serves runnerId) {m : ToRunner}
    (hm : m.offeredTask? = none) (hk : (s.broker.passToRunner t m).1.Keyed)
    (he : ∀ t', e.accepts t' = false) :
    ∃ new, Turns runnerId e new s (s.onBroker fun _ => (s.broker.passToRunner t m).1) := by
  unfold Broker.passToRunner Broker.getRunnerOrFailTask at hk ⊢
  cases ht : s.broker.tasks.get? t with
  | none => exact ⟨[], .refl hs he⟩
  | some task =>
    have hrunner := hs.tasks t task ht
    have hin : task.runnerId ∈ s.broker.knownRunners := by rw [hrunner, hs.known]; simp
    rw [ht] at hk
    simp only [hin, if_true] at hk ⊢
    rw [Broker.messageRunner_sent_eq hs.known hrunner] at hk ⊢
    exact ⟨[m], .still (t := t) hs hk (.of_same rfl rfl rfl rfl rfl rfl rfl
      fun m' hm' => List.mem_singleton.mp hm' ▸ hm) he rfl rfl rfl⟩

theorem messageSettled_turns (hs : s.broker.Serves runnerId) {sent : Bool}
    (hc : s.connected runnerId (.messageSettled t sent) = true)
    (hk : (s.broker.messageSettled t sent).Keyed) :
    ∃ new, Turns runnerId (.messageSettled t sent) new s
      (s.onBroker (·.messageSettled t sent)) := by
  cases hg : s.broker.handshakes.get? t with
  | none =>
    have hstill : s.broker.messageSettled t sent = s.broker := by
      unfold Broker.messageSettled
      rw [hg]
    dsimp only [onBroker]
    rw [hstill]
    exact ⟨[], .refl hs fun _ => rfl⟩
  | some h =>
    by_cases hp : h.phase = .offering
    · cases sent with
      | false =>
        rw [connected, hg, Option.all_some, hp] at hc
        cases hc
      | true =>
        obtain ⟨hh, hgrip⟩ := Broker.messageSettled_heard hs hg hp
        refine ⟨[], .heard hs hk hh (fun _ _ => rfl) ?_⟩
        rcases hgrip with hsame | ⟨hgranted, hheld⟩
        · rw [hsame]
          exact .stay fun _ => rfl
        · rw [hgranted, hheld]
          exact .created
    by_cases hp' : h.phase = .awaitingRunner
    · have hstill : s.broker.messageSettled t sent = s.broker := by
        unfold Broker.messageSettled
        rw [hg]
        dsimp only
        rw [hp']
      dsimp only [onBroker]
      rw [hstill]
      exact ⟨[], .refl hs fun _ => rfl⟩
    · have hacc : h.accepting = false := by simp [Handshake.accepting, hp, hp']
      obtain ⟨new, ho⟩ := Broker.messageSettled_onward hs hg hacc sent
      exact ⟨new, .onward hs hk ho fun _ => rfl⟩

theorem fromRunner_turns (hs : s.broker.Serves runnerId) (hn : s.Numbered) (m : RunnerMessage) :
    ∃ new, Turns runnerId (.fromRunner runnerId m) new s (s.onRunnerMessage runnerId m) := by
  have hk : (s.onRunnerMessage runnerId m).broker.Keyed :=
    (next_keyed ⟨hs.keyed, hn⟩ (.fromRunner runnerId m)).1
  have hin : runnerId ∈ s.broker.knownRunners := by rw [hs.known]; simp
  have hfinish : ∀ t f, (s.finishTask t f).broker.Keyed →
      RelayEvent.ends t (.fromRunner runnerId m) = true →
      (∀ t', RelayEvent.accepts t' (.fromRunner runnerId m) = false) →
        ∃ new, Turns runnerId (.fromRunner runnerId m) new s (s.finishTask t f) :=
    fun t f hk hends he =>
      ⟨[], .ending hs hk (finishTask_ending (hs.keyed.ids t) f) he (Or.inr hends)⟩
  unfold onRunnerMessage at hk ⊢
  rw [if_pos hin] at hk ⊢
  cases m with
  | info name types => exact ⟨[], .refl hs fun _ => rfl⟩
  | taskAccepted t =>
    exact ⟨[], answer_turns hs hk (fun t' hne => by simpa [RelayEvent.accepts] using Ne.symm hne)
      (fun _ => by simp [RelayEvent.accepts]) fun h => absurd rfl h⟩
  | taskRejected t reason =>
    exact ⟨[], answer_turns hs hk (fun _ _ => rfl) nofun fun _ => by simp [RelayEvent.refuses]⟩
  | taskDeferred t =>
    exact ⟨[], answer_turns hs hk (fun _ _ => rfl) nofun fun _ => by simp [RelayEvent.refuses]⟩
  | taskOffer offerId taskType validFor =>
    have hu : ∀ offer : TaskOffer, offer.runnerId = runnerId → Broker.Serves runnerId
        { s.broker with pendingTaskOffers := s.broker.pendingTaskOffers ++ [offer] } := by
      intro offer hrunner
      refine ⟨⟨hs.keyed.fresh, hs.keyed.open_, hs.keyed.own, hs.keyed.accepted, hs.keyed.ids⟩,
        hs.known, hs.tasks, hs.calls, hs.asked, fun o ho => ?_⟩
      rcases List.mem_append.mp ho with ho | ho
      · exact hs.offers o ho
      · rw [List.mem_singleton.mp ho, hrunner]
    obtain ⟨new, ha⟩ := Broker.settleTasks_asks (hu ⟨offerId, runnerId, taskType, validFor,
      if validFor = -1 then 0 else s.broker.now + validFor * 1000000⟩ rfl)
    exact ⟨new, .asks ⟨ha.serves, ha.tasks, ha.ids, ha.calls, ha.sent, ha.offered, ha.distinct⟩
      fun _ => rfl⟩
  | taskDone t data => exact hfinish t _ hk (by simp [RelayEvent.ends, RunnerMessage.endsTask,
      RunnerMessage.taskId?]) fun _ => rfl
  | taskError t error => exact hfinish t _ hk (by simp [RelayEvent.ends, RunnerMessage.endsTask,
      RunnerMessage.taskId?]) fun _ => rfl
  | taskDataRequest | nodeTypesRequest | rpc =>
    exact ⟨[], passToRequester_turns hs _ hk fun _ => rfl⟩

theorem fromRequester_turns (hs : s.broker.Serves runnerId) (hn : s.Numbered)
    (requesterId : String) (m : RequesterMessage) :
    ∃ new, Turns runnerId (.fromRequester requesterId m) new s
      (s.onRequesterMessage requesterId m).1 := by
  have hk : (s.onRequesterMessage requesterId m).1.broker.Keyed :=
    (next_keyed ⟨hs.keyed, hn⟩ (.fromRequester requesterId m)).1
  cases m with
  | taskSettings t settings =>
    obtain ⟨new, ho⟩ := Broker.handleRequesterAccept_onward hs t settings
    exact ⟨new, .onward hs hk ho fun _ => rfl⟩
  | taskCancel t reason =>
    unfold onRequesterMessage at hk ⊢
    cases hc : s.broker.cancelTask t reason with
    | none =>
      have hstill : (s.onBroker fun b => (b.cancelTask t reason).getD b) = s := by
        dsimp only [onBroker]
        rw [hc]
        rfl
      dsimp only
      rw [hstill]
      exact ⟨[], .refl hs fun _ => rfl⟩
    | some b =>
      have hnow : (s.onBroker fun b => (b.cancelTask t reason).getD b) = s.onBroker fun _ => b := by
        dsimp only [onBroker]
        rw [hc]
        rfl
      dsimp only at hk ⊢
      rw [hnow] at hk ⊢
      exact ⟨_, .onward hs hk (Broker.cancelTask_onward hs hc).1 fun _ => rfl⟩
  | taskRequest requestId taskType =>
    obtain ⟨new, ha⟩ := Broker.settleTasks_asks (s := { s.broker with
      requests := Function.update s.broker.requests s.broker.nextRequest
        ⟨requestId, requesterId, taskType, false⟩
      nextRequest := s.broker.nextRequest + 1
      pendingTaskRequests := s.broker.pendingTaskRequests ++ [s.broker.nextRequest] })
      ⟨⟨hs.keyed.fresh, hs.keyed.open_, hs.keyed.own, hs.keyed.accepted, hs.keyed.ids⟩,
        hs.known, hs.tasks, hs.calls, hs.asked, hs.offers⟩
    exact ⟨new, .asks ⟨ha.serves, ha.tasks, ha.ids, ha.calls, ha.sent, ha.offered, ha.distinct⟩
      fun _ => rfl⟩
  | taskDataResponse | nodeTypesResponse | rpcResponse =>
    exact passToRunner_turns hs rfl hk fun _ => rfl

theorem next_turns (hs : s.broker.Serves runnerId) (hn : s.Numbered) (hc : s.connected runnerId e = true) :
    ∃ new, Turns runnerId e new s (s.next e) := by
  have hk := (next_keyed ⟨hs.keyed, hn⟩ e).1
  have hstill : ∀ b : Broker, b.Keyed → Broker.Only runnerId 0 [] s.broker b →
      b.tasks = s.broker.tasks → b.handshakes = s.broker.handshakes →
      b.runnerAcceptRejects = s.broker.runnerAcceptRejects → (∀ t', e.accepts t' = false) →
        ∃ new, Turns runnerId e new s (s.onBroker fun _ => b) :=
    fun b hb ho ht hh hr he => ⟨[], .still hs hb ho he (by rw [ht]) (by rw [hh]) hr⟩
  cases e with
  | fromRunner id m =>
    obtain rfl : id = runnerId := by simpa [connected] using hc
    exact fromRunner_turns hs hn m
  | fromRequester requesterId m => exact fromRequester_turns hs hn requesterId m
  | registerRunner | deregisterRunner => cases hc
  | registerRequester | deregisterRequester | clock =>
    exact hstill _ hk (.of_same rfl rfl rfl rfl rfl rfl (List.append_nil _).symm nofun)
      rfl rfl rfl fun _ => rfl
  | runnerAcceptTimeout t =>
    obtain ⟨hh, hsame, hasked⟩ :=
      Broker.answerRunner_heard hs (t := t) ⟨.refl s.broker, rfl⟩ rfl .timedOut
    exact ⟨[], .heard hs hk hh (fun _ _ => rfl) (turn_of_answer hs hsame hasked nofun
      fun _ => by simp [RelayEvent.refuses])⟩
  | requesterAcceptTimeout t =>
    obtain ⟨new, ho⟩ := Broker.answerRequester_onward hs t .timedOut
    exact ⟨new, .onward hs hk ho fun _ => rfl⟩
  | messageSettled t sent => exact messageSettled_turns hs hc hk
  | taskTimeout t => exact taskTimerFires_turns hs hk fun _ => rfl
  | callSettled callId sent => exact callSettled_turns hs hk fun _ => rfl

end

end Relay
end N8n.TaskBroker
