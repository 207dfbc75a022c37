import N8n.TaskBroker.Senders

/-!
# What the broker holds of a task

A task is asked for, granted and held, in this order, and then let go. The broker
lets go of a task that it holds with a message to the runner, unless the task has
its settings or has ended; of a task it asks for when the runner refuses it, or
when the runner's time is up, and then without a message. The results are about a
broker with one runner, which stays connected.
-/

namespace N8n.TaskBroker

def ToRunner.offeredTask? : ToRunner → Option ℕ
  | .taskOfferAccept _ taskId => some taskId
  | _ => none

/-- After the message the runner no longer waits for the settings of the task. -/
def ToRunner.movesOn (taskId : ℕ) : ToRunner → Bool
  | .taskCancel t _ => t == taskId
  | .taskSettings t _ => t == taskId
  | _ => false

/-- A task is `granted` when the runner has accepted it before the broker knows that its
question was sent. -/
inductive Grip where
  | loose
  | asking
  | granted
  | held
  deriving DecidableEq, Repr

def Handshake.grip (h : Handshake) : Grip :=
  match h.runnerAnswer with
  | none => .asking
  | some .accepted => if h.phase = .offering then .granted else .loose
  | some _ => .loose

/-- The runner's half of the handshake is as it was, or has been over. -/
structure Handshake.Like (h h' : Handshake) : Prop where
  offer : h'.offer = h.offer
  answer : h'.runnerAnswer = h.runnerAnswer
  phase : h'.phase = h.phase ∨ h.accepting = false ∧ h'.accepting = false

theorem Handshake.Like.refl (h : Handshake) : h.Like h := ⟨rfl, rfl, Or.inl rfl⟩

theorem Handshake.Like.accepting {h h' : Handshake} (hl : h.Like h') :
    h'.accepting = h.accepting := by
  rcases hl.phase with hp | ⟨h₁, h₂⟩
  · rw [Handshake.accepting, Handshake.accepting, hp]
  · rw [h₁, h₂]

theorem Handshake.Like.trans {h h' h'' : Handshake} (hl : h.Like h') (hl' : h'.Like h'') :
    h.Like h'' := by
  refine ⟨hl'.offer.trans hl.offer, hl'.answer.trans hl.answer, ?_⟩
  rcases hl'.phase with hp' | ⟨h₁, h₂⟩
  · rcases hl.phase with hp | ⟨h₃, _⟩
    · exact Or.inl (hp'.trans hp)
    · exact Or.inr ⟨h₃, hl'.accepting.trans (hl.accepting.trans h₃)⟩
  · exact Or.inr ⟨hl.accepting ▸ h₁, h₂⟩

theorem Handshake.Like.grip {h h' : Handshake} (hl : h.Like h') : h'.grip = h.grip := by
  unfold Handshake.grip
  rw [hl.answer]
  rcases hl.phase with hp | ⟨h₁, h₂⟩
  · rw [hp]
  · have hne : h.phase ≠ .offering := fun hp => by simp [Handshake.accepting, hp] at h₁
    have hne' : h'.phase ≠ .offering := fun hp => by simp [Handshake.accepting, hp] at h₂
    rw [if_neg hne, if_neg hne']

namespace Broker

def grip (s : Broker) (t : ℕ) : Grip :=
  match s.tasks.get? t with
  | some _ => .held
  | none => ((s.handshakes.get? t).map Handshake.grip).getD .loose

theorem grip_of_task {s : Broker} {t : ℕ} {task : Task} (h : s.tasks.get? t = some task) :
    s.grip t = .held := by
  unfold grip
  rw [h]

theorem grip_of_none {s : Broker} {t : ℕ} (h : s.tasks.get? t = none) :
    s.grip t = ((s.handshakes.get? t).map Handshake.grip).getD .loose := by
  unfold grip
  rw [h]

theorem grip_congr {s s' : Broker} {t : ℕ} (htasks : s'.tasks.get? t = s.tasks.get? t)
    (hcalls : s'.handshakes.get? t = s.handshakes.get? t) : s'.grip t = s.grip t := by
  unfold grip
  rw [htasks, hcalls]

/-- The runner is the only one, and all that the broker has is the runner's. -/
structure Serves (runnerId : String) (s : Broker) : Prop where
  keyed : s.Keyed
  known : s.knownRunners = [runnerId]
  tasks : ∀ t task, s.tasks.get? t = some task → task.runnerId = runnerId
  calls : ∀ t h, s.handshakes.get? t = some h → h.offer.runnerId = runnerId
  asked : ∀ t h, s.handshakes.get? t = some h → h.runnerAnswer = none →
    h.accepting = true ∧ t ∈ s.runnerAcceptRejects
  offers : ∀ o ∈ s.pendingTaskOffers, o.runnerId = runnerId

/-- Besides the task's own entries nothing has changed, and no task was offered. -/
structure Only (runnerId : String) (t : ℕ) (new : List ToRunner) (s s' : Broker) : Prop where
  known : s'.knownRunners = s.knownRunners
  offers : s'.pendingTaskOffers = s.pendingTaskOffers
  ids : s'.nextTaskId = s.nextTaskId
  tasks : ∀ id ≠ t, s'.tasks.get? id = s.tasks.get? id
  calls : ∀ id ≠ t, s'.handshakes.get? id = s.handshakes.get? id
  rejects : ∀ id ≠ t, id ∈ s.runnerAcceptRejects → id ∈ s'.runnerAcceptRejects
  sent : s'.sentToRunners = s.sentToRunners ++ new.map fun m => (runnerId, m)
  unoffered : ∀ m ∈ new, m.offeredTask? = none

section
variable {runnerId : String} {s u s' : Broker} {t : ℕ} {h : Handshake} {new new' : List ToRunner}

/-- Nothing happens to the tasks, and messages that make no offer are sent to the runner. -/
theorem Only.of_same (hknown : s'.knownRunners = s.knownRunners)
    (hoffers : s'.pendingTaskOffers = s.pendingTaskOffers) (hids : s'.nextTaskId = s.nextTaskId)
    (htasks : s'.tasks = s.tasks) (hcalls : s'.handshakes = s.handshakes)
    (hrejects : s'.runnerAcceptRejects = s.runnerAcceptRejects)
    (hsent : s'.sentToRunners = s.sentToRunners ++ new.map fun m => (runnerId, m))
    (hnew : ∀ m ∈ new, m.offeredTask? = none) : Only runnerId t new s s' where
  known := hknown
  offers := hoffers
  ids := hids
  tasks id _ := by rw [htasks]
  calls id _ := by rw [hcalls]
  rejects id _ h := hrejects ▸ h
  sent := hsent
  unoffered := hnew

theorem Only.refl (s : Broker) : Only runnerId t [] s s :=
  .of_same rfl rfl rfl rfl rfl rfl (List.append_nil _).symm nofun

theorem Only.trans (h : Only runnerId t new s u) (h' : Only runnerId t new' u s') :
    Only runnerId t (new ++ new') s s' := by
  refine ⟨h'.known.trans h.known, h'.offers.trans h.offers, h'.ids.trans h.ids,
    fun id hne => (h'.tasks id hne).trans (h.tasks id hne),
    fun id hne => (h'.calls id hne).trans (h.calls id hne),
    fun id hne hid => h'.rejects id hne (h.rejects id hne hid), ?_, fun m hm => ?_⟩
  · rw [h'.sent, h.sent, List.append_assoc, ← List.map_append]
  · rcases List.mem_append.mp hm with hm | hm
    · exact h.unoffered m hm
    · exact h'.unoffered m hm

theorem Serves.only (hs : Serves runnerId s) (ho : Only runnerId t new s s') (hk : s'.Keyed)
    (htask : ∀ task, s'.tasks.get? t = some task → task.runnerId = runnerId)
    (hcall : ∀ h, s'.handshakes.get? t = some h → h.offer.runnerId = runnerId)
    (hasked : ∀ h, s'.handshakes.get? t = some h → h.runnerAnswer = none →
      h.accepting = true ∧ t ∈ s'.runnerAcceptRejects) : Serves runnerId s' := by
  refine ⟨hk, ho.known.trans hs.known, fun id task hid => ?_, fun id h hid => ?_,
    fun id h hid hn => ?_, fun o hm => hs.offers o (ho.offers ▸ hm)⟩
  · by_cases he : id = t
    · exact htask task (he ▸ hid)
    · exact hs.tasks id task ((ho.tasks id he).symm.trans hid)
  · by_cases he : id = t
    · exact hcall h (he ▸ hid)
    · exact hs.calls id h ((ho.calls id he).symm.trans hid)
  · by_cases he : id = t
    · subst he
      exact hasked h hid hn
    · obtain ⟨hacc, hr⟩ := hs.asked id h ((ho.calls id he).symm.trans hid) hn
      exact ⟨hacc, ho.rejects id he hr⟩

theorem Serves.tasks_of_asking (hs : Serves runnerId s) (hg : s.handshakes.get? t = some h)
    (hn : h.runnerAnswer = none) : s.tasks.get? t = none :=
  hs.keyed.open_ t (hs.asked t h hg hn).2

theorem Serves.asking_iff (hs : Serves runnerId s) :
    s.grip t = .asking ↔ ∃ h, s.handshakes.get? t = some h ∧ h.runnerAnswer = none := by
  constructor
  · intro hasking
    cases ht : s.tasks.get? t with
    | some task =>
      rw [grip_of_task ht] at hasking
      cases hasking
    | none =>
      rw [grip_of_none ht] at hasking
      cases hg : s.handshakes.get? t with
      | none => simp [hg] at hasking
      | some h =>
        rw [hg, Option.map_some, Option.getD_some, Handshake.grip] at hasking
        refine ⟨h, rfl, ?_⟩
        cases ha : h.runnerAnswer with
        | none => rfl
        | some a =>
          rw [ha] at hasking
          cases a with
          | accepted =>
            dsimp only at hasking
            split at hasking <;> cases hasking
          | _ => cases hasking
  · rintro ⟨h, hg, hn⟩
    rw [grip_of_none (hs.tasks_of_asking hg hn), hg, Option.map_some, Option.getD_some,
      Handshake.grip, hn]

/-- A message to the runner, which is connected. -/
theorem messageRunner_sent_eq (hs : s.knownRunners = [runnerId]) {id : String}
    (hid : id = runnerId) (m : ToRunner) :
    s.messageRunner id m = { s with sentToRunners := s.sentToRunners ++ [(runnerId, m)] } := by
  subst hid
  exact if_pos (hs ▸ List.mem_singleton.mpr rfl)

/-! ### The requester's half -/

/-- What becomes of the task's entry, with what the runner is told. -/
inductive TaskTurn (t : ℕ) : Option Task → List ToRunner → Option Task → Prop
  | stay (task : Option Task) : TaskTurn t task [] task
  | cancelled (task : Task) (reason : String) : TaskTurn t (some task) [.taskCancel t reason] none
  | settings (task : Task) (settings : String) :
      TaskTurn t (some task) [.taskSettings t settings] (some { task with timeout := true })

structure Onward (runnerId : String) (t : ℕ) (new : List ToRunner) (s s' : Broker) : Prop where
  only : Only runnerId t new s s'
  rejects : s'.runnerAcceptRejects = s.runnerAcceptRejects
  turn : TaskTurn t (s.tasks.get? t) new (s'.tasks.get? t)
  call : ∀ h', s'.handshakes.get? t = some h' → ∃ h, s.handshakes.get? t = some h ∧ h.Like h'
  gone : s'.handshakes.get? t = none → ∀ h, s.handshakes.get? t = some h → h.accepting = false

theorem Onward.refl (s : Broker) : Onward runnerId t [] s s :=
  ⟨.refl s, rfl, .stay _, fun h hh => ⟨h, hh, .refl h⟩, fun hn h hh => by rw [hn] at hh; cases hh⟩

theorem cancelTask_onward (hs : Serves runnerId s) {reason : String}
    (hc : s.cancelTask t reason = some s') : Onward runnerId t [.taskCancel t reason] s s' ∧
      s'.handshakes = s.handshakes := by
  simp only [cancelTask, Option.map_eq_some_iff] at hc
  obtain ⟨task, htask, rfl⟩ := hc
  rw [messageRunner_sent_eq (show ({ s with tasks := s.tasks.delete t } : Broker).knownRunners =
    [runnerId] from hs.known) (hs.tasks t task htask)]
  refine ⟨⟨⟨rfl, rfl, rfl, fun id hne => OrderedMap.get?_delete_of_ne (Ne.symm hne),
    fun _ _ => rfl, fun _ _ h => h, rfl, ?_⟩, rfl, ?_, fun h hh => ⟨h, hh, .refl h⟩,
    fun hn h hh => by rw [hn] at hh; cases hh⟩, rfl⟩
  · simp [ToRunner.offeredTask?]
  · rw [htask, OrderedMap.get?_delete_self]
    exact .cancelled task reason

theorem putHandshake_get? (s : Broker) (h : Handshake) :
    (s.putHandshake h).handshakes.get? h.taskId = some h := OrderedMap.get?_set_self _ _ _

theorem putHandshake_only (s : Broker) (hid : h.taskId = t) :
    Only runnerId t [] s (s.putHandshake h) :=
  ⟨rfl, rfl, rfl, fun _ _ => rfl, fun _ hne => OrderedMap.get?_set_of_ne (hid ▸ Ne.symm hne),
    fun _ _ h => h, (List.append_nil _).symm, nofun⟩

theorem endHandshake_only (s : Broker) (hid : h.taskId = t) (rejects : Bool) :
    Only runnerId t [] s (s.endHandshake h rejects) :=
  ⟨rfl, rfl, rfl, fun _ _ => rfl, fun _ hne => OrderedMap.get?_delete_of_ne (hid ▸ Ne.symm hne),
    fun _ _ h => h, (List.append_nil _).symm, nofun⟩

/-- The handshake of the task has gone on after the steps of `u`. -/
theorem Onward.putHandshake (hu : Onward runnerId t new s u) (hid : h.taskId = t)
    {h₀ : Handshake} (hg : s.handshakes.get? t = some h₀) (hl : h₀.Like h) :
    Onward runnerId t new s (u.putHandshake h) := by
  have honly : Only runnerId t (new ++ []) s (u.putHandshake h) :=
    hu.only.trans (putHandshake_only u hid)
  rw [List.append_nil] at honly
  have hget : (u.putHandshake h).handshakes.get? t = some h := hid ▸ putHandshake_get? u h
  refine ⟨honly, hu.rejects, hu.turn, fun h' hh' => ⟨h₀, hg, ?_⟩, fun hn => ?_⟩
  · rw [hget] at hh'
    exact Option.some.inj hh' ▸ hl
  · rw [hget] at hn
    cases hn

theorem Onward.endHandshake (hu : Onward runnerId t new s u) (hid : h.taskId = t)
    {h₀ : Handshake} (hg : s.handshakes.get? t = some h₀) (hacc : h₀.accepting = false)
    (rejects : Bool) : Onward runnerId t new s (u.endHandshake h rejects) := by
  have honly : Only runnerId t (new ++ []) s (u.endHandshake h rejects) :=
    hu.only.trans (endHandshake_only u hid rejects)
  rw [List.append_nil] at honly
  have hget : (u.endHandshake h rejects).handshakes.get? t = none :=
    hid ▸ OrderedMap.get?_delete_self _ _
  refine ⟨honly, hu.rejects, hu.turn, fun h' hh' => ?_, fun _ h' hh' => ?_⟩
  · rw [hget] at hh'
    cases hh'
  · rw [hg] at hh'
    exact Option.some.inj hh' ▸ hacc

/-- The requester's half goes on after a step that has not touched the task's entry. -/
theorem Onward.after (h : Onward runnerId t [] s u) (htasks : u.tasks.get? t = s.tasks.get? t)
    (h' : Onward runnerId t new u s') : Onward runnerId t new s s' := by
  refine ⟨h.only.trans h'.only, h'.rejects.trans h.rejects, htasks ▸ h'.turn, fun c hc => ?_,
    fun hn c hc => ?_⟩
  · obtain ⟨c', hc', hl'⟩ := h'.call c hc
    obtain ⟨c'', hc'', hl⟩ := h.call c' hc'
    exact ⟨c'', hc'', hl.trans hl'⟩
  · cases hu : u.handshakes.get? t with
    | none => exact h.gone hu c hc
    | some c' =>
      obtain ⟨c'', hc'', hl⟩ := h.call c' hu
      obtain rfl := Option.some.inj (hc''.symm.trans hc)
      exact hl.accepting ▸ h'.gone hn c' hu

theorem Serves.onward (hs : Serves runnerId s) (ho : Onward runnerId t new s s')
    (hk : s'.Keyed) : Serves runnerId s' := by
  refine hs.only ho.only hk (fun task htask => ?_) (fun h hh => ?_) fun h hh hn => ?_
  · have hturn := ho.turn
    rw [htask] at hturn
    generalize hold : s.tasks.get? t = old at hturn
    cases hturn with
    | stay => exact hs.tasks t task hold
    | settings task' => exact hs.tasks t task' hold
  · obtain ⟨h₀, hg, hl⟩ := ho.call h hh
    exact hl.offer ▸ hs.calls t h₀ hg
  · obtain ⟨h₀, hg, hl⟩ := ho.call h hh
    obtain ⟨hacc, hr⟩ := hs.asked t h₀ hg (hl.answer ▸ hn)
    exact ⟨hl.accepting.trans hacc, ho.rejects ▸ hr⟩

theorem cancelAndThrow_onward (hs : Serves runnerId s) {h₀ : Handshake}
    (hg : s.handshakes.get? h.taskId = some h₀) (hl : h₀.Like h) (hacc : h₀.accepting = false) :
    ∃ new, Onward runnerId h.taskId new s (s.cancelAndThrow h) := by
  unfold cancelAndThrow
  split
  · exact ⟨[], (Onward.refl s).endHandshake rfl hg hacc true⟩
  · rename_i u hu
    have hcancel := (cancelTask_onward hs hu).1
    exact ⟨_, hcancel.putHandshake (h := { h with phase := .cancelling }) rfl hg
      ⟨hl.offer, hl.answer, Or.inr ⟨hacc, by simp [Handshake.accepting]⟩⟩⟩

theorem sendTaskSettings_onward (hs : Serves runnerId s) {h₀ : Handshake}
    (hg : s.handshakes.get? h.taskId = some h₀) (hl : h₀.Like h) (hacc : h₀.accepting = false)
    (settings : String) : ∃ new, Onward runnerId h.taskId new s (s.sendTaskSettings h settings) := by
  unfold sendTaskSettings
  split
  · exact cancelAndThrow_onward hs hg hl hacc
  · rename_i task htask
    have hrunner := hs.tasks _ task htask
    have hknown : task.runnerId ∈ s.knownRunners := by rw [hrunner, hs.known]; simp
    rw [if_pos hknown, messageRunner_sent_eq (show ({ s with
      tasks := s.tasks.set h.taskId { task with timeout := true } } : Broker).knownRunners =
        [runnerId] from hs.known) hrunner]
    refine ⟨[.taskSettings h.taskId settings], Onward.putHandshake
      (h := { h with phase := .sendingSettings }) ⟨⟨rfl, rfl, rfl,
        fun id hne => OrderedMap.get?_set_of_ne (Ne.symm hne), fun _ _ => rfl, fun _ _ h => h, rfl,
        by simp [ToRunner.offeredTask?]⟩, rfl, ?_, fun h hh => ⟨h, hh, .refl h⟩,
        fun hn h hh => by rw [hn] at hh; cases hh⟩ rfl hg
      ⟨hl.offer, hl.answer, Or.inr ⟨hacc, by simp [Handshake.accepting]⟩⟩⟩
    rw [htask, OrderedMap.get?_set_self]
    exact .settings task settings

theorem resumeRequester_onward (hs : Serves runnerId s) {h₀ : Handshake}
    (hg : s.handshakes.get? h.taskId = some h₀) (hl : h₀.Like h) (hacc : h₀.accepting = false) :
    ∃ new, Onward runnerId h.taskId new s (s.resumeRequester h) := by
  unfold resumeRequester
  split
  · exact ⟨[], .refl s⟩
  · exact sendTaskSettings_onward hs hg hl hacc _
  · exact cancelAndThrow_onward hs hg hl hacc

/-- The handshake `h` has gone on to `h'` and goes on from there. -/
theorem resumed_onward (hs : Serves runnerId s) (h' : Handshake)
    (hg : s.handshakes.get? h.taskId = some h) (hid : h'.taskId = h.taskId) (hl : h.Like h')
    (hacc : h.accepting = false) :
    ∃ new, Onward runnerId h.taskId new s ((s.putHandshake h').resumeRequester h') := by
  have hput : Onward runnerId h.taskId [] s (s.putHandshake h') :=
    (Onward.refl s).putHandshake hid hg hl
  have hheld := hs.keyed.held hg
  have hk : (s.putHandshake h').Keyed :=
    hs.keyed.putHandshake (hid ▸ hheld.lt) fun ha => hid ▸ hheld.closed (hl.answer ▸ ha)
  obtain ⟨new, hnext⟩ := resumeRequester_onward (hs.onward hput hk) (putHandshake_get? s h')
    (.refl h') (hl.accepting.trans hacc)
  rw [hid] at hnext
  exact ⟨new, hput.after rfl hnext⟩

theorem answerRequester_onward (hs : Serves runnerId s) (t : ℕ) (a : RequesterAnswer) :
    ∃ new, Onward runnerId t new s (s.answerRequester t a) := by
  unfold answerRequester
  split
  · exact ⟨[], .refl s⟩
  · rename_i h hg
    obtain rfl := hs.keyed.own t h hg
    split
    · exact ⟨[], .refl s⟩
    · dsimp only
      split
      · rename_i hp
        exact resumed_onward hs { h with requesterAnswer := some a } hg rfl
          ⟨rfl, rfl, Or.inl rfl⟩ (by simp [Handshake.accepting, hp])
      · exact ⟨[], (Onward.refl s).putHandshake (h := { h with requesterAnswer := some a }) rfl hg
          ⟨rfl, rfl, Or.inl rfl⟩⟩

theorem handleRequesterAccept_onward (hs : Serves runnerId s) (t : ℕ) (settings : String) :
    ∃ new, Onward runnerId t new s (s.handleRequesterAccept t settings) := by
  unfold handleRequesterAccept
  split
  · generalize s.requesterAcceptRejects.filter (fun id => decide (id ≠ t)) = rejects
    have hs' : Serves runnerId { s with requesterAcceptRejects := rejects } :=
      ⟨⟨hs.keyed.fresh, hs.keyed.open_, hs.keyed.own, hs.keyed.accepted, hs.keyed.ids⟩, hs.known,
        hs.tasks, hs.calls, hs.asked, hs.offers⟩
    obtain ⟨new, ho⟩ := answerRequester_onward hs' t (.settings settings)
    exact ⟨new, ⟨ho.only.known, ho.only.offers, ho.only.ids, ho.only.tasks, ho.only.calls,
      ho.only.rejects, ho.only.sent, ho.only.unoffered⟩, ho.rejects, ho.turn, ho.call, ho.gone⟩
  · exact ⟨[], .refl s⟩

theorem messageSettled_onward (hs : Serves runnerId s) (hg : s.handshakes.get? t = some h)
    (hacc : h.accepting = false) (sent : Bool) :
    ∃ new, Onward runnerId t new s (s.messageSettled t sent) := by
  obtain rfl := hs.keyed.own t h hg
  have hcancel : ∃ new, Onward runnerId h.taskId new s (s.cancelAndThrow h) :=
    cancelAndThrow_onward hs hg (.refl h) hacc
  have hend : ∀ rejects, ∃ new, Onward runnerId h.taskId new s (s.endHandshake h rejects) :=
    fun rejects => ⟨[], (Onward.refl s).endHandshake rfl hg hacc rejects⟩
  rw [messageSettled, hg]
  dsimp only
  split
  · rename_i hp
    simp [Handshake.accepting, hp] at hacc
  · rename_i hp
    simp [Handshake.accepting, hp] at hacc
  · exact resumed_onward hs { h with phase := .awaitingRequester } hg rfl
      ⟨rfl, rfl, Or.inr ⟨hacc, by simp [Handshake.accepting]⟩⟩ hacc
  · exact hcancel
  · exact hend false
  · exact hcancel
  · exact hcancel
  · exact hend true
  · exact ⟨[], .refl s⟩
  · exact ⟨[], .refl s⟩

/-- The broker lets go of a task with a message to the runner. -/
theorem Onward.grip (ho : Onward runnerId t new s s') (hs : Serves runnerId s) :
    s'.grip t = s.grip t ∨ s.grip t = .held ∧ ∃ m ∈ new, m.movesOn t = true := by
  have hcall : ((s'.handshakes.get? t).map Handshake.grip).getD .loose =
      ((s.handshakes.get? t).map Handshake.grip).getD .loose := by
    cases hg' : s'.handshakes.get? t with
    | some h' =>
      obtain ⟨h, hg, hl⟩ := ho.call h' hg'
      rw [hg, Option.map_some, Option.map_some, Option.getD_some, Option.getD_some, hl.grip]
    | none =>
      cases hg : s.handshakes.get? t with
      | none => rfl
      | some h =>
        have hacc := ho.gone hg' h hg
        rw [Option.map_none, Option.getD_none, Option.map_some, Option.getD_some, Handshake.grip]
        cases ha : h.runnerAnswer with
        | none => exact absurd (hs.asked t h hg ha).1 (by rw [hacc]; exact nofun)
        | some a =>
          have hne : h.phase ≠ .offering := fun hp => by simp [Handshake.accepting, hp] at hacc
          cases a with
          | accepted => exact (if_neg hne).symm
          | _ => rfl
  have hturn := ho.turn
  unfold Broker.grip
  rw [hcall]
  generalize s.tasks.get? t = before at hturn ⊢
  generalize s'.tasks.get? t = after at hturn ⊢
  cases hturn with
  | stay => exact Or.inl rfl
  | cancelled task reason =>
    exact Or.inr ⟨rfl, _, List.mem_singleton_self _, by simp [ToRunner.movesOn]⟩
  | settings task settings => exact Or.inl rfl

/-! ### The runner's half -/

/-- The runner's half of the handshake has gone on, and nothing has been sent to the runner. -/
structure Heard (runnerId : String) (t : ℕ) (s s' : Broker) : Prop where
  only : Only runnerId t [] s s'
  task : s'.tasks.get? t = s.tasks.get? t ∨
    ∃ task, s'.tasks.get? t = some task ∧ task.runnerId = runnerId ∧ task.timeout = false
  call : ∀ h', s'.handshakes.get? t = some h' →
    ∃ h, s.handshakes.get? t = some h ∧ h'.offer = h.offer
  asked : ∀ h', s'.handshakes.get? t = some h' → h'.runnerAnswer = none →
    h'.accepting = true ∧ t ∈ s'.runnerAcceptRejects

theorem Serves.heard (hs : Serves runnerId s) (hh : Heard runnerId t s s') (hk : s'.Keyed) :
    Serves runnerId s' := by
  refine hs.only hh.only hk (fun task htask => ?_) (fun h' hg' => ?_) hh.asked
  · rcases hh.task with he | ⟨task', htask', hrunner, _⟩
    · exact hs.tasks t task (he ▸ htask)
    · exact Option.some.inj (htask'.symm.trans htask) ▸ hrunner
  · obtain ⟨h, hg, ho⟩ := hh.call h' hg'
    exact ho ▸ hs.calls t h hg

/-- `u` has come from `s` and still has its tasks. -/
structure Before (runnerId : String) (t : ℕ) (s u : Broker) : Prop where
  only : Only runnerId t [] s u
  tasks : u.tasks = s.tasks

theorem createTask_heard (hs : Serves runnerId s) {h₀ : Handshake}
    (hg : s.handshakes.get? h.taskId = some h₀) (hoffer : h.offer = h₀.offer)
    (ha : h.runnerAnswer = some .accepted) (hu : Before runnerId h.taskId s u) :
    Heard runnerId h.taskId s (u.createTask h) ∧ (u.createTask h).grip h.taskId = .held := by
  have hrunner : h.offer.runnerId = runnerId := hoffer ▸ hs.calls _ h₀ hg
  have htasks : ∀ task : Task, ∀ id ≠ h.taskId,
      (u.tasks.set h.taskId task).get? id = s.tasks.get? id := fun task id hne =>
    (OrderedMap.get?_set_of_ne (Ne.symm hne)).trans (hu.only.tasks id hne)
  unfold createTask
  dsimp only
  generalize htask : Task.mk h.taskId _ _ _ _ = task
  have hfrom : task.runnerId = runnerId ∧ task.timeout = false := htask ▸ ⟨hrunner, rfl⟩
  have hget : (u.tasks.set h.taskId task).get? h.taskId = some task := OrderedMap.get?_set_self ..
  split
  · refine ⟨⟨⟨hu.only.known, hu.only.offers, hu.only.ids, htasks task, fun id hne => ?_,
      hu.only.rejects, hu.only.sent, nofun⟩, Or.inr ⟨task, hget, hfrom⟩, fun h' hg' => ?_,
      fun h' hg' => ?_⟩, grip_of_task hget⟩
    · exact (OrderedMap.get?_delete_of_ne (Ne.symm hne)).trans (hu.only.calls id hne)
    all_goals
      rw [endHandshake, OrderedMap.get?_delete_self] at hg'
      cases hg'
  · generalize hv : Broker.mk _ _ _ _ _ _ _ _ _ _ _ _ _ _ _ = v
    obtain ⟨sent, he⟩ := messageRequester_eq v (u.requests h.request).requesterId
      (.taskReady (u.requests h.request).requestId h.taskId)
    rw [he]
    subst hv
    refine ⟨⟨⟨hu.only.known, hu.only.offers, hu.only.ids, htasks task, fun id hne => ?_,
      hu.only.rejects, hu.only.sent, nofun⟩, Or.inr ⟨task, hget, hfrom⟩, fun h' hg' => ?_,
      fun h' hg' hn => ?_⟩, grip_of_task hget⟩
    · exact (OrderedMap.get?_set_of_ne (Ne.symm hne)).trans (hu.only.calls id hne)
    all_goals
      rw [putHandshake, OrderedMap.get?_set_self] at hg'
      obtain rfl := Option.some.inj hg'
    · exact ⟨h₀, hg, hoffer⟩
    · rw [ha] at hn
      cases hn

/-- What the broker has of the task when the handshake is over. -/
def gripAlone (s : Broker) (t : ℕ) : Grip := if (s.tasks.get? t).isSome then .held else .loose

theorem gripAlone_of_none (h : s.tasks.get? t = none) : s.gripAlone t = .loose := by
  simp [gripAlone, h]

theorem grip_eq_gripAlone (h : ∀ c, s.handshakes.get? t = some c → c.grip = .loose) :
    s.grip t = s.gripAlone t := by
  unfold grip gripAlone
  cases s.tasks.get? t with
  | some task => rfl
  | none =>
    cases hc : s.handshakes.get? t with
    | none => rfl
    | some c => exact h c hc

theorem returnRequest_heard (hu : Before runnerId h.taskId s u) (deferred rejects : Bool) :
    Heard runnerId h.taskId s (u.returnRequest h deferred rejects) ∧
      (u.returnRequest h deferred rejects).grip h.taskId = s.gripAlone h.taskId := by
  have hgone : ∀ c, (u.returnRequest h deferred rejects).handshakes.get? h.taskId ≠ some c := by
    intro c hc
    rw [returnRequest, endHandshake, OrderedMap.get?_delete_self] at hc
    cases hc
  have htask : (u.returnRequest h deferred rejects).tasks.get? h.taskId = s.tasks.get? h.taskId :=
    congrArg (fun m => m.get? h.taskId) hu.tasks
  refine ⟨⟨⟨hu.only.known, hu.only.offers, hu.only.ids, hu.only.tasks, fun id hne => ?_,
    hu.only.rejects, hu.only.sent, by simp⟩, Or.inl htask, fun c hc => absurd hc (hgone c),
    fun c hc => absurd hc (hgone c)⟩, ?_⟩
  · exact (OrderedMap.get?_delete_of_ne (Ne.symm hne)).trans (hu.only.calls id hne)
  · rw [grip_eq_gripAlone fun c hc => absurd hc (hgone c), gripAlone, htask, gripAlone]

/-- What the broker has of the task once the runner's answer is heard. -/
def gripOn (s : Broker) (t : ℕ) : RunnerAnswer → Grip
  | .accepted => .held
  | _ => s.gripAlone t

theorem resumeRunner_heard (hs : Serves runnerId s) {h₀ : Handshake} {a : RunnerAnswer}
    (hg : s.handshakes.get? h.taskId = some h₀) (hoffer : h.offer = h₀.offer)
    (ha : h.runnerAnswer = some a) (hu : Before runnerId h.taskId s u) :
    Heard runnerId h.taskId s (u.resumeRunner h) ∧
      (u.resumeRunner h).grip h.taskId = s.gripOn h.taskId a := by
  unfold resumeRunner
  rw [ha]
  cases a with
  | accepted => exact createTask_heard hs hg hoffer ha hu
  | rejected reason => exact returnRequest_heard hu false false
  | deferred => exact returnRequest_heard hu true false
  | timedOut => exact returnRequest_heard hu false false

theorem Before.putHandshake (hu : Before runnerId h.taskId s u) :
    Before runnerId h.taskId s (u.putHandshake h) :=
  ⟨⟨hu.only.known, hu.only.offers, hu.only.ids, hu.only.tasks, fun id hne =>
    (OrderedMap.get?_set_of_ne (Ne.symm hne)).trans (hu.only.calls id hne), hu.only.rejects,
    hu.only.sent, nofun⟩, hu.tasks⟩

/-- The answer ends the asking. Otherwise it changes nothing. -/
theorem answerRunner_heard (hs : Serves runnerId s) (hu : Before runnerId t s u)
    (hcalls : u.handshakes = s.handshakes) (a : RunnerAnswer) :
    Heard runnerId t s (u.answerRunner t a) ∧
      (s.grip t ≠ .asking → (u.answerRunner t a).grip t = s.grip t) ∧
      (s.grip t = .asking → (u.answerRunner t a).grip t = .granted ∧ a = .accepted ∨
        (u.answerRunner t a).grip t = s.gripOn t a) := by
  have hstill : s.grip t ≠ .asking → Heard runnerId t s u ∧ u.grip t = s.grip t := by
    intro hne
    refine ⟨⟨hu.only, Or.inl (by rw [hu.tasks]), fun h hg => ⟨h, hcalls ▸ hg, rfl⟩,
      fun h hg hn => absurd (hs.asking_iff.mpr ⟨h, hcalls ▸ hg, hn⟩) hne⟩, ?_⟩
    exact grip_congr (by rw [hu.tasks]) (by rw [hcalls])
  unfold answerRunner
  cases hg : u.handshakes.get? t with
  | none =>
    have hne : s.grip t ≠ .asking := fun ha => by
      obtain ⟨h, hg', _⟩ := hs.asking_iff.mp ha
      rw [hcalls, hg'] at hg
      cases hg
    exact ⟨(hstill hne).1, fun _ => (hstill hne).2, fun ha => absurd ha hne⟩
  | some h =>
    rw [hcalls] at hg
    obtain rfl := hs.keyed.own t h hg
    cases ha : h.runnerAnswer with
    | some b =>
      have hne : s.grip h.taskId ≠ .asking := fun hasking => by
        obtain ⟨h', hg', hn⟩ := hs.asking_iff.mp hasking
        obtain rfl := Option.some.inj (hg.symm.trans hg')
        rw [ha] at hn
        cases hn
      dsimp only
      rw [if_pos (by rw [ha]; rfl)]
      exact ⟨(hstill hne).1, fun _ => (hstill hne).2, fun ha => absurd ha hne⟩
    | none =>
      have hasking := hs.asking_iff.mpr ⟨h, hg, ha⟩
      have hput : Before runnerId h.taskId s (u.putHandshake { h with runnerAnswer := some a }) :=
        Before.putHandshake (h := { h with runnerAnswer := some a }) hu
      dsimp only
      rw [if_neg (by rw [ha]; exact nofun)]
      split
      · obtain ⟨hh, hgrip⟩ := resumeRunner_heard (h := { h with runnerAnswer := some a }) (a := a)
          hs hg rfl rfl hput
        exact ⟨hh, fun hne => absurd hasking hne, fun _ => Or.inr hgrip⟩
      · rename_i hphase
        have hget : (u.putHandshake { h with runnerAnswer := some a }).handshakes.get? h.taskId =
            some { h with runnerAnswer := some a } := OrderedMap.get?_set_self ..
        have hnone : (u.putHandshake { h with runnerAnswer := some a }).tasks.get? h.taskId = none :=
          (congrArg (fun m => m.get? h.taskId) hu.tasks).trans (hs.tasks_of_asking hg ha)
        refine ⟨⟨hput.only, Or.inl (congrArg (fun m => m.get? h.taskId) hu.tasks), fun h' hg' => ?_,
          fun h' hg' hn => ?_⟩, fun hne => absurd hasking hne, fun _ => ?_⟩
        · rw [hget] at hg'
          exact ⟨h, hg, Option.some.inj hg' ▸ rfl⟩
        · rw [hget] at hg'
          obtain rfl := Option.some.inj hg'
          cases hn
        · have hoffering : h.phase = .offering := by
            have hacc := (hs.asked _ h hg ha).1
            simpa [Handshake.accepting, hphase] using hacc
          rw [grip_of_none hnone, hget]
          cases a with
          | accepted => exact Or.inl ⟨if_pos hoffering, rfl⟩
          | _ => exact Or.inr (gripAlone_of_none (hs.tasks_of_asking hg ha)).symm

theorem handleRunnerAnswer_heard (hs : Serves runnerId s) (t : ℕ) (a : RunnerAnswer) :
    Heard runnerId t s (s.handleRunnerAnswer t a) ∧
      (s.grip t ≠ .asking → (s.handleRunnerAnswer t a).grip t = s.grip t) ∧
      (s.grip t = .asking → (s.handleRunnerAnswer t a).grip t = .granted ∧ a = .accepted ∨
        (s.handleRunnerAnswer t a).grip t = s.gripOn t a) := by
  unfold handleRunnerAnswer
  split
  · have hu : Before runnerId t s { s with
        runnerAcceptRejects := s.runnerAcceptRejects.filter (fun id => decide (id ≠ t)) } := by
      refine ⟨⟨rfl, rfl, rfl, fun _ _ => rfl, fun _ _ => rfl, fun id hne hid => ?_,
        (List.append_nil _).symm, nofun⟩, rfl⟩
      exact List.mem_filter.mpr ⟨hid, by simpa using hne⟩
    exact answerRunner_heard hs hu rfl a
  · rename_i hnot
    have hne : s.grip t ≠ .asking := fun ha => by
      obtain ⟨h, hg, hn⟩ := hs.asking_iff.mp ha
      exact hnot (hs.asked t h hg hn).2
    exact ⟨⟨.refl s, Or.inl rfl, fun h hg => ⟨h, hg, rfl⟩, hs.asked t⟩, fun _ => rfl,
      fun ha => absurd ha hne⟩

/-- The question has been sent, and the handshake waits for the answer. -/
theorem sentOffer_heard (hs : Serves runnerId s) (h' : Handshake)
    (hg : s.handshakes.get? h.taskId = some h) (hp : h.phase = .offering)
    (hid : h'.taskId = h.taskId) (hoffer : h'.offer = h.offer)
    (hans : h'.runnerAnswer = h.runnerAnswer) (hacc : h'.accepting = true) :
    Heard runnerId h.taskId s ((s.putHandshake h').resumeRunner h') ∧
      (((s.putHandshake h').resumeRunner h').grip h.taskId = s.grip h.taskId ∨
        s.grip h.taskId = .granted ∧
          ((s.putHandshake h').resumeRunner h').grip h.taskId = .held) := by
  have hput : Before runnerId h'.taskId s (s.putHandshake h') :=
    Before.putHandshake ⟨.refl s, rfl⟩
  rw [← hid] at hg ⊢
  cases ha : h.runnerAnswer with
  | none =>
    have hget : (s.putHandshake h').handshakes.get? h'.taskId = some h' :=
      OrderedMap.get?_set_self ..
    have hstill : (s.putHandshake h').resumeRunner h' = s.putHandshake h' := by
      rw [resumeRunner, hans, ha]
    rw [hstill]
    refine ⟨⟨hput.only, Or.inl rfl, fun c hc => ?_, fun c hc _ => ?_⟩, Or.inl ?_⟩
    · rw [hget] at hc
      exact ⟨h, hg, Option.some.inj hc ▸ hoffer⟩
    · rw [hget] at hc
      exact ⟨Option.some.inj hc ▸ hacc, (hs.asked _ h hg ha).2⟩
    · have hnone : (s.putHandshake h').tasks.get? h'.taskId = none := hs.tasks_of_asking hg ha
      rw [hs.asking_iff.mpr ⟨h, hg, ha⟩, grip_of_none hnone, hget, Option.map_some,
        Option.getD_some, Handshake.grip, hans, ha]
  | some a =>
    obtain ⟨hh, hgrip⟩ := resumeRunner_heard hs hg hoffer (hans.trans ha) hput
    refine ⟨hh, ?_⟩
    rw [hgrip]
    have hcall : ∀ c, s.handshakes.get? h'.taskId = some c → c = h := fun c hc =>
      Option.some.inj (hc.symm.trans hg)
    cases a with
    | accepted =>
      cases htask : s.tasks.get? h'.taskId with
      | some task => exact Or.inl (grip_of_task htask).symm
      | none =>
        refine Or.inr ⟨?_, rfl⟩
        rw [grip_of_none htask, hg, Option.map_some, Option.getD_some, Handshake.grip, ha]
        exact if_pos hp
    | _ =>
      refine Or.inl (grip_eq_gripAlone fun c hc => ?_).symm
      rw [hcall c hc, Handshake.grip, ha]

theorem messageSettled_heard (hs : Serves runnerId s) (hg : s.handshakes.get? t = some h)
    (hp : h.phase = .offering) : Heard runnerId t s (s.messageSettled t true) ∧
      ((s.messageSettled t true).grip t = s.grip t ∨
        s.grip t = .granted ∧ (s.messageSettled t true).grip t = .held) := by
  obtain rfl := hs.keyed.own t h hg
  have hsettled : s.messageSettled h.taskId true =
      (s.putHandshake { h with phase := .awaitingRunner }).resumeRunner
        { h with phase := .awaitingRunner } := by
    rw [messageSettled, hg]
    dsimp only
    rw [hp]
  rw [hsettled]
  exact sentOffer_heard hs { h with phase := .awaitingRunner } hg hp rfl rfl rfl
    (by simp [Handshake.accepting])

/-! ### New questions -/

/-- Nothing has been done but to ask for new tasks. -/
structure Asks (runnerId : String) (new : List ToRunner) (s s' : Broker) : Prop where
  serves : Serves runnerId s'
  tasks : s'.tasks = s.tasks
  ids : s.nextTaskId ≤ s'.nextTaskId
  calls : ∀ t, s'.handshakes.get? t = s.handshakes.get? t ∨ s.handshakes.get? t = none ∧
    s'.grip t = .asking
  sent : s'.sentToRunners = s.sentToRunners ++ new.map fun m => (runnerId, m)
  offered : ∀ t ∈ new.filterMap ToRunner.offeredTask?, s.nextTaskId ≤ t ∧ t < s'.nextTaskId
  distinct : (new.filterMap ToRunner.offeredTask?).Nodup

theorem Asks.refl (hs : Serves runnerId s) : Asks runnerId [] s s :=
  ⟨hs, rfl, Nat.le_refl _, fun _ => Or.inl rfl, (List.append_nil _).symm, nofun, List.nodup_nil⟩

theorem Asks.trans (h : Asks runnerId new s u) (h' : Asks runnerId new' u s') :
    Asks runnerId (new ++ new') s s' := by
  refine ⟨h'.serves, h'.tasks.trans h.tasks, Nat.le_trans h.ids h'.ids, fun t => ?_, ?_,
    fun t ht => ?_, ?_⟩
  · rcases h'.calls t with he' | ⟨hn', ha'⟩
    · rcases h.calls t with he | ⟨hn, ha⟩
      · exact Or.inl (he'.trans he)
      · exact Or.inr ⟨hn, (grip_congr (by rw [h'.tasks]) he').trans ha⟩
    · rcases h.calls t with he | ⟨_, ha⟩
      · exact Or.inr ⟨he ▸ hn', ha'⟩
      · obtain ⟨c, hc, _⟩ := h.serves.asking_iff.mp ha
        rw [hn'] at hc
        cases hc
  · rw [h'.sent, h.sent, List.append_assoc, ← List.map_append]
  · rw [List.filterMap_append, List.mem_append] at ht
    rcases ht with ht | ht
    · exact ⟨(h.offered t ht).1, Nat.lt_of_lt_of_le (h.offered t ht).2 h'.ids⟩
    · exact ⟨Nat.le_trans h.ids (h'.offered t ht).1, (h'.offered t ht).2⟩
  · rw [List.filterMap_append]
    refine List.nodup_append.mpr ⟨h.distinct, h'.distinct, fun t ht t' ht' he => ?_⟩
    have hlt := (h.offered t ht).2
    have hge := (h'.offered t' ht').1
    omega

theorem acceptOffer_asks (hs : Serves runnerId s) {offer : TaskOffer}
    (hrunner : offer.runnerId = runnerId) (request : ℕ) :
    Asks runnerId [.taskOfferAccept offer.offerId s.nextTaskId] s (s.acceptOffer offer request) := by
  have hk := hs.keyed.acceptOffer offer request
  unfold acceptOffer at hk ⊢
  dsimp only at hk ⊢
  generalize hh : Handshake.mk s.nextTaskId offer request .offering none none = h at hk ⊢
  have hid : h.taskId = s.nextTaskId := hh ▸ rfl
  have hanswer : h.runnerAnswer = none := hh ▸ rfl
  have hacc : h.accepting = true := hh ▸ rfl
  generalize hu : Broker.putHandshake _ h = u at hk ⊢
  rw [messageRunner_sent_eq (hu ▸ hs.known : u.knownRunners = [runnerId]) hrunner] at hk ⊢
  subst hu
  have hget : ∀ t, (s.handshakes.set h.taskId h).get? t =
      if s.nextTaskId = t then some h else s.handshakes.get? t := fun t => by
    rw [OrderedMap.get?_set, hid]
  obtain ⟨hnotask, hnocall, _⟩ := hs.keyed.fresh s.nextTaskId (Nat.le_refl _)
  refine ⟨⟨hk, hs.known, hs.tasks, fun t c hc => ?_, fun t c hc hn => ?_, hs.offers⟩, rfl,
    Nat.le_succ _, fun t => ?_, rfl, ?_, List.nodup_singleton _⟩
  · rcases ite_eq_iff.mp ((hget t).symm.trans hc) with ⟨_, he⟩ | ⟨_, he⟩
    · exact Option.some.inj he ▸ hh ▸ hrunner
    · exact hs.calls t c he
  · rcases ite_eq_iff.mp ((hget t).symm.trans hc) with ⟨rfl, he⟩ | ⟨_, he⟩
    · exact ⟨Option.some.inj he ▸ hacc, List.mem_append_right _ (List.mem_singleton_self _)⟩
    · exact ⟨(hs.asked t c he hn).1, List.mem_append_left _ (hs.asked t c he hn).2⟩
  · by_cases he : s.nextTaskId = t
    · subst he
      refine Or.inr ⟨hnocall, ?_⟩
      rw [grip_of_none]
      · rw [putHandshake, hget, if_pos rfl, Option.map_some, Option.getD_some, Handshake.grip,
          hanswer]
      · exact hnotask
    · exact Or.inl ((hget t).trans (if_neg he))
  · intro t ht
    obtain rfl : t = s.nextTaskId := by simpa [ToRunner.offeredTask?] using ht
    exact ⟨Nat.le_refl _, Nat.lt_succ_self _⟩

theorem settleRequest_asks (hs : Serves runnerId s) (request : ℕ) :
    ∃ new, Asks runnerId new s (s.settleRequest request) := by
  unfold settleRequest
  dsimp only
  split
  · exact ⟨[], .refl hs⟩
  split
  · exact ⟨[], .refl hs⟩
  · rename_i offer hfind
    generalize Function.update s.requests request _ = requests
    generalize hoffers : s.pendingTaskOffers.eraseP _ = offers
    have hu : Serves runnerId { s with requests := requests, pendingTaskOffers := offers } := by
      refine ⟨⟨hs.keyed.fresh, hs.keyed.open_, hs.keyed.own, hs.keyed.accepted, hs.keyed.ids⟩,
        hs.known, hs.tasks, hs.calls, hs.asked, fun o ho => hs.offers o ?_⟩
      exact List.mem_of_mem_eraseP (hoffers ▸ ho)
    have ha := acceptOffer_asks hu (hs.offers offer (List.mem_of_find?_eq_some hfind)) request
    exact ⟨_, ha.serves, ha.tasks, ha.ids, ha.calls, ha.sent, ha.offered, ha.distinct⟩

theorem settleTasks_asks (hs : Serves runnerId s) : ∃ new, Asks runnerId new s s.settleTasks := by
  refine settleTasks_induction (P := fun u => ∃ new, Asks runnerId new s u) ⟨[], ?_⟩ ?_
  · have hexpired : Serves runnerId s.expireTasks := by
      refine ⟨⟨hs.keyed.fresh, hs.keyed.open_, hs.keyed.own, hs.keyed.accepted, hs.keyed.ids⟩,
        hs.known, hs.tasks, hs.calls, hs.asked, fun o ho => hs.offers o ?_⟩
      exact (List.mem_filter.mp ho).1
    exact ⟨hexpired, rfl, Nat.le_refl _, fun _ => Or.inl rfl, (List.append_nil _).symm, nofun,
      List.nodup_nil⟩
  · rintro u r _ ⟨new, ha⟩
    obtain ⟨new', ha'⟩ := settleRequest_asks ha.serves r
    exact ⟨new ++ new', ha.trans ha'⟩

end

end Broker
end N8n.TaskBroker
