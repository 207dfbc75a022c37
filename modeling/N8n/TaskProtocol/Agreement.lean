import N8n.TaskProtocol.Connection

/-!
# Agreement on accepted tasks

What the broker has of a task (`Grip`) and where the runner is with it (`Phase`)
are tied together by the messages in flight. A task that waits for its settings at
the runner is asked for, with the acceptance on its way, or it is the broker's, or
the message that ends the wait is on its way. The tie breaks where the broker gives
up a question without a message, and the runner has accepted or still does.
-/

namespace N8n.TaskRunner
open N8n.TaskBroker (RunnerMessage ToRunner)

/-! ### What the runner has said of a task -/

/-- A refusal is said of unknown tasks, and the end of tasks that have gone on. -/
structure Spoken (p : Phase) (said : List RunnerMessage) : Prop where
  refused : ∀ m ∈ said, m.answersOffer = true → (∀ t, m ≠ .taskAccepted t) → p = .unknown
  ended : ∀ m ∈ said, m.endsTask = true → p ≠ .unknown ∧ p ≠ .waiting

theorem answersOffer_of_endsTask {m : RunnerMessage} (h : m.endsTask = true) :
    m.answersOffer = false := by
  cases m with
  | taskDone | taskError => rfl
  | _ => cases h

theorem Move.spoken {t : ℕ} {p p' : Phase} {c : Cause} {new said : List RunnerMessage}
    (h : Move t p c new p') (hs : Spoken p said)
    (hfirst : p = .unknown → p' ≠ .unknown → said = []) : Spoken p' (said ++ new) := by
  have hon : p ≠ .unknown → p' ≠ .unknown → p' ≠ .waiting → (∀ m ∈ new, m.answersOffer = false) →
      Spoken p' (said ++ new) := by
    intro hp hp' hw hnew
    refine ⟨fun m hm ha hacc => ?_, fun _ _ _ => ⟨hp', hw⟩⟩
    rcases List.mem_append.mp hm with hm | hm
    · exact absurd (hs.refused m hm ha hacc) hp
    · rw [hnew m hm] at ha
      cases ha
  cases h with
  | stay =>
    rw [List.append_nil]
    exact hs
  | rejected reason =>
    refine ⟨fun _ _ _ _ => rfl, fun m hm he => ?_⟩
    rcases List.mem_append.mp hm with hm | hm
    · exact hs.ended m hm he
    · rw [List.mem_singleton.mp hm] at he
      cases he
  | accepted =>
    rw [hfirst rfl nofun, List.nil_append]
    refine ⟨fun m hm _ hacc => ?_, fun m hm he => ?_⟩
    · exact absurd (List.mem_singleton.mp hm) (hacc t)
    · rw [List.mem_singleton.mp hm] at he
      cases he
  | answered hp hm =>
    refine hon ?_ nofun nofun fun m' hm' => ?_
    · rcases hp with rfl | rfl <;> exact nofun
    · exact List.mem_singleton.mp hm' ▸ answersOffer_of_endsTask hm
  | timedOutWaiting error =>
    exact hon nofun nofun nofun fun m hm => List.mem_singleton.mp hm ▸ rfl
  | _ => exact hon nofun nofun nofun nofun

namespace Runner

variable {s : Runner} {t : ℕ} {e : RunnerEvent}

theorem accepted_of_phase (h : s.Sound) (hp : s.phase t ≠ .unknown) : s.accepted t := by
  cases hk : s.runningTasks.get? t with
  | some k => exact (h t).accepted (by rw [hk]; rfl)
  | none =>
    by_contra hno
    rw [phase_of_none hk, if_neg hno] at hp
    exact hp rfl

/-- An offer's acceptance is answered in the step that reads it. -/
theorem answered_next {m : RunnerMessage} (hm : m ∈ (s.next e).sent)
    (ha : m.answersOffer = true) : m ∈ s.sent ∨ m.taskId? = e.offeredTask? := by
  rcases s.next_cases e with hk | ⟨offerId, t, rfl, hr⟩
  · obtain ⟨new, hsent, hno⟩ := hk.sent
    rw [hsent, List.mem_append] at hm
    exact hm.imp_right fun hm => absurd ha (by rw [hno m hm]; exact nofun)
  · obtain ⟨answer, hsent, hid⟩ : ∃ answer : RunnerMessage,
        (s.next (.message (.taskOfferAccept offerId t))).sent = s.sent ++ [answer] ∧
          answer.taskId? = some t := by
      rcases hr with hr | ⟨ht, _⟩
      · obtain ⟨reason, hsent⟩ := hr.sent
        exact ⟨_, hsent, rfl⟩
      · exact ⟨_, ht.sent, rfl⟩
    rw [hsent, List.mem_append] at hm
    refine hm.imp_right fun hm => ?_
    rw [List.mem_singleton.mp hm]
    exact hid

/-- A task is accepted for an open offer, and when there is a place. -/
theorem accepts_of_accepted (h : (s.next e).accepted t) (hno : ¬ s.accepted t) :
    ∃ offerId, e = .message (.taskOfferAccept offerId t) ∧ s.accepts offerId = true := by
  obtain ⟨new, hsent, hnew⟩ := s.next_acceptsForOffer e
  have hmem : .taskAccepted t ∈ new := by
    have hin := accepted_iff.mp h
    rw [hsent, List.mem_append] at hin
    exact hin.resolve_left fun hold => hno (accepted_iff.mpr hold)
  obtain ⟨offerId, rfl, _⟩ := hnew t hmem
  refine ⟨offerId, rfl, ?_⟩
  by_contra haccepts
  obtain ⟨reason, hrefused⟩ := (offerAccepted_refuses (by simpa using haccepts) t).sent
  have hin := accepted_iff.mp h
  rw [show s.next (.message (.taskOfferAccept offerId t)) = s.offerAccepted offerId t from rfl,
    hrefused, List.mem_append] at hin
  rcases hin with hin | hin
  · exact hno (accepted_iff.mpr hin)
  · simp at hin

theorem mem_about {m : RunnerMessage} : m ∈ s.about t ↔ m ∈ s.sent ∧ m.taskId? = some t := by
  simp [about]

/-- Nothing is said of a task before it is offered. -/
theorem about_next (h : s.Sound) (hf : s.Fresh e) (hnone : s.about t = [])
    (he : e.offeredTask? ≠ some t) : (s.next e).about t = [] := by
  have hunknown : s.phase t = .unknown := by
    by_contra hp
    have hacc := accepted_of_phase h hp
    rw [accepted, hnone] at hacc
    cases hacc
  obtain ⟨new, hm, habout⟩ := next_move h hf t
  have hquiet : ∀ m ∈ new, m.answersOffer = false := by
    intro m hmem
    have hm' : m ∈ (s.next e).about t := habout ▸ List.mem_append_right _ hmem
    obtain ⟨hsent, hid⟩ := mem_about.mp hm'
    by_contra ha
    rcases answered_next hsent (by simpa using ha) with hold | hoffer
    · have hold' := mem_about.mpr ⟨hold, hid⟩
      rw [hnone] at hold'
      cases hold'
    · exact he (hoffer.symm.trans hid)
  rw [habout, hnone, List.nil_append]
  generalize (s.next e).phase t = p at hm
  generalize s.cause t e = c at hm
  rw [hunknown] at hm
  cases hm with
  | stay => rfl
  | rejected reason =>
    exact absurd (hquiet _ (List.mem_singleton_self _)) (by simp [RunnerMessage.answersOffer])
  | accepted =>
    exact absurd (hquiet _ (List.mem_singleton_self _)) (by simp [RunnerMessage.answersOffer])
  | answered hp => rcases hp with hp | hp <;> cases hp

/-- An accepted task that still waits has not been told to go on. -/
theorem still_waiting (h : s.Sound) (hf : s.Fresh e) (hacc : s.accepted t)
    (hp : (s.next e).phase t = .waiting) : s.phase t = .waiting ∧ s.cause t e = .other := by
  obtain ⟨new, hm, _⟩ := next_move h hf t
  have hknown := phase_ne_unknown hacc
  rw [hp] at hm
  generalize s.phase t = p at hm hknown
  generalize s.cause t e = c at hm
  cases hm with
  | stay hidle =>
    cases c with
    | other => exact ⟨rfl, rfl⟩
    | _ => cases hidle
  | accepted => exact absurd rfl hknown

theorem accepted_mono (h : s.Sound) (hf : s.Fresh e) (hacc : s.accepted t) :
    (s.next e).accepted t := by
  obtain ⟨new, _, habout⟩ := next_move h hf t
  rw [accepted, habout]
  exact List.mem_append_left _ hacc

end Runner

end N8n.TaskRunner

namespace N8n.TaskProtocol
open N8n.TaskBroker N8n.TaskRunner
open N8n.Runs

theorem waitsForSettings_phase {s : Runner} {t : ℕ} (h : waitsForSettings s t) :
    s.phase t = .waiting := by
  obtain ⟨state, hk, hstatus⟩ := h
  rw [Runner.phase_of_some hk, hstatus]
  rfl

namespace Connection

/-- A message that ends the wait for the settings of the task is on its way. -/
def MovesOn (s : Connection) (t : ℕ) : Prop := ∃ m ∈ s.toRunner, m.movesOn t = true

/-- What the broker has of a task that waits for its settings. -/
inductive Awaited (s : Connection) (t : ℕ) : Prop where
  | asking (hg : s.relay.broker.grip t = .asking) (hm : .taskAccepted t ∈ s.toBroker)
  | granted (hg : s.relay.broker.grip t = .granted)
  | held (hg : s.relay.broker.grip t = .held)
  | movesOn (hm : s.MovesOn t)

def offered (s : Connection) : List ℕ := s.toRunner.filterMap ToRunner.offeredTask?

/-- Broker and runner agree about the task, up to what is in flight. -/
structure AgreeOn (s : Connection) (t : ℕ) : Prop where
  known : s.runner.about t ≠ [] → t < s.relay.broker.nextTaskId
  spoken : Spoken (s.runner.phase t) (s.runner.about t)
  waiting : s.runner.phase t = .waiting → s.Awaited t
  settled : s.relay.Settled t →
    s.runner.accepted t ∧ (s.runner.phase t = .waiting → s.MovesOn t)
  taken : s.relay.broker.grip t = .granted ∨ s.relay.broker.grip t = .held → s.runner.accepted t

structure Agreeing (s : Connection) : Prop where
  serves : s.relay.broker.Serves s.runnerId
  numbered : s.relay.Numbered
  sound : s.runner.Sound
  readByRunner : s.readByRunner ≤ s.sentToRunner.length
  readByBroker : s.readByBroker ≤ s.runner.sent.length
  distinct : s.offered.Nodup
  unanswered : ∀ t ∈ s.offered, t < s.relay.broker.nextTaskId ∧ s.runner.about t = []
  agree : ∀ t, s.AgreeOn t

theorem Agreeing.agreed {s : Connection} (h : s.Agreeing) : s.Agreed := by
  intro hq t hwaits
  have hnocall : s.relay.broker.handshakes.get? t = none := by
    rw [OrderedMap.get?_eq_none, hq.calls]
    exact List.not_mem_nil
  have hheld : s.relay.broker.grip t ≠ .loose → t ∈ s.relay.broker.tasks.keys := by
    intro hne
    by_contra hno
    refine hne ?_
    rw [Broker.grip_of_none (OrderedMap.get?_eq_none.mpr hno), hnocall]
    rfl
  cases (h.agree t).waiting (waitsForSettings_phase hwaits) with
  | asking hg => exact hheld (by rw [hg]; exact nofun)
  | granted hg => exact hheld (by rw [hg]; exact nofun)
  | held hg => exact hheld (by rw [hg]; exact nofun)
  | movesOn hm =>
    obtain ⟨m, hm, _⟩ := hm
    rw [hq.toRunner] at hm
    cases hm

/-! ### Steps of the broker -/

section
variable {s s' : Connection} {t : ℕ}

/-- The state after a step of the broker, by what it has sent. -/
structure BrokerStep (s : Connection) (e : RelayEvent) (new : List ToRunner) (s' : Connection) :
    Prop where
  runnerId : s'.runnerId = s.runnerId
  runner : s'.runner = s.runner
  turns : s.relay.Turns s.runnerId e new s'.relay
  toRunner : s'.toRunner = s.toRunner ++ new
  toBroker : ∀ m ∈ s.toBroker, m ∈ s'.toBroker ∨ e = .fromRunner s.runnerId m
  source : ∀ id m, e = .fromRunner id m → m ∈ s.toBroker

theorem BrokerStep.movesOn {e : RelayEvent} {new : List ToRunner} (h : BrokerStep s e new s')
    (hm : s.MovesOn t ∨ ∃ m ∈ new, m.movesOn t = true) : s'.MovesOn t := by
  rcases hm with ⟨m, hm, hon⟩ | ⟨m, hm, hon⟩
  · exact ⟨m, h.toRunner ▸ List.mem_append_left _ hm, hon⟩
  · exact ⟨m, h.toRunner ▸ List.mem_append_right _ hm, hon⟩

theorem mem_about_of_toBroker {m : RunnerMessage} (hm : m ∈ s.toBroker) (hid : m.taskId? = some t) :
    m ∈ s.runner.about t := Runner.mem_about.mpr ⟨List.mem_of_mem_drop hm, hid⟩

/-- The runner no longer waits for the settings of a task that it has ended. -/
theorem BrokerStep.ended {e : RelayEvent} {new : List ToRunner} (hb : BrokerStep s e new s')
    (h : s.AgreeOn t) (hs : s.runner.Sound) (he : e.ends t = true) :
    s.runner.accepted t ∧ s.runner.phase t ≠ .waiting := by
  cases e with
  | fromRunner id m =>
    obtain ⟨hm, hid⟩ := Bool.and_eq_true_iff.mp he
    have hin := mem_about_of_toBroker (hb.source id m rfl) (of_decide_eq_true hid)
    obtain ⟨hp, hw⟩ := h.spoken.ended m hin hm
    exact ⟨Runner.accepted_of_phase hs hp, hw⟩
  | _ => cases he

/-- The runner does not wait for a task that is refused in time. -/
theorem BrokerStep.refused {e : RelayEvent} {new : List ToRunner} (hb : BrokerStep s e new s')
    (h : s.AgreeOn t) (hin : e = .runnerAcceptTimeout t → s.runner.phase t ≠ .waiting)
    (he : e.refuses t = true) : s.runner.phase t ≠ .waiting := by
  have hanswer : ∀ id m, e = .fromRunner id m → m.answersOffer = true →
      (∀ t, m ≠ .taskAccepted t) → m.taskId? = some t → s.runner.phase t ≠ .waiting := by
    intro id m hm ha hacc hid
    rw [h.spoken.refused m (mem_about_of_toBroker (hb.source id m hm) hid) ha hacc]
    simp
  cases e with
  | fromRunner id m =>
    cases m with
    | taskRejected t' reason | taskDeferred t' =>
      obtain rfl : t' = t := by simpa [RelayEvent.refuses] using he
      exact hanswer id _ rfl rfl (by simp) rfl
    | _ => cases he
  | runnerAcceptTimeout t' =>
    obtain rfl : t' = t := by simpa [RelayEvent.refuses] using he
    exact hin rfl
  | _ => cases he

theorem BrokerStep.awaited {e : RelayEvent} {new : List ToRunner} (hb : BrokerStep s e new s')
    (h : s.AgreeOn t) (hs : s.runner.Sound) (hp : s.runner.phase t = .waiting)
    (hin : e = .runnerAcceptTimeout t → s.relay.broker.grip t = .asking →
      s.runner.phase t ≠ .waiting) : s'.Awaited t := by
  have hturn := hb.turns.turn t
  generalize hg' : s'.relay.broker.grip t = g at hturn
  cases h.waiting hp with
  | asking hg hm =>
    rw [hg] at hturn
    cases hturn with
    | stay hacc =>
      refine .asking hg' ((hb.toBroker _ hm).resolve_right fun he => ?_)
      have htaken := hacc rfl
      rw [he] at htaken
      simp [RelayEvent.accepts] at htaken
    | accepted _ hor =>
      rcases hor with rfl | rfl
      · exact .granted hg'
      · exact .held hg'
    | refused he => exact absurd hp (hb.refused h (fun hto => hin hto hg) he)
  | granted hg =>
    rw [hg] at hturn
    cases hturn with
    | stay => exact .granted hg'
    | created => exact .held hg'
  | held hg =>
    rw [hg] at hturn
    cases hturn with
    | stay => exact .held hg'
    | letGo hwhy =>
      rcases hwhy with hsettled | hends | hnew
      · exact .movesOn (hb.movesOn (Or.inl ((h.settled hsettled).2 hp)))
      · exact absurd hp (hb.ended h hs hends).2
      · exact .movesOn (hb.movesOn (Or.inr hnew))
  | movesOn hm => exact .movesOn (hb.movesOn (Or.inl hm))

theorem BrokerStep.agreeOn {e : RelayEvent} {new : List ToRunner} (hb : BrokerStep s e new s')
    (h : s.AgreeOn t) (hs : s.runner.Sound) (hin : e = .runnerAcceptTimeout t →
      s.relay.broker.grip t = .asking → s.runner.phase t ≠ .waiting) : s'.AgreeOn t := by
  constructor
  · rw [hb.runner]
    exact fun hne => Nat.lt_of_lt_of_le (h.known hne) hb.turns.ids
  · rw [hb.runner]
    exact h.spoken
  · rw [hb.runner]
    exact fun hp => hb.awaited h hs hp hin
  · rw [hb.runner]
    intro hsettled
    rcases hb.turns.settled t hsettled with hbefore | hends | ⟨hheld, hnew⟩
    · exact ⟨(h.settled hbefore).1, fun hp => hb.movesOn (Or.inl ((h.settled hbefore).2 hp))⟩
    · obtain ⟨hacc, hw⟩ := hb.ended h hs hends
      exact ⟨hacc, fun hp => absurd hp hw⟩
    · exact ⟨h.taken (Or.inr hheld), fun _ => hb.movesOn (Or.inr hnew)⟩
  · rw [hb.runner]
    intro hor
    have hturn := hb.turns.turn t
    generalize hg : s.relay.broker.grip t = g at hturn
    generalize s'.relay.broker.grip t = g' at hturn hor
    cases hturn with
    | stay => exact h.taken (hg ▸ hor)
    | asked | refused => rcases hor with hor | hor <;> cases hor
    | created => exact h.taken (Or.inl hg)
    | letGo => exact h.taken (Or.inr hg)
    | accepted he =>
      -- the acceptance has just been read
      cases e with
      | fromRunner id m =>
        cases m with
        | taskAccepted t' =>
          obtain rfl : t' = t := by simpa [RelayEvent.accepts] using he
          exact mem_about_of_toBroker (hb.source id _ rfl) rfl
        | _ => cases he
      | _ => cases he

theorem BrokerStep.agreeing {e : RelayEvent} {new : List ToRunner} (hb : BrokerStep s e new s')
    (h : s.Agreeing) (hn : s'.relay.Numbered) (hread : s'.readByRunner ≤ s'.sentToRunner.length)
    (hread' : s'.readByBroker ≤ s'.runner.sent.length) (hin : ∀ t, e = .runnerAcceptTimeout t →
      s.relay.broker.grip t = .asking → s.runner.phase t ≠ .waiting) : s'.Agreeing := by
  have hoffered : s'.offered = s.offered ++ new.filterMap ToRunner.offeredTask? := by
    rw [offered, hb.toRunner, List.filterMap_append]
    rfl
  refine ⟨hb.runnerId ▸ hb.turns.serves, hn, hb.runner ▸ h.sound, hread, hread', ?_, fun t ht => ?_,
    fun t => hb.agreeOn (h.agree t) h.sound (hin t)⟩
  · rw [hoffered]
    refine List.nodup_append.mpr ⟨h.distinct, hb.turns.distinct, fun t ht t' ht' he => ?_⟩
    have hlt := (h.unanswered t ht).1
    have hge := (hb.turns.offered t' ht').1
    omega
  · rw [hoffered, List.mem_append] at ht
    rw [hb.runner]
    rcases ht with ht | ht
    · obtain ⟨hlt, hnone⟩ := h.unanswered t ht
      exact ⟨Nat.lt_of_lt_of_le hlt hb.turns.ids, hnone⟩
    · obtain ⟨hge, hlt⟩ := hb.turns.offered t ht
      refine ⟨hlt, ?_⟩
      by_contra hne
      exact absurd ((h.agree t).known hne) (Nat.not_lt.mpr hge)

/-! ### Steps of the runner -/

/-- The state after a step of the runner, which may read a message. -/
structure RunnerStep (s : Connection) (e : RunnerEvent) (s' : Connection) : Prop where
  runnerId : s'.runnerId = s.runnerId
  relay : s'.relay = s.relay
  runner : s'.runner = s.runner.next e
  reads : (∃ m, e = .message m ∧ s.toRunner = m :: s'.toRunner) ∨
    (∀ m, e ≠ .message m) ∧ s'.toRunner = s.toRunner
  readByBroker : s'.readByBroker = s.readByBroker

theorem RunnerStep.offered {e : RunnerEvent} (hr : RunnerStep s e s') :
    s.offered = e.offeredTask?.toList ++ s'.offered := by
  unfold Connection.offered
  rcases hr.reads with ⟨m, rfl, hread⟩ | ⟨hno, hsame⟩
  · rw [hread, List.filterMap_cons]
    cases m <;> rfl
  · rw [hsame]
    cases e with
    | message m => exact absurd rfl (hno m)
    | _ => rfl

theorem RunnerStep.fresh {e : RunnerEvent} (hr : RunnerStep s e s') (h : s.Agreeing) :
    s.runner.Fresh e := by
  rintro offerId t rfl hacc
  have hin : t ∈ s.offered := hr.offered ▸ List.mem_cons_self
  rw [Runner.accepted, (h.unanswered t hin).2] at hacc
  cases hacc

/-- The messages of the runner that the broker has not read are still there. -/
theorem RunnerStep.toBroker {e : RunnerEvent} (hr : RunnerStep s e s') (h : s.Agreeing) :
    ∃ new, s'.runner.sent = s.runner.sent ++ new ∧ s'.toBroker = s.toBroker ++ new := by
  obtain ⟨new, hsent, _⟩ := s.runner.next_acceptsForOffer e
  refine ⟨new, hr.runner ▸ hsent, ?_⟩
  rw [Connection.toBroker, hr.runner, hr.readByBroker, hsent,
    List.drop_append_of_le_length h.readByBroker]
  rfl

theorem RunnerStep.movesOn {e : RunnerEvent} (hr : RunnerStep s e s')
    (hc : s.runner.cause t e = .other) (hm : s.MovesOn t) : s'.MovesOn t := by
  obtain ⟨m, hm, hon⟩ := hm
  rcases hr.reads with ⟨m', rfl, hread⟩ | ⟨_, hsame⟩
  · rw [hread] at hm
    rcases List.mem_cons.mp hm with rfl | hm
    · cases m with
      | taskCancel t' reason | taskSettings t' settings =>
        obtain rfl : t' = t := by simpa [ToRunner.movesOn] using hon
        rw [Runner.cause, if_pos rfl] at hc
        cases hc
      | _ => cases hon
    · exact ⟨m, hm, hon⟩
  · exact ⟨m, hsame ▸ hm, hon⟩

theorem RunnerStep.awaited {e : RunnerEvent} (hr : RunnerStep s e s') (h : s.Agreeing)
    (hin : ∀ offerId, e = .message (.taskOfferAccept offerId t) →
      s.runner.accepts offerId = true → s.relay.broker.grip t = .asking)
    (hp : s'.runner.phase t = .waiting) : s'.Awaited t := by
  have hf := hr.fresh h
  have hgrip : s'.relay.broker.grip t = s.relay.broker.grip t := by rw [hr.relay]
  obtain ⟨new, hsent, htoBroker⟩ := hr.toBroker h
  rw [hr.runner] at hp
  by_cases hacc : s.runner.accepted t
  · obtain ⟨hp, hc⟩ := Runner.still_waiting h.sound hf hacc hp
    cases (h.agree t).waiting hp with
    | asking hg hm => exact .asking (hgrip.trans hg) (htoBroker ▸ List.mem_append_left _ hm)
    | granted hg => exact .granted (hgrip.trans hg)
    | held hg => exact .held (hgrip.trans hg)
    | movesOn hm => exact .movesOn (hr.movesOn hc hm)
  · have hnow : (s.runner.next e).accepted t :=
      Runner.accepted_of_phase (h.sound.next hf) (by rw [hp]; exact nofun)
    obtain ⟨offerId, he, haccepts⟩ := Runner.accepts_of_accepted hnow hacc
    refine .asking (hgrip.trans (hin offerId he haccepts)) ?_
    have hmem := Runner.accepted_iff.mp hnow
    rw [← hr.runner, hsent, List.mem_append] at hmem
    have hnew := hmem.resolve_left fun hold => hacc (Runner.accepted_iff.mpr hold)
    exact htoBroker ▸ List.mem_append_right _ hnew

theorem RunnerStep.agreeOn {e : RunnerEvent} (hr : RunnerStep s e s') (h : s.Agreeing)
    (hin : ∀ offerId, e = .message (.taskOfferAccept offerId t) →
      s.runner.accepts offerId = true → s.relay.broker.grip t = .asking) : s'.AgreeOn t := by
  have hf := hr.fresh h
  have hfirst : e.offeredTask? = some t → t < s.relay.broker.nextTaskId ∧ s.runner.about t = [] := by
    intro he
    refine h.unanswered t ?_
    rw [hr.offered, he]
    exact List.mem_cons_self
  obtain ⟨new, hm, habout⟩ := Runner.next_move h.sound hf t
  constructor
  · intro hne
    rw [hr.relay]
    by_cases he : e.offeredTask? = some t
    · exact (hfirst he).1
    · refine (h.agree t).known fun hnone => hne ?_
      rw [hr.runner]
      exact Runner.about_next h.sound hf hnone he
  · rw [hr.runner, habout]
    refine hm.spoken (h.agree t).spoken fun hp hp' => ?_
    have hnow := Runner.accepted_of_phase (h.sound.next hf) hp'
    have hnot : ¬ s.runner.accepted t := fun hacc => Runner.phase_ne_unknown hacc hp
    exact (hfirst ((Runner.accepted_next hnow).resolve_left hnot)).2
  · exact hr.awaited h hin
  · rw [hr.relay, hr.runner]
    intro hsettled
    obtain ⟨hacc, hon⟩ := (h.agree t).settled hsettled
    refine ⟨Runner.accepted_mono h.sound hf hacc, fun hp => ?_⟩
    obtain ⟨hp, hc⟩ := Runner.still_waiting h.sound hf hacc hp
    exact hr.movesOn hc (hon hp)
  · rw [hr.relay, hr.runner]
    exact fun hg => Runner.accepted_mono h.sound hf ((h.agree t).taken hg)

theorem RunnerStep.agreeing {e : RunnerEvent} (hr : RunnerStep s e s') (h : s.Agreeing)
    (hread : s'.readByRunner ≤ s'.sentToRunner.length)
    (hin : ∀ offerId t, e = .message (.taskOfferAccept offerId t) →
      s.runner.accepts offerId = true → s.relay.broker.grip t = .asking) : s'.Agreeing := by
  have hf := hr.fresh h
  have hdistinct := h.distinct
  rw [hr.offered] at hdistinct
  refine ⟨hr.runnerId.symm ▸ hr.relay.symm ▸ h.serves, hr.relay.symm ▸ h.numbered,
    hr.runner.symm ▸ h.sound.next hf, hread, ?_, (List.nodup_append.mp hdistinct).2.1,
    fun t ht => ?_, fun t => hr.agreeOn h fun offerId => hin offerId t⟩
  · obtain ⟨new, hsent, _⟩ := hr.toBroker h
    rw [hr.readByBroker, hsent, List.length_append]
    exact Nat.le_trans h.readByBroker (Nat.le_add_right _ _)
  · obtain ⟨hlt, hnone⟩ := h.unanswered t (hr.offered ▸ List.mem_append_right _ ht)
    rw [hr.relay, hr.runner]
    refine ⟨hlt, Runner.about_next h.sound hf hnone fun he => ?_⟩
    rw [he] at hdistinct
    exact (List.nodup_append.mp hdistinct).2.2 t (List.mem_singleton_self t) t ht rfl

/-! ### Every step -/

theorem drop_succ_of_cons {α : Type*} {l rest : List α} {n : ℕ} {a : α} (h : l.drop n = a :: rest) :
    l.drop (n + 1) = rest ∧ n + 1 ≤ l.length := by
  constructor
  · rw [← List.tail_drop, h]
    rfl
  · have hlength := congrArg List.length h
    rw [List.length_drop, List.length_cons] at hlength
    omega

theorem messages_of_pairs {id : String} (new : List ToRunner) :
    (((new.map fun m => (id, m)).filter fun p => p.1 == id).map Prod.snd) = new := by
  induction new with
  | nil => rfl
  | cons m new ih => simpa using ih

theorem sentToRunner_of_turns {e : RelayEvent} {new : List ToRunner} {relay : Relay} {n : ℕ}
    (ht : s.relay.Turns s.runnerId e new relay) :
    ({ s with relay := relay, readByBroker := n } : Connection).sentToRunner =
      s.sentToRunner ++ new := by
  rw [sentToRunner, ht.sent, List.filter_append, List.map_append, messages_of_pairs]
  rfl

theorem broker_agreeing (h : s.Agreeing) {e : RelayEvent} {n : ℕ}
    (hconnected : s.relay.connected s.runnerId e = true) (hn : n ≤ s.runner.sent.length)
    (hto : ∀ m ∈ s.toBroker, m ∈ s.runner.sent.drop n ∨ e = .fromRunner s.runnerId m)
    (hsource : ∀ id m, e = .fromRunner id m → m ∈ s.toBroker)
    (hin : ∀ t, e = .runnerAcceptTimeout t → s.relay.broker.grip t = .asking →
      s.runner.phase t ≠ .waiting) :
    ({ s with relay := s.relay.next e, readByBroker := n } : Connection).Agreeing := by
  obtain ⟨new, ht⟩ := Relay.next_turns h.serves h.numbered hconnected
  have hsent := sentToRunner_of_turns (n := n) ht
  refine BrokerStep.agreeing (s := s) ⟨rfl, rfl, ht, ?_, hto, hsource⟩ h
    (Relay.next_keyed ⟨h.serves.keyed, h.numbered⟩ e).2 ?_ hn hin
  · rw [toRunner, hsent, List.drop_append_of_le_length h.readByRunner]
    rfl
  · rw [hsent, List.length_append]
    exact Nat.le_trans h.readByRunner (Nat.le_add_right _ _)

theorem next_agreeing (h : s.Agreeing) {e : ConnectionEvent} (he : s.Enabled e) (hin : s.InTime e) :
    (s.next e).Agreeing := by
  cases e with
  | runnerReads =>
    unfold Connection.next
    dsimp only
    split
    · exact h
    · rename_i m rest hm
      obtain ⟨hrest, hlength⟩ := drop_succ_of_cons hm
      refine RunnerStep.agreeing (s := s) (e := .message m)
        ⟨rfl, rfl, rfl, Or.inl ⟨m, rfl, ?_⟩, rfl⟩ h hlength ?_
      · rw [hm]
        exact congrArg _ hrest.symm
      · rintro offerId t hoffer haccepts
        cases hoffer
        rw [InTime, hm] at hin
        exact hin haccepts
  | brokerReads =>
    unfold Connection.next
    dsimp only
    split
    · exact h
    · rename_i m rest hm
      obtain ⟨hrest, hlength⟩ := drop_succ_of_cons hm
      refine broker_agreeing h (beq_self_eq_true _) hlength (fun m' hm' => ?_) (fun id m' he' => ?_)
        nofun
      · rw [hm] at hm'
        rcases List.mem_cons.mp hm' with rfl | hm'
        · exact Or.inr rfl
        · exact Or.inl (hrest ▸ hm')
      · cases he'
        rw [hm]
        exact List.mem_cons_self
  | runner e =>
    refine RunnerStep.agreeing (s := s) (e := e)
      ⟨rfl, rfl, rfl, Or.inr ⟨fun m hm => ?_, rfl⟩, rfl⟩ h h.readByRunner fun offerId t hoffer => ?_
    · rw [hm] at he
      cases he
    · rw [hoffer] at he
      cases he
  | broker e =>
    obtain ⟨hown, hconnected⟩ := he
    refine broker_agreeing h hconnected h.readByBroker (fun m hm => Or.inl hm)
      (fun id m hfrom => ?_) fun t hto => ?_
    · rw [hfrom] at hown
      cases hown
    · rw [hto] at hin
      exact hin

end

section
variable {runnerId : String} {now : ℤ} {mode : TaskRunnerMode} {taskTimeout : ℕ}
  {isSelfHosted : Bool} {opts : TaskRunnerOpts} {world : Surroundings}

theorem registerRunner_initial : (Broker.initial now).registerRunner runnerId =
    { Broker.initial now with
      knownRunners := [runnerId], sentToRunners := [(runnerId, .runnerRegistered)] } := by
  simp [Broker.registerRunner, Broker.messageRunner, Broker.initial]

theorem initial_agreeing : (initial runnerId (.initial now mode taskTimeout isSelfHosted)
    (.initial opts world)).Agreeing := by
  have hk : ((Broker.initial now).registerRunner runnerId).Keyed :=
    (Broker.initial_keyed now).next (.registerRunner runnerId)
  generalize hs : initial runnerId _ _ = s
  have hid : s.runnerId = runnerId := hs ▸ rfl
  have hbroker : s.relay.broker = { Broker.initial now with
      knownRunners := [runnerId], sentToRunners := [(runnerId, .runnerRegistered)] } :=
    hs ▸ registerRunner_initial
  rw [registerRunner_initial, ← hbroker] at hk
  have hrunner : s.runner = .initial opts world := hs ▸ rfl
  have hcalls : s.relay.calls = .empty := hs ▸ rfl
  have hloose : ∀ t, s.relay.broker.grip t = .loose := fun t => by rw [hbroker]; rfl
  have hoffered : s.offered = [] := by
    have hread : s.readByRunner = 0 := hs ▸ rfl
    rw [offered, toRunner, sentToRunner, hread, hbroker, hid]
    simp [ToRunner.offeredTask?]
  have hserves : s.relay.broker.Serves s.runnerId := by
    refine ⟨hk, by rw [hbroker, hid], fun t task ht => ?_, fun t h hh => ?_, fun t h hh _ => ?_,
      fun o ho => ?_⟩
    · rw [hbroker] at ht
      cases ht
    · rw [hbroker] at hh
      cases hh
    · rw [hbroker] at hh
      cases hh
    · rw [hbroker] at ho
      cases ho
  refine ⟨hserves, fun k _ => by rw [hcalls]; rfl, hrunner ▸ Runner.initial_sound opts world,
    hs ▸ Nat.zero_le _, hs ▸ Nat.zero_le _, hoffered ▸ List.nodup_nil,
    by rw [hoffered]; exact fun _ h => (List.not_mem_nil h).elim, fun t => ?_⟩
  have hphase : s.runner.phase t = .unknown := by rw [hrunner]; rfl
  have habout : s.runner.about t = [] := by rw [hrunner]; rfl
  refine ⟨by rw [hrunner]; exact fun h => absurd rfl h, ?_, by rw [hphase]; simp, ?_, ?_⟩
  · constructor <;> simp [habout]
  · rintro (⟨task, ht, _⟩ | ⟨id, c, hc, _⟩)
    · rw [hbroker] at ht
      cases ht
    · rw [hcalls] at hc
      cases hc
  · rw [hloose]
    rintro (h | h) <;> cases h

/-- Broker and runner agree as long as every answer comes in time. -/
theorem agreed_of_inTime {tr : List (ConnectionEvent × Connection)}
    (hr : Run Step (initial runnerId (.initial now mode taskTimeout isSelfHosted)
      (.initial opts world)) tr)
    (hin : EveryStep InTime (initial runnerId (.initial now mode taskTimeout isSelfHosted)
      (.initial opts world)) tr) :
    Always Agreed (initial runnerId (.initial now mode taskTimeout isSelfHosted)
      (.initial opts world)) tr := by
  refine (hr.always initial_agreeing ?_ hin).mono fun s h => h.agreed
  rintro s e s' h hin ⟨he, rfl⟩
  exact next_agreeing h he hin

end

def onePlace : TaskRunnerOpts := ⟨"javascript", none, 1, 60⟩

def someWorld : Surroundings :=
  ⟨fun n => String.ofList (List.replicate (n + 1) 'x'), fun n => n, fun n => n⟩

def connected : Connection :=
  initial "r1" (.initial 0 .internal 60 true) (.initial onePlace someWorld)

/-- A request is matched with the runner's offer, and the runner accepts the task. -/
def acceptance : List ConnectionEvent :=
  [.runnerReads, .runner .offerInterval, .brokerReads, .broker (.registerRequester "q1"),
    .broker (.fromRequester "q1" (.taskRequest "1" "javascript")),
    .broker (.messageSettled 0 true), .runnerReads]

/-- The broker stops asking while the acceptance is on its way. -/
theorem agreed_fails : ¬ ∀ (runnerId : String) (now : ℤ) (mode : TaskRunnerMode) (taskTimeout : ℕ)
    (isSelfHosted : Bool) (opts : TaskRunnerOpts) (world : Surroundings)
    (tr : List (ConnectionEvent × Connection)),
    Run Step (initial runnerId (.initial now mode taskTimeout isSelfHosted)
      (.initial opts world)) tr →
    Always Agreed (initial runnerId (.initial now mode taskTimeout isSelfHosted)
      (.initial opts world)) tr := by
  intro h
  have hr : Run Step connected (trace Connection.next connected
      (acceptance ++ [.broker (.runnerAcceptTimeout 0), .brokerReads])) :=
    run_trace step_next (by decide)
  have hagreed := (h "r1" 0 .internal 60 true onePlace someWorld _ hr).final
  have hkept := hagreed ⟨by decide, by decide, by decide⟩ 0 ⟨0, by decide, by decide⟩
  revert hkept
  decide

/-- The acceptance arrives, and the task gets its settings. -/
theorem agreed_settings : Always Agreed connected (trace Connection.next connected (acceptance ++
    [.brokerReads, .broker (.messageSettled 0 true), .broker (.runnerAcceptTimeout 0),
      .broker (.fromRequester "q1" (.taskSettings 0 "settings")),
      .broker (.messageSettled 0 true), .runnerReads])) :=
  agreed_of_inTime (run_trace step_next (by decide)) (by decide)

end Connection
end N8n.TaskProtocol
