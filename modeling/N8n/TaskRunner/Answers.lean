import N8n.TaskRunner.Lifecycle

/-!
# The answers of a runner

When the broker never offers one task id twice, a runner answers each task at
most once, answers no task that was cancelled in time, and says nothing more of
a task it has removed.
-/

namespace N8n.TaskRunner
open N8n.TaskBroker (RunnerMessage ToRunner)
open N8n.Runs

def RunnerEvent.offeredTask? : RunnerEvent → Option ℕ
  | .message (.taskOfferAccept _ taskId) => some taskId
  | _ => none

/-! ### Along the lifecycle -/

/-- A task is answered once at most, and only when its execution ends or has timed out. -/
structure AnsweredOnce (p : Phase) (said : List RunnerMessage) : Prop where
  once : said.length ≤ 1
  unanswered : p ≠ .finishing → p ≠ .gone → said = []

theorem Move.answeredOnce {t : ℕ} {p p' : Phase} {c : Cause} {new said : List RunnerMessage}
    (h : Move t p c new p') (hs : AnsweredOnce p said) :
    AnsweredOnce p' (said ++ new.filter (·.endsTask)) := by
  have hquiet : (∀ m ∈ new, m.endsTask = false) → (p' = p ∨ p ≠ .finishing ∧ p ≠ .gone ∨
      p' = .gone) → AnsweredOnce p' (said ++ new.filter (·.endsTask)) := by
    intro hnew hp
    rw [List.filter_eq_nil_iff.mpr fun m hm => by simp [hnew m hm], List.append_nil]
    refine ⟨hs.once, fun hf hg => ?_⟩
    rcases hp with rfl | ⟨hf', hg'⟩ | rfl
    · exact hs.unanswered hf hg
    · exact hs.unanswered hf' hg'
    · exact absurd rfl hg
  have hanswer : ∀ m : RunnerMessage, new = [m] → p ≠ .finishing → p ≠ .gone →
      (p' = .finishing ∨ p' = .gone) → AnsweredOnce p' (said ++ new.filter (·.endsTask)) := by
    rintro m rfl hf hg hp
    rw [hs.unanswered hf hg, List.nil_append]
    refine ⟨List.length_filter_le _ _, fun hf' hg' => ?_⟩
    rcases hp with rfl | rfl
    · exact absurd rfl hf'
    · exact absurd rfl hg'
  cases h with
  | stay => exact hquiet nofun (Or.inl rfl)
  | rejected reason => exact hquiet (by simp [RunnerMessage.endsTask]) (Or.inl rfl)
  | accepted => exact hquiet (by simp [RunnerMessage.endsTask]) (Or.inr (Or.inl ⟨nofun, nofun⟩))
  | timedOutWaiting error => exact hanswer _ rfl nofun nofun (Or.inr rfl)
  | answered hp hm =>
    refine hanswer _ rfl ?_ ?_ (Or.inl rfl) <;> rcases hp with rfl | rfl <;> exact nofun
  | finished => exact hquiet nofun (Or.inr (Or.inr rfl))
  | _ => exact hquiet nofun (Or.inr (Or.inl ⟨nofun, nofun⟩))

/-- A task that was cancelled, and had not timed out, has no answer and will have none. -/
def Withdrawn (p : Phase) (said : List RunnerMessage) : Prop :=
  (p = .cancelled ∨ p = .finishing ∨ p = .gone) ∧ said.filter (·.endsTask) = []

/-- A task whose execution has not ended and whose timer has not fired has no answer. -/
def Undecided (p : Phase) (said : List RunnerMessage) : Prop :=
  (p ≠ .finishing ∧ p ≠ .timedOut) ∧ said.filter (·.endsTask) = []

theorem withdrawn_append_nil {p : Phase} {said : List RunnerMessage}
    (hp : p = .cancelled ∨ p = .finishing ∨ p = .gone) (hsaid : said.filter (·.endsTask) = []) :
    Withdrawn p (said ++ []) := by
  rw [List.append_nil]
  exact ⟨hp, hsaid⟩

theorem Move.withdrawn {t : ℕ} {p p' : Phase} {c : Cause} {new said : List RunnerMessage}
    (h : Move t p c new p') (hw : Withdrawn p said) : Withdrawn p' (said ++ new) := by
  obtain ⟨hp, hsaid⟩ := hw
  cases h with
  | stay => exact withdrawn_append_nil hp hsaid
  | dropped => exact withdrawn_append_nil (Or.inr (Or.inl rfl)) hsaid
  | finished => exact withdrawn_append_nil (Or.inr (Or.inr rfl)) hsaid
  | answered hr => rcases hr with rfl | rfl <;> simp at hp
  | _ => simp at hp

theorem Move.undecided {t : ℕ} {p p' : Phase} {c : Cause} {new said : List RunnerMessage}
    (h : Move t p c new p') (hc : c ≠ .timeout ∧ c ≠ .ended) (hu : Undecided p said) :
    Undecided p' (said ++ new) := by
  obtain ⟨hp, hsaid⟩ := hu
  have hquiet : ∀ q : Phase, new.filter (·.endsTask) = [] → q ≠ .finishing ∧ q ≠ .timedOut →
      Undecided q (said ++ new) := fun q hnew hq =>
    ⟨hq, by rw [List.filter_append, hsaid, hnew, List.nil_append]⟩
  cases h with
  | stay => exact hquiet _ rfl hp
  | rejected reason => exact hquiet _ rfl hp
  | finished => exact absurd rfl hp.1
  | timedOutWaiting => exact absurd rfl hc.1
  | timedOutRunning => exact absurd rfl hc.1
  | answered => exact absurd rfl hc.2
  | dropped => exact absurd rfl hc.2
  | _ => exact hquiet _ rfl ⟨nofun, nofun⟩

/-- The cancellation of a task that was accepted and is undecided. -/
theorem Move.cancelled {t : ℕ} {p p' : Phase} {new said : List RunnerMessage}
    (h : Move t p .cancel new p') (hp : p ≠ .unknown) (hu : Undecided p said) :
    Withdrawn p' (said ++ new) := by
  obtain ⟨⟨hf, ht⟩, hsaid⟩ := hu
  cases h with
  | stay hidle =>
    cases p with
    | unknown => exact absurd rfl hp
    | waiting => cases hidle
    | running => cases hidle
    | timedOut => exact absurd rfl ht
    | finishing => exact absurd rfl hf
    | cancelled => exact withdrawn_append_nil (Or.inl rfl) hsaid
    | gone => exact withdrawn_append_nil (Or.inr (Or.inr rfl)) hsaid
  | cancelledWaiting => exact withdrawn_append_nil (Or.inr (Or.inr rfl)) hsaid
  | cancelledRunning => exact withdrawn_append_nil (Or.inl rfl) hsaid

namespace Runner

/-- The ids of the tasks that are offered in a run. -/
def offeredTasks (tr : List (RunnerEvent × Runner)) : List ℕ :=
  tr.filterMap fun p => p.1.offeredTask?

def answers (s : Runner) (t : ℕ) : List RunnerMessage := (s.about t).filter (·.endsTask)

/-- The step neither fires the task's timer nor ends its execution. -/
def Undisturbed (t : ℕ) (s : Runner) (e : RunnerEvent) : Prop :=
  s.cause t e ≠ .timeout ∧ s.cause t e ≠ .ended

variable {s s' : Runner} {t : ℕ} {e : RunnerEvent} {tr : List (RunnerEvent × Runner)}

theorem accepted_iff : s.accepted t ↔ .taskAccepted t ∈ s.sent := by
  simp [accepted, about, RunnerMessage.taskId?]

theorem phase_ne_unknown (h : s.accepted t) : s.phase t ≠ .unknown := by
  cases hk : s.runningTasks.get? t with
  | none =>
    rw [phase_of_none hk, if_pos h]
    exact nofun
  | some k =>
    rw [phase_of_some hk]
    cases (s.taskStates k).status <;> rcases s.executions.get? k with _ | _ | _ | _ <;> exact nofun

/-! ### Distinct tasks -/

theorem accepted_next (h : (s.next e).accepted t) : s.accepted t ∨ e.offeredTask? = some t := by
  obtain ⟨new, hsent, hnew⟩ := s.next_acceptsForOffer e
  rw [accepted_iff, hsent, List.mem_append] at h
  refine h.imp accepted_iff.mpr fun hm => ?_
  obtain ⟨offerId, rfl, _⟩ := hnew t hm
  rfl

theorem offeredTasks_cons (p : RunnerEvent × Runner) :
    offeredTasks (p :: tr) = p.1.offeredTask?.toList ++ offeredTasks tr := by
  rw [offeredTasks, List.filterMap_cons]
  cases p.1.offeredTask? <;> rfl

theorem everyStep_fresh (hr : Run Step s tr) {known : List ℕ} (hs : ∀ t, s.accepted t → t ∈ known)
    (hids : (known ++ offeredTasks tr).Nodup) : EveryStep Fresh s tr := by
  induction hr generalizing known with
  | nil s => trivial
  | @cons s s' e tr hstep _ ih =>
    rw [offeredTasks_cons, ← List.append_assoc] at hids
    refine ⟨?_, ih (fun t ht => ?_) hids⟩
    · rintro offerId t rfl hacc
      have hnodup := (List.nodup_append.mp hids).1
      exact (List.nodup_append.mp hnodup).2.2 t (hs t hacc) t (List.mem_singleton.mpr rfl) rfl
    · subst hstep
      rw [List.mem_append, Option.mem_toList]
      exact (accepted_next ht).imp (hs t) id

/-- Moves of the task that keep the property keep it along a run. -/
theorem always_of_moves {Q : Phase → List RunnerMessage → Prop} {C : Runner → RunnerEvent → Prop}
    (hr : Run Step s tr) (hs : s.Sound) (hf : EveryStep Fresh s tr) (hC : EveryStep C s tr)
    (h0 : Q (s.phase t) (s.about t))
    (hQ : ∀ s e p' new, C s e → Q (s.phase t) (s.about t) →
      Move t (s.phase t) (s.cause t e) new p' → Q p' (s.about t ++ new)) :
    Always (fun s => s.Sound ∧ Q (s.phase t) (s.about t)) s tr := by
  refine hr.always ⟨hs, h0⟩ ?_ (hf.and hC)
  rintro s e s' ⟨hs, hq⟩ ⟨hf, hC⟩ rfl
  obtain ⟨new, hm, habout⟩ := next_move hs hf t
  exact ⟨hs.next hf, habout ▸ hQ s e _ new hC hq hm⟩

section
variable {opts : TaskRunnerOpts} {world : Surroundings}

theorem initial_everyStep_fresh (hr : Run Step (initial opts world) tr)
    (hids : (offeredTasks tr).Nodup) : EveryStep Fresh (initial opts world) tr :=
  @everyStep_fresh _ _ hr [] (fun _ h => absurd h List.not_mem_nil) hids

theorem answers_length_le (hr : Run Step (initial opts world) tr) (hids : (offeredTasks tr).Nodup)
    (t : ℕ) : Always (fun s => (s.answers t).length ≤ 1) (initial opts world) tr := by
  refine (always_of_moves (Q := fun p said => AnsweredOnce p (said.filter (·.endsTask))) (t := t)
    hr (initial_sound opts world) (initial_everyStep_fresh hr hids)
    (.of_forall (fun _ _ => trivial) _ _)
    ⟨Nat.zero_le _, fun _ _ => rfl⟩ ?_).mono fun s h => h.2.once
  intro s e p' new _ hq hm
  rw [List.filter_append]
  exact hm.answeredOnce hq

theorem cancelled_unanswered {tr₁ tr₂ : List (RunnerEvent × Runner)} {reason : String}
    (hr : Run Step (initial opts world)
      (tr₁ ++ (.message (.taskCancel t reason), s') :: tr₂))
    (hids : (offeredTasks (tr₁ ++ (.message (.taskCancel t reason), s') :: tr₂)).Nodup)
    (hacc : (finalState (initial opts world) tr₁).accepted t)
    (hquiet : EveryStep (Undisturbed t) (initial opts world) tr₁) :
    Always (fun s => s.answers t = []) s' tr₂ := by
  obtain ⟨hf₁, hf, hf₂⟩ := everyStep_append.mp (initial_everyStep_fresh hr hids)
  obtain ⟨hr₁, hr₂⟩ := run_append.mp hr
  obtain ⟨hsound, hu⟩ := (always_of_moves (Q := Undecided) (t := t) hr₁ (initial_sound opts world)
    hf₁ hquiet ⟨⟨nofun, nofun⟩, rfl⟩ fun s e p' new hC hq hm => hm.undecided hC hq).final
  cases hr₂ with
  | cons hs hr₂ =>
    subst hs
    obtain ⟨new, hm, habout⟩ := next_move hsound hf t
    rw [cause, if_pos rfl] at hm
    have hw := hm.cancelled (phase_ne_unknown hacc) hu
    rw [← habout] at hw
    exact (always_of_moves (Q := Withdrawn) (t := t) hr₂ (hsound.next hf) hf₂
      (.of_forall (fun _ _ => trivial) _ _) hw fun s e p' new _ hq hm => hm.withdrawn hq).mono
        fun s h => h.2.2

theorem silent_once_removed {tr₁ tr₂ : List (RunnerEvent × Runner)}
    (hr : Run Step (initial opts world) (tr₁ ++ tr₂)) (hids : (offeredTasks (tr₁ ++ tr₂)).Nodup)
    (hacc : (finalState (initial opts world) tr₁).accepted t)
    (hgone : (finalState (initial opts world) tr₁).runningTasks.get? t = none) :
    Always (fun s => s.about t = (finalState (initial opts world) tr₁).about t)
      (finalState (initial opts world) tr₁) tr₂ := by
  obtain ⟨hf₁, hf₂⟩ := everyStep_append.mp (initial_everyStep_fresh hr hids)
  obtain ⟨hr₁, hr₂⟩ := run_append.mp hr
  have hsounds : Always Sound (initial opts world) tr₁ := hr₁.always (initial_sound opts world)
    (fun s e s' hs hf he => he ▸ hs.next hf) hf₁
  have hsound := hsounds.final
  refine (always_of_moves (Q := fun p said => p = .gone ∧
    said = (finalState (initial opts world) tr₁).about t) (t := t) hr₂ hsound hf₂
    (.of_forall (fun _ _ => trivial) _ _)
    ⟨by rw [phase_of_none hgone, if_pos hacc], rfl⟩ ?_).mono fun s h => h.2.2
  rintro s e p' new _ ⟨hp, hsaid⟩ hm
  generalize s.cause t e = c at hm
  rw [hp] at hm
  cases hm with
  | stay => exact ⟨rfl, by rw [List.append_nil, hsaid]⟩
  | answered hr => rcases hr with hr | hr <;> cases hr

end

instance (t : ℕ) (s : Runner) (e : RunnerEvent) : Decidable (Undisturbed t s e) :=
  inferInstanceAs (Decidable (s.cause t e ≠ .timeout ∧ s.cause t e ≠ .ended))

/-- Two tasks are accepted, and one gets its settings twice. -/
def underWay : List RunnerEvent :=
  [.message .runnerRegistered, .offerInterval, .message (.taskOfferAccept "x" 7),
    .message (.taskOfferAccept "xx" 8), .message (.taskSettings 7 ""),
    .message (.taskSettings 7 "")]

/-- One task ends after it was cancelled, the other has waited too long. -/
def endings : List RunnerEvent :=
  [.message (.taskCancel 7 ""), .ended 0 (.ok ""), .handled 0, .timer 1]

/-- The runner when both tasks are under way. -/
def busy : Runner := finalState twoPlaces (trace next twoPlaces underWay)

/-- The runner when both tasks have ended. -/
def idle : Runner := finalState twoPlaces (trace next twoPlaces (underWay ++ endings))

def afterwards : List RunnerEvent :=
  [.message (.taskSettings 7 ""), .message (.taskCancel 8 ""), .timer 0, .timer 1]

end Runner
end N8n.TaskRunner
