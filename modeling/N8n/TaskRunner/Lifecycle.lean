import N8n.TaskRunner.Offers
import N8n.TaskBroker.Senders

/-!
# The life of a task at a runner

What the lifecycle drawn in `task-state.ts` says, as a relation between phases
with the messages that each move sends. A step of the runner moves one task at
most, and moves it along the lifecycle, as long as no task id is offered again
after it was accepted.
-/

namespace N8n.TaskRunner
open N8n.TaskBroker (RunnerMessage ToRunner)

/-! ### The lifecycle -/

/-- A task is `finishing` from the end of its execution until `finishTask`. -/
inductive Phase where
  | unknown
  | waiting
  | running
  | cancelled
  | timedOut
  | finishing
  | gone
  deriving DecidableEq, Repr

inductive Cause where
  | cancel
  | settings
  | timeout
  | ended
  | other
  deriving DecidableEq, Repr

/-- The cause leaves a task in the phase alone. -/
def Phase.idle : Phase → Cause → Bool
  | _, .other => true
  | .waiting, _ => false
  | _, .settings => true
  | .running, _ => false
  | _, .cancel => true
  | _, .timeout => true
  | _, .ended => false

def Phase.ofState : TaskStatus → Option Execution → Phase
  | .waitingForSettings, _ => .waiting
  | .running, some .executing => .running
  | .abortingCancelled, some .executing => .cancelled
  | .abortingTimeout, some .executing => .timedOut
  | _, _ => .finishing

/-- The moves of the task, each with its cause and the messages about the task. -/
inductive Move (t : ℕ) : Phase → Cause → List RunnerMessage → Phase → Prop
  | stay {p : Phase} {c : Cause} (h : p.idle c = true) : Move t p c [] p
  | rejected (reason : String) : Move t .unknown .other [.taskRejected t reason] .unknown
  | accepted : Move t .unknown .other [.taskAccepted t] .waiting
  | started : Move t .waiting .settings [] .running
  | cancelledWaiting : Move t .waiting .cancel [] .gone
  | cancelledRunning : Move t .running .cancel [] .cancelled
  | timedOutWaiting (error : String) : Move t .waiting .timeout [.taskError t error] .gone
  | timedOutRunning : Move t .running .timeout [] .timedOut
  | answered {p : Phase} {m : RunnerMessage} (hp : p = .running ∨ p = .timedOut)
      (hm : m.endsTask = true) : Move t p .ended [m] .finishing
  | dropped : Move t .cancelled .ended [] .finishing
  | finished : Move t .finishing .other [] .gone

namespace Runner

/-! ### What the runner's state says of a task -/

def about (s : Runner) (t : ℕ) : List RunnerMessage :=
  s.sent.filter fun m => m.taskId? = some t

def accepted (s : Runner) (t : ℕ) : Prop := .taskAccepted t ∈ s.about t

instance (s : Runner) (t : ℕ) : Decidable (s.accepted t) :=
  inferInstanceAs (Decidable (.taskAccepted t ∈ s.about t))

def phase (s : Runner) (t : ℕ) : Phase :=
  match s.runningTasks.get? t with
  | some k => .ofState (s.taskStates k).status (s.executions.get? k)
  | none => if s.accepted t then .gone else .unknown

def cause (s : Runner) (t : ℕ) : RunnerEvent → Cause
  | .message (.taskCancel t' _) => if t' = t then .cancel else .other
  | .message (.taskSettings t' _) => if t' = t then .settings else .other
  | .timer k =>
    if (s.taskStates k).timeoutTimer = true ∧ (s.taskStates k).taskId = t then .timeout else .other
  | .ended k _ =>
    if s.executions.get? k = some .executing ∧ (s.taskStates k).taskId = t then .ended else .other
  | _ => .other

theorem phase_of_some {s : Runner} {t k : ℕ} (h : s.runningTasks.get? t = some k) :
    s.phase t = .ofState (s.taskStates k).status (s.executions.get? k) := by
  unfold phase
  rw [h]

theorem phase_of_none {s : Runner} {t : ℕ} (h : s.runningTasks.get? t = none) :
    s.phase t = if s.accepted t then .gone else .unknown := by
  unfold phase
  rw [h]

/-- What holds of a task and of the objects made for it. -/
structure SoundFor (s : Runner) (t : ℕ) : Prop where
  object : ∀ k, s.runningTasks.get? t = some k → k < s.nextState ∧ (s.taskStates k).taskId = t ∧
    ((s.taskStates k).status = .waitingForSettings ↔ s.executions.get? k = none)
  accepted : (s.runningTasks.get? t).isSome → s.accepted t
  held : ∀ k, (s.taskStates k).taskId = t →
    (s.executions.get? k).isSome ∨ (s.taskStates k).timeoutTimer = true →
      s.runningTasks.get? t = some k
  thrown : ∀ k error, (s.taskStates k).taskId = t →
    s.executions.get? k ≠ some (.succeeding (some error))

def Sound (s : Runner) : Prop := ∀ t, s.SoundFor t

theorem initial_sound (opts : TaskRunnerOpts) (world : Surroundings) :
    (initial opts world).Sound := by
  intro t
  constructor <;> simp [initial, TaskState.create, TaskState.cleanup]

theorem Sound.owner {s : Runner} (h : s.Sound) {t k : ℕ} (hk : s.runningTasks.get? t = some k) :
    (s.taskStates k).taskId = t := ((h t).object k hk).2.1

theorem Sound.executing {s : Runner} (h : s.Sound) {k : ℕ} {e : Execution}
    (he : s.executions.get? k = some e) :
    s.runningTasks.get? (s.taskStates k).taskId = some k :=
  (h _).held k rfl (Or.inl (by rw [he]; rfl))

/-! ### What a step leaves as it was -/

/-- Only messages about the task have been sent. -/
structure Tells (s : Runner) (t : ℕ) (new : List RunnerMessage) (s' : Runner) : Prop where
  running : s'.runningTasks = s.runningTasks
  states : s'.taskStates = s.taskStates
  count : s'.nextState = s.nextState
  executions : s'.executions = s.executions
  messages : s'.about t = s.about t ++ new
  others : ∀ t' ≠ t, s'.about t' = s.about t'

/-- Only the task and its object have changed. -/
structure Changes (s : Runner) (k t : ℕ) (new : List RunnerMessage) (s' : Runner) : Prop where
  count : s.nextState ≤ s'.nextState
  taskId : (s'.taskStates k).taskId = t
  owner : ∀ t', s.runningTasks.get? t' = some k → t' = t
  alone : ∀ k', s.runningTasks.get? t = some k' → k' = k
  states : ∀ k' ≠ k, s'.taskStates k' = s.taskStates k'
  executions : ∀ k' ≠ k, s'.executions.get? k' = s.executions.get? k'
  running : ∀ t' ≠ t, s'.runningTasks.get? t' = s.runningTasks.get? t'
  messages : s'.about t = s.about t ++ new
  others : ∀ t' ≠ t, s'.about t' = s.about t'

theorem about_append {s s' : Runner} {new : List RunnerMessage} (h : s'.sent = s.sent ++ new)
    (t : ℕ) : s'.about t = s.about t ++ new.filter fun m => m.taskId? = some t := by
  rw [about, h, List.filter_append]
  rfl

theorem Offers.about {s s' : Runner} (h : Offers s s') (t : ℕ) : s'.about t = s.about t := by
  obtain ⟨offers, hsent, ho⟩ := h.sent
  rw [about_append hsent, List.filter_eq_nil_iff.mpr, List.append_nil]
  intro m hm
  obtain ⟨_, _, _, rfl⟩ := ho m hm
  simp [RunnerMessage.taskId?]

theorem Offers.tells {s s' : Runner} (h : Offers s s') (t : ℕ) : Tells s t [] s' :=
  ⟨h.running, h.states, h.count, h.executions, by rw [h.about, List.append_nil],
    fun t' _ => h.about t'⟩

theorem Tells.refl (s : Runner) (t : ℕ) : Tells s t [] s := (Offers.refl s).tells t

theorem send_tells (s : Runner) {t : ℕ} {m : RunnerMessage} (hm : m.taskId? = some t) :
    Tells s t [m] (s.send m) := by
  have habout : ∀ t', (s.send m).about t' = s.about t' ++ [m].filter fun m => m.taskId? = some t' :=
    about_append rfl
  refine ⟨rfl, rfl, rfl, rfl, ?_, fun t' hne => ?_⟩
  · rw [habout, List.filter_cons_of_pos (by simp [hm])]
    rfl
  · rw [habout, List.filter_cons_of_neg (by simp [hm, Ne.symm hne]), List.filter_nil,
      List.append_nil]

theorem Changes.tells {s u s' : Runner} {k t : ℕ} {new new' : List RunnerMessage}
    (h : Changes s k t new u) (h' : Tells u t new' s') : Changes s k t (new ++ new') s' := by
  refine ⟨h'.count.symm ▸ h.count, by rw [h'.states]; exact h.taskId, h.owner, h.alone,
    fun k' hne => ?_, fun k' hne => ?_, fun t' hne => ?_, ?_, fun t' hne => ?_⟩
  · rw [h'.states, h.states k' hne]
  · rw [h'.executions, h.executions k' hne]
  · rw [h'.running, h.running t' hne]
  · rw [h'.messages, h.messages, List.append_assoc]
  · rw [h'.others t' hne, h.others t' hne]

theorem Changes.offers {s u s' : Runner} {k t : ℕ} {new : List RunnerMessage}
    (h : Changes s k t new u) (h' : Offers u s') : Changes s k t new s' := by
  have htells := h.tells (h'.tells t)
  rwa [List.append_nil] at htells

theorem Tells.changes {s u s' : Runner} {k t : ℕ} {new new' : List RunnerMessage}
    (h : Tells s t new u) (h' : Changes u k t new' s') : Changes s k t (new ++ new') s' := by
  refine ⟨h.count ▸ h'.count, h'.taskId, h.running ▸ h'.owner, h.running ▸ h'.alone,
    fun k' hne => ?_, fun k' hne => ?_, fun t' hne => ?_, ?_, fun t' hne => ?_⟩
  · rw [h'.states k' hne, h.states]
  · rw [h'.executions k' hne, h.executions]
  · rw [h'.running t' hne, h.running]
  · rw [h'.messages, h.messages, List.append_assoc]
  · rw [h'.others t' hne, h.others t' hne]

/-- A change of the object of a running task, and of its entries in the two maps. -/
theorem Sound.changes {s s' : Runner} (h : s.Sound) {k t : ℕ}
    (hk : s.runningTasks.get? t = some k) (hcount : s'.nextState = s.nextState)
    (htaskId : (s'.taskStates k).taskId = t)
    (hstates : ∀ k' ≠ k, s'.taskStates k' = s.taskStates k')
    (hexecutions : ∀ k' ≠ k, s'.executions.get? k' = s.executions.get? k')
    (hrunning : ∀ t' ≠ t, s'.runningTasks.get? t' = s.runningTasks.get? t')
    (hsent : s'.sent = s.sent) : Changes s k t [] s' := by
  have habout : ∀ t', s'.about t' = s.about t' := fun t' => by rw [about, hsent, about]
  refine ⟨hcount.ge, htaskId, fun t' hk' => ?_, fun k' hk' => ?_, hstates, hexecutions, hrunning,
    by rw [habout, List.append_nil], fun t' _ => habout t'⟩
  · rw [← h.owner hk', h.owner hk]
  · exact Option.some.inj (hk'.symm.trans hk)

/-! ### What becomes of the task -/

/-- A step that concerns the task says something about it, changes it, or ends it. -/
inductive Outcome (s : Runner) (t : ℕ) (c : Cause) (s' : Runner) : Prop where
  | tells {new : List RunnerMessage} (h : Tells s t new s') (hnew : .taskAccepted t ∉ new)
      (hm : Move t (s.phase t) c new (s.phase t))
  | keeps {k : ℕ} {new : List RunnerMessage} (h : Changes s k t new s')
      (hk : s'.runningTasks.get? t = some k) (hlt : k < s'.nextState) (ha : s'.accepted t)
      (hw : (s'.taskStates k).status = .waitingForSettings ↔ s'.executions.get? k = none)
      (ht : ∀ error, s'.executions.get? k ≠ some (.succeeding (some error)))
      (hm : Move t (s.phase t) c new
        (.ofState (s'.taskStates k).status (s'.executions.get? k)))
  | leaves {k : ℕ} {new : List RunnerMessage} (h : Changes s k t new s')
      (hk : s'.runningTasks.get? t = none) (ha : s'.accepted t)
      (he : s'.executions.get? k = none) (ht : (s'.taskStates k).timeoutTimer = false)
      (hm : Move t (s.phase t) c new .gone)

section
variable {s s' : Runner} {t : ℕ} {c : Cause} {new : List RunnerMessage}

theorem Tells.phase (h : Tells s t new s') (hnew : .taskAccepted t ∉ new) (t' : ℕ) :
    s'.phase t' = s.phase t' := by
  have hacc : s'.accepted t' ↔ s.accepted t' := by
    unfold accepted
    by_cases he : t' = t
    · subst he
      rw [h.messages, List.mem_append, or_iff_left hnew]
    · rw [h.others t' he]
  unfold Runner.phase
  rw [h.running, h.states, h.executions]
  cases s.runningTasks.get? t' with
  | none => exact if_congr hacc rfl rfl
  | some k => rfl

theorem Tells.soundFor (h : Tells s t new s') {t' : ℕ} (hs : s.SoundFor t') : s'.SoundFor t' := by
  have hacc : s.accepted t' → s'.accepted t' := by
    unfold accepted
    by_cases he : t' = t
    · subst he
      rw [h.messages, List.mem_append]
      exact Or.inl
    · rw [h.others t' he]
      exact id
  constructor
  · rw [h.running, h.states, h.count, h.executions]
    exact hs.object
  · rw [h.running]
    exact fun hk => hacc (hs.accepted hk)
  · rw [h.running, h.states, h.executions]
    exact hs.held
  · rw [h.states, h.executions]
    exact hs.thrown

/-- The other tasks are as they were. -/
theorem Changes.phase {k : ℕ} (h : Changes s k t new s') {t' : ℕ} (hne : t' ≠ t) :
    s'.phase t' = s.phase t' := by
  have hrunning := h.running t' hne
  cases hk : s.runningTasks.get? t' with
  | none =>
    rw [hk] at hrunning
    rw [phase_of_none hrunning, phase_of_none hk]
    exact if_congr (by unfold accepted; rw [h.others t' hne]) rfl rfl
  | some k' =>
    have hk' : k' ≠ k := fun he => hne (h.owner t' (he ▸ hk))
    rw [hk] at hrunning
    rw [phase_of_some hrunning, phase_of_some hk, h.states k' hk', h.executions k' hk']

theorem Changes.soundFor_other {k : ℕ} (h : Changes s k t new s') {t' : ℕ} (hne : t' ≠ t)
    (hs : s.SoundFor t') : s'.SoundFor t' := by
  have hobject : ∀ k', (s'.taskStates k').taskId = t' → k' ≠ k := fun k' hid he =>
    hne (hid.symm.trans ((congrArg (fun x => (s'.taskStates x).taskId) he).trans h.taskId))
  constructor
  · intro k' hk'
    rw [h.running t' hne] at hk'
    have hk : k' ≠ k := fun he => hne (h.owner t' (he ▸ hk'))
    obtain ⟨hlt, hrest⟩ := hs.object k' hk'
    rw [h.states k' hk, h.executions k' hk]
    exact ⟨hlt.trans_le h.count, hrest⟩
  · rw [h.running t' hne, accepted, h.others t' hne]
    exact hs.accepted
  · intro k' hid
    have hk := hobject k' hid
    rw [h.states k' hk, h.executions k' hk, h.running t' hne]
    rw [h.states k' hk] at hid
    exact hs.held k' hid
  · intro k' error hid
    have hk := hobject k' hid
    rw [h.executions k' hk]
    rw [h.states k' hk] at hid
    exact hs.thrown k' error hid

/-- No other object of the task has a timer or an execution. -/
theorem Changes.other_object {k : ℕ} (h : Changes s k t new s') (hs : s.SoundFor t) {k' : ℕ}
    (hne : k' ≠ k) (hid : (s'.taskStates k').taskId = t) :
    s'.executions.get? k' = none ∧ (s'.taskStates k').timeoutTimer = false := by
  rw [h.states k' hne] at hid ⊢
  rw [h.executions k' hne]
  constructor
  · cases he : s.executions.get? k' with
    | none => rfl
    | some e => exact absurd (h.alone k' (hs.held k' hid (Or.inl (by rw [he]; rfl)))) hne
  · cases ht : (s.taskStates k').timeoutTimer with
    | false => rfl
    | true => exact absurd (h.alone k' (hs.held k' hid (Or.inr ht))) hne

theorem Outcome.sound (h : Outcome s t c s') (hs : s.Sound) : s'.Sound := by
  intro t'
  cases h with
  | tells h => exact h.soundFor (hs t')
  | @keeps k new h hk hlt ha hw hthrown =>
    by_cases he : t' = t
    · subst he
      have hsame : ∀ k', s'.runningTasks.get? t' = some k' → k' = k :=
        fun k' hk' => Option.some.inj (hk'.symm.trans hk)
      constructor
      · intro k' hk'
        rw [hsame k' hk']
        exact ⟨hlt, h.taskId, hw⟩
      · exact fun _ => ha
      · intro k' hid hheld
        by_cases hne : k' = k
        · rw [hne, hk]
        · obtain ⟨hexecution, htimer⟩ := h.other_object (hs t') hne hid
          rw [hexecution, htimer] at hheld
          rcases hheld with hheld | hheld <;> cases hheld
      · intro k' error hid
        by_cases hne : k' = k
        · rw [hne]
          exact hthrown error
        · rw [(h.other_object (hs t') hne hid).1]
          exact nofun
    · exact h.soundFor_other he (hs t')
  | @leaves k new h hk ha he htimer =>
    by_cases heq : t' = t
    · subst heq
      have hnone : ∀ k', (s'.taskStates k').taskId = t' →
          s'.executions.get? k' = none ∧ (s'.taskStates k').timeoutTimer = false := by
        intro k' hid
        by_cases hne : k' = k
        · rw [hne]
          exact ⟨he, htimer⟩
        · exact h.other_object (hs t') hne hid
      constructor
      · rw [hk]
        exact nofun
      · exact fun _ => ha
      · intro k' hid hheld
        rw [(hnone k' hid).1, (hnone k' hid).2] at hheld
        rcases hheld with hheld | hheld <;> cases hheld
      · intro k' error hid
        rw [(hnone k' hid).1]
        exact nofun
    · exact h.soundFor_other heq (hs t')

/-- The task has moved along the lifecycle. -/
theorem Outcome.moves (h : Outcome s t c s') :
    ∃ new, Move t (s.phase t) c new (s'.phase t) ∧ s'.about t = s.about t ++ new := by
  cases h with
  | @tells new h hnew hm => exact ⟨new, by rwa [h.phase hnew], h.messages⟩
  | @keeps k new h hk _ _ _ _ hm => exact ⟨new, by rwa [phase_of_some hk], h.messages⟩
  | @leaves k new h hk ha _ _ hm => exact ⟨new, by rwa [phase_of_none hk, if_pos ha], h.messages⟩

theorem Outcome.others (h : Outcome s t c s') {t' : ℕ} (hne : t' ≠ t) :
    s'.phase t' = s.phase t' ∧ s'.about t' = s.about t' := by
  cases h with
  | tells h hnew => exact ⟨h.phase hnew t', h.others t' hne⟩
  | keeps h => exact ⟨h.phase hne, h.others t' hne⟩
  | leaves h => exact ⟨h.phase hne, h.others t' hne⟩

end

/-! ### Each handler -/

section
variable {s : Runner} {t k : ℕ}

theorem Changes.trans {s u s' : Runner} {k t : ℕ} {new new' : List RunnerMessage}
    (h : Changes s k t new u) (h' : Changes u k t new' s') : Changes s k t (new ++ new') s' := by
  refine ⟨h.count.trans h'.count, h'.taskId, h.owner, h.alone, fun k' hne => ?_,
    fun k' hne => ?_, fun t' hne => ?_, ?_, fun t' hne => ?_⟩
  · rw [h'.states k' hne, h.states k' hne]
  · rw [h'.executions k' hne, h.executions k' hne]
  · rw [h'.running t' hne, h.running t' hne]
  · rw [h'.messages, h.messages, List.append_assoc]
  · rw [h'.others t' hne, h.others t' hne]

theorem Changes.withExecutions {u : Runner} {new : List RunnerMessage} (h : Changes s k t new u)
    {executions : OrderedMap ℕ Execution}
    (hex : ∀ k' ≠ k, executions.get? k' = s.executions.get? k') :
    Changes s k t new { u with executions := executions } :=
  ⟨h.count, h.taskId, h.owner, h.alone, h.states, hex, h.running, h.messages, h.others⟩

theorem Sound.accepted (h : s.Sound) (hk : s.runningTasks.get? t = some k) : s.accepted t :=
  (h t).accepted (by rw [hk]; rfl)

theorem Tells.sound {s' : Runner} {new : List RunnerMessage} (h : Tells s t new s')
    (hs : s.Sound) : s'.Sound := fun t' => h.soundFor (hs t')

theorem Changes.accepted {s' : Runner} {new : List RunnerMessage} (h : Changes s k t new s')
    (ha : s.accepted t) : s'.accepted t := by
  unfold Runner.accepted
  rw [h.messages]
  exact List.mem_append_left _ ha

theorem cleanup_changes (h : s.Sound) (hk : s.runningTasks.get? t = some k) :
    Changes s k t [] (s.cleanup k) := by
  refine h.changes hk rfl ?_ (fun k' hne => Function.update_of_ne hne _ _) (fun _ _ => rfl)
    (fun _ _ => rfl) rfl
  simp only [cleanup, Function.update_self, TaskState.cleanup, h.owner hk]

theorem setStatus_changes (h : s.Sound) (hk : s.runningTasks.get? t = some k)
    (status : TaskStatus) : Changes s k t [] (s.setStatus k status) := by
  refine h.changes hk rfl ?_ (fun k' hne => Function.update_of_ne hne _ _) (fun _ _ => rfl)
    (fun _ _ => rfl) rfl
  simp only [setStatus, Function.update_self, h.owner hk]

theorem removeTask_changes (h : s.Sound) (hk : s.runningTasks.get? t = some k) :
    Changes s k t [] (s.removeTask k) := by
  refine h.changes hk rfl (cleanup_changes h hk).taskId
    (fun k' hne => Function.update_of_ne hne _ _) (fun _ _ => rfl) (fun t' hne => ?_) rfl
  rw [removeTask, h.owner hk]
  exact OrderedMap.get?_delete_of_ne (Ne.symm hne)

theorem finishTask_changes (h : s.Sound) (hk : s.runningTasks.get? t = some k) :
    Changes s k t [] (s.finishTask k) :=
  (removeTask_changes h hk).offers (sendOffers_offers _)

theorem finishTask_leaves (h : s.Sound) (hk : s.runningTasks.get? t = some k) :
    (s.finishTask k).runningTasks.get? t = none ∧ (s.finishTask k).executions = s.executions ∧
      ((s.finishTask k).taskStates k).timeoutTimer = false := by
  have hoffers := sendOffers_offers (s.removeTask k)
  refine ⟨?_, hoffers.executions, ?_⟩
  · rw [finishTask, hoffers.running, removeTask, h.owner hk, OrderedMap.get?_delete_self]
  · rw [finishTask, hoffers.states]
    simp [removeTask, cleanup, TaskState.cleanup]

/-- Nothing of the task has changed, since its phase does not mind the cause. -/
theorem outcome_idle {c : Cause} (h : (s.phase t).idle c = true) : Outcome s t c s :=
  .tells (.refl s t) List.not_mem_nil (.stay h)

theorem outcome_idle_none {c : Cause} (hk : s.runningTasks.get? t = none) (hc : c ≠ .ended) :
    Outcome s t c s := by
  refine outcome_idle ?_
  rw [phase_of_none hk]
  split <;> cases c <;> first | rfl | exact absurd rfl hc

theorem outcome_idle_some {c : Cause} (hk : s.runningTasks.get? t = some k)
    (hc : ∀ e, (Phase.ofState (s.taskStates k).status e).idle c = true) : Outcome s t c s :=
  outcome_idle (phase_of_some hk ▸ hc _)

/-- The task is waiting, and it is removed. -/
theorem outcome_dropped (h : s.Sound) (hk : s.runningTasks.get? t = some k)
    (hw : (s.taskStates k).status = .waitingForSettings) : Outcome s t .cancel (s.finishTask k) := by
  have hc := finishTask_changes h hk
  obtain ⟨hnone, hexecutions, htimer⟩ := finishTask_leaves h hk
  refine .leaves hc hnone (hc.accepted (h.accepted hk)) ?_ htimer ?_
  · rw [hexecutions]
    exact ((h t).object k hk).2.2.mp hw
  · rw [phase_of_some hk, hw]
    exact .cancelledWaiting

/-- The status of an execution's task changes. -/
theorem outcome_status (h : s.Sound) (hk : s.runningTasks.get? t = some k) {c : Cause}
    {old status : TaskStatus} (hs : (s.taskStates k).status = old)
    (hr : old ≠ .waitingForSettings ∧ status ≠ .waitingForSettings)
    (hm : ∀ e, Move t (.ofState old (some e)) c [] (.ofState status (some e)))
    {s' : Runner} (hc : Changes s k t [] s') (hrunning : s'.runningTasks = s.runningTasks)
    (hcount : s'.nextState = s.nextState) (hexecutions : s'.executions = s.executions)
    (hstatus' : (s'.taskStates k).status = status) : Outcome s t c s' := by
  obtain ⟨hlt, hid, hw⟩ := (h t).object k hk
  obtain ⟨e, he⟩ : ∃ e, s.executions.get? k = some e :=
    Option.ne_none_iff_exists'.mp fun hn => hr.1 (hs.symm.trans (hw.mpr hn))
  refine .keeps hc (hrunning ▸ hk) (hcount ▸ hlt) (hc.accepted (h.accepted hk)) ?_ ?_ ?_
  · rw [hstatus', hexecutions, he]
    exact iff_of_false hr.2 nofun
  · rw [hexecutions]
    exact fun error => (h t).thrown k error hid
  · rw [phase_of_some hk, hstatus', hexecutions, he, hs]
    exact hm e

theorem taskCancelled_outcome (h : s.Sound) (t : ℕ) : Outcome s t .cancel (s.taskCancelled t) := by
  unfold taskCancelled
  split
  · rename_i hk
    exact outcome_idle_none hk nofun
  · rename_i k hk
    split <;> rename_i hs
    · exact outcome_dropped h hk hs
    · exact outcome_idle_some hk fun e => by
        rw [hs]; rcases e with _ | _ | _ | _ <;> rfl
    · exact outcome_idle_some hk fun e => by
        rw [hs]; rcases e with _ | _ | _ | _ <;> rfl
    · have hstatus : ((s.setStatus k .abortingCancelled).taskStates k).status =
          .abortingCancelled := by simp [setStatus]
      refine outcome_status h hk hs (by decide) (fun e => ?_)
        (setStatus_changes h hk .abortingCancelled) rfl rfl rfl hstatus
      cases e with
      | executing => exact .cancelledRunning
      | _ => exact .stay rfl

theorem timerFires_outcome (h : s.Sound) (ht : (s.taskStates k).timeoutTimer = true) :
    Outcome s (s.taskStates k).taskId .timeout (s.timerFires k) := by
  generalize hid : (s.taskStates k).taskId = t
  have hk : s.runningTasks.get? t = some k := (h t).held k hid (Or.inr ht)
  have hcleanup := cleanup_changes h hk
  have hstatus : ((s.cleanup k).taskStates k).status = (s.taskStates k).status := by
    simp [cleanup, TaskState.cleanup]
  rw [timerFires, if_pos ht, hid, taskTimedOut, show (s.cleanup k).runningTasks = s.runningTasks
    from rfl, hk]
  dsimp only
  obtain ⟨hlt, _, hw⟩ := (h t).object k hk
  split <;> rename_i hs <;> rw [hstatus] at hs
  · generalize TimeoutError.text _ = error
    have hnone : s.executions.get? k = none := hw.mp hs
    have hu : (s.cleanup k).Sound := by
      refine Outcome.sound (t := t) (c := .other) (.keeps hcleanup hk hlt
        (h.accepted hk) ?_ (fun error => ?_) ?_) h
      · rw [hstatus]
        exact hw
      · exact (h t).thrown k error hid
      · rw [phase_of_some hk, hstatus]
        exact .stay (by cases Phase.ofState _ _ <;> rfl)
    have htells := send_tells (s.cleanup k) (t := t) (m := .taskError t error) rfl
    have hv := htells.sound hu
    have hc := finishTask_changes hv hk
    obtain ⟨hgone, hexecutions, htimer⟩ := finishTask_leaves hv hk
    have hall := hcleanup.trans (htells.changes hc)
    refine .leaves hall hgone (hall.accepted (h.accepted hk)) ?_ htimer ?_
    · rw [hexecutions]
      exact hnone
    · rw [phase_of_some hk, hs]
      exact .timedOutWaiting error
  · refine outcome_status h hk hs (by decide) (fun e => ?_) hcleanup rfl rfl rfl (hstatus.trans hs)
    cases e <;> exact .stay rfl
  · have htimedOut : (((s.cleanup k).setStatus k .abortingTimeout).taskStates k).status =
        .abortingTimeout := by simp [setStatus]
    refine outcome_status h hk hs (by decide) (fun e => ?_) (h.changes hk rfl ?_ (fun k' hne => ?_)
      (fun _ _ => rfl) (fun _ _ => rfl) rfl) rfl rfl rfl htimedOut
    · cases e with
      | executing => exact .timedOutRunning
      | _ => exact .stay rfl
    · simp [setStatus, cleanup, TaskState.cleanup, hid]
    · simp [setStatus, cleanup, hne]
  · refine outcome_status h hk hs (by decide) (fun e => ?_) hcleanup rfl rfl rfl (hstatus.trans hs)
    cases e <;> exact .stay rfl

theorem receivedSettings_outcome (h : s.Sound) (t : ℕ) :
    Outcome s t .settings (s.receivedSettings t).1 := by
  unfold receivedSettings
  split
  · rename_i hk
    exact outcome_idle_none hk nofun
  · rename_i k hk
    split <;> rename_i hs
    · obtain ⟨hlt, hid, hw⟩ := (h t).object k hk
      have hc : Changes s k t [] { s.setStatus k .running with
          executions := s.executions.set k .executing } :=
        (setStatus_changes h hk .running).withExecutions fun k' hne =>
          OrderedMap.get?_set_of_ne (Ne.symm hne)
      refine .keeps hc hk hlt (hc.accepted (h.accepted hk)) ?_ (fun error => ?_) ?_
      · simp [setStatus]
      · simp
      · rw [phase_of_some hk, hs]
        simp only [setStatus, Function.update_self, OrderedMap.get?_set_self]
        exact .started
    all_goals
      exact outcome_idle_some hk fun e => by
        rw [hs]; rcases e with _ | _ | _ | _ <;> rfl

theorem outcome_putExecution (h : s.Sound) (hk : s.runningTasks.get? t = some k) {c : Cause}
    {u : Runner} {new : List RunnerMessage} {e : Execution} (hu : Tells s t new u)
    (hr : (s.taskStates k).status ≠ .waitingForSettings)
    (he : ∀ error, e ≠ .succeeding (some error))
    (hm : Move t (s.phase t) c new (.ofState (s.taskStates k).status (some e))) :
    Outcome s t c (u.putExecution k e) := by
  obtain ⟨hlt, hid, _⟩ := (h t).object k hk
  have hput : (u.putExecution k e).executions.get? k = some e := OrderedMap.get?_set_self _ _ _
  have hstates : (u.putExecution k e).taskStates = s.taskStates := hu.states
  have hc : Changes s k t new (u.putExecution k e) := by
    refine ⟨hu.count.ge, by rw [hstates]; exact hid, fun t' hk' => ?_, fun k' hk' => ?_,
      fun k' _ => by rw [hstates], fun k' hne => ?_, fun t' _ => ?_, hu.messages, hu.others⟩
    · rw [← h.owner hk', hid]
    · exact Option.some.inj (hk'.symm.trans hk)
    · rw [putExecution, OrderedMap.get?_set_of_ne (Ne.symm hne), hu.executions]
    · rw [putExecution, hu.running]
  refine .keeps hc (hu.running ▸ hk) (hu.count ▸ hlt) (hc.accepted (h.accepted hk)) ?_ ?_ ?_
  · rw [hput, hstates]
    exact iff_of_false hr nofun
  · rw [hput]
    exact fun error hthrown => he error (Option.some.inj hthrown)
  · rw [hput, hstates]
    exact hm

/-- The execution has ended and its answer, if it has one, has been sent. -/
theorem endExecution_outcome (h : s.Sound) (hex : s.executions.get? k = some .executing)
    {m : ℕ → RunnerMessage} (hm : ∀ t, (m t).taskId? = some t ∧ (m t).endsTask = true)
    {e : Option String → Execution} (he : ∀ error, e none ≠ .succeeding (some error))
    (hphase : ∀ status, status ≠ .waitingForSettings →
      Phase.ofState status (some (e none)) = .finishing) :
    Outcome s (s.taskStates k).taskId .ended
      ((s.endExecution k m).1.putExecution k (e (s.endExecution k m).2)) := by
  have hk := h.executing hex
  obtain ⟨_, _, hw⟩ := (h _).object k hk
  have hr : (s.taskStates k).status ≠ .waitingForSettings := fun hs => by
    rw [hw.mp hs] at hex
    cases hex
  have hsend : ∀ {p : Phase}, p = .running ∨ p = .timedOut →
      s.phase (s.taskStates k).taskId = p → Outcome s (s.taskStates k).taskId .ended
        ((s.send (m (s.taskStates k).taskId)).putExecution k (e none)) := by
    intro p hp hphase'
    refine outcome_putExecution h hk (send_tells s (hm _).1) hr he ?_
    rw [hphase', hphase _ hr]
    exact .answered hp (hm _).2
  have hnow := phase_of_some hk
  rw [hex] at hnow
  unfold endExecution
  split <;> rename_i hs
  · exact absurd hs hr
  · refine outcome_putExecution h hk (.refl s _) hr he ?_
    rw [hphase _ hr, hnow, hs]
    exact .dropped
  · exact hsend (Or.inr rfl) (hnow.trans (by rw [hs]; rfl))
  · exact hsend (Or.inl rfl) (hnow.trans (by rw [hs]; rfl))

theorem executionEnded_outcome (h : s.Sound) (hex : s.executions.get? k = some .executing)
    (result : Except String String) :
    Outcome s (s.taskStates k).taskId .ended (s.executionEnded k result) := by
  have hfinishing : ∀ e : Execution, e ≠ .executing → ∀ status, status ≠ .waitingForSettings →
      Phase.ofState status (some e) = .finishing := by
    intro e he status hr
    cases e with
    | executing => exact absurd rfl he
    | _ => cases status <;> first | rfl | exact absurd rfl hr
  unfold executionEnded
  rw [hex]
  cases result with
  | ok data =>
    exact endExecution_outcome (m := (.taskDone · data)) (e := .succeeding) h hex
      (fun _ => ⟨rfl, rfl⟩) (fun _ => nofun) (hfinishing _ nofun)
  | error error =>
    exact endExecution_outcome (m := (.taskError · error)) (e := fun _ => .failing) h hex
      (fun _ => ⟨rfl, rfl⟩) (fun _ => nofun) (hfinishing _ nofun)

/-- A task whose execution has ended is removed. -/
theorem executionHandled_outcome (h : s.Sound) (k : ℕ) :
    Outcome s (s.taskStates k).taskId .other (s.executionHandled k) := by
  have hleave : ∀ e, s.executions.get? k = some e → e ≠ .executing →
      Outcome s (s.taskStates k).taskId .other
        { s.finishTask k with executions := s.executions.delete k } := by
    intro e he hne
    have hk := h.executing he
    obtain ⟨hnone, _, htimer⟩ := finishTask_leaves h hk
    have hc : Changes s k (s.taskStates k).taskId []
        { s.finishTask k with executions := s.executions.delete k } :=
      (finishTask_changes h hk).withExecutions fun k' hne =>
        OrderedMap.get?_delete_of_ne (Ne.symm hne)
    refine .leaves hc hnone (hc.accepted (h.accepted hk)) (OrderedMap.get?_delete_self _ _) htimer ?_
    obtain ⟨_, _, hw⟩ := (h _).object k hk
    rw [phase_of_some hk, he]
    rw [he] at hw
    cases hs : (s.taskStates k).status <;> cases e <;>
      first | exact absurd rfl hne | exact .finished | cases hw.mp hs
  unfold executionHandled
  split
  · rename_i he
    exact hleave _ he nofun
  · rename_i error he
    exact absurd he ((h _).thrown k error rfl)
  · rename_i he
    exact hleave _ he nofun
  · exact outcome_idle (by cases s.phase _ <;> rfl)

/-- No task is offered again after it was accepted. -/
def Fresh (s : Runner) (e : RunnerEvent) : Prop :=
  ∀ offerId taskId, e = .message (.taskOfferAccept offerId taskId) → ¬ s.accepted taskId

theorem offerAccepted_outcome (h : s.Sound) (offerId : String) (hf : ¬ s.accepted t) :
    Outcome s t .other (s.offerAccepted offerId t) := by
  have hnone : s.runningTasks.get? t = none :=
    Option.eq_none_iff_forall_ne_some.mpr fun k hk => hf (h.accepted hk)
  have hunknown : s.phase t = .unknown := by rw [phase_of_none hnone, if_neg hf]
  have hreject : ∀ (u : Runner) (reason : String), Tells s t [] u →
      Outcome s t .other (u.send (.taskRejected t reason)) := by
    intro u reason hu
    have htells := send_tells u (t := t) (m := .taskRejected t reason) rfl
    have hrejected : Tells s t [.taskRejected t reason] (u.send (.taskRejected t reason)) := by
      refine ⟨htells.running.trans hu.running, htells.states.trans hu.states,
        htells.count.trans hu.count, htells.executions.trans hu.executions, ?_, fun t' hne => ?_⟩
      · rw [htells.messages, hu.messages, List.append_nil]
      · rw [htells.others t' hne, hu.others t' hne]
    refine .tells hrejected (by simp) ?_
    rw [hunknown]
    exact .rejected reason
  have hnew : ∀ k, s.runningTasks.get? t ≠ some k := fun k hk => by
    rw [hnone] at hk
    cases hk
  have hunused : s.executions.get? s.nextState = none := by
    cases he : s.executions.get? s.nextState with
    | none => rfl
    | some e => exact absurd ((h _).object _ (h.executing he)).1 (Nat.lt_irrefl _)
  unfold offerAccepted
  split
  · cases s.openOffers.get? offerId with
    | none => exact hreject s _ (.refl s t)
    | some offer =>
      generalize hu : Runner.mk _ _ _ _ _ _ _ _ _ _ _ _ _ _ = u
      have hcreated : u.taskStates s.nextState = .create t := hu ▸ Function.update_self ..
      have hc : Changes s s.nextState t [] u := by
        subst hu
        refine ⟨Nat.le_succ _, ?_, fun t' hk' => ?_, fun k hk => absurd hk (hnew k),
          fun k hne => Function.update_of_ne hne _ _, fun _ _ => rfl, fun t' hne =>
            OrderedMap.get?_set_of_ne (Ne.symm hne), (List.append_nil _).symm, fun _ _ => rfl⟩
        · exact congrArg TaskState.taskId hcreated
        · exact absurd ((h t').object _ hk').1 (Nat.lt_irrefl _)
      have htold := hc.tells (send_tells u (t := t) (m := .taskAccepted t) rfl)
      have hstatus : ((u.send (.taskAccepted t)).taskStates s.nextState).status =
          .waitingForSettings := congrArg TaskState.status hcreated
      have hexecutions : (u.send (.taskAccepted t)).executions.get? s.nextState = none :=
        hu ▸ hunused
      refine .keeps htold (hu ▸ OrderedMap.get?_set_self ..) (hu ▸ Nat.lt_succ_self _) ?_
        (iff_of_true hstatus hexecutions) (fun error => ?_) ?_
      · rw [Runner.accepted, htold.messages]
        simp
      · rw [hexecutions]
        simp
      · rw [hunknown, hstatus]
        exact .accepted
  · exact hreject { s with openOffers := s.openOffers.delete offerId } _ ⟨rfl, rfl, rfl, rfl,
      (List.append_nil _).symm, fun _ _ => rfl⟩

/-- A step moves one task at most. -/
theorem next_outcome (h : s.Sound) {e : RunnerEvent} (hf : s.Fresh e) :
    ∃ t, Outcome s t (s.cause t e) (s.next e) ∧ ∀ t' ≠ t, s.cause t' e = .other := by
  have hquiet : ∀ s', Tells s 0 [] s' → Outcome s 0 .other s' := fun s' hs =>
    .tells hs List.not_mem_nil (.stay (by cases s.phase 0 <;> rfl))
  cases e with
  | message m =>
    cases m with
    | taskOfferAccept offerId t =>
      exact ⟨t, offerAccepted_outcome h offerId (hf offerId t rfl), fun _ _ => rfl⟩
    | taskCancel t reason =>
      refine ⟨t, ?_, fun t' hne => if_neg (Ne.symm hne)⟩
      rw [cause, if_pos rfl]
      exact taskCancelled_outcome h t
    | taskSettings t settings =>
      refine ⟨t, ?_, fun t' hne => if_neg (Ne.symm hne)⟩
      rw [cause, if_pos rfl]
      exact receivedSettings_outcome h t
    | runnerRegistered =>
      exact ⟨0, hquiet _ ⟨rfl, rfl, rfl, rfl, (List.append_nil _).symm, fun _ _ => rfl⟩,
        fun _ _ => rfl⟩
    | _ => exact ⟨0, hquiet s (.refl s 0), fun _ _ => rfl⟩
  | infoRequest =>
    have habout : ∀ t, s.infoRequested.about t = s.about t := fun t =>
      (about_append (rfl : s.infoRequested.sent = s.sent ++ [.info s.name [s.taskType]]) t).trans
        (List.append_nil _)
    exact ⟨0, hquiet _ ⟨rfl, rfl, rfl, rfl, (habout 0).trans (List.append_nil _).symm,
      fun t' _ => habout t'⟩, fun _ _ => rfl⟩
  | closed =>
    exact ⟨0, hquiet _ ⟨rfl, rfl, rfl, rfl, (List.append_nil _).symm, fun _ _ => rfl⟩,
      fun _ _ => rfl⟩
  | offerInterval => exact ⟨0, hquiet _ (s.sendOffers_offers.tells 0), fun _ _ => rfl⟩
  | timer k =>
    refine ⟨(s.taskStates k).taskId, ?_, fun t' hne => if_neg fun hc => hne hc.2.symm⟩
    by_cases ht : (s.taskStates k).timeoutTimer = true
    · rw [cause, if_pos ⟨ht, rfl⟩]
      exact timerFires_outcome h ht
    · rw [cause, if_neg fun hc => ht hc.1]
      have hstill : s.next (.timer k) = s := if_neg ht
      rw [hstill]
      exact outcome_idle (by cases s.phase _ <;> rfl)
  | ended k result =>
    refine ⟨(s.taskStates k).taskId, ?_, fun t' hne => if_neg fun hc => hne hc.2.symm⟩
    by_cases hex : s.executions.get? k = some .executing
    · rw [cause, if_pos ⟨hex, rfl⟩]
      exact executionEnded_outcome h hex result
    · rw [cause, if_neg fun hc => hex hc.1]
      have hstill : s.next (.ended k result) = s := by
        change s.executionEnded k result = s
        unfold executionEnded
        split
        · exact absurd ‹_› hex
        · exact absurd ‹_› hex
        · rfl
      rw [hstill]
      exact outcome_idle (by cases s.phase _ <;> rfl)
  | handled k => exact ⟨_, executionHandled_outcome h k, fun _ _ => rfl⟩

/-- Every step moves each task along its lifecycle. -/
theorem next_move (h : s.Sound) {e : RunnerEvent} (hf : s.Fresh e) (t : ℕ) :
    ∃ new, Move t (s.phase t) (s.cause t e) new ((s.next e).phase t) ∧
      (s.next e).about t = s.about t ++ new := by
  obtain ⟨t₀, ho, hothers⟩ := next_outcome h hf
  by_cases he : t = t₀
  · rw [he]
    exact ho.moves
  · obtain ⟨hphase, habout⟩ := ho.others he
    rw [hphase, hothers t he, habout]
    exact ⟨[], .stay (by cases s.phase t <;> rfl), (List.append_nil _).symm⟩

theorem Sound.next (h : s.Sound) {e : RunnerEvent} (hf : s.Fresh e) : (s.next e).Sound := by
  obtain ⟨t, ho, _⟩ := next_outcome h hf
  exact ho.sound h

end

end Runner
end N8n.TaskRunner
