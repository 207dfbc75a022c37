import N8n.Concurrency.ActiveExecutions

/-!
# Slots that are not given back

`add` takes a slot of the queue when it calls `throttle`, and only the handlers of the
post-execution promise give one back. They are attached at the end of `add`: a call that
is rejected on the way, since the database could not be updated, keeps its slot for good.
-/

namespace N8n.Concurrency
open N8n.Runs

/-! ### Counting in a list that changes -/

section Counting
variable {α : Type*} {f : α → α}

theorem countP_erase_add [DecidableEq α] {l : List α} {a : α} (h : a ∈ l) (p : α → Bool) :
    (l.erase a).countP p + (if p a then 1 else 0) = l.countP p := by
  rw [(List.perm_cons_erase h).countP_eq, List.countP_cons]

theorem countP_modify {p : α → Bool} {l : List α} {i : ℕ} {a : α} (h : l[i]? = some a) :
    (l.modify i f).countP p + (if p a then 1 else 0) =
      l.countP p + (if p (f a) then 1 else 0) := by
  induction l generalizing i with
  | nil => simp at h
  | cons b l ih =>
    cases i with
    | zero =>
      obtain rfl : b = a := by simpa using h
      simp only [List.modify_zero_cons, List.countP_cons]
      omega
    | succ i =>
      have hrest := ih (i := i) (by simpa using h)
      simp only [List.modify_succ_cons, List.countP_cons]
      omega

theorem countP_modify_of_eq {p : α → Bool} (hf : ∀ a, p (f a) = p a) (l : List α) (i : ℕ) :
    (l.modify i f).countP p = l.countP p := by
  cases h : l[i]? with
  | none => rw [List.modify_eq_self (List.getElem?_eq_none_iff.mp h)]
  | some a =>
    have hcount := countP_modify (f := f) (p := p) h
    rw [hf] at hcount
    exact Nat.add_right_cancel hcount

theorem forall_mem_modify {P : α → Prop} {l : List α} {i : ℕ} (hl : ∀ a ∈ l, P a)
    (hf : ∀ a, l[i]? = some a → P (f a)) : ∀ a ∈ l.modify i f, P a := by
  intro a ha
  obtain ⟨j, hj⟩ := List.mem_iff_getElem?.mp ha
  rw [List.getElem?_modify] at hj
  obtain ⟨b, hb, hab⟩ := Option.map_eq_some_iff.mp hj
  split_ifs at hab with he
  · exact hab ▸ hf b (he ▸ hb)
  · exact hab ▸ hl b (List.mem_of_getElem? hb)

end Counting

/-! ### The capacity of the production queue -/

theorem enqueue_capacity (q : ConcurrencyQueue) (executionId : String) (promise : ℕ) :
    (q.enqueue executionId promise).queue.capacity = q.capacity - 1 := by
  unfold ConcurrencyQueue.enqueue
  dsimp only
  split <;> rfl

theorem dequeue_capacity (q : ConcurrencyQueue) : q.dequeue.queue.capacity = q.capacity + 1 :=
  (System.resolveNext_length ⟨q.capacity + 1, q.queue⟩).2.1

/-- Executions of the mode go through the production queue. -/
def inProduction (mode : WorkflowExecuteMode) : Bool :=
  ConcurrencyControlService.queueType mode = some .production

theorem onQueue_production {s : ConcurrencyControlService} {queue : ConcurrencyQueue}
    (henabled : s.isEnabled = true) (hqueue : s.production = some queue)
    (mode : WorkflowExecuteMode) (call : ConcurrencyQueue → Outcome) (otherwise : List ℕ) :
    (s.onQueue mode call otherwise).service.isEnabled = true ∧
      (s.onQueue mode call otherwise).service.production =
        some (if inProduction mode then (call queue).queue else queue) := by
  unfold ConcurrencyControlService.onQueue inProduction
  rw [henabled]
  cases htype : ConcurrencyControlService.queueType mode with
  | none => exact ⟨henabled, hqueue⟩
  | some type =>
    cases type with
    | production =>
      dsimp only [ConcurrencyControlService.queueOf]
      rw [hqueue]
      exact ⟨henabled, rfl⟩
    | evaluation =>
      dsimp only [ConcurrencyControlService.queueOf]
      cases s.evaluation with
      | none => exact ⟨henabled, hqueue⟩
      | some evaluation => exact ⟨henabled, hqueue⟩

namespace ActiveExecutions

/-- Nothing has been added yet. -/
def idle (limit : ℤ) (evaluation : Option ConcurrencyQueue) : ActiveExecutions where
  concurrencyControl := ⟨true, some (.create limit), evaluation⟩
  executions := []
  activeExecutions := .empty
  adding := []
  promises := 0
  resolved := []
  released := []
  cancelMany := []

/-- The event is none of the calls of `remove`. -/
def Event.isRemove : Event → Bool
  | .remove _ _ => true
  | _ => false

/-- A call of `add` that went through the production queue is rejected. -/
def Event.losesSlot : Event → Bool
  | .reject call => inProduction call.executionMode
  | _ => false

/-- No call of `add` is pending, and the handlers of all promises that have settled have run. -/
structure Quiescent (s : ActiveExecutions) : Prop where
  added : s.adding = []
  handled : ∀ e ∈ s.executions, e.settled = true → e.handled = true

/-- The executions of the production queue that were added and have not settled. -/
def unsettled (s : ActiveExecutions) : ℕ :=
  s.executions.countP fun e => inProduction e.executionMode && !e.settled

/-- The capacity is what the executions that have not settled leave of the limit. -/
def Balanced (limit : ℤ) (s : ActiveExecutions) : Prop :=
  s.concurrencyControl.production.map (·.capacity) = some (limit - s.unsettled)

/-- Every slot is free, held by a call of `add` or by an execution, or lost. -/
structure Accounted (limit : ℤ) (lost : ℕ) (s : ActiveExecutions) : Prop where
  enabled : s.concurrencyControl.isEnabled = true
  slots : ∃ queue, s.concurrencyControl.production = some queue ∧
    queue.capacity + s.adding.countP (fun call => inProduction call.executionMode) +
      s.executions.countP (fun e => inProduction e.executionMode && !e.handled) + lost = limit
  settled : ∀ e ∈ s.executions, e.handled = true → e.settled = true

variable {s s' : ActiveExecutions} {e : Event} {limit : ℤ} {lost : ℕ}

theorem idle_accounted (limit : ℤ) (evaluation : Option ConcurrencyQueue) :
    Accounted limit 0 (idle limit evaluation) := by
  refine ⟨rfl, ⟨_, rfl, ?_⟩, fun _ he => absurd he List.not_mem_nil⟩
  simp [idle, ConcurrencyQueue.create]

theorem Accounted.add (h : Accounted limit lost s) (executionId : String)
    (mode : WorkflowExecuteMode) : Accounted limit lost (s.add executionId mode) := by
  obtain ⟨queue, hqueue, hslots⟩ := h.slots
  obtain ⟨henabled, hproduction⟩ := onQueue_production h.enabled hqueue mode
    (·.enqueue executionId s.promises) [s.promises]
  refine ⟨henabled, ⟨_, hproduction, ?_⟩, h.settled⟩
  simp only [ActiveExecutions.add, absorb, List.countP_append, List.countP_singleton]
  split
  · rw [enqueue_capacity]
    omega
  · simpa using hslots

/-- The call has returned, and its slot is the execution's. -/
theorem Accounted.register (h : Accounted limit lost s) {call : Adding} (hcall : call ∈ s.adding) :
    Accounted limit lost (s.register call) := by
  obtain ⟨queue, hqueue, hslots⟩ := h.slots
  refine ⟨h.enabled, ⟨queue, hqueue, ?_⟩, fun e he => ?_⟩
  · have herase := countP_erase_add hcall fun call => inProduction call.executionMode
    simp only [ActiveExecutions.register, List.countP_append, List.countP_singleton,
      Bool.not_false, Bool.and_true]
    omega
  · rcases List.mem_append.mp he with he | he
    · exact h.settled e he
    · rw [List.mem_singleton.mp he]
      exact nofun

theorem Accounted.reject (h : Accounted limit lost s) {call : Adding} (hcall : call ∈ s.adding) :
    Accounted limit (lost + if inProduction call.executionMode then 1 else 0) (s.reject call) := by
  obtain ⟨queue, hqueue, hslots⟩ := h.slots
  refine ⟨h.enabled, ⟨queue, hqueue, ?_⟩, h.settled⟩
  have herase := countP_erase_add hcall fun call => inProduction call.executionMode
  simp only [ActiveExecutions.reject]
  generalize (if inProduction call.executionMode = true then 1 else 0) = slot at herase ⊢
  omega

/-- A change that neither runs handlers nor unsettles a promise. -/
theorem Accounted.modify (h : Accounted limit lost s) (executionId : String)
    {f : ExecutingWorkflow → ExecutingWorkflow} (hmode : ∀ e, (f e).executionMode = e.executionMode)
    (hhandled : ∀ e, (f e).handled = e.handled) (hsettled : ∀ e, e.settled → (f e).settled) :
    Accounted limit lost (s.modify executionId f) := by
  rw [ActiveExecutions.modify]
  cases s.activeExecutions.get? executionId with
  | none => exact h
  | some index =>
    obtain ⟨queue, hqueue, hslots⟩ := h.slots
    refine ⟨h.enabled, ⟨queue, hqueue, ?_⟩, ?_⟩
    · dsimp only
      rwa [countP_modify_of_eq fun e => by rw [hmode, hhandled]]
    · refine forall_mem_modify h.settled fun e he hh => hsettled e ?_
      exact h.settled e (List.mem_of_getElem? he) (hhandled e ▸ hh)

theorem Accounted.stopExecution (h : Accounted limit lost s) (executionId : String) :
    Accounted limit lost (s.stopExecution executionId) := by
  rw [ActiveExecutions.stopExecution]
  split
  · exact h
  split
  · exact ⟨h.enabled, h.slots, h.settled⟩
  · exact h.modify executionId (fun _ => rfl) (fun _ => rfl) fun _ _ => rfl

/-- The handlers give back the slot of their execution. -/
theorem Accounted.handlers (h : Accounted limit lost s) {index : ℕ} {execution : ExecutingWorkflow}
    (hexecution : s.executions[index]? = some execution) (hsettled : execution.settled = true)
    (hhandled : execution.handled = false) :
    Accounted limit lost (s.handlers index execution) := by
  obtain ⟨queue, hqueue, hslots⟩ := h.slots
  obtain ⟨henabled, hproduction⟩ := onQueue_production h.enabled hqueue execution.executionMode
    (·.dequeue) []
  have hcount := countP_modify (f := ({ · with handled := true }))
    (p := fun e => inProduction e.executionMode && !e.handled) hexecution
  have hfreed : Accounted limit lost { s.absorb (s.concurrencyControl.release
      execution.executionMode) with
        executions := s.executions.modify index ({ · with handled := true }) } := by
    refine ⟨henabled, ⟨_, hproduction, ?_⟩, ?_⟩
    · simp only [hhandled, Bool.not_false, Bool.and_true, Bool.not_true, Bool.and_false,
        Bool.false_eq_true, ↓reduceIte, Nat.add_zero] at hcount
      cases hp : inProduction execution.executionMode with
      | false =>
        rw [hp] at hcount
        simp only [Bool.false_eq_true, ↓reduceIte, Nat.add_zero] at hcount ⊢
        rw [hcount]
        exact hslots
      | true =>
        rw [hp] at hcount
        simp only [↓reduceIte] at hcount ⊢
        rw [dequeue_capacity]
        simp only [absorb]
        omega
    · refine forall_mem_modify h.settled fun e he _ => ?_
      rw [hexecution] at he
      obtain rfl := Option.some.inj he
      exact hsettled
  rw [ActiveExecutions.handlers]
  dsimp only
  split
  · exact hfreed
  · exact ⟨hfreed.enabled, hfreed.slots, hfreed.settled⟩

theorem Accounted.step (h : Accounted limit lost s) (hr : e.isRemove = false) (hs : s.Step e s') :
    Accounted limit (lost + if e.losesSlot then 1 else 0) s' := by
  obtain ⟨henabled, rfl⟩ := hs
  cases e with
  | add executionId mode => exact h.add executionId mode
  | register call => exact h.register henabled.1
  | reject call => exact h.reject henabled.1
  | finalize executionId =>
    exact h.modify executionId (fun _ => rfl) (fun _ => rfl) fun _ _ => rfl
  | stop executionId => exact h.stopExecution executionId
  | setStatus executionId status =>
    exact h.modify executionId (fun _ => rfl) (fun _ => rfl) fun _ hs => hs
  | attachResponsePromise executionId =>
    exact h.modify executionId (fun _ => rfl) (fun _ => rfl) fun _ hs => hs
  | handlers index execution => exact h.handlers henabled.1 henabled.2.1 henabled.2.2
  | remove mode executionId => cases hr

/-- How many calls of `add` that went through the production queue were rejected. -/
def lostSlots (tr : List (Event × ActiveExecutions)) : ℕ := tr.countP fun p => p.1.losesSlot

theorem Accounted.run {tr : List (Event × ActiveExecutions)} (h : Accounted limit lost s)
    (hr : Run Step s tr) (hcalls : ∀ p ∈ tr, p.1.isRemove = false) :
    Accounted limit (lost + lostSlots tr) (finalState s tr) := by
  induction hr generalizing lost with
  | nil s => exact h
  | @cons s s' e tr hs _ ih =>
    have hnext := h.step (hcalls _ List.mem_cons_self) hs
    have hrest := ih hnext fun p hp => hcalls p (List.mem_cons_of_mem _ hp)
    rw [lostSlots, List.countP_cons, ← lostSlots, Nat.add_comm (lostSlots tr), ← Nat.add_assoc]
    exact hrest

/-- In a quiescent state the slots that are missing are those that were lost. -/
theorem Accounted.balanced_iff (h : Accounted limit lost s) (hq : s.Quiescent) :
    s.Balanced limit ↔ lost = 0 := by
  obtain ⟨queue, hqueue, hslots⟩ := h.slots
  have hsame : s.executions.countP (fun e => inProduction e.executionMode && !e.handled) =
      s.unsettled := by
    refine List.countP_congr fun e he => ?_
    have hiff : e.handled = true ↔ e.settled = true := ⟨h.settled e he, hq.handled e he⟩
    rw [Bool.eq_iff_iff.mpr hiff]
  rw [hsame, hq.added, List.countP_nil] at hslots
  rw [Balanced, hqueue, Option.map_some, Option.some_inj]
  omega

theorem lostSlots_eq_zero {s : ActiveExecutions} {tr : List (Event × ActiveExecutions)} :
    lostSlots tr = 0 ↔ EveryStep (fun _ e => e.losesSlot = false) s tr := by
  induction tr generalizing s with
  | nil => exact iff_of_true rfl trivial
  | cons p tr ih =>
    rw [lostSlots, List.countP_cons, ← lostSlots, Nat.add_eq_zero_iff, ih (s := p.2)]
    cases h : p.1.losesSlot with
    | false => exact ⟨fun hc => ⟨h, hc.1⟩, fun hc => ⟨hc.2, rfl⟩⟩
    | true => exact ⟨fun hc => absurd hc.2 Nat.one_ne_zero, fun hc => by rw [hc.1] at h; cases h⟩

theorem always_balanced {tr : List (Event × ActiveExecutions)} (h : Accounted limit 0 s)
    (hr : Run Step s tr) (hcalls : ∀ p ∈ tr, p.1.isRemove = false)
    (hkept : EveryStep (fun _ e => e.losesSlot = false) s tr) :
    Always (fun s => s.Quiescent → s.Balanced limit) s tr := by
  have hsteps : EveryStep (fun _ e => e.isRemove = false ∧ e.losesSlot = false) s tr :=
    hkept.and_of_forall hcalls
  have hall : Always (Accounted limit 0) s tr := by
    refine hr.always h (fun s e s' h hc hs => ?_) hsteps
    have hnext := h.step hc.1 hs
    rwa [hc.2] at hnext
  exact hall.mono fun s h hq => (h.balanced_iff hq).mpr rfl

/-- No slot is lost in a run in which no call of `add` is rejected after it went through the
production queue. In any other run a state that comes to rest has lost some. -/
theorem balanced_iff_kept (limit : ℤ) (evaluation : Option ConcurrencyQueue)
    {tr : List (Event × ActiveExecutions)} (hr : Run Step (idle limit evaluation) tr)
    (hcalls : ∀ p ∈ tr, p.1.isRemove = false) :
    (EveryStep (fun _ e => e.losesSlot = false) (idle limit evaluation) tr →
      Always (fun s => s.Quiescent → s.Balanced limit) (idle limit evaluation) tr) ∧
    ((finalState (idle limit evaluation) tr).Quiescent →
      ((finalState (idle limit evaluation) tr).Balanced limit ↔
        EveryStep (fun _ e => e.losesSlot = false) (idle limit evaluation) tr)) := by
  refine ⟨always_balanced (idle_accounted limit evaluation) hr hcalls, fun hq => ?_⟩
  have hfinal := (idle_accounted limit evaluation).run hr hcalls
  rw [hfinal.balanced_iff hq, Nat.zero_add, lostSlots_eq_zero]

/-! ### A slot that is lost -/

/-- The only slot is taken, and the update of the execution fails. -/
def failedUpdate : List Event := [.add "1" .webhook, .reject ⟨"1", .webhook, 0⟩]

theorem slot_lost : ¬ ∀ (limit : ℤ) (evaluation : Option ConcurrencyQueue)
    (tr : List (Event × ActiveExecutions)), Run Step (idle limit evaluation) tr →
      (∀ p ∈ tr, p.1.isRemove = false) →
        Always (fun s => s.Quiescent → s.Balanced limit) (idle limit evaluation) tr := by
  intro h
  have hrun : Run Step (idle 1 none) (trace next (idle 1 none) failedUpdate) :=
    .cons ⟨trivial, rfl⟩ (.cons ⟨⟨List.mem_singleton.mpr rfl, List.mem_singleton.mpr rfl⟩, rfl⟩
      (.nil _))
  have hend := (h 1 none _ hrun (by simp [trace, failedUpdate, Event.isRemove])).final
  have hbalanced := hend ⟨rfl, fun _ he => absurd he List.not_mem_nil⟩
  exact absurd (Option.some.inj hbalanced) (by decide)

/-- One execution is added and ends, and its slot is free again. -/
def oneExecution : List Event :=
  [.add "1" .webhook, .register ⟨"1", .webhook, 0⟩, .finalize "1",
    .handlers 0 ⟨"1", .webhook, .running, false, true, false⟩]

theorem slot_kept :
    (finalState (idle 1 none) (trace next (idle 1 none) oneExecution)).Balanced 1 ∧
      ¬ (finalState (idle 1 none) (trace next (idle 1 none) failedUpdate)).Balanced 1 := by
  have hrun : Run Step (idle 1 none) (trace next (idle 1 none) oneExecution) :=
    .cons ⟨trivial, rfl⟩ (.cons ⟨⟨List.mem_singleton.mpr rfl, List.mem_singleton.mpr rfl⟩, rfl⟩
      (.cons ⟨trivial, rfl⟩ (.cons ⟨⟨rfl, rfl, rfl⟩, rfl⟩ (.nil _))))
  have hfailed : Run Step (idle 1 none) (trace next (idle 1 none) failedUpdate) :=
    .cons ⟨trivial, rfl⟩ (.cons ⟨⟨List.mem_singleton.mpr rfl, List.mem_singleton.mpr rfl⟩, rfl⟩
      (.nil _))
  constructor
  · refine ((balanced_iff_kept 1 none hrun (by simp [trace, oneExecution, Event.isRemove])).2
      ⟨rfl, ?_⟩).mpr ⟨rfl, rfl, rfl, rfl, trivial⟩
    intro e he _
    rw [List.mem_singleton.mp he]
  · rw [(balanced_iff_kept 1 none hfailed (by simp [trace, failedUpdate, Event.isRemove])).2
      ⟨rfl, fun _ he => absurd he List.not_mem_nil⟩]
    exact fun h => absurd h.2.1 (by decide)

end ActiveExecutions
end N8n.Concurrency
