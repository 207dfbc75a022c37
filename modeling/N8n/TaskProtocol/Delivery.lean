import N8n.TaskRequester.Requester

/-!
# The broker and a requester

One requester that starts tasks, with the broker and all else that happens to the broker. What a
party has sent is read by the other in order, each message in a step of its own. Every call of
`startTask` has one task at most, and returns at most once: with the first answer to its task that
is read.
-/

namespace N8n.TaskProtocol
open N8n.TaskBroker N8n.TaskRequester
open N8n.OpenedCalls N8n.Runs

structure Delivery where
  requesterId : String
  relay : Relay
  requester : Requester
  readByRequester : ℕ
  readByBroker : ℕ

/-- The events of the broker are those that are no message of this requester. -/
inductive DeliveryEvent where
  | startTask (request : TaskRequester.TaskRequest)
  | rpcSettled (index : ℕ) (status : RPCStatus) (data : String)
  | requesterReads
  | brokerReads
  | broker (e : RelayEvent)
  deriving DecidableEq, Repr

def sentBy (requesterId : String) : RelayEvent → Bool
  | .fromRequester id _ => id == requesterId
  | _ => false

namespace Delivery

/-- The requester registers itself when it is built. -/
def initial (requesterId : String) (relay : Relay) : Delivery where
  requesterId := requesterId
  relay := relay.next (.registerRequester requesterId)
  requester := .initial
  readByRequester := 0
  readByBroker := 0

def sentToRequester (s : Delivery) : List ToRequester :=
  (s.relay.broker.sentToRequesters.filter fun p => p.1 == s.requesterId).map Prod.snd

def read (s : Delivery) : List ToRequester := s.sentToRequester.take s.readByRequester

variable (around : Surroundings)

def next (s : Delivery) : DeliveryEvent → Delivery
  | .startTask request => { s with requester := s.requester.startTask request }
  | .rpcSettled index status data =>
    { s with requester := s.requester.rpcSettled index status data }
  | .requesterReads =>
    match s.sentToRequester[s.readByRequester]? with
    | none => s
    | some m => { s with
        requester := s.requester.onMessage around m, readByRequester := s.readByRequester + 1 }
  | .brokerReads =>
    match s.requester.sent[s.readByBroker]? with
    | none => s
    | some m => { s with
        relay := s.relay.next (.fromRequester s.requesterId m), readByBroker := s.readByBroker + 1 }
  | .broker e => { s with relay := s.relay.next e }

/-- The id of a request is a new `nanoid`. -/
def Enabled (s : Delivery) : DeliveryEvent → Prop
  | .startTask request => request.requestId ∉ s.requester.asks
  | .broker e => sentBy s.requesterId e = false
  | _ => True

instance (s : Delivery) (e : DeliveryEvent) : Decidable (s.Enabled e) :=
  match e with
  | .startTask request => inferInstanceAs (Decidable (request.requestId ∉ s.requester.asks))
  | .broker e => inferInstanceAs (Decidable (sentBy s.requesterId e = false))
  | .rpcSettled _ _ _ | .requesterReads | .brokerReads => inferInstanceAs (Decidable True)

def Step (s : Delivery) (e : DeliveryEvent) (s' : Delivery) : Prop :=
  s.Enabled e ∧ s' = s.next around e

theorem step_next (s : Delivery) (e : DeliveryEvent) (h : s.Enabled e) :
    Step around s e (s.next around e) := ⟨h, rfl⟩

/-! ### What the broker tells this requester -/

theorem opened_filter (requesterId : String) (sent : List (String × ToRequester)) :
    opened ((sent.filter fun p => p.1 == requesterId).map Prod.snd) =
      ((sent.filterMap fun p => p.2.ready?.map fun ready => (p.1, ready)).filter
        fun ready => ready.1 == requesterId).map Prod.snd := by
  rw [opened, List.filterMap_map, List.filter_filterMap, List.map_filterMap, List.filterMap_filter]
  refine List.filterMap_congr fun p _ => ?_
  cases hready : p.2.ready? with
  | none => simp [hready]
  | some ready => by_cases hid : p.1 = requesterId <;> simp [hready, hid, Option.filter]

/-- Every request is told to be ready once at most, with a task of its own, and only when it
has been read. -/
structure Sound (s : Delivery) : Prop where
  numbered : s.relay.Numbered
  told : ∃ served, s.relay.broker.Told served
  asked : s.relay.broker.asksOf s.requesterId =
    (s.requester.sent.take s.readByBroker).filterMap asked?
  fresh : s.requester.asks.Nodup
  uncancelled : ∀ m ∈ s.requester.sent, cancels m = false
  readByRequester : s.readByRequester ≤ s.sentToRequester.length
  readByBroker : s.readByBroker ≤ s.requester.sent.length
  follows : s.requester.Follows s.read

variable {s : Delivery}

theorem opened_sentToRequester (s : Delivery) : opened s.sentToRequester =
    (s.relay.broker.readies.filter fun ready => ready.1 == s.requesterId).map Prod.snd :=
  opened_filter s.requesterId s.relay.broker.sentToRequesters

theorem Sound.asked_sublist (h : s.Sound) :
    (s.relay.broker.asksOf s.requesterId).Sublist s.requester.asks := by
  rw [h.asked]
  exact (List.take_sublist _ _).filterMap _

theorem Sound.nodup_requests (h : s.Sound) : ((opened s.sentToRequester).map Prod.fst).Nodup := by
  obtain ⟨served, hserved⟩ := h.told
  rw [opened_sentToRequester, List.map_map]
  exact hserved.nodup_requests (h.fresh.sublist h.asked_sublist)

theorem Sound.nodup_tasks (h : s.Sound) : ((opened s.sentToRequester).map Prod.snd).Nodup := by
  obtain ⟨served, hserved⟩ := h.told
  rw [opened_sentToRequester, List.map_map]
  exact hserved.tasks.sublist (List.filter_sublist.map _)

theorem Sound.mem_asks (h : s.Sound) {r : String} {t : ℕ} (hr : (r, t) ∈ opened s.sentToRequester) :
    r ∈ s.requester.asks := by
  obtain ⟨served, hserved⟩ := h.told
  rw [opened_sentToRequester] at hr
  obtain ⟨⟨id, ready⟩, hready, rfl⟩ := List.mem_map.mp hr
  obtain ⟨hready, hid⟩ := List.mem_filter.mp hready
  obtain rfl : id = s.requesterId := by simpa using hid
  exact h.asked_sublist.subset (hserved.mem_asksOf hready)

/-! ### Steps -/

theorem sentToRequester_relay (hk : s.relay.broker.Keyed) (e : RelayEvent) (n : ℕ) :
    ∃ new, sentToRequester { s with relay := s.relay.next e, readByBroker := n } =
      s.sentToRequester ++ new ∧ ∀ m ∈ new, s.relay.Said e m := by
  obtain ⟨new, hnew, hsaid⟩ := Relay.next_said hk e
  refine ⟨(new.filter fun p => p.1 == s.requesterId).map Prod.snd, ?_, fun m hm => ?_⟩
  · rw [sentToRequester, hnew, List.filter_append, List.map_append]
    rfl
  · obtain ⟨p, hp, rfl⟩ := List.mem_map.mp hm
    exact hsaid p (List.mem_filter.mp hp).1

/-- What happens to the broker leaves what was read. -/
theorem Sound.relay (h : s.Sound) {e : RelayEvent} {n : ℕ} (hn : n ≤ s.requester.sent.length)
    (hasked : (s.relay.next e).broker.asksOf s.requesterId =
      (s.requester.sent.take n).filterMap asked?) :
    Sound { s with relay := s.relay.next e, readByBroker := n } := by
  obtain ⟨served, hserved⟩ := h.told
  obtain ⟨new, hsent, -⟩ := sentToRequester_relay hserved.keyed e n
  refine ⟨(Relay.next_keyed ⟨hserved.keyed, h.numbered⟩ e).2, Relay.next_told h.numbered hserved e,
    hasked, h.fresh, h.uncancelled, ?_, hn, ?_⟩
  · rw [hsent, List.length_append]
    exact Nat.le_trans h.readByRequester (Nat.le_add_right _ _)
  · rw [read, hsent, List.take_append_of_le_length h.readByRequester]
    exact h.follows

/-- What the requester does leaves what the broker has read. -/
theorem Sound.requester (h : s.Sound) {requester : Requester} {n : ℕ} {new : List RequesterMessage}
    (hsent : requester.sent = s.requester.sent ++ new) (hfresh : requester.asks.Nodup)
    (hcancels : ∀ m ∈ new, cancels m = false) (hn : n ≤ s.sentToRequester.length)
    (hf : requester.Follows (s.sentToRequester.take n)) :
    Sound { s with requester := requester, readByRequester := n } := by
  refine ⟨h.numbered, h.told, ?_, hfresh, fun m hm => ?_, hn, ?_, hf⟩
  · rw [hsent, List.take_append_of_le_length h.readByBroker]
    exact h.asked
  · rw [hsent] at hm
    exact (List.mem_append.mp hm).elim (h.uncancelled m) (hcancels m)
  · rw [hsent, List.length_append]
    exact Nat.le_trans h.readByBroker (Nat.le_add_right _ _)

theorem asksIn_fromRequester (requesterId : String) (m : RequesterMessage) :
    (((RelayEvent.fromRequester requesterId m).own?.map (Broker.asksIn requesterId)).getD []) =
      (asked? m).toList := by
  cases m with
  | taskRequest => simp [RelayEvent.own?, Broker.asksIn, asked?]
  | _ => rfl

theorem asksIn_of_foreign {requesterId : String} {e : RelayEvent}
    (h : sentBy requesterId e = false) :
    (e.own?.map (Broker.asksIn requesterId)).getD [] = [] := by
  cases e with
  | fromRequester id m =>
    have hid : id ≠ requesterId := by simpa [sentBy] using h
    cases m with
    | taskRequest => simp [RelayEvent.own?, Broker.asksIn, hid]
    | _ => rfl
  | fromRunner id m => cases m <;> rfl
  | _ => rfl

theorem Sound.requesterReads (h : s.Sound) {m : ToRequester}
    (hm : s.sentToRequester[s.readByRequester]? = some m) :
    Sound { s with
      requester := s.requester.onMessage around m, readByRequester := s.readByRequester + 1 } := by
  have htake : s.sentToRequester.take (s.readByRequester + 1) = s.read ++ [m] := by
    rw [List.take_add_one, hm, read]
    rfl
  have hopened : (opened (s.read ++ [m])).Sublist (opened s.sentToRequester) := by
    rw [← htake]
    exact (List.take_sublist _ _).filterMap _
  have hknown : ∀ r t, m.ready? = some (r, t) → r ∈ s.requester.asks := fun r t hr =>
    h.mem_asks (List.mem_filterMap.mpr ⟨m, List.mem_of_getElem? hm, hr⟩)
  obtain ⟨hf, hquiet⟩ := h.follows.onMessage around hknown (h.nodup_requests.sublist
    (hopened.map _)) (h.nodup_tasks.sublist (hopened.map _))
  have hasks := hquiet.asks_eq
  obtain ⟨new, hsent, hnew⟩ := hquiet
  refine h.requester hsent (hasks ▸ h.fresh) (fun m hm => (hnew m hm).2) ?_ (htake ▸ hf)
  exact (List.getElem?_eq_some_iff.mp hm).1

theorem next_sound (h : s.Sound) {e : DeliveryEvent} (he : s.Enabled e) :
    (s.next around e).Sound := by
  obtain ⟨served, hserved⟩ := h.told
  cases e with
  | startTask request =>
    have hasks := s.requester.startTask_asks request
    have hsent : (s.requester.startTask request).sent =
        s.requester.sent ++ [.taskRequest request.requestId request.taskType] := rfl
    refine h.requester hsent ?_ (by simp [cancels]) h.readByRequester (h.follows.startTask he)
    have hnew : request.requestId ∉ s.requester.asks := he
    rw [hasks]
    exact List.nodup_append.mpr ⟨h.fresh, List.nodup_singleton _, fun r hr r' hr' heq =>
      hnew (List.mem_singleton.mp hr' ▸ heq ▸ hr)⟩
  | rpcSettled index status data =>
    have hs := Requester.rpcSettled_sameCalls s.requester index status data
    have hasks := hs.sent.asks_eq
    obtain ⟨new, hsent, hnew⟩ := hs.sent
    exact h.requester hsent (hasks ▸ h.fresh) (fun m hm => (hnew m hm).2) h.readByRequester
      (h.follows.same hs)
  | requesterReads =>
    simp only [next]
    split
    · exact h
    · rename_i m hm
      exact h.requesterReads around hm
  | brokerReads =>
    simp only [next]
    split
    · exact h
    · rename_i m hm
      refine h.relay (List.getElem?_eq_some_iff.mp hm).1 ?_
      rw [Relay.next_asksOf hserved.keyed, h.asked, asksIn_fromRequester, List.take_add_one, hm,
        List.filterMap_append]
      cases hasked : asked? m <;> simp [hasked]
  | broker e =>
    refine h.relay h.readByBroker ?_
    rw [Relay.next_asksOf hserved.keyed, asksIn_of_foreign he, List.append_nil]
    exact h.asked

theorem initial_sound (requesterId : String) (now : ℤ) (mode : TaskRunnerMode) (taskTimeout : ℕ)
    (isSelfHosted : Bool) :
    (initial requesterId (.initial now mode taskTimeout isSelfHosted)).Sound := by
  have hn : (Relay.initial now mode taskTimeout isSelfHosted).Numbered := fun k _ => rfl
  have ht : (Relay.initial now mode taskTimeout isSelfHosted).broker.Told [] :=
    Broker.initial_told now
  refine ⟨(Relay.next_keyed ⟨ht.keyed, hn⟩ _).2, Relay.next_told hn ht _, ?_, List.nodup_nil, ?_,
    Nat.zero_le _, Nat.zero_le _, Requester.initial_follows⟩
  · rw [initial, Relay.next_asksOf ht.keyed]
    rfl
  · intro m hm
    cases hm

variable {requesterId : String} {now : ℤ} {mode : TaskRunnerMode} {taskTimeout : ℕ}
  {isSelfHosted : Bool} {tr : List (DeliveryEvent × Delivery)}

theorem sound_always
    (hr : Run (Step around) (initial requesterId (.initial now mode taskTimeout isSelfHosted)) tr) :
    Always Sound (initial requesterId (.initial now mode taskTimeout isSelfHosted)) tr := by
  refine hr.invariant (initial_sound requesterId now mode taskTimeout isSelfHosted) ?_
  rintro s e s' h ⟨he, rfl⟩
  exact next_sound around h he

/-! ### What the callers of `startTask` are given -/

/-- A call waits until its request is ready, then for the first answer to its task, and then has
returned that answer. -/
structure Delivered (s : Delivery) : Prop where
  requests : ((opened s.sentToRequester).map Prod.fst).Nodup
  tasks : ((opened s.sentToRequester).map Prod.snd).Nodup
  waiting : ∀ r, s.requester.requestAcceptRejects.has r = true ↔
    r ∈ s.requester.asks ∧ r ∉ (opened s.read).map Prod.fst
  running : ∀ r t, s.requester.taskAcceptRejects.get? t = some r ↔
    Running ToRequester.ready? answer? s.read r t
  settled : ∀ r result, (r, result) ∈ s.requester.settled ↔
    Answered ToRequester.ready? answer? s.read r result
  once : (s.requester.settled.map Prod.fst).Nodup
  accounted : ∀ r ∈ s.requester.asks, s.requester.requestAcceptRejects.has r = true ∨
    (∃ t, s.requester.taskAcceptRejects.get? t = some r) ∨
    ∃ result, (r, result) ∈ s.requester.settled
  uncancelled : ∀ m ∈ s.requester.sent, cancels m = false

theorem Sound.delivered (h : s.Sound) : s.Delivered := by
  refine ⟨h.nodup_requests, h.nodup_tasks, h.follows.waiting, h.follows.running,
    h.follows.settled, h.follows.once, fun r hr => ?_, h.uncancelled⟩
  by_cases hready : r ∈ (opened s.read).map Prod.fst
  · obtain ⟨⟨_, t⟩, ht, rfl⟩ := List.mem_map.mp hready
    rcases @running_or_answered _ _ _ _ _ s.read _ t _ answer? ht with hrun | ⟨result, hresult⟩
    · exact Or.inr (Or.inl ⟨t, (h.follows.running _ t).mpr hrun⟩)
    · exact Or.inr (Or.inr ⟨result, (h.follows.settled _ result).mpr hresult⟩)
  · exact Or.inl ((h.follows.waiting r).mpr ⟨hr, hready⟩)

/-- In every run of the broker with a requester, every call of `startTask` is accounted for. -/
theorem delivered_always
    (hr : Run (Step around) (initial requesterId (.initial now mode taskTimeout isSelfHosted)) tr) :
    Always Delivered (initial requesterId (.initial now mode taskTimeout isSelfHosted)) tr :=
  (sound_always around hr).mono fun _ h => h.delivered

def someNode : Surroundings := ⟨fun data _ => data, fun names => names, fun _ _ => true⟩

def oneTask : List DeliveryEvent :=
  [.broker (.registerRunner "r1"), .broker (.fromRunner "r1" (.taskOffer "o1" "javascript" (-1))),
    .startTask ⟨"1", "javascript", "settings", "data"⟩, .brokerReads,
    .broker (.messageSettled 0 true), .broker (.fromRunner "r1" (.taskAccepted 0)),
    .requesterReads, .broker (.messageSettled 0 true), .brokerReads,
    .broker (.messageSettled 0 true), .broker (.fromRunner "r1" (.taskDone 0 "42")),
    .requesterReads]

/-- A task is started, accepted, run and delivered. -/
theorem delivered_oneTask :
    Always Delivered (initial "q1" (.initial 0 .internal 60 true))
      (trace (next someNode) (initial "q1" (.initial 0 .internal 60 true)) oneTask) ∧
    (finalState (initial "q1" (.initial 0 .internal 60 true)) (trace (next someNode)
      (initial "q1" (.initial 0 .internal 60 true)) oneTask)).requester.settled =
        [("1", .ok "42")] :=
  ⟨delivered_always someNode (run_trace (step_next someNode) (by decide)), by rfl⟩

/-! ### Where results come from -/

theorem eq_taskDone {m : ToRequester} {t : ℕ} {data : String}
    (h : answer? m = some (t, .ok data)) : m = .taskDone t data := by
  cases m with
  | taskDone =>
    obtain ⟨rfl, hdata⟩ := Prod.mk.inj (Option.some.inj h)
    rw [Except.ok.inj hdata]
  | taskError => simp [answer?] at h
  | _ => cases h

/-- A result that is answered anew was sent by a runner, for a request that was ready. -/
theorem answered_relay (hk : s.relay.broker.Keyed) {e : RelayEvent} {n : ℕ} {r data : String}
    (hno : ¬ Answered ToRequester.ready? answer? s.sentToRequester r (.ok data))
    (hyes : Answered ToRequester.ready? answer?
      (sentToRequester { s with relay := s.relay.next e, readByBroker := n }) r (.ok data)) :
    ∃ t, (r, t) ∈ opened s.sentToRequester ∧ ∃ runnerId ∈ s.relay.broker.knownRunners,
      e = .fromRunner runnerId (.taskDone t data) := by
  obtain ⟨new, hsent, hsaid⟩ := sentToRequester_relay (s := s) hk e n
  rw [hsent] at hyes
  obtain ⟨t, ht, m, hm, hanswers⟩ := (answered_append hyes).resolve_left hno
  obtain rfl := eq_taskDone hanswers
  obtain ⟨runnerId, hknown, rfl⟩ := hsaid _ hm
  refine ⟨t, ?_, runnerId, hknown, rfl⟩
  have hnone : new.filterMap ToRequester.ready? = [] := by
    refine List.filterMap_eq_nil_iff.mpr fun m hm => ?_
    cases m with
    | taskReady => exact absurd rfl (hsaid _ hm)
    | _ => rfl
  rwa [List.filterMap_append, hnone, List.append_nil] at ht

/-- The step in which the broker gets a result that is answered. -/
theorem Sound.answered_next (h : s.Sound) {e : DeliveryEvent} (he : s.Enabled e) {r data : String}
    (hno : ¬ Answered ToRequester.ready? answer? s.sentToRequester r (.ok data))
    (hyes : Answered ToRequester.ready? answer? (s.next around e).sentToRequester r (.ok data)) :
    ∃ t, (r, t) ∈ opened s.sentToRequester ∧ ∃ runnerId ∈ s.relay.broker.knownRunners,
      e = .broker (.fromRunner runnerId (.taskDone t data)) := by
  obtain ⟨served, hserved⟩ := h.told
  cases e with
  | startTask request => exact absurd hyes hno
  | rpcSettled index status data => exact absurd hyes hno
  | requesterReads =>
    simp only [next] at hyes
    split at hyes <;> exact absurd hyes hno
  | brokerReads =>
    simp only [next] at hyes
    split at hyes
    · exact absurd hyes hno
    · obtain ⟨_, -, _, -, heq⟩ := answered_relay hserved.keyed hno hyes
      cases heq
  | broker e =>
    obtain ⟨t, ht, runnerId, hknown, rfl⟩ :=
      @answered_relay s hserved.keyed e s.readByBroker r data hno hyes
    exact ⟨t, ht, runnerId, hknown, rfl⟩

/-- What a call returns as its result, a connected runner has sent for the task that was ready
for the request of the call. -/
theorem returned_fromRunner
    (hr : Run (Step around) (initial requesterId (.initial now mode taskTimeout isSelfHosted)) tr)
    {r data : String} (hreturned : (r, .ok data) ∈ (finalState
      (initial requesterId (.initial now mode taskTimeout isSelfHosted)) tr).requester.settled) :
    ∃ before t runnerId s' after,
      tr = before ++ (.broker (.fromRunner runnerId (.taskDone t data)), s') :: after ∧
      runnerId ∈ (finalState (initial requesterId (.initial now mode taskTimeout isSelfHosted))
        before).relay.broker.knownRunners ∧
      (r, t) ∈ opened (finalState (initial requesterId
        (.initial now mode taskTimeout isSelfHosted)) before).sentToRequester := by
  have hfinal : Answered ToRequester.ready? answer? (finalState
      (initial requesterId (.initial now mode taskTimeout isSelfHosted)) tr).sentToRequester
      r (.ok data) := by
    have hread := ((sound_always around hr).final.follows.settled r (.ok data)).mp hreturned
    rw [← List.take_append_drop (finalState _ tr).readByRequester (sentToRequester _)]
    exact hread.append _
  obtain ⟨before, e, s', after, rfl, hno, hyes⟩ := exists_first_step
    (P := fun d : Delivery => Answered ToRequester.ready? answer? d.sentToRequester r (.ok data))
    answered_nil hfinal
  obtain ⟨hbefore, hstep⟩ := run_append.mp hr
  cases hstep with
  | cons hstep _ =>
    obtain ⟨he, rfl⟩ := hstep
    obtain ⟨t, ht, runnerId, hknown, rfl⟩ :=
      (sound_always around hbefore).final.answered_next around he hno hyes
    exact ⟨before, t, runnerId, _, after, rfl, hknown, ht⟩

theorem returned_oneTask : ∃ before t runnerId s' after,
    trace (next someNode) (initial "q1" (.initial 0 .internal 60 true)) oneTask =
      before ++ (.broker (.fromRunner runnerId (.taskDone t "42")), s') :: after ∧
    runnerId ∈ (finalState (initial "q1" (.initial 0 .internal 60 true))
      before).relay.broker.knownRunners ∧
    ("1", t) ∈ opened (finalState (initial "q1" (.initial 0 .internal 60 true))
      before).sentToRequester :=
  returned_fromRunner someNode (run_trace (step_next someNode) (by decide))
    (show _ ∈ [("1", Except.ok "42")] from List.mem_singleton_self _)

end Delivery
end N8n.TaskProtocol
