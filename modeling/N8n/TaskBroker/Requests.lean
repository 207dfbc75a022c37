import N8n.TaskBroker.Effects
import Mathlib.Data.List.Nodup

/-!
# One task for each request

The ledger of a run records for which requests a task was created. A request is
claimed when its handshake is opened, and the claim is given up only by that
handshake before it has created a task. So a request has one handshake at a time
and gets one task. The list of pending requests, on the other hand, holds a
deferred request twice: it is pushed without having been taken off.
-/

namespace N8n.TaskBroker
open N8n.Runs

namespace Broker

/-- The tasks that are there after a step and were not before it. -/
def createdTasks (s s' : Broker) : List ℕ := s'.tasks.keys.filter (fun id => !s.tasks.has id)

def createdFor (s s' : Broker) : List ℕ :=
  (s.createdTasks s').filterMap fun id => (s.handshakes.get? id).map Handshake.request

theorem createdFor_eq_nil {s s' : Broker}
    (h : ∀ id, s.tasks.get? id = none → s'.tasks.get? id = none) : s.createdFor s' = [] := by
  have hnone : s.createdTasks s' = [] := by
    apply List.filter_eq_nil_iff.mpr
    intro id hid
    have hin : s'.tasks.get? id ≠ none := fun hn => OrderedMap.get?_eq_none.mp hn hid
    have hbefore : s.tasks.get? id ≠ none := fun hn => hin (h id hn)
    simpa [OrderedMap.has, Option.isSome_iff_ne_none] using hbefore
  rw [createdFor, hnone, List.filterMap_nil]

theorem Creates.createdFor_eq {s s' : Broker} {h : Handshake} (hc : Creates s h s')
    (hg : s.handshakes.get? h.taskId = some h) (hnew : s.tasks.get? h.taskId = none) :
    s.createdFor s' = [h.request] := by
  have hkeys : s'.tasks.keys = s.tasks.keys ++ [h.taskId] := by
    rw [hc.tasks, OrderedMap.keys_set, if_neg (OrderedMap.get?_eq_none.mp hnew)]
  have hold : s.tasks.keys.filter (fun id => !s.tasks.has id) = [] := by
    apply List.filter_eq_nil_iff.mpr
    intro id hid
    simp [OrderedMap.has_iff.mpr hid]
  rw [createdFor, createdTasks, hkeys, List.filter_append, hold]
  simp [OrderedMap.has, hnew, hg]

/-! ### What settling keeps -/

theorem settleTasks_induction {P : Broker → Prop} {s : Broker} (h0 : P s.expireTasks)
    (hstep : ∀ t, ∀ r ∈ s.pendingTaskRequests, P t → P (t.settleRequest r)) :
    P s.settleTasks := by
  have hfold : ∀ l : List ℕ, (∀ r ∈ l, r ∈ s.pendingTaskRequests) → ∀ t, P t →
      P (l.foldl settleRequest t) := by
    intro l
    induction l with
    | nil => exact fun _ t ht => ht
    | cons r l ih =>
      exact fun hl t ht => ih (fun r' hr' => hl r' (List.mem_cons_of_mem r hr')) _
        (hstep t r (hl r List.mem_cons_self) ht)
  exact hfold s.pendingTaskRequests (fun _ h => h) s.expireTasks h0

structure SettledFrom (s s' : Broker) : Prop where
  pending : s'.pendingTaskRequests = s.pendingTaskRequests
  tasks : s'.tasks = s.tasks
  count : s'.nextRequest = s.nextRequest
  requestIds : ∀ r, (s'.requests r).requestId = (s.requests r).requestId

theorem settleTasks_settledFrom (s : Broker) : SettledFrom s s.settleTasks := by
  apply settleTasks_induction (P := SettledFrom s)
  · exact ⟨rfl, rfl, rfl, fun _ => rfl⟩
  · intro t r _ ht
    rcases settleRequest_matches t r with he | hm
    · rw [he]
      exact ht
    · refine ⟨hm.pending.trans ht.pending, hm.tasks.trans ht.tasks, hm.count.trans ht.count,
        fun r' => ?_⟩
      rw [hm.objects, ← ht.requestIds r']
      by_cases hr : r' = r
      · rw [hr, Function.update_self]
      · rw [Function.update_of_ne hr]

end Broker

/-! ### The ledger -/

structure Ledger where
  broker : Broker
  served : List ℕ

namespace Ledger

def start (now : ℤ) : Ledger := ⟨.initial now, []⟩

def next (l : Ledger) (e : Event) : Ledger :=
  ⟨l.broker.next e, l.served ++ l.broker.createdFor (l.broker.next e)⟩

def Step (l : Ledger) (e : Event) (l' : Ledger) : Prop := l' = l.next e

/-- The handshakes in progress and the recorded tasks are of claimed requests. -/
structure Claimed (l : Ledger) : Prop where
  keyed : l.broker.Keyed
  pending : ∀ r ∈ l.broker.pendingTaskRequests, r < l.broker.nextRequest
  calls : ∀ id h, l.broker.handshakes.get? id = some h →
    (l.broker.requests h.request).acceptInProgress = true ∧ h.request < l.broker.nextRequest
  unique : ∀ id id' h h', l.broker.handshakes.get? id = some h →
    l.broker.handshakes.get? id' = some h' → h.request = h'.request → id = id'
  untasked : ∀ id h, l.broker.handshakes.get? id = some h → h.accepting = true →
    l.broker.tasks.get? id = none
  served : ∀ r ∈ l.served, (l.broker.requests r).acceptInProgress = true ∧
    r < l.broker.nextRequest ∧
    ∀ id h, l.broker.handshakes.get? id = some h → h.accepting = true → h.request ≠ r
  nodup : l.served.Nodup

theorem start_claimed (now : ℤ) : (start now).Claimed := by
  refine ⟨Broker.initial_keyed now, ?_, ?_, ?_, ?_, ?_, List.nodup_nil⟩ <;>
    simp [start, Broker.initial]

variable {s s' : Broker} {served : List ℕ}

theorem Claimed.steady (hc : Claimed ⟨s, served⟩) (hs : s.Steady s') (hk : s'.Keyed) :
    Claimed ⟨s', served⟩ := by
  refine ⟨hk, fun r hr => ?_, fun id h' hg => ?_, fun id id' h h' hg hg' he => ?_,
    fun id h' hg hacc => ?_, fun r hr => ?_, hc.nodup⟩
  · dsimp only at hr ⊢
    rw [hs.count]
    rw [hs.pending] at hr
    exact hc.pending r hr
  · obtain ⟨h, hh, hreq, _⟩ := hs.calls id h' hg
    dsimp only
    rw [hs.objects, hs.count, hreq]
    exact hc.calls id h hh
  · obtain ⟨h₀, hh, hreq, _⟩ := hs.calls id h hg
    obtain ⟨h₀', hh', hreq', _⟩ := hs.calls id' h' hg'
    exact hc.unique id id' h₀ h₀' hh hh' (hreq.symm.trans (he.trans hreq'))
  · obtain ⟨h, hh, _, ha⟩ := hs.calls id h' hg
    exact hs.tasks id (hc.untasked id h hh (ha hacc))
  · obtain ⟨hflag, hlt, hno⟩ := hc.served r hr
    dsimp only at hflag hlt ⊢
    refine ⟨by rw [hs.objects]; exact hflag, by rw [hs.count]; exact hlt,
      fun id h' hg hacc => ?_⟩
    obtain ⟨h, hh, hreq, ha⟩ := hs.calls id h' hg
    rw [hreq]
    exact hno id h hh (ha hacc)

theorem Claimed.creates (hc : Claimed ⟨s, served⟩) {h : Handshake}
    (hg : s.handshakes.get? h.taskId = some h) (hacc : h.accepting = true)
    (hs : s.Creates h s') (hk : s'.Keyed) : Claimed ⟨s', served ++ [h.request]⟩ := by
  have hcall : ∀ id h', s'.handshakes.get? id = some h' → ∃ h₀, s.handshakes.get? id = some h₀ ∧
      h'.request = h₀.request ∧ (h'.accepting = true → id ≠ h.taskId ∧ h₀.accepting = true) := by
    intro id h' hg'
    rcases hs.calls id h' hg' with ⟨hne, hh⟩ | ⟨rfl, hreq, hn⟩
    · exact ⟨h', hh, rfl, fun ha => ⟨hne, ha⟩⟩
    · exact ⟨h, hg, hreq, fun ha => by rw [hn] at ha; cases ha⟩
  have hother : ∀ id h', s'.handshakes.get? id = some h' → h'.accepting = true →
      h'.request ≠ h.request := by
    intro id h' hg' hacc' he
    obtain ⟨h₀, hh, hreq, ha⟩ := hcall id h' hg'
    exact (ha hacc').1 (hc.unique id h.taskId h₀ h hh hg (hreq.symm.trans he))
  refine ⟨hk, fun r hr => ?_, fun id h' hg' => ?_, fun id id' h₁ h₂ hg₁ hg₂ he => ?_,
    fun id h' hg' hacc' => ?_, fun r hr => ?_, ?_⟩
  · dsimp only at hr ⊢
    rw [hs.count]
    rw [hs.pending] at hr
    split at hr
    · exact hc.pending r hr
    · exact hc.pending r (List.mem_of_mem_eraseIdx hr)
  · obtain ⟨h₀, hh, hreq, _⟩ := hcall id h' hg'
    dsimp only
    rw [hs.objects, hs.count, hreq]
    exact hc.calls id h₀ hh
  · obtain ⟨h₁', hh₁, hreq₁, _⟩ := hcall id h₁ hg₁
    obtain ⟨h₂', hh₂, hreq₂, _⟩ := hcall id' h₂ hg₂
    exact hc.unique id id' h₁' h₂' hh₁ hh₂ (hreq₁.symm.trans (he.trans hreq₂))
  · obtain ⟨h₀, hh, _, ha⟩ := hcall id h' hg'
    obtain ⟨hne, hacc₀⟩ := ha hacc'
    dsimp only
    rw [hs.tasks, OrderedMap.get?_set_of_ne (Ne.symm hne)]
    exact hc.untasked id h₀ hh hacc₀
  · dsimp only
    rw [hs.objects, hs.count]
    rcases List.mem_append.mp hr with hr | hr
    · obtain ⟨hflag, hlt, hno⟩ := hc.served r hr
      refine ⟨hflag, hlt, fun id h' hg' hacc' => ?_⟩
      obtain ⟨h₀, hh, hreq, ha⟩ := hcall id h' hg'
      rw [hreq]
      exact hno id h₀ hh (ha hacc').2
    · obtain rfl := List.mem_singleton.mp hr
      obtain ⟨hflag, hlt⟩ := hc.calls h.taskId h hg
      exact ⟨hflag, hlt, hother⟩
  · refine List.nodup_append.mpr ⟨hc.nodup, List.nodup_singleton _, fun r hr r' hr' he => ?_⟩
    obtain rfl := List.mem_singleton.mp hr'
    exact (hc.served r hr).2.2 h.taskId h hg hacc he.symm

theorem Claimed.givesBack (hc : Claimed ⟨s, served⟩) {h : Handshake} {deferred : Bool}
    (hg : s.handshakes.get? h.taskId = some h) (hacc : h.accepting = true)
    (hs : s.GivesBack h deferred s') (hk : s'.Keyed) : Claimed ⟨s', served⟩ := by
  have hflag : ∀ r, r ≠ h.request → s'.requests r = s.requests r := by
    intro r hne
    rw [hs.objects, Function.update_of_ne hne]
  refine ⟨hk, fun r hr => ?_, fun id h' hg' => ?_, fun id id' h₁ h₂ hg₁ hg₂ he => ?_,
    fun id h' hg' hacc' => ?_, fun r hr => ?_, hc.nodup⟩
  · dsimp only at hr ⊢
    rw [hs.count]
    rw [hs.pending] at hr
    split at hr
    · rcases List.mem_append.mp hr with hr | hr
      · exact hc.pending r hr
      · rw [List.mem_singleton.mp hr]
        exact (hc.calls h.taskId h hg).2
    · exact hc.pending r hr
  · obtain ⟨hne, hh⟩ := hs.calls id h' hg'
    dsimp only
    rw [hs.count, hflag h'.request fun he => hne (hc.unique id h.taskId h' h hh hg he)]
    exact hc.calls id h' hh
  · exact hc.unique id id' h₁ h₂ (hs.calls id h₁ hg₁).2 (hs.calls id' h₂ hg₂).2 he
  · dsimp only
    rw [hs.tasks]
    exact hc.untasked id h' (hs.calls id h' hg').2 hacc'
  · obtain ⟨hserved, hlt, hno⟩ := hc.served r hr
    dsimp only at hserved hlt ⊢
    rw [hs.count, hflag r fun he => hno h.taskId h hg hacc he.symm]
    exact ⟨hserved, hlt, fun id h' hg' => hno id h' (hs.calls id h' hg').2⟩

theorem Claimed.matches (hc : Claimed ⟨s, served⟩) {request : ℕ}
    (hlt : request < s.nextRequest) (hs : s.Matches request s') (hk : s'.Keyed) :
    Claimed ⟨s', served⟩ := by
  have hfree : ∀ id h, s.handshakes.get? id = some h → h.request ≠ request := by
    rintro id h hg rfl
    have hflag := (hc.calls id h hg).1
    dsimp only at hflag
    rw [hs.free] at hflag
    cases hflag
  have hflag : ∀ r, (s.requests r).acceptInProgress = true →
      (s'.requests r).acceptInProgress = true := by
    intro r hr
    rw [hs.objects]
    by_cases he : r = request
    · rw [he, Function.update_self]
    · rwa [Function.update_of_ne he]
  refine ⟨hk, fun r hr => ?_, fun id h' hg' => ?_, fun id id' h₁ h₂ hg₁ hg₂ he => ?_,
    fun id h' hg' hacc' => ?_, fun r hr => ?_, hc.nodup⟩
  · dsimp only at hr ⊢
    rw [hs.count]
    rw [hs.pending] at hr
    exact hc.pending r hr
  · dsimp only
    rw [hs.count]
    rcases hs.calls id h' hg' with hh | ⟨rfl, rfl⟩
    · exact ⟨hflag _ (hc.calls id h' hh).1, (hc.calls id h' hh).2⟩
    · exact ⟨by rw [hs.objects, Function.update_self], hlt⟩
  · rcases hs.calls id h₁ hg₁ with hh₁ | ⟨rfl, hr₁⟩
    · rcases hs.calls id' h₂ hg₂ with hh₂ | ⟨rfl, hr₂⟩
      · exact hc.unique id id' h₁ h₂ hh₁ hh₂ he
      · exact absurd (he.trans hr₂) (hfree id h₁ hh₁)
    · rcases hs.calls id' h₂ hg₂ with hh₂ | ⟨rfl, hr₂⟩
      · exact absurd (he.symm.trans hr₁) (hfree id' h₂ hh₂)
      · rfl
  · dsimp only
    rw [hs.tasks]
    rcases hs.calls id h' hg' with hh | ⟨rfl, _⟩
    · exact hc.untasked id h' hh hacc'
    · exact (hc.keyed.fresh _ (Nat.le_refl _)).1
  · obtain ⟨hserved, hlt', hno⟩ := hc.served r hr
    dsimp only at hserved hlt' ⊢
    rw [hs.count]
    refine ⟨hflag r hserved, hlt', fun id h' hg' hacc' => ?_⟩
    rcases hs.calls id h' hg' with hh | ⟨_, rfl⟩
    · exact hno id h' hh hacc'
    · rintro rfl
      rw [hs.free] at hserved
      cases hserved

theorem Claimed.expireTasks (hc : Claimed ⟨s, served⟩) : Claimed ⟨s.expireTasks, served⟩ :=
  ⟨⟨hc.keyed.fresh, hc.keyed.open_, hc.keyed.own, hc.keyed.accepted, hc.keyed.ids⟩, hc.pending,
    hc.calls, hc.unique, hc.untasked, hc.served, hc.nodup⟩

theorem Claimed.settleRequest (hc : Claimed ⟨s, served⟩) {request : ℕ}
    (hlt : request < s.nextRequest) : Claimed ⟨s.settleRequest request, served⟩ := by
  rcases s.settleRequest_matches request with he | hm
  · rw [he]
    exact hc
  · exact hc.matches hlt hm (hc.keyed.settleRequest request)

theorem Claimed.settleTasks (hc : Claimed ⟨s, served⟩) : Claimed ⟨s.settleTasks, served⟩ := by
  refine (Broker.settleTasks_induction
    (P := fun t => Claimed ⟨t, served⟩ ∧ t.nextRequest = s.nextRequest)
    ⟨hc.expireTasks, rfl⟩ fun t r hr ⟨ht, hn⟩ => ?_).1
  refine ⟨ht.settleRequest (hn ▸ hc.pending r hr), ?_⟩
  rcases t.settleRequest_matches r with he | hm
  · rw [he, hn]
  · rw [hm.count, hn]

theorem Claimed.asked (hc : Claimed ⟨s, served⟩) (requesterId requestId taskType : String) :
    Claimed ⟨s.asked requesterId requestId taskType, served⟩ := by
  have hold : ∀ r, r < s.nextRequest →
      (s.asked requesterId requestId taskType).requests r = s.requests r :=
    fun r hr => Function.update_of_ne (Nat.ne_of_lt hr) _ _
  refine ⟨⟨hc.keyed.fresh, hc.keyed.open_, hc.keyed.own, hc.keyed.accepted, hc.keyed.ids⟩,
    fun r hr => ?_, fun id h hg => ?_, hc.unique, hc.untasked, fun r hr => ?_, hc.nodup⟩
  · change r < s.nextRequest + 1
    rcases List.mem_append.mp hr with hr | hr
    · exact Nat.lt_succ_of_lt (hc.pending r hr)
    · rw [List.mem_singleton.mp hr]
      exact Nat.lt_succ_self _
  · obtain ⟨hflag, hlt⟩ := hc.calls id h hg
    exact ⟨by dsimp only; rw [hold _ hlt]; exact hflag, Nat.lt_succ_of_lt hlt⟩
  · obtain ⟨hflag, hlt, hno⟩ := hc.served r hr
    exact ⟨by dsimp only; rw [hold _ hlt]; exact hflag, Nat.lt_succ_of_lt hlt, hno⟩

theorem createdFor_of_settled {t : Broker} (h : ∀ id, s.tasks.get? id = none →
    t.tasks.get? id = none) : s.createdFor t.settleTasks = [] :=
  Broker.createdFor_eq_nil fun id hid => by
    rw [t.settleTasks_settledFrom.tasks]
    exact h id hid

/-- What a step records, by its effect. -/
theorem next_claimed {l : Ledger} (hc : l.Claimed) (e : Event) : (l.next e).Claimed := by
  have hk := hc.keyed.next e
  rcases Broker.next_outcome hc.keyed e with heff | ⟨t, _, hkt, ht, he⟩ | ⟨requesterId, requestId, taskType, _, he⟩
  · generalize l.broker.returned e = p at heff
    cases heff with
    | steady hs =>
      rw [next, Broker.createdFor_eq_nil hs.tasks, List.append_nil]
      exact hc.steady hs hk
    | created h hg hacc hs =>
      rw [next, hs.createdFor_eq hg (hc.untasked _ h hg hacc)]
      exact hc.creates hg hacc hs hk
    | givenBack h deferred hg hacc hs =>
      rw [next, Broker.createdFor_eq_nil fun id hid => by rw [hs.tasks]; exact hid,
        List.append_nil]
      exact hc.givesBack hg hacc hs hk
  · rw [next, he, createdFor_of_settled ht.tasks, List.append_nil]
    exact (hc.steady ht hkt).settleTasks
  · have hnil : l.broker.createdFor (l.broker.asked requesterId requestId taskType).settleTasks =
        [] := createdFor_of_settled fun id hid => hid
    rw [next, he, hnil, List.append_nil]
    exact (hc.asked _ _ _).settleTasks

theorem Claimed.handshakes_nodup {l : Ledger} (hc : l.Claimed) :
    (l.broker.handshakes.values.map Handshake.request).Nodup := by
  rw [OrderedMap.values, List.map_map]
  refine l.broker.handshakes.nodup.of_map.map_on fun c hc₁ d hd he => ?_
  have hkey := hc.unique c.1 d.1 c.2 d.2 (OrderedMap.get?_eq_some.mpr hc₁)
    (OrderedMap.get?_eq_some.mpr hd) he
  have hd' := OrderedMap.get?_eq_some.mpr hd
  rw [← hkey, OrderedMap.get?_eq_some.mpr hc₁] at hd'
  exact Prod.ext hkey (Option.some.inj hd')

/-- A request has one handshake at a time, and its task is created at most once. -/
theorem one_task_per_request (now : ℤ) (tr : List (Event × Ledger))
    (hr : Run Step (start now) tr) :
    Always (fun l => l.served.Nodup ∧ (l.broker.handshakes.values.map Handshake.request).Nodup)
      (start now) tr := by
  have hclaimed : Always Claimed (start now) tr :=
    hr.invariant (start_claimed now) fun l e l' hc hstep => hstep ▸ next_claimed hc e
  exact hclaimed.mono fun l hc => ⟨hc.nodup, hc.handshakes_nodup⟩

theorem step_next (l : Ledger) (e : Event) : Step l e (l.next e) := rfl

theorem run_events (l : Ledger) (es : List Event) : Run Step l (trace next l es) :=
  run_trace_of_total step_next l es

/-- The first handshake times out, its answer comes late, and the second one is deferred. -/
theorem late_and_deferred : Always
    (fun l => l.served.Nodup ∧ (l.broker.handshakes.values.map Handshake.request).Nodup) (start 0)
    (trace next (start 0) [.registerRunner "r1", .registerRequester "q",
      .taskRequest "q" "request" "javascript", .taskOffer "r1" "o1" "javascript" 5000,
      .messageSettled 0 true, .runnerAcceptTimeout 0, .taskAccepted "r1" 0,
      .taskOffer "r1" "o2" "javascript" 5000, .messageSettled 1 true, .taskDeferred "r1" 1,
      .taskOffer "r1" "o3" "javascript" 5000, .taskAccepted "r1" 2, .messageSettled 2 true]) :=
  one_task_per_request 0 _ (run_events _ _)

/-! ### The list of pending requests -/

/-- The list has no repeated request and none whose task was created. -/
def Clean (l : Ledger) : Prop :=
  l.broker.pendingTaskRequests.Nodup ∧ ∀ r ∈ l.broker.pendingTaskRequests, r ∉ l.served

instance (l : Ledger) : Decidable l.Clean := by
  unfold Clean
  infer_instance

/-- `acceptOffer` puts the request on the list again, after a deferral. -/
def Requeues (l : Ledger) (e : Event) : Prop := ∃ p ∈ l.broker.returned e, p.2 = true

instance (l : Ledger) (e : Event) : Decidable (l.Requeues e) := by
  unfold Requeues
  infer_instance

end Ledger

def Event.requestId? : Event → Option String
  | .taskRequest _ requestId _ => some requestId
  | _ => none

namespace Broker

def knownIds (s : Broker) : List String :=
  (List.range s.nextRequest).map fun r => (s.requests r).requestId

theorem knownIds_congr {s s' : Broker} (hcount : s'.nextRequest = s.nextRequest)
    (hids : ∀ r, (s'.requests r).requestId = (s.requests r).requestId) :
    s'.knownIds = s.knownIds := by
  rw [knownIds, knownIds, hcount]
  exact List.map_congr_left fun r _ => hids r

theorem knownIds_asked (s : Broker) (requesterId requestId taskType : String) :
    (s.asked requesterId requestId taskType).knownIds = s.knownIds ++ [requestId] := by
  have hold : ∀ r ∈ List.range s.nextRequest,
      ((s.asked requesterId requestId taskType).requests r).requestId =
        (s.requests r).requestId := by
    intro r hr
    have hne : r ≠ s.nextRequest := Nat.ne_of_lt (List.mem_range.mp hr)
    simp only [asked, Function.update_of_ne hne]
  rw [knownIds, show (s.asked requesterId requestId taskType).nextRequest = s.nextRequest + 1
    from rfl, List.range_succ, List.map_append, List.map_congr_left hold, knownIds]
  simp [asked]

theorem knownIds_next {s : Broker} (hk : s.Keyed) (e : Event) :
    (s.next e).knownIds = s.knownIds ++ e.requestId?.toList := by
  have hsettled : ∀ t : Broker, t.settleTasks.knownIds = t.knownIds := fun t =>
    knownIds_congr t.settleTasks_settledFrom.count t.settleTasks_settledFrom.requestIds
  by_cases hid : ∃ requesterId requestId taskType, e = .taskRequest requesterId requestId taskType
  · obtain ⟨requesterId, requestId, taskType, rfl⟩ := hid
    exact (hsettled _).trans (s.knownIds_asked requesterId requestId taskType)
  · have hnone : e.requestId? = none := by
      cases e with
      | taskRequest requesterId requestId taskType => exact absurd ⟨_, _, _, rfl⟩ hid
      | _ => rfl
    rw [hnone, Option.toList_none, List.append_nil]
    rcases next_outcome hk e with heff | ⟨t, _, _, ht, he⟩ | ⟨_, _, _, he, _⟩
    · generalize s.returned e = p at heff
      cases heff with
      | steady hs => exact knownIds_congr hs.count fun r => by rw [hs.objects]
      | created h _ _ hs => exact knownIds_congr hs.count fun r => by rw [hs.objects]
      | givenBack h deferred _ _ hs =>
        refine knownIds_congr hs.count fun r => ?_
        rw [hs.objects]
        by_cases hr : r = h.request
        · rw [hr, Function.update_self]
        · rw [Function.update_of_ne hr]
    · rw [he, hsettled]
      exact knownIds_congr ht.count fun r => by rw [ht.objects]
    · exact absurd ⟨_, _, _, he⟩ hid

end Broker

namespace Ledger

variable {s s' : Broker} {served : List ℕ}

/-- The ids of the requests of a run, in the order in which they arrive. -/
def requestIds (tr : List (Event × Ledger)) : List String := tr.filterMap fun p => p.1.requestId?

/-- A step whose request, if it brings one, has a new id. -/
def FreshStep (l : Ledger) (e : Event) (l' : Ledger) : Prop :=
  Step l e l' ∧ (l.broker.knownIds ++ e.requestId?.toList).Nodup

theorem run_fresh {l : Ledger} {tr : List (Event × Ledger)} (hr : Run Step l tr)
    (hk : l.broker.Keyed) (hids : (l.broker.knownIds ++ requestIds tr).Nodup) :
    Run FreshStep l tr := by
  induction hr with
  | nil l => exact .nil l
  | @cons l l' e tr hs _ ih =>
    subst hs
    have hsplit : requestIds ((e, l.next e) :: tr) = e.requestId?.toList ++ requestIds tr := by
      rw [requestIds, List.filterMap_cons]
      cases e.requestId? <;> rfl
    rw [hsplit, ← List.append_assoc] at hids
    refine .cons ⟨rfl, (List.nodup_append.mp hids).1⟩ (ih (hk.next e) ?_)
    change ((l.broker.next e).knownIds ++ requestIds tr).Nodup
    rw [Broker.knownIds_next hk]
    exact hids

/-- A request whose handshake waits for the runner is still on the list. -/
structure Listed (l : Ledger) : Prop where
  claimed : l.Claimed
  clean : l.Clean
  listed : ∀ id h, l.broker.handshakes.get? id = some h → h.accepting = true →
    h.request ∈ l.broker.pendingTaskRequests
  distinct : l.broker.knownIds.Nodup

theorem start_listed (now : ℤ) : (start now).Listed := by
  refine ⟨start_claimed now, ⟨List.nodup_nil, by simp [start, Broker.initial]⟩, ?_,
    List.nodup_nil⟩
  simp [start, Broker.initial]

/-- The request that `createTask` takes off the list is that of its handshake. -/
theorem Listed.pending_creates (hl : Listed ⟨s, served⟩) {h : Handshake}
    (hg : s.handshakes.get? h.taskId = some h) (hacc : h.accepting = true)
    (hs : s.Creates h s') : s'.pendingTaskRequests = s.pendingTaskRequests.erase h.request := by
  have hin : h.request ∈ s.pendingTaskRequests := hl.listed _ h hg hacc
  rw [hs.pending]
  split
  · rename_i hnone
    simpa using List.findIdx?_eq_none_iff.mp hnone h.request hin
  · rename_i requestIndex hsome
    obtain ⟨hlt, hid, _⟩ := List.findIdx?_eq_some_iff_getElem.mp hsome
    have hsame : s.pendingTaskRequests[requestIndex] = h.request :=
      List.inj_on_of_nodup_map hl.distinct
        (List.mem_range.mpr (hl.claimed.pending _ (List.getElem_mem hlt)))
        (List.mem_range.mpr (hl.claimed.pending _ hin)) (by simpa using hid)
    rw [← hsame, hl.clean.1.erase_getElem]

theorem Listed.creates (hl : Listed ⟨s, served⟩) {h : Handshake}
    (hg : s.handshakes.get? h.taskId = some h) (hacc : h.accepting = true)
    (hs : s.Creates h s') (hk : s'.Keyed) (hd : s'.knownIds.Nodup) :
    Listed ⟨s', served ++ [h.request]⟩ := by
  have hp := hl.pending_creates hg hacc hs
  have hmem : ∀ r, r ∈ s'.pendingTaskRequests ↔ r ≠ h.request ∧ r ∈ s.pendingTaskRequests := by
    intro r
    rw [hp, hl.clean.1.mem_erase_iff]
  refine ⟨hl.claimed.creates hg hacc hs hk, ⟨?_, fun r hr => ?_⟩, fun id h' hg' hacc' => ?_, hd⟩
  · dsimp only
    rw [hp]
    exact hl.clean.1.erase _
  · obtain ⟨hne, hr⟩ := (hmem r).mp hr
    rw [List.mem_append, List.mem_singleton, not_or]
    exact ⟨hl.clean.2 r hr, hne⟩
  · rcases hs.calls id h' hg' with ⟨hne, hh⟩ | ⟨_, _, hn⟩
    · exact (hmem _).mpr ⟨fun he => hne (hl.claimed.unique id h.taskId h' h hh hg he),
        hl.listed id h' hh hacc'⟩
    · rw [hn] at hacc'
      cases hacc'

theorem Listed.steady (hl : Listed ⟨s, served⟩) (hs : s.Steady s') (hk : s'.Keyed) :
    Listed ⟨s', served⟩ := by
  refine ⟨hl.claimed.steady hs hk, ?_, fun id h' hg hacc => ?_, ?_⟩
  · unfold Clean
    rw [hs.pending]
    exact hl.clean
  · obtain ⟨h, hh, hreq, ha⟩ := hs.calls id h' hg
    dsimp only
    rw [hs.pending, hreq]
    exact hl.listed id h hh (ha hacc)
  · dsimp only
    rw [Broker.knownIds_congr hs.count fun r => by rw [hs.objects]]
    exact hl.distinct

theorem Listed.givesBack (hl : Listed ⟨s, served⟩) {h : Handshake}
    (hg : s.handshakes.get? h.taskId = some h) (hacc : h.accepting = true)
    (hs : s.GivesBack h false s') (hk : s'.Keyed) (hd : s'.knownIds.Nodup) :
    Listed ⟨s', served⟩ := by
  have hp : s'.pendingTaskRequests = s.pendingTaskRequests := hs.pending
  refine ⟨hl.claimed.givesBack hg hacc hs hk, ?_, fun id h' hg' hacc' => ?_, hd⟩
  · unfold Clean
    rw [hp]
    exact hl.clean
  · dsimp only
    rw [hp]
    exact hl.listed id h' (hs.calls id h' hg').2 hacc'

theorem Listed.settleTasks (hl : Listed ⟨s, served⟩) : Listed ⟨s.settleTasks, served⟩ := by
  have hexpire : Listed ⟨s.expireTasks, served⟩ :=
    ⟨hl.claimed.expireTasks, hl.clean, hl.listed, hl.distinct⟩
  refine (Broker.settleTasks_induction (P := fun t => Listed ⟨t, served⟩ ∧
      t.pendingTaskRequests = s.pendingTaskRequests) ⟨hexpire, rfl⟩ fun t r hr ⟨ht, hp⟩ => ?_).1
  have hr' : r ∈ t.pendingTaskRequests := hp ▸ hr
  rcases t.settleRequest_matches r with he | hm
  · rw [he]
    exact ⟨ht, hp⟩
  · refine ⟨⟨ht.claimed.settleRequest (ht.claimed.pending r hr'), ?_, fun id h' hg hacc => ?_, ?_⟩,
      hm.pending.trans hp⟩
    · unfold Clean
      rw [hm.pending]
      exact ht.clean
    · dsimp only
      rw [hm.pending]
      rcases hm.calls id h' hg with hh | ⟨_, rfl⟩
      · exact ht.listed id h' hh hacc
      · exact hr'
    · dsimp only
      rw [Broker.knownIds_congr hm.count fun r' => ?_]
      · exact ht.distinct
      · rw [hm.objects]
        by_cases he : r' = r
        · rw [he, Function.update_self]
        · rw [Function.update_of_ne he]

theorem Listed.asked (hl : Listed ⟨s, served⟩) {requesterId requestId taskType : String}
    (hd : (s.asked requesterId requestId taskType).knownIds.Nodup) :
    Listed ⟨s.asked requesterId requestId taskType, served⟩ := by
  refine ⟨hl.claimed.asked _ _ _, ⟨?_, fun r hr => ?_⟩, fun id h hg hacc => ?_, hd⟩
  · refine List.nodup_append.mpr ⟨hl.clean.1, List.nodup_singleton _, fun r hr r' hr' he => ?_⟩
    have hlt := hl.claimed.pending r hr
    rw [he, List.mem_singleton.mp hr'] at hlt
    exact Nat.lt_irrefl _ hlt
  · rcases List.mem_append.mp hr with hr | hr
    · exact hl.clean.2 r hr
    · intro hserved
      have hlt := (hl.claimed.served r hserved).2.1
      rw [List.mem_singleton.mp hr] at hlt
      exact Nat.lt_irrefl _ hlt
  · exact List.mem_append_left _ (hl.listed id h hg hacc)

theorem step_listed {l l' : Ledger} {e : Event} (hl : l.Listed) (hreq : ¬ l.Requeues e)
    (hs : FreshStep l e l') : l'.Listed := by
  obtain ⟨rfl, hfresh⟩ := hs
  have hk := hl.claimed.keyed.next e
  have hd : (l.broker.next e).knownIds.Nodup := by
    rw [Broker.knownIds_next hl.claimed.keyed]
    exact hfresh
  rcases Broker.next_outcome hl.claimed.keyed e with heff | ⟨t, _, hkt, ht, he⟩ |
    ⟨requesterId, requestId, taskType, rfl, he⟩
  · unfold Requeues at hreq
    generalize l.broker.returned e = p at heff hreq
    cases heff with
    | steady hs =>
      rw [next, Broker.createdFor_eq_nil hs.tasks, List.append_nil]
      exact hl.steady hs hk
    | created h hg hacc hs =>
      rw [next, hs.createdFor_eq hg (hl.claimed.untasked _ h hg hacc)]
      exact hl.creates hg hacc hs hk hd
    | givenBack h deferred hg hacc hs =>
      obtain rfl : deferred = false := by simpa using hreq
      rw [next, Broker.createdFor_eq_nil fun id hid => by rw [hs.tasks]; exact hid,
        List.append_nil]
      exact hl.givesBack hg hacc hs hk hd
  · rw [next, he, createdFor_of_settled ht.tasks, List.append_nil]
    exact (hl.steady ht hkt).settleTasks
  · have hnil : l.broker.createdFor (l.broker.asked requesterId requestId taskType).settleTasks =
        [] := createdFor_of_settled fun id hid => hid
    rw [next, he, hnil, List.append_nil]
    refine (hl.asked ?_).settleTasks
    rw [Broker.knownIds_asked]
    exact hfresh

/-- A deferred request is pushed while it is on the list. -/
theorem requeued_not_clean {l l' : Ledger} {e : Event} (hl : l.Listed) (hreq : l.Requeues e)
    (hs : FreshStep l e l') : ¬ l'.Clean := by
  obtain ⟨rfl, _⟩ := hs
  obtain ⟨p, hp, hdeferred⟩ := hreq
  rintro ⟨hnodup, _⟩
  rcases Broker.next_outcome hl.claimed.keyed e with heff | ⟨t, hnone, _⟩ | ⟨_, _, _, rfl, _⟩
  · rw [Option.mem_def.mp hp] at heff
    cases heff with
    | givenBack h deferred hg hacc hs =>
      have hpend := hs.pending
      dsimp only at hdeferred
      rw [hdeferred, if_pos rfl] at hpend
      change (l.broker.next e).pendingTaskRequests.Nodup at hnodup
      rw [hpend] at hnodup
      exact (List.nodup_append.mp hnodup).2.2 _ (hl.listed _ h hg hacc) _
        (List.mem_singleton_self _) rfl
  · rw [hnone] at hp
    cases hp
  · cases hp

/-- The list stays clean in a run exactly when no step of it defers a request. -/
theorem clean_iff (now : ℤ) (tr : List (Event × Ledger)) (hr : Run Step (start now) tr)
    (hids : (requestIds tr).Nodup) :
    Always Clean (start now) tr ↔ EveryStep (fun l e => ¬ l.Requeues e) (start now) tr :=
  (run_fresh hr (Broker.initial_keyed now) hids).always_iff_everyStep (start_listed now)
    (fun _ hl => hl.clean) (fun _ _ _ => step_listed)
    (fun _ _ _ hl hc => requeued_not_clean hl (not_not.mp hc))

/-- One deferral puts the request on the list twice; after the next handshake has created
the task, one entry is left for good. -/
theorem deferred_twice : ¬ ∀ (now : ℤ) (tr : List (Event × Ledger)), Run Step (start now) tr →
    (requestIds tr).Nodup → Always Clean (start now) tr := by
  intro h
  have hrun := run_events (start 0) [.registerRunner "r1", .registerRequester "q",
    .taskRequest "q" "request" "javascript", .taskOffer "r1" "o1" "javascript" 5000,
    .messageSettled 0 true, .taskDeferred "r1" 0, .taskOffer "r1" "o2" "javascript" 5000,
    .messageSettled 1 true, .taskAccepted "r1" 1]
  exact absurd (h 0 _ hrun (by decide)) (by decide)

theorem rejected_clean : Always Clean (start 0) (trace next (start 0) [.registerRunner "r1",
    .registerRequester "q", .taskRequest "q" "request" "javascript",
    .taskOffer "r1" "o1" "javascript" 5000, .messageSettled 0 true, .taskRejected "r1" 0 "busy",
    .taskOffer "r1" "o2" "javascript" 5000, .messageSettled 1 true, .taskAccepted "r1" 1]) :=
  (clean_iff 0 _ (run_events _ _) (by decide)).mpr (by decide)

end Ledger
end N8n.TaskBroker
