import N8n.Foundations.Runs
import Mathlib.Data.List.Perm.Basic
import Mathlib.Data.Int.Notation

/-!
# The concurrency queue of regular mode

`ConcurrencyQueue` counts free slots in `capacity` and keeps the executions that
have to wait. The promise that `enqueue` returns is named by a number, the
`resolve` field of a queued item; an operation reports which promise it resolves
and which events it emits. The system adds the executions that run: those whose
promise is resolved and that have not called `dequeue` yet. Its `promises` field
counts the calls of `enqueue`.
-/

namespace N8n.Concurrency
open N8n.Runs

inductive ConcurrencyEvent where
  | executionThrottled (executionId : String)
  | executionReleased (executionId : String)
  | concurrencyCheck (capacity : ℤ)
  deriving DecidableEq, Repr

/-- The executions that are released from a queue. -/
def releasedIn (events : List ConcurrencyEvent) : List String :=
  events.filterMap fun
    | .executionReleased id => some id
    | _ => none

structure QueueItem where
  executionId : String
  resolve : ℕ
  deriving DecidableEq, Repr

structure ConcurrencyQueue where
  capacity : ℤ
  queue : List QueueItem
  deriving DecidableEq, Repr

structure Outcome where
  queue : ConcurrencyQueue
  resolved : Option ℕ
  events : List ConcurrencyEvent
  deriving DecidableEq, Repr

namespace ConcurrencyQueue

def create (capacity : ℤ) : ConcurrencyQueue := ⟨capacity, []⟩

def enqueue (q : ConcurrencyQueue) (executionId : String) (promise : ℕ) : Outcome :=
  let capacity := q.capacity - 1
  if capacity < 0 then
    ⟨⟨capacity, q.queue ++ [⟨executionId, promise⟩]⟩, none,
      [.concurrencyCheck capacity, .executionThrottled executionId]⟩
  else ⟨⟨capacity, q.queue⟩, some promise, [.concurrencyCheck capacity]⟩

def resolveNext (q : ConcurrencyQueue) : Outcome :=
  match q.queue with
  | [] => ⟨q, none, []⟩
  | item :: rest =>
    ⟨{ q with queue := rest }, some item.resolve, [.executionReleased item.executionId]⟩

def dequeue (q : ConcurrencyQueue) : Outcome :=
  resolveNext ⟨q.capacity + 1, q.queue⟩

def remove (q : ConcurrencyQueue) (executionId : String) : Outcome :=
  match q.queue.findIdx? (fun item => item.executionId == executionId) with
  | none => ⟨q, none, []⟩
  | some index => resolveNext ⟨q.capacity + 1, q.queue.eraseIdx index⟩

def getAll (q : ConcurrencyQueue) : List String := (q.queue.map (·.executionId)).eraseDups

def has (q : ConcurrencyQueue) (executionId : String) : Bool :=
  q.queue.any (fun item => item.executionId == executionId)

end ConcurrencyQueue

inductive Op where
  | enqueue (executionId : String)
  | dequeue (promise : ℕ)
  | remove (executionId : String)
  deriving DecidableEq, Repr

structure System where
  queue : ConcurrencyQueue
  running : List ℕ
  promises : ℕ
  deriving DecidableEq, Repr

namespace System

def initial (limit : ℤ) : System := ⟨.create limit, [], 0⟩

def absorb (s : System) (o : Outcome) : System :=
  { s with queue := o.queue, running := s.running ++ o.resolved.toList }

def Enabled (s : System) : Op → Prop
  | .dequeue p => p ∈ s.running
  | _ => True

instance (s : System) (op : Op) : Decidable (s.Enabled op) := by
  cases op <;> simp only [Enabled] <;> infer_instance

def next (s : System) : Op → System
  | .enqueue id => { s.absorb (s.queue.enqueue id s.promises) with promises := s.promises + 1 }
  | .dequeue p => { s with running := s.running.erase p }.absorb s.queue.dequeue
  | .remove id => s.absorb (s.queue.remove id)

def Step (s : System) (op : Op) (s' : System) : Prop := s.Enabled op ∧ s' = s.next op

def RemovesBesideOthers (s : System) : Op → Prop
  | .remove id => s.queue.has id = true ∧ 2 ≤ s.queue.queue.length
  | _ => False

instance (s : System) (op : Op) : Decidable (s.RemovesBesideOthers op) := by
  cases op <;> simp only [RemovesBesideOthers] <;> infer_instance

/-- Every slot is free, taken by a running execution, or owed to a queued one, and
nothing waits while a slot is free. -/
structure Balanced (limit : ℤ) (s : System) : Prop where
  slots : s.queue.capacity = limit - s.running.length - s.queue.queue.length
  busy : s.queue.queue ≠ [] → (s.running.length : ℤ) = limit
  within : (s.running.length : ℤ) ≤ limit

theorem initial_balanced {limit : ℤ} (hl : 1 ≤ limit) : Balanced limit (initial limit) := by
  constructor
  · simp [initial, ConcurrencyQueue.create]
  · simp [initial, ConcurrencyQueue.create]
  · simp only [initial, List.length_nil]
    omega

theorem enqueue_balanced {limit : ℤ} {s : System} (h : Balanced limit s) (id : String) :
    Balanced limit (s.next (.enqueue id)) := by
  obtain ⟨hslots, hbusy, hwithin⟩ := h
  simp only [next, ConcurrencyQueue.enqueue]
  split
  · rename_i hc
    have hq : (s.running.length : ℤ) = limit := by
      by_cases he : s.queue.queue = []
      · simp only [he, List.length_nil] at hslots
        omega
      · exact hbusy he
    constructor <;> simp [absorb] <;> omega
  · rename_i hc
    have he : s.queue.queue = [] := by
      by_contra hne
      have hlen := List.length_pos_iff.mpr hne
      have := hbusy hne
      omega
    simp only [he, List.length_nil] at hslots
    constructor <;> simp [absorb, he] <;> omega

theorem resolveNext_length (q : ConcurrencyQueue) :
    (q.resolveNext.resolved.toList.length : ℤ) + q.resolveNext.queue.queue.length =
      q.queue.length ∧ q.resolveNext.queue.capacity = q.capacity ∧
      (q.queue ≠ [] → q.resolveNext.resolved.toList.length = 1) := by
  obtain ⟨c, items⟩ := q
  cases items with
  | nil => simp [ConcurrencyQueue.resolveNext]
  | cons item rest => simp [ConcurrencyQueue.resolveNext]; omega

theorem dequeue_balanced {limit : ℤ} {s : System} (h : Balanced limit s) {p : ℕ}
    (hp : p ∈ s.running) : Balanced limit (s.next (.dequeue p)) := by
  obtain ⟨hslots, hbusy, hwithin⟩ := h
  have hlen := List.length_erase_of_mem hp
  have hpos := List.length_pos_of_mem hp
  obtain ⟨hsum, hcap, hone⟩ := resolveNext_length ⟨s.queue.capacity + 1, s.queue.queue⟩
  simp only [next, ConcurrencyQueue.dequeue]
  constructor
  · simp only [absorb, List.length_append]
    dsimp only at hsum hcap
    omega
  · intro hne
    have hq : s.queue.queue ≠ [] := by
      intro he
      apply hne
      simp [absorb, ConcurrencyQueue.resolveNext, he]
    have := hbusy hq
    have := hone hq
    simp only [absorb, List.length_append]
    omega
  · simp only [absorb, List.length_append]
    by_cases hq : s.queue.queue = []
    · simp [ConcurrencyQueue.resolveNext, hq]
      omega
    · have := hone hq
      omega

theorem remove_absent {s : System} {id : String} (h : s.queue.has id = false) :
    s.next (.remove id) = s := by
  have hn : s.queue.queue.findIdx? (fun item => item.executionId == id) = none := by
    simpa [ConcurrencyQueue.has, List.findIdx?_eq_none_iff] using h
  simp [next, ConcurrencyQueue.remove, hn, absorb]

theorem remove_present {s : System} {id : String} (h : s.queue.has id = true) :
    ∃ index, index < s.queue.queue.length ∧ s.next (.remove id) =
      s.absorb (ConcurrencyQueue.resolveNext
        ⟨s.queue.capacity + 1, s.queue.queue.eraseIdx index⟩) := by
  obtain ⟨item, hitem, hid⟩ := List.any_eq_true.mp h
  cases hf : s.queue.queue.findIdx? (fun item => item.executionId == id) with
  | none => exact absurd hid (by simpa using List.findIdx?_eq_none_iff.mp hf item hitem)
  | some index =>
    obtain ⟨hlt, _⟩ := List.findIdx?_eq_some_iff_getElem.mp hf
    exact ⟨index, hlt, by simp [next, ConcurrencyQueue.remove, hf]⟩

theorem remove_balanced {limit : ℤ} {s : System} (h : Balanced limit s) {id : String}
    (hc : ¬ s.RemovesBesideOthers (.remove id)) : Balanced limit (s.next (.remove id)) := by
  cases hh : s.queue.has id with
  | false => rwa [remove_absent hh]
  | true =>
    obtain ⟨index, hlt, he⟩ := remove_present hh
    have hone : s.queue.queue.length = 1 := by
      simp only [RemovesBesideOthers, hh, true_and, Nat.not_le] at hc
      omega
    have hempty : s.queue.queue.eraseIdx index = [] := by
      rw [List.eraseIdx_eq_nil_iff]
      right
      exact ⟨hone, by omega⟩
    obtain ⟨hslots, hbusy, hwithin⟩ := h
    rw [he, hempty]
    constructor
    · simp only [absorb, ConcurrencyQueue.resolveNext, Option.toList_none, List.append_nil,
        List.length_nil]
      omega
    · simp [absorb, ConcurrencyQueue.resolveNext]
    · simpa [absorb, ConcurrencyQueue.resolveNext] using hwithin

/-- The slot that `resolveNext` hands out after a removal is not free: all were taken,
since executions were queued. -/
theorem remove_beside_others {limit : ℤ} {s : System} (h : Balanced limit s) {id : String}
    (hc : s.RemovesBesideOthers (.remove id)) :
    ((s.next (.remove id)).running.length : ℤ) = limit + 1 := by
  obtain ⟨hh, hlen⟩ := hc
  obtain ⟨index, hlt, he⟩ := remove_present hh
  have hne : s.queue.queue ≠ [] := by
    intro hnil
    simp [hnil] at hlt
  have hrest : s.queue.queue.eraseIdx index ≠ [] := by
    intro hnil
    have := List.length_eraseIdx_of_lt hlt
    rw [hnil] at this
    simp at this
    omega
  have hone := (resolveNext_length ⟨s.queue.capacity + 1, s.queue.queue.eraseIdx index⟩).2.2 hrest
  rw [he]
  simp only [absorb, List.length_append, hone]
  have := h.busy hne
  omega

theorem step_balanced {limit : ℤ} {s s' : System} {op : Op} (h : Balanced limit s)
    (hc : ¬ s.RemovesBesideOthers op) (hs : s.Step op s') : Balanced limit s' := by
  obtain ⟨henabled, rfl⟩ := hs
  cases op with
  | enqueue id => exact enqueue_balanced h id
  | dequeue p => exact dequeue_balanced h henabled
  | remove id => exact remove_balanced h hc

theorem step_overruns {limit : ℤ} {s s' : System} {op : Op} (h : Balanced limit s)
    (hc : ¬ ¬ s.RemovesBesideOthers op) (hs : s.Step op s') :
    ¬ (s'.running.length : ℤ) ≤ limit := by
  rw [not_not] at hc
  obtain ⟨_, rfl⟩ := hs
  cases op with
  | enqueue id => exact hc.elim
  | dequeue p => exact hc.elim
  | remove id =>
    rw [remove_beside_others h hc]
    omega

/-- The limit holds in every state of a run exactly when no call removes a queued
execution while another one is queued. -/
theorem running_le_limit_iff (limit : ℤ) (hl : 1 ≤ limit) (tr : List (Op × System))
    (hr : Run Step (initial limit) tr) :
    Always (fun s => (s.running.length : ℤ) ≤ limit) (initial limit) tr ↔
      EveryStep (fun s op => ¬ s.RemovesBesideOthers op) (initial limit) tr :=
  hr.always_iff_everyStep (initial_balanced hl) (fun _ h => h.within)
    (fun _ _ _ h hc hs => step_balanced h hc hs) (fun _ _ _ h hc hs => step_overruns h hc hs)

theorem run_ops (s : System) (ops : List Op) (h : EveryStep Enabled s (trace next s ops)) :
    Run Step s (trace next s ops) :=
  run_trace (fun _ _ he => ⟨he, rfl⟩) h

/-- One slot, three executions: the second is removed while the first runs, and the
third starts beside it. -/
theorem limit_overrun : ¬ ∀ (limit : ℤ) (tr : List (Op × System)), 1 ≤ limit →
    Run Step (initial limit) tr →
    Always (fun s => (s.running.length : ℤ) ≤ limit) (initial limit) tr := by
  intro h
  have hrun := run_ops (initial 1) [.enqueue "1", .enqueue "2", .enqueue "3", .remove "2"]
    (by decide)
  exact absurd (h 1 _ (by decide) hrun) (by decide)

theorem running_le_limit_serial : Always (fun s => (s.running.length : ℤ) ≤ 1) (initial 1)
    (trace next (initial 1) [.enqueue "1", .enqueue "2", .dequeue 0, .dequeue 1]) :=
  (running_le_limit_iff 1 (by decide) _ (run_ops _ _ (by decide))).mpr (by decide)

end System
end N8n.Concurrency
