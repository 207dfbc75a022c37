import N8n.Concurrency.ConcurrencyQueue

/-!
# Fairness of the queue

Every slot is accounted for, nothing waits while a slot is free, and the executions that
are released are released in the order of their calls of `enqueue`. A removal may start
an execution beside the limit; the three statements hold all the same.
-/

namespace N8n.Concurrency
open N8n.Runs

namespace System

def outcome (s : System) : Op → Outcome
  | .enqueue id => s.queue.enqueue id s.promises
  | .dequeue _ => s.queue.dequeue
  | .remove id => s.queue.remove id

theorem next_queue (s : System) (op : Op) : (s.next op).queue = (s.outcome op).queue := by
  cases op <;> rfl

def enqueuedIds (tr : List (Op × System)) : List String :=
  tr.filterMap fun e => match e.1 with
    | .enqueue id => some id
    | _ => none

/-- The executions that the calls of a run release. -/
def releasedIds : System → List (Op × System) → List String
  | _, [] => []
  | s, (op, s') :: tr => releasedIn (s.outcome op).events ++ releasedIds s' tr

def queuedIds (q : ConcurrencyQueue) : List String := q.queue.map (·.executionId)

/-- Every slot is accounted for, and nothing waits while a slot is free. -/
structure Conserving (limit : ℤ) (s : System) : Prop where
  slots : s.queue.capacity = limit - s.running.length - s.queue.queue.length
  busy : s.queue.queue ≠ [] → limit ≤ s.running.length

theorem initial_conserving (limit : ℤ) : Conserving limit (initial limit) := by
  constructor <;> simp [initial, ConcurrencyQueue.create]

theorem enqueue_conserving {limit : ℤ} {s : System} (h : Conserving limit s) (id : String) :
    Conserving limit (s.next (.enqueue id)) := by
  obtain ⟨hslots, hbusy⟩ := h
  simp only [next, ConcurrencyQueue.enqueue]
  split
  · rename_i hfull
    have hrunning : limit ≤ s.running.length := by
      by_cases hempty : s.queue.queue = []
      · rw [hempty, List.length_nil] at hslots
        omega
      · exact hbusy hempty
    constructor
    · simp [absorb]
      omega
    · simpa [absorb] using hrunning
  · rename_i hfree
    have hempty : s.queue.queue = [] := by
      by_contra hne
      have hlength := List.length_pos_iff.mpr hne
      have hrunning := hbusy hne
      omega
    rw [hempty, List.length_nil] at hslots
    constructor
    · simp [absorb, hempty]
      omega
    · simp [absorb, hempty]

/-- Giving a slot back and handing it on keeps the count. -/
theorem resolveNext_conserving {limit : ℤ} {s : System} {q : ConcurrencyQueue} {running : List ℕ}
    (hslots : q.capacity = limit - running.length - q.queue.length)
    (hbusy : q.queue ≠ [] → limit ≤ running.length + 1) :
    Conserving limit ({ s with running }.absorb q.resolveNext) := by
  obtain ⟨capacity, items⟩ := q
  cases items with
  | nil => constructor <;> simp_all [absorb, ConcurrencyQueue.resolveNext]
  | cons item items =>
    have hlimit := hbusy (List.cons_ne_nil _ _)
    simp only [List.length_cons] at hslots
    constructor
    · simp [absorb, ConcurrencyQueue.resolveNext]
      omega
    · simp [absorb, ConcurrencyQueue.resolveNext, hlimit]

theorem dequeue_conserving {limit : ℤ} {s : System} (h : Conserving limit s) {p : ℕ}
    (hp : p ∈ s.running) : Conserving limit (s.next (.dequeue p)) := by
  have hlength := List.length_erase_of_mem hp
  have hpos := List.length_pos_of_mem hp
  apply resolveNext_conserving
  · have := h.slots
    dsimp only
    omega
  · intro hne
    have := h.busy hne
    omega

theorem remove_conserving {limit : ℤ} {s : System} (h : Conserving limit s) (id : String) :
    Conserving limit (s.next (.remove id)) := by
  cases hh : s.queue.has id with
  | false => rwa [remove_absent hh]
  | true =>
    obtain ⟨index, hlt, he⟩ := remove_present hh
    have hlength := List.length_eraseIdx_of_lt hlt
    rw [he]
    apply resolveNext_conserving
    · have := h.slots
      dsimp only
      omega
    · intro _
      have := h.busy (List.ne_nil_of_length_pos (by omega))
      omega

theorem step_conserving {limit : ℤ} {s s' : System} {op : Op} (h : Conserving limit s)
    (hs : s.Step op s') : Conserving limit s' := by
  obtain ⟨henabled, rfl⟩ := hs
  cases op with
  | enqueue id => exact enqueue_conserving h id
  | dequeue p => exact dequeue_conserving h henabled
  | remove id => exact remove_conserving h id

/-! ### The order of releases -/

theorem resolveNext_order (q : ConcurrencyQueue) :
    releasedIn q.resolveNext.events ++ queuedIds q.resolveNext.queue = queuedIds q := by
  obtain ⟨capacity, items⟩ := q
  cases items <;> rfl

/-- What a call releases and leaves in the queue was there in this order, or came in last. -/
theorem outcome_order (s : System) (op : Op) :
    (releasedIn (s.outcome op).events ++ queuedIds (s.outcome op).queue).Sublist
      (queuedIds s.queue ++ match op with
        | .enqueue id => [id]
        | _ => []) := by
  cases op with
  | enqueue id =>
    simp only [outcome, ConcurrencyQueue.enqueue]
    split
    · simp [releasedIn, queuedIds]
    · simp [releasedIn, queuedIds]
  | dequeue p =>
    simp only [outcome, ConcurrencyQueue.dequeue, resolveNext_order, List.append_nil]
    exact List.Sublist.refl _
  | remove id =>
    simp only [outcome, ConcurrencyQueue.remove, List.append_nil]
    split
    · simp [releasedIn]
    · rw [resolveNext_order]
      exact (List.eraseIdx_sublist _ _).map _

theorem releasedIds_sublist {s : System} {tr : List (Op × System)} (hr : Run Step s tr) :
    (releasedIds s tr).Sublist (queuedIds s.queue ++ enqueuedIds tr) := by
  induction hr with
  | nil s => exact List.nil_sublist _
  | @cons s s' op tr hs _ ih =>
    obtain ⟨_, rfl⟩ := hs
    rw [next_queue] at ih
    have hrest := (List.Sublist.refl (releasedIn (s.outcome op).events)).append ih
    rw [← List.append_assoc] at hrest
    refine hrest.trans (((outcome_order s op).append_right _).trans ?_)
    cases op <;> simp [enqueuedIds]

/-- In every run the slots add up, nothing waits while a slot is free, and releases follow
the order of the calls of `enqueue`. -/
theorem conserving_and_fair (limit : ℤ) {tr : List (Op × System)}
    (hr : Run Step (initial limit) tr) :
    Always (Conserving limit) (initial limit) tr ∧
      (releasedIds (initial limit) tr).Sublist (enqueuedIds tr) :=
  ⟨hr.invariant (initial_conserving limit) fun _ _ _ => step_conserving,
    releasedIds_sublist hr⟩

/-- The third execution is removed, and the others follow one another in the one slot. -/
theorem three_inTurn :
    Always (Conserving 1) (initial 1) (trace next (initial 1)
        [.enqueue "1", .enqueue "2", .enqueue "3", .enqueue "4", .dequeue 0, .remove "3"]) ∧
      (releasedIds (initial 1) (trace next (initial 1)
        [.enqueue "1", .enqueue "2", .enqueue "3", .enqueue "4", .dequeue 0, .remove "3"])).Sublist
        ["1", "2", "3", "4"] :=
  conserving_and_fair 1 (run_ops _ _ (by decide))

end System
end N8n.Concurrency
