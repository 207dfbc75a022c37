import N8n.ExecutionEngine.AddNode
import N8n.Foundations.Runs
import N8n.Foundations.Totals
import Mathlib.Algebra.Order.Group.Multiset

/-!
# What happens to delivered lists

Lists are delivered to the inputs of one node. Each should end up at its input in
one place, a waiting entry of the node or an item that was pushed on the stack.
The ledger keeps the deliveries beside the state. A new entry stands under the
number of entries, and when that run index is in use the entry there is written
over, and the lists in it are gone.
-/

namespace N8n

open Runs

variable {ι : Type}

/-- The lists in an array of inputs, with the input each is at. -/
def placedFrom : ℕ → List (Slot ι) → Multiset (ℕ × List ι)
  | _, [] => 0
  | index, .items items :: slots => (index, items) ::ₘ placedFrom (index + 1) slots
  | index, .null :: slots => placedFrom (index + 1) slots
  | index, .undefined :: slots => placedFrom (index + 1) slots

def placed (data : ITaskDataConnections ι) : Multiset (ℕ × List ι) :=
  placedFrom 0 ((data.get? .main).getD [])

theorem placed_eq {entry : WaitingEntry ι} {main : List (Slot ι)} (h : entry.main? = some main) :
    placed entry.data = placedFrom 0 main := by
  rw [placed, show entry.data.get? .main = some main from h]
  rfl

@[simp] theorem placed_mainOnly (main : List (Slot ι)) : placed (mainOnly main) = placedFrom 0 main := by
  simp [placed]

theorem placedFrom_replicate_null (start n : ℕ) :
    placedFrom start (List.replicate n .null : List (Slot ι)) = 0 := by
  induction n generalizing start with
  | zero => rfl
  | succ n ih => exact ih (start + 1)

theorem placedFrom_setSlot {slots : List (Slot ι)} {index : ℕ} (start : ℕ) (items : List ι)
    (h : (getSlot slots index).items? = none) :
    placedFrom start (setSlot slots index (.items items)) =
      (start + index, items) ::ₘ placedFrom start slots := by
  induction slots generalizing start index with
  | nil =>
    induction index generalizing start with
    | zero => rfl
    | succ index ih =>
      have hrest := ih (start + 1) h
      rw [show start + 1 + index = start + (index + 1) by omega] at hrest
      exact hrest
  | cons slot slots ih =>
    cases index with
    | zero =>
      cases slot with
      | items l => cases h
      | null => rfl
      | undefined => rfl
    | succ index =>
      have hrest := ih (start + 1) (by simpa using h)
      rw [show start + 1 + index = start + (index + 1) by omega] at hrest
      cases slot with
      | items l => rw [setSlot, placedFrom, placedFrom, hrest, Multiset.cons_swap]
      | null => rw [setSlot, placedFrom, placedFrom, hrest]
      | undefined => rw [setSlot, placedFrom, placedFrom, hrest]

theorem placedFrom_ne_zero {slots : List (Slot ι)} {index : ℕ} (start : ℕ)
    (h : (getSlot slots index).items? ≠ none) : placedFrom start slots ≠ 0 := by
  induction slots generalizing start index with
  | nil => exact absurd rfl h
  | cons slot slots ih =>
    cases slot with
    | items l => exact Multiset.cons_ne_zero
    | null | undefined =>
      cases index with
      | zero => exact absurd rfl h
      | succ index => exact ih (start + 1) (by simpa using h)

theorem placed_ne_zero {entry : WaitingEntry ι} {index : ℕ}
    (h : (entry.inputData? index).isSome = true) : placed entry.data ≠ 0 := by
  cases hmain : entry.main? with
  | none =>
    rw [WaitingEntry.inputData?, hmain] at h
    cases h
  | some main =>
    rw [WaitingEntry.inputData?, hmain, Option.bind_some, Option.isSome_iff_ne_none] at h
    exact placed_eq hmain ▸ placedFrom_ne_zero 0 h

structure Ledger (ι : Type) where
  state : RunState ι
  delivered : Multiset (ℕ × List ι)

/-- A call for the node that returns and delivers a list. -/
def Delivers [ExecutionItem ι] (workflow : Workflow) (nodeName : String)
    (ledger : Ledger ι) (call : NodeCall ι) (ledger' : Ledger ι) : Prop :=
  call.connectionData.node = nodeName ∧
  ∃ items, call.data = .items items ∧
    ledger.state.addNodeToBeExecuted workflow call = .ok ledger'.state ∧
    ledger'.delivered = (call.connectionData.index, items) ::ₘ ledger.delivered

/-- Every delivered list is in one place, in an entry or in an item that was pushed. -/
def Conserved (nodeName : String) (base : List (IExecuteData ι)) (ledger : Ledger ι) : Prop :=
  ∃ pushed, ledger.state.nodeExecutionStack = pushed ++ base ∧
    (ledger.state.entriesOf nodeName).total (fun entry => placed entry.data) +
      (pushed.map fun item => placed item.data).sum = ledger.delivered

/-- A new entry is needed, and the number of the entries is the index of one of them. -/
def NewEntryInUse (nodeName : String) (ledger : Ledger ι) (call : NodeCall ι) : Prop :=
  AllHaveData (ledger.state.entriesOf nodeName) call.connectionData.index ∧
    (ledger.state.entriesOf nodeName).size ∈ (ledger.state.entriesOf nodeName).keys

instance (nodeName : String) (ledger : Ledger ι) (call : NodeCall ι) :
    Decidable (NewEntryInUse nodeName ledger call) :=
  inferInstanceAs (Decidable (_ ∧ _))

theorem placed_written {entry : WaitingEntry ι} {main : List (Slot ι)} {index : ℕ}
    (hmain : entry.main? = some main) (h : (getSlot main index).items? = none) (items : List ι) :
    placedFrom 0 (setSlot main index (.items items)) = {(index, items)} + placed entry.data := by
  rw [placed_eq hmain, placedFrom_setSlot 0 items h, Nat.zero_add, Multiset.singleton_add]

theorem placed_opened (n index : ℕ) (items : List ι) :
    placedFrom 0 (setSlot (List.replicate n .null) index (.items items)) = {(index, items)} := by
  have hmain := main?_prepareWaitingToExecution (ι := ι) n
  have hslot : (getSlot (List.replicate n .null : List (Slot ι)) index).items? = none := by
    rw [getSlot, List.getElem?_replicate]
    split <;> rfl
  rw [placed_written hmain hslot, placed_eq hmain, placedFrom_replicate_null, add_zero]

section Steps
variable {workflow : Workflow} {nodeName : String} {base stack : List (IExecuteData ι)}
  {s : RunState ι} {delivered new : Multiset (ℕ × List ι)} {index : ℕ}
  {entry entry' : WaitingEntry ι} {main : List (Slot ι)}

theorem Conserved.moveToStack (hv1 : workflow.executionOrderV1 = true)
    (h : Conserved nodeName base ⟨s, delivered⟩)
    (hentry : (s.entriesOf nodeName).get? index = some entry)
    (hplaced : placed entry'.data = new + placed entry.data) :
    Conserved nodeName base
      ⟨s.moveToStack workflow nodeName (s.entriesOf nodeName) index entry', new + delivered⟩ := by
  obtain ⟨pushed, hstack, htotal⟩ := h
  refine ⟨executionStackItem workflow nodeName entry' :: pushed, ?_, ?_⟩
  · rw [RunState.moveToStack, enqueue, if_pos hv1, List.cons_append]
    exact congrArg _ hstack
  · have hdelete := OrderedMap.total_delete hentry fun entry => placed entry.data
    dsimp only at htotal ⊢
    rw [RunState.entriesOf_moveToStack, List.map_cons, List.sum_cons, executionStackItem, hplaced,
      ← htotal, ← hdelete]
    abel

theorem Conserved.keepWaiting (h : Conserved nodeName base ⟨s, delivered⟩)
    (hentry : (s.entriesOf nodeName).get? index = some entry)
    (hplaced : placedFrom 0 main = new + placed entry.data) (entry' : WaitingEntry ι) :
    Conserved nodeName base ⟨s.keepWaiting s.nodeExecutionStack nodeName (s.entriesOf nodeName)
      index entry' main, new + delivered⟩ := by
  obtain ⟨pushed, hstack, htotal⟩ := h
  refine ⟨pushed, hstack, ?_⟩
  have hset := OrderedMap.total_set_of_some hentry (keptEntry entry' main)
    fun entry => placed entry.data
  rw [placed_eq (main?_keptEntry ..), hplaced, ← add_assoc] at hset
  dsimp only at htotal ⊢
  rw [RunState.entriesOf_keepWaiting, add_right_cancel hset, ← htotal]
  abel

theorem Conserved.openEntry (h : Conserved nodeName base ⟨s, delivered⟩)
    (hunused : (s.entriesOf nodeName).get? index = none) (hplaced : placedFrom 0 main = new)
    (entry' : WaitingEntry ι) :
    Conserved nodeName base ⟨s.keepWaiting s.nodeExecutionStack nodeName (s.entriesOf nodeName)
      index entry' main, new + delivered⟩ := by
  obtain ⟨pushed, hstack, htotal⟩ := h
  refine ⟨pushed, hstack, ?_⟩
  have hset := OrderedMap.total_set_of_none hunused (keptEntry entry' main)
    fun entry => placed entry.data
  rw [placed_eq (main?_keptEntry ..), hplaced] at hset
  dsimp only at htotal ⊢
  rw [RunState.entriesOf_keepWaiting, hset, ← htotal]
  abel

/-- A list that stood in the entry before is nowhere after it is written over. -/
theorem Conserved.overwrite (h : Conserved nodeName base ⟨s, delivered⟩)
    (hentry : (s.entriesOf nodeName).get? index = some entry) (hdata : placed entry.data ≠ 0)
    (hplaced : placedFrom 0 main = new) (entry' : WaitingEntry ι) :
    ¬ Conserved nodeName base ⟨s.keepWaiting s.nodeExecutionStack nodeName (s.entriesOf nodeName)
      index entry' main, new + delivered⟩ := by
  rintro ⟨pushed', hstack', htotal'⟩
  obtain ⟨pushed, hstack, htotal⟩ := h
  obtain rfl : pushed = pushed' := List.append_cancel_right (hstack.symm.trans hstack')
  have hset := OrderedMap.total_set_of_some hentry (keptEntry entry' main)
    fun entry => placed entry.data
  rw [placed_eq (main?_keptEntry ..), hplaced] at hset
  dsimp only at htotal htotal'
  rw [RunState.entriesOf_keepWaiting, ← htotal, ← add_assoc] at htotal'
  rw [add_right_cancel htotal', add_comm _ new] at hset
  exact hdata (add_eq_left.mp hset)

end Steps

variable [ExecutionItem ι] {workflow : Workflow} {nodeName : String}
  {inputs : List (Option (List Connection))} {base : List (IExecuteData ι)}
  {ledger ledger' : Ledger ι} {call : NodeCall ι}

/-- What a delivery does: the list is added to an entry that lacks it, or a new entry is
made for it, which keeps waiting. -/
theorem Delivers.cases (hv1 : workflow.executionOrderV1 = true)
    (hinputs : workflow.mainInputs nodeName = .ok (some inputs)) (hlen : 1 < inputs.length)
    (h : Delivers workflow nodeName ledger call ledger') :
    ∃ (new : Multiset (ℕ × List ι)) (index : ℕ) (entry' : WaitingEntry ι) (main : List (Slot ι)),
      ledger'.delivered = new + ledger.delivered ∧
      ((∃ entry, (ledger.state.entriesOf nodeName).get? index = some entry ∧
          ¬ AllHaveData (ledger.state.entriesOf nodeName) call.connectionData.index ∧
          placed entry'.data = new + placed entry.data ∧
          placedFrom 0 main = new + placed entry.data ∧
          (ledger'.state = ledger.state.moveToStack workflow nodeName
              (ledger.state.entriesOf nodeName) index entry' ∨
            ledger'.state = ledger.state.keepWaiting ledger.state.nodeExecutionStack nodeName
              (ledger.state.entriesOf nodeName) index entry' main)) ∨
        (AllHaveData (ledger.state.entriesOf nodeName) call.connectionData.index ∧
          index = (ledger.state.entriesOf nodeName).size ∧ placedFrom 0 main = new ∧
          ledger'.state = ledger.state.keepWaiting ledger.state.nodeExecutionStack nodeName
            (ledger.state.entriesOf nodeName) index entry' main)) := by
  obtain ⟨rfl, items, hdata, hok, hdelivered⟩ := h
  obtain ⟨index, entry, main, hfor, hcases⟩ :=
    RunState.addNodeToBeExecuted_cases hinputs hlen hok
  rw [hdata] at hcases
  refine ⟨{(call.connectionData.index, items)}, index,
    entry.set main call.connectionData.index (.items items) call.source,
    setSlot main call.connectionData.index (.items items), hdelivered, ?_⟩
  rcases waitingEntryFor_cases hfor with ⟨hentry, hmain, hslot⟩ | ⟨hall, rfl, rfl, rfl⟩
  · refine Or.inl ⟨entry, hentry, ?_, ?_, placed_written hmain hslot items, ?_⟩
    · intro hall
      have hdata := hall entry (OrderedMap.mem_values.mpr ⟨index, hentry⟩)
      rw [WaitingEntry.inputData?, hmain, Option.bind_some, hslot] at hdata
      cases hdata
    · rw [placed_eq (WaitingEntry.main?_set ..), placed_written hmain hslot items]
    · rcases hcases with ⟨_, hs'⟩ | ⟨_, stack, waiting, hforced, hs'⟩
      · exact Or.inl hs'
      · exact Or.inr (RunState.stackWithInputs_v1 hv1 hforced ▸ hs')
  · refine Or.inr ⟨hall, rfl, placed_opened inputs.length _ items, ?_⟩
    rcases hcases with ⟨hfound, _⟩ | ⟨_, stack, waiting, hforced, hs'⟩
    · rw [allDataFound_prepared hlen] at hfound
      cases hfound
    · exact RunState.stackWithInputs_v1 hv1 hforced ▸ hs'

theorem conserved_step (hv1 : workflow.executionOrderV1 = true)
    (hinputs : workflow.mainInputs nodeName = .ok (some inputs)) (hlen : 1 < inputs.length)
    (h : Conserved nodeName base ledger) (hfree : ¬ NewEntryInUse nodeName ledger call)
    (hstep : Delivers workflow nodeName ledger call ledger') :
    Conserved nodeName base ledger' := by
  obtain ⟨new, index, entry', main, hdelivered, hcases⟩ := hstep.cases hv1 hinputs hlen
  obtain ⟨s, delivered⟩ := ledger
  obtain ⟨s', delivered'⟩ := ledger'
  dsimp only at hdelivered hcases
  subst hdelivered
  rcases hcases with ⟨entry, hentry, _, hmoved, hkept, rfl | rfl⟩ | ⟨hall, rfl, hplaced, rfl⟩
  · exact h.moveToStack hv1 hentry hmoved
  · exact h.keepWaiting hentry hkept entry'
  · exact h.openEntry (OrderedMap.get?_eq_none.mpr fun hkey => hfree ⟨hall, hkey⟩) hplaced entry'

theorem not_conserved_step (hv1 : workflow.executionOrderV1 = true)
    (hinputs : workflow.mainInputs nodeName = .ok (some inputs)) (hlen : 1 < inputs.length)
    (h : Conserved nodeName base ledger) (hused : NewEntryInUse nodeName ledger call)
    (hstep : Delivers workflow nodeName ledger call ledger') :
    ¬ Conserved nodeName base ledger' := by
  obtain ⟨new, index, entry', main, hdelivered, hcases⟩ := hstep.cases hv1 hinputs hlen
  obtain ⟨s, delivered⟩ := ledger
  obtain ⟨s', delivered'⟩ := ledger'
  dsimp only at hdelivered hcases
  subst hdelivered
  rcases hcases with ⟨entry, hentry, hnot, _⟩ | ⟨hall, rfl, hplaced, rfl⟩
  · exact absurd hused.1 hnot
  · obtain ⟨entry, hentry⟩ := Option.isSome_iff_exists.mp (OrderedMap.has_iff.mpr hused.2)
    have hdata := hall entry (OrderedMap.mem_values.mpr ⟨_, hentry⟩)
    exact h.overwrite hentry (placed_ne_zero hdata) hplaced entry'

section Example

/-- `A` and `B` are connected to the two inputs of `D`. -/
def mergeWorkflow : Workflow where
  nodes := (((OrderedMap.empty.set "A" ⟨"A", "set", (0, 0), none, false, none⟩).set
    "B" ⟨"B", "set", (0, 0), none, false, none⟩).set "D" ⟨"D", "merge", (0, 0), none, false, none⟩)
  connectionsBySourceNode := (OrderedMap.empty.set "A" (mainOnly [some [⟨"D", .main, 0⟩]])).set
    "B" (mainOnly [some [⟨"D", .main, 1⟩]])
  executionOrderV1 := true
  nodeType := fun _ => some ⟨2, none⟩
  evaluate := fun _ _ => none

/-- Run `runIndex` of the parent gives the text to the input. -/
def textCall (parentNodeName : String) (index runIndex : ℕ) (text : String) : NodeCall TextItem :=
  ⟨⟨"D", .main, index⟩, 0, parentNodeName, some [.items [⟨text, none⟩]], runIndex⟩

def emptyLedger : Ledger TextItem := ⟨⟨[], .empty, .empty⟩, 0⟩

def deliver (ledger : Ledger TextItem) (call : NodeCall TextItem) : Ledger TextItem :=
  match ledger.state.addNodeToBeExecuted mergeWorkflow call, call.data with
  | .ok s, .items items => ⟨s, (call.connectionData.index, items) ::ₘ ledger.delivered⟩
  | _, _ => ledger

def Deliverable (ledger : Ledger TextItem) (call : NodeCall TextItem) : Prop :=
  call.connectionData.node = "D" ∧ call.data.items?.isSome = true ∧
    (ledger.state.addNodeToBeExecuted mergeWorkflow call).isOk = true

instance (ledger : Ledger TextItem) (call : NodeCall TextItem) :
    Decidable (Deliverable ledger call) :=
  inferInstanceAs (Decidable (_ ∧ _ ∧ _))

theorem delivers_deliver {ledger : Ledger TextItem} {call : NodeCall TextItem}
    (h : Deliverable ledger call) :
    Delivers mergeWorkflow "D" ledger call (deliver ledger call) := by
  obtain ⟨hnode, hdata, hok⟩ := h
  refine ⟨hnode, ?_⟩
  rw [deliver]
  cases hcall : call.data with
  | items items =>
    cases hs : ledger.state.addNodeToBeExecuted mergeWorkflow call with
    | ok s => exact ⟨items, rfl, rfl, rfl⟩
    | error e =>
      rw [hs] at hok
      cases hok
  | null | undefined =>
    rw [hcall] at hdata
    cases hdata

/-- The second entry gets the index of the first one, which was completed in between. -/
def overwritingCalls : List (NodeCall TextItem) :=
  [textCall "A" 0 0 "a0", textCall "A" 0 1 "a1", textCall "B" 1 0 "b0", textCall "A" 0 2 "a2"]

end Example
end N8n
