import N8n.ExecutionEngine.AddNode
import N8n.ExecutionEngine.Recreate
import N8n.Foundations.Runs
import N8n.Foundations.Totals

/-!
# Resuming from a recreated state

The engine takes an entry for complete when no place of it is `null`. For its own
entries, which start with a `null` for each input, that is right. A recreated entry
has no `null` at all, so the first list that is added to it completes it, whatever
other inputs are missing.
-/

namespace N8n

open Runs

variable {ι : Type}

/-- If the call moves an entry of its node to the stack, the item has data for every input. -/
def MovesFull (workflow : Workflow) (s : RunState ι) (call : NodeCall ι) (s' : RunState ι) : Prop :=
  ∀ inputs, workflow.mainInputs call.connectionData.node = .ok (some inputs) →
    (s'.entriesOf call.connectionData.node).size < (s.entriesOf call.connectionData.node).size →
    ∃ item main, s'.nodeExecutionStack = enqueue workflow s.nodeExecutionStack item ∧
      item.data.get? .main = some main ∧
      ∀ inputIndex < inputs.length, (getSlot main inputIndex).items? ≠ none

/-- The entry the call writes to has no place for another input of the node. -/
def AnotherInputMissing (workflow : Workflow) (s : RunState ι) (call : NodeCall ι) : Prop :=
  ∃ inputs, workflow.mainInputs call.connectionData.node = .ok (some inputs) ∧
    1 < inputs.length ∧ ∃ index entry main,
      waitingEntryFor (s.entriesOf call.connectionData.node) call.connectionData.index
        inputs.length = .ok (index, entry, main) ∧
      ∃ inputIndex < inputs.length, inputIndex ≠ call.connectionData.index ∧
        getSlot main inputIndex = .undefined

/-- An entry of the engine has a place for each input, a recreated one has no `null`. -/
def EntryShape (n : ℕ) (main : List (Slot ι)) : Prop :=
  (∀ inputIndex < n, getSlot main inputIndex ≠ .undefined) ∨ ∀ slot ∈ main, slot ≠ .null

def TableShape (workflow : Workflow) (s : RunState ι) : Prop :=
  ∀ nodeName inputs, workflow.mainInputs nodeName = .ok (some inputs) →
    ∀ index entry main, (s.entriesOf nodeName).get? index = some entry →
      entry.main? = some main → EntryShape inputs.length main

theorem getSlot_ne_null {main : List (Slot ι)} (h : ∀ slot ∈ main, slot ≠ .null) (index : ℕ) :
    getSlot main index ≠ .null := by
  rw [getSlot]
  cases hslot : main[index]? with
  | none => nofun
  | some slot => exact h slot (List.mem_of_getElem? hslot)

theorem noNull_setSlot {main : List (Slot ι)} (h : ∀ slot ∈ main, slot ≠ .null) (index : ℕ)
    (items : List ι) : ∀ slot ∈ setSlot main index (.items items), slot ≠ .null := by
  intro slot hslot
  rcases mem_setSlot hslot with hslot | rfl | rfl
  · exact h slot hslot
  · nofun
  · nofun

theorem EntryShape.setSlot {n : ℕ} {main : List (Slot ι)} (h : EntryShape n main) (index : ℕ)
    (items : List ι) : EntryShape n (setSlot main index (.items items)) := by
  rcases h with h | h
  · left
    intro inputIndex hlt
    rw [getSlot_setSlot]
    split_ifs
    · nofun
    · exact h inputIndex hlt
  · exact Or.inr (noNull_setSlot h index items)

theorem EntryShape.replicate (n : ℕ) : EntryShape n (List.replicate n .null : List (Slot ι)) := by
  left
  intro inputIndex hlt
  rw [getSlot, List.getElem?_replicate, if_pos hlt]
  nofun

theorem enqueue_inj {workflow : Workflow} {stack : List (IExecuteData ι)}
    {item item' : IExecuteData ι} (h : enqueue workflow stack item = enqueue workflow stack item') :
    item = item' := by
  rw [enqueue, enqueue] at h
  split_ifs at h
  · exact (List.cons.inj h).1
  · exact (List.cons.inj (List.append_cancel_left h)).1

section Table
variable {workflow : Workflow} {s s' : RunState ι} {nodeName : String}
  {inputs : List (Option (List Connection))} {inputIndex index : ℕ}
  {entry entry' : WaitingEntry ι} {main main' : List (Slot ι)} {stack : List (IExecuteData ι)}

/-- The entry a call writes to has the shape, also when it is new. -/
theorem TableShape.chosen (h : TableShape workflow s)
    (hinputs : workflow.mainInputs nodeName = .ok (some inputs))
    (hfor : waitingEntryFor (s.entriesOf nodeName) inputIndex inputs.length =
      .ok (index, entry, main)) : EntryShape inputs.length main := by
  rcases waitingEntryFor_cases hfor with ⟨hentry, hmain, _⟩ | ⟨_, _, _, rfl⟩
  · exact h nodeName inputs hinputs index entry main hentry hmain
  · exact EntryShape.replicate _

theorem TableShape.moveToStack (h : TableShape workflow s) :
    TableShape workflow
      (s.moveToStack workflow nodeName (s.entriesOf nodeName) index entry) := by
  intro nodeName' inputs hinputs index' entry' main hentry hmain
  by_cases hne : nodeName = nodeName'
  · subst hne
    rw [RunState.entriesOf_moveToStack, OrderedMap.get?_delete] at hentry
    split_ifs at hentry
    exact h _ inputs hinputs index' entry' main hentry hmain
  · rw [RunState.entriesOf_moveToStack_of_ne hne] at hentry
    exact h _ inputs hinputs index' entry' main hentry hmain

theorem TableShape.keepWaiting (h : TableShape workflow s)
    (hinputs : workflow.mainInputs nodeName = .ok (some inputs))
    (hshape : EntryShape inputs.length main) :
    TableShape workflow
      (s.keepWaiting stack nodeName (s.entriesOf nodeName) index entry main) := by
  intro nodeName' inputs' hinputs' index' entry' main' hentry hmain
  by_cases hne : nodeName = nodeName'
  · subst hne
    obtain rfl := Option.some.inj (Except.ok.inj (hinputs.symm.trans hinputs'))
    rw [RunState.entriesOf_keepWaiting, OrderedMap.get?_set] at hentry
    split_ifs at hentry
    · obtain rfl := Option.some.inj hentry
      rw [main?_keptEntry] at hmain
      exact Option.some.inj hmain ▸ hshape
    · exact h _ inputs hinputs index' entry' main' hentry hmain
  · rw [RunState.entriesOf_keepWaiting_of_ne hne] at hentry
    exact h _ inputs' hinputs' index' entry' main' hentry hmain

end Table

section Steps
variable [ExecutionItem ι]

/-- A call that returns and delivers a list. -/
def Adds (workflow : Workflow) (s : RunState ι) (call : NodeCall ι) (s' : RunState ι) : Prop :=
  (∃ items, call.data = .items items) ∧ s.addNodeToBeExecuted workflow call = .ok s'

variable {workflow : Workflow} {s s' : RunState ι} {call : NodeCall ι}

omit [ExecutionItem ι] in
theorem allDataFound_iff {main : List (Slot ι)} :
    allDataFound main = true ↔ ∀ slot ∈ main, slot ≠ .null := by
  simp [allDataFound, ← Bool.not_eq_true]

theorem TableShape.step (h : TableShape workflow s) (hstep : Adds workflow s call s') :
    TableShape workflow s' := by
  obtain ⟨⟨items, hdata⟩, hok⟩ := hstep
  obtain ⟨inputs, hinputs, hsingle⟩ := RunState.inputs_of_addNodeToBeExecuted hok
  by_cases hlen : inputs.length ≤ 1
  · rw [hsingle hlen]
    exact h
  · obtain ⟨index, entry, main, hfor, hcases⟩ :=
      RunState.addNodeToBeExecuted_cases hinputs (by omega) hok
    rw [hdata] at hcases
    rcases hcases with ⟨_, rfl⟩ | ⟨_, stack, waiting, _, rfl⟩
    · exact h.moveToStack
    · exact h.keepWaiting hinputs ((h.chosen hinputs hfor).setSlot _ _)

omit [ExecutionItem ι] in
theorem anotherInputMissing_iff {inputs : List (Option (List Connection))} {index : ℕ}
    {entry : WaitingEntry ι} {main : List (Slot ι)}
    (hinputs : workflow.mainInputs call.connectionData.node = .ok (some inputs))
    (hlen : 1 < inputs.length)
    (hfor : waitingEntryFor (s.entriesOf call.connectionData.node) call.connectionData.index
      inputs.length = .ok (index, entry, main)) :
    AnotherInputMissing workflow s call ↔ ∃ inputIndex < inputs.length,
      inputIndex ≠ call.connectionData.index ∧ getSlot main inputIndex = .undefined := by
  constructor
  · rintro ⟨inputs', hinputs', _, index', entry', main', hfor', hmissing⟩
    obtain rfl := Option.some.inj (Except.ok.inj (hinputs.symm.trans hinputs'))
    obtain ⟨rfl, hrest⟩ := Prod.mk.inj (Except.ok.inj (hfor.symm.trans hfor'))
    obtain ⟨rfl, rfl⟩ := Prod.mk.inj hrest
    exact hmissing
  · exact fun hmissing => ⟨inputs, hinputs, hlen, index, entry, main, hfor, hmissing⟩

omit [ExecutionItem ι] in
/-- Once a list is added, an entry without `null` lacks what it lacked at other inputs. -/
theorem full_iff {main : List (Slot ι)} {n index : ℕ} {items : List ι}
    (hall : allDataFound (setSlot main index (.items items)) = true) :
    (∀ inputIndex < n, (getSlot (setSlot main index (.items items)) inputIndex).items? ≠ none) ↔
      ¬ ∃ inputIndex < n, inputIndex ≠ index ∧ getSlot main inputIndex = .undefined := by
  constructor
  · rintro hfull ⟨inputIndex, hlt, hne, hslot⟩
    apply hfull inputIndex hlt
    rw [getSlot_setSlot, if_neg (Ne.symm hne), hslot]
    rfl
  · intro hmissing inputIndex hlt
    have hnull := getSlot_ne_null (allDataFound_iff.mp hall) inputIndex
    rw [getSlot_setSlot] at hnull ⊢
    split_ifs at hnull ⊢ with hne
    · nofun
    · cases hslot : getSlot main inputIndex with
      | items items => nofun
      | null => exact absurd hslot hnull
      | undefined => exact absurd ⟨inputIndex, hlt, Ne.symm hne, hslot⟩ hmissing

/-- The item has all data if and only if no other input of the entry was missing. -/
theorem movesFull_iff (h : TableShape workflow s) (hstep : Adds workflow s call s') :
    MovesFull workflow s call s' ↔ ¬ AnotherInputMissing workflow s call := by
  obtain ⟨⟨items, hdata⟩, hok⟩ := hstep
  obtain ⟨inputs, hinputs, hsingle⟩ := RunState.inputs_of_addNodeToBeExecuted hok
  have hsome {inputs'} (h' : workflow.mainInputs call.connectionData.node = .ok (some inputs')) :
      inputs' = inputs :=
    Option.some.inj (Except.ok.inj (h'.symm.trans hinputs))
  by_cases hlen : inputs.length ≤ 1
  · constructor
    · rintro - ⟨inputs', hinputs', hlt, _⟩
      rw [hsome hinputs'] at hlt
      omega
    · intro _ inputs' _ hlt
      rw [hsingle hlen] at hlt
      exact absurd hlt (lt_irrefl _)
  · obtain ⟨index, entry, main, hfor, hcases⟩ :=
      RunState.addNodeToBeExecuted_cases hinputs (by omega) hok
    rw [anotherInputMissing_iff hinputs (by omega) hfor]
    rw [hdata] at hcases
    rcases hcases with ⟨hall, rfl⟩ | ⟨hall, stack, waiting, _, rfl⟩
    · rw [← full_iff hall]
      constructor
      · intro hmoves
        have hentry : (s.entriesOf call.connectionData.node).get? index = some entry := by
          rcases waitingEntryFor_cases hfor with ⟨hentry, _⟩ | ⟨_, _, _, rfl⟩
          · exact hentry
          · rw [allDataFound_prepared (by omega)] at hall
            cases hall
        obtain ⟨item, main', hstack, hmain', hfull⟩ := hmoves inputs hinputs (by
          rw [RunState.entriesOf_moveToStack, ← OrderedMap.size_delete hentry]
          exact Nat.lt_succ_self _)
        rw [← enqueue_inj hstack] at hmain'
        have heq := (WaitingEntry.main?_set entry main _ _ call.source).symm.trans hmain'
        rw [Option.some.inj heq]
        exact hfull
      · intro hfull inputs' hinputs' _
        rw [hsome hinputs']
        exact ⟨_, _, rfl, entry.main?_set main _ _ call.source, hfull⟩
    · constructor
      · rintro - ⟨inputIndex, hlt, _, hslot⟩
        -- A recreated entry would have been complete.
        rcases h.chosen hinputs hfor with hshape | hshape
        · exact hshape inputIndex hlt hslot
        · rw [allDataFound_iff.mpr (noNull_setSlot hshape _ items)] at hall
          cases hall
      · intro _ inputs' _ hlt
        rw [RunState.entriesOf_keepWaiting] at hlt
        exact absurd hlt (not_lt.mpr (OrderedMap.size_le_set ..))

end Steps

section Runs
variable [ExecutionItem ι]

theorem tableShape_recreated {localeCompare : String → String → ℤ} {graph : DirectedGraph}
    {startNodes : OrderedSet INode} {runData : IRunData ι} {pinData : IPinData ι}
    {recreated : Recreated ι}
    (h : recreateNodeExecutionStack localeCompare graph startNodes runData pinData = .ok recreated)
    (workflow : Workflow) {s : RunState ι} (hs : s.waitingExecution = recreated.waitingExecution) :
    TableShape workflow s := by
  intro nodeName inputs _ index entry main hentry hmain
  right
  rw [RunState.entriesOf, hs] at hentry
  cases hentries : recreated.waitingExecution.get? nodeName with
  | none =>
    rw [hentries] at hentry
    cases hentry
  | some entries =>
    rw [hentries] at hentry
    exact recreateNodeExecutionStack_noNull h nodeName entries hentries index entry hentry .main
      main hmain

end Runs

section Example

def namedNode (name : String) : INode := ⟨name, "set", (0, 0), none, false, none⟩

/-- `a`, `b` and `c` are connected to the three inputs of `D`. -/
def joinGraph : DirectedGraph :=
  .ofParts [namedNode "a", namedNode "b", namedNode "c", namedNode "D"]
    [⟨namedNode "a", namedNode "D", .main, 0, 0⟩, ⟨namedNode "b", namedNode "D", .main, 0, 1⟩,
      ⟨namedNode "c", namedNode "D", .main, 0, 2⟩]

def joinWorkflow : Workflow where
  nodes := joinGraph.nodes
  connectionsBySourceNode := ((OrderedMap.empty.set "a" (mainOnly [some [⟨"D", .main, 0⟩]])).set
    "b" (mainOnly [some [⟨"D", .main, 1⟩]])).set "c" (mainOnly [some [⟨"D", .main, 2⟩]])
  executionOrderV1 := true
  nodeType := fun _ => none
  evaluate := fun _ _ => none

/-- The nodes that ran before, with one item each. -/
def ranBefore (names : List String) : IRunData TextItem :=
  names.foldl (fun runData name =>
    runData.set name [⟨some (mainOnly [.items [⟨name, none⟩]])⟩]) .empty

def joinStarts : OrderedSet INode :=
  ((OrderedSet.empty.insert (namedNode "b")).insert (namedNode "c")).insert (namedNode "D")

def recreatedFrom (names : List String) : Recreated TextItem :=
  match recreateNodeExecutionStack (fun _ _ => 0) joinGraph joinStarts (ranBefore names) .empty with
  | .ok recreated => recreated
  | .error _ => ⟨[], .empty⟩

def resumedState (names : List String) : RunState TextItem :=
  ⟨(recreatedFrom names).nodeExecutionStack, (recreatedFrom names).waitingExecution,
    ranBefore names⟩

def callFromB : NodeCall TextItem :=
  ⟨⟨"D", .main, 1⟩, 0, "b", some [.items [⟨"b", none⟩]], 0⟩

def afterB (names : List String) : RunState TextItem :=
  match (resumedState names).addNodeToBeExecuted joinWorkflow callFromB with
  | .ok s => s
  | .error _ => resumedState names

def joinInputs : List (Option (List Connection)) :=
  [some [⟨"a", .main, 0⟩], some [⟨"b", .main, 0⟩], some [⟨"c", .main, 0⟩]]

theorem adds_fromB (names : List String)
    (h : (resumedState names).addNodeToBeExecuted joinWorkflow callFromB = .ok (afterB names)) :
    Run (Adds joinWorkflow) (resumedState names) [(callFromB, afterB names)] :=
  .cons ⟨⟨_, rfl⟩, h⟩ (.nil _)

end Example

end N8n
