import N8n.ExecutionEngine.Deferral

/-!
# Nodes that start with all their inputs

In the legacy order a node starts only when there is data for each of its inputs. The
check of the length of `data.main` is off by one: the data of the last input may be absent.
-/

namespace N8n

variable {ι : Type}

def RunState.putBack (run : RunState ι) (executionData : IExecuteData ι) : RunState ι :=
  { run with nodeExecutionStack := run.nodeExecutionStack ++ [executionData] }

/-- The loop over the inputs, with what it does to the stack. -/
def RunState.ensureInputs (workflow : Workflow) (executionNode : INode)
    (executionData : IExecuteData ι) :
    List ℕ → RunState ι → Except Failure (Bool × RunState ι)
  | [], run => .ok (true, run)
  | connectionIndex :: connectionIndexes, run => do
    let highestNodes ← workflow.getHighestNode executionNode.name connectionIndex
    if highestNodes.length = 0 then .ok (true, run)
    else
      match executionData.data.get? .main with
      | none => .ok (false, run.putBack executionData)
      | some main =>
        if workflow.executionOrderV1 = false ∧
            (main.length < connectionIndex ∨ (getSlot main connectionIndex).isNull) then
          .ok (false, run.putBack executionData)
        else ensureInputs workflow executionNode executionData connectionIndexes run

/-- `ensureInputData`, with what it does to the stack. -/
def RunState.ensureInputData (workflow : Workflow) (executionNode : INode)
    (executionData : IExecuteData ι) (run : RunState ι) : Except Failure (Bool × RunState ι) :=
  run.ensureInputs workflow executionNode executionData
    (List.range (workflow.inputConnections executionNode).length)

section
variable {workflow : Workflow} {executionNode : INode} {executionData : IExecuteData ι}
  {run : RunState ι}

/-- The answer is that of the check, and the item is put back where the answer is no. -/
theorem RunState.ensureInputs_eq (connectionIndexes : List ℕ) :
    run.ensureInputs workflow executionNode executionData connectionIndexes =
      (fun found => (found, if found then run else run.putBack executionData)) <$>
        inputDataFound workflow executionNode.name executionData.data connectionIndexes := by
  induction connectionIndexes with
  | nil => rfl
  | cons connectionIndex connectionIndexes ih =>
    rw [ensureInputs, inputDataFound]
    cases workflow.getHighestNode executionNode.name connectionIndex with
    | error failure => rfl
    | ok highestNodes =>
      rw [FoldM.ok_bind, FoldM.ok_bind]
      split_ifs with hzero
      · rfl
      · cases executionData.data.get? .main with
        | none => rfl
        | some main =>
          dsimp only
          split_ifs with hnull
          · rfl
          · exact ih

theorem RunState.ensureInputData_eq_ok {found : Bool} {run' : RunState ι} :
    run.ensureInputData workflow executionNode executionData = .ok (found, run') ↔
      N8n.ensureInputData workflow executionNode executionData.data = .ok found ∧
        run' = if found then run else run.putBack executionData := by
  rw [ensureInputData, ensureInputs_eq, FoldM.map_eq_ok]
  constructor
  · rintro ⟨found', hfound, heq⟩
    obtain ⟨rfl, rfl⟩ := Prod.mk.inj heq
    exact ⟨hfound, rfl⟩
  · rintro ⟨hfound, rfl⟩
    exact ⟨found, hfound, rfl⟩

/-- The check fails only where the search for the highest nodes does. -/
theorem inputDataFound_ok {nodeName : String} (data : ITaskDataConnections ι)
    {connectionIndexes : List ℕ}
    (h : ∀ index ∈ connectionIndexes, HasHighestNode workflow nodeName index) :
    ∃ found, inputDataFound workflow nodeName data connectionIndexes = .ok found := by
  induction connectionIndexes with
  | nil => exact ⟨true, rfl⟩
  | cons connectionIndex connectionIndexes ih =>
    obtain ⟨highestNodes, hhighest, hne⟩ := h connectionIndex List.mem_cons_self
    have hlength : highestNodes.length ≠ 0 := fun hzero => hne (List.length_eq_zero_iff.mp hzero)
    rw [inputDataFound, hhighest, FoldM.ok_bind, if_neg hlength]
    cases data.get? .main with
    | none => exact ⟨false, rfl⟩
    | some main =>
      dsimp only
      split_ifs with hnull
      · exact ⟨false, rfl⟩
      · exact ih fun index hindex => h index (List.mem_cons_of_mem _ hindex)

end

section
variable (workflow : Workflow) (executionNode : INode) (executionData : IExecuteData ι)

def EveryInputHasHighestNode : Prop :=
  ∀ index < (workflow.inputConnections executionNode).length,
    HasHighestNode workflow executionNode.name index

/-- There is a list of items for each input. -/
def EveryInputPresent : Prop :=
  ∀ index < (workflow.inputConnections executionNode).length,
    ∃ main items, executionData.data.get? .main = some main ∧ getSlot main index = .items items

/-- What `ensureInputData` answers is right, and an item that cannot start is put back once. -/
structure StartsComplete (run : RunState ι) : Prop where
  complete : ∀ run', run.ensureInputData workflow executionNode executionData = .ok (true, run') →
    EveryInputHasHighestNode workflow executionNode →
    EveryInputPresent workflow executionNode executionData
  putBack : ∀ run', run.ensureInputData workflow executionNode executionData = .ok (false, run') →
    run' = { run with nodeExecutionStack := run.nodeExecutionStack ++ [executionData] }

/-- `data.main` has one entry less than there are inputs, and no entry is `null`. -/
def LacksLastInput : Prop :=
  ∃ main, executionData.data.get? .main = some main ∧
    main.length + 1 = (workflow.inputConnections executionNode).length ∧ .null ∉ main

end

section
variable {workflow : Workflow} {executionNode : INode} {executionData : IExecuteData ι}
  {run : RunState ι}

theorem getSlot_eq_undefined {slots : List (Slot ι)} {index : ℕ} (h : slots.length ≤ index) :
    getSlot slots index = .undefined := by
  rw [getSlot, List.getElem?_eq_none h]
  rfl

theorem getSlot_mem {slots : List (Slot ι)} {index : ℕ} (h : index < slots.length) :
    getSlot slots index ∈ slots := by
  rw [getSlot, List.getElem?_eq_getElem h]
  exact List.getElem_mem h

/-- The data of the last input is not missed. -/
theorem LacksLastInput.not_lacksInput (h : LacksLastInput workflow executionNode executionData) :
    ¬ LacksInput workflow executionNode executionData.data := by
  obtain ⟨main, hmain, hlength, hnull⟩ := h
  rintro ⟨index, hindex, hmissing, _⟩
  rcases (hmissing main hmain).2 with hshort | hslot
  · omega
  · by_cases hlt : index < main.length
    · exact hnull (hslot ▸ getSlot_mem hlt)
    · rw [getSlot_eq_undefined (Nat.le_of_not_lt hlt)] at hslot
      cases hslot

theorem LacksLastInput.not_everyInputPresent
    (h : LacksLastInput workflow executionNode executionData) :
    ¬ EveryInputPresent workflow executionNode executionData := by
  obtain ⟨main, hmain, hlength, _⟩ := h
  intro hpresent
  obtain ⟨main', items, hmain', hitems⟩ := hpresent main.length (by omega)
  obtain rfl := Option.some.inj (hmain.symm.trans hmain')
  rw [getSlot_eq_undefined le_rfl] at hitems
  cases hitems

/-- Where no input is found missing, only the last one can be. -/
theorem everyInputPresent_of_not_lacksInput (hlegacy : workflow.executionOrderV1 = false)
    (hdefined : ∀ main, executionData.data.get? .main = some main → .undefined ∉ main)
    (hhighest : EveryInputHasHighestNode workflow executionNode)
    (hfound : ¬ LacksInput workflow executionNode executionData.data)
    (hlast : ¬ LacksLastInput workflow executionNode executionData) :
    EveryInputPresent workflow executionNode executionData := by
  have hnotMissing : ∀ index < (workflow.inputConnections executionNode).length,
      ¬ InputMissing workflow executionData.data index := fun index hindex hmissing =>
    hfound ⟨index, hindex, hmissing, fun i hi => hhighest i (by omega)⟩
  intro index hindex
  cases hmain : executionData.data.get? .main with
  | none =>
    refine absurd (fun main hsome => ?_) (hnotMissing index hindex)
    rw [hmain] at hsome
    cases hsome
  | some main =>
    have hslots : ∀ i < (workflow.inputConnections executionNode).length,
        i ≤ main.length ∧ getSlot main i ≠ .null := by
      intro i hi
      have hi := hnotMissing i hi
      simp only [InputMissing, hmain, Option.some.injEq, forall_eq', hlegacy, true_and] at hi
      exact ⟨Nat.le_of_not_lt fun hlt => hi (Or.inl hlt), fun hnull => hi (Or.inr hnull)⟩
    have hlt : index < main.length := by
      by_contra hge
      -- then the list ends right before the last input
      refine hlast ⟨main, hmain, ?_, fun hnull => ?_⟩
      · have := (hslots ((workflow.inputConnections executionNode).length - 1) (by omega)).1
        omega
      · obtain ⟨i, hi, hget⟩ := List.mem_iff_getElem.mp hnull
        refine (hslots i (by omega)).2 ?_
        rw [getSlot, List.getElem?_eq_getElem hi, hget]
        rfl
    cases hslot : getSlot main index with
    | undefined => exact absurd (hslot ▸ getSlot_mem hlt) (hdefined main hmain)
    | null => exact absurd hslot (hslots index hindex).2
    | items items => exact ⟨main, items, rfl, hslot⟩

/-- Exactly the items that lack the data of their last input start too early. -/
theorem startsComplete_iff_not_lacksLastInput (hlegacy : workflow.executionOrderV1 = false)
    (hdefined : ∀ main, executionData.data.get? .main = some main → .undefined ∉ main) :
    StartsComplete workflow executionNode executionData run ↔
      ¬ (LacksLastInput workflow executionNode executionData ∧
        EveryInputHasHighestNode workflow executionNode) := by
  constructor
  · rintro h ⟨hlast, hhighest⟩
    obtain ⟨found, hfound⟩ := inputDataFound_ok executionData.data fun index
      (hindex : index ∈ List.range (workflow.inputConnections executionNode).length) =>
        hhighest index (List.mem_range.mp hindex)
    cases found with
    | false => exact hlast.not_lacksInput (ensureInputData_eq_false_iff.mp hfound)
    | true =>
      refine hlast.not_everyInputPresent (h.complete run ?_ hhighest)
      exact RunState.ensureInputData_eq_ok.mpr ⟨hfound, rfl⟩
  · intro h
    refine ⟨fun run' hensure hhighest => ?_, fun run' hensure => ?_⟩
    · have hfound := (RunState.ensureInputData_eq_ok.mp hensure).1
      refine everyInputPresent_of_not_lacksInput hlegacy hdefined hhighest (fun hlacks => ?_)
        fun hlast => h ⟨hlast, hhighest⟩
      rw [ensureInputData_eq_false_iff.mpr hlacks] at hfound
      cases hfound
    · exact (RunState.ensureInputData_eq_ok.mp hensure).2

end

section Example

def mergeNode : INode := ⟨"M", "set", (0, 0), some false, false, none⟩

/-- An item for the first merge of `twoMergesWorkflow`. -/
def mergeItem (main : List (Slot TextItem)) : IExecuteData TextItem where
  node := mergeNode
  data := mainOnly main
  source := none

def emptyRun : RunState TextItem := ⟨[], .empty, .empty⟩

theorem bothInputs_startsComplete :
    StartsComplete twoMergesWorkflow mergeNode (mergeItem [.items [⟨"a", none⟩], .null]) emptyRun := by
  refine (startsComplete_iff_not_lacksLastInput rfl fun main hmain => ?_).mpr ?_
  · obtain rfl := Option.some.inj hmain
    decide
  · rintro ⟨⟨main, hmain, hlength, _⟩, _⟩
    obtain rfl := Option.some.inj hmain
    exact absurd hlength (by decide)

theorem firstInput_not_startsComplete : twoMergesWorkflow.executionOrderV1 = false ∧
    ¬ StartsComplete twoMergesWorkflow mergeNode (mergeItem [.items [⟨"a", none⟩]]) emptyRun := by
  refine ⟨rfl, fun h => ?_⟩
  have hlast : LacksLastInput twoMergesWorkflow mergeNode (mergeItem [.items [⟨"a", none⟩]]) :=
    ⟨_, rfl, by decide, by decide⟩
  refine hlast.not_everyInputPresent (h.complete emptyRun rfl fun index hindex => ?_)
  have hcases : index = 0 ∨ index = 1 := by
    have : index < 2 := hindex
    omega
  rcases hcases with rfl | rfl
  · exact ⟨["A"], rfl, List.cons_ne_nil _ _⟩
  · exact ⟨["B"], rfl, List.cons_ne_nil _ _⟩

end Example
end N8n
