import N8n.ExecutionEngine.LoopEnd
import N8n.Foundations.Rotation

/-!
# Items that are put back for lack of input data

An item whose node lacks input data goes to the end of the stack. The guard against
an endless loop remembers the last such try only. So the loop puts items back for
ever exactly when it would put back each item of the stack and no two that follow
one another, all around, are the same try.
-/

namespace N8n

open Runs Rotation

variable {ι : Type} {workflow : Workflow} {data : ITaskDataConnections ι} {executionNode : INode}

/-- A node that is not disabled comes before the input. -/
def HasHighestNode (workflow : Workflow) (nodeName : String) (connectionIndex : ℕ) : Prop :=
  ∃ highestNodes, workflow.getHighestNode nodeName connectionIndex = .ok highestNodes ∧
    highestNodes ≠ []

/-- There is no `main` connection, or the legacy order finds no data for the input. -/
def InputMissing (workflow : Workflow) (data : ITaskDataConnections ι) (connectionIndex : ℕ) :
    Prop :=
  ∀ main, data.get? .main = some main → workflow.executionOrderV1 = false ∧
    (main.length < connectionIndex ∨ getSlot main connectionIndex = .null)

def Workflow.inputConnections (workflow : Workflow) (executionNode : INode) :
    List (Option (List Connection)) :=
  ((workflow.connectionsByDestinationNode.get? executionNode.name).bind (·.get? .main)).getD []

/-- Up to the first input that is missing all of them have a node before them. -/
def LacksInput (workflow : Workflow) (executionNode : INode) (data : ITaskDataConnections ι) :
    Prop :=
  ∃ connectionIndex < (workflow.inputConnections executionNode).length,
    InputMissing workflow data connectionIndex ∧
      ∀ index ≤ connectionIndex, HasHighestNode workflow executionNode.name index

theorem inputDataFound_eq_false_iff {nodeName : String} (start n : ℕ) :
    inputDataFound workflow nodeName data (List.range' start n) = .ok false ↔
      ∃ connectionIndex, start ≤ connectionIndex ∧ connectionIndex < start + n ∧
        InputMissing workflow data connectionIndex ∧
        ∀ index, start ≤ index → index ≤ connectionIndex →
          HasHighestNode workflow nodeName index := by
  induction n generalizing start with
  | zero =>
    refine ⟨nofun, ?_⟩
    rintro ⟨connectionIndex, hle, hlt, _⟩
    omega
  | succ n ih =>
    -- the first input decides unless it has a node before it and data
    have hsplit : (∃ connectionIndex, start ≤ connectionIndex ∧ connectionIndex < start + (n + 1) ∧
        InputMissing workflow data connectionIndex ∧
        ∀ index, start ≤ index → index ≤ connectionIndex →
          HasHighestNode workflow nodeName index) ↔
        HasHighestNode workflow nodeName start ∧ (InputMissing workflow data start ∨
          ∃ connectionIndex, start + 1 ≤ connectionIndex ∧ connectionIndex < start + 1 + n ∧
            InputMissing workflow data connectionIndex ∧
            ∀ index, start + 1 ≤ index → index ≤ connectionIndex →
              HasHighestNode workflow nodeName index) := by
      constructor
      · rintro ⟨connectionIndex, hle, hlt, hmissing, hall⟩
        refine ⟨hall start le_rfl hle, ?_⟩
        by_cases heq : connectionIndex = start
        · exact Or.inl (heq ▸ hmissing)
        · exact Or.inr ⟨connectionIndex, by omega, by omega, hmissing,
            fun index hindex => hall index (by omega)⟩
      · rintro ⟨hstart, hmissing | ⟨connectionIndex, hle, hlt, hmissing, hall⟩⟩
        · refine ⟨start, le_rfl, by omega, hmissing, fun index hle hge => ?_⟩
          obtain rfl : index = start := by omega
          exact hstart
        · refine ⟨connectionIndex, by omega, by omega, hmissing, fun index hindex hge => ?_⟩
          by_cases heq : index = start
          · exact heq ▸ hstart
          · exact hall index (by omega) hge
    rw [hsplit, List.range'_succ, inputDataFound]
    cases hhighest : workflow.getHighestNode nodeName start with
    | error failure =>
      refine ⟨nofun, ?_⟩
      rintro ⟨⟨highestNodes, hok, _⟩, _⟩
      rw [hhighest] at hok
      cases hok
    | ok highestNodes =>
      have hhas : HasHighestNode workflow nodeName start ↔ ¬ highestNodes.length = 0 := by
        rw [HasHighestNode, hhighest]
        simp
      rw [FoldM.ok_bind, hhas]
      split_ifs with hzero
      · simp [hzero]
      · cases hmain : data.get? .main with
        | none => simp [InputMissing, hmain, hzero]
        | some main =>
          have hmissing : InputMissing workflow data start ↔ workflow.executionOrderV1 = false ∧
              (main.length < start ∨ (getSlot main start).isNull = true) := by
            simp [InputMissing, hmain]
          dsimp only
          rw [hmissing]
          split_ifs with hnull
          · exact iff_of_true rfl ⟨hzero, Or.inl hnull⟩
          · rw [ih]
            exact ⟨fun h => ⟨hzero, Or.inr h⟩, fun h => h.2.resolve_left hnull⟩

theorem ensureInputData_eq_false_iff :
    ensureInputData workflow executionNode data = .ok false ↔
      LacksInput workflow executionNode data := by
  rw [ensureInputData, List.range_eq_range', inputDataFound_eq_false_iff, LacksInput,
    Workflow.inputConnections]
  simp

section Iterate
variable [ExecutionItem ι] {engine : Engine ι} {s s' : LoopState ι} {item : IExecuteData ι}

/-- The loop puts the item back: its node is not filtered out and lacks input data. -/
def PutBack (engine : Engine ι) (item : IExecuteData ι) : Prop :=
  ∃ executionNode, item.node = some executionNode ∧
    (∀ names, engine.runNodeFilter = some names → executionNode.name ∈ names) ∧
    LacksInput engine.workflow executionNode item.data

/-- `name:runIndex` -/
def executionTry (runData : IRunData ι) (item : IExecuteData ι) : String :=
  match item.node with
  | none => ""
  | some executionNode =>
    s!"{executionNode.name}:{((runData.get? executionNode.name).getD []).length}"

def withPairedItems (item : IExecuteData ι) : IExecuteData ι :=
  { item with data := updatePairedItems item.data }

theorem lacksInput_updatePairedItems : LacksInput workflow executionNode (updatePairedItems data) ↔
    LacksInput workflow executionNode data := by
  have hslot : ∀ (main : List (Slot ι)) (f : ℕ → Slot ι → Slot ι) (i : ℕ),
      (∀ j slot, f j slot = .null ↔ slot = .null) →
      (getSlot (main.mapIdx f) i = .null ↔ getSlot main i = .null) := by
    intro main f i hf
    rw [getSlot, getSlot, List.getElem?_mapIdx]
    cases main[i]? with
    | none => rfl
    | some slot => exact hf i slot
  have hmissing : ∀ i, InputMissing workflow (updatePairedItems data) i ↔
      InputMissing workflow data i := by
    intro i
    rw [InputMissing, InputMissing, updatePairedItems, OrderedMap.get?_mapValues]
    cases data.get? .main with
    | none => simp
    | some main =>
      simp only [Option.map_some, Option.some.injEq, forall_eq', List.length_mapIdx]
      rw [hslot]
      intro j slot
      cases slot <;> simp [Slot.mapItems]
  simp only [LacksInput, hmissing]

theorem putBack_withPairedItems : PutBack engine (withPairedItems item) ↔ PutBack engine item := by
  rw [PutBack, PutBack]
  simp only [withPairedItems, lacksInput_updatePairedItems]

theorem executionTry_withPairedItems (runData : IRunData ι) (item : IExecuteData ι) :
    executionTry runData (withPairedItems item) = executionTry runData item := rfl

/-- What an iteration that puts an item back starts from and what it leaves. -/
theorem iterate_deferred_iff : iterate engine s = .ok (.deferred, s') ↔
    ∃ item stack, s.run.nodeExecutionStack = item :: stack ∧ PutBack engine item ∧
      executionTry s.run.runData item ≠ s.lastExecutionTry ∧
      s' = ⟨{ s.run with nodeExecutionStack := stack ++ [withPairedItems item] },
        executionTry s.run.runData item⟩ := by
  constructor
  · intro h
    rw [iterate] at h
    split at h
    · cases h
    next item stack hstack =>
      obtain ⟨executionNode, hnode, h⟩ := FoldM.bind_eq_ok.mp h
      have hnode := orTypeError_eq_ok.mp hnode
      have htry : executionTry s.run.runData item =
          s!"{executionNode.name}:{((s.run.runData.get? executionNode.name).getD []).length}" := by
        rw [executionTry, hnode]
      dsimp only at h
      rw [← htry] at h
      split at h
      · cases h
      next hdiffers =>
        split at h
        · cases (Prod.mk.inj (Except.ok.inj h)).1
        next hfilter =>
          obtain ⟨hasInputData, hensure, h⟩ := FoldM.bind_eq_ok.mp h
          cases hasInputData with
          | true =>
            exfalso
            rw [if_pos rfl] at h
            obtain ⟨nodeSuccessData, _, h⟩ := FoldM.bind_eq_ok.mp h
            cases nodeSuccessData with
            | none => cases (Prod.mk.inj (Except.ok.inj h)).1
            | some nodeSuccessData =>
              obtain ⟨⟨iteration, run⟩, hfinish, h⟩ := FoldM.bind_eq_ok.mp h
              obtain ⟨rfl, _⟩ := Prod.mk.inj (Except.ok.inj h)
              rcases finishNode_cases hfinish with hcase | ⟨hcase, _⟩ <;> cases hcase
          | false =>
            obtain ⟨_, rfl⟩ := Prod.mk.inj (Except.ok.inj h)
            refine ⟨item, stack, hstack, ⟨executionNode, hnode, ?_, ?_⟩, hdiffers, rfl⟩
            · intro names hnames
              simpa [hnames] using hfilter
            · exact lacksInput_updatePairedItems.mp (ensureInputData_eq_false_iff.mp hensure)
  · rintro ⟨item, stack, hstack, ⟨executionNode, hnode, hfilter, hlacks⟩, hdiffers, rfl⟩
    have htry : executionTry s.run.runData item =
        s!"{executionNode.name}:{((s.run.runData.get? executionNode.name).getD []).length}" := by
      rw [executionTry, hnode]
    have hnotFiltered : ¬ (engine.runNodeFilter.any fun names =>
        !names.contains executionNode.name) = true := by
      cases hnames : engine.runNodeFilter with
      | none => simp
      | some names => simp [hfilter names hnames]
    have hensure : ensureInputData engine.workflow executionNode (updatePairedItems item.data) =
        .ok false :=
      ensureInputData_eq_false_iff.mpr (lacksInput_updatePairedItems.mpr hlacks)
    rw [iterate, hstack]
    dsimp only
    rw [orTypeError_eq_ok.mpr hnode, FoldM.ok_bind, ← htry, if_neg hdiffers, if_neg hnotFiltered, hensure]
    rfl

/-! ### Endless deferral -/

def Deferred (engine : Engine ι) (s s' : LoopState ι) : Prop :=
  iterate engine s = .ok (.deferred, s')

/-- What the loop goes through while it puts items back. -/
def stackQueue (s : LoopState ι) : Queue (IExecuteData ι) String :=
  ⟨s.run.nodeExecutionStack, s.lastExecutionTry⟩

/-- All items of the stack are put back, and none is the try that comes before it, all around. -/
def Spins (engine : Engine ι) (s : LoopState ι) : Prop :=
  Turning (PutBack engine) (executionTry s.run.runData) (stackQueue s)

theorem endless_deferred_iff : Endless (Deferred engine) s ↔ Spins engine s := by
  let rotates := Rotates (PutBack engine) (executionTry s.run.runData) withPairedItems
  have hqueue : Endless rotates (stackQueue s) ↔ Spins engine s :=
    endless_iff (fun _ h => putBack_withPairedItems.mpr h) (executionTry_withPairedItems _)
  rw [← hqueue]
  constructor
  · intro h
    refine h.simulated (fun s₁ q => s₁.run.runData = s.run.runData ∧ q = stackQueue s₁) ⟨rfl, rfl⟩ ?_
    rintro s₁ _ s₂ ⟨hdata, rfl⟩ hstep
    obtain ⟨item, stack, hstack, hback, hdiffers, rfl⟩ := iterate_deferred_iff.mp hstep
    rw [hdata] at hdiffers
    refine ⟨stackQueue ⟨_, _⟩, ?_, hdata, rfl⟩
    rw [stackQueue, stackQueue, hstack, hdata]
    exact .mk hback hdiffers
  · intro h
    refine h.simulated (fun q s₁ => s₁.run.runData = s.run.runData ∧ q = stackQueue s₁) ⟨rfl, rfl⟩ ?_
    rintro _ s₁ q ⟨hdata, rfl⟩ hstep
    obtain ⟨⟨stack, waiting, runData⟩, last⟩ := s₁
    obtain rfl : runData = s.run.runData := hdata
    cases hstep with
    | @mk item rest _ hback hdiffers =>
      refine ⟨_, iterate_deferred_iff.mpr ⟨item, rest, rfl, hback, hdiffers, rfl⟩, rfl, rfl⟩

/-- The loop does not put items back for ever exactly when the stack does not spin. -/
theorem deferral_ends_iff (engine : Engine ι) (s : LoopState ι) :
    ¬ Endless (Deferred engine) s ↔ ¬ Spins engine s :=
  not_congr endless_deferred_iff

end Iterate

section Example

/-- `A` and `B` are connected to both `M` and `N`, which have two inputs each. -/
def twoMergesWorkflow : Workflow where
  nodes := ["A", "B", "M", "N"].foldl
    (fun nodes name => nodes.set name ⟨name, "set", (0, 0), some false, false, none⟩) .empty
  connectionsBySourceNode :=
    (OrderedMap.empty.set "A" (mainOnly [some [⟨"M", .main, 0⟩, ⟨"N", .main, 0⟩]])).set "B"
      (mainOnly [some [⟨"M", .main, 1⟩, ⟨"N", .main, 1⟩]])
  executionOrderV1 := false
  nodeType := fun _ => some ⟨2, none⟩
  evaluate := fun _ _ => none

def twoMergesEngine : Engine TextItem where
  workflow := twoMergesWorkflow
  runNodeFilter := none
  destinationNode := none
  pinData := none
  runNode := fun _ _ _ => .null

/-- The node has data for its first input only. -/
def halfItem (name : String) : IExecuteData TextItem where
  node := twoMergesWorkflow.getNode name
  data := mainOnly [.items [⟨"a", none⟩], .null]
  source := none

def halfStack : LoopState TextItem := ⟨⟨[halfItem "M", halfItem "N"], .empty, .empty⟩, ""⟩

theorem halfStack_spins : twoMergesEngine.workflow.executionOrderV1 = false ∧
    Endless (Deferred twoMergesEngine) halfStack := by
  have hM : PutBack twoMergesEngine (halfItem "M") :=
    ⟨_, rfl, nofun, ensureInputData_eq_false_iff.mp (by rfl)⟩
  have hN : PutBack twoMergesEngine (halfItem "N") :=
    ⟨_, rfl, nofun, ensureInputData_eq_false_iff.mp (by rfl)⟩
  refine ⟨rfl, endless_deferred_iff.mpr ⟨List.cons_ne_nil _ _, ?_, by decide⟩⟩
  exact List.forall_mem_cons.mpr ⟨hM, List.forall_mem_singleton.mpr hN⟩

end Example
end N8n
