import N8n.ExecutionEngine.RunLoop
import N8n.Foundations.Runs

/-!
# How the run loop ends

The loop ends when the stack is empty. An iteration that comes to its end has then
looked at the waiting nodes and left none that could run. One that leaves early has
not: when it took the last item off the stack, nodes that could run stay behind.
-/

namespace N8n

open Runs

variable {ι : Type} [ExecutionItem ι]

def LoopStep (engine : Engine ι) (s : LoopState ι) (iteration : Iteration) (s' : LoopState ι) :
    Prop :=
  iterate engine s = .ok (iteration, s')

/-- The iteration takes the last item and ends early, and the scan would push a node. -/
def LeavesScanOut (workflow : Workflow) (s : LoopState ι) (iteration : Iteration) : Prop :=
  s.run.nodeExecutionStack.length = 1 ∧ (iteration = .filtered ∨ iteration = .noOutput) ∧
    ScanPushes workflow s.run.waitingExecution

variable {engine : Engine ι} {s s' : LoopState ι} {iteration : Iteration}

/-- A node with an output is the destination, or the waiting nodes were looked at. -/
theorem finishNode_cases {executionNode : INode} {runIndex : ℕ}
    {nodeSuccessData : List (Slot ι)} {run run' : RunState ι}
    (h : finishNode engine executionNode runIndex nodeSuccessData run = .ok (iteration, run')) :
    iteration = .destination ∨
      (iteration = .executed ∧ ∃ run, searchWaiting engine.workflow run = .ok run') := by
  rw [finishNode] at h
  obtain ⟨outputs, _, h⟩ := FoldM.bind_eq_ok.mp h
  split at h
  · exact Or.inl (Prod.mk.inj (Except.ok.inj h)).1.symm
  · obtain ⟨run, _, h⟩ := FoldM.bind_eq_ok.mp h
    obtain ⟨run'', hsearch, h⟩ := FoldM.bind_eq_ok.mp h
    obtain ⟨rfl, rfl⟩ := Prod.mk.inj (Except.ok.inj h)
    exact Or.inr ⟨rfl, run, hsearch⟩

/-- What an iteration does to the stack and the waiting nodes. -/
theorem iterate_cases (h : LoopStep engine s iteration s') :
    ∃ executionData stack, s.run.nodeExecutionStack = executionData :: stack ∧
      (((iteration = .filtered ∨ iteration = .noOutput) ∧
          s'.run = { s.run with nodeExecutionStack := stack }) ∨
        (iteration = .deferred ∧ s'.run.nodeExecutionStack ≠ []) ∨
        iteration = .destination ∨
        (iteration = .executed ∧ ∃ run, searchWaiting engine.workflow run = .ok s'.run)) := by
  rw [LoopStep, iterate] at h
  split at h
  · cases h
  next executionData stack hstack =>
    refine ⟨executionData, stack, hstack, ?_⟩
    obtain ⟨executionNode, _, h⟩ := FoldM.bind_eq_ok.mp h
    dsimp only at h
    split at h
    · cases h
    · split at h
      · obtain ⟨rfl, rfl⟩ := Prod.mk.inj (Except.ok.inj h)
        exact Or.inl ⟨Or.inl rfl, rfl⟩
      · obtain ⟨hasInputData, _, h⟩ := FoldM.bind_eq_ok.mp h
        split at h
        · obtain ⟨nodeSuccessData, _, h⟩ := FoldM.bind_eq_ok.mp h
          cases nodeSuccessData with
          | none =>
            obtain ⟨rfl, rfl⟩ := Prod.mk.inj (Except.ok.inj h)
            exact Or.inl ⟨Or.inr rfl, rfl⟩
          | some nodeSuccessData =>
            obtain ⟨⟨iteration', run⟩, hfinish, h⟩ := FoldM.bind_eq_ok.mp h
            obtain ⟨rfl, rfl⟩ := Prod.mk.inj (Except.ok.inj h)
            exact Or.inr (Or.inr (finishNode_cases hfinish))
        · obtain ⟨rfl, rfl⟩ := Prod.mk.inj (Except.ok.inj h)
          exact Or.inr (Or.inl ⟨rfl, List.append_ne_nil_of_right_ne_nil _ (List.cons_ne_nil _ _)⟩)

omit [ExecutionItem ι] in
theorem not_scanPushes_searchWaiting {workflow : Workflow} {run run' : RunState ι}
    (h : searchWaiting workflow run = .ok run') (hempty : run'.nodeExecutionStack = []) :
    ¬ ScanPushes workflow run'.waitingExecution := by
  rw [searchWaiting] at h
  split at h
  · obtain ⟨⟨item, rest⟩, hscan, h⟩ := FoldM.bind_eq_ok.mp h
    obtain rfl := Except.ok.inj h
    cases item with
    | some item => cases hempty
    | none =>
      rintro ⟨item, rest', hpush⟩
      have hfix := scan_fixpoint hscan
      rw [hfix] at hpush
      cases hpush
  next hne =>
    rw [Except.ok.inj h, hempty] at hne
    exact absurd rfl hne

/-- Of one iteration, whether it may leave a node behind that could run. -/
theorem leaves_none_iff (h : LoopStep engine s iteration s') (hdest : iteration ≠ .destination) :
    (s'.run.nodeExecutionStack = [] → ¬ ScanPushes engine.workflow s'.run.waitingExecution) ↔
      ¬ LeavesScanOut engine.workflow s iteration := by
  obtain ⟨executionData, stack, hstack, hcases⟩ := iterate_cases h
  rcases hcases with ⟨hearly, hs'⟩ | ⟨rfl, hne⟩ | hdest' | ⟨rfl, run, hsearch⟩
  · rw [hs', LeavesScanOut, hstack]
    cases stack with
    | nil => simp [hearly]
    | cons item stack => simp
  · exact iff_of_true (fun hempty => absurd hempty hne) (by simp [LeavesScanOut])
  · exact absurd hdest' hdest
  · exact iff_of_true (not_scanPushes_searchWaiting hsearch) (by simp [LeavesScanOut])

/-- A run that ends with an empty stack leaves no node behind that the scan would push, if
and only if it started with an item or with none to push, and no iteration left it out. -/
theorem not_scanPushes_end_iff {tr : List (Iteration × LoopState ι)}
    (hr : Run (LoopStep engine) s tr)
    (hend : (finalState s tr).run.nodeExecutionStack = [])
    (hdest : ∀ p ∈ tr, p.1 ≠ .destination) :
    ¬ ScanPushes engine.workflow (finalState s tr).run.waitingExecution ↔
      (s.run.nodeExecutionStack = [] → ¬ ScanPushes engine.workflow s.run.waitingExecution) ∧
        EveryStep (fun s iteration => ¬ LeavesScanOut engine.workflow s iteration) s tr := by
  induction hr with
  | nil s =>
    rw [finalState] at hend
    simp [finalState, hend, EveryStep]
  | @cons s s' iteration tr hs _ ih =>
    have hrest := ih hend fun p hp => hdest p (List.mem_cons_of_mem _ hp)
    have hstep := leaves_none_iff hs (hdest _ List.mem_cons_self)
    obtain ⟨executionData, stack, hstack, _⟩ := iterate_cases hs
    rw [finalState, hrest, everyStep_cons, hstep]
    simp [hstack]

section Example

/-- `T` is connected to `A` and to the first input of `D`, `B` to its second input. -/
def forkWorkflow : Workflow where
  nodes := (((OrderedMap.empty.set "T" ⟨"T", "trigger", (0, 0), none, false, none⟩).set
    "A" ⟨"A", "set", (1, 0), none, false, none⟩).set
    "B" ⟨"B", "set", (0, 1), none, false, none⟩).set
    "D" ⟨"D", "merge", (1, 1), none, false, none⟩
  connectionsBySourceNode := (OrderedMap.empty.set "T"
    (mainOnly [some [⟨"A", .main, 0⟩, ⟨"D", .main, 0⟩]])).set
    "B" (mainOnly [some [⟨"D", .main, 1⟩]])
  executionOrderV1 := true
  nodeType := fun _ => some ⟨2, none⟩
  evaluate := fun _ _ => none

/-- Every node puts out one item. -/
def forkEngine (runNodeFilter : Option (List String)) (destinationNode : Option String) :
    Engine TextItem where
  workflow := forkWorkflow
  runNodeFilter := runNodeFilter
  destinationNode := destinationNode
  pinData := none
  runNode := fun _ _ _ => .outputs [.items [⟨"x", none⟩]]

def forkStart : LoopState TextItem where
  run := ⟨[⟨forkWorkflow.getNode "T", mainOnly [.items [⟨"", none⟩]], none⟩], .empty, .empty⟩
  lastExecutionTry := ""

def afterIteration (engine : Engine TextItem) (s : LoopState TextItem) : LoopState TextItem :=
  match iterate engine s with
  | .ok (_, s') => s'
  | .error _ => s

def filteredEngine : Engine TextItem := forkEngine (some ["T", "B", "D"]) (some "D")

def filteredTrace : List (Iteration × LoopState TextItem) :=
  [(.executed, afterIteration filteredEngine forkStart),
    (.filtered, afterIteration filteredEngine (afterIteration filteredEngine forkStart))]

/-- `A` is not in the filter and the last on the stack, so `D` waits when the loop ends. -/
theorem waiting_left_behind :
    Run (LoopStep filteredEngine) forkStart filteredTrace ∧
    (finalState forkStart filteredTrace).run.nodeExecutionStack = [] ∧
    (∀ p ∈ filteredTrace, p.1 ≠ .destination) ∧
    ScanPushes forkWorkflow (finalState forkStart filteredTrace).run.waitingExecution :=
  ⟨.cons rfl (.cons rfl (.nil _)), rfl, by simp [filteredTrace], _, _, rfl⟩

def openEngine : Engine TextItem := forkEngine none none

def openTrace : List (Iteration × LoopState TextItem) :=
  let afterT := afterIteration openEngine forkStart
  let afterA := afterIteration openEngine afterT
  [(.executed, afterT), (.executed, afterA), (.executed, afterIteration openEngine afterA)]

/-- Without the filter `D` runs after `A`. -/
theorem none_left_behind :
    ¬ ScanPushes forkWorkflow (finalState forkStart openTrace).run.waitingExecution := by
  have hr : Run (LoopStep openEngine) forkStart openTrace :=
    .cons rfl (.cons rfl (.cons rfl (.nil _)))
  refine (not_scanPushes_end_iff hr rfl (by simp [openTrace])).mpr ⟨nofun, ?_⟩
  simp [openTrace, EveryStep, LeavesScanOut]

end Example

end N8n
