import N8n.ExecutionEngine.RunState
import N8n.Foundations.Totals
import Mathlib.Data.String.Basic

/-!
# The scan of the waiting nodes

When the stack is empty the engine looks for a waiting node that does not need data
on all inputs. It takes the first node that may run off the table; if none of its
inputs has items the search starts over, otherwise the node goes on the stack. A
hole is skipped by the loops over the inputs, as `map` and `filter` do.
-/

namespace N8n

variable {ι : Type}

/-- The index a key stands for, if it is written the way array indexes are. -/
def arrayIndex? (key : String) : Option ℕ :=
  let digits := key.toList
  if digits = [] ∨ digits.any (fun c => !c.isDigit) ∨ (digits.head? = some '0' ∧ digits.length > 1)
  then none
  else
    let index := digits.foldl (fun index c => 10 * index + (c.toNat - '0'.toNat)) 0
    if index < 2 ^ 32 - 1 then some index else none

/-- `Object.keys`: the indexes ascend and come before the names. -/
def objectKeys {α : Type} (m : OrderedMap String α) : List String :=
  (m.keys.filter fun key => (arrayIndex? key).isSome).insertionSort
      (fun a b => (arrayIndex? a).getD 0 ≤ (arrayIndex? b).getD 0) ++
    m.keys.filter fun key => (arrayIndex? key).isNone

/-- The first index when they are sorted as texts. -/
def firstRunIndex (entries : WaitingEntries ι) : Option ℕ :=
  (entries.keys.insertionSort fun a b => Nat.toDigits 10 a ≤ Nat.toDigits 10 b).head?

/-- The inputs that received any data. -/
def inputsWithData (main : List (Slot ι)) : List ℕ :=
  main.zipIdx.filterMap fun (data, index) => if data.items?.isSome then some index else none

def Workflow.requiredInputs (workflow : Workflow) (checkNode : INode) :
    Except Failure (Option RequiredInputs) :=
  if workflow.executionOrderV1 then do
    let description ← orTypeError (workflow.nodeType checkNode)
    match description.requiredInputs with
    | none => .ok none
    | some (.inl expression) => .ok (workflow.evaluate checkNode expression)
    | some (.inr requiredInputs) => .ok (some requiredInputs)
  else .ok none

def Workflow.inputsLength (workflow : Workflow) (checkNode : INode) : Except Failure ℕ :=
  NodeTypeDescription.inputsLength <$> orTypeError (workflow.nodeType checkNode)

/-- All inputs are required. The length of the inputs is read only where some are. -/
def allRequired (workflow : Workflow) (checkNode : INode) :
    Option RequiredInputs → Except Failure Bool
  | none => .ok false
  | some (.indexes inputs) => do
    let inputsLength ← workflow.inputsLength checkNode
    .ok (decide (inputs.length = inputsLength))
  | some (.count inputs) => do
    let inputsLength ← workflow.inputsLength checkNode
    .ok (decide (inputs = inputsLength))

def requiredInputMissing (withData : List ℕ) : Option RequiredInputs → Bool
  | none => false
  | some (.indexes inputs) => inputs.any fun requiredInput => !withData.contains requiredInput
  | some (.count inputs) => decide (withData.length < inputs)

/-- For an input that never got data an empty array is set. -/
def taskDataMain (main : List (Slot ι)) : List (Slot ι) :=
  main.map fun data =>
    match data with
    | .null => .items []
    | .items items => .items items
    | .undefined => .undefined

def hasItems (main : List (Slot ι)) : Bool :=
  main.any fun data => (data.items?.getD []).length ≠ 0

/-- Each input receives at least an empty array. -/
def padInputs (main : List (Slot ι)) (inputsLength : ℕ) : List (Slot ι) :=
  main ++ List.replicate (inputsLength - main.length) (.items [])

def removeEntry (waitingExecution : WaitingTable ι) (nodeName : String)
    (entries : WaitingEntries ι) (runIndex : ℕ) : WaitingTable ι :=
  let entries := entries.delete runIndex
  if entries.size = 0 then waitingExecution.delete nodeName
  else waitingExecution.set nodeName entries

/-- What is taken off the table: the item for the stack, if there is data, and the rest. -/
structure Taken (ι : Type) where
  item : Option (IExecuteData ι)
  rest : WaitingTable ι

/-- The item for the stack, if any input has items. -/
def itemToExecute (workflow : Workflow) (checkNode : INode) (nodeName : String)
    (entry : WaitingEntry ι) (main : List (Slot ι)) : Except Failure (Option (IExecuteData ι)) :=
  if hasItems (taskDataMain main) then do
    let inputsLength ← workflow.inputsLength checkNode
    .ok (some {
      node := workflow.getNode nodeName
      data := mainOnly (padInputs (taskDataMain main) inputsLength)
      source := some entry.source })
  else .ok none

/-- The entry of a node that may run. -/
def takeEntry (workflow : Workflow) (waitingExecution : WaitingTable ι) (checkNode : INode)
    (nodeName : String) (requiredInputs : Option RequiredInputs) :
    Except Failure (Option (Taken ι)) := do
  let entries ← orTypeError (waitingExecution.get? nodeName)
  let runIndex ← orTypeError (firstRunIndex entries)
  let entry ← orTypeError (entries.get? runIndex)
  let main ← orTypeError entry.main?
  if requiredInputMissing (inputsWithData main) requiredInputs then .ok none
  else
    let item ← itemToExecute workflow checkNode nodeName entry main
    .ok (some ⟨item, removeEntry waitingExecution nodeName entries runIndex⟩)

/-- The node is passed over, or its first entry is taken. -/
def checkWaiting (workflow : Workflow) (waitingExecution : WaitingTable ι) (nodeName : String) :
    Except Failure (Option (Taken ι)) :=
  match workflow.getNode nodeName with
  | none => .ok none
  | some checkNode => do
    let requiredInputs ← workflow.requiredInputs checkNode
    if ← allRequired workflow checkNode requiredInputs then .ok none
    else if (workflow.getParentNodes nodeName).any fun parentNode =>
        decide (parentNode ∈ objectKeys waitingExecution) then .ok none
    else takeEntry workflow waitingExecution checkNode nodeName requiredInputs

/-- The loop over the waiting nodes, up to the first that is not passed over. -/
def findTaken (workflow : Workflow) (waitingExecution : WaitingTable ι) :
    List String → Except Failure (Option (Taken ι))
  | [] => .ok none
  | nodeName :: waitingNodes => do
    match ← checkWaiting workflow waitingExecution nodeName with
    | some taken => .ok (some taken)
    | none => findTaken workflow waitingExecution waitingNodes

/-- The search starts over while what it takes has no data. -/
def scanWaiting (workflow : Workflow) : ℕ → WaitingTable ι →
    Except Failure (Option (IExecuteData ι) × WaitingTable ι)
  | 0, _ => .error .outOfFuel
  | fuel + 1, waitingExecution => do
    match ← findTaken workflow waitingExecution (objectKeys waitingExecution) with
    | none => .ok (none, waitingExecution)
    | some taken =>
      match taken.item with
      | some item => .ok (some item, taken.rest)
      | none => scanWaiting workflow fuel taken.rest

/-- Every round takes an entry off the table. -/
def entryCount (waitingExecution : WaitingTable ι) : ℕ := waitingExecution.total OrderedMap.size

def scan (workflow : Workflow) (waitingExecution : WaitingTable ι) :
    Except Failure (Option (IExecuteData ι) × WaitingTable ι) :=
  scanWaiting workflow (entryCount waitingExecution + 1) waitingExecution

/-- The scan puts a node on the stack. -/
def ScanPushes (workflow : Workflow) (waitingExecution : WaitingTable ι) : Prop :=
  ∃ item rest, scan workflow waitingExecution = .ok (some item, rest)

/-- When the scan finds nothing, it finds nothing in what it leaves. -/
theorem scan_fixpoint {workflow : Workflow} {fuel : ℕ} {waitingExecution rest : WaitingTable ι}
    (h : scanWaiting workflow fuel waitingExecution = .ok (none, rest)) :
    scan workflow rest = .ok (none, rest) := by
  induction fuel generalizing waitingExecution with
  | zero => cases h
  | succ fuel ih =>
    rw [scanWaiting] at h
    obtain ⟨found, hfound, h⟩ := FoldM.bind_eq_ok.mp h
    cases found with
    | none =>
      obtain rfl : waitingExecution = rest := (Prod.mk.inj (Except.ok.inj h)).2
      rw [scan, scanWaiting, hfound]
      rfl
    | some taken =>
      dsimp only at h
      split at h
      · cases h
      · exact ih h

theorem entryCount_removeEntry {waitingExecution : WaitingTable ι} {nodeName : String}
    {entries : WaitingEntries ι} {runIndex : ℕ} {entry : WaitingEntry ι}
    (hentries : waitingExecution.get? nodeName = some entries)
    (hentry : entries.get? runIndex = some entry) :
    entryCount (removeEntry waitingExecution nodeName entries runIndex) + 1 =
      entryCount waitingExecution := by
  have hsize := OrderedMap.size_delete hentry
  rw [removeEntry]
  split_ifs with hempty
  · have htotal := OrderedMap.total_delete hentries OrderedMap.size
    rw [entryCount, entryCount]
    omega
  · have htotal := OrderedMap.total_set_of_some hentries (entries.delete runIndex) OrderedMap.size
    rw [entryCount, entryCount]
    omega

theorem takeEntry_count {workflow : Workflow} {waitingExecution : WaitingTable ι}
    {checkNode : INode} {nodeName : String} {requiredInputs : Option RequiredInputs}
    {taken : Taken ι}
    (h : takeEntry workflow waitingExecution checkNode nodeName requiredInputs = .ok (some taken)) :
    entryCount taken.rest + 1 = entryCount waitingExecution := by
  rw [takeEntry] at h
  obtain ⟨entries, hentries, h⟩ := FoldM.bind_eq_ok.mp h
  obtain ⟨runIndex, _, h⟩ := FoldM.bind_eq_ok.mp h
  obtain ⟨entry, hentry, h⟩ := FoldM.bind_eq_ok.mp h
  obtain ⟨main, _, h⟩ := FoldM.bind_eq_ok.mp h
  split at h
  · cases h
  · obtain ⟨item, _, h⟩ := FoldM.bind_eq_ok.mp h
    obtain rfl := Option.some.inj (Except.ok.inj h)
    exact entryCount_removeEntry (orTypeError_eq_ok.mp hentries) (orTypeError_eq_ok.mp hentry)

theorem findTaken_count {workflow : Workflow} {waitingExecution : WaitingTable ι}
    {waitingNodes : List String} {taken : Taken ι}
    (h : findTaken workflow waitingExecution waitingNodes = .ok (some taken)) :
    entryCount taken.rest + 1 = entryCount waitingExecution := by
  induction waitingNodes with
  | nil => cases h
  | cons nodeName waitingNodes ih =>
    rw [findTaken] at h
    obtain ⟨found, hfound, h⟩ := FoldM.bind_eq_ok.mp h
    cases found with
    | none => exact ih h
    | some taken' =>
      obtain rfl := Option.some.inj (Except.ok.inj h)
      rw [checkWaiting] at hfound
      split at hfound
      · cases hfound
      · obtain ⟨requiredInputs, _, hfound⟩ := FoldM.bind_eq_ok.mp hfound
        obtain ⟨all, _, hfound⟩ := FoldM.bind_eq_ok.mp hfound
        split at hfound
        · cases hfound
        · split at hfound
          · cases hfound
          · exact takeEntry_count hfound

theorem inputsLength_ne_outOfFuel (workflow : Workflow) (checkNode : INode) :
    workflow.inputsLength checkNode ≠ .error .outOfFuel := by
  rw [Workflow.inputsLength]
  cases workflow.nodeType checkNode <;> nofun

theorem itemToExecute_ne_outOfFuel (workflow : Workflow) (checkNode : INode) (nodeName : String)
    (entry : WaitingEntry ι) (main : List (Slot ι)) :
    itemToExecute workflow checkNode nodeName entry main ≠ .error .outOfFuel := by
  rw [itemToExecute]
  split
  · exact FoldM.bind_ne_error (inputsLength_ne_outOfFuel workflow checkNode) nofun
  · nofun

theorem takeEntry_ne_outOfFuel (workflow : Workflow) (waitingExecution : WaitingTable ι)
    (checkNode : INode) (nodeName : String) (requiredInputs : Option RequiredInputs) :
    takeEntry workflow waitingExecution checkNode nodeName requiredInputs ≠
      .error .outOfFuel := by
  refine FoldM.bind_ne_error (orTypeError_ne_outOfFuel _) fun entries _ => ?_
  refine FoldM.bind_ne_error (orTypeError_ne_outOfFuel _) fun runIndex _ => ?_
  refine FoldM.bind_ne_error (orTypeError_ne_outOfFuel _) fun entry _ => ?_
  refine FoldM.bind_ne_error (orTypeError_ne_outOfFuel _) fun main _ => ?_
  split
  · nofun
  · exact FoldM.bind_ne_error (itemToExecute_ne_outOfFuel _ _ _ _ _) fun _ _ => nofun

theorem checkWaiting_ne_outOfFuel (workflow : Workflow) (waitingExecution : WaitingTable ι)
    (nodeName : String) : checkWaiting workflow waitingExecution nodeName ≠ .error .outOfFuel := by
  rw [checkWaiting]
  split
  · nofun
  · refine FoldM.bind_ne_error ?_ fun requiredInputs _ => FoldM.bind_ne_error ?_ fun all _ => ?_
    · rw [Workflow.requiredInputs]
      split
      · refine FoldM.bind_ne_error (orTypeError_ne_outOfFuel _) fun description _ => ?_
        split <;> nofun
      · nofun
    · cases requiredInputs with
      | none => nofun
      | some requiredInputs =>
        cases requiredInputs <;>
          exact FoldM.bind_ne_error (inputsLength_ne_outOfFuel _ _) nofun
    · split
      · nofun
      · split
        · nofun
        · exact takeEntry_ne_outOfFuel _ _ _ _ _

theorem findTaken_ne_outOfFuel (workflow : Workflow) (waitingExecution : WaitingTable ι)
    (waitingNodes : List String) :
    findTaken workflow waitingExecution waitingNodes ≠ .error .outOfFuel := by
  induction waitingNodes with
  | nil => nofun
  | cons nodeName waitingNodes ih =>
    refine FoldM.bind_ne_error (checkWaiting_ne_outOfFuel _ _ _) fun found _ => ?_
    cases found with
    | none => exact ih
    | some taken => nofun

theorem scanWaiting_ne_outOfFuel {workflow : Workflow} {fuel : ℕ}
    {waitingExecution : WaitingTable ι} (h : entryCount waitingExecution < fuel) :
    scanWaiting workflow fuel waitingExecution ≠ .error .outOfFuel := by
  induction fuel generalizing waitingExecution with
  | zero => omega
  | succ fuel ih =>
    refine FoldM.bind_ne_error (findTaken_ne_outOfFuel _ _ _) fun found hfound => ?_
    cases found with
    | none => nofun
    | some taken =>
      have hcount := findTaken_count hfound
      cases hitem : taken.item with
      | none =>
        simp only [hitem]
        exact ih (by omega)
      | some item =>
        simp only [hitem]
        nofun

/-- The search ends: it starts over at most once for each entry. -/
theorem scan_ne_outOfFuel (workflow : Workflow) (waitingExecution : WaitingTable ι) :
    scan workflow waitingExecution ≠ .error .outOfFuel :=
  scanWaiting_ne_outOfFuel (Nat.lt_succ_self _)

end N8n
