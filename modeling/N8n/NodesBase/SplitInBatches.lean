import N8n.Foundations.SplitLists
import N8n.Workflow.ItemLinking

/-!
# Loop Over Items

The node hands out its items batch by batch. Between its calls it keeps, in its context, the
items that are left and those that have come back to it; with no items left it returns the
latter on its output `done`. The items of the output `loop` go through other nodes and back
into the node, as long as these nodes return any.
-/

namespace N8n.SplitInBatches

open Batches ItemLinking

structure INodeExecutionData (ν : Type) where
  json : ν
  pairedItem : PairedItem
  deriving DecidableEq, Repr

structure NodeContext (ν : Type) where
  currentRunIndex : ℕ
  maxRunIndex : ℕ
  sourceData : SourceData
  items : List (INodeExecutionData ν)
  processedItems : List (INodeExecutionData ν)
  noItemsLeft : Bool
  done : Bool
  deriving DecidableEq, Repr

/-- What the node reads in one call: its input, where that came from and its parameters. -/
structure Call (ν : Type) where
  items : List (INodeExecutionData ν)
  sourceData : SourceData
  batchSize : ℕ+
  reset : Bool

structure Outputs (ν : Type) where
  done : List (INodeExecutionData ν)
  loop : List (INodeExecutionData ν)
  deriving DecidableEq, Repr

variable {ν : Type}

def addSourceOverwrite (sourceData : SourceData) (pairedItem : PairedEntry) : PairedEntry :=
  .data { pairedItem.toData with sourceOverwrite := some sourceData }

def getPairedItemInformation (sourceData : SourceData) (item : INodeExecutionData ν) : PairedItem :=
  match item.pairedItem with
  | .missing => .one (.data ⟨0, none, some sourceData⟩)
  | .many ps => .many (ps.map (addSourceOverwrite sourceData))
  | .one p => .one (addSourceOverwrite sourceData p)

/-- An item that is handed out in a later call than the first. -/
def fromSource (sourceData : SourceData) (item : INodeExecutionData ν) : INodeExecutionData ν :=
  { item with pairedItem := getPairedItemInformation sourceData item }

/-- Items that have come back, each with its place in the input. -/
def newItems (sourceOverwrite : SourceData) (items : List (INodeExecutionData ν)) :
    List (INodeExecutionData ν) :=
  items.mapIdx fun index item =>
    { item with pairedItem := .one (.data ⟨index, none, some sourceOverwrite⟩) }

/-- The end of `execute`, after the items to return have been taken. -/
def returnBatch (nodeContext : NodeContext ν) (returnItems : List (INodeExecutionData ν)) :
    NodeContext ν × Outputs ν :=
  let nodeContext := { nodeContext with noItemsLeft := nodeContext.items.isEmpty }
  if returnItems.length = 0 then
    ({ nodeContext with done := true }, ⟨nodeContext.processedItems, []⟩)
  else ({ nodeContext with done := false }, ⟨[], returnItems⟩)

def firstCall (call : Call ν) : NodeContext ν × Outputs ν :=
  returnBatch
    { currentRunIndex := 0
      maxRunIndex := (call.items.length + call.batchSize - 1) / call.batchSize
      sourceData := call.sourceData
      items := call.items.drop call.batchSize
      processedItems := []
      noItemsLeft := false
      done := false }
    (call.items.take call.batchSize)

def execute (nodeContext : Option (NodeContext ν)) (call : Call ν) : NodeContext ν × Outputs ν :=
  match nodeContext with
  | none => firstCall call
  | some nodeContext =>
    if call.reset then firstCall call
    else
      returnBatch
        { nodeContext with
          currentRunIndex := nodeContext.currentRunIndex + 1
          items := nodeContext.items.drop call.batchSize
          processedItems := nodeContext.processedItems ++ newItems call.sourceData call.items }
        ((nodeContext.items.take call.batchSize).map (fromSource nodeContext.sourceData))

/-- Calls of the node in one execution of the workflow. -/
def executeAll : Option (NodeContext ν) → List (Call ν) → Option (NodeContext ν) × List (Outputs ν)
  | nodeContext, [] => (nodeContext, [])
  | nodeContext, call :: calls =>
    let executed := execute nodeContext call
    let later := executeAll (some executed.1) calls
    (later.1, executed.2 :: later.2)

/-! ### One call -/

section OneCall

variable {sourceData : SourceData} {item : INodeExecutionData ν}

@[simp] theorem json_fromSource : (fromSource sourceData item).json = item.json := rfl

theorem map_json_fromSource (items : List (INodeExecutionData ν)) :
    (items.map (fromSource sourceData)).map INodeExecutionData.json =
      items.map INodeExecutionData.json := by
  simp

theorem map_json_newItems (items : List (INodeExecutionData ν)) :
    (newItems sourceData items).map INodeExecutionData.json =
      items.map INodeExecutionData.json := by
  apply List.ext_getElem (by simp [newItems])
  intro i h₁ h₂
  simp [newItems]

/-- What one call returns, given the items it takes and those that have come back so far. -/
def Returns (taken processed : List (INodeExecutionData ν)) (outputs : Outputs ν) : Prop :=
  outputs.loop = taken ∧ outputs.done = if taken = [] then processed else []

theorem returnBatch_context (nodeContext : NodeContext ν) (returnItems) :
    (returnBatch nodeContext returnItems).1 =
      { nodeContext with
        noItemsLeft := nodeContext.items.isEmpty
        done := returnItems.isEmpty } := by
  cases returnItems <;> rfl

theorem returnBatch_returns (nodeContext : NodeContext ν) (returnItems) :
    Returns returnItems nodeContext.processedItems (returnBatch nodeContext returnItems).2 := by
  cases returnItems with
  | nil => exact ⟨rfl, rfl⟩
  | cons item rest => exact ⟨rfl, rfl⟩

end OneCall

/-! ### Calls in turn -/

section Calls

variable {nodeContext : NodeContext ν} {call : Call ν}

/-- The items that come back with the calls. -/
def cameBack (calls : List (Call ν)) : List (INodeExecutionData ν) :=
  calls.flatMap fun call => newItems call.sourceData call.items

def contents (items : List (INodeExecutionData ν)) : List ν := items.map INodeExecutionData.json

theorem execute_later (nodeContext : NodeContext ν) (hreset : call.reset = false) :
    (execute (some nodeContext) call).1.items = nodeContext.items.drop call.batchSize ∧
    (execute (some nodeContext) call).1.sourceData = nodeContext.sourceData ∧
    (execute (some nodeContext) call).1.processedItems =
      nodeContext.processedItems ++ newItems call.sourceData call.items ∧
    Returns ((nodeContext.items.take call.batchSize).map (fromSource nodeContext.sourceData))
      (nodeContext.processedItems ++ newItems call.sourceData call.items)
      (execute (some nodeContext) call).2 := by
  simp only [execute, hreset, Bool.false_eq_true, if_false, returnBatch_context]
  exact ⟨trivial, trivial, trivial, returnBatch_returns _ _⟩

theorem execute_first (call : Call ν) :
    (execute none call).1.items = call.items.drop call.batchSize ∧
    (execute none call).1.sourceData = call.sourceData ∧
    (execute none call).1.processedItems = [] ∧
    Returns (call.items.take call.batchSize) [] (execute none call).2 := by
  simp only [execute, firstCall, returnBatch_context]
  exact ⟨trivial, trivial, trivial, returnBatch_returns _ _⟩

/-- What calls without a reset make of a context: they hand out its items in order, each call
with nothing to hand out returns all that has come back by then, and no other does. -/
structure HandsOut (nodeContext : NodeContext ν) (calls : List (Call ν))
    (result : Option (NodeContext ν) × List (Outputs ν)) : Prop where
  items : contents (result.2.flatMap Outputs.loop) ++
    (result.1.elim [] fun left => contents left.items) = contents nodeContext.items
  processedItems : result.1.map NodeContext.processedItems =
    some (nodeContext.processedItems ++ cameBack calls)
  done : ∀ k outputs, result.2[k]? = some outputs → outputs.done =
    if outputs.loop = [] then nodeContext.processedItems ++ cameBack (calls.take (k + 1)) else []

theorem executeAll_handsOut {calls : List (Call ν)} (hreset : ∀ call ∈ calls, call.reset = false)
    (nodeContext : NodeContext ν) :
    HandsOut nodeContext calls (executeAll (some nodeContext) calls) := by
  induction calls generalizing nodeContext with
  | nil => exact ⟨by simp [executeAll, contents], by simp [executeAll, cameBack], by simp [executeAll]⟩
  | cons call calls ih =>
    obtain ⟨hitems, -, hprocessed, hloop, hdone⟩ :=
      execute_later nodeContext (hreset call List.mem_cons_self)
    have hlater := ih (fun c hc => hreset c (List.mem_cons_of_mem call hc))
      (execute (some nodeContext) call).1
    simp only [executeAll]
    refine ⟨?_, ?_, ?_⟩
    · have hcontents := hlater.items
      simp only [List.flatMap_cons, contents, List.map_append, List.append_assoc] at hcontents ⊢
      rw [hcontents, hloop, hitems, map_json_fromSource, ← List.map_append, List.take_append_drop]
    · rw [hlater.processedItems, hprocessed, cameBack, cameBack, List.flatMap_cons, List.append_assoc]
    · intro k outputs hk
      cases k with
      | zero =>
        simp only [List.getElem?_cons_zero, Option.some.injEq] at hk
        rw [← hk, hdone, hloop]
        simp [cameBack]
      | succ k =>
        rw [List.getElem?_cons_succ] at hk
        rw [hlater.done k outputs hk, hprocessed, List.take_succ_cons, cameBack, cameBack,
          List.flatMap_cons, List.append_assoc]

theorem execute_reset (hreset : call.reset = true) :
    execute (some nodeContext) call = execute none call := by
  simp [execute, hreset]

theorem executeAll_append (start : Option (NodeContext ν)) (calls later : List (Call ν)) :
    executeAll start (calls ++ later) =
      ((executeAll (executeAll start calls).1 later).1,
        (executeAll start calls).2 ++ (executeAll (executeAll start calls).1 later).2) := by
  induction calls generalizing start with
  | nil => rfl
  | cons call calls ih => simp only [List.cons_append, executeAll, ih]

theorem length_executeAll (start : Option (NodeContext ν)) (calls : List (Call ν)) :
    (executeAll start calls).2.length = calls.length := by
  induction calls generalizing start with
  | nil => rfl
  | cons call calls ih => simp [executeAll, ih]

theorem contents_take_append_drop (items : List (INodeExecutionData ν)) (n : ℕ) :
    contents (items.take n) ++ contents (items.drop n) = contents items := by
  rw [contents, contents, ← List.map_append, List.take_append_drop, contents]

/-- From the node's first call in an execution, or from one with a reset, and up to the next
reset: what is handed out and what is left are together the items of that call in their order,
each once, and a call with nothing to hand out returns all that has come back. -/
theorem execute_handsOutOnce (before : List (Call ν)) (first : Call ν) (later : List (Call ν))
    (hfirst : before = [] ∨ first.reset = true) (hlater : ∀ call ∈ later, call.reset = false) :
    let result := executeAll none (before ++ first :: later)
    let outputs := result.2.drop before.length
    contents (outputs.flatMap Outputs.loop) ++ (result.1.elim [] fun left => contents left.items) =
      contents first.items ∧
    ∀ k returned, outputs[k]? = some returned →
      returned.done = if returned.loop = [] then cameBack (later.take k) else [] := by
  have hstart : execute (executeAll none before).1 first = execute none first := by
    rcases hfirst with rfl | hreset
    · rfl
    · cases (executeAll none before).1 with
      | none => rfl
      | some nodeContext => exact execute_reset hreset
  obtain ⟨hitems, -, hprocessed, hloop, hdone⟩ := execute_first first
  have hruns := executeAll_handsOut hlater (execute none first).1
  simp only [executeAll_append, List.drop_append, length_executeAll, Nat.sub_self, List.drop_zero]
  rw [List.drop_of_length_le (length_executeAll none before).le, List.nil_append]
  simp only [executeAll, hstart]
  refine ⟨?_, ?_⟩
  · have hcontents := hruns.items
    rw [hitems] at hcontents
    rw [List.flatMap_cons, contents, List.map_append, List.append_assoc]
    simp only [contents] at hcontents ⊢
    rw [hcontents, hloop, ← List.map_append, List.take_append_drop]
  · intro k returned hk
    cases k with
    | zero =>
      simp only [List.getElem?_cons_zero, Option.some.injEq] at hk
      rw [← hk, hdone, hloop]
      simp [cameBack]
    | succ k =>
      rw [List.getElem?_cons_succ] at hk
      rw [hruns.done k returned hk, hprocessed, List.nil_append]

/-- Three items in batches of two: the third call has nothing to hand out and returns what the
two before brought back. -/
theorem threeItems_handedOut :
    let call (items : List ℕ) : Call ℕ :=
      ⟨items.map fun json => ⟨json, .missing⟩, ⟨"Trigger", none, none⟩, 2, false⟩
    let result := executeAll none ([] ++ call [7, 8, 9] :: [call [70, 80], call [90]])
    let outputs := result.2.drop 0
    contents (outputs.flatMap Outputs.loop) ++ (result.1.elim [] fun left => contents left.items) =
      [7, 8, 9] ∧
    ∀ k returned, outputs[k]? = some returned → returned.done =
      if returned.loop = [] then cameBack ([call [70, 80], call [90]].take k) else [] :=
  execute_handsOutOnce [] _ _ (Or.inl rfl) (by simp)

end Calls

/-! ### The loop -/

section Loop

variable {σ : Type}

inductive Ended (σ ν : Type) where
  | done (state : σ) (items : List (INodeExecutionData ν))
  | stopped (state : σ)
  deriving DecidableEq, Repr

variable (batchSize : ℕ+) (source : ℕ → SourceData)
  (body : σ → List (INodeExecutionData ν) → σ × List (INodeExecutionData ν))

/-- The output `loop` goes through `body`, whose items are the input of the next call. A node
does not run on no items: the loop ends with `done`, or stops where `body` returns none. -/
def runLoop : ℕ → Option (NodeContext ν) → ℕ → σ → List (INodeExecutionData ν) → Option (Ended σ ν)
  | 0, _, _, _, _ => none
  | fuel + 1, nodeContext, k, state, items =>
    let executed := execute nodeContext ⟨items, source k, batchSize, false⟩
    if executed.2.loop.isEmpty then some (.done state executed.2.done)
    else
      let ran := body state executed.2.loop
      if ran.2.isEmpty then some (.stopped ran.1)
      else runLoop fuel (some executed.1) (k + 1) ran.1 ran.2

/-- What the loop is for: `body` on each batch in turn, with the items of all at the end. -/
def bodyOnBatches : ℕ → σ → List (INodeExecutionData ν) → List (List (INodeExecutionData ν)) →
    Ended σ ν
  | _, state, processed, [] => .done state processed
  | k, state, processed, batch :: rest =>
    let ran := body state batch
    if ran.2.isEmpty then .stopped ran.1
    else bodyOnBatches (k + 1) ran.1 (processed ++ newItems (source (k + 1)) ran.2) rest

/-- The batches as they are handed out: all but the first with the source of the first call. -/
def handedOut (sourceData : SourceData) :
    List (List (INodeExecutionData ν)) → List (List (INodeExecutionData ν))
  | [] => []
  | first :: rest => first :: rest.map (List.map (fromSource sourceData))

variable {batchSize source body}

theorem runLoop_later {fuel : ℕ} {nodeContext : NodeContext ν}
    (hfuel : nodeContext.items.length < fuel) (k : ℕ) (state : σ)
    (items : List (INodeExecutionData ν)) :
    runLoop batchSize source body fuel (some nodeContext) k state items =
      some (bodyOnBatches source body k state
        (nodeContext.processedItems ++ newItems (source k) items)
        ((batches batchSize nodeContext.items).map
          (List.map (fromSource nodeContext.sourceData)))) := by
  induction fuel generalizing nodeContext k state items with
  | zero => exact absurd hfuel (Nat.not_lt_zero _)
  | succ fuel ih =>
    obtain ⟨hitems, hsource, hprocessed, hloop, hdone⟩ :=
      @execute_later ν ⟨items, source k, batchSize, false⟩ nodeContext rfl
    rw [runLoop]
    simp only [hloop, hdone]
    by_cases hnil : nodeContext.items = []
    · simp [hnil, bodyOnBatches]
    · have htaken : (nodeContext.items.take batchSize).map (fromSource nodeContext.sourceData) ≠ [] :=
        mt List.map_eq_nil_iff.mp (take_ne_nil batchSize hnil)
      rw [batches_of_ne_nil batchSize hnil, List.map_cons, bodyOnBatches,
        if_neg (by simpa using htaken)]
      by_cases hran : (body state
          ((nodeContext.items.take batchSize).map (fromSource nodeContext.sourceData))).2.isEmpty
      · simp only [hran, if_true]
      · have hshorter := length_drop_lt batchSize hnil
        simp only [hran]
        rw [ih (by rw [hitems]; dsimp only; omega), hitems, hsource, hprocessed]
        rfl

/-- The loop gets through all of its batches, in as many rounds as there are items at most. -/
theorem runLoop_eq_bodyOnBatches {fuel : ℕ} {items : List (INodeExecutionData ν)}
    (hfuel : items.length < fuel) (state : σ) :
    runLoop batchSize source body fuel none 0 state items =
      some (bodyOnBatches source body 0 state [] (handedOut (source 0) (batches batchSize items))) := by
  cases fuel with
  | zero => exact absurd hfuel (Nat.not_lt_zero _)
  | succ fuel =>
    obtain ⟨hitems, hsource, hprocessed, hloop, hdone⟩ :=
      execute_first (⟨items, source 0, batchSize, false⟩ : Call ν)
    rw [runLoop]
    simp only [hloop, hdone]
    by_cases hnil : items = []
    · simp [hnil, bodyOnBatches, handedOut]
    · have htaken := take_ne_nil batchSize hnil
      rw [batches_of_ne_nil batchSize hnil, handedOut, bodyOnBatches, if_neg (by simpa using htaken)]
      by_cases hran : (body state (items.take batchSize)).2.isEmpty
      · simp only [hran, if_true]
      · have hshorter := length_drop_lt batchSize hnil
        simp only [hran]
        rw [runLoop_later (by rw [hitems]; dsimp only; omega), hitems, hsource, hprocessed]
        rfl

/-! ### Work on one item at a time -/

variable {step : σ → ν → σ × List ν}

theorem bodyOnBatches_oneByOne (source : ℕ → SourceData) (hstep : ∀ s a, (step s a).2 ≠ [])
    (hbody : ∀ s batch, (body s batch).1 = (oneByOne step s (contents batch)).1 ∧
      contents (body s batch).2 = (oneByOne step s (contents batch)).2)
    {handed : List (List (INodeExecutionData ν))} (hne : ∀ batch ∈ handed, batch ≠ []) (k : ℕ)
    (state : σ) (processed : List (INodeExecutionData ν)) :
    ∃ items, bodyOnBatches source body k state processed handed =
        .done (oneByOne step state (contents handed.flatten)).1 items ∧
      contents items = contents processed ++ (oneByOne step state (contents handed.flatten)).2 := by
  induction handed generalizing k state processed with
  | nil => exact ⟨processed, rfl, by simp [contents, oneByOne]⟩
  | cons batch rest ih =>
    obtain ⟨hstate, hitems⟩ := hbody state batch
    have hbatch : contents batch ≠ [] :=
      mt List.map_eq_nil_iff.mp (hne batch List.mem_cons_self)
    have hran : (body state batch).2 ≠ [] := by
      intro hnil
      apply oneByOne_ne_nil hstep state hbatch
      rw [← hitems, hnil]
      rfl
    obtain ⟨items, hdone, hcontents⟩ := ih (fun b hb => hne b (List.mem_cons_of_mem batch hb))
      (k + 1) (body state batch).1 (processed ++ newItems (source (k + 1)) (body state batch).2)
    have hsplit : contents (batch :: rest).flatten = contents batch ++ contents rest.flatten := by
      simp [contents]
    refine ⟨items, ?_, ?_⟩
    · rw [bodyOnBatches, if_neg (by simpa using hran), hdone, hsplit, oneByOne_append, hstate]
    · have hnew : contents (newItems (source (k + 1)) (body state batch).2) =
          contents (body state batch).2 := map_json_newItems _
      rw [hcontents, hsplit, oneByOne_append, ← hstate, ← hitems]
      simp only [contents, List.map_append, List.append_assoc] at hnew ⊢
      rw [hnew]

theorem flatten_handedOut (sourceData : SourceData) (handed : List (List (INodeExecutionData ν))) :
    contents (handedOut sourceData handed).flatten = contents handed.flatten := by
  cases handed with
  | nil => rfl
  | cons first rest =>
    have hrest : contents (rest.map (List.map (fromSource sourceData))).flatten =
        contents rest.flatten := by
      rw [contents, contents, ← List.map_flatten, map_json_fromSource]
    rw [handedOut, List.flatten_cons, List.flatten_cons]
    simp only [contents, List.map_append] at hrest ⊢
    rw [hrest]

theorem ne_nil_of_mem_handedOut (batchSize : ℕ+) (sourceData : SourceData)
    (items : List (INodeExecutionData ν)) :
    ∀ batch ∈ handedOut sourceData (batches batchSize items), batch ≠ [] := by
  intro batch hbatch
  cases hhanded : batches batchSize items with
  | nil => simp [hhanded, handedOut] at hbatch
  | cons first rest =>
    have hmem : ∀ b ∈ first :: rest, b ≠ [] := fun b hb => ne_nil_of_mem_batches (hhanded ▸ hb)
    rw [hhanded, handedOut] at hbatch
    rcases List.mem_cons.mp hbatch with rfl | hbatch
    · exact hmem _ List.mem_cons_self
    · obtain ⟨b, hb, rfl⟩ := List.mem_map.mp hbatch
      exact mt List.map_eq_nil_iff.mp (hmem b (List.mem_cons_of_mem first hb))

/-- Where the nodes of the loop take their items one after the other and make at least one of
each, the loop ends with what they make of all items in turn, whatever the batch size. -/
theorem runLoop_oneByOne {step : σ → ν → σ × List ν} (hstep : ∀ s a, (step s a).2 ≠ [])
    (hbody : ∀ s batch, (body s batch).1 = (oneByOne step s (contents batch)).1 ∧
      contents (body s batch).2 = (oneByOne step s (contents batch)).2)
    (batchSize : ℕ+) {fuel : ℕ} {items : List (INodeExecutionData ν)} (hfuel : items.length < fuel)
    (state : σ) :
    ∃ processed, runLoop batchSize source body fuel none 0 state items =
        some (.done (oneByOne step state (contents items)).1 processed) ∧
      contents processed = (oneByOne step state (contents items)).2 := by
  obtain ⟨processed, hdone, hcontents⟩ := bodyOnBatches_oneByOne source hstep hbody
    (ne_nil_of_mem_handedOut batchSize (source 0) items)
    0 state []
  rw [flatten_handedOut, flatten_batches] at hdone hcontents
  exact ⟨processed, by rw [runLoop_eq_bodyOnBatches hfuel, hdone], hcontents⟩

/-- A node that puts a number behind each item. -/
def number (count value : ℕ) : ℕ × List ℕ := (count + 1, [value, count])

def numberAll (count : ℕ) (items : List (INodeExecutionData ℕ)) :
    ℕ × List (INodeExecutionData ℕ) :=
  ((oneByOne number count (contents items)).1,
    (oneByOne number count (contents items)).2.map fun json => ⟨json, .missing⟩)

theorem threeItems_numbered :
    ∃ processed, runLoop 2 (fun _ => ⟨"Trigger", none, none⟩) numberAll 4 none 0 0
        [⟨7, .missing⟩, ⟨8, .missing⟩, ⟨9, .missing⟩] = some (.done 3 processed) ∧
      contents processed = [7, 0, 8, 1, 9, 2] :=
  runLoop_oneByOne (show ∀ count value, (number count value).2 ≠ [] by simp [number])
    (fun s batch => ⟨rfl, by simp [numberAll, contents, Function.comp_def]⟩) 2 (by decide) 0

end Loop

end N8n.SplitInBatches
