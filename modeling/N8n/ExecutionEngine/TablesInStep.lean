import N8n.ExecutionEngine.WaitingTables
import N8n.ExecutionEngine.Deliveries

/-!
# The two waiting tables stay in step

The entries of the two tables are made, written and removed together. Where one
code path replaces an entry of the data and puts back its source, the data it puts
there is what was written before.
-/

namespace N8n

variable {ι : Type}

/-- The arrays of the two entries for a node with `n` inputs. -/
structure Aligned (n : ℕ) (data : WaitingMain (Slot ι)) (source : WaitingMain SourceSlot) :
    Prop where
  data_length : data.main.length = n
  source_length : source.main.length = n
  null_iff : ∀ i : ℕ, data.main[i]? = some .null ↔ source.main[i]? = some .null

structure EntryInStep (workflow : Workflow) (nodeName : String) (data : WaitingMain (Slot ι))
    (source : WaitingMain SourceSlot) : Prop where
  aligned : ∃ inputs, workflow.mainInputs nodeName = .ok (some inputs) ∧
    Aligned inputs.length data source
  some_null : Slot.null ∈ data.main

structure TablesInStep (workflow : Workflow) (t : WaitingTables ι) : Prop where
  nodes : ∀ nodeName, nodeName ∈ t.waitingExecution.keys ↔ nodeName ∈ t.waitingExecutionSource.keys
  runIndexes : ∀ nodeName entries sources, t.waitingExecution.get? nodeName = some entries →
    t.waitingExecutionSource.get? nodeName = some sources →
    ∀ runIndex, runIndex ∈ entries.keys ↔ runIndex ∈ sources.keys
  entries : ∀ nodeName runIndex data source,
    t.waitingExecution.entryAt? nodeName runIndex = some data →
    t.waitingExecutionSource.entryAt? nodeName runIndex = some source →
    EntryInStep workflow nodeName data source

section Entries
variable {α : Type} {hole a : α} {list : List α} {index n : ℕ} {data : Slot ι} {source : SourceSlot}

theorem assign_eq_set (h : index < list.length) : assign hole list index a = list.set index a := by
  have hzero : index + 1 - list.length = 0 := by omega
  rw [assign, hzero, List.replicate_zero, List.append_nil]

theorem assign_assign (h : index < list.length) :
    assign hole (assign hole list index a) index a = assign hole list index a := by
  rw [assign_eq_set h, assign_eq_set (by rwa [List.length_set]), List.set_set]

theorem aligned_replicate : Aligned n (⟨List.replicate n .null⟩ : WaitingMain (Slot ι))
    ⟨List.replicate n .null⟩ := by
  refine ⟨List.length_replicate, List.length_replicate, fun i => ?_⟩
  simp [List.getElem?_replicate]

theorem Aligned.assign {d : WaitingMain (Slot ι)} {s : WaitingMain SourceSlot}
    (h : Aligned n d s) (hindex : index < n) (hnull : data = .null ↔ source = .null) :
    Aligned n ⟨N8n.assign .undefined d.main index data⟩
      ⟨N8n.assign .undefined s.main index source⟩ := by
  rw [assign_eq_set (by rwa [h.data_length]), assign_eq_set (by rwa [h.source_length])]
  refine ⟨by rw [List.length_set, h.data_length], by rw [List.length_set, h.source_length],
    fun i => ?_⟩
  dsimp only
  rw [List.getElem?_set, List.getElem?_set, h.data_length, h.source_length]
  split_ifs with hi
  · simpa using hnull
  · exact h.null_iff i

theorem null_mem_of_not_allDataFound {main : List (Slot ι)} (h : allDataFound main = false) :
    Slot.null ∈ main := by
  rw [allDataFound, List.all_eq_false] at h
  obtain ⟨slot, hmem, hslot⟩ := h
  cases slot with
  | null => exact hmem
  | undefined => exact absurd rfl hslot
  | items items => exact absurd rfl hslot

end Entries

namespace WaitingTables
variable {workflow : Workflow} {t : WaitingTables ι} {nodeName : String} {runIndex : ℕ}

abbrev NodeInStep (workflow : Workflow) (nodeName : String) :
    OrderedMap ℕ (WaitingMain (Slot ι)) → OrderedMap ℕ (WaitingMain SourceSlot) → Prop :=
  OrderedMap.Related fun _ => EntryInStep workflow nodeName

/-- The same as `TablesInStep`, key by key. -/
def InStep (workflow : Workflow) (t : WaitingTables ι) : Prop :=
  t.waitingExecution.Related (NodeInStep workflow) t.waitingExecutionSource

theorem InStep.tablesInStep (h : t.InStep workflow) : TablesInStep workflow t where
  nodes := h.mem_keys
  runIndexes nodeName entries sources hentries hsources := by
    obtain ⟨sources', hsources', hnode⟩ := h.of_some hentries
    rw [hsources] at hsources'
    exact Option.some.inj hsources' ▸ hnode.mem_keys
  entries nodeName runIndex data source hdata hsource := by
    obtain ⟨entries, hentries, hdata⟩ := Option.bind_eq_some_iff.mp hdata
    obtain ⟨sources, hsources, hsource⟩ := Option.bind_eq_some_iff.mp hsource
    obtain ⟨sources', hsources', hnode⟩ := h.of_some hentries
    obtain rfl := Option.some.inj (hsources.symm.trans hsources')
    obtain ⟨source', hsource', hentry⟩ := hnode.of_some hdata
    rw [hsource] at hsource'
    exact Option.some.inj hsource' ▸ hentry

theorem InStep.empty : (empty : WaitingTables ι).InStep workflow := OrderedMap.Related.empty

theorem InStep.node (h : t.InStep workflow) (nodeName : String) :
    NodeInStep workflow nodeName ((t.waitingExecution.get? nodeName).getD .empty)
      ((t.waitingExecutionSource.get? nodeName).getD .empty) := by
  cases hentries : t.waitingExecution.get? nodeName with
  | none =>
    rw [h.of_none hentries]
    exact .empty
  | some entries =>
    obtain ⟨sources, hsources, hnode⟩ := h.of_some hentries
    rw [hsources]
    exact hnode

theorem InStep.setMain (h : t.InStep workflow) {main : List (Slot ι)} {source : List SourceSlot}
    (hentry : EntryInStep workflow nodeName ⟨main⟩ ⟨source⟩) (runIndex : ℕ) :
    InStep workflow ⟨t.waitingExecution.setMain nodeName runIndex main,
      t.waitingExecutionSource.setMain nodeName runIndex source⟩ :=
  h.set ((h.node nodeName).set hentry)

theorem InStep.createIfMissing (h : t.InStep workflow) (nodeName : String) :
    (t.createIfMissing nodeName).InStep workflow := by
  rw [WaitingTables.createIfMissing]
  split
  · exact h
  · exact OrderedMap.Related.set h .empty

theorem entryAt?_setMain {α : Type} (table : WaitingMains α) (nodeName : String) (runIndex : ℕ)
    (main : List α) : (table.setMain nodeName runIndex main).entryAt? nodeName runIndex =
      some ⟨main⟩ := by
  rw [WaitingMains.setMain, WaitingMains.entryAt?, OrderedMap.get?_set_self, Option.bind_some,
    OrderedMap.get?_set_self]

theorem findIndex_some {entries : OrderedMap ℕ (WaitingMain (Slot ι))} {inputIndex : ℕ}
    (h : findIndex entries inputIndex = some runIndex) :
    ∃ entry, entries.get? runIndex = some entry := by
  have hentry := List.find?_some h
  cases hget : entries.get? runIndex with
  | none =>
    rw [hget] at hentry
    cases hentry
  | some entry => exact ⟨entry, rfl⟩

/-- Both tables have the entry that is written to next. -/
theorem InStep.createEntry (h : t.InStep workflow) {inputs : List (Option (List Connection))}
    (hinputs : workflow.mainInputs nodeName = .ok (some inputs)) (hlen : 1 < inputs.length)
    (inputIndex : ℕ) {created : WaitingTables ι}
    (hcreate : t.createEntry nodeName inputs.length inputIndex = (runIndex, created)) :
    created.InStep workflow ∧ ∃ data source,
      created.waitingExecution.entryAt? nodeName runIndex = some data ∧
      created.waitingExecutionSource.entryAt? nodeName runIndex = some source ∧
      Aligned inputs.length data source := by
  have hstart := h.createIfMissing nodeName
  rw [WaitingTables.createEntry] at hcreate
  split at hcreate
  next found hfound =>
    obtain ⟨rfl, rfl⟩ := Prod.mk.inj hcreate
    obtain ⟨data, hdata⟩ := findIndex_some hfound
    obtain ⟨source, hsource, hentry⟩ := (hstart.node nodeName).of_some hdata
    obtain ⟨inputs', hinputs', haligned⟩ := hentry.aligned
    obtain rfl : inputs = inputs' := by
      rw [hinputs] at hinputs'
      exact Option.some.inj (Except.ok.inj hinputs')
    refine ⟨hstart, data, source, ?_, ?_, haligned⟩
    · cases hget : (t.createIfMissing nodeName).waitingExecution.get? nodeName with
      | none =>
        rw [hget] at hdata
        cases hdata
      | some entries =>
        rw [hget] at hdata
        rw [WaitingMains.entryAt?, hget]
        exact hdata
    · cases hget : (t.createIfMissing nodeName).waitingExecutionSource.get? nodeName with
      | none =>
        rw [hget] at hsource
        cases hsource
      | some sources =>
        rw [hget] at hsource
        rw [WaitingMains.entryAt?, hget]
        exact hsource
  next =>
    obtain ⟨rfl, rfl⟩ := Prod.mk.inj hcreate
    refine ⟨hstart.setMain ⟨⟨inputs, hinputs, aligned_replicate⟩, ?_⟩ _, _, _,
      entryAt?_setMain _ _ _ _, entryAt?_setMain _ _ _ _, aligned_replicate⟩
    exact List.mem_replicate.mpr ⟨by omega, rfl⟩

theorem fill_of_entries {inputIndex : ℕ} {data : Slot ι} {source : SourceSlot}
    {d : WaitingMain (Slot ι)} {s : WaitingMain SourceSlot}
    (hd : t.waitingExecution.entryAt? nodeName runIndex = some d)
    (hs : t.waitingExecutionSource.entryAt? nodeName runIndex = some s) :
    t.fill nodeName runIndex inputIndex data source = .ok
      ⟨t.waitingExecution.setMain nodeName runIndex (assign .undefined d.main inputIndex data),
        t.waitingExecutionSource.setMain nodeName runIndex
          (assign .undefined s.main inputIndex source)⟩ := by
  rw [fill, hd]
  dsimp only
  rw [hs]

theorem removeEntry_of_some {entries : OrderedMap ℕ (WaitingMain (Slot ι))}
    {sources : OrderedMap ℕ (WaitingMain SourceSlot)}
    (hentries : t.waitingExecution.get? nodeName = some entries)
    (hsources : t.waitingExecutionSource.get? nodeName = some sources) :
    t.removeEntry nodeName runIndex = .ok
      (if (entries.delete runIndex).size = 0 then
        ⟨(t.waitingExecution.set nodeName (entries.delete runIndex)).delete nodeName,
          (t.waitingExecutionSource.set nodeName (sources.delete runIndex)).delete nodeName⟩
      else ⟨t.waitingExecution.set nodeName (entries.delete runIndex),
        t.waitingExecutionSource.set nodeName (sources.delete runIndex)⟩) := by
  rw [removeEntry, hentries]
  dsimp only
  rw [hsources]
  dsimp only
  split_ifs <;> rfl

/-- An entry that both tables have is removed from both. -/
theorem InStep.removeEntry (h : t.InStep workflow) {entries : OrderedMap ℕ (WaitingMain (Slot ι))}
    (hentries : t.waitingExecution.get? nodeName = some entries) (runIndex : ℕ) :
    ∃ t', t.removeEntry nodeName runIndex = .ok t' ∧ t'.InStep workflow := by
  obtain ⟨sources, hsources, hnode⟩ := h.of_some hentries
  refine ⟨_, removeEntry_of_some hentries hsources, ?_⟩
  have hset := OrderedMap.Related.set h (hnode.delete runIndex)
  split_ifs
  · exact hset.delete nodeName
  · exact hset

/-- The entry that is removed may be out of step. -/
theorem InStep.removeEntry_setMain (h : t.InStep workflow) (nodeName : String) (runIndex : ℕ)
    (main : List (Slot ι)) (source : List SourceSlot) :
    ∃ t', WaitingTables.removeEntry ⟨t.waitingExecution.setMain nodeName runIndex main,
        t.waitingExecutionSource.setMain nodeName runIndex source⟩ nodeName runIndex = .ok t' ∧
      t'.InStep workflow := by
  refine ⟨_, removeEntry_of_some (OrderedMap.get?_set_self _ _ _)
    (OrderedMap.get?_set_self _ _ _), ?_⟩
  have hset := OrderedMap.Related.set_set h
    (((t.waitingExecution.get? nodeName).getD .empty).set runIndex ⟨main⟩)
    (((t.waitingExecutionSource.get? nodeName).getD .empty).set runIndex ⟨source⟩)
    ((h.node nodeName).delete_set runIndex ⟨main⟩ ⟨source⟩)
  split_ifs
  · exact hset.delete nodeName
  · exact hset

theorem InStep.recreate (h : t.InStep workflow) {inputs : List (Option (List Connection))}
    (hinputs : workflow.mainInputs nodeName = .ok (some inputs)) (hlen : 1 < inputs.length)
    {main : List (Slot ι)} (hentry : EntryInStep workflow nodeName ⟨main⟩
      ⟨t.sourceMainAt nodeName runIndex⟩) :
    (t.recreate nodeName inputs.length runIndex main).InStep workflow := by
  have hprepared : EntryInStep workflow nodeName
      (⟨List.replicate inputs.length .null⟩ : WaitingMain (Slot ι))
      ⟨List.replicate inputs.length .null⟩ :=
    ⟨⟨inputs, hinputs, aligned_replicate⟩, List.mem_replicate.mpr ⟨by omega, rfl⟩⟩
  exact (h.setMain hprepared runIndex).setMain hentry runIndex

/-! ### What a call and the scan leave -/

def tablesAfter {α : Type} : Except (Thrown ι) (α × WaitingTables ι) → WaitingTables ι
  | .error (_, t) => t
  | .ok (_, t) => t

/-- The calls whose input is there and whose output is defined, or `nodeSuccessData` is `null`. -/
structure DefinedCall (workflow : Workflow) (call : NodeCall ι) : Prop where
  index_lt : ∃ inputs, workflow.mainInputs call.connectionData.node = .ok (some inputs) ∧
    call.connectionData.index < inputs.length
  output : ∀ outputs, call.nodeSuccessData = some outputs →
    ∃ items, getSlot outputs call.outputIndex = .items items

theorem DefinedCall.null_iff {call : NodeCall ι} (h : DefinedCall workflow call) :
    call.data = .null ↔ call.sourceSlot = .null := by
  rw [NodeCall.data, NodeCall.sourceSlot]
  cases hdata : call.nodeSuccessData with
  | none => simp
  | some outputs =>
    obtain ⟨items, hitems⟩ := h.output outputs hdata
    simp [hitems]

theorem mainAt_setMain (t : WaitingTables ι) (nodeName : String) (runIndex : ℕ)
    (main : List (Slot ι)) (source : List SourceSlot) :
    mainAt ⟨t.waitingExecution.setMain nodeName runIndex main,
      t.waitingExecutionSource.setMain nodeName runIndex source⟩ nodeName runIndex = main := by
  rw [mainAt, entryAt?_setMain]
  rfl

theorem sourceMainAt_setMain (t : WaitingTables ι) (nodeName : String) (runIndex : ℕ)
    (main : List (Slot ι)) (source : List SourceSlot) :
    sourceMainAt ⟨t.waitingExecution.setMain nodeName runIndex main,
      t.waitingExecutionSource.setMain nodeName runIndex source⟩ nodeName runIndex = source := by
  rw [sourceMainAt, entryAt?_setMain]
  rfl

section Call
variable [ExecutionItem ι] {runData : IRunData ι} {stack : List (IExecuteData ι)}
  {call : NodeCall ι} {inputs : List (Option (List Connection))}

/-- `main` and `source` stand for the entry once the new data is written to it. -/
theorem InStep.settle (h : t.InStep workflow)
    (hinputs : workflow.mainInputs call.connectionData.node = .ok (some inputs))
    (hlen : 1 < inputs.length) {main : List (Slot ι)} {source : List SourceSlot}
    (haligned : Aligned inputs.length ⟨main⟩ ⟨source⟩)
    (hmain : assign .undefined main call.connectionData.index call.data = main)
    (nodeWasWaiting : Bool) :
    (tablesAfter (WaitingTables.settle workflow runData stack
      ⟨t.waitingExecution.setMain call.connectionData.node runIndex main,
        t.waitingExecutionSource.setMain call.connectionData.node runIndex source⟩
      call inputs nodeWasWaiting runIndex)).InStep workflow := by
  rw [WaitingTables.settle]
  dsimp only
  rw [mainAt_setMain, sourceMainAt_setMain, hmain]
  split
  · obtain ⟨t', hremove, ht'⟩ := h.removeEntry_setMain call.connectionData.node runIndex main source
    rw [hremove]
    exact ht'
  next hall =>
    have hentry : EntryInStep workflow call.connectionData.node ⟨main⟩ ⟨source⟩ :=
      ⟨⟨inputs, hinputs, haligned⟩, null_mem_of_not_allDataFound (by simpa using hall)⟩
    have hfilled := h.setMain hentry runIndex
    have hentry' : EntryInStep workflow call.connectionData.node ⟨main⟩
        ⟨sourceMainAt ⟨t.waitingExecution.setMain call.connectionData.node runIndex main,
          t.waitingExecutionSource.setMain call.connectionData.node runIndex source⟩
          call.connectionData.node runIndex⟩ := by
      rwa [sourceMainAt_setMain]
    have hkept := hfilled.recreate hinputs hlen hentry'
    split
    · exact hkept
    · cases hforce : forceInputs workflow runData call inputs stack with
      | error failure => exact hfilled
      | ok stack' => exact hkept

theorem InStep.addToWaiting (h : t.InStep workflow) (hcall : DefinedCall workflow call)
    (hinputs : workflow.mainInputs call.connectionData.node = .ok (some inputs))
    (hlen : 1 < inputs.length) :
    (tablesAfter (t.addToWaiting workflow runData stack call inputs)).InStep workflow := by
  rw [WaitingTables.addToWaiting]
  dsimp only
  obtain ⟨⟨waitingNodeIndex, created⟩, hcreate⟩ : ∃ p, t.createEntry call.connectionData.node
    inputs.length call.connectionData.index = p := ⟨_, rfl⟩
  obtain ⟨hcreated, d, s, hd, hs, haligned⟩ := h.createEntry hinputs hlen _ hcreate
  obtain ⟨inputs', hinputs', hindex⟩ := hcall.index_lt
  obtain rfl : inputs = inputs' := by
    rw [hinputs] at hinputs'
    exact Option.some.inj (Except.ok.inj hinputs')
  rw [hcreate]
  dsimp only
  rw [fill_of_entries hd hs, FoldM.ok_bind]
  exact hcreated.settle hinputs hlen (haligned.assign hindex hcall.null_iff)
    (assign_assign (by rwa [haligned.data_length])) _

theorem InStep.addNodeToBeExecuted (h : t.InStep workflow) (hcall : DefinedCall workflow call) :
    (tablesAfter (t.addNodeToBeExecuted workflow runData stack call)).InStep workflow := by
  obtain ⟨inputs, hinputs, _⟩ := hcall.index_lt
  rw [WaitingTables.addNodeToBeExecuted, hinputs]
  change (tablesAfter (if inputs.length > 1 then
    t.addToWaiting workflow runData stack call inputs else _)).InStep workflow
  split_ifs with hlen
  · exact h.addToWaiting hcall hinputs hlen
  · exact h

end Call

section Scan

theorem findTaken_some {waitingNodes : List String} {item : Option (IExecuteData ι)}
    (h : t.findTaken workflow waitingNodes = .ok (some (nodeName, runIndex, item))) :
    ∃ entries, t.waitingExecution.get? nodeName = some entries ∧
      firstRunIndex entries = some runIndex := by
  induction waitingNodes with
  | nil => cases h
  | cons waitingNode waitingNodes ih =>
    rw [findTaken] at h
    obtain ⟨found, hfound, h⟩ := FoldM.bind_eq_ok.mp h
    cases found with
    | none => exact ih h
    | some taken =>
      obtain ⟨rfl, rfl⟩ := Prod.mk.inj (Option.some.inj (Except.ok.inj h))
      rw [checkWaiting] at hfound
      split at hfound
      · cases hfound
      · obtain ⟨requiredInputs, _, hfound⟩ := FoldM.bind_eq_ok.mp hfound
        obtain ⟨all, _, hfound⟩ := FoldM.bind_eq_ok.mp hfound
        split at hfound
        · cases hfound
        · split at hfound
          · cases hfound
          · rw [entryToTake] at hfound
            obtain ⟨entries, hentries, hfound⟩ := FoldM.bind_eq_ok.mp hfound
            obtain ⟨firstIndex, hfirst, hfound⟩ := FoldM.bind_eq_ok.mp hfound
            obtain ⟨entry, _, hfound⟩ := FoldM.bind_eq_ok.mp hfound
            split at hfound
            · cases hfound
            · obtain ⟨item, _, hfound⟩ := FoldM.bind_eq_ok.mp hfound
              obtain ⟨rfl, rfl⟩ := Prod.mk.inj (Option.some.inj (Except.ok.inj hfound))
              exact ⟨entries, orTypeError_eq_ok.mp hentries, orTypeError_eq_ok.mp hfirst⟩

theorem InStep.scanWaiting (h : t.InStep workflow) (fuel : ℕ) :
    (tablesAfter (scanWaiting workflow fuel t)).InStep workflow := by
  induction fuel generalizing t with
  | zero => exact h
  | succ fuel ih =>
    rw [WaitingTables.scanWaiting]
    cases hfound : t.findTaken workflow (objectKeys t.waitingExecution) with
    | error failure => exact h
    | ok found =>
      rcases found with _ | ⟨nodeName, runIndex, item⟩
      · exact h
      · obtain ⟨entries, hentries, _⟩ := findTaken_some hfound
        obtain ⟨t', hremove, ht'⟩ := h.removeEntry hentries runIndex
        change (tablesAfter (t.removeEntry nodeName runIndex >>= fun t => _)).InStep workflow
        rw [hremove, FoldM.ok_bind]
        cases item with
        | none => exact ih ht'
        | some item => exact ht'

end Scan

/-! ### Runs -/

section Runs
variable [ExecutionItem ι]

/-- The stack and the data of the run are those at the time of the call. -/
inductive Event (ι : Type) where
  | call (runData : IRunData ι) (stack : List (IExecuteData ι)) (nodeCall : NodeCall ι)
  | scan

def Event.Defined (workflow : Workflow) : Event ι → Prop
  | .call _ _ nodeCall => DefinedCall workflow nodeCall
  | .scan => True

def after (workflow : Workflow) (t : WaitingTables ι) : Event ι → WaitingTables ι
  | .call runData stack nodeCall =>
    tablesAfter (t.addNodeToBeExecuted workflow runData stack nodeCall)
  | .scan => tablesAfter (t.scan workflow)

def Step (workflow : Workflow) (t : WaitingTables ι) (e : Event ι) (t' : WaitingTables ι) : Prop :=
  e.Defined workflow ∧ t' = after workflow t e

theorem InStep.step {e : Event ι} {t' : WaitingTables ι} (h : t.InStep workflow)
    (hstep : Step workflow t e t') : t'.InStep workflow := by
  obtain ⟨hdefined, rfl⟩ := hstep
  cases e with
  | call runData stack nodeCall => exact h.addNodeToBeExecuted hdefined
  | scan => exact h.scanWaiting _

end Runs

section Example

theorem definedCall_textCall (parentNodeName : String) {index : ℕ} (h : index < 2) (runIndex : ℕ)
    (text : String) : DefinedCall mergeWorkflow (textCall parentNodeName index runIndex text) := by
  have hinputs : mergeWorkflow.mainInputs "D" =
      .ok (some [some [⟨"A", .main, 0⟩], some [⟨"B", .main, 0⟩]]) := by decide
  refine ⟨⟨_, hinputs, h⟩, ?_⟩
  rintro outputs houtputs
  exact ⟨[⟨text, none⟩], Option.some.inj houtputs ▸ rfl⟩

/-- Of two entries one is completed, the other one is taken by the scan. -/
def mergeEvents : List (Event TextItem) :=
  [.call .empty [] (textCall "A" 0 0 "a0"), .call .empty [] (textCall "A" 0 1 "a1"),
    .call .empty [] (textCall "B" 1 0 "b0"), .scan]

end Example
end WaitingTables
end N8n
