import N8n.ExecutionEngine.TablesInStep
import N8n.Foundations.DecimalOrder

/-!
# The order in which waiting entries are drained

The scan takes the run index of a node that comes first as a text. That is the
smallest one as long as no other index has first digits that say less. The entries
of a node leave in increasing order over a whole run when, moreover, no new entry
gets an index that is not above one that left before: a new entry is numbered by how
many entries there are.
-/

namespace N8n

open DecimalOrder Runs

variable {ι : Type}

/-- The tables, and what left them through the scan, the last entry first. -/
structure Drain (ι : Type) where
  tables : WaitingTables ι
  left : List (String × ℕ)

inductive DrainEvent (ι : Type) where
  | call (runData : IRunData ι) (stack : List (IExecuteData ι)) (nodeCall : NodeCall ι)
  | take (nodeName : String) (runIndex : ℕ)

def WaitingTables.removed (t : WaitingTables ι) (nodeName : String) (runIndex : ℕ) :
    WaitingTables ι :=
  match t.removeEntry nodeName runIndex with
  | .error (_, t) => t
  | .ok t => t

/-- A call, or a round of the scan that takes an entry off the table. -/
def DrainStep [ExecutionItem ι] (workflow : Workflow) (s : Drain ι) : DrainEvent ι → Drain ι → Prop
  | .call runData stack nodeCall, s' => s' = { s with
      tables := WaitingTables.tablesAfter
        (s.tables.addNodeToBeExecuted workflow runData stack nodeCall) }
  | .take nodeName runIndex, s' =>
    ∃ item, s.tables.findTaken workflow (objectKeys s.tables.waitingExecution) =
        .ok (some (nodeName, runIndex, item)) ∧
      s' = ⟨s.tables.removed nodeName runIndex, (nodeName, runIndex) :: s.left⟩

namespace WaitingMains
variable {α : Type}

def runIndexes (table : WaitingMains α) (nodeName : String) : List ℕ :=
  ((table.get? nodeName).getD .empty).keys

theorem mem_runIndexes_setMain {table : WaitingMains α} {nodeName nodeName' : String}
    {runIndex runIndex' : ℕ} {main : List α} :
    runIndex' ∈ (table.setMain nodeName runIndex main).runIndexes nodeName' ↔
      (nodeName' = nodeName ∧ runIndex' = runIndex) ∨ runIndex' ∈ table.runIndexes nodeName' := by
  rw [runIndexes, setMain, OrderedMap.get?_set]
  split_ifs with hname
  · subst hname
    rw [Option.getD_some, OrderedMap.mem_keys_set, runIndexes]
    simp
  · rw [runIndexes]
    simp [Ne.symm hname]

end WaitingMains

/-- Every entry has data for the input. -/
def NoneLacks (entries : OrderedMap ℕ (WaitingMain (Slot ι))) (inputIndex : ℕ) : Prop :=
  ∀ entry ∈ entries.values, (getSlot entry.main inputIndex).items?.isSome = true

namespace WaitingTables
variable {workflow : Workflow} {t : WaitingTables ι} {nodeName nodeName' : String}
  {runIndex runIndex' : ℕ}

theorem noneLacks_of_findIndex {entries : OrderedMap ℕ (WaitingMain (Slot ι))} {inputIndex : ℕ}
    (h : findIndex entries inputIndex = none) : NoneLacks entries inputIndex := by
  intro entry hentry
  obtain ⟨index, hindex⟩ := OrderedMap.mem_values.mp hentry
  have hkey : index ∈ entries.keys.insertionSort (· ≤ ·) := by
    rw [List.mem_insertionSort, ← OrderedMap.has_iff, OrderedMap.has, hindex]
    rfl
  have hnot := List.find?_eq_none.mp h index hkey
  rw [hindex] at hnot
  simpa [Option.isSome_iff_ne_none] using hnot

theorem runIndexes_createIfMissing (t : WaitingTables ι) (nodeName nodeName' : String) :
    (t.createIfMissing nodeName).waitingExecution.runIndexes nodeName' =
      t.waitingExecution.runIndexes nodeName' := by
  rw [createIfMissing]
  split_ifs with hhas
  · rfl
  · rw [WaitingMains.runIndexes, OrderedMap.get?_set, WaitingMains.runIndexes]
    split_ifs with hname
    · subst hname
      have hnone : t.waitingExecution.get? nodeName = none := by
        simpa [OrderedMap.has] using hhas
      rw [hnone]
      rfl
    · rfl

theorem getD_createIfMissing (t : WaitingTables ι) (nodeName : String) :
    ((t.createIfMissing nodeName).waitingExecution.get? nodeName).getD .empty =
      (t.waitingExecution.get? nodeName).getD .empty := by
  rw [createIfMissing]
  split_ifs with hhas
  · rfl
  · have hnone : t.waitingExecution.get? nodeName = none := by
      simpa [OrderedMap.has] using hhas
    rw [OrderedMap.get?_set_self, hnone]
    rfl

/-- The table has no other entries than before and the one named. -/
def AtMostNew (nodeName : String) (runIndex : ℕ) (t t' : WaitingTables ι) : Prop :=
  ∀ nodeName' runIndex', runIndex' ∈ t'.waitingExecution.runIndexes nodeName' →
    (nodeName' = nodeName ∧ runIndex' = runIndex) ∨
      runIndex' ∈ t.waitingExecution.runIndexes nodeName'

theorem AtMostNew.refl (t : WaitingTables ι) : AtMostNew nodeName runIndex t t :=
  fun _ _ h => Or.inr h

theorem AtMostNew.trans {t t' t'' : WaitingTables ι} (h : AtMostNew nodeName runIndex t t')
    (h' : AtMostNew nodeName runIndex t' t'') : AtMostNew nodeName runIndex t t'' := by
  intro nodeName' runIndex' hmem
  rcases h' nodeName' runIndex' hmem with hnew | hmem
  · exact Or.inl hnew
  · exact h nodeName' runIndex' hmem

theorem AtMostNew.setMain (t : WaitingTables ι) (main : List (Slot ι))
    (sources : WaitingMains SourceSlot) : AtMostNew nodeName runIndex t
      ⟨t.waitingExecution.setMain nodeName runIndex main, sources⟩ :=
  fun _ _ h => WaitingMains.mem_runIndexes_setMain.mp h

/-- The entry that is written to is there, or is new when none lacks data for the input. -/
theorem createEntry_index {n inputIndex : ℕ} {created : WaitingTables ι}
    (h : t.createEntry nodeName n inputIndex = (runIndex, created)) :
    AtMostNew nodeName runIndex t created ∧
    (runIndex ∈ t.waitingExecution.runIndexes nodeName ∨
      NoneLacks ((t.waitingExecution.get? nodeName).getD .empty) inputIndex ∧
        runIndex = ((t.waitingExecution.get? nodeName).getD .empty).size) := by
  rw [createEntry, getD_createIfMissing] at h
  split at h
  next found hfound =>
    obtain ⟨rfl, rfl⟩ := Prod.mk.inj h
    refine ⟨fun nodeName' runIndex' hmem => Or.inr ?_, Or.inl ?_⟩
    · rwa [runIndexes_createIfMissing] at hmem
    · obtain ⟨entry, hentry⟩ := findIndex_some hfound
      rw [WaitingMains.runIndexes, ← OrderedMap.has_iff, OrderedMap.has, hentry]
      rfl
  next hfound =>
    obtain ⟨rfl, rfl⟩ := Prod.mk.inj h
    refine ⟨fun nodeName' runIndex' hmem => ?_, Or.inr ⟨noneLacks_of_findIndex hfound, rfl⟩⟩
    rcases WaitingMains.mem_runIndexes_setMain.mp hmem with hnew | hmem
    · exact Or.inl hnew
    · rw [runIndexes_createIfMissing] at hmem
      exact Or.inr hmem

theorem runIndexes_removed {t : WaitingTables ι}
    (h : runIndex' ∈ (t.removed nodeName runIndex).waitingExecution.runIndexes nodeName') :
    runIndex' ∈ t.waitingExecution.runIndexes nodeName' ∧
      ¬ (nodeName' = nodeName ∧ runIndex' = runIndex) := by
  rw [removed, removeEntry] at h
  cases hentries : t.waitingExecution.get? nodeName with
  | none =>
    simp only [hentries] at h
    refine ⟨h, ?_⟩
    rintro ⟨rfl, rfl⟩
    rw [WaitingMains.runIndexes, hentries] at h
    cases h
  | some entries =>
    have hset : runIndex' ∈ WaitingMains.runIndexes
          (t.waitingExecution.set nodeName (entries.delete runIndex)) nodeName' →
        runIndex' ∈ t.waitingExecution.runIndexes nodeName' ∧
          ¬ (nodeName' = nodeName ∧ runIndex' = runIndex) := by
      intro hmem
      rw [WaitingMains.runIndexes, OrderedMap.get?_set] at hmem
      split_ifs at hmem with hname
      · subst hname
        obtain ⟨entry, hentry, rfl⟩ := List.mem_map.mp hmem
        obtain ⟨hentry, hne⟩ := OrderedMap.mem_entries_delete.mp hentry
        rw [WaitingMains.runIndexes, hentries]
        exact ⟨List.mem_map.mpr ⟨entry, hentry, rfl⟩, fun h => hne h.2⟩
      · exact ⟨hmem, fun h => hname h.1.symm⟩
    simp only [hentries] at h
    cases hsources : t.waitingExecutionSource.get? nodeName with
    | none =>
      simp only [hsources] at h
      exact hset h
    | some sources =>
      simp only [hsources] at h
      split_ifs at h
      · rw [WaitingMains.runIndexes, OrderedMap.get?_delete] at h
        split_ifs at h with hname
        · cases h
        · exact hset h
      · exact hset h

theorem atMostNew_fill {inputIndex : ℕ} {data : Slot ι} {source : SourceSlot} :
    (∀ failure t', t.fill nodeName runIndex inputIndex data source = .error (failure, t') →
      AtMostNew nodeName runIndex t t') ∧
    ∀ t', t.fill nodeName runIndex inputIndex data source = .ok t' →
      AtMostNew nodeName runIndex t t' := by
  rw [fill]
  cases hdata : t.waitingExecution.entryAt? nodeName runIndex with
  | none =>
    refine ⟨fun failure t' h => ?_, by simp⟩
    cases h
    exact .refl t
  | some entry =>
    dsimp only
    cases hsource : t.waitingExecutionSource.entryAt? nodeName runIndex with
    | none =>
      refine ⟨fun failure t' h => ?_, by simp⟩
      cases h
      exact .setMain t _ _
    | some source =>
      refine ⟨by simp, fun t' h => ?_⟩
      cases h
      exact .setMain t _ _

section Call
variable [ExecutionItem ι] {runData : IRunData ι} {stack : List (IExecuteData ι)}
  {call : NodeCall ι} {inputs : List (Option (List Connection))}

theorem atMostNew_settle (nodeWasWaiting : Bool) (runIndex : ℕ) :
    AtMostNew call.connectionData.node runIndex t (tablesAfter (t.settle workflow runData stack
      call inputs nodeWasWaiting runIndex)) := by
  rw [settle]
  dsimp only
  split
  · intro nodeName' runIndex' hmem
    have hremoved : runIndex' ∈
        (t.removed call.connectionData.node runIndex).waitingExecution.runIndexes nodeName' := by
      rw [removed]
      cases hremove : t.removeEntry call.connectionData.node runIndex <;> rw [hremove] at hmem <;>
        exact hmem
    exact Or.inr (runIndexes_removed hremoved).1
  · have hkept : ∀ main, AtMostNew call.connectionData.node runIndex t
        (t.recreate call.connectionData.node inputs.length runIndex main) := fun main =>
      (AtMostNew.setMain t _ _).trans (AtMostNew.setMain _ main _)
    split
    · exact hkept _
    · cases forceInputs workflow runData call inputs stack with
      | error failure => exact .refl t
      | ok stack' => exact hkept _

/-- A call adds one entry at most, and only when none lacks data for the input. -/
theorem addNodeToBeExecuted_runIndexes (workflow : Workflow) (runData : IRunData ι)
    (stack : List (IExecuteData ι)) (t : WaitingTables ι) (call : NodeCall ι) :
    ∃ runIndex, AtMostNew call.connectionData.node runIndex t
        (tablesAfter (t.addNodeToBeExecuted workflow runData stack call)) ∧
      (runIndex ∈ t.waitingExecution.runIndexes call.connectionData.node ∨
        NoneLacks ((t.waitingExecution.get? call.connectionData.node).getD .empty)
            call.connectionData.index ∧
          runIndex = ((t.waitingExecution.get? call.connectionData.node).getD .empty).size) := by
  have hcreate : ∀ n, ∃ runIndex created,
      t.createEntry call.connectionData.node n call.connectionData.index = (runIndex, created) :=
    fun n => ⟨_, _, rfl⟩
  obtain ⟨runIndex, created, hzero⟩ := hcreate 0
  have hunchanged := (createEntry_index hzero).2
  rw [addNodeToBeExecuted]
  cases hinputs : workflow.mainInputs call.connectionData.node with
  | error failure => exact ⟨runIndex, .refl t, hunchanged⟩
  | ok inputs =>
    cases inputs with
    | none => exact ⟨runIndex, .refl t, hunchanged⟩
    | some inputs =>
      change ∃ runIndex, AtMostNew _ runIndex t (tablesAfter (if inputs.length > 1 then
        t.addToWaiting workflow runData stack call inputs else _)) ∧ _
      split_ifs with hlen
      · obtain ⟨runIndex, created, hcreate⟩ := hcreate inputs.length
        obtain ⟨hcreated, hindex⟩ := createEntry_index hcreate
        refine ⟨runIndex, hcreated.trans ?_, hindex⟩
        rw [addToWaiting, hcreate]
        dsimp only
        cases hfill : created.fill call.connectionData.node runIndex call.connectionData.index
            call.data call.sourceSlot with
        | error thrown => exact atMostNew_fill.1 thrown.1 thrown.2 hfill
        | ok filled => exact (atMostNew_fill.2 filled hfill).trans (atMostNew_settle _ _)
      · exact ⟨runIndex, .refl t, hunchanged⟩

end Call

end WaitingTables

/-! ### Runs -/

/-- One of the indexes is not above the first digits of any other one. -/
def SmallestComesFirst (indexes : List ℕ) : Prop :=
  ∃ m ∈ indexes, ∀ k ∈ indexes, m ≤ k / 10 ^ (digits k - digits m)

def TakesSmallest (s : Drain ι) : DrainEvent ι → Prop
  | .call _ _ _ => True
  | .take nodeName runIndex =>
    ∀ k ∈ s.tables.waitingExecution.runIndexes nodeName, runIndex ≤ k

def SmallestIsFirst (s : Drain ι) : DrainEvent ι → Prop
  | .call _ _ _ => True
  | .take nodeName _ => SmallestComesFirst (s.tables.waitingExecution.runIndexes nodeName)

/-- A new entry, which is numbered by how many there are, comes after those that left. -/
def NewIndexIsAbove (s : Drain ι) : DrainEvent ι → Prop
  | .call _ _ nodeCall =>
    let entries := (s.tables.waitingExecution.get? nodeCall.connectionData.node).getD .empty
    NoneLacks entries nodeCall.connectionData.index →
      ∀ p ∈ s.left, p.1 = nodeCall.connectionData.node → p.2 < entries.size
  | .take _ _ => True

/-- What left later left with a greater index. -/
def LeftInOrder (s : Drain ι) : Prop :=
  s.left.Pairwise fun later earlier => later.1 = earlier.1 → earlier.2 < later.2

theorem firstRunIndex_spec {entries : OrderedMap ℕ (WaitingMain (Slot ι))} {runIndex : ℕ}
    (h : WaitingTables.firstRunIndex entries = some runIndex) : runIndex ∈ entries.keys ∧
      ∀ k ∈ entries.keys, Nat.toDigits 10 runIndex ≤ Nat.toDigits 10 k := by
  have htotal : ∀ a b : ℕ, Nat.toDigits 10 a ≤ Nat.toDigits 10 b ∨
      Nat.toDigits 10 b ≤ Nat.toDigits 10 a := fun a b => le_total _ _
  have hsorted := List.pairwise_insertionSort
    (fun a b : ℕ => Nat.toDigits 10 a ≤ Nat.toDigits 10 b) entries.keys
  rw [WaitingTables.firstRunIndex] at h
  obtain ⟨rest, hrest⟩ := List.head?_eq_some_iff.mp h
  rw [hrest] at hsorted
  have hmem : ∀ k, k ∈ entries.keys ↔ k = runIndex ∨ k ∈ rest := by
    intro k
    rw [← List.mem_cons, ← hrest, List.mem_insertionSort]
  refine ⟨(hmem runIndex).mpr (Or.inl rfl), fun k hk => ?_⟩
  rcases (hmem k).mp hk with rfl | hk
  · exact le_rfl
  · exact (List.pairwise_cons.mp hsorted).1 k hk

theorem takes_smallest_iff {entries : OrderedMap ℕ (WaitingMain (Slot ι))} {runIndex : ℕ}
    (h : WaitingTables.firstRunIndex entries = some runIndex) :
    (∀ k ∈ entries.keys, runIndex ≤ k) ↔ SmallestComesFirst entries.keys := by
  obtain ⟨hmem, hfirst⟩ := firstRunIndex_spec h
  constructor
  · intro hsmallest
    refine ⟨runIndex, hmem, fun k hk => ?_⟩
    exact (toDigits_le_iff (digits_mono (hsmallest k hk))).mp (hfirst k hk)
  · rintro ⟨m, hm, hcut⟩
    have hle : ∀ k ∈ entries.keys, m ≤ k := fun k hk => (hcut k hk).trans (Nat.div_le_self _ _)
    have htext := (toDigits_le_iff (digits_mono (hle runIndex hmem))).mpr (hcut runIndex hmem)
    obtain rfl := toDigits_injective (le_antisymm htext (hfirst m hm))
    exact hle

section Run
variable [ExecutionItem ι] {workflow : Workflow} {s s' : Drain ι} {e : DrainEvent ι}

theorem takesSmallest_iff (h : DrainStep workflow s e s') :
    TakesSmallest s e ↔ SmallestIsFirst s e := by
  cases e with
  | call runData stack nodeCall => exact Iff.rfl
  | take nodeName runIndex =>
    obtain ⟨item, hfound, _⟩ := h
    obtain ⟨entries, hentries, hfirst⟩ := WaitingTables.findTaken_some hfound
    rw [TakesSmallest, SmallestIsFirst, WaitingMains.runIndexes, hentries]
    exact takes_smallest_iff hfirst

/-- What the scan leaves is what rounds leave that take one entry each. -/
theorem scanWaiting_takes (workflow : Workflow) (fuel : ℕ) (s : Drain ι) :
    ∃ tr, Run (DrainStep workflow) s tr ∧
      (∀ p ∈ tr, ∃ nodeName runIndex, p.1 = .take nodeName runIndex) ∧
      (finalState s tr).tables =
        WaitingTables.tablesAfter (WaitingTables.scanWaiting workflow fuel s.tables) := by
  induction fuel generalizing s with
  | zero => exact ⟨[], .nil s, nofun, rfl⟩
  | succ fuel ih =>
    rw [WaitingTables.scanWaiting]
    cases hfound : s.tables.findTaken workflow (objectKeys s.tables.waitingExecution) with
    | error failure => exact ⟨[], .nil s, nofun, rfl⟩
    | ok found =>
      rcases found with _ | ⟨nodeName, runIndex, item⟩
      · exact ⟨[], .nil s, nofun, rfl⟩
      · have hstep : DrainStep workflow s (.take nodeName runIndex)
            ⟨s.tables.removed nodeName runIndex, (nodeName, runIndex) :: s.left⟩ :=
          ⟨item, hfound, rfl⟩
        have hone : ∀ p ∈ [((.take nodeName runIndex : DrainEvent ι),
            (⟨s.tables.removed nodeName runIndex, (nodeName, runIndex) :: s.left⟩ : Drain ι))],
            ∃ nodeName runIndex, p.1 = .take nodeName runIndex :=
          fun p hp => ⟨nodeName, runIndex, congrArg Prod.fst (List.mem_singleton.mp hp)⟩
        change ∃ tr, _ ∧ _ ∧ _ = WaitingTables.tablesAfter
          (s.tables.removeEntry nodeName runIndex >>= fun t => _)
        cases hremove : s.tables.removeEntry nodeName runIndex with
        | error thrown =>
          refine ⟨_, .cons hstep (.nil _), hone, ?_⟩
          rw [finalState, finalState, WaitingTables.removed, hremove]
          rfl
        | ok t =>
          have hremoved : s.tables.removed nodeName runIndex = t := by
            rw [WaitingTables.removed, hremove]
          rw [hremoved] at hstep hone
          cases item with
          | some item => exact ⟨_, .cons hstep (.nil _), hone, rfl⟩
          | none =>
            obtain ⟨tr, hrun, htakes, hfinal⟩ := ih ⟨t, (nodeName, runIndex) :: s.left⟩
            refine ⟨_, .cons hstep hrun, ?_, hfinal⟩
            intro p hp
            rcases List.mem_cons.mp hp with rfl | hp
            · exact ⟨nodeName, runIndex, rfl⟩
            · exact htakes p hp

/-- What left is in order, and what is there comes after it. -/
structure Drained (s : Drain ι) : Prop where
  inOrder : LeftInOrder s
  above : ∀ p ∈ s.left, ∀ k ∈ s.tables.waitingExecution.runIndexes p.1, p.2 < k

theorem Drained.step (h : Drained s) (hC : SmallestIsFirst s e ∧ NewIndexIsAbove s e)
    (hstep : DrainStep workflow s e s') : Drained s' := by
  have hsmallest := (takesSmallest_iff hstep).mpr hC.1
  cases e with
  | call runData stack nodeCall =>
    obtain rfl := hstep
    refine ⟨h.inOrder, fun p hp k hk => ?_⟩
    obtain ⟨runIndex, hnew, hindex⟩ := WaitingTables.addNodeToBeExecuted_runIndexes workflow runData
      stack s.tables nodeCall
    rcases hnew p.1 k hk with ⟨hname, rfl⟩ | hk
    · rcases hindex with hold | ⟨hnone, rfl⟩
      · exact h.above p hp k (hname ▸ hold)
      · exact hC.2 hnone p hp hname
    · exact h.above p hp k hk
  | take nodeName runIndex =>
    obtain ⟨item, hfound, rfl⟩ := hstep
    obtain ⟨entries, hentries, hfirst⟩ := WaitingTables.findTaken_some hfound
    have hmem : runIndex ∈ s.tables.waitingExecution.runIndexes nodeName := by
      rw [WaitingMains.runIndexes, hentries]
      exact (firstRunIndex_spec hfirst).1
    constructor
    · refine List.pairwise_cons.mpr ⟨fun p hp hname => ?_, h.inOrder⟩
      exact h.above p hp runIndex (hname ▸ hmem)
    · intro p hp k hk
      obtain ⟨hk, hne⟩ := WaitingTables.runIndexes_removed hk
      rcases List.mem_cons.mp hp with rfl | hp
      · exact lt_of_le_of_ne (hsmallest k hk) fun heq => hne ⟨rfl, heq.symm⟩
      · exact h.above p hp k hk

/-- Every round takes the smallest index exactly when it comes first each time; what leaves
over a whole run is in order when new entries come after what left. -/
theorem drains_inOrder {tr : List (DrainEvent ι × Drain ι)}
    (h : Run (DrainStep workflow) ⟨.empty, []⟩ tr) :
    (EveryTransition (fun s e _ => TakesSmallest s e) ⟨.empty, []⟩ tr ↔
      EveryStep SmallestIsFirst ⟨.empty, []⟩ tr) ∧
    (EveryStep (fun s e => SmallestIsFirst s e ∧ NewIndexIsAbove s e) ⟨.empty, []⟩ tr →
      Always LeftInOrder ⟨.empty, []⟩ tr) := by
  constructor
  · exact @Run.everyTransition_iff _ _ _ (fun _ => True) _ _ _ _ h trivial
      (fun _ _ _ _ _ => trivial) fun _ _ _ _ hstep => takesSmallest_iff hstep
  · intro hC
    have hstart : Drained (⟨.empty, []⟩ : Drain ι) := ⟨List.Pairwise.nil, nofun⟩
    exact (h.always hstart (fun _ _ _ h hC hstep => h.step hC hstep) hC).mono fun _ h => h.inOrder

end Run

section Example

def drainNext [ExecutionItem ι] (workflow : Workflow) (s : Drain ι) : DrainEvent ι → Drain ι
  | .call runData stack nodeCall => { s with
      tables := WaitingTables.tablesAfter
        (s.tables.addNodeToBeExecuted workflow runData stack nodeCall) }
  | .take nodeName runIndex => ⟨s.tables.removed nodeName runIndex, (nodeName, runIndex) :: s.left⟩

/-- The node and run index that a round of the scan takes. -/
def takenNext (workflow : Workflow) (s : Drain ι) : Option (String × ℕ) :=
  match s.tables.findTaken workflow (objectKeys s.tables.waitingExecution) with
  | .ok (some (nodeName, runIndex, _)) => some (nodeName, runIndex)
  | _ => none

def IsTaken (workflow : Workflow) (s : Drain ι) : DrainEvent ι → Prop
  | .call _ _ _ => True
  | .take nodeName runIndex => takenNext workflow s = some (nodeName, runIndex)

theorem drainStep_drainNext [ExecutionItem ι] {workflow : Workflow} {s : Drain ι}
    {e : DrainEvent ι} (h : IsTaken workflow s e) :
    DrainStep workflow s e (drainNext workflow s e) := by
  cases e with
  | call runData stack nodeCall => rfl
  | take nodeName runIndex =>
    rw [IsTaken, takenNext] at h
    split at h
    next hfound =>
      obtain ⟨rfl, rfl⟩ := Prod.mk.inj (Option.some.inj h)
      exact ⟨_, hfound, rfl⟩
    next => cases h

instance (workflow : Workflow) (s : Drain ι) : (e : DrainEvent ι) → Decidable (IsTaken workflow s e)
  | .call _ _ _ => isTrue trivial
  | .take nodeName runIndex =>
    inferInstanceAs (Decidable (takenNext workflow s = some (nodeName, runIndex)))

instance (s : Drain ι) : (e : DrainEvent ι) → Decidable (TakesSmallest s e)
  | .call _ _ _ => isTrue trivial
  | .take nodeName runIndex => inferInstanceAs
      (Decidable (∀ k ∈ s.tables.waitingExecution.runIndexes nodeName, runIndex ≤ k))

instance (indexes : List ℕ) : Decidable (SmallestComesFirst indexes) :=
  inferInstanceAs (Decidable (∃ m ∈ indexes, ∀ k ∈ indexes, m ≤ k / 10 ^ (digits k - digits m)))

instance (s : Drain ι) : (e : DrainEvent ι) → Decidable (SmallestIsFirst s e)
  | .call _ _ _ => isTrue trivial
  | .take nodeName _ => inferInstanceAs
      (Decidable (SmallestComesFirst (s.tables.waitingExecution.runIndexes nodeName)))

instance (entries : OrderedMap ℕ (WaitingMain (Slot ι))) (inputIndex : ℕ) :
    Decidable (NoneLacks entries inputIndex) :=
  inferInstanceAs (Decidable (∀ entry ∈ entries.values, _))

instance (s : Drain ι) : (e : DrainEvent ι) → Decidable (NewIndexIsAbove s e)
  | .call _ _ nodeCall => inferInstanceAs (Decidable (NoneLacks
      ((s.tables.waitingExecution.get? nodeCall.connectionData.node).getD .empty)
        nodeCall.connectionData.index → ∀ p ∈ s.left, _ → p.2 < _))
  | .take _ _ => isTrue trivial

/-- Run `runIndex` of the parent gives a text to the input. -/
def drainCall (parentNodeName : String) (index runIndex : ℕ) : DrainEvent TextItem :=
  .call .empty [] (textCall parentNodeName index runIndex "text")

/-- Of eleven entries two are completed; the scan takes `10` before `2`. -/
def elevenRuns : List (DrainEvent TextItem) :=
  (List.range 11).map (drainCall "A" 0) ++ (List.range 2).map (drainCall "B" 1) ++ [.take "D" 10]

theorem ten_taken_first :
    Run (DrainStep mergeWorkflow) ⟨.empty, []⟩
      (trace (drainNext mergeWorkflow) ⟨.empty, []⟩ elevenRuns) ∧
    ¬ EveryTransition (fun s e _ => TakesSmallest s e) ⟨.empty, []⟩
      (trace (drainNext mergeWorkflow) ⟨.empty, []⟩ elevenRuns) :=
  ⟨run_trace (E := IsTaken mergeWorkflow) (fun _ _ => drainStep_drainNext) (by decide +kernel),
    by decide +kernel⟩

/-- Two runs are taken in turn. -/
def twoRuns : List (DrainEvent TextItem) :=
  [drainCall "A" 0 0, drainCall "A" 0 1, .take "D" 0, .take "D" 1]

theorem two_taken_inOrder :
    EveryTransition (fun s e _ => TakesSmallest s e) ⟨.empty, []⟩
      (trace (drainNext mergeWorkflow) ⟨.empty, []⟩ twoRuns) ∧
    Always LeftInOrder ⟨.empty, []⟩ (trace (drainNext mergeWorkflow) ⟨.empty, []⟩ twoRuns) := by
  have hrun : Run (DrainStep mergeWorkflow) ⟨.empty, []⟩
      (trace (drainNext mergeWorkflow) ⟨.empty, []⟩ twoRuns) :=
    run_trace (E := IsTaken mergeWorkflow) (fun _ _ => drainStep_drainNext) (by decide +kernel)
  obtain ⟨hsmallest, hleft⟩ := drains_inOrder hrun
  exact ⟨hsmallest.mpr (by decide +kernel), hleft (by decide +kernel)⟩

end Example
end N8n
