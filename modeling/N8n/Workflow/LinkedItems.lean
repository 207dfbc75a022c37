import N8n.Workflow.ItemLinking

/-!
# Which item is linked

Getting a paired item is a search along the entries whose input is one of the node. The
error of a branch, that it leads to several items among them, is dropped where another
branch leads to one, so an item is returned that not every trace ends at.
-/

namespace N8n.ItemLinking

open AgreeingBranches (View EndsAt Lineage Links Misleads agree search result)

structure Position where
  source : Option SourceData
  item : ℤ
  deriving DecidableEq, Repr

def position (incomingSourceData : Option SourceData) (pairedItem : PairedEntry) : Position :=
  let (pairedItem, sourceData) := normalizeInputs pairedItem incomingSourceData
  ⟨sourceData, pairedItem.item⟩

/-- The source of an entry, its own one first, with whether its input is one of the node. -/
def nextPosition (sourceArray : List (Option SourceData)) (next : PairedItemData) : Bool × Position :=
  (!decide ((sourceArray.length : ℤ) ≤ next.input.getD 0),
    ⟨next.sourceOverwrite.or (at? sourceArray (next.input.getD 0)).join, next.item⟩)

theorem position_next (sourceArray : List (Option SourceData)) (next : PairedItemData) :
    position (next.sourceOverwrite.or (at? sourceArray (next.input.getD 0)).join)
        (.data { next with input := some (next.input.getD 0) }) =
      (nextPosition sourceArray next).2 := by
  cases hs : next.sourceOverwrite <;> simp [position, nextPosition, normalizeInputs, PairedEntry.toData, hs]

section Execution
variable {ι : Type} (env : Execution ι) (destinationNodeName : String)

/-- Where a trace goes on from a position. -/
def view (p : Position) : View Position ι :=
  match p.source with
  | none => .dead
  | some source =>
    match outputs? (getTaskData env source) source with
    | none => .dead
    | some outputData =>
      if source.previousNode = destinationNodeName then
        if (outputData.length : ℤ) ≤ p.item then .dead else .leaf (at? outputData p.item)
      else
        match at? outputData p.item with
        | none => .dead
        | some item =>
          .node ((normalizePairedItem (env.pairedItem item)).map
            (nextPosition (((getTaskData env source).map TaskData.source).getD [])))

variable [DecidableEq ι] (usedMethodName : PairedItemMethod)
variable {env destinationNodeName usedMethodName}

theorem matchItems_toOption {sourceArray : List (Option SourceData)} {sourceData : SourceData}
    {pairedItem : PairedItemData} {nodeBeforeLast : Option String}
    (results : List (Except LinkError (Option ι))) :
    (matchItems destinationNodeName sourceArray sourceData pairedItem nodeBeforeLast
      results).toOption = agree (results.map Except.toOption) := by
  unfold matchItems agree
  rw [List.filterMap_map, Function.id_comp]
  by_cases hall : (results.all fun result => !result.isOk) = true
  · have hnone : results.filterMap Except.toOption = [] := by
      rw [List.filterMap_eq_nil_iff]
      intro result hresult
      cases result with
      | error e => rfl
      | ok x => simpa [Except.isOk, Except.toBool] using List.all_eq_true.mp hall _ hresult
    rw [if_pos hall, hnone]
    cases results with
    | nil => rfl
    | cons result results => cases result <;> rfl
  · rw [if_neg hall]
    cases results.filterMap Except.toOption with
    | nil =>
      dsimp only
      split_ifs <;> rfl
    | cons first rest =>
      dsimp only
      split_ifs <;> rfl

omit [DecidableEq ι] in
/-- The entries whose input is one of the node are searched, the others give no result. -/
theorem mapM_nextPaired {f : PairedItemData → Option (Except LinkError (Option ι))}
    {g : Position → Option (Option (Option ι))} {sourceArray : List (Option SourceData)}
    (hfg : ∀ next, (f next).map Except.toOption = g (nextPosition sourceArray next).2)
    (nexts : List PairedItemData) :
    ((nexts.mapM fun next =>
        if (sourceArray.length : ℤ) ≤ next.input.getD 0 then some []
        else (f next).map fun result => [result]).map
      fun results => results.flatten.map Except.toOption) =
      ((nexts.map (nextPosition sourceArray)).filter Prod.fst).mapM fun b => g b.2 := by
  induction nexts with
  | nil => rfl
  | cons next nexts ih =>
    rw [List.mapM_cons, List.map_cons]
    split_ifs with hinput
    · rw [List.filter_cons_of_neg (by simp [nextPosition, hinput]), ← ih]
      generalize (List.mapM _ nexts : Option (List (List (Except LinkError (Option ι))))) = results
      cases results <;> rfl
    · rw [List.filter_cons_of_pos (by simpa [nextPosition] using hinput), List.mapM_cons, ← hfg, ← ih]
      cases f next with
      | none => rfl
      | some result =>
        generalize (List.mapM _ nexts : Option (List (List (Except LinkError (Option ι))))) = results
        cases results <;> rfl

variable (env destinationNodeName usedMethodName) in
/-- Getting a paired item is the search along the entries that are followed. -/
theorem getPairedItem_toOption (fuel : ℕ) (incomingSourceData : Option SourceData)
    (pairedItem : PairedEntry) (nodeBeforeLast : Option String) :
    (getPairedItem env destinationNodeName usedMethodName fuel incomingSourceData pairedItem
      nodeBeforeLast).map Except.toOption =
      search (view env destinationNodeName) fuel (position incomingSourceData pairedItem) := by
  induction fuel generalizing incomingSourceData pairedItem nodeBeforeLast with
  | zero => rfl
  | succ fuel ih =>
    rw [getPairedItem, search, view, position]
    generalize normalizeInputs pairedItem incomingSourceData = inputs
    obtain ⟨pairedItem, sourceData⟩ := inputs
    cases sourceData with
    | none => rfl
    | some source =>
      simp only [getNodeOutput]
      cases outputs? (getTaskData env source) source with
      | none => rfl
      | some outputData =>
        dsimp only
        by_cases hnode : source.previousNode = destinationNodeName
        · rw [if_pos hnode, if_pos hnode]
          split_ifs <;> rfl
        · rw [if_neg hnode, if_neg hnode]
          cases at? outputData pairedItem.item with
          | none => rfl
          | some item =>
            dsimp only
            cases normalizePairedItem (env.pairedItem item) with
            | nil => rfl
            | cons next nexts =>
              rw [List.isEmpty_cons, if_neg Bool.false_ne_true, ← mapM_nextPaired fun next =>
                (ih _ _ (some source.previousNode)).trans (by rw [position_next])]
              rw [Option.map_map, Option.map_map]
              exact congrArg (fun f => Option.map f _) (funext fun results => matchItems_toOption _)

variable (env destinationNodeName usedMethodName)

/-- The lineage has no endless traces. -/
def FiniteTraces (incomingSourceData : Option SourceData) (pairedItem : PairedEntry) : Prop :=
  Acc (AgreeingBranches.Branch (view env destinationNodeName))
    (position incomingSourceData pairedItem)

def TraceEndsAt (incomingSourceData : Option SourceData) (pairedItem : PairedEntry) (x : ι) : Prop :=
  EndsAt (view env destinationNodeName) true (position incomingSourceData pairedItem) x

/-- The item that is returned is the end of every trace, and an error is thrown where no trace ends. -/
def LinksItem (incomingSourceData : Option SourceData) (pairedItem : PairedEntry)
    (nodeBeforeLast : Option String) : Prop :=
  (∀ fuel x, getPairedItem env destinationNodeName usedMethodName fuel incomingSourceData pairedItem
      nodeBeforeLast = some (.ok (some x)) →
    ∀ y, TraceEndsAt env destinationNodeName incomingSourceData pairedItem y → y = x) ∧
  ((∀ y, ¬ TraceEndsAt env destinationNodeName incomingSourceData pairedItem y) →
    ∃ fuel e, getPairedItem env destinationNodeName usedMethodName fuel incomingSourceData pairedItem
      nodeBeforeLast = some (.error e))

variable {env destinationNodeName usedMethodName} {incomingSourceData : Option SourceData}
  {pairedItem : PairedEntry} {nodeBeforeLast : Option String}

theorem result_eq_of_returns {fuel : ℕ} {r : Except LinkError (Option ι)}
    (h : getPairedItem env destinationNodeName usedMethodName fuel incomingSourceData pairedItem
      nodeBeforeLast = some r) :
    result (view env destinationNodeName) (position incomingSourceData pairedItem) = r.toOption := by
  have hsearch := getPairedItem_toOption env destinationNodeName usedMethodName fuel
    incomingSourceData pairedItem nodeBeforeLast
  rw [h] at hsearch
  exact AgreeingBranches.result_eq hsearch.symm

/-- With enough fuel there is a result. -/
theorem exists_getPairedItem
    (hfinite : FiniteTraces env destinationNodeName incomingSourceData pairedItem) :
    ∃ fuel r, getPairedItem env destinationNodeName usedMethodName fuel incomingSourceData pairedItem
      nodeBeforeLast = some r := by
  obtain ⟨fuel, r, hr⟩ := AgreeingBranches.exists_search hfinite
  rw [← getPairedItem_toOption env _ usedMethodName fuel _ _ nodeBeforeLast] at hr
  obtain ⟨r', hr', -⟩ := Option.map_eq_some_iff.mp hr
  exact ⟨fuel, r', hr'⟩

theorem linksItem_iff (hfinite : FiniteTraces env destinationNodeName incomingSourceData pairedItem) :
    LinksItem env destinationNodeName usedMethodName incomingSourceData pairedItem nodeBeforeLast ↔
      Links (view env destinationNodeName) (result (view env destinationNodeName))
        (position incomingSourceData pairedItem) := by
  obtain ⟨fuel, r, hr⟩ :
      ∃ fuel r, getPairedItem env destinationNodeName usedMethodName fuel incomingSourceData
        pairedItem nodeBeforeLast = some r := exists_getPairedItem hfinite
  have hresult := result_eq_of_returns hr
  refine and_congr ⟨fun h x hx => ?_, fun h fuel x hx => h x (result_eq_of_returns hx)⟩
    (imp_congr_right fun _ => ⟨?_, fun hnone => ?_⟩)
  · rw [hx] at hresult
    cases r with
    | error e => cases hresult
    | ok x' =>
      obtain rfl := Option.some.inj hresult
      exact h fuel x hr
  · rintro ⟨fuel', e, he⟩
    exact result_eq_of_returns he
  · rw [hnone] at hresult
    cases r with
    | error e => exact ⟨fuel, e, hr⟩
    | ok x => cases hresult

end Execution

/-! ### A merge of branches -/

def fromNode (previousNode : String) : SourceData := ⟨previousNode, none, none⟩

/-- `Trigger` puts out two items. The item of `Summarize` is made of both, the one of `Edit` of the
second, and the one of `Merge` of the one of `Summarize` and the first of `Trigger`. -/
def merged : Execution ℕ where
  runData := ((((OrderedMap.empty.set "Trigger" [⟨[.items [0, 1]], [none]⟩]).set
    "Summarize" [⟨[.items [2]], [some (fromNode "Trigger")]⟩]).set
    "Edit" [⟨[.items [3]], [some (fromNode "Trigger")]⟩]).set
    "Merge" [⟨[.items [4]], [some (fromNode "Summarize"), some (fromNode "Trigger")]⟩])
  pinData := .empty
  isManual := false
  pairedItem
    | 2 => .many [.number 0, .number 1]
    | 3 => .one (.number 1)
    | 4 => .many [.data ⟨0, some 0, none⟩, .data ⟨0, some 1, none⟩]
    | _ => .missing

theorem view_first : view merged "Trigger" ⟨some (fromNode "Trigger"), 0⟩ = .leaf (some 0) := rfl

theorem view_second : view merged "Trigger" ⟨some (fromNode "Trigger"), 1⟩ = .leaf (some 1) := rfl

theorem finiteTraces_edit : FiniteTraces merged "Trigger" (some (fromNode "Edit")) (.number 0) := by
  have hedit : view merged "Trigger" (position (some (fromNode "Edit")) (.number 0)) =
      .node [(true, ⟨some (fromNode "Trigger"), 1⟩)] := rfl
  refine AgreeingBranches.acc_node hedit fun b hb => ?_
  obtain rfl := List.mem_singleton.mp hb
  exact AgreeingBranches.acc_leaf view_second

end N8n.ItemLinking
