import Mathlib.Algebra.GroupWithZero.Nat
import Mathlib.Data.List.Forall2
import N8n.ExecutionEngine.RunState
import N8n.Foundations.FoldM

/-!
# The error output of a node

The items of the outputs in which an error is found are moved to the last output, with the
fields of the input item they are paired with. What the last output held before is dropped.
-/

namespace N8n.ErrorOutput

variable {ν : Type}

inductive PairedItem where
  | number (item : ℕ)
  | single (data : IPairedItemData)
  | array (data : List IPairedItemData)
  deriving DecidableEq, Repr

/-- The fields of `json` have values of a type `ν` of their own. -/
structure INodeExecutionData (ν : Type) where
  json : OrderedMap String ν
  error : Option ν := none
  pairedItem : Option PairedItem := none

/-- What the function reads beside the items. `$getPairedItem` gives `none` for `null`. -/
structure Execution (ν : Type) where
  truthy : ν → Bool
  outputTypes : List NodeConnectionType
  source : Option ITaskDataConnectionsSource
  getPairedItem : String → ISourceData → IPairedItemData → Option (INodeExecutionData ν)

/-- `{ ...a, ...b }` -/
def spread (a b : OrderedMap String ν) : OrderedMap String ν :=
  b.entries.foldl (fun fields field => fields.set field.1 field.2) a

section
variable (execution : Execution ν)

def isTruthy (value : Option ν) : Bool := value.any execution.truthy

/-- The item is an error by itself, or its `json` holds an error and at most a message. -/
def errorFound (item : INodeExecutionData ν) : Bool :=
  isTruthy execution item.error ||
    (isTruthy execution (item.json.get? "error") && item.json.size == 1) ||
    (isTruthy execution (item.json.get? "error") && isTruthy execution (item.json.get? "message") &&
      item.json.size == 2)

/-- An item that is an error by itself loses its error. -/
def withoutError (item : INodeExecutionData ν) : INodeExecutionData ν :=
  if isTruthy execution item.error then { item with error := none } else item

def pairedItemData (item : INodeExecutionData ν) : Option IPairedItemData :=
  match item.pairedItem with
  | none => none
  | some (.number _) => none
  | some (.single data) => some data
  | some (.array data) => data.head?

/-- `executionData.source.main[pairedItemInputIndex]`, of which a property is read. -/
def sourceData (source : ITaskDataConnectionsSource) (data : IPairedItemData) :
    Except Failure ISourceData := do
  let sources ← orTypeError (source.get? .main)
  orTypeError (sources[data.input.getD 0]?.join)

def errorItem (item : INodeExecutionData ν) : Except Failure (INodeExecutionData ν) :=
  match execution.source, pairedItemData item with
  | none, _ => .ok item
  | some _, none => .ok item
  | some source, some data => do
    let sourceData ← sourceData source data
    match execution.getPairedItem sourceData.previousNode sourceData data with
    | none => .ok item
    | some constPairedItem => .ok { item with json := spread constPairedItem.json item.json }

def routeItem (routed : List (INodeExecutionData ν) × List (INodeExecutionData ν))
    (item : INodeExecutionData ν) :
    Except Failure (List (INodeExecutionData ν) × List (INodeExecutionData ν)) :=
  if errorFound execution item then do
    let item ← errorItem execution (withoutError execution item)
    .ok (routed.1, routed.2 ++ [item])
  else .ok (routed.1 ++ [item], routed.2)

/-- `nodeSuccessData[outputIndex]`, or no items where there are none. -/
def itemsAt (nodeSuccessData : List (Slot (INodeExecutionData ν))) (outputIndex : ℕ) :
    List (INodeExecutionData ν) :=
  (getSlot nodeSuccessData outputIndex).items?.getD []

def routeOutput (state : List (Slot (INodeExecutionData ν)) × List (INodeExecutionData ν))
    (outputIndex : ℕ) :
    Except Failure (List (Slot (INodeExecutionData ν)) × List (INodeExecutionData ν)) := do
  let (successItems, errorItems) ←
    (itemsAt state.1 outputIndex).foldlM (routeItem execution) ([], state.2)
  .ok (setSlot state.1 outputIndex (.items successItems), errorItems)

def mainOutputs : ℕ := (execution.outputTypes.filter fun output => output = .main).length

/-- For a node with main outputs, of which the last one is for errors. -/
def handleNodeErrorOutput (nodeSuccessData : List (Slot (INodeExecutionData ν))) :
    Except Failure (List (Slot (INodeExecutionData ν))) := do
  let (nodeSuccessData, errorItems) ←
    (List.range (mainOutputs execution - 1)).foldlM (routeOutput execution) (nodeSuccessData, [])
  .ok (setSlot nodeSuccessData (mainOutputs execution - 1) (.items errorItems))

end

/-! ### Where the items go -/

section
variable (execution : Execution ν) (nodeSuccessData : List (Slot (INodeExecutionData ν)))

/-- The source of the input that an error item is paired with exists. -/
def SourcesExist : Prop :=
  ∀ outputIndex < mainOutputs execution - 1, ∀ item ∈ itemsAt nodeSuccessData outputIndex,
    ∀ source data, execution.source = some source → pairedItemData item = some data →
      ∃ sourceData, ErrorOutput.sourceData source data = .ok sourceData

/-- The fields of the input item are added where the item has none of that name. -/
structure Extends (inputJson json json' : OrderedMap String ν) : Prop where
  own : ∀ name value, json.get? name = some value → json'.get? name = some value
  added : ∀ name, json.get? name = none → json'.get? name = inputJson.get? name

/-- The item that `$getPairedItem` gives for the item. -/
def IsInputItem (item inputItem : INodeExecutionData ν) : Prop :=
  ∃ source data sourceData, execution.source = some source ∧ pairedItemData item = some data ∧
    ErrorOutput.sourceData source data = .ok sourceData ∧
    execution.getPairedItem sourceData.previousNode sourceData data = some inputItem

/-- An item with an error and what stands for it in the last output. -/
structure Rerouted (item item' : INodeExecutionData ν) : Prop where
  json : item'.json = item.json ∨
    ∃ inputItem, IsInputItem execution item inputItem ∧ Extends inputItem.json item.json item'.json
  error : item'.error = (withoutError execution item).error
  pairedItem : item'.pairedItem = item.pairedItem

def errorItemsBefore (outputIndex : ℕ) : List (INodeExecutionData ν) :=
  (List.range outputIndex).flatMap fun k =>
    (itemsAt nodeSuccessData k).filter (errorFound execution)

structure RoutesErrors (nodeSuccessData' : List (Slot (INodeExecutionData ν))) : Prop where
  success : ∀ k < mainOutputs execution - 1, getSlot nodeSuccessData' k =
    .items ((itemsAt nodeSuccessData k).filter fun item => !errorFound execution item)
  errors : ∃ errorItems, getSlot nodeSuccessData' (mainOutputs execution - 1) = .items errorItems ∧
    List.Forall₂ (Rerouted execution)
      (errorItemsBefore execution nodeSuccessData (mainOutputs execution - 1)) errorItems

def numberOfItems : ℕ :=
  (nodeSuccessData.map fun slot => (slot.items?.getD []).length).sum

end

section
variable {execution : Execution ν}

theorem get?_foldl_set (entries : List (String × ν)) (hnodup : (entries.map Prod.fst).Nodup)
    (a : OrderedMap String ν) (name : String) :
    (entries.foldl (fun fields field => fields.set field.1 field.2) a).get? name =
      (OrderedMap.lookupEntry name entries).or (a.get? name) := by
  induction entries generalizing a with
  | nil => rfl
  | cons field entries ih =>
    rw [List.map_cons, List.nodup_cons] at hnodup
    rw [List.foldl_cons, ih hnodup.2, OrderedMap.lookupEntry, OrderedMap.get?_set]
    split_ifs with hname
    · rw [← hname, OrderedMap.lookupEntry_eq_none.mpr hnodup.1]
      rfl
    · rfl

theorem spread_extends (a b : OrderedMap String ν) : Extends a b (spread a b) := by
  have hget : ∀ name, (spread a b).get? name = (b.get? name).or (a.get? name) := fun name =>
    get?_foldl_set b.entries b.nodup a name
  refine ⟨fun name value hvalue => ?_, fun name hnone => ?_⟩
  · rw [hget, hvalue, Option.some_or]
  · rw [hget, hnone, Option.none_or]

theorem pairedItemData_withoutError (item : INodeExecutionData ν) :
    pairedItemData (withoutError execution item) = pairedItemData item := by
  rw [withoutError]
  split_ifs <;> rfl

theorem withoutError_json (item : INodeExecutionData ν) :
    (withoutError execution item).json = item.json := by
  rw [withoutError]
  split_ifs <;> rfl

theorem withoutError_pairedItem (item : INodeExecutionData ν) :
    (withoutError execution item).pairedItem = item.pairedItem := by
  rw [withoutError]
  split_ifs <;> rfl

theorem errorItem_rerouted {item : INodeExecutionData ν}
    (hsource : ∀ source data, execution.source = some source → pairedItemData item = some data →
      ∃ sourceData, ErrorOutput.sourceData source data = .ok sourceData) :
    ∃ item', errorItem execution (withoutError execution item) = .ok item' ∧
      Rerouted execution item item' := by
  have hunchanged : Rerouted execution item (withoutError execution item) :=
    ⟨Or.inl (withoutError_json item), rfl, withoutError_pairedItem item⟩
  rw [errorItem, pairedItemData_withoutError]
  cases hexecution : execution.source with
  | none => exact ⟨_, rfl, hunchanged⟩
  | some source =>
    cases hdata : pairedItemData item with
    | none => exact ⟨_, rfl, hunchanged⟩
    | some data =>
      obtain ⟨sourceData, hsourceData⟩ := hsource source data hexecution hdata
      dsimp only
      rw [hsourceData, FoldM.ok_bind]
      cases hinput : execution.getPairedItem sourceData.previousNode sourceData data with
      | none => exact ⟨_, rfl, hunchanged⟩
      | some inputItem =>
        refine ⟨_, rfl, Or.inr ⟨inputItem, ⟨source, data, sourceData, hexecution, hdata,
          hsourceData, hinput⟩, ?_⟩, rfl, withoutError_pairedItem item⟩
        rw [withoutError_json]
        exact spread_extends _ _

/-- The items of one output, one after the other. -/
theorem foldlM_routeItem {items : List (INodeExecutionData ν)}
    (hsource : ∀ item ∈ items, ∀ source data, execution.source = some source →
      pairedItemData item = some data → ∃ sourceData, ErrorOutput.sourceData source data =
        .ok sourceData) (successItems errorItems : List (INodeExecutionData ν)) :
    ∃ newErrors, items.foldlM (routeItem execution) (successItems, errorItems) =
        .ok (successItems ++ items.filter (fun item => !errorFound execution item),
          errorItems ++ newErrors) ∧
      List.Forall₂ (Rerouted execution) (items.filter (errorFound execution)) newErrors := by
  induction items generalizing successItems errorItems with
  | nil => exact ⟨[], by simp; rfl, .nil⟩
  | cons item items ih =>
    have hsources := fun item' hitem' => hsource item' (List.mem_cons_of_mem item hitem')
    cases hfound : errorFound execution item with
    | false =>
      have hroute : routeItem execution (successItems, errorItems) item =
          .ok (successItems ++ [item], errorItems) := by
        rw [routeItem, hfound, if_neg Bool.false_ne_true]
      obtain ⟨newErrors, hfold, hrerouted⟩ := ih hsources (successItems ++ [item]) errorItems
      refine ⟨newErrors, ?_, ?_⟩
      · rw [FoldM.foldlM_cons_ok hroute, hfold]
        simp [hfound]
      · rw [List.filter_cons_of_neg (by simp [hfound])]
        exact hrerouted
    | true =>
      obtain ⟨item', hitem', hrerouted'⟩ := errorItem_rerouted
        (hsource item List.mem_cons_self)
      have hroute : routeItem execution (successItems, errorItems) item =
          .ok (successItems, errorItems ++ [item']) := by
        rw [routeItem, hfound, if_pos rfl, hitem']
        rfl
      obtain ⟨newErrors, hfold, hrerouted⟩ := ih hsources successItems (errorItems ++ [item'])
      refine ⟨item' :: newErrors, ?_, ?_⟩
      · rw [FoldM.foldlM_cons_ok hroute, hfold]
        simp [hfound]
      · rw [List.filter_cons_of_pos hfound]
        exact .cons hrerouted' hrerouted

theorem numberOfItems_setSlot (slots : List (Slot (INodeExecutionData ν))) (index : ℕ)
    (items : List (INodeExecutionData ν)) :
    numberOfItems (setSlot slots index (.items items)) + (itemsAt slots index).length =
      numberOfItems slots + items.length := by
  have hcons : ∀ (slot : Slot (INodeExecutionData ν)) (slots : List (Slot (INodeExecutionData ν))),
      numberOfItems (slot :: slots) = (slot.items?.getD []).length + numberOfItems slots :=
    fun slot slots => by rw [numberOfItems, List.map_cons, List.sum_cons, numberOfItems]
  induction slots generalizing index with
  | nil =>
    induction index with
    | zero => rw [setSlot, hcons, itemsAt, getSlot_nil]; simp [numberOfItems, Slot.items?]
    | succ index ih =>
      rw [setSlot, hcons]
      simpa [itemsAt, Slot.items?] using ih
  | cons slot slots ih =>
    cases index with
    | zero =>
      rw [setSlot, hcons, hcons, itemsAt, getSlot_cons_zero]
      simp only [Slot.items?, Option.getD_some]
      omega
    | succ index =>
      rw [setSlot, hcons, hcons, itemsAt, getSlot_cons_succ, ← itemsAt]
      have := ih index
      omega

/-- The loop over the outputs. -/
theorem foldlM_routeOutput {nodeSuccessData : List (Slot (INodeExecutionData ν))}
    (hsource : SourcesExist execution nodeSuccessData) {m : ℕ}
    (hm : m ≤ mainOutputs execution - 1) :
    ∃ data errorItems, (List.range m).foldlM (routeOutput execution) (nodeSuccessData, []) =
        .ok (data, errorItems) ∧
      (∀ k, getSlot data k = if k < m then
        .items ((itemsAt nodeSuccessData k).filter fun item => !errorFound execution item)
        else getSlot nodeSuccessData k) ∧
      List.Forall₂ (Rerouted execution) (errorItemsBefore execution nodeSuccessData m) errorItems ∧
      numberOfItems data + errorItems.length = numberOfItems nodeSuccessData := by
  induction m with
  | zero => exact ⟨nodeSuccessData, [], rfl, fun k => rfl, .nil, rfl⟩
  | succ m ih =>
    obtain ⟨data, errorItems, hfold, hslots, hrerouted, hnumber⟩ := ih (by omega)
    have hitems : itemsAt data m = itemsAt nodeSuccessData m := by
      rw [itemsAt, hslots, if_neg (lt_irrefl m), itemsAt]
    obtain ⟨newErrors, hroute, hnew⟩ := foldlM_routeItem (hsource m (by omega)) [] errorItems
    rw [← hitems, List.nil_append] at hroute
    refine ⟨setSlot data m (.items ((itemsAt data m).filter
      fun item => !errorFound execution item)), errorItems ++ newErrors, ?_, fun k => ?_, ?_, ?_⟩
    · rw [List.range_succ, List.foldlM_append, hfold, FoldM.ok_bind]
      refine FoldM.foldlM_cons_ok ?_
      rw [routeOutput, hroute]
      rfl
    · rw [getSlot_setSlot, hitems, hslots]
      split_ifs with h₁ h₂ h₃ h₄
      · rw [h₁]
      · omega
      · rfl
      · omega
      · omega
      · rfl
    · rw [errorItemsBefore, List.range_succ, List.flatMap_append, List.flatMap_singleton]
      exact List.rel_append hrerouted hnew
    · have hset := numberOfItems_setSlot data m
        ((itemsAt data m).filter fun item => !errorFound execution item)
      have hlength := hnew.length_eq
      have hsplit := List.length_eq_length_filter_add (l := itemsAt data m) (errorFound execution)
      rw [← hitems] at hlength
      rw [List.length_append]
      omega

/-- Nothing is lost but what the last output held before. -/
theorem handleNodeErrorOutput_routesErrors {nodeSuccessData : List (Slot (INodeExecutionData ν))}
    (hsource : SourcesExist execution nodeSuccessData) :
    ∃ nodeSuccessData', handleNodeErrorOutput execution nodeSuccessData = .ok nodeSuccessData' ∧
      RoutesErrors execution nodeSuccessData nodeSuccessData' ∧
      numberOfItems nodeSuccessData' +
        (itemsAt nodeSuccessData (mainOutputs execution - 1)).length =
          numberOfItems nodeSuccessData := by
  obtain ⟨data, errorItems, hfold, hslots, hrerouted, hnumber⟩ :=
    foldlM_routeOutput hsource (Nat.le_refl _)
  refine ⟨setSlot data (mainOutputs execution - 1) (.items errorItems), ?_,
    ⟨fun k hk => ?_, errorItems, ?_, hrerouted⟩, ?_⟩
  · rw [handleNodeErrorOutput, hfold]
    rfl
  · rw [getSlot_setSlot, if_neg hk.ne', hslots, if_pos hk]
  · rw [getSlot_setSlot, if_pos rfl]
  · have hset := numberOfItems_setSlot data (mainOutputs execution - 1) errorItems
    have hlast : itemsAt data (mainOutputs execution - 1) =
        itemsAt nodeSuccessData (mainOutputs execution - 1) := by
      rw [itemsAt, hslots, if_neg (lt_irrefl _), itemsAt]
    rw [hlast] at hset
    omega

end

section Example

/-- The items of the node are paired with those of `Start`, which carry an `id`. -/
def textExecution : Execution String where
  truthy value := value ≠ ""
  outputTypes := [.main, .main]
  source := some (mainOnly [some ⟨"Start", none, none⟩])
  getPairedItem _ _ _ := some { json := OrderedMap.empty.set "id" "7" }

def plainItem (name value : String) : INodeExecutionData String where
  json := OrderedMap.empty.set name value
  pairedItem := some (.single ⟨0, none⟩)

theorem oneErrorOfTwo_routesErrors : ∃ nodeSuccessData',
    handleNodeErrorOutput textExecution
      [.items [plainItem "error" "failed", plainItem "name" "a"]] = .ok nodeSuccessData' ∧
    RoutesErrors textExecution [.items [plainItem "error" "failed", plainItem "name" "a"]]
      nodeSuccessData' ∧
    numberOfItems nodeSuccessData' + 0 = 2 := by
  refine handleNodeErrorOutput_routesErrors ?_
  rintro outputIndex hindex item hitem source data hsource hdata
  obtain rfl : outputIndex = 0 := by
    have : outputIndex < 1 := hindex
    omega
  obtain rfl := Option.some.inj hsource
  rcases List.mem_pair.mp hitem with rfl | rfl
  · obtain rfl := Option.some.inj hdata
    exact ⟨_, rfl⟩
  · obtain rfl := Option.some.inj hdata
    exact ⟨_, rfl⟩

/-- An item that the node itself put into its last output is dropped. -/
theorem itemInLastOutput_notCounted :
    ¬ ∃ nodeSuccessData', handleNodeErrorOutput textExecution
        [.items [], .items [plainItem "name" "a"]] = .ok nodeSuccessData' ∧
      RoutesErrors textExecution [.items [], .items [plainItem "name" "a"]] nodeSuccessData' ∧
      numberOfItems nodeSuccessData' =
        numberOfItems [.items [], .items [plainItem "name" "a"]] := by
  rintro ⟨nodeSuccessData', hhandle, -, hnumber⟩
  obtain rfl := Except.ok.inj hhandle
  exact absurd hnumber (by decide)

end Example
end N8n.ErrorOutput
