import N8n.Foundations.JsonValues
import N8n.Foundations.KeyedGroups
import N8n.NodesBase.Merge

/-!
# Items summarized by their split values

The items are grouped by the values of the split fields, one field after the other, and every group
is aggregated. The nested result becomes a list of results or one object with the groups under their
keys.
-/

namespace N8n.Summarize
open N8n.JsonValues N8n.KeyedGroups N8n.KeyedJoins
open N8n.Merge (assign)

/-- What the language computes on values: the texts of `JSON.stringify` and of `String`, the latter
of a number, an array or object and a function, and the operators. -/
structure Operators where
  stringify : Value → String
  numberToString : ℚ → String
  objectToString : Value → String
  functionToString : String → String
  add : Value → Value → Value
  divide : Value → ℕ → Value
  lt : Value → Value → Bool

inductive AggregationType where
  | append
  | average
  | concatenate
  | count
  | countUnique
  | max
  | min
  | sum
  deriving DecidableEq, Repr

structure Aggregation where
  aggregation : AggregationType
  field : String
  includeEmpty : Bool
  separateBy : Option String
  customSeparator : Option String
  deriving DecidableEq, Repr

def AggregationType.displayName : AggregationType → String
  | append => "appended_"
  | average => "average_"
  | concatenate => "concatenated_"
  | count => "count_"
  | countUnique => "unique_count_"
  | max => "max_"
  | min => "min_"
  | sum => "sum_"

def numericalAggregations : List AggregationType := [.average, .sum]

inductive OutputFormat where
  | separateItems
  | singleItem
  deriving DecidableEq, Repr

structure SummarizeOptions where
  outputFormat : Option OutputFormat
  skipEmptySplitFields : Bool
  deriving DecidableEq, Repr

structure AggregationResult where
  returnData : Properties
  pairedItems : Option (List Value)

/-- The entries of a map stand in their order. -/
inductive NestedAggregationResult where
  | result (result : AggregationResult)
  | splits (fieldName : String) (splits : List (Value × NestedAggregationResult))

/-- The object of all groups, the properties in the order in which they are first set. -/
inductive SplitObject where
  | returnData (returnData : Properties)
  | object (properties : List (String × SplitObject))

def isEmpty (value : Value) : Bool := value = .undefined ∨ value = .null ∨ value = .string ""

/-- Brackets and quotes go, blanks and dots become underscores. -/
def normalizeFieldName (fieldName : String) : String :=
  String.ofList ((fieldName.toList.filter fun c => c ∉ [']', '[', '"']).map fun c =>
    if c = ' ' ∨ c = '.' then '_' else c)

/-- An item with its index, as the node hands it on. -/
def withIndex (item : Properties) (index : ℕ) : Properties := item.set "_itemIndex" (.number index)

def withIndices (items : List Properties) : List Properties :=
  items.zipIdx.map fun (item, index) => withIndex item index

variable (op : Operators) (inherited : String → Value) (getValue : Properties → String → Value)

def Operators.toString : Value → String
  | .undefined => "undefined"
  | .null => "null"
  | .boolean b => if b then "true" else "false"
  | .number n => op.numberToString n
  | .string s => s
  | .array items => op.objectToString (.array items)
  | .object properties => op.objectToString (.object properties)
  | .builtin name => op.functionToString name

/-- The size of a set of the values. Every array and every object is a member of its own. -/
def setSize (values : List Value) : ℕ :=
  let isObject := fun value : Value => value.truthy && value.typeof = "object"
  ((values.filter fun value => !isObject value).dedup).length + (values.filter isObject).length

/-- The text that a value adds to a concatenation. -/
def concatenated (value : Value) : String :=
  if value.typeof = "object" then op.stringify value else op.toString value

/-- The extreme of the values that are not empty. -/
def extreme (isBetter : Value → Value → Bool) (values : List Value) : Value :=
  (values.foldl (fun best value =>
    if isEmpty value then best
    else match best with
      | none => some value
      | some current => if isBetter value current then some value else best) none).getD .null

def aggregate (items : List Properties) (entry : Aggregation) : Value :=
  let data :=
    if entry.aggregation ∈ numericalAggregations then
      items.filter fun item => (getValue item entry.field).typeof = "number" &&
        !isEmpty (getValue item entry.field)
    else items
  let values := data.map fun item => getValue item entry.field
  let included := if entry.includeEmpty then values else values.filter fun value => !isEmpty value
  match entry.aggregation with
  | .append => .array included
  | .concatenate =>
    let separateBy :=
      if entry.separateBy = some "other" then entry.customSeparator else entry.separateBy
    .string ((separateBy.getD ",").intercalate (included.map (concatenated op)))
  | .average => op.divide (values.foldl op.add (.number 0)) values.length
  | .sum => values.foldl op.add (.number 0)
  | .min => extreme op.lt values
  | .max => extreme (fun value max => op.lt max value) values
  | .countUnique => .number (setSize included)
  | .count => .number included.length

section
variable (fieldsToSummarize : List Aggregation) (options : SummarizeOptions)

def aggregateData (data : List Properties) : AggregationResult :=
  let returnData := fill
    (fun aggregation : Aggregation =>
      normalizeFieldName (aggregation.aggregation.displayName ++ aggregation.field))
    (fun aggregation => aggregate op getValue data aggregation) .empty fieldsToSummarize
  if options.outputFormat = some .singleItem then ⟨returnData, none⟩
  else ⟨returnData, some (data.map fun item => item.get inherited "_itemIndex")⟩

variable (convertKeysToString : Bool)

/-- The value of an item that it is grouped by. -/
def splitValue (splitKey : String) (item : Properties) : Value :=
  let value := getValue item splitKey
  let value :=
    if value.truthy ∧ value.typeof = "object" then .string (op.stringify value) else value
  if convertKeysToString then .string (op.toString value) else value

def isSkipped (splitValue : Value) : Bool :=
  options.skipEmptySplitFields && splitValue.typeof ≠ "number" && !splitValue.truthy

def groupedItems (splitKey : String) (inputItems : List Properties) :
    OrderedMap Value (List Properties) :=
  inputItems.foldl (fun groupedItems item =>
    let value := splitValue op getValue convertKeysToString splitKey item
    if isSkipped options value then groupedItems
    else
      let group := (groupedItems.get? value).getD []
      groupedItems.set value (group ++ [item])) .empty

def aggregateAndSplitData : List String → List Properties → NestedAggregationResult
  | [], inputItems =>
    .result (aggregateData op inherited getValue fieldsToSummarize options inputItems)
  | firstSplitKey :: restSplitKeys, inputItems =>
    .splits firstSplitKey
      ((groupedItems op getValue options convertKeysToString firstSplitKey inputItems).entries.map
        fun (groupKey, items) => (groupKey, aggregateAndSplitData restSplitKeys items))

end

mutual

def flattenAggregationResultToObject : NestedAggregationResult → SplitObject
  | .result result => .returnData result.returnData
  | .splits _ splits =>
    .object (fill Prod.fst Prod.snd .empty (flattenEntriesToObject splits)).entries

def flattenEntriesToObject : List (Value × NestedAggregationResult) → List (String × SplitObject)
  | [] => []
  | (key, value) :: rest =>
    (op.toString key, flattenAggregationResultToObject value) :: flattenEntriesToObject rest

end

mutual

def flattenAggregationResultToArray : NestedAggregationResult → List AggregationResult
  | .result result => [result]
  | .splits fieldName splits => flattenEntriesToArray fieldName splits

def flattenEntriesToArray (fieldName : String) :
    List (Value × NestedAggregationResult) → List AggregationResult
  | [] => []
  | (value, innerResult) :: rest =>
    (flattenAggregationResultToArray innerResult).map (fun v =>
      { v with returnData := assign v.returnData (normalizeFieldName fieldName) value }) ++
    flattenEntriesToArray fieldName rest

end

section Groups
variable {op inherited getValue} {fieldsToSummarize : List Aggregation} {options : SummarizeOptions}
  {convertKeysToString : Bool}

/-- The value that an item is grouped by, if it is not skipped. -/
def splitKeyOf (op : Operators) (getValue : Properties → String → Value) (options : SummarizeOptions)
    (convertKeysToString : Bool) (splitKey : String) (item : Properties) : Option Value :=
  let value := splitValue op getValue convertKeysToString splitKey item
  if isSkipped options value then none else some value

theorem groupedItems_eq (splitKey : String) (inputItems : List Properties) :
    groupedItems op getValue options convertKeysToString splitKey inputItems =
      groupedBy (splitKeyOf op getValue options convertKeysToString splitKey) inputItems := by
  rw [groupedItems, groupedBy]
  congr 1
  funext groups item
  rw [collect, splitKeyOf]
  split_ifs with h
  · simp [h]
  · simp [h]

theorem flattenEntriesToArray_pairedItems (fieldName : String)
    (entries : List (Value × NestedAggregationResult)) :
    (flattenEntriesToArray fieldName entries).map AggregationResult.pairedItems =
      entries.flatMap fun entry =>
        (flattenAggregationResultToArray entry.2).map AggregationResult.pairedItems := by
  induction entries with
  | nil => rfl
  | cons entry entries ih =>
    rw [flattenEntriesToArray, List.map_append, ih, List.map_map, List.flatMap_cons]
    rfl

/-- The results are those of the nested groups, one for each. -/
theorem pairedItems_eq (splitKeys : List String) (inputItems : List Properties) :
    (flattenAggregationResultToArray (aggregateAndSplitData op inherited getValue fieldsToSummarize
        options convertKeysToString splitKeys inputItems)).map AggregationResult.pairedItems =
      (nestedGroups (splitKeys.map (splitKeyOf op getValue options convertKeysToString))
        inputItems).map fun group =>
          (aggregateData op inherited getValue fieldsToSummarize options group).pairedItems := by
  induction splitKeys generalizing inputItems with
  | nil => rfl
  | cons splitKey splitKeys ih =>
    rw [aggregateAndSplitData, flattenAggregationResultToArray, flattenEntriesToArray_pairedItems,
      groupedItems_eq, List.flatMap_map, List.map_cons, nestedGroups, List.map_flatMap]
    exact List.flatMap_congr fun entry _ => ih entry.2

end Groups

section Indices
variable {inherited} {items : List Properties} {i : ℕ} {x : Properties}

theorem get_withIndex (item : Properties) (i : ℕ) :
    (withIndex item i).get inherited "_itemIndex" = .number i :=
  Properties.get_of_get? (OrderedMap.get?_set_self _ _ _)

theorem get_of_getElem? (h : (withIndices items)[i]? = some x) :
    x.get inherited "_itemIndex" = .number i := by
  rw [withIndices, List.getElem?_map, Option.map_eq_some_iff] at h
  obtain ⟨⟨item, k⟩, hk, rfl⟩ := h
  rw [List.getElem?_zipIdx, Option.map_eq_some_iff] at hk
  obtain ⟨item', -, heq⟩ := hk
  rw [Nat.zero_add] at heq
  obtain ⟨rfl, rfl⟩ := Prod.mk.inj heq
  exact get_withIndex item' i

theorem map_get_withIndices (items : List Properties) :
    (withIndices items).map (fun item => item.get inherited "_itemIndex") =
      (List.range items.length).map fun i : ℕ => .number i := by
  rw [withIndices, List.map_map, List.range_eq_range', ← List.zipIdx_map_snd 0 items, List.map_map]
  exact List.map_congr_left fun entry _ => get_withIndex entry.1 entry.2

theorem number_inj {i j : ℕ} (h : Value.number i = .number j) : i = j := by
  simpa using h

/-- The index of an item is among those of a part exactly if the item is in it. -/
theorem number_mem_iff {group : List Properties} (hgroup : group.Sublist (withIndices items))
    (hi : (withIndices items)[i]? = some x) :
    .number i ∈ group.map (fun item => item.get inherited "_itemIndex") ↔ x ∈ group := by
  rw [List.mem_map]
  constructor
  · rintro ⟨y, hy, hindex⟩
    obtain ⟨j, hj⟩ := List.mem_iff_getElem?.mp (hgroup.subset hy)
    rw [get_of_getElem? hj] at hindex
    rw [number_inj hindex, hi] at hj
    rwa [Option.some.inj hj]
  · intro hx
    exact ⟨x, hx, get_of_getElem? hi⟩

theorem exists_indices {group : List Properties} (hgroup : group.Sublist (withIndices items)) :
    ∃ indices : List ℕ, group.map (fun item => item.get inherited "_itemIndex") =
      indices.map (fun i : ℕ => .number i) ∧ indices.Pairwise (· < ·) := by
  have hsub := hgroup.map fun item => item.get inherited "_itemIndex"
  rw [map_get_withIndices, List.sublist_map_iff] at hsub
  obtain ⟨indices, hindices, heq⟩ := hsub
  exact ⟨indices, heq, List.pairwise_lt_range.sublist hindices⟩

end Indices

section SeparateItems
variable {op inherited getValue} {fieldsToSummarize : List Aggregation} {options : SummarizeOptions}
  {convertKeysToString : Bool} {splitKeys : List String} {x y : Properties}

/-- No split field of the item is skipped. -/
def isKept (op : Operators) (getValue : Properties → String → Value) (options : SummarizeOptions)
    (convertKeysToString : Bool) (splitKeys : List String) (item : Properties) : Bool :=
  splitKeys.all fun splitKey =>
    !isSkipped options (splitValue op getValue convertKeysToString splitKey item)

/-- The results have the items in groups of equal split values. -/
structure GroupsExactly (op : Operators) (getValue : Properties → String → Value)
    (options : SummarizeOptions) (convertKeysToString : Bool) (splitKeys : List String)
    (items : List Properties) (results : List AggregationResult) : Prop where
  once : (results.flatMap fun r => r.pairedItems.getD []).Perm
    ((items.zipIdx.filter fun (item, _) =>
      isKept op getValue options convertKeysToString splitKeys item).map
        fun (_, index) => .number index)
  together : ∀ (i j : ℕ) (x y : Properties), items[i]? = some x → items[j]? = some y →
    isKept op getValue options convertKeysToString splitKeys x →
    isKept op getValue options convertKeysToString splitKeys y →
    ((∃ r ∈ results, ∃ indices, r.pairedItems = some indices ∧
        .number i ∈ indices ∧ .number j ∈ indices) ↔
      ∀ splitKey ∈ splitKeys, splitValue op getValue convertKeysToString splitKey x =
        splitValue op getValue convertKeysToString splitKey y)
  increasing : ∀ r ∈ results, ∃ indices : List ℕ,
    r.pairedItems = some (indices.map fun i : ℕ => .number i) ∧ indices.Pairwise (· < ·)

theorem splitKeyOf_isSome (splitKey : String) :
    (splitKeyOf op getValue options convertKeysToString splitKey x).isSome =
      !isSkipped options (splitValue op getValue convertKeysToString splitKey x) := by
  rw [splitKeyOf]
  split_ifs with h
  · rw [h]
    rfl
  · simp [h]

theorem path_isSome_eq : (path (splitKeys.map (splitKeyOf op getValue options convertKeysToString))
    x).isSome = isKept op getValue options convertKeysToString splitKeys x := by
  rw [Bool.eq_iff_iff, path_isSome_iff, isKept, List.all_eq_true, List.forall_mem_map]
  exact forall₂_congr fun splitKey _ => by rw [splitKeyOf_isSome]

theorem path_eq_path_iff (hx : isKept op getValue options convertKeysToString splitKeys x)
    (hy : isKept op getValue options convertKeysToString splitKeys y) :
    path (splitKeys.map (splitKeyOf op getValue options convertKeysToString)) x =
      path (splitKeys.map (splitKeyOf op getValue options convertKeysToString)) y ↔
    ∀ splitKey ∈ splitKeys, splitValue op getValue convertKeysToString splitKey x =
      splitValue op getValue convertKeysToString splitKey y := by
  rw [path_eq_iff (by rwa [path_isSome_eq]), List.forall_mem_map]
  refine forall₂_congr fun splitKey hmem => ?_
  have hvalues : ∀ item, isKept op getValue options convertKeysToString splitKeys item →
      splitKeyOf op getValue options convertKeysToString splitKey item =
        some (splitValue op getValue convertKeysToString splitKey item) := by
    intro item hkept
    have hnot := List.all_eq_true.mp hkept splitKey hmem
    rw [splitKeyOf, if_neg (by simpa using hnot)]
  rw [hvalues x hx, hvalues y hy, Option.some.injEq]

/-- Separate items hold every item that is not skipped in the group of its split values. -/
theorem groupsExactly (items : List Properties)
    (houtput : options.outputFormat ≠ some .singleItem) :
    GroupsExactly op getValue options convertKeysToString splitKeys (withIndices items)
      (flattenAggregationResultToArray (aggregateAndSplitData op inherited getValue
        fieldsToSummarize options convertKeysToString splitKeys (withIndices items))) := by
  have hgroups := isGrouping_nestedGroups
    (splitKeys.map (splitKeyOf op getValue options convertKeysToString)) (withIndices items)
  have hpaired := @pairedItems_eq op inherited getValue fieldsToSummarize options
    convertKeysToString splitKeys (withIndices items)
  simp only [aggregateData, if_neg houtput] at hpaired
  generalize flattenAggregationResultToArray _ = results at hpaired ⊢
  generalize nestedGroups (splitKeys.map (splitKeyOf op getValue options convertKeysToString))
    (withIndices items) = groups at hgroups hpaired
  have hresult : ∀ r ∈ results, ∃ group ∈ groups,
      some (group.map fun item => item.get inherited "_itemIndex") = r.pairedItems := fun r hr =>
    List.mem_map.mp (hpaired ▸ List.mem_map_of_mem hr)
  refine ⟨?_, fun i j x y hi hj hx hy => ?_, fun r hr => ?_⟩
  · have hflat : (results.flatMap fun r => r.pairedItems.getD []) =
        groups.flatten.map fun item => item.get inherited "_itemIndex" := by
      rw [← List.flatMap_map AggregationResult.pairedItems (fun o => o.getD []), hpaired,
        List.flatMap_map, List.map_flatten, ← List.flatMap_def]
      rfl
    have hindices : ((withIndices items).zipIdx.filter fun (item, _) =>
          isKept op getValue options convertKeysToString splitKeys item).map
            (fun (_, index) => (.number index : Value)) =
        ((withIndices items).filter fun item => (path (splitKeys.map
          (splitKeyOf op getValue options convertKeysToString)) item).isSome).map
            fun item => item.get inherited "_itemIndex" := by
      conv_rhs => rw [← List.zipIdx_map_fst 0 (withIndices items), List.filter_map, List.map_map]
      have hpath : ∀ entry : Properties × ℕ, ((fun item => (path (splitKeys.map
          (splitKeyOf op getValue options convertKeysToString)) item).isSome) ∘ Prod.fst) entry =
            isKept op getValue options convertKeysToString splitKeys entry.1 :=
        fun entry => path_isSome_eq
      rw [List.filter_congr fun entry _ => hpath entry]
      refine List.map_congr_left fun entry hentry => ?_
      have hmem := List.mem_zipIdx_iff_getElem?.mp (List.mem_of_mem_filter hentry)
      exact (get_of_getElem? hmem).symm
    rw [hflat, hindices]
    exact hgroups.flatten_perm.map _
  · rw [← path_eq_path_iff hx hy, ← hgroups.together_iff (List.mem_of_getElem? hi)
      (List.mem_of_getElem? hj) (by rwa [path_isSome_eq])]
    constructor
    · rintro ⟨r, hr, indices, hindices, hmemi, hmemj⟩
      obtain ⟨group, hgroup, heq⟩ := hresult r hr
      obtain rfl := Option.some.inj (heq.trans hindices)
      have hsub := hgroups.sublist hgroup
      exact ⟨group, hgroup, (number_mem_iff hsub hi).mp hmemi, (number_mem_iff hsub hj).mp hmemj⟩
    · rintro ⟨group, hgroup, hmemi, hmemj⟩
      have hsub := hgroups.sublist hgroup
      obtain ⟨r, hr, heq⟩ := List.mem_map.mp (hpaired ▸ List.mem_map_of_mem hgroup)
      exact ⟨r, hr, _, heq, (number_mem_iff hsub hi).mpr hmemi, (number_mem_iff hsub hj).mpr hmemj⟩
  · obtain ⟨group, hgroup, heq⟩ := hresult r hr
    obtain ⟨indices, hindices, hincreasing⟩ :=
      @exists_indices inherited items group (hgroups.sublist hgroup)
    exact ⟨indices, by rw [← heq, hindices], hincreasing⟩

end SeparateItems

section Example

/-- Sums of numbers and comparisons within a type. Objects do not occur. -/
def plain : Operators where
  stringify _ := ""
  numberToString n := toString n
  objectToString _ := "[object Object]"
  functionToString _ := ""
  add
    | .number m, .number n => .number (m + n)
    | v, _ => v
  divide
    | .number m, n => .number (m / n)
    | v, _ => v
  lt
    | .number m, .number n => m < n
    | .string s, .string t => s < t
    | _, _ => false

def ownValue (item : Properties) (field : String) : Value := item.get (fun _ => .undefined) field

def itemOf (value : Value) : Properties := ⟨[("group", value)], by simp⟩

def countGroup : Aggregation := ⟨.count, "group", false, none, none⟩

/-- A field without dot notation, three items and two groups. -/
theorem letters_groupsExactly : some OutputFormat.separateItems ≠ some .singleItem ∧
    GroupsExactly plain ownValue ⟨some .separateItems, true⟩ false ["group"]
      (withIndices [itemOf (.string "a"), itemOf (.string "b"), itemOf (.string "a")])
      (flattenAggregationResultToArray (aggregateAndSplitData plain (fun _ => .undefined) ownValue
        [countGroup] ⟨some .separateItems, true⟩ false ["group"]
        (withIndices [itemOf (.string "a"), itemOf (.string "b"), itemOf (.string "a")]))) :=
  ⟨by decide, groupsExactly _ (by decide)⟩

end Example

end N8n.Summarize
