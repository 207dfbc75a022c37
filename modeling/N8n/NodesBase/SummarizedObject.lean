import N8n.NodesBase.Summarize

/-!
# The groups in one object

All splits in a single item are an object with the text of each split value as a property, so that
the last of the values with one text replaces those before it. What gets lost is compared with the
list of results.
-/

namespace N8n.Summarize
open N8n.JsonValues N8n.KeyedGroups N8n.KeyedJoins

mutual

def SplitObject.leafCount : SplitObject → ℕ
  | .returnData _ => 1
  | .object properties => leafCounts properties

def leafCounts : List (String × SplitObject) → ℕ
  | [] => 0
  | (_, value) :: rest => value.leafCount + leafCounts rest

end

theorem leafCounts_eq (properties : List (String × SplitObject)) :
    leafCounts properties = (properties.map fun entry => entry.2.leafCount).sum := by
  induction properties with
  | nil => rfl
  | cons entry properties ih => rw [leafCounts, ih, List.map_cons, List.sum_cons]

theorem flattenEntriesToObject_eq (op : Operators) (entries : List (Value × NestedAggregationResult)) :
    flattenEntriesToObject op entries =
      entries.map fun entry => (op.toString entry.1, flattenAggregationResultToObject op entry.2) := by
  induction entries with
  | nil => rfl
  | cons entry entries ih => rw [flattenEntriesToObject, ih, List.map_cons]

variable {op : Operators} {inherited : String → Value} {getValue : Properties → String → Value}
  {fieldsToSummarize : List Aggregation} {options : SummarizeOptions} {convertKeysToString : Bool}

/-- Of the groups with one text, the object keeps the last. -/
theorem leafCount_eq (splitKeys : List String) (inputItems : List Properties) :
    (flattenAggregationResultToObject op (aggregateAndSplitData op inherited getValue
        fieldsToSummarize options convertKeysToString splitKeys inputItems)).leafCount =
      keptCount op.toString (splitKeys.map (splitKeyOf op getValue options convertKeysToString))
        inputItems := by
  induction splitKeys generalizing inputItems with
  | nil => rfl
  | cons splitKey splitKeys ih =>
    rw [aggregateAndSplitData, flattenAggregationResultToObject, SplitObject.leafCount,
      leafCounts_eq, ((entries_fill_perm _ _ _).map _).sum_eq, flattenEntriesToObject_eq,
      groupedItems_eq, List.map_map, List.map_map, lasting_map, List.map_map, List.map_cons,
      keptCount]
    congr 1
    exact List.map_congr_left fun entry _ => ih entry.2

/-- The list has one result for each group. -/
theorem length_eq (splitKeys : List String) (inputItems : List Properties) :
    (flattenAggregationResultToArray (aggregateAndSplitData op inherited getValue
        fieldsToSummarize options convertKeysToString splitKeys inputItems)).length =
      (nestedGroups (splitKeys.map (splitKeyOf op getValue options convertKeysToString))
        inputItems).length := by
  have h := congrArg List.length (@pairedItems_eq op inherited getValue fieldsToSummarize options
    convertKeysToString splitKeys inputItems)
  rwa [List.length_map, List.length_map] at h

/-- The object has all groups exactly if under no split field a group with a result has the text of
one that first occurs later. -/
theorem leafCount_eq_length_iff (splitKeys : List String) (inputItems : List Properties) :
    (flattenAggregationResultToObject op (aggregateAndSplitData op inherited getValue
        fieldsToSummarize options convertKeysToString splitKeys inputItems)).leafCount =
      (flattenAggregationResultToArray (aggregateAndSplitData op inherited getValue
        fieldsToSummarize options convertKeysToString splitKeys inputItems)).length ↔
    ¬ LosesGroup op.toString
      (splitKeys.map (splitKeyOf op getValue options convertKeysToString)) inputItems := by
  rw [leafCount_eq, length_eq, keptCount_eq_iff]

section Example

/-- The number and its text are two groups of the list and one property of the object. -/
theorem numberAndText_overwritten : ¬ ∀ (op : Operators) (inherited : String → Value)
    (getValue : Properties → String → Value) (fieldsToSummarize : List Aggregation)
    (options : SummarizeOptions) (convertKeysToString : Bool) (splitKeys : List String)
    (inputItems : List Properties),
    (flattenAggregationResultToObject op (aggregateAndSplitData op inherited getValue
        fieldsToSummarize options convertKeysToString splitKeys inputItems)).leafCount =
      (flattenAggregationResultToArray (aggregateAndSplitData op inherited getValue
        fieldsToSummarize options convertKeysToString splitKeys inputItems)).length := by
  intro h
  have hcount := h plain (fun _ => .undefined) ownValue [countGroup] ⟨some .singleItem, false⟩ false
    ["group"] (withIndices [itemOf (.number 1), itemOf (.string "1")])
  exact absurd hcount (by decide +kernel)

end Example

/-- With all split values as texts no group is lost. -/
theorem leafCount_eq_length_of_convertKeysToString (splitKeys : List String)
    (inputItems : List Properties) :
    (flattenAggregationResultToObject op (aggregateAndSplitData op inherited getValue
        fieldsToSummarize options true splitKeys inputItems)).leafCount =
      (flattenAggregationResultToArray (aggregateAndSplitData op inherited getValue
        fieldsToSummarize options true splitKeys inputItems)).length := by
  rw [leafCount_eq_length_iff]
  rintro ⟨before, key, after, values, hkeys, a, -, b, -, k, k', hk, hk', hname, hlt, -⟩
  have hkey : key ∈ splitKeys.map (splitKeyOf op getValue options true) := by
    rw [hkeys]
    exact List.mem_append_right _ List.mem_cons_self
  obtain ⟨splitKey, -, rfl⟩ := List.mem_map.mp hkey
  have htext : ∀ (item : Properties) (value : Value),
      splitKeyOf op getValue options true splitKey item = some value →
        ∃ text, value = .string text := by
    intro item value h
    rw [splitKeyOf] at h
    split_ifs at h
    exact ⟨_, (Option.some.inj h).symm⟩
  obtain ⟨text, rfl⟩ := htext a k hk
  obtain ⟨text', rfl⟩ := htext b k' hk'
  have heq : text = text' := hname
  rw [heq] at hlt
  exact lt_irrefl _ hlt

end N8n.Summarize
