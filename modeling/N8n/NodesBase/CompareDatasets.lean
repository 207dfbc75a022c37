import N8n.NodeParameters.FromAI
import N8n.NodesBase.FuzzyCompare
import N8n.NodesBase.Merge

/-!
# Items that are the same in two datasets

The node matches the items of two inputs, and each pair of matched items goes to the output of those
that are the same or of those that are different. The model has the dot notation disabled, and all
ways to resolve differences but the mix, which changes the items of the input.
-/

namespace N8n.CompareDatasets
open N8n.JsonValues N8n.NodesBase N8n.KeyedJoins
open N8n.Merge (PairToMatch MultipleMatches EntryMatches Fields assign)

structure IPairedItemData where
  item : ℕ
  input : Option ℕ
  deriving DecidableEq, Repr

/-- `pairedItem` is what `preparePairedItemDataArray` makes of it. -/
structure INodeExecutionData where
  json : Properties
  pairedItem : List IPairedItemData

inductive Resolve where
  | preferInput1
  | preferInput2
  | includeBoth
  deriving DecidableEq, Repr

structure CompareOptions where
  fuzzyCompare : Bool
  nodeVersion : ℚ
  multipleMatches : MultipleMatches
  skipFields : String
  resolve : Resolve
  deriving DecidableEq

/-- `skipped` is there if it is not empty. -/
structure Compared where
  keys : Properties
  same : Properties
  different : Properties
  skipped : Option Properties
  pairedItem : List IPairedItemData

inductive Different where
  | entry (item : INodeExecutionData)
  | compared (item : Compared)

structure FilteredData where
  matched : List (EntryMatches INodeExecutionData)
  unmatched1 : List INodeExecutionData
  unmatched2 : List INodeExecutionData

structure Outputs where
  unmatched1 : List INodeExecutionData
  same : List INodeExecutionData
  different : List Different
  unmatched2 : List INodeExecutionData

/-- What is no list of names gives one name, the empty one. -/
def splitFields (fields : String) : List String :=
  (fields.toList.splitOn ',').map fun field => String.ofList (FromAI.trim field)

variable (c : Comparing) (inherited : String → Value)

/-- A property of the JSON of an item. -/
def INodeExecutionData.valueOf (item : INodeExecutionData) (key : String) : Value :=
  item.json.get inherited key

section
variable (options : CompareOptions)

def isEntriesEqual (value1 value2 : Value) : Bool :=
  c.fuzzyCompare options.fuzzyCompare options.nodeVersion value1 value2

def processNullishValue (version : ℚ) (value : Value) : Value :=
  if version ≥ 2 then if value.isUndefined then .null else value
  else if value.truthy then value else .null

def bothInputs (input1 input2 : Value) : Value :=
  if options.nodeVersion ≥ 2 then .object [("inputA", input1), ("inputB", input2)]
  else .object [("input1", input1), ("input2", input2)]

/-- `different` and `skipped` with one of the keys of which the values differ. -/
def listDifference (skipFields : List String) (item1 item2 : INodeExecutionData)
    (different skipped : Properties) (key : String) : Properties × Properties :=
  let input1 := processNullishValue options.nodeVersion (item1.valueOf inherited key)
  let input2 := processNullishValue options.nodeVersion (item2.valueOf inherited key)
  match options.resolve with
  | .preferInput1 => (assign different key input1, skipped)
  | .preferInput2 => (assign different key input2, skipped)
  | .includeBoth =>
    if key ∈ skipFields then (different, assign skipped key (bothInputs options input1 input2))
    else (assign different key (bothInputs options input1 input2), skipped)

def compareItems (item1 item2 : INodeExecutionData) (fieldsToMatch : List PairToMatch)
    (skipFields : List String) : Compared :=
  let keys := fieldsToMatch.foldl
    (fun keys field => assign keys field.field1 (item1.valueOf inherited field.field1)) .empty
  let keys1 := item1.json.keys
  let keys2 := item2.json.keys
  let allUniqueKeys := keys1 ++ keys2.filter fun key => key ∉ keys1
  let keysToCompare :=
    if options.fuzzyCompare ∧ options.nodeVersion ≥ 2.1 then allUniqueKeys
    else keys1.filter fun key => key ∈ keys2
  let same := keysToCompare.foldl (fun acc key =>
    if isEntriesEqual c options (item1.valueOf inherited key) (item2.valueOf inherited key) then
      assign acc key (item1.valueOf inherited key)
    else acc) .empty
  let differentKeys := allUniqueKeys.filter fun key => key ∉ same.keys
  let (different, skipped) := differentKeys.foldl (fun (different, skipped) key =>
    listDifference inherited options skipFields item1 item2 different skipped key) (.empty, .empty)
  { keys, same, different
    skipped := if skipped.size = 0 then none else some skipped
    pairedItem := item1.pairedItem ++ item2.pairedItem }

/-- The fields as the search for matches reads them. It takes no paths here. -/
def fields : Fields INodeExecutionData Value where
  property := INodeExecutionData.valueOf inherited
  get := INodeExecutionData.valueOf inherited
  isUndefined := Value.isUndefined
  fuzzyCompare useFuzzyCompare := c.fuzzyCompare useFuzzyCompare options.nodeVersion

/-- `matchesLoop`, which is the one of the merge for the output of the first input alone. -/
def filterData (fieldsToMatch : List PairToMatch) (input1 input2 : List INodeExecutionData) :
    FilteredData :=
  let filteredData := Merge.findMatches (fields c inherited options) fieldsToMatch
    ⟨.keepMatches, .input1, options.multipleMatches, true, options.fuzzyCompare⟩ input1 input2
  ⟨filteredData.matched, filteredData.unmatched1, filteredData.unmatched2⟩

def omitFields (json : Properties) (skipFields : List String) : Properties :=
  json.filter fun key _ => key ∉ skipFields

def isItemsEqual (skipFields : List String) (entry match_ : INodeExecutionData) : Bool :=
  let entryFromInput1 := omitFields entry.json skipFields
  let entryFromInput2 := omitFields match_.json skipFields
  if options.fuzzyCompare then
    entryFromInput1.keys.all fun key =>
      isEntriesEqual c options (entryFromInput1.get inherited key)
        (entryFromInput2.get inherited key)
  else isEntriesEqual c options (.object entryFromInput1.entries) (.object entryFromInput2.entries)

/-- One match of an item: the item is copied once, or a difference is added. -/
def compareMatch (fieldsToMatch : List PairToMatch) (skipFields : List String)
    (entry : INodeExecutionData) (entryCopy : Option INodeExecutionData)
    (different : List Different) (match_ : INodeExecutionData) :
    Option INodeExecutionData × List Different :=
  if isItemsEqual c inherited options skipFields entry match_ then
    match entryCopy with
    | some entryCopy => (some entryCopy, different)
    | none =>
      if options.fuzzyCompare ∧ options.resolve = .preferInput2 then (some match_, different)
      else (some entry, different)
  else
    match options.resolve with
    | .preferInput1 => (entryCopy, different ++ [.entry entry])
    | .preferInput2 => (entryCopy, different ++ [.entry match_])
    | .includeBoth => (entryCopy, different ++
        [.compared (compareItems c inherited options entry match_ fieldsToMatch skipFields)])

def compareMatches (fieldsToMatch : List PairToMatch) (skipFields : List String)
    (same : List INodeExecutionData) (different : List Different)
    (entryMatches : EntryMatches INodeExecutionData) :
    List INodeExecutionData × List Different :=
  let (entryCopy, different) := entryMatches.matches_.foldl (fun (entryCopy, different) match_ =>
    compareMatch c inherited options fieldsToMatch skipFields entryMatches.entry entryCopy different
      match_) (none, different)
  -- an item is never empty
  (same ++ entryCopy.toList, different)

def findMatches (input1 input2 : List INodeExecutionData) (fieldsToMatch : List PairToMatch) :
    Except String Outputs :=
  let skipFields := splitFields options.skipFields
  match skipFields.find? fun field => '.' ∈ field.toList with
  | some fieldToSkip => .error ("Dot notation is disabled, but field to skip comparing '" ++
      fieldToSkip ++ "' contains dot")
  | none =>
    let filteredData := filterData c inherited options fieldsToMatch input1 input2
    let (same, different) := filteredData.matched.foldl (fun (same, different) entryMatches =>
      compareMatches c inherited options fieldsToMatch skipFields same different entryMatches)
      ([], [])
    .ok ⟨filteredData.unmatched1, same, different, filteredData.unmatched2⟩

end

/-! ### Either order of two items -/

/-- The calls with fuzzy comparison that resolve differences as the node does by default. -/
def fuzzyOptions (nodeVersion : ℚ) (multipleMatches : MultipleMatches) : CompareOptions :=
  { fuzzyCompare := true, nodeVersion, multipleMatches, skipFields := "", resolve := .includeBoth }

@[simp] theorem fuzzyOptions_fuzzyCompare (nodeVersion : ℚ) (multipleMatches : MultipleMatches) :
    (fuzzyOptions nodeVersion multipleMatches).fuzzyCompare = true := rfl

@[simp] theorem fuzzyOptions_resolve (nodeVersion : ℚ) (multipleMatches : MultipleMatches) :
    (fuzzyOptions nodeVersion multipleMatches).resolve = .includeBoth := rfl

def samePairs (names : List String) : List PairToMatch := names.map fun name => ⟨name, name⟩

section
variable (options : CompareOptions) (names : List String) (a b : INodeExecutionData)

/-- The values of two items under one key compare as equal. -/
def EqualAt (key : String) : Prop :=
  isEntriesEqual c options (a.valueOf inherited key) (b.valueOf inherited key) = true

/-- The first item has all fields to match, and each compares as equal. -/
def Matches : Prop :=
  ∀ name ∈ names, (a.valueOf inherited name).isUndefined = false ∧
    EqualAt c inherited options a b name

/-- The pair is in the list `same` when the items come in this order. -/
def InSame : Prop :=
  ∃ outputs, findMatches c inherited options [a] [b] (samePairs names) = .ok outputs ∧
    outputs.same ≠ []

def AllKeysEqual : Prop :=
  ∀ key ∈ a.json.keys ++ b.json.keys, EqualAt c inherited options a b key

instance (key : String) : Decidable (EqualAt c inherited options a b key) :=
  inferInstanceAs (Decidable (_ = true))

instance : Decidable (Matches c inherited options names a b) :=
  inferInstanceAs (Decidable (∀ name ∈ names, _ ∧ _))

instance : Decidable (AllKeysEqual c inherited options a b) :=
  inferInstanceAs (Decidable (∀ key ∈ a.json.keys ++ b.json.keys, _))

/-- A key of the first item shows a difference. The empty key is a field to skip if none is. -/
def ShowsDifference : Prop :=
  ∃ key ∈ a.json.keys, key ≠ "" ∧ ¬ EqualAt c inherited options a b key

end

section Order
variable {c inherited} {names : List String} {a b : INodeExecutionData} {nodeVersion : ℚ}
  {multipleMatches : MultipleMatches}

theorem splitFields_empty : splitFields "" = [""] := by decide

theorem mem_comparedPairs_samePairs {pair : PairToMatch} :
    pair ∈ Merge.comparedPairs (samePairs names) ↔
      ∃ name ∈ names, name ≠ "__proto__" ∧ (⟨name, name⟩ : PairToMatch) = pair := by
  rw [Merge.comparedPairs, mem_lasting_iff_of_inj]
  · simp only [samePairs, List.mem_filter, List.mem_map, decide_eq_true_eq]
    constructor
    · rintro ⟨⟨name, hname, rfl⟩, hproto⟩
      exact ⟨name, hname, hproto, rfl⟩
    · rintro ⟨name, hname, hproto, rfl⟩
      exact ⟨⟨name, hname, rfl⟩, hproto⟩
  · intro e he e' he' heq
    obtain ⟨name, -, rfl⟩ := List.mem_map.mp (List.mem_filter.mp he).1
    obtain ⟨name', -, rfl⟩ := List.mem_map.mp (List.mem_filter.mp he').1
    exact congrArg (fun name => (⟨name, name⟩ : PairToMatch)) heq

theorem get?_omitFields {json : Properties} {skipFields : List String} {key : String}
    (h : key ∉ skipFields) : (omitFields json skipFields).get? key = json.get? key := by
  cases hget : json.get? key with
  | none =>
    rw [OrderedMap.get?_eq_none] at hget ⊢
    intro hmem
    obtain ⟨value, hvalue⟩ := OrderedMap.exists_get?_of_mem_keys hmem
    exact hget (OrderedMap.mem_keys_of_get? (OrderedMap.get?_filter_of_some hvalue).1)
  | some value => exact OrderedMap.get?_filter_iff.mpr ⟨hget, decide_eq_true h⟩

theorem mem_keys_omitFields {json : Properties} {skipFields : List String} {key : String} :
    key ∈ (omitFields json skipFields).keys ↔ key ∈ json.keys ∧ key ∉ skipFields := by
  constructor
  · intro hmem
    obtain ⟨value, hvalue⟩ := OrderedMap.exists_get?_of_mem_keys hmem
    obtain ⟨hget, hkey⟩ := OrderedMap.get?_filter_of_some hvalue
    exact ⟨OrderedMap.mem_keys_of_get? hget, of_decide_eq_true hkey⟩
  · rintro ⟨hmem, hkey⟩
    obtain ⟨value, hvalue⟩ := OrderedMap.exists_get?_of_mem_keys hmem
    rw [← get?_omitFields hkey] at hvalue
    exact OrderedMap.mem_keys_of_get? hvalue

/-- The test of two items looks at the keys of the first only. -/
theorem isItemsEqual_iff : isItemsEqual c inherited (fuzzyOptions nodeVersion multipleMatches)
      [""] a b = true ↔
    ¬ ShowsDifference c inherited (fuzzyOptions nodeVersion multipleMatches) a b := by
  have hget : ∀ (json : Properties) (key : String), key ∉ [""] →
      (omitFields json [""]).get inherited key = json.get inherited key := by
    intro json key hkey
    rw [Properties.get, Properties.get, get?_omitFields hkey]
  simp only [isItemsEqual, fuzzyOptions, if_true, List.all_eq_true, mem_keys_omitFields,
    ShowsDifference, not_exists, not_and, not_not, and_imp]
  refine forall₂_congr fun key _ => ?_
  rw [List.mem_singleton]
  refine forall_congr' fun hkey => ?_
  rw [hget a.json key (by simpa using hkey), hget b.json key (by simpa using hkey)]
  rfl

/-- The fields to match that the lookup object can hold. -/
theorem agreeOnAll_samePairs_iff {options : CompareOptions} {matchOptions : Merge.MatchFieldsOptions}
    (hfuzzy : matchOptions.fuzzyCompare = options.fuzzyCompare) :
    Merge.AgreeOnAll (fields c inherited options) (Merge.comparedPairs (samePairs names))
      matchOptions a b = true ↔
    ∀ name ∈ names, name ≠ "__proto__" → (a.valueOf inherited name).isUndefined = false ∧
      EqualAt c inherited options a b name := by
  have hvalue : ∀ (dots : Bool) (item : INodeExecutionData) (name : String),
      (fields c inherited options).valueOf dots item name = item.valueOf inherited name := by
    intro dots item name
    cases dots <;> rfl
  have hagree : ∀ name, Merge.Agree (fields c inherited options) matchOptions a b ⟨name, name⟩ =
      true ↔ (a.valueOf inherited name).isUndefined = false ∧
        EqualAt c inherited options a b name := by
    intro name
    simp only [Merge.Agree, hvalue, Bool.and_eq_true, Bool.not_eq_true', hfuzzy]
    rfl
  rw [Merge.AgreeOnAll, List.all_eq_true]
  constructor
  · intro h name hname hproto
    exact (hagree name).mp (h _ (mem_comparedPairs_samePairs.mpr ⟨name, hname, hproto, rfl⟩))
  · intro h pair hpair
    obtain ⟨name, hname, hproto, rfl⟩ := mem_comparedPairs_samePairs.mp hpair
    exact (hagree name).mpr (h name hname hproto)

theorem inSame_iff :
    InSame c inherited (fuzzyOptions nodeVersion multipleMatches) names a b ↔
      (∀ name ∈ names, name ≠ "__proto__" → (a.valueOf inherited name).isUndefined = false ∧
        EqualAt c inherited (fuzzyOptions nodeVersion multipleMatches) a b name) ∧
      ¬ ShowsDifference c inherited (fuzzyOptions nodeVersion multipleMatches) a b := by
  have hskip : splitFields (fuzzyOptions nodeVersion multipleMatches).skipFields = [""] :=
    splitFields_empty
  have hdots : [""].find? (fun field : String => '.' ∈ field.toList) = none := by decide
  have hagree := @agreeOnAll_samePairs_iff c inherited names a b
    (fuzzyOptions nodeVersion multipleMatches) ⟨.keepMatches, .input1, multipleMatches, true, true⟩ rfl
  have hmatched : (filterData c inherited (fuzzyOptions nodeVersion multipleMatches)
      (samePairs names) [a] [b]).matched =
      if Merge.AgreeOnAll (fields c inherited (fuzzyOptions nodeVersion multipleMatches))
        (Merge.comparedPairs (samePairs names))
        ⟨.keepMatches, .input1, multipleMatches, true, true⟩ a b then [⟨a, [b]⟩] else [] :=
    Merge.findMatches_matched_singleton a b
  rw [InSame, findMatches, hskip, ← isItemsEqual_iff, ← hagree]
  simp only [hdots, hmatched, Except.ok.injEq, exists_eq_left']
  cases Merge.AgreeOnAll (fields c inherited (fuzzyOptions nodeVersion multipleMatches))
      (Merge.comparedPairs (samePairs names))
      ⟨.keepMatches, .input1, multipleMatches, true, true⟩ a b with
  | false => simp
  | true =>
    cases hequal : isItemsEqual c inherited (fuzzyOptions nodeVersion multipleMatches) [""] a b with
    | false => simp [compareMatches, compareMatch, hequal]
    | true => simp [compareMatches, compareMatch, hequal]

theorem equalAt_comm (h : c.EqualityLaws) {options : CompareOptions} (key : String) :
    EqualAt c inherited options a b key ↔ EqualAt c inherited options b a key := by
  rw [EqualAt, EqualAt, isEntriesEqual, isEntriesEqual, Comparing.fuzzyCompare_comm h]

/-- Two one-sided verdicts and the two-sided one agree if a difference shows on both sides or on none. -/
theorem verdicts_agree_iff {differs₁ differs₂ equal present : Prop}
    (h : equal → ¬ differs₁ ∧ ¬ differs₂) :
    ((¬ differs₁ ↔ present ∧ ¬ differs₂) ∧ (¬ differs₁ ↔ equal)) ↔
      (differs₁ ∧ (differs₂ ∨ ¬ present)) ∨ (equal ∧ present) := by
  by_cases h₁ : differs₁
  · have hequal : ¬ equal := fun he => (h he).1 h₁
    tauto
  · tauto

/-- The order of two items that match makes no difference, and the pair is in the list `same`
exactly if all keys are equal, when either each item shows a difference of its own or there is
none. For the second item to show that it is not the same it may also lack a field to match. -/
theorem inSame_order_iff (h : c.EqualityLaws)
    (hmatches : Matches c inherited (fuzzyOptions nodeVersion multipleMatches) names a b) :
    ((InSame c inherited (fuzzyOptions nodeVersion multipleMatches) names a b ↔
        InSame c inherited (fuzzyOptions nodeVersion multipleMatches) names b a) ∧
      (InSame c inherited (fuzzyOptions nodeVersion multipleMatches) names a b ↔
        AllKeysEqual c inherited (fuzzyOptions nodeVersion multipleMatches) a b)) ↔
    (ShowsDifference c inherited (fuzzyOptions nodeVersion multipleMatches) a b ∧
        (ShowsDifference c inherited (fuzzyOptions nodeVersion multipleMatches) b a ∨
          ∃ name ∈ names, name ≠ "__proto__" ∧ (b.valueOf inherited name).isUndefined = true)) ∨
      (AllKeysEqual c inherited (fuzzyOptions nodeVersion multipleMatches) a b ∧
        ∀ name ∈ names, name ≠ "__proto__" → (b.valueOf inherited name).isUndefined = false) := by
  have hab : InSame c inherited (fuzzyOptions nodeVersion multipleMatches) names a b ↔
      ¬ ShowsDifference c inherited (fuzzyOptions nodeVersion multipleMatches) a b := by
    rw [inSame_iff]
    exact and_iff_right fun name hname _ => hmatches name hname
  have hba : InSame c inherited (fuzzyOptions nodeVersion multipleMatches) names b a ↔
      (∀ name ∈ names, name ≠ "__proto__" → (b.valueOf inherited name).isUndefined = false) ∧
      ¬ ShowsDifference c inherited (fuzzyOptions nodeVersion multipleMatches) b a := by
    rw [inSame_iff]
    refine and_congr_left fun _ => forall₃_congr fun name hname _ => ?_
    exact and_iff_left ((equalAt_comm h name).mp (hmatches name hname).2)
  have hequal : AllKeysEqual c inherited (fuzzyOptions nodeVersion multipleMatches) a b →
      ¬ ShowsDifference c inherited (fuzzyOptions nodeVersion multipleMatches) a b ∧
      ¬ ShowsDifference c inherited (fuzzyOptions nodeVersion multipleMatches) b a := by
    intro hall
    constructor
    · rintro ⟨key, hkey, -, hdiffers⟩
      exact hdiffers (hall key (List.mem_append_left _ hkey))
    · rintro ⟨key, hkey, -, hdiffers⟩
      exact hdiffers ((equalAt_comm h key).mp (hall key (List.mem_append_right _ hkey)))
  have hlacks : (∃ name ∈ names, name ≠ "__proto__" ∧ (b.valueOf inherited name).isUndefined = true) ↔
      ¬ ∀ name ∈ names, name ≠ "__proto__" → (b.valueOf inherited name).isUndefined = false := by
    simp
  rw [hab, hba, hlacks]
  exact verdicts_agree_iff hequal

end Order

section Example

def onlyId : INodeExecutionData := ⟨⟨[("id", .number 1)], by decide⟩, [⟨0, none⟩]⟩

def idAndPrice : INodeExecutionData :=
  ⟨⟨[("id", .number 1), ("price", .number 5)], by decide⟩, [⟨0, some 1⟩]⟩

/-- The price that only one item has counts when that item comes first. -/
theorem idAndPrice_ordered : ¬ ∀ (c : Comparing) (inherited : String → Value) (names : List String)
    (nodeVersion : ℚ) (multipleMatches : MultipleMatches) (a b : INodeExecutionData),
    c.EqualityLaws → Matches c inherited (fuzzyOptions nodeVersion multipleMatches) names a b →
    (InSame c inherited (fuzzyOptions nodeVersion multipleMatches) names a b ↔
      InSame c inherited (fuzzyOptions nodeVersion multipleMatches) names b a) ∧
    (InSame c inherited (fuzzyOptions nodeVersion multipleMatches) names a b ↔
      AllKeysEqual c inherited (fuzzyOptions nodeVersion multipleMatches) a b) := by
  intro h
  have hmatches : Matches Comparing.plain (fun _ => .undefined) (fuzzyOptions 2 .first) ["id"]
      onlyId idAndPrice := by decide +kernel
  have hsame : InSame Comparing.plain (fun _ => .undefined) (fuzzyOptions 2 .first) ["id"]
      onlyId idAndPrice := by
    refine inSame_iff.mpr ⟨fun name hname _ => hmatches name hname, isItemsEqual_iff.mp ?_⟩
    decide +kernel
  have hequal := (h _ _ _ _ _ _ _ Comparing.plain_equalityLaws hmatches).2.mp hsame
  exact absurd hequal (by decide +kernel)

def idAndNote : INodeExecutionData :=
  ⟨⟨[("id", .number 1), ("note", .null)], by decide⟩, [⟨0, none⟩]⟩

def textId : INodeExecutionData := ⟨⟨[("id", .string "1")], by decide⟩, [⟨0, some 1⟩]⟩

/-- A note that is `null` is equal to none. -/
theorem idAndNote_unordered :
    AllKeysEqual Comparing.plain (fun _ => .undefined) (fuzzyOptions 2 .all) idAndNote textId ∧
    (InSame Comparing.plain (fun _ => .undefined) (fuzzyOptions 2 .all) ["id"] idAndNote textId ↔
      InSame Comparing.plain (fun _ => .undefined) (fuzzyOptions 2 .all) ["id"] textId idAndNote) ∧
    (InSame Comparing.plain (fun _ => .undefined) (fuzzyOptions 2 .all) ["id"] idAndNote textId ↔
      AllKeysEqual Comparing.plain (fun _ => .undefined) (fuzzyOptions 2 .all) idAndNote textId) := by
  have hmatches : Matches Comparing.plain (fun _ => .undefined) (fuzzyOptions 2 .all) ["id"]
      idAndNote textId := by decide +kernel
  have hequal : AllKeysEqual Comparing.plain (fun _ => .undefined) (fuzzyOptions 2 .all)
      idAndNote textId := by decide +kernel
  have hpresent : ∀ name ∈ ["id"], name ≠ "__proto__" →
      (textId.valueOf (fun _ => .undefined) name).isUndefined = false := by decide +kernel
  exact ⟨hequal, (inSame_order_iff Comparing.plain_equalityLaws hmatches).mpr
    (.inr ⟨hequal, hpresent⟩)⟩

end Example

end N8n.CompareDatasets
