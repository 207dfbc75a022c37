import Mathlib.Data.List.Induction
import N8n.Foundations.KeyedJoins
import N8n.Foundations.OrderedSet

/-!
# The items of two inputs that match

The pairs of fields are collected in an object that has the second field as its key, so of the
pairs with one second field only the last is compared. The order in which an object gives its keys
makes no difference. What the values are, how a field is looked up and how two values compare is a
parameter.
-/

namespace N8n.Merge
open N8n.KeyedJoins

structure PairToMatch where
  field1 : String
  field2 : String
  deriving DecidableEq, Repr

inductive MultipleMatches where
  | all
  | first
  deriving DecidableEq, Repr

inductive MatchFieldsOutput where
  | both
  | input1
  | input2
  deriving DecidableEq, Repr

inductive MatchFieldsJoinMode where
  | keepEverything
  | keepMatches
  | keepNonMatches
  | enrichInput2
  | enrichInput1
  deriving DecidableEq, Repr

structure MatchFieldsOptions where
  joinMode : MatchFieldsJoinMode
  outputDataFrom : MatchFieldsOutput
  multipleMatches : MultipleMatches
  disableDotNotation : Bool
  fuzzyCompare : Bool
  deriving DecidableEq, Repr

structure EntryMatches (Item : Type*) where
  entry : Item
  matches_ : List Item
  deriving DecidableEq

structure FilteredData (Item : Type*) where
  matched : List (EntryMatches Item)
  matched2 : List Item
  unmatched1 : List Item
  unmatched2 : List Item
  deriving DecidableEq

/-- Each item of the first input beside each of its matches. -/
def FilteredData.pairs {Item : Type*} (data : FilteredData Item) : List (Item × Item) :=
  data.matched.flatMap fun m => m.matches_.map fun entry => (m.entry, entry)

/-- The properties of items, the paths into them, and the comparison of two values. -/
structure Fields (Item Value : Type*) where
  property : Item → String → Value
  get : Item → String → Value
  isUndefined : Value → Bool
  fuzzyCompare : Bool → Value → Value → Bool

variable {Item Value : Type*} (fields : Fields Item Value)

def Fields.valueOf (disableDotNotation : Bool) (entry : Item) (field : String) : Value :=
  if disableDotNotation then fields.property entry field else fields.get entry field

abbrev Lookup (Value : Type*) := OrderedMap String Value

/-- An assignment to a property. That of `__proto__` makes no property. -/
def assign (lookup : Lookup Value) (key : String) (value : Value) : Lookup Value :=
  if key = "__proto__" then lookup else lookup.set key value

section
variable (disableDotNotation : Bool) (isEntriesEqual : Value → Value → Bool)

def lookupOf (fieldsToMatch : List PairToMatch) (entry1 : Item) : Lookup Value :=
  fieldsToMatch.foldl (fun lookup matchCase =>
    assign lookup matchCase.field2 (fields.valueOf disableDotNotation entry1 matchCase.field1))
    .empty

/-- The loop over the keys of `lookup`. It ends at the first value that differs. -/
def entryMatches (lookup : Lookup Value) (entry2 : Item) : Bool :=
  lookup.entries.all fun (key, expectedValue) =>
    isEntriesEqual expectedValue (fields.valueOf disableDotNotation entry2 key)

def findAllMatches (data : List Item) (lookup : Lookup Value) : List (Item × ℕ) :=
  data.zipIdx.foldl (fun acc (entry2, i) =>
    if entryMatches fields disableDotNotation isEntriesEqual lookup entry2 then acc ++ [(entry2, i)]
    else acc) []

def findFirstMatch (data : List Item) (lookup : Lookup Value) : List (Item × ℕ) :=
  match data.zipIdx.find? fun (entry2, _) =>
    entryMatches fields disableDotNotation isEntriesEqual lookup entry2 with
  | none => []
  | some found => [found]

end

section
variable (fieldsToMatch : List PairToMatch) (options : MatchFieldsOptions)

def MatchFieldsOptions.oneMatchEach : Bool :=
  options.outputDataFrom = .both || options.joinMode = .enrichInput1 ||
    options.joinMode = .enrichInput2

def foundedMatches (data2 : List Item) (lookup : Lookup Value) : List (Item × ℕ) :=
  let isEntriesEqual := fields.fuzzyCompare options.fuzzyCompare
  match options.multipleMatches with
  | .all => findAllMatches fields options.disableDotNotation isEntriesEqual data2 lookup
  | .first => findFirstMatch fields options.disableDotNotation isEntriesEqual data2 lookup

/-- One turn of `matchesLoop`. -/
def matchEntry (data2 : List Item) (filteredData : FilteredData Item)
    (matchedInInput2 : OrderedSet ℕ) (entry1 : Item) : FilteredData Item × OrderedSet ℕ :=
  let lookup := lookupOf fields options.disableDotNotation fieldsToMatch entry1
  if lookup.values.any fields.isUndefined then
    ({ filteredData with unmatched1 := filteredData.unmatched1 ++ [entry1] }, matchedInInput2)
  else
    let found := foundedMatches fields options data2 lookup
    let matches_ := found.map Prod.fst
    let matchedInInput2 := matchedInInput2.insertAll (found.map Prod.snd)
    if matches_.length ≠ 0 then
      if options.oneMatchEach then
        ({ filteredData with
          matched := filteredData.matched ++ matches_.map fun entry => ⟨entry1, [entry]⟩ },
          matchedInInput2)
      else
        ({ filteredData with matched := filteredData.matched ++ [⟨entry1, matches_⟩] },
          matchedInInput2)
    else ({ filteredData with unmatched1 := filteredData.unmatched1 ++ [entry1] }, matchedInInput2)

def matchesLoop (data1 data2 : List Item) : FilteredData Item × OrderedSet ℕ :=
  data1.foldl (fun (filteredData, matchedInInput2) entry1 =>
    matchEntry fields fieldsToMatch options data2 filteredData matchedInInput2 entry1)
    (⟨[], [], [], []⟩, .empty)

def findMatches (input1 input2 : List Item) : FilteredData Item :=
  let (filteredData, matchedInInput2) := matchesLoop fields fieldsToMatch options input1 input2
  input2.zipIdx.foldl (fun filteredData (entry, i) =>
    if i ∈ matchedInInput2 then
      { filteredData with matched2 := filteredData.matched2 ++ [entry] }
    else { filteredData with unmatched2 := filteredData.unmatched2 ++ [entry] }) filteredData

/-! ### Items that agree -/

/-- The field of the first item is defined and compares as equal to that of the second. -/
def Agree (entry1 entry2 : Item) (pair : PairToMatch) : Bool :=
  let value1 := fields.valueOf options.disableDotNotation entry1 pair.field1
  !fields.isUndefined value1 && fields.fuzzyCompare options.fuzzyCompare value1
    (fields.valueOf options.disableDotNotation entry2 pair.field2)

def AgreeOnAll (entry1 entry2 : Item) : Bool :=
  fieldsToMatch.all (Agree fields options entry1 entry2)

/-- The pairs that are compared: for every second field the last one. -/
def comparedPairs : List PairToMatch :=
  lasting (·.field2) (fieldsToMatch.filter fun pair => pair.field2 ≠ "__proto__")

section Proofs
variable {fields fieldsToMatch options}

theorem lookupOf_eq_fill (disableDotNotation : Bool) (entry1 : Item) :
    lookupOf fields disableDotNotation fieldsToMatch entry1 =
      fill (·.field2) (fun pair => fields.valueOf disableDotNotation entry1 pair.field1) .empty
        (fieldsToMatch.filter fun pair => pair.field2 ≠ "__proto__") := by
  rw [lookupOf, fill, List.foldl_filter]
  congr 1
  funext lookup pair
  by_cases h : pair.field2 = "__proto__" <;> simp [assign, h]

/-- What the lookup object lets through: an item of which every compared pair agrees. -/
theorem agreeOn_comparedPairs_iff {entry1 entry2 : Item} :
    AgreeOnAll fields (comparedPairs fieldsToMatch) options entry1 entry2 = true ↔
      (∀ entry ∈ (lookupOf fields options.disableDotNotation fieldsToMatch entry1).entries,
        fields.isUndefined entry.2 = false) ∧
      entryMatches fields options.disableDotNotation (fields.fuzzyCompare options.fuzzyCompare)
        (lookupOf fields options.disableDotNotation fieldsToMatch entry1) entry2 = true := by
  rw [entryMatches, List.all_eq_true, ← forall₂_and, lookupOf_eq_fill,
    forall_entries_fill (P := fun entry => fields.isUndefined entry.2 = false ∧
      fields.fuzzyCompare options.fuzzyCompare entry.2
        (fields.valueOf options.disableDotNotation entry2 entry.1) = true)]
  simp [AgreeOnAll, Agree, comparedPairs]

theorem findAllMatches_eq_filter (disableDotNotation : Bool)
    (isEntriesEqual : Value → Value → Bool) (data : List Item)
    (lookup : Lookup Value) :
    findAllMatches fields disableDotNotation isEntriesEqual data lookup =
      data.zipIdx.filter fun found =>
        entryMatches fields disableDotNotation isEntriesEqual lookup found.1 := by
  have hfold : ∀ (entries acc : List (Item × ℕ)), entries.foldl (fun acc found =>
      if entryMatches fields disableDotNotation isEntriesEqual lookup found.1 then
        acc ++ [(found.1, found.2)] else acc) acc = acc ++ entries.filter fun found =>
        entryMatches fields disableDotNotation isEntriesEqual lookup found.1 := by
    intro entries
    induction entries with
    | nil => intro acc; simp
    | cons found entries ih =>
      intro acc
      rw [List.foldl_cons, ih]
      split <;> simp_all
  exact hfold data.zipIdx []

/-- What has been collected from the items `done` of the first input. -/
structure Collected (agree : Item → Item → Bool) (data2 done : List Item)
    (filteredData : FilteredData Item) (matchedInInput2 : OrderedSet ℕ) : Prop where
  pairs : filteredData.pairs = joined agree done data2
  unmatched1 : filteredData.unmatched1 = done.filter fun entry1 => !data2.any (agree entry1)
  matched2 : filteredData.matched2 = []
  unmatched2 : filteredData.unmatched2 = []
  indices : ∀ (i : ℕ), i ∈ matchedInInput2 ↔
    ∃ entry2, data2[i]? = some entry2 ∧ (done.any fun entry1 => agree entry1 entry2) = true

theorem map_fst_found (p : Item → Bool) (data : List Item) :
    (data.zipIdx.filter fun found => p found.1).map Prod.fst = data.filter p := by
  conv_rhs => rw [← List.zipIdx_map_fst 0 data]
  exact (List.filter_map).symm

theorem mem_map_snd_found (p : Item → Bool) (data : List Item) (i : ℕ) :
    i ∈ (data.zipIdx.filter fun found => p found.1).map Prod.snd ↔
      ∃ entry2, data[i]? = some entry2 ∧ p entry2 = true := by
  simp [List.mem_zipIdx_iff_getElem?]

/-- An item without a match goes to `unmatched1`. -/
theorem Collected.unmatched {agree : Item → Item → Bool} {data2 done : List Item}
    {filteredData : FilteredData Item} {matchedInInput2 : OrderedSet ℕ}
    (h : Collected agree data2 done filteredData matchedInInput2) {entry1 : Item}
    (hnone : ∀ entry2 ∈ data2, agree entry1 entry2 = false) :
    Collected agree data2 (done ++ [entry1])
      { filteredData with unmatched1 := filteredData.unmatched1 ++ [entry1] } matchedInInput2 := by
  have hrow : data2.filter (agree entry1) = [] := by
    rw [List.filter_eq_nil_iff]
    intro entry2 hmem
    simp [hnone entry2 hmem]
  have hany : data2.any (agree entry1) = false := by
    rw [List.any_eq_false]
    intro entry2 hmem
    simp [hnone entry2 hmem]
  refine ⟨?_, ?_, h.matched2, h.unmatched2, ?_⟩
  · rw [joined_concat, hrow]
    simpa [FilteredData.pairs] using h.pairs
  · rw [List.filter_append, h.unmatched1]
    simp [hany]
  · intro i
    rw [h.indices]
    refine exists_congr fun entry2 => and_congr_right fun hentry => ?_
    have hmem := List.mem_of_getElem? hentry
    simp [hnone entry2 hmem]

/-- An item with matches is paired with each of them. -/
theorem Collected.matched {agree : Item → Item → Bool} {data2 done : List Item}
    {filteredData : FilteredData Item} {matchedInInput2 : OrderedSet ℕ}
    (h : Collected agree data2 done filteredData matchedInInput2) {entry1 : Item}
    {entries : List (EntryMatches Item)} {indices : List ℕ}
    (hsome : data2.any (agree entry1) = true)
    (hentries : (entries.flatMap fun m => m.matches_.map fun entry => (m.entry, entry)) =
      (data2.filter (agree entry1)).map fun entry2 => (entry1, entry2))
    (hindices : ∀ (i : ℕ), i ∈ indices ↔
      ∃ entry2, data2[i]? = some entry2 ∧ agree entry1 entry2 = true) :
    Collected agree data2 (done ++ [entry1])
      { filteredData with matched := filteredData.matched ++ entries }
      (matchedInInput2.insertAll indices) := by
  refine ⟨?_, ?_, h.matched2, h.unmatched2, ?_⟩
  · rw [joined_concat, ← hentries, ← h.pairs]
    simp [FilteredData.pairs]
  · rw [List.filter_append, ← h.unmatched1]
    simp [hsome]
  · intro i
    rw [OrderedSet.mem_insertAll, h.indices, hindices, ← exists_or]
    refine exists_congr fun entry2 => ?_
    simp only [List.any_append, List.any_cons, List.any_nil, Bool.or_false, Bool.or_eq_true]
    tauto

/-- With an `undefined` value among those that are compared no item agrees. -/
theorem not_agree_of_isUndefined {entry1 : Item}
    (h : (lookupOf fields options.disableDotNotation fieldsToMatch entry1).values.any
      fields.isUndefined = true) (entry2 : Item) :
    AgreeOnAll fields (comparedPairs fieldsToMatch) options entry1 entry2 = false := by
  rw [Bool.eq_false_iff]
  intro hagree
  obtain ⟨value, hvalue, hundefined⟩ := List.any_eq_true.mp h
  obtain ⟨entry, hentry, rfl⟩ := List.mem_map.mp hvalue
  rw [(agreeOn_comparedPairs_iff.mp hagree).1 entry hentry] at hundefined
  cases hundefined

theorem entryMatches_eq_agree {entry1 : Item}
    (h : ¬ (lookupOf fields options.disableDotNotation fieldsToMatch entry1).values.any
      fields.isUndefined = true) (entry2 : Item) :
    entryMatches fields options.disableDotNotation (fields.fuzzyCompare options.fuzzyCompare)
        (lookupOf fields options.disableDotNotation fieldsToMatch entry1) entry2 =
      AgreeOnAll fields (comparedPairs fieldsToMatch) options entry1 entry2 := by
  rw [Bool.eq_iff_iff, agreeOn_comparedPairs_iff, iff_and_self]
  intro _ entry hentry
  rw [Bool.eq_false_iff]
  intro hundefined
  exact h (List.any_eq_true.mpr ⟨entry.2, List.mem_map_of_mem hentry, hundefined⟩)

theorem Collected.matchEntry {data2 done : List Item} {filteredData : FilteredData Item}
    {matchedInInput2 : OrderedSet ℕ} (hall : options.multipleMatches = .all)
    (h : Collected (AgreeOnAll fields (comparedPairs fieldsToMatch) options) data2 done filteredData
      matchedInInput2) (entry1 : Item) :
    Collected (AgreeOnAll fields (comparedPairs fieldsToMatch) options) data2 (done ++ [entry1])
      (matchEntry fields fieldsToMatch options data2 filteredData matchedInInput2 entry1).1
      (matchEntry fields fieldsToMatch options data2 filteredData matchedInInput2 entry1).2 := by
  rw [Merge.matchEntry]
  dsimp only
  split
  next hnone =>
    exact h.unmatched fun entry2 _ => not_agree_of_isUndefined hnone entry2
  next hdefined =>
    have hrow := entryMatches_eq_agree hdefined
    rw [foundedMatches, hall]
    simp only [findAllMatches_eq_filter, hrow, map_fst_found]
    have hindices := mem_map_snd_found
      (AgreeOnAll fields (comparedPairs fieldsToMatch) options entry1) data2
    split
    next hlength =>
      have hsome : data2.any (AgreeOnAll fields (comparedPairs fieldsToMatch) options entry1) =
          true := by
        obtain ⟨entry2, hmem⟩ := List.exists_mem_of_length_pos (Nat.pos_of_ne_zero hlength)
        obtain ⟨hmem, hagree⟩ := List.mem_filter.mp hmem
        exact List.any_eq_true.mpr ⟨entry2, hmem, hagree⟩
      split
      · refine h.matched hsome ?_ hindices
        rw [List.flatMap_map]
        exact List.map_eq_flatMap.symm
      · exact h.matched hsome (by simp) hindices
    next hlength =>
      have hnone := List.filter_eq_nil_iff.mp (List.length_eq_zero_iff.mp (not_not.mp hlength))
      have hempty : (data2.zipIdx.filter fun found => AgreeOnAll fields
          (comparedPairs fieldsToMatch) options entry1 found.1).map Prod.snd = [] := by
        rw [List.eq_nil_iff_forall_not_mem]
        intro i hi
        obtain ⟨entry2, hentry, hagree⟩ := (hindices i).mp hi
        exact hnone entry2 (List.mem_of_getElem? hentry) hagree
      rw [hempty]
      exact h.unmatched fun entry2 hmem => Bool.eq_false_iff.mpr (hnone entry2 hmem)

theorem matchesLoop_collected (hall : options.multipleMatches = .all) (data1 data2 : List Item) :
    Collected (AgreeOnAll fields (comparedPairs fieldsToMatch) options) data2 data1
      (matchesLoop fields fieldsToMatch options data1 data2).1
      (matchesLoop fields fieldsToMatch options data1 data2).2 := by
  induction data1 using List.reverseRecOn with
  | nil =>
    refine ⟨rfl, rfl, rfl, rfl, fun i => ?_⟩
    simp [matchesLoop]
  | append_singleton data1 entry1 ih =>
    rw [matchesLoop, List.foldl_append]
    exact ih.matchEntry hall entry1

theorem foldl_split (matchedInInput2 : OrderedSet ℕ) (filteredData : FilteredData Item)
    (entries : List (Item × ℕ)) :
    entries.foldl (fun filteredData (entry, i) =>
      if i ∈ matchedInInput2 then
        { filteredData with matched2 := filteredData.matched2 ++ [entry] }
      else { filteredData with unmatched2 := filteredData.unmatched2 ++ [entry] }) filteredData =
    { filteredData with
      matched2 := filteredData.matched2 ++
        (entries.filter fun found => found.2 ∈ matchedInInput2).map Prod.fst
      unmatched2 := filteredData.unmatched2 ++
        (entries.filter fun found => ¬ found.2 ∈ matchedInInput2).map Prod.fst } := by
  induction entries generalizing filteredData with
  | nil => simp
  | cons found entries ih =>
    rw [List.foldl_cons, ih]
    by_cases h : found.2 ∈ matchedInInput2 <;> simp [h]

/-- The result is a join on the pairs that are compared. -/
theorem findMatches_isJoin (hall : options.multipleMatches = .all) (input1 input2 : List Item) :
    IsJoin (AgreeOnAll fields (comparedPairs fieldsToMatch) options) input1 input2
      (findMatches fields fieldsToMatch options input1 input2).pairs
      (findMatches fields fieldsToMatch options input1 input2).matched2
      (findMatches fields fieldsToMatch options input1 input2).unmatched1
      (findMatches fields fieldsToMatch options input1 input2).unmatched2 := by
  have h := @matchesLoop_collected _ _ fields fieldsToMatch options hall input1 input2
  have hindex : ∀ found ∈ input2.zipIdx,
      decide (found.2 ∈ (matchesLoop fields fieldsToMatch options input1 input2).2) =
      input1.any fun entry1 =>
        AgreeOnAll fields (comparedPairs fieldsToMatch) options entry1 found.1 := by
    intro found hfound
    rw [Bool.eq_iff_iff, decide_eq_true_iff, h.indices]
    simp [List.mem_zipIdx_iff_getElem?.mp hfound]
  rw [findMatches]
  dsimp only
  rw [foldl_split, h.matched2, h.unmatched2]
  refine ⟨h.pairs, ?_, h.unmatched1, ?_⟩
  · rw [List.filter_congr hindex]
    exact map_fst_found (fun entry2 => input1.any fun entry1 =>
      AgreeOnAll fields (comparedPairs fieldsToMatch) options entry1 entry2) input2
  · have hnot : ∀ found ∈ input2.zipIdx,
        decide (¬ found.2 ∈ (matchesLoop fields fieldsToMatch options input1 input2).2) =
        !input1.any fun entry1 =>
          AgreeOnAll fields (comparedPairs fieldsToMatch) options entry1 found.1 := by
      intro found hfound
      rw [decide_not, hindex found hfound]
    rw [List.filter_congr hnot]
    exact map_fst_found (fun entry2 => !input1.any fun entry1 =>
      AgreeOnAll fields (comparedPairs fieldsToMatch) options entry1 entry2) input2

theorem foundedMatches_singleton (entry2 : Item) (lookup : Lookup Value) :
    foundedMatches fields options [entry2] lookup =
      if entryMatches fields options.disableDotNotation (fields.fuzzyCompare options.fuzzyCompare)
        lookup entry2 then [(entry2, 0)] else [] := by
  rw [foundedMatches]
  cases options.multipleMatches with
  | all => simp [findAllMatches]
  | first =>
    simp only [findFirstMatch, List.zipIdx_singleton, List.find?_cons, List.find?_nil]
    cases entryMatches fields options.disableDotNotation
      (fields.fuzzyCompare options.fuzzyCompare) lookup entry2 <;> rfl

/-- Of two items, whether all matches are wanted or the first. -/
theorem findMatches_matched_singleton (entry1 entry2 : Item) :
    (findMatches fields fieldsToMatch options [entry1] [entry2]).matched =
      if AgreeOnAll fields (comparedPairs fieldsToMatch) options entry1 entry2 then
        [⟨entry1, [entry2]⟩] else [] := by
  rw [findMatches]
  dsimp only
  rw [foldl_split]
  simp only [matchesLoop, List.foldl_cons, List.foldl_nil, matchEntry, foundedMatches_singleton]
  split
  next hnone => rw [not_agree_of_isUndefined hnone entry2, if_neg Bool.false_ne_true]
  next hdefined =>
    rw [entryMatches_eq_agree hdefined]
    cases AgreeOnAll fields (comparedPairs fieldsToMatch) options entry1 entry2 with
    | false => rfl
    | true => cases options.oneMatchEach <;> rfl

theorem agreeOnAll_eq_iff {entry1 entry2 : Item} :
    AgreeOnAll fields (comparedPairs fieldsToMatch) options entry1 entry2 =
      AgreeOnAll fields fieldsToMatch options entry1 entry2 ↔
    (AgreeOnAll fields (comparedPairs fieldsToMatch) options entry1 entry2 = true →
      ∀ pair ∈ fieldsToMatch, pair ∉ comparedPairs fieldsToMatch →
        Agree fields options entry1 entry2 pair = true) := by
  have hsub : ∀ pair ∈ comparedPairs fieldsToMatch, pair ∈ fieldsToMatch :=
    fun pair hpair => (List.mem_filter.mp (mem_of_mem_lasting hpair)).1
  rw [Bool.eq_iff_iff]
  simp only [AgreeOnAll, List.all_eq_true]
  constructor
  · intro h hcompared pair hpair _
    exact h.mp hcompared pair hpair
  · intro h
    refine ⟨fun hcompared pair hpair => ?_, fun hall pair hpair => hall pair (hsub pair hpair)⟩
    by_cases hmem : pair ∈ comparedPairs fieldsToMatch
    · exact hcompared pair hmem
    · exact h hcompared pair hpair hmem

/-- The items that are paired are those that agree on all pairs of fields exactly if no two items
agree on the pairs that are compared and not on one that is not. -/
theorem findMatches_agreeOnAll_iff (hall : options.multipleMatches = .all)
    (input1 input2 : List Item) :
    IsJoin (AgreeOnAll fields fieldsToMatch options) input1 input2
      (findMatches fields fieldsToMatch options input1 input2).pairs
      (findMatches fields fieldsToMatch options input1 input2).matched2
      (findMatches fields fieldsToMatch options input1 input2).unmatched1
      (findMatches fields fieldsToMatch options input1 input2).unmatched2 ↔
    ∀ entry1 ∈ input1, ∀ entry2 ∈ input2,
      AgreeOnAll fields (comparedPairs fieldsToMatch) options entry1 entry2 = true →
      ∀ pair ∈ fieldsToMatch, pair ∉ comparedPairs fieldsToMatch →
        Agree fields options entry1 entry2 pair = true := by
  rw [(findMatches_isJoin hall input1 input2).isJoin_iff]
  exact forall₂_congr fun entry1 _ => forall₂_congr fun entry2 _ => agreeOnAll_eq_iff

/-- With second fields that differ from each other all pairs are compared. -/
theorem comparedPairs_of_nodup (hnodup : (fieldsToMatch.map (·.field2)).Nodup)
    (hproto : "__proto__" ∉ fieldsToMatch.map (·.field2)) :
    comparedPairs fieldsToMatch = fieldsToMatch := by
  have hfilter : fieldsToMatch.filter (fun pair => pair.field2 ≠ "__proto__") = fieldsToMatch := by
    rw [List.filter_eq_self]
    intro pair hpair
    refine decide_eq_true fun heq => hproto ?_
    exact heq ▸ List.mem_map_of_mem hpair
  rw [comparedPairs, hfilter, lasting_of_nodup hnodup]

end Proofs
end

section Example

/-- Items as lists of their properties, none of which has a path of its own. -/
def plainFields : Fields (List (String × ℕ)) (Option ℕ) where
  property entry field := OrderedMap.lookupEntry field entry
  get entry field := OrderedMap.lookupEntry field entry
  isUndefined value := value.isNone
  fuzzyCompare _ value1 value2 := value1 = value2

def keepMatches : MatchFieldsOptions := ⟨.keepMatches, .both, .all, false, false⟩

/-- Both fields of the first input are to match the one of the second. -/
def sameSecondField : List PairToMatch := [⟨"id", "ref"⟩, ⟨"group", "ref"⟩]

/-- The ids differ, and nobody looks at them. -/
theorem sameSecondField_pairsOthers : ¬ ∀ (Item Value : Type) (fields : Fields Item Value)
    (fieldsToMatch : List PairToMatch) (options : MatchFieldsOptions) (input1 input2 : List Item),
    options.multipleMatches = .all →
    IsJoin (AgreeOnAll fields fieldsToMatch options) input1 input2
      (findMatches fields fieldsToMatch options input1 input2).pairs
      (findMatches fields fieldsToMatch options input1 input2).matched2
      (findMatches fields fieldsToMatch options input1 input2).unmatched1
      (findMatches fields fieldsToMatch options input1 input2).unmatched2 := by
  intro h
  have hjoin := h _ _ plainFields sameSecondField keepMatches [[("id", 1), ("group", 2)]]
    [[("ref", 2)]] rfl
  exact absurd hjoin.pairs (by decide)

/-- Two items that agree on both pairs are matched, and the third is not. -/
theorem sameSecondField_pairsEqual :
    (∀ entry1 ∈ [[("id", 2), ("group", 2)], [("id", 1), ("group", 3)]],
      ∀ entry2 ∈ [[("ref", 2)]],
      AgreeOnAll plainFields (comparedPairs sameSecondField) keepMatches entry1 entry2 = true →
      ∀ pair ∈ sameSecondField, pair ∉ comparedPairs sameSecondField →
        Agree plainFields keepMatches entry1 entry2 pair = true) ∧
    IsJoin (AgreeOnAll plainFields sameSecondField keepMatches)
      [[("id", 2), ("group", 2)], [("id", 1), ("group", 3)]] [[("ref", 2)]]
      (findMatches plainFields sameSecondField keepMatches
        [[("id", 2), ("group", 2)], [("id", 1), ("group", 3)]] [[("ref", 2)]]).pairs
      (findMatches plainFields sameSecondField keepMatches
        [[("id", 2), ("group", 2)], [("id", 1), ("group", 3)]] [[("ref", 2)]]).matched2
      (findMatches plainFields sameSecondField keepMatches
        [[("id", 2), ("group", 2)], [("id", 1), ("group", 3)]] [[("ref", 2)]]).unmatched1
      (findMatches plainFields sameSecondField keepMatches
        [[("id", 2), ("group", 2)], [("id", 1), ("group", 3)]] [[("ref", 2)]]).unmatched2 := by
  have hagree : ∀ entry1 ∈ [[("id", 2), ("group", 2)], [("id", 1), ("group", 3)]],
      ∀ entry2 ∈ [[("ref", 2)]],
      AgreeOnAll plainFields (comparedPairs sameSecondField) keepMatches entry1 entry2 = true →
      ∀ pair ∈ sameSecondField, pair ∉ comparedPairs sameSecondField →
        Agree plainFields keepMatches entry1 entry2 pair = true := by decide
  exact ⟨hagree, (findMatches_agreeOnAll_iff rfl _ _).mpr hagree⟩

end Example

end N8n.Merge
