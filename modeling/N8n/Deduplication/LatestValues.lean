import Mathlib.Data.Rat.Defs
import Mathlib.Algebra.Order.Ring.Rat
import Mathlib.Data.List.Sort
import N8n.Deduplication.DeduplicationHelper
import N8n.Foundations.FoldM

/-!
# Keeping only newer values

In the modes for incremental keys and for dates a row holds the latest value that was checked. The
first check inserts the last of its sorted items, later ones keep those that are greater than the
value of the row.
-/

namespace N8n.Deduplication.Latest

inductive DeduplicationItem where
  | number (value : ℚ)
  | text (value : String)
  deriving DecidableEq

/-- What `Number` makes of a text and the time that a text is parsed to, unless it is `NaN` or no
date. -/
structure Readings where
  toNumber : String → Option ℚ
  toMillis : DeduplicationItem → Option ℤ

inductive LatestError where
  | invalidNumber
  | invalidDate
  | invalidMode
  | incompatibleMode
  deriving DecidableEq, Repr

def LatestError.message : LatestError → String
  | invalidNumber => "Invalid value. Only numbers are supported in mode \"latestIncrementalKey\""
  | invalidDate => "Invalid value. Only valid dates are supported in mode \"latestDate\""
  | invalidMode => "Invalid mode. Only 'latestIncrementalKey' and 'latestDate' are supported."
  | incompatibleMode =>
    "Deduplication data was originally saved with an incompatible setting of the ‘Keep Items Where’" ++
      " parameter. Try ’Clean Database’ operation to reset."

/-- The value of a row in one of the modes. The data is `undefined` after a check of no items. -/
structure ProcessedDataLatest where
  mode : DeduplicationMode
  data : Option DeduplicationItem
  deriving DecidableEq

section Model
variable (r : Readings)

def Readings.number : DeduplicationItem → Option ℚ
  | .number value => some value
  | .text value => r.toNumber value

/-- Two dates are two objects, so that they are never the same. -/
def compareValues (mode : DeduplicationMode) (value1 value2 : Option DeduplicationItem) :
    Except LatestError ℤ :=
  match mode with
  | .latestIncrementalKey =>
    match value1.bind r.number, value2.bind r.number with
    | some num1, some num2 => .ok (if num1 = num2 then 0 else if num1 > num2 then 1 else -1)
    | _, _ => .error .invalidNumber
  | .latestDate =>
    match value1.bind r.toMillis, value2.bind r.toMillis with
    | some date1, some date2 => .ok (if date1 > date2 then 1 else -1)
    | _, _ => .error .invalidDate
  | .entries => .error .invalidMode

/-- The comparison of two values, or of one with itself, raises if one of them is invalid. -/
def sortEntries (items : List DeduplicationItem) (mode : DeduplicationMode) :
    Except LatestError (List DeduplicationItem) :=
  if items.length ≤ 1 then .ok items
  else do
    items.forM fun item => (compareValues r mode item item).map fun _ => ()
    return items.mergeSort fun a b => (compareValues r mode a b).toOption.any (· ≤ 0)

def validateMode (processedData : Option ProcessedDataLatest) (mode : DeduplicationMode) :
    Except LatestError Unit :=
  match processedData with
  | none => .ok ()
  | some processedData =>
    if processedData.mode = mode then .ok () else .error .incompatibleMode

/-- One round of the loop over the items, with the largest value and what it returns. -/
def handleItem (mode : DeduplicationMode) (stored : Option DeduplicationItem)
    (state : Option DeduplicationItem × DeduplicationOutput DeduplicationItem)
    (item : DeduplicationItem) :
    Except LatestError (Option DeduplicationItem × DeduplicationOutput DeduplicationItem) := do
  let (largestValue, output) := state
  if (← compareValues r mode item stored) = 1 then
    let largestValue :=
      if (← compareValues r mode item largestValue) = 1 then some item else largestValue
    return (largestValue, { output with new := output.new ++ [item] })
  else return (largestValue, { output with processed := output.processed ++ [item] })

/-- What the check answers, and the row that it leaves. -/
def handleLatestModes (items : List DeduplicationItem) (mode : DeduplicationMode)
    (processedData : Option ProcessedDataLatest) :
    Except LatestError (DeduplicationOutput DeduplicationItem × ProcessedDataLatest) := do
  let incomingItems ← sortEntries r items mode
  match processedData with
  | none => return (⟨items, []⟩, ⟨mode, incomingItems.getLast?⟩)
  | some processedData =>
    let (largestValue, output) ←
      incomingItems.foldlM (handleItem r mode processedData.data) (processedData.data, ⟨[], []⟩)
    return (output, { processedData with data := largestValue })

def checkProcessedAndRecord (items : List DeduplicationItem) (mode : DeduplicationMode)
    (processedData : Option ProcessedDataLatest) :
    Except LatestError (DeduplicationOutput DeduplicationItem × ProcessedDataLatest) := do
  validateMode processedData mode
  handleLatestModes r items mode processedData

/-- A check that raises leaves the row as it is. -/
def rowAfter (mode : DeduplicationMode) (calls : List (List DeduplicationItem)) :
    Option ProcessedDataLatest :=
  calls.foldl (fun row items =>
    match checkProcessedAndRecord r items mode row with
    | .ok (_, row) => some row
    | .error _ => row) none

end Model

/-! ### Incremental keys that are numbers -/

def numbers (l : List ℚ) : List DeduplicationItem := l.map .number

/-- Whether a key is greater than all keys of the calls before. -/
def isNewer (before : List (List ℚ)) (key : ℚ) : Bool := before.flatten.all (· < key)

/-- A check after these calls raises nothing and tells the keys that are newer from the others. -/
def AnswersNewer (r : Readings) (before : List (List ℚ)) (keys : List ℚ) : Prop :=
  ∃ output row, checkProcessedAndRecord r (numbers keys) .latestIncrementalKey
      (rowAfter r .latestIncrementalKey (before.map numbers)) = .ok (output, row) ∧
    output.new.Perm (numbers (keys.filter (isNewer before))) ∧
    output.processed.Perm (numbers (keys.filter fun key => !isNewer before key))

def HistoryNewer (r : Readings) (calls : List (List ℚ)) : Prop :=
  ∀ before keys rest, calls = before ++ keys :: rest → AnswersNewer r before keys

section
variable {r : Readings} {calls : List (List ℚ)} {keys : List ℚ}

theorem compareValues_number (a b : ℚ) :
    compareValues r .latestIncrementalKey (some (.number a)) (some (.number b)) =
      .ok (if a = b then 0 else if a > b then 1 else -1) := rfl

theorem sortEntries_numbers (keys : List ℚ) :
    ∃ sorted : List ℚ, sortEntries r (numbers keys) .latestIncrementalKey = .ok (numbers sorted) ∧
      sorted.Perm keys ∧ sorted.Pairwise (· ≤ ·) := by
  rw [sortEntries]
  split_ifs with hlength
  · refine ⟨keys, rfl, List.Perm.refl _, ?_⟩
    cases keys with
    | nil => exact List.Pairwise.nil
    | cons key rest =>
      have hrest : rest = [] := by simpa [numbers] using hlength
      rw [hrest]
      exact List.pairwise_singleton _ _
  · have hvalid : (numbers keys).forM (fun item =>
        (compareValues r .latestIncrementalKey item item).map fun _ => ()) = .ok () :=
      FoldM.forM_ok_iff.mpr (List.forall_mem_map.mpr fun _ _ => rfl)
    refine ⟨keys.mergeSort fun a b => a ≤ b, ?_, List.mergeSort_perm _ _, ?_⟩
    · rw [hvalid]
      refine congrArg Except.ok (List.map_mergeSort fun a _ b _ => ?_).symm
      rw [compareValues_number]
      split_ifs with heq hlt
      · simp [heq, Except.toOption]
      · simpa [Except.toOption] using hlt
      · simpa [Except.toOption] using hlt
    · refine (List.pairwise_mergeSort (fun a b c hab hbc => ?_) (fun a b => ?_) keys).imp ?_
      · simp only [decide_eq_true_eq] at hab hbc ⊢
        exact hab.trans hbc
      · simpa using le_total a b
      · simp

theorem compareValues_number_eq_one {a b : ℚ} {c : ℤ}
    (h : compareValues r .latestIncrementalKey (some (.number a)) (some (.number b)) = .ok c) :
    c = 1 ↔ b < a := by
  rw [compareValues_number] at h
  obtain rfl := Except.ok.inj h
  split_ifs with heq hlt
  · simp [heq]
  · simpa using hlt
  · simpa using hlt

theorem handleItem_number {stored largest : ℚ} (h : stored ≤ largest) (key : ℚ)
    (output : DeduplicationOutput DeduplicationItem) :
    handleItem r .latestIncrementalKey (some (.number stored)) (some (.number largest), output)
        (.number key) =
      .ok (some (.number (max largest key)),
        if stored < key then { output with new := output.new ++ [.number key] }
        else { output with processed := output.processed ++ [.number key] }) := by
  have hstored := compareValues_number_eq_one (@compareValues_number r key stored)
  have hlargest := compareValues_number_eq_one (@compareValues_number r key largest)
  simp only [handleItem, compareValues_number, FoldM.ok_bind, hstored, hlargest]
  by_cases hnew : stored < key
  · rw [if_pos hnew, if_pos hnew]
    by_cases hlarger : largest < key
    · rw [if_pos hlarger, max_eq_right hlarger.le]
      rfl
    · rw [if_neg hlarger, max_eq_left (not_lt.mp hlarger)]
      rfl
  · rw [if_neg hnew, if_neg hnew, max_eq_left ((not_lt.mp hnew).trans h)]
    rfl

/-- The loop keeps the keys that are greater than the stored one, and the largest of all. -/
theorem foldlM_handleItem {stored largest : ℚ} (h : stored ≤ largest) (keys : List ℚ)
    (output : DeduplicationOutput DeduplicationItem) :
    (numbers keys).foldlM (handleItem r .latestIncrementalKey (some (.number stored)))
        (some (.number largest), output) =
      .ok (some (.number (keys.foldl max largest)),
        ⟨output.new ++ numbers (keys.filter (stored < ·)),
          output.processed ++ numbers (keys.filter fun key => !(decide (stored < key)))⟩) := by
  induction keys generalizing largest output with
  | nil => simp [numbers, pure, Except.pure]
  | cons key keys ih =>
    rw [numbers, List.map_cons, FoldM.foldlM_cons_ok (handleItem_number h key output)]
    refine (ih (h.trans (le_max_left largest key)) _).trans ?_
    by_cases hnew : stored < key
    · simp [hnew, numbers]
    · simp [hnew, numbers]

/-- The last of the sorted keys of the first check is the greatest. -/
theorem getLast?_eq_max? {sorted : List ℚ} (hperm : sorted.Perm keys)
    (hsorted : sorted.Pairwise (· ≤ ·)) : sorted.getLast? = keys.max? := by
  cases hlast : sorted.getLast? with
  | none =>
    have hnil : sorted = [] := List.getLast?_eq_none_iff.mp hlast
    rw [hnil] at hperm
    rw [List.nil_perm.mp hperm]
    rfl
  | some key =>
    obtain ⟨rest, rfl⟩ := List.getLast?_eq_some_iff.mp hlast
    refine (List.max?_eq_some_iff.mpr ⟨hperm.subset (by simp), fun other hother => ?_⟩).symm
    rcases List.mem_append.mp (hperm.symm.subset hother) with hother | hother
    · exact (List.pairwise_append.mp hsorted).2.2 other hother key (List.mem_singleton_self key)
    · exact (List.mem_singleton.mp hother).le

/-- The row after checks of which the first had the keys `first`. -/
def storedRow (first : List ℚ) (rest : List (List ℚ)) : ProcessedDataLatest :=
  ⟨.latestIncrementalKey,
    if first = [] then none else (first ++ rest.flatten).max?.map .number⟩

theorem check_first (keys : List ℚ) :
    checkProcessedAndRecord r (numbers keys) .latestIncrementalKey none =
      .ok (⟨numbers keys, []⟩, storedRow keys []) := by
  obtain ⟨sorted, hsort, hperm, hsorted⟩ := @sortEntries_numbers r keys
  have hlast : (numbers sorted).getLast? = (storedRow keys []).data := by
    rw [numbers, List.getLast?_map, getLast?_eq_max? hperm hsorted, storedRow, List.flatten_nil,
      List.append_nil]
    split_ifs with hnil
    · rw [hnil]
      rfl
    · rfl
  rw [checkProcessedAndRecord, validateMode, FoldM.ok_bind, handleLatestModes, hsort,
    FoldM.ok_bind]
  dsimp only
  rw [hlast]
  rfl

/-- A later check, when the first had keys, compares with the greatest of all keys before. -/
theorem isNewer_eq {first : List ℚ} {rest : List (List ℚ)} {m : ℚ}
    (hm : (first ++ rest.flatten).max? = some m) (key : ℚ) :
    isNewer (first :: rest) key = decide (m < key) := by
  obtain ⟨hmem, hmax⟩ := List.max?_eq_some_iff.mp hm
  rw [isNewer, List.flatten_cons, Bool.eq_iff_iff, List.all_eq_true, decide_eq_true_iff]
  constructor
  · intro hall
    simpa using hall m hmem
  · intro hlt other hother
    simpa using (hmax other hother).trans_lt hlt

theorem max?_append_of_perm {l keys sorted : List ℚ} {m : ℚ} (hm : l.max? = some m)
    (hperm : sorted.Perm keys) : (l ++ keys).max? = some (sorted.foldl max m) := by
  obtain ⟨hmem, hbound⟩ := List.max?_eq_some_iff.mp hm
  obtain ⟨hmem', hbound'⟩ :=
    List.max?_eq_some_iff.mp (show (m :: sorted).max? = some (sorted.foldl max m) from rfl)
  rw [List.max?_eq_some_iff]
  refine ⟨List.mem_append.mpr ?_, fun key hkey => ?_⟩
  · rcases List.mem_cons.mp hmem' with heq | hlater
    · rw [heq]
      exact .inl hmem
    · exact .inr (hperm.subset hlater)
  · rcases List.mem_append.mp hkey with hkey | hkey
    · exact (hbound key hkey).trans (hbound' m List.mem_cons_self)
    · exact hbound' key (List.mem_cons_of_mem m (hperm.symm.subset hkey))

theorem check_later {first : List ℚ} (hfirst : first ≠ []) (rest : List (List ℚ)) (keys : List ℚ) :
    ∃ output, checkProcessedAndRecord r (numbers keys) .latestIncrementalKey
        (some (storedRow first rest)) = .ok (output, storedRow first (rest ++ [keys])) ∧
      output.new.Perm (numbers (keys.filter (isNewer (first :: rest)))) ∧
      output.processed.Perm (numbers (keys.filter fun key => !isNewer (first :: rest) key)) := by
  obtain ⟨sorted, hsort, hperm, -⟩ := @sortEntries_numbers r keys
  obtain ⟨m, hm⟩ : ∃ m, (first ++ rest.flatten).max? = some m := by
    rw [← Option.isSome_iff_exists, Option.isSome_iff_ne_none, ne_eq, List.max?_eq_none_iff]
    simp [hfirst]
  have hnewer := isNewer_eq hm
  have hrow : storedRow first rest = ⟨.latestIncrementalKey, some (.number m)⟩ := by
    rw [storedRow, if_neg hfirst, hm, Option.map_some]
  have hnext : storedRow first (rest ++ [keys]) =
      ⟨.latestIncrementalKey, some (.number (sorted.foldl max m))⟩ := by
    have hmax : (first ++ (rest ++ [keys]).flatten).max? = some (sorted.foldl max m) := by
      rw [List.flatten_append, List.flatten_singleton, ← List.append_assoc]
      exact max?_append_of_perm hm hperm
    rw [storedRow, if_neg hfirst, hmax, Option.map_some]
  have hloop := @foldlM_handleItem r m m le_rfl sorted ⟨[], []⟩
  refine ⟨⟨numbers (sorted.filter (m < ·)), numbers (sorted.filter fun key => !(decide (m < key)))⟩,
    ?_, ?_, ?_⟩
  · rw [checkProcessedAndRecord, validateMode, hrow, if_pos rfl, FoldM.ok_bind, handleLatestModes,
      hsort, FoldM.ok_bind]
    dsimp only
    rw [hloop, FoldM.ok_bind, hnext]
    rfl
  · rw [List.filter_congr fun key _ => hnewer key]
    exact (hperm.filter _).map _
  · have hother : ∀ key, (!isNewer (first :: rest) key) = !decide (m < key) := fun key => by
      rw [hnewer]
    rw [List.filter_congr fun key _ => hother key]
    exact (hperm.filter _).map _

/-- Where no value is stored a check of nothing changes nothing. -/
theorem check_nothing (rest : List (List ℚ)) :
    checkProcessedAndRecord r (numbers []) .latestIncrementalKey (some (storedRow [] rest)) =
      .ok (⟨[], []⟩, storedRow [] rest) := by
  rfl

/-- Where no value is stored a check of any key raises. -/
theorem check_raises (hkeys : keys ≠ []) (rest : List (List ℚ)) :
    checkProcessedAndRecord r (numbers keys) .latestIncrementalKey (some (storedRow [] rest)) =
      .error .invalidNumber := by
  obtain ⟨sorted, hsort, hperm, -⟩ := @sortEntries_numbers r keys
  rw [checkProcessedAndRecord, validateMode, storedRow, if_pos rfl, FoldM.ok_bind,
    handleLatestModes, hsort, FoldM.ok_bind]
  cases sorted with
  | nil => exact absurd (List.nil_perm.mp hperm) hkeys
  | cons key sorted => rfl

theorem rowAfter_concat (calls : List (List ℚ)) (keys : List ℚ) :
    rowAfter r .latestIncrementalKey ((calls ++ [keys]).map numbers) =
      match checkProcessedAndRecord r (numbers keys) .latestIncrementalKey
        (rowAfter r .latestIncrementalKey (calls.map numbers)) with
      | .ok (_, row) => some row
      | .error _ => rowAfter r .latestIncrementalKey (calls.map numbers) := by
  rw [List.map_append, rowAfter, List.foldl_append]
  rfl

theorem rowAfter_cons (first : List ℚ) (rest : List (List ℚ)) :
    rowAfter r .latestIncrementalKey ((first :: rest).map numbers) = some (storedRow first rest) := by
  induction rest using List.reverseRecOn with
  | nil =>
    refine (@rowAfter_concat r [] first).trans ?_
    have hnone : rowAfter r .latestIncrementalKey (([] : List (List ℚ)).map numbers) = none := rfl
    rw [hnone, check_first]
  | append_singleton rest keys ih =>
    rw [← List.cons_append, rowAfter_concat, ih]
    by_cases hfirst : first = []
    · subst hfirst
      have hrow : storedRow [] (rest ++ [keys]) = storedRow [] rest := rfl
      by_cases hkeys : keys = []
      · rw [hkeys, check_nothing]
        rfl
      · rw [check_raises hkeys, hrow]
    · obtain ⟨output, hcheck, -, -⟩ := @check_later r first hfirst rest keys
      rw [hcheck]

/-- The answers are right in all checks exactly if the first has keys or none has. -/
theorem historyNewer_iff (r : Readings) (calls : List (List ℚ)) :
    HistoryNewer r calls ↔ (calls.head? = some [] → calls.flatten = []) := by
  constructor
  · intro h hhead
    obtain ⟨rest, rfl⟩ : ∃ rest, calls = [] :: rest := by
      cases calls with
      | nil => cases hhead
      | cons first rest =>
        obtain rfl := Option.some.inj hhead
        exact ⟨rest, rfl⟩
    rw [List.flatten_eq_nil_iff]
    intro keys hkeys
    by_contra hne
    obtain ⟨before, after, hsplit⟩ := List.append_of_mem hkeys
    cases before with
    | nil => exact hne (List.cons.inj hsplit).1.symm
    | cons first before =>
      obtain rfl := (List.cons.inj hsplit).1
      obtain ⟨output, row, hcheck, -⟩ := h ([] :: before) keys after hsplit
      rw [rowAfter_cons, check_raises hne] at hcheck
      cases hcheck
  · rintro h before keys after rfl
    cases before with
    | nil =>
      have hnewer : ∀ key, isNewer [] key = true := fun _ => rfl
      refine ⟨_, _, check_first keys, ?_, ?_⟩
      · rw [List.filter_eq_self.mpr fun key _ => hnewer key]
      · simp [hnewer, numbers]
    | cons first before =>
      rw [AnswersNewer, rowAfter_cons]
      by_cases hfirst : first = []
      · subst hfirst
        have hkeys : keys = [] := List.flatten_eq_nil_iff.mp (h rfl) keys (by simp)
        subst hkeys
        exact ⟨_, _, check_nothing before, List.Perm.refl _, List.Perm.refl _⟩
      · obtain ⟨output, hcheck, hnew, hprocessed⟩ := @check_later r first hfirst before keys
        exact ⟨output, _, hcheck, hnew, hprocessed⟩

end

section Example

/-- The first check has no items, so that there is no value for the second to compare with. -/
theorem emptyFirst_not_historyNewer :
    ¬ ∀ (r : Readings) (calls : List (List ℚ)), HistoryNewer r calls := by
  intro h
  obtain ⟨output, row, hcheck, -⟩ := h ⟨fun _ => none, fun _ => none⟩ [[], [1]] [[]] [1] [] rfl
  rw [rowAfter_cons, check_raises (by simp)] at hcheck
  cases hcheck

end Example

end N8n.Deduplication.Latest
