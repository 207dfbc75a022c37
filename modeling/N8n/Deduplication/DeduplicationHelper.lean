import Mathlib.Data.List.Basic
import Mathlib.Data.List.Count
import Mathlib.Data.List.Induction
import N8n.Foundations.SplitLists

/-!
# The history of processed items

The hashes of the items that were checked are stored in one row for each context. A check
appends the hashes of all items that are not stored yet, so an item that is repeated in one
list is stored more than once, and a removal takes out one hash for each item it names.
-/

namespace N8n.Deduplication

inductive DeduplicationMode where
  | entries
  | latestIncrementalKey
  | latestDate
  deriving DecidableEq, Repr

/-- Either a list of hashes or the latest value. -/
inductive StoredData (η : Type) where
  | list (hashes : List η)
  | latest (value : String)
  deriving DecidableEq, Repr

/-- The value of the row of a workflow and a context. -/
structure ProcessedData (η : Type) where
  mode : DeduplicationMode
  data : StoredData η
  deriving DecidableEq, Repr

structure DeduplicationOutput (ι : Type) where
  new : List ι
  processed : List ι
  deriving DecidableEq, Repr

/-- Thrown for data that was saved with another mode. -/
inductive DeduplicationError where
  | incompatibleMode
  deriving DecidableEq, Repr

/-- The text of an item, and `createHash('md5').update(text).digest('base64')`. -/
structure Hashing (ι η : Type) where
  toText : ι → String
  digest : String → η

variable {ι η : Type}

def Hashing.createValueHash (hashing : Hashing ι η) (item : ι) : η :=
  hashing.digest (hashing.toText item)

def ProcessedData.hashes? (processedData : ProcessedData η) : Option (List η) :=
  match processedData.data with
  | .list hashes => some hashes
  | .latest _ => none

/-- `splice(0, length - maxEntries)`, where there is a maximum. -/
def cutTo (maxEntries : Option ℕ) (hashes : List η) : List η :=
  match maxEntries with
  | none => hashes
  | some 0 => hashes
  | some maxEntries => hashes.drop (hashes.length - maxEntries)

/-- What a check does to the table. -/
inductive Write (η : Type) where
  | insert (value : ProcessedData η)
  | update (value : ProcessedData η)
  | nothing
  deriving DecidableEq, Repr

def validateMode (processedData : Option (ProcessedData η)) : Except DeduplicationError Unit :=
  match processedData with
  | none => .ok ()
  | some processedData =>
    if processedData.mode = .entries then .ok () else .error .incompatibleMode

/-- The mode is `entries`. The items are compared with the hashes that are stored before the
first of them is. -/
def handleHashedItems [DecidableEq η] (hashing : Hashing ι η) (maxEntries : Option ℕ) (items : List ι)
    (processedData : Option (ProcessedData η)) : Write η × DeduplicationOutput ι :=
  match processedData with
  | none =>
    (.insert ⟨.entries, .list (cutTo maxEntries (items.map hashing.createValueHash))⟩, ⟨items, []⟩)
  | some processedData =>
    match processedData.hashes? with
    | none => (.nothing, ⟨[], []⟩)
    | some hashes =>
      let isProcessed := fun item => decide (hashing.createValueHash item ∈ hashes)
      let new := items.filter fun item => !isProcessed item
      (.update { processedData with
          data := .list (cutTo maxEntries (hashes ++ new.map hashing.createValueHash)) },
        ⟨new, items.filter isProcessed⟩)

/-- An insertion fails where there is a row, an update does nothing where there is none. -/
def Write.apply (row : Option (ProcessedData η)) : Write η → Option (Option (ProcessedData η))
  | .insert value => if row.isSome then none else some (some value)
  | .update value => some (row.map fun _ => value)
  | .nothing => some row

/-- Each hash is removed once. -/
def removeHashes [DecidableEq η] (hashes removed : List η) : List η := removed.foldl List.erase hashes

/-- The row after `removeProcessed`, in mode `entries`. -/
def removeProcessed [DecidableEq η] (hashing : Hashing ι η) (items : List ι)
    (row : Option (ProcessedData η)) : Option (ProcessedData η) :=
  row.map fun processedData =>
    match processedData.hashes? with
    | none => processedData
    | some hashes =>
      { processedData with
        data := .list (removeHashes hashes (items.map hashing.createValueHash)) }

/-! ### Calls one after the other, without a maximum of entries -/

inductive Call (ι : Type) where
  | check (items : List ι)
  | remove (items : List ι)
  | clear

/-- What `checkProcessedAndRecord` answers; `none` is an exception. -/
def checkProcessedAndRecord [DecidableEq η] (hashing : Hashing ι η) (items : List ι)
    (row : Option (ProcessedData η)) :
    Option (DeduplicationOutput ι × Option (ProcessedData η)) :=
  match validateMode row with
  | .error _ => none
  | .ok () =>
    let (write, output) := handleHashedItems hashing none items row
    (write.apply row).map fun row => (output, row)

def Call.perform [DecidableEq η] (hashing : Hashing ι η) (row : Option (ProcessedData η)) :
    Call ι → Option (ProcessedData η)
  | .check items => ((checkProcessedAndRecord hashing items row).map Prod.snd).getD row
  | .remove items => removeProcessed hashing items row
  | .clear => none

def rowAfter [DecidableEq η] (hashing : Hashing ι η) (calls : List (Call ι)) :
    Option (ProcessedData η) :=
  calls.foldl (Call.perform hashing) none

/-- The hashes that are stored, none where there is no row. -/
def storedHashes (row : Option (ProcessedData η)) : List η :=
  (row.bind ProcessedData.hashes?).getD []

section
variable (hashing : Hashing ι η)

/-- The call makes the history forget the text. -/
def Call.Forgets (text : String) : Call ι → Prop
  | .check _ => False
  | .remove items => text ∈ items.map hashing.toText
  | .clear => True

/-- The text was in the list of a check after the last call that made the history forget it. -/
def Recorded (calls : List (Call ι)) (text : String) : Prop :=
  ∃ before items rest, calls = before ++ .check items :: rest ∧ text ∈ items.map hashing.toText ∧
    ∀ call ∈ rest, ¬ call.Forgets hashing text

/-- A check after these calls tells the items that were recorded from the others, in order. -/
def AnswersExactly [DecidableEq η] (calls : List (Call ι)) (items : List ι) : Prop :=
  ∃ output row, checkProcessedAndRecord hashing items (rowAfter hashing calls) =
      some (output, row) ∧
    ∃ isRecorded : ι → Bool,
      (∀ item ∈ items, isRecorded item = true ↔ Recorded hashing calls (hashing.toText item)) ∧
      output.processed = items.filter isRecorded ∧
      output.new = items.filter fun item => !isRecorded item

/-- Whatever is checked, whenever it is, the answer is exact. -/
def HistoryExact [DecidableEq η] (calls : List (Call ι)) : Prop :=
  ∀ before, before <+: calls → ∀ items, AnswersExactly hashing before items

/-- Every removal names its items at least as often as they are stored. -/
def RemovesAllCopies [DecidableEq η] (calls : List (Call ι)) : Prop :=
  ∀ before items, before ++ [.remove items] <+: calls →
    ∀ item ∈ items, (storedHashes (rowAfter hashing before)).count (hashing.createValueHash item) ≤
      (items.map hashing.createValueHash).count (hashing.createValueHash item)

end

section
variable {hashing : Hashing ι η} {calls : List (Call ι)}

theorem recorded_concat {call : Call ι} {text : String} :
    Recorded hashing (calls ++ [call]) text ↔
      (∃ items, call = .check items ∧ text ∈ items.map hashing.toText) ∨
        (Recorded hashing calls text ∧ ¬ call.Forgets hashing text) := by
  constructor
  · rintro ⟨before, items, rest, heq, htext, hrest⟩
    rcases SplitLists.concat_eq_iff.mp heq with ⟨-, hcall, -⟩ | ⟨rest, rfl, hcalls⟩
    · exact Or.inl ⟨items, hcall.symm, htext⟩
    · refine Or.inr ⟨⟨before, items, rest, hcalls, htext, fun call' hcall' => ?_⟩, ?_⟩
      · exact hrest call' (by simp [hcall'])
      · exact hrest call (by simp)
  · rintro (⟨items, rfl, htext⟩ | ⟨⟨before, items, rest, rfl, htext, hrest⟩, hcall⟩)
    · exact ⟨calls, items, [], rfl, htext, nofun⟩
    · refine ⟨before, items, rest ++ [call], by simp, htext, fun call' hcall' => ?_⟩
      rcases List.mem_append.mp hcall' with hcall' | hcall'
      · exact hrest call' hcall'
      · rw [List.mem_singleton.mp hcall']
        exact hcall

theorem not_recorded_nil (text : String) : ¬ Recorded hashing ([] : List (Call ι)) text := by
  rintro ⟨before, items, rest, heq, -⟩
  simp at heq

end

section
variable [DecidableEq η] {hashing : Hashing ι η} {calls : List (Call ι)}

theorem rowAfter_concat (calls : List (Call ι)) (call : Call ι) :
    rowAfter hashing (calls ++ [call]) = call.perform hashing (rowAfter hashing calls) := by
  rw [rowAfter, List.foldl_concat, rowAfter]

theorem count_removeHashes (hashes removed : List η) (hash : η) :
    (removeHashes hashes removed).count hash = hashes.count hash - removed.count hash := by
  rw [removeHashes, ← List.diff_eq_foldl, List.count_diff]

theorem mem_removeHashes {hashes removed : List η} {hash : η} :
    hash ∈ removeHashes hashes removed ↔ removed.count hash < hashes.count hash := by
  rw [← List.count_pos_iff, count_removeHashes]
  omega

/-- There is no row, or one with a list of hashes. -/
def IsEntries (row : Option (ProcessedData η)) : Prop :=
  row = none ∨ ∃ hashes, row = some ⟨.entries, .list hashes⟩

theorem checkProcessedAndRecord_eq {row : Option (ProcessedData η)} (hrow : IsEntries row)
    (items : List ι) :
    checkProcessedAndRecord hashing items row =
      let isProcessed := fun item => decide (hashing.createValueHash item ∈ storedHashes row)
      let new := items.filter fun item => !isProcessed item
      some (⟨new, items.filter isProcessed⟩,
        some ⟨.entries, .list (storedHashes row ++ new.map hashing.createValueHash)⟩) := by
  rcases hrow with rfl | ⟨hashes, rfl⟩
  · simp [checkProcessedAndRecord, validateMode, handleHashedItems, Write.apply, storedHashes,
      cutTo]
  · rfl

theorem storedHashes_check {row : Option (ProcessedData η)} (hrow : IsEntries row)
    (items : List ι) :
    storedHashes ((Call.check items).perform hashing row) = storedHashes row ++
      (items.filter fun item => !decide (hashing.createValueHash item ∈ storedHashes row)).map
        hashing.createValueHash := by
  rw [Call.perform, checkProcessedAndRecord_eq hrow]
  rfl

theorem storedHashes_remove {row : Option (ProcessedData η)} (hrow : IsEntries row)
    (items : List ι) :
    storedHashes ((Call.remove items).perform hashing row) =
      removeHashes (storedHashes row) (items.map hashing.createValueHash) := by
  rcases hrow with rfl | ⟨hashes, rfl⟩
  · have hnil : removeHashes [] (items.map hashing.createValueHash) = [] := by
      rw [removeHashes, ← List.diff_eq_foldl, List.nil_diff]
    exact hnil.symm
  · rfl

theorem isEntries_rowAfter (calls : List (Call ι)) : IsEntries (rowAfter hashing calls) := by
  induction calls using List.reverseRecOn with
  | nil => exact Or.inl rfl
  | append_singleton calls call ih =>
    rw [rowAfter_concat]
    cases call with
    | check items =>
      rw [Call.perform, checkProcessedAndRecord_eq ih]
      exact Or.inr ⟨_, rfl⟩
    | remove items =>
      rcases ih with hrow | ⟨hashes, hrow⟩
      · exact Or.inl (by rw [hrow]; rfl)
      · exact Or.inr ⟨_, by rw [hrow]; rfl⟩
    | clear => exact Or.inl rfl

/-- An answer is exact when the stored hashes are those of the recorded items. -/
theorem answersExactly_iff {items : List ι} :
    AnswersExactly hashing calls items ↔ ∀ item ∈ items,
      (Recorded hashing calls (hashing.toText item) ↔
        hashing.createValueHash item ∈ storedHashes (rowAfter hashing calls)) := by
  rw [AnswersExactly, checkProcessedAndRecord_eq (isEntries_rowAfter calls)]
  constructor
  · rintro ⟨output, row, heq, isRecorded, hrecorded, hprocessed, -⟩ item hitem
    obtain ⟨rfl, -⟩ := Prod.mk.inj (Option.some.inj heq)
    have hmem := congrArg (item ∈ ·) hprocessed
    simp only [List.mem_filter, hitem, true_and, decide_eq_true_eq, eq_iff_iff] at hmem
    rw [← hrecorded item hitem, hmem]
  · intro h
    exact ⟨_, _, rfl, _, fun item hitem => decide_eq_true_iff.trans (h item hitem).symm, rfl, rfl⟩

/-- As long as all copies are removed, the stored hashes are those of the recorded items. -/
theorem RemovesAllCopies.recorded_iff
    (hinj : ∀ a b, hashing.createValueHash a = hashing.createValueHash b →
      hashing.toText a = hashing.toText b)
    (h : RemovesAllCopies hashing calls) (item : ι) :
    Recorded hashing calls (hashing.toText item) ↔
      hashing.createValueHash item ∈ storedHashes (rowAfter hashing calls) := by
  have hnamed : ∀ items : List ι, hashing.toText item ∈ items.map hashing.toText ↔
      hashing.createValueHash item ∈ items.map hashing.createValueHash := by
    intro items
    simp only [List.mem_map]
    constructor
    · rintro ⟨item', hitem', htext⟩
      exact ⟨item', hitem', congrArg hashing.digest htext⟩
    · rintro ⟨item', hitem', hhash⟩
      exact ⟨item', hitem', hinj _ _ hhash⟩
  induction calls using List.reverseRecOn with
  | nil => exact iff_of_false (not_recorded_nil _) List.not_mem_nil
  | append_singleton calls call ih =>
    have ih : Recorded hashing calls (hashing.toText item) ↔
        hashing.createValueHash item ∈ storedHashes (rowAfter hashing calls) :=
      ih fun before items hearlier =>
        h before items (hearlier.trans (List.prefix_append calls [call]))
    have hrow : IsEntries (rowAfter hashing calls) := isEntries_rowAfter calls
    rw [recorded_concat, rowAfter_concat, ih]
    cases call with
    | check items =>
      rw [storedHashes_check hrow, List.mem_append, List.mem_map]
      simp only [Call.check.injEq, exists_eq_left', hnamed, Call.Forgets, not_false_iff, and_true,
        List.mem_filter, Bool.not_eq_true', decide_eq_false_iff_not, List.mem_map]
      constructor
      · rintro (⟨item', hitem', hhash⟩ | hstored)
        · by_cases hstored : hashing.createValueHash item' ∈ storedHashes (rowAfter hashing calls)
          · exact Or.inl (hhash ▸ hstored)
          · exact Or.inr ⟨item', ⟨hitem', hstored⟩, hhash⟩
        · exact Or.inl hstored
      · rintro (hstored | ⟨item', ⟨hitem', -⟩, hhash⟩)
        · exact Or.inr hstored
        · exact Or.inl ⟨item', hitem', hhash⟩
    | remove items =>
      rw [storedHashes_remove hrow, mem_removeHashes, or_iff_right nofun]
      simp only [Call.Forgets, hnamed]
      by_cases hmem : hashing.createValueHash item ∈ items.map hashing.createValueHash
      · obtain ⟨item', hitem', hhash⟩ := List.mem_map.mp hmem
        have hcount := h calls items (List.prefix_refl _) item' hitem'
        rw [hhash] at hcount
        exact iff_of_false (fun hnot => hnot.2 hmem) (Nat.not_lt.mpr hcount)
      · rw [List.count_eq_zero_of_not_mem hmem, List.count_pos_iff]
        exact and_iff_left hmem
    | clear => exact iff_of_false (by simp [Call.Forgets]) List.not_mem_nil

/-- The history is exact exactly when each removal removes all copies of what it names. -/
theorem historyExact_iff_removesAllCopies
    (hinj : ∀ a b, hashing.createValueHash a = hashing.createValueHash b →
      hashing.toText a = hashing.toText b) :
    HistoryExact hashing calls ↔ RemovesAllCopies hashing calls := by
  constructor
  · intro h before items hearlier item hitem
    have hanswer := answersExactly_iff.mp (h _ hearlier [item]) item (List.mem_singleton.mpr rfl)
    have hforgotten : ¬ Recorded hashing (before ++ [.remove items]) (hashing.toText item) := by
      rw [recorded_concat, or_iff_right nofun]
      exact fun hrecorded => hrecorded.2 (List.mem_map.mpr ⟨item, hitem, rfl⟩)
    rw [rowAfter_concat, storedHashes_remove (isEntries_rowAfter before), mem_removeHashes]
      at hanswer
    exact Nat.le_of_not_lt fun hlt => hforgotten (hanswer.mpr hlt)
  · intro h before hbefore items
    refine answersExactly_iff.mpr fun item _ => RemovesAllCopies.recorded_iff hinj ?_ item
    exact fun before' items' hearlier => h before' items' (hearlier.trans hbefore)

end

section Example

/-- Texts as items, and each as its own hash. -/
def textHashing : Hashing String String := ⟨id, id⟩

theorem removedOnce_historyExact :
    HistoryExact textHashing [.check ["a", "b"], .remove ["b"], .check ["b"]] := by
  refine (historyExact_iff_removesAllCopies fun _ _ h => h).mpr ?_
  intro before items hearlier item hitem
  match before with
  | [] => simp at hearlier
  | [_] =>
    simp only [List.cons_append, List.nil_append, List.cons_prefix_cons, Call.remove.injEq,
      List.nil_prefix, and_true] at hearlier
    obtain ⟨rfl, rfl⟩ := hearlier
    obtain rfl := List.mem_singleton.mp hitem
    decide
  | [_, _] => simp at hearlier
  | _ :: _ :: _ :: _ => simp at hearlier

/-- The copies of an item that is repeated in the first list are removed one by one. -/
theorem removedCopy_not_historyExact :
    (∀ a b, textHashing.createValueHash a = textHashing.createValueHash b →
      textHashing.toText a = textHashing.toText b) ∧
    ¬ HistoryExact textHashing [.check ["a", "a"], .remove ["a"], .check ["a"]] := by
  refine ⟨fun _ _ h => h, fun h => ?_⟩
  have hanswer := answersExactly_iff.mp (h [.check ["a", "a"], .remove ["a"]] (by simp) ["a"]) "a"
    (List.mem_singleton.mpr rfl)
  have hrecorded := hanswer.mpr (by decide)
  rw [← List.singleton_append, recorded_concat] at hrecorded
  rcases hrecorded with ⟨items, hcall, -⟩ | ⟨-, hforgets⟩
  · cases hcall
  · exact hforgets (List.mem_singleton.mpr rfl)

end Example
end N8n.Deduplication
