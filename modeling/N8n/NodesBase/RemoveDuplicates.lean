import Mathlib.Data.Rat.Cast.Defs
import Mathlib.Algebra.Order.Ring.Rat
import N8n.Foundations.FoldM
import N8n.Foundations.JsonValues
import N8n.Foundations.StableSorts
import N8n.NodeParameters.FromAI

/-!
# Items without their duplicates

The items are sorted by the fields to compare, and of items that come next to each other and are
equal only the first is kept. The model has the dot notation disabled and keeps all fields of the
items.
-/

namespace N8n.RemoveDuplicates
open N8n.JsonValues N8n.StableSorts

/-- The equality of two values up to their content, and the order of lodash. -/
structure Lodash where
  isEqual : Value → Value → Bool
  lt : Value → Value → Bool

structure INodeExecutionData where
  json : Properties

inductive NodeError where
  | typeError
  | applicationError (message : String)
  | operationError (message : String) (description : Option String)
  deriving DecidableEq, Repr

/-- The value of a parameter that lists fields. -/
inductive FieldsParameter where
  | text (fields : String)
  | list (fields : List String)
  | other
  deriving DecidableEq, Repr

def trim (s : String) : String := String.ofList (FromAI.trim s.toList)

def prepareFieldsArray (fields : FieldsParameter) (fieldName : String) :
    Except NodeError (List String) :=
  match fields with
  | .text fields => .ok (((fields.toList.splitOn ',').map fun entry =>
      String.ofList (FromAI.trim entry)).filter fun entry => entry ≠ "")
  | .list fields => .ok fields
  | .other => .error (.applicationError ("The '" ++ fieldName ++ "' parameter must be a string of" ++
      " fields separated by commas or an array of strings."))

inductive Compare where
  | allFields
  | allFieldsExcept (fieldsToExclude : FieldsParameter)
  | selectedFields (fieldsToCompare : FieldsParameter)
  deriving DecidableEq, Repr

def addKeys (keys : List String) (item : INodeExecutionData) : List String :=
  item.json.keys.foldl (fun keys key => if key ∈ keys then keys else keys ++ [key]) keys

/-- The fields that are compared, from those of all items. -/
def keysToCompare (compare : Compare) : List INodeExecutionData → Except NodeError (List String)
  | [] => .error .typeError
  | first :: rest =>
    let keys := (first :: rest).foldl addKeys first.json.keys
    match compare with
    | .allFields => .ok keys
    | .allFieldsExcept fields => do
      let fieldsToExclude ← prepareFieldsArray fields "Fields To Exclude"
      if fieldsToExclude = [] then
        .error (.operationError
          "No fields specified. Please add a field to exclude from comparison" none)
      else .ok (keys.filter fun key => key ∉ fieldsToExclude)
    | .selectedFields fields => do
      let fieldsToCompare ← prepareFieldsArray fields "Fields To Compare"
      if fieldsToCompare = [] then
        .error (.operationError "No fields specified. Please add a field to compare on" none)
      else .ok (fieldsToCompare.map trim)

variable (lodash : Lodash) (inherited : String → Value) (typeVersion : ℚ)

def INodeExecutionData.valueOf (item : INodeExecutionData) (key : String) : Value :=
  item.json.get inherited key

def missingField (key : String) (description : Option String) : NodeError :=
  .operationError ("'" ++ key ++ "' field is missing from some input items") description

def nestedFieldHint : String :=
  "If you're trying to use a nested field, make sure you turn off 'disable dot notation' in the" ++
    " node options"

/-- The value at the index `i` does not have the type of the one before. -/
def typeVaries (key type : String) (i : ℕ) (value : Value) : NodeError :=
  .operationError ("'" ++ key ++ "' isn't always the same type")
    (some ("The type of this field varies between items" ++
      if typeVersion > 1 then ", in item [" ++ toString (i - 1) ++ "] it's a " ++ type ++
        " and in item [" ++ toString i ++ "] it's a " ++ value.typeof ++ " "
      else ""))

/-- The items under one key. `type` is that of the last value that counted. -/
def checkItems (key : String) :
    Option String → List (INodeExecutionData × ℕ) → Except NodeError Unit
  | _, [] => .ok ()
  | type, (item, i) :: rest =>
    let value := item.valueOf inherited key
    if key = "" then .error (.operationError "Name of field to compare is blank" none)
    else if value.isNull ∧ typeVersion > 1 then checkItems key type rest
    else if value.isUndefined ∧ '.' ∈ key.toList then
      .error (missingField key (some nestedFieldHint))
    else if value.isUndefined then .error (missingField key none)
    else
      match type with
      | none => checkItems key (some value.typeof) rest
      | some type =>
        if type ≠ value.typeof then .error (typeVaries typeVersion key type i value)
        else checkItems key (some value.typeof) rest

def validateInputData (items : List INodeExecutionData) (keys : List String) :
    Except NodeError Unit :=
  keys.forM fun key => checkItems inherited typeVersion key none items.zipIdx

/-- The function that the items are sorted by: at the first key that differs. -/
def comparator (keys : List String) (a b : INodeExecutionData) : ℤ :=
  match keys.find? fun key => !lodash.isEqual (a.valueOf inherited key) (b.valueOf inherited key) with
  | none => 0
  | some key => if lodash.lt (a.valueOf inherited key) (b.valueOf inherited key) then -1 else 1

def compareItems (obj1 obj2 : INodeExecutionData) (keys : List String) : Bool :=
  keys.all fun key => lodash.isEqual (obj1.valueOf inherited key) (obj2.valueOf inherited key)

/-- An item with its index as a property of its own. -/
def withIndex (item : INodeExecutionData) (index : ℕ) : INodeExecutionData :=
  ⟨item.json.set "__INDEX" (.number index)⟩

def withIndices (items : List INodeExecutionData) : List INodeExecutionData :=
  items.zipIdx.map fun (item, index) => withIndex item index

/-- The loop over the sorted items, with the last one that is kept. -/
def findRemoved (keys : List String) : List INodeExecutionData → List Value
  | [] => []
  | first :: rest => (rest.foldl (fun (removedIndexes, temp) item =>
      if compareItems lodash inherited item temp keys then
        (removedIndexes ++ [item.valueOf inherited "__INDEX"], temp)
      else (removedIndexes, item)) ([], first)).1

/-- The items that are kept, each with its index. -/
def removeDuplicateInputItems
    (sort : (INodeExecutionData → INodeExecutionData → ℤ) → List INodeExecutionData →
      List INodeExecutionData)
    (compare : Compare) (items : List INodeExecutionData) :
    Except NodeError (List (INodeExecutionData × ℕ)) := do
  let keys ← keysToCompare compare items
  let newItems := sort (comparator lodash inherited keys) (withIndices items)
  validateInputData inherited typeVersion newItems keys
  let removedIndexes := findRemoved lodash inherited keys newItems
  return items.zipIdx.filter fun (_, index) => .number index ∉ removedIndexes

/-! ### Equal items -/

/-- The fields of two items that a way to compare looks at. -/
def comparedFields (compare : Compare) (a b : INodeExecutionData) : List String :=
  let fieldsOf := fun fields name => (prepareFieldsArray fields name).toOption.getD []
  match compare with
  | .allFields => a.json.keys ++ b.json.keys
  | .allFieldsExcept fields =>
    (a.json.keys ++ b.json.keys).filter fun key => key ∉ fieldsOf fields "Fields To Exclude"
  | .selectedFields fields => (fieldsOf fields "Fields To Compare").map trim

def equalItems (compare : Compare) (a b : INodeExecutionData) : Bool :=
  compareItems lodash inherited a b (comparedFields compare a b)

/-- The items that have no earlier item equal to them, each with its index. -/
def firstItems (compare : Compare) (items : List INodeExecutionData) :
    List (INodeExecutionData × ℕ) :=
  items.zipIdx.filter fun (item, index) =>
    (items.take index).all fun earlier => !equalItems lodash inherited compare earlier item

/-- What lodash says of `isEqual`, and that numbers are equal only to themselves. -/
structure Lodash.EqualityLaws : Prop where
  equivalence : Equivalence fun v w => lodash.isEqual v w = true
  numbers : ∀ m n : ℚ, lodash.isEqual (.number m) (.number n) = true → m = n

section Validation
variable {inherited typeVersion} {keys : List String} {key : String}
  {items items' : List INodeExecutionData}

/-- All values under the key are there and have one type, those that are skipped apart. -/
def HasType (inherited : String → Value) (typeVersion : ℚ) (key type : String)
    (item : INodeExecutionData) : Prop :=
  key ≠ "" ∧ ((item.valueOf inherited key).isNull ∧ typeVersion > 1 ∨
    (item.valueOf inherited key).isUndefined = false ∧ (item.valueOf inherited key).typeof = type)

theorem checkItems_some_iff {type : String} {entries : List (INodeExecutionData × ℕ)} :
    checkItems inherited typeVersion key (some type) entries = .ok () ↔
      ∀ entry ∈ entries, HasType inherited typeVersion key type entry.1 := by
  induction entries with
  | nil => simp [checkItems]
  | cons entry entries ih =>
    obtain ⟨item, i⟩ := entry
    rw [checkItems, List.forall_mem_cons, HasType]
    dsimp only
    split_ifs with hblank hskip hdots hundefined htype
    · simp [hblank]
    · rw [ih]
      simp [hblank, hskip]
    · simp [hskip, hdots.1]
    · simp [hskip, hundefined]
    · simp [hskip, Ne.symm htype]
    · rw [not_not] at htype
      rw [← htype, ih]
      simp [hblank, hundefined]

theorem checkItems_none_iff {entries : List (INodeExecutionData × ℕ)} :
    checkItems inherited typeVersion key none entries = .ok () ↔
      ∃ type, ∀ entry ∈ entries, HasType inherited typeVersion key type entry.1 := by
  induction entries with
  | nil => simp [checkItems]
  | cons entry entries ih =>
    obtain ⟨item, i⟩ := entry
    simp only [List.forall_mem_cons]
    rw [checkItems]
    split_ifs with hblank hskip hdots hundefined
    · simp [HasType, hblank]
    · rw [ih]
      simp [HasType, hblank, hskip]
    · simp [HasType, hskip, hdots.1]
    · simp [HasType, hskip, hundefined]
    · rw [checkItems_some_iff]
      constructor
      · intro h
        exact ⟨_, ⟨hblank, .inr ⟨by simpa using hundefined, rfl⟩⟩, h⟩
      · rintro ⟨type, ⟨-, hskipped | ⟨-, rfl⟩⟩, h⟩
        · exact absurd hskipped hskip
        · exact h

/-- Whether the validation passes does not depend on the order of the items. -/
theorem validateInputData_perm (h : items.Perm items') :
    validateInputData inherited typeVersion items keys = .ok () ↔
      validateInputData inherited typeVersion items' keys = .ok () := by
  have hentries : ∀ (l : List INodeExecutionData) (P : INodeExecutionData → Prop),
      (∀ entry ∈ l.zipIdx, P entry.1) ↔ ∀ item ∈ l, P item := by
    intro l P
    conv_rhs => rw [← List.zipIdx_map_fst 0 l]
    exact List.forall_mem_map.symm
  rw [validateInputData, validateInputData, FoldM.forM_ok_iff, FoldM.forM_ok_iff]
  refine forall₂_congr fun key _ => ?_
  rw [checkItems_none_iff, checkItems_none_iff]
  refine exists_congr fun type => ?_
  rw [hentries, hentries]
  exact forall_congr' fun item => imp_congr_left h.mem_iff

end Validation

section Fields
variable {lodash inherited} {keys keys' : List String} {compare : Compare}
  {items : List INodeExecutionData} {a b d : INodeExecutionData}

theorem compareItems_iff : compareItems lodash inherited a b keys = true ↔
    ∀ key ∈ keys, lodash.isEqual (a.valueOf inherited key) (b.valueOf inherited key) = true := by
  rw [compareItems, List.all_eq_true]

/-- Fields that both items inherit make no difference. -/
theorem compareItems_congr (hlaws : lodash.EqualityLaws) (hsub : keys' ⊆ keys)
    (hrest : ∀ key ∈ keys, key ∉ keys' → key ∉ a.json.keys ∧ key ∉ b.json.keys) :
    compareItems lodash inherited a b keys = compareItems lodash inherited a b keys' := by
  rw [Bool.eq_iff_iff, compareItems_iff, compareItems_iff]
  refine ⟨fun h key hkey => h key (hsub hkey), fun h key hkey => ?_⟩
  by_cases hmem : key ∈ keys'
  · exact h key hmem
  · obtain ⟨ha, hb⟩ := hrest key hkey hmem
    rw [INodeExecutionData.valueOf, INodeExecutionData.valueOf, Properties.get_of_not_mem ha,
      Properties.get_of_not_mem hb]
    exact hlaws.equivalence.refl _

theorem mem_foldl_addKey {key : String} {itemKeys keys : List String} :
    key ∈ itemKeys.foldl (fun keys key => if key ∈ keys then keys else keys ++ [key]) keys ↔
      key ∈ keys ∨ key ∈ itemKeys := by
  induction itemKeys generalizing keys with
  | nil => simp
  | cons key' itemKeys ih =>
    rw [List.foldl_cons, ih, List.mem_cons]
    split_ifs with hmem
    · have hself : key = key' → key ∈ keys := fun heq => heq ▸ hmem
      tauto
    · simp [or_assoc]

theorem mem_foldl_addKeys {key : String} {keys : List String} :
    key ∈ items.foldl addKeys keys ↔ key ∈ keys ∨ ∃ item ∈ items, key ∈ item.json.keys := by
  induction items generalizing keys with
  | nil => simp
  | cons item items ih =>
    rw [List.foldl_cons, ih, addKeys, mem_foldl_addKey, List.exists_mem_cons_iff, or_assoc]

/-- All fields of all items are compared; only those of the two items can differ. -/
theorem compareItems_eq_equalItems (hlaws : lodash.EqualityLaws)
    (hkeys : keysToCompare compare items = .ok keys) (ha : a ∈ items) (hb : b ∈ items) :
    compareItems lodash inherited a b keys = equalItems lodash inherited compare a b := by
  cases items with
  | nil => cases ha
  | cons first rest =>
    have hsub : a.json.keys ++ b.json.keys ⊆
        (first :: rest).foldl addKeys first.json.keys := by
      intro key hkey
      rw [mem_foldl_addKeys]
      rcases List.mem_append.mp hkey with hkey | hkey
      · exact .inr ⟨a, ha, hkey⟩
      · exact .inr ⟨b, hb, hkey⟩
    have hother : ∀ key, key ∉ a.json.keys ++ b.json.keys →
        key ∉ a.json.keys ∧ key ∉ b.json.keys := by
      intro key hkey
      rw [List.mem_append, not_or] at hkey
      exact hkey
    unfold keysToCompare at hkeys
    cases compare with
    | allFields =>
      cases hkeys
      exact compareItems_congr hlaws hsub fun key _ hkey => hother key hkey
    | allFieldsExcept fields =>
      cases hfields : prepareFieldsArray fields "Fields To Exclude" with
      | error e => simp [hfields, bind, Except.bind] at hkeys
      | ok fieldsToExclude =>
        simp only [hfields, bind, Except.bind] at hkeys
        split_ifs at hkeys
        cases hkeys
        simp only [equalItems, comparedFields, hfields]
        refine compareItems_congr hlaws (fun key hkey => ?_) fun key hkey hnot => ?_
        · obtain ⟨hmem, hkept⟩ := List.mem_filter.mp hkey
          exact List.mem_filter.mpr ⟨hsub hmem, hkept⟩
        · have hkept := (List.mem_filter.mp hkey).2
          exact hother key fun hmem => hnot (List.mem_filter.mpr ⟨hmem, hkept⟩)
    | selectedFields fields =>
      cases hfields : prepareFieldsArray fields "Fields To Compare" with
      | error e => simp [hfields, bind, Except.bind] at hkeys
      | ok fieldsToCompare =>
        simp only [hfields, bind, Except.bind] at hkeys
        split_ifs at hkeys
        cases hkeys
        simp only [equalItems, comparedFields, hfields]
        rfl

theorem compareItems_comm (hlaws : lodash.EqualityLaws) (a b : INodeExecutionData) :
    compareItems lodash inherited a b keys = compareItems lodash inherited b a keys := by
  rw [Bool.eq_iff_iff, compareItems_iff, compareItems_iff]
  exact forall₂_congr fun key _ =>
    ⟨fun h => hlaws.equivalence.symm h, fun h => hlaws.equivalence.symm h⟩

theorem comparator_cons (key : String) (keys : List String) (a b : INodeExecutionData) :
    comparator lodash inherited (key :: keys) a b =
      if lodash.isEqual (a.valueOf inherited key) (b.valueOf inherited key) then
        comparator lodash inherited keys a b
      else if lodash.lt (a.valueOf inherited key) (b.valueOf inherited key) then -1 else 1 := by
  rw [comparator, List.find?_cons]
  cases lodash.isEqual (a.valueOf inherited key) (b.valueOf inherited key) <;> rfl

/-- The comparator takes two items for equal if all their compared fields are. -/
theorem comparator_eq_zero_iff :
    comparator lodash inherited keys a b = 0 ↔ compareItems lodash inherited a b keys = true := by
  induction keys with
  | nil => exact iff_of_true rfl rfl
  | cons key keys ih =>
    rw [comparator_cons, compareItems, List.all_cons, ← compareItems, Bool.and_eq_true]
    split_ifs with hequal hlt
    · rw [ih]
      simp [hequal]
    · simp [hequal]
    · simp [hequal]

end Fields

/-! ### The indices -/

section Indices
variable {lodash inherited} {keys : List String} {items : List INodeExecutionData}
  {a b x : INodeExecutionData} {i j : ℕ}

theorem valueOf_withIndex_index (a : INodeExecutionData) (i : ℕ) :
    (withIndex a i).valueOf inherited "__INDEX" = .number i :=
  Properties.get_of_get? (OrderedMap.get?_set_self _ _ _)

theorem valueOf_withIndex {key : String} (h : key ≠ "__INDEX") (a : INodeExecutionData) (i : ℕ) :
    (withIndex a i).valueOf inherited key = a.valueOf inherited key := by
  rw [INodeExecutionData.valueOf, INodeExecutionData.valueOf, withIndex, Properties.get,
    Properties.get, OrderedMap.get?_set_of_ne (Ne.symm h)]

theorem comparator_withIndex (h : "__INDEX" ∉ keys) (a b : INodeExecutionData) (i j : ℕ) :
    comparator lodash inherited keys (withIndex a i) (withIndex b j) =
      comparator lodash inherited keys a b := by
  induction keys with
  | nil => rfl
  | cons key keys ih =>
    rw [List.mem_cons, not_or] at h
    rw [comparator_cons, comparator_cons, ih h.2, valueOf_withIndex (Ne.symm h.1),
      valueOf_withIndex (Ne.symm h.1)]

theorem withIndex_inj (h : withIndex a i = withIndex b j) : i = j := by
  have hvalue := congrArg (INodeExecutionData.valueOf (fun _ => .undefined) · "__INDEX") h
  simpa [valueOf_withIndex_index] using hvalue

theorem mem_withIndices : x ∈ withIndices items ↔
    ∃ (i : ℕ) (item : INodeExecutionData), items[i]? = some item ∧ withIndex item i = x := by
  rw [withIndices, List.mem_map]
  constructor
  · rintro ⟨⟨item, i⟩, hmem, rfl⟩
    exact ⟨i, item, List.mem_zipIdx_iff_getElem?.mp hmem, rfl⟩
  · rintro ⟨i, item, hmem, rfl⟩
    exact ⟨(item, i), List.mem_zipIdx_iff_getElem?.mpr hmem, rfl⟩

theorem consistent_withIndices_iff (h : "__INDEX" ∉ keys) :
    Consistent (comparator lodash inherited keys) (withIndices items) ↔
      Consistent (comparator lodash inherited keys) items := by
  constructor
  · intro hc
    refine hc.of_rel (fun x item => ∃ i, withIndex item i = x) (fun item hitem => ?_) ?_
    · obtain ⟨i, hi⟩ := List.mem_iff_getElem?.mp hitem
      exact ⟨withIndex item i, mem_withIndices.mpr ⟨i, item, hi, rfl⟩, i, rfl⟩
    · rintro _ a _ b ⟨i, rfl⟩ ⟨j, rfl⟩
      exact (comparator_withIndex h a b i j).symm
  · intro hc
    refine hc.of_rel (fun item x => ∃ i, withIndex item i = x) (fun x hx => ?_) ?_
    · obtain ⟨i, item, hi, rfl⟩ := mem_withIndices.mp hx
      exact ⟨item, List.mem_of_getElem? hi, i, rfl⟩
    · rintro a _ b _ ⟨i, rfl⟩ ⟨j, rfl⟩
      exact comparator_withIndex h a b i j

/-- No two items are equal, or they are told apart by the index among their fields. -/
theorem pairwise_withIndices (hlaws : lodash.EqualityLaws)
    (h : "__INDEX" ∈ keys ∨
      items.Pairwise fun a b => compareItems lodash inherited a b keys = false) :
    (withIndices items).Pairwise fun a b => compareItems lodash inherited a b keys = false := by
  rw [withIndices, List.pairwise_map]
  by_cases hindex : "__INDEX" ∈ keys
  · have hlt : (items.zipIdx.map Prod.snd).Pairwise (· < ·) := by
      rw [List.zipIdx_map_snd]
      exact List.pairwise_lt_range'
    refine (List.pairwise_map.mp hlt).imp fun hij => Bool.eq_false_iff.mpr fun hequal => ?_
    have hnumbers := compareItems_iff.mp hequal "__INDEX" hindex
    rw [valueOf_withIndex_index, valueOf_withIndex_index] at hnumbers
    have hsame := hlaws.numbers _ _ hnumbers
    exact absurd hij (by simp [Nat.cast_injective.eq_iff.mp hsame])
  · have hpairs := h.resolve_left hindex
    rw [← List.zipIdx_map_fst 0 items, List.pairwise_map] at hpairs
    refine hpairs.imp fun {p q} hpq => ?_
    rw [Bool.eq_false_iff, ne_eq, ← comparator_eq_zero_iff, comparator_withIndex hindex,
      comparator_eq_zero_iff, hpq]
    exact Bool.false_ne_true

/-- An item has an equal one before it in the list with indices exactly if it has one without. -/
theorem repeated_withIndices (h : "__INDEX" ∉ keys) {k : ℕ} (hi : items[i]? = some a) :
    Repeated (comparator lodash inherited keys)
        ((items.zipIdx k).map fun (item, index) => withIndex item index) (withIndex a (k + i)) ↔
      ∃ earlier ∈ items.take i, comparator lodash inherited keys earlier a = 0 := by
  have hmem : ∀ (l : List INodeExecutionData) (k n : ℕ) (b : INodeExecutionData),
      withIndex b n ∈ (l.zipIdx k).map (fun (item, index) => withIndex item index) → k ≤ n := by
    intro l k n b hb
    obtain ⟨⟨item, index⟩, hindex, heq⟩ := List.mem_map.mp hb
    rw [← withIndex_inj heq]
    exact List.le_snd_of_mem_zipIdx hindex
  induction items generalizing k i with
  | nil => simp at hi
  | cons item items ih =>
    rw [List.zipIdx_cons, List.map_cons, repeated_cons]
    cases i with
    | zero =>
      have hnot : withIndex a (k + 0) ∉
          (items.zipIdx (k + 1)).map fun (item, index) => withIndex item index := by
        intro hb
        have hle := hmem _ _ _ _ hb
        omega
      simp only [hnot, and_false, false_or, List.take_zero, List.not_mem_nil, false_and,
        exists_false, iff_false]
      rintro ⟨y, hsub, -⟩
      exact hnot (mem_of_pair_sublist hsub).2
    | succ i =>
      rw [List.getElem?_cons_succ] at hi
      have hin : withIndex a (k + (i + 1)) ∈
          (items.zipIdx (k + 1)).map fun (item, index) => withIndex item index := by
        refine List.mem_map.mpr ⟨(a, k + (i + 1)), ?_, rfl⟩
        rw [List.mem_zipIdx_iff_le_and_getElem?_sub]
        refine ⟨by omega, ?_⟩
        rw [← hi]
        congr 1
        omega
      have hrest := ih (k := k + 1) hi
      have hnext : k + 1 + i = k + (i + 1) := by omega
      rw [hnext] at hrest
      rw [comparator_withIndex h, List.take_succ_cons, List.exists_mem_cons_iff, and_iff_left hin]
      exact or_congr_right hrest

theorem findRemoved_cons (first : INodeExecutionData) (rest : List INodeExecutionData) :
    findRemoved lodash inherited keys (first :: rest) =
      (adjacentRepeats (fun item temp => compareItems lodash inherited item temp keys) first
        rest).map (·.valueOf inherited "__INDEX") := by
  have hfold : ∀ (rest : List INodeExecutionData) (removed : List Value)
      (temp : INodeExecutionData), (rest.foldl (fun (removedIndexes, temp) item =>
        if compareItems lodash inherited item temp keys then
          (removedIndexes ++ [item.valueOf inherited "__INDEX"], temp)
        else (removedIndexes, item)) (removed, temp)).1 = removed ++
      (adjacentRepeats (fun item temp => compareItems lodash inherited item temp keys) temp
        rest).map (·.valueOf inherited "__INDEX") := by
    intro rest
    induction rest with
    | nil => intro removed temp; simp [adjacentRepeats]
    | cons item rest ih =>
      intro removed temp
      rw [List.foldl_cons, adjacentRepeats]
      by_cases hsame : compareItems lodash inherited item temp keys = true
      · simp only [hsame, if_true]
        rw [ih, List.map_cons, List.append_assoc]
        rfl
      · simp only [hsame, if_false, Bool.false_eq_true]
        exact ih removed item
  exact hfold rest [] first

end Indices

section Main
variable {lodash inherited typeVersion} {keys : List String} {compare : Compare}
  {items : List INodeExecutionData} {a : INodeExecutionData} {i : ℕ}
  {sort : (INodeExecutionData → INodeExecutionData → ℤ) → List INodeExecutionData →
    List INodeExecutionData}

theorem removeDuplicateInputItems_ok (hkeys : keysToCompare compare items = .ok keys)
    (hvalid : validateInputData inherited typeVersion (withIndices items) keys = .ok ())
    (hsort : IsStableSort sort) :
    removeDuplicateInputItems lodash inherited typeVersion sort compare items =
      .ok (items.zipIdx.filter fun (_, index) => .number index ∉ findRemoved lodash inherited keys
        (sort (comparator lodash inherited keys) (withIndices items))) := by
  have hperm := hsort.perm (comparator lodash inherited keys) (withIndices items)
  have hsorted := (validateInputData_perm hperm).mpr hvalid
  rw [removeDuplicateInputItems, hkeys]
  simp only [bind, Except.bind, hsorted]
  rfl

/-- With a stable sort and a consistent comparator an item is removed if it has an equal one before
it. -/
theorem mem_findRemoved_iff (hsort : IsStableSort sort) (hindex : "__INDEX" ∉ keys) (hc : Consistent (comparator lodash inherited keys) items)
    (hi : items[i]? = some a) :
    .number i ∈ findRemoved lodash inherited keys
        (sort (comparator lodash inherited keys) (withIndices items)) ↔
      ∃ earlier ∈ items.take i, compareItems lodash inherited earlier a keys = true := by
  have hc := (consistent_withIndices_iff hindex).mpr hc
  have hperm := hsort.perm (comparator lodash inherited keys) (withIndices items)
  have hsorted := hsort.sorted _ _ hc
  have hrepeated := hsort.repeated_iff (x := withIndex a i) hc
  have hfirst : Repeated (comparator lodash inherited keys) (withIndices items) (withIndex a i) ↔
      ∃ earlier ∈ items.take i, compareItems lodash inherited earlier a keys = true := by
    have h := @repeated_withIndices lodash inherited keys items a i hindex 0 hi
    rw [Nat.zero_add] at h
    simp only [comparator_eq_zero_iff] at h
    exact h
  rw [hfirst] at hrepeated
  cases hnew : sort (comparator lodash inherited keys) (withIndices items) with
  | nil =>
    rw [hnew] at hrepeated
    refine iff_of_false List.not_mem_nil fun h => ?_
    obtain ⟨y, hsub, -⟩ := hrepeated.mpr h
    cases hsub
  | cons first rest =>
    rw [hnew] at hrepeated hsorted hperm
    have hsame : ∀ x ∈ first :: rest, ∀ y ∈ first :: rest,
        compareItems lodash inherited x y keys = true ↔ comparator lodash inherited keys x y = 0 :=
      fun x _ y _ => comparator_eq_zero_iff.symm
    have hrepeats := mem_adjacentRepeats_iff (x := withIndex a i)
      (hc.mono fun x hx => hperm.mem_iff.mp hx) hsorted hsame
    rw [findRemoved_cons, ← hrepeated, ← hrepeats, List.mem_map]
    constructor
    · rintro ⟨x, hx, hvalue⟩
      obtain ⟨j, b, hj, rfl⟩ := mem_withIndices.mp
        (hperm.mem_iff.mp (List.mem_cons_of_mem _ (adjacentRepeats_subset hx)))
      rw [valueOf_withIndex_index, Value.number.injEq, Nat.cast_inj] at hvalue
      subst hvalue
      rw [hi, Option.some.injEq] at hj
      rw [hj]
      exact hx
    · intro hx
      exact ⟨withIndex a i, hx, valueOf_withIndex_index a i⟩

theorem filter_eq_filter_iff {α : Type*} {p q : α → Bool} {l : List α} :
    l.filter p = l.filter q ↔ ∀ a ∈ l, p a = q a := by
  refine ⟨fun h a ha => ?_, List.filter_congr⟩
  have hmem : a ∈ l.filter p ↔ a ∈ l.filter q := by rw [h]
  rw [List.mem_filter, List.mem_filter, and_iff_right ha, and_iff_right ha] at hmem
  exact Bool.eq_iff_iff.mpr hmem

/-- The values that the items have under a key are in a strict order, in which equal ones are the
same. -/
structure Ordered (lodash : Lodash) (inherited : String → Value) (items : List INodeExecutionData)
    (key : String) : Prop where
  same : ∀ a ∈ items, ∀ b ∈ items,
    lodash.isEqual (a.valueOf inherited key) (b.valueOf inherited key) = true →
      a.valueOf inherited key = b.valueOf inherited key
  total : ∀ a ∈ items, ∀ b ∈ items,
    lodash.isEqual (a.valueOf inherited key) (b.valueOf inherited key) = false →
      (lodash.lt (a.valueOf inherited key) (b.valueOf inherited key) = true ↔
        lodash.lt (b.valueOf inherited key) (a.valueOf inherited key) = false)
  trans : ∀ a ∈ items, ∀ b ∈ items, ∀ c ∈ items,
    lodash.lt (a.valueOf inherited key) (b.valueOf inherited key) = true →
    lodash.lt (b.valueOf inherited key) (c.valueOf inherited key) = true →
      lodash.isEqual (a.valueOf inherited key) (c.valueOf inherited key) = false ∧
        lodash.lt (a.valueOf inherited key) (c.valueOf inherited key) = true

theorem comparator_le_zero_cons (key : String) (keys : List String) (a b : INodeExecutionData) :
    comparator lodash inherited (key :: keys) a b ≤ 0 ↔
      lodash.isEqual (a.valueOf inherited key) (b.valueOf inherited key) = true ∧
        comparator lodash inherited keys a b ≤ 0 ∨
      lodash.isEqual (a.valueOf inherited key) (b.valueOf inherited key) = false ∧
        lodash.lt (a.valueOf inherited key) (b.valueOf inherited key) = true := by
  rw [comparator_cons]
  split_ifs with hequal hlt
  · simp [hequal]
  · simp [hequal, hlt]
  · simp [hequal, hlt]

/-- Fields of which the values are ordered make a consistent comparator, one after the other. -/
theorem consistent_comparator (hlaws : lodash.EqualityLaws)
    (h : ∀ key ∈ keys, Ordered lodash inherited items key) :
    Consistent (comparator lodash inherited keys) items := by
  induction keys with
  | nil => exact ⟨fun _ _ => rfl, fun _ _ _ _ => by simp [comparator], fun _ _ _ _ _ _ _ _ => le_rfl⟩
  | cons key keys ih =>
    have hkey := h key List.mem_cons_self
    have hrest := ih fun key' hkey' => h key' (List.mem_cons_of_mem _ hkey')
    have hcomm : ∀ v w, lodash.isEqual v w = lodash.isEqual w v := fun v w =>
      Bool.eq_iff_iff.mpr ⟨fun h => hlaws.equivalence.symm h, fun h => hlaws.equivalence.symm h⟩
    refine ⟨fun a ha => ?_, fun a ha b hb => ?_, fun a ha b hb c hc hab hbc => ?_⟩
    · rw [comparator_cons, if_pos (hlaws.equivalence.refl _)]
      exact hrest.self a ha
    · rw [comparator_cons, comparator_cons, hcomm (b.valueOf inherited key)]
      cases hequal : lodash.isEqual (a.valueOf inherited key) (b.valueOf inherited key) with
      | true => exact hrest.neg_iff a ha b hb
      | false =>
        have htotal := hkey.total a ha b hb hequal
        cases hlt : lodash.lt (b.valueOf inherited key) (a.valueOf inherited key) with
        | true => simp [htotal, hlt]
        | false => simp [htotal.mpr hlt]
    · rw [comparator_le_zero_cons] at hab hbc ⊢
      rcases hab with ⟨hab, hle⟩ | ⟨hab, hlt⟩
      · have hvalue := hkey.same a ha b hb hab
        rw [hvalue]
        rcases hbc with ⟨hbc, hle'⟩ | hbc
        · exact .inl ⟨hbc, hrest.trans a ha b hb c hc hle hle'⟩
        · exact .inr hbc
      · rcases hbc with ⟨hbc, -⟩ | ⟨hbc, hlt'⟩
        · rw [← hkey.same b hb c hc hbc]
          exact .inr ⟨hab, hlt⟩
        · exact .inr (hkey.trans a ha b hb c hc hlt hlt')

/-- What is kept is right if the removed indices are those of the items with an equal one before
them. -/
theorem filter_eq_firstItems_iff {removed : List Value} (hlaws : lodash.EqualityLaws)
    (hkeys : keysToCompare compare items = .ok keys) :
    (items.zipIdx.filter fun (_, index) => .number index ∉ removed) =
        firstItems lodash inherited compare items ↔
      ∀ (i : ℕ) (a : INodeExecutionData), items[i]? = some a →
        (.number i ∈ removed ↔
          ∃ earlier ∈ items.take i, compareItems lodash inherited earlier a keys = true) := by
  have hfirst : ∀ (i : ℕ) (a : INodeExecutionData), items[i]? = some a →
      ((items.take i).all (fun earlier => !equalItems lodash inherited compare earlier a) = true ↔
        ¬ ∃ earlier ∈ items.take i, compareItems lodash inherited earlier a keys = true) := by
    intro i a hi
    simp only [List.all_eq_true, Bool.not_eq_true', not_exists, not_and, Bool.not_eq_true]
    refine forall₂_congr fun earlier hearlier => ?_
    rw [compareItems_eq_equalItems hlaws hkeys (List.mem_of_mem_take hearlier)
      (List.mem_of_getElem? hi)]
  rw [firstItems, filter_eq_filter_iff]
  constructor
  · intro h i a hi
    have hsame := Bool.eq_iff_iff.mp (h (a, i) (List.mem_zipIdx_iff_getElem?.mpr hi))
    rw [hfirst i a hi, decide_eq_true_iff] at hsame
    exact not_iff_not.mp hsame
  · rintro h ⟨a, i⟩ hmem
    have hi := List.mem_zipIdx_iff_getElem?.mp hmem
    rw [Bool.eq_iff_iff, hfirst i a hi, decide_eq_true_iff]
    exact not_congr (h i a hi)

theorem findRemoved_of_pairwise (hlaws : lodash.EqualityLaws) {l : List INodeExecutionData}
    (hperm : l.Perm (withIndices items))
    (h : (withIndices items).Pairwise fun a b => compareItems lodash inherited a b keys = false) :
    findRemoved lodash inherited keys l = [] := by
  have hl : l.Pairwise fun a b => compareItems lodash inherited b a keys = false := by
    refine (hperm.pairwise_iff fun {a b} hab => ?_).mpr (h.imp fun {a b} hab => ?_)
    · rw [compareItems_comm hlaws, hab]
    · rw [compareItems_comm hlaws, hab]
  cases l with
  | nil => rfl
  | cons first rest => rw [findRemoved_cons, adjacentRepeats_eq_nil hl, List.map_nil]

/-- An order in which a later item stands before an equal one that has none before it. -/
theorem exists_badOrder (hlaws : lodash.EqualityLaws) (hindex : "__INDEX" ∉ keys)
    (h : ¬ items.Pairwise fun a b => compareItems lodash inherited a b keys = false) :
    ∃ (l : List INodeExecutionData) (i : ℕ) (a : INodeExecutionData), l.Perm (withIndices items) ∧
      items[i]? = some a ∧ .number i ∈ findRemoved lodash inherited keys l ∧
      ¬ ∃ earlier ∈ items.take i, compareItems lodash inherited earlier a keys = true := by
  obtain ⟨j, b, hj, hearlier⟩ : ∃ (j : ℕ) (b : INodeExecutionData), items[j]? = some b ∧
      ∃ (i : ℕ) (a : INodeExecutionData), i < j ∧ items[i]? = some a ∧
        compareItems lodash inherited a b keys = true := by
    rw [List.pairwise_iff_getElem] at h
    push Not at h
    obtain ⟨i, j, hi, hj, hij, hequal⟩ := h
    exact ⟨j, items[j], List.getElem?_eq_getElem hj, i, items[i], hij,
      List.getElem?_eq_getElem hi, by simpa using hequal⟩
  -- the first of the items that are equal to `b`
  classical
  obtain ⟨a, hij, hi, hequal⟩ := Nat.find_spec hearlier
  have hleast := fun k => @Nat.find_min _ _ hearlier k
  generalize Nat.find hearlier = i at hij hi hleast
  have hx : withIndex a i ∈ withIndices items := mem_withIndices.mpr ⟨i, a, hi, rfl⟩
  have hy : withIndex b j ∈ withIndices items := mem_withIndices.mpr ⟨j, b, hj, rfl⟩
  obtain ⟨before, after, hsplit⟩ := List.append_of_mem hx
  have hrest : withIndex b j ∈ before ++ after := by
    rw [hsplit] at hy
    rcases List.mem_append.mp hy with hy | hy
    · exact List.mem_append_left _ hy
    · rcases List.mem_cons.mp hy with hy | hy
      · exact absurd (withIndex_inj hy) (by omega)
      · exact List.mem_append_right _ hy
  obtain ⟨before', after', hsplit'⟩ := List.append_of_mem hrest
  refine ⟨withIndex b j :: withIndex a i :: (before' ++ after'), i, a, ?_, hi, ?_, ?_⟩
  · rw [hsplit]
    refine (List.Perm.swap _ _ _).trans (List.Perm.trans (List.Perm.cons _ ?_)
      List.perm_middle.symm)
    rw [hsplit']
    exact List.perm_middle.symm
  · have hsame : compareItems lodash inherited (withIndex a i) (withIndex b j) keys = true := by
      rw [← comparator_eq_zero_iff, comparator_withIndex hindex, comparator_eq_zero_iff]
      exact hequal
    rw [findRemoved_cons, adjacentRepeats, if_pos hsame, List.map_cons, valueOf_withIndex_index]
    exact List.mem_cons_self
  · rintro ⟨earlier, hmem, hagain⟩
    obtain ⟨k, hk⟩ := List.mem_iff_getElem?.mp hmem
    rw [List.getElem?_take] at hk
    split_ifs at hk with hki
    refine hleast k hki ⟨earlier, by omega, hk, ?_⟩
    rw [compareItems_iff] at hagain hequal ⊢
    exact fun key hkey => hlaws.equivalence.trans (hagain key hkey) (hequal key hkey)

theorem pairwise_iff_forall_take {same : INodeExecutionData → INodeExecutionData → Bool} :
    (items.Pairwise fun a b => same a b = false) ↔
      ∀ (i : ℕ) (a : INodeExecutionData), items[i]? = some a →
        ¬ ∃ earlier ∈ items.take i, same earlier a = true := by
  rw [List.pairwise_iff_getElem]
  constructor
  · rintro h i a hi ⟨earlier, hmem, hsame⟩
    obtain ⟨k, hk⟩ := List.mem_iff_getElem?.mp hmem
    rw [List.getElem?_take] at hk
    split_ifs at hk with hki
    obtain ⟨hlast, rfl⟩ := List.getElem?_eq_some_iff.mp hi
    obtain ⟨hfirst, rfl⟩ := List.getElem?_eq_some_iff.mp hk
    rw [h k i hfirst hlast hki] at hsame
    cases hsame
  · intro h i j hi hj hij
    rw [Bool.eq_false_iff]
    intro hsame
    refine h j items[j] (List.getElem?_eq_getElem hj) ⟨items[i], ?_, hsame⟩
    rw [List.mem_iff_getElem?]
    exact ⟨i, by rw [List.getElem?_take, if_pos hij, List.getElem?_eq_getElem hi]⟩

/-- A call without an error has fields to compare, and they pass the validation. -/
theorem exists_keys_of_ok {kept : List (INodeExecutionData × ℕ)} (hsort : IsStableSort sort)
    (h : removeDuplicateInputItems lodash inherited typeVersion sort compare items = .ok kept) :
    ∃ keys, keysToCompare compare items = .ok keys ∧
      validateInputData inherited typeVersion (withIndices items) keys = .ok () := by
  rw [removeDuplicateInputItems] at h
  cases hkeys : keysToCompare compare items with
  | error e => simp [hkeys, bind, Except.bind] at h
  | ok keys =>
    refine ⟨keys, rfl, ?_⟩
    rw [← validateInputData_perm (hsort.perm (comparator lodash inherited keys) _)]
    cases hvalid : validateInputData inherited typeVersion
        (sort (comparator lodash inherited keys) (withIndices items)) keys with
    | error e => simp [hkeys, hvalid, bind, Except.bind] at h
    | ok u => rfl

/-- The comparator is consistent on the items, and no compared field stands for their index. -/
def SortsWell (lodash : Lodash) (inherited : String → Value) (compare : Compare)
    (items : List INodeExecutionData) : Prop :=
  ∃ keys, keysToCompare compare items = .ok keys ∧ "__INDEX" ∉ keys ∧
    Consistent (comparator lodash inherited keys) items

/-- A stable sort is enough to find all duplicates exactly if there are none or the items sort
well. -/
theorem removesDuplicates_iff (hlaws : lodash.EqualityLaws)
    (hok : ∃ sort, IsStableSort sort ∧ ∃ kept,
      removeDuplicateInputItems lodash inherited typeVersion sort compare items = .ok kept) :
    (∀ sort, IsStableSort sort →
      removeDuplicateInputItems lodash inherited typeVersion sort compare items =
        .ok (firstItems lodash inherited compare items)) ↔
    (items.Pairwise fun a b => equalItems lodash inherited compare a b = false) ∨
      SortsWell lodash inherited compare items := by
  obtain ⟨sort₀, hsort₀, kept, hkept⟩ := hok
  obtain ⟨keys, hkeys, hvalid⟩ := exists_keys_of_ok hsort₀ hkept
  have hpairs : (items.Pairwise fun a b => equalItems lodash inherited compare a b = false) ↔
      items.Pairwise fun a b => compareItems lodash inherited a b keys = false :=
    List.Pairwise.iff_of_mem fun {a b} ha hb => by rw [compareItems_eq_equalItems hlaws hkeys ha hb]
  have hright : ∀ sort, IsStableSort sort →
      (removeDuplicateInputItems lodash inherited typeVersion sort compare items =
          .ok (firstItems lodash inherited compare items) ↔
        ∀ (i : ℕ) (a : INodeExecutionData), items[i]? = some a →
          (.number i ∈ findRemoved lodash inherited keys
              (sort (comparator lodash inherited keys) (withIndices items)) ↔
            ∃ earlier ∈ items.take i, compareItems lodash inherited earlier a keys = true)) := by
    intro sort hsort
    rw [removeDuplicateInputItems_ok hkeys hvalid hsort, Except.ok.injEq,
      filter_eq_firstItems_iff hlaws hkeys]
  have hnone : ∀ sort, IsStableSort sort → ("__INDEX" ∈ keys ∨
      items.Pairwise fun a b => compareItems lodash inherited a b keys = false) →
      findRemoved lodash inherited keys
        (sort (comparator lodash inherited keys) (withIndices items)) = [] := fun sort hsort h =>
    findRemoved_of_pairwise hlaws (hsort.perm _ _) (pairwise_withIndices hlaws h)
  rw [hpairs]
  constructor
  · intro h
    by_cases hindex : "__INDEX" ∈ keys
    · have hfirst := (hright _ isStableSort_insertionSort).mp (h _ isStableSort_insertionSort)
      rw [hnone _ isStableSort_insertionSort (.inl hindex)] at hfirst
      refine .inl (pairwise_iff_forall_take.mpr fun i a hi hearlier => ?_)
      exact List.not_mem_nil ((hfirst i a hi).mpr hearlier)
    · by_contra hbad
      rw [not_or] at hbad
      obtain ⟨l, i, a, hperm, hi, hremoved, hearlier⟩ := exists_badOrder hlaws hindex hbad.1
      have hinconsistent : ¬ Consistent (comparator lodash inherited keys) (withIndices items) := by
        rw [consistent_withIndices_iff hindex]
        exact fun hc => hbad.2 ⟨keys, hkeys, hindex, hc⟩
      obtain ⟨sort, hsort, hl⟩ := exists_isStableSort hinconsistent hperm
      have hfirst := (hright sort hsort).mp (h sort hsort) i a hi
      rw [hl] at hfirst
      exact hearlier (hfirst.mp hremoved)
  · rintro (hdistinct | ⟨keys', hkeys', hindex, hc⟩) sort hsort
    · rw [hright sort hsort, hnone sort hsort (.inr hdistinct)]
      intro i a hi
      exact iff_of_false List.not_mem_nil (pairwise_iff_forall_take.mp hdistinct i a hi)
    · obtain rfl : keys = keys' := Except.ok.inj (hkeys.symm.trans hkeys')
      rw [hright sort hsort]
      exact fun i a hi => mem_findRemoved_iff hsort hindex hc hi

end Main

section Example

/-- Two objects or arrays are not less than one another. -/
def plain : Lodash where
  isEqual v w := v = w
  lt
    | .number m, .number n => m < n
    | .string s, .string t => s < t
    | _, _ => false

theorem plain_equalityLaws : plain.EqualityLaws where
  equivalence := ⟨fun _ => decide_eq_true rfl, fun h => decide_eq_true (of_decide_eq_true h).symm,
    fun h h' => decide_eq_true ((of_decide_eq_true h).trans (of_decide_eq_true h'))⟩
  numbers m n h := by
    have heq := of_decide_eq_true h
    cases heq
    rfl

def objectItem (n : ℚ) : INodeExecutionData :=
  ⟨⟨[("x", .object [("a", .number n)])], by simp⟩⟩

/-- The first and the third item are equal, and every two of them that differ compare as greater. -/
theorem objectItems_keepDuplicate : ¬ ∀ (lodash : Lodash) (inherited : String → Value)
    (typeVersion : ℚ) (compare : Compare) (items : List INodeExecutionData)
    (sort : (INodeExecutionData → INodeExecutionData → ℤ) → List INodeExecutionData →
      List INodeExecutionData) (kept : List (INodeExecutionData × ℕ)),
    lodash.EqualityLaws → IsStableSort sort →
    removeDuplicateInputItems lodash inherited typeVersion sort compare items = .ok kept →
    kept = firstItems lodash inherited compare items := by
  intro h
  let items := [objectItem 1, objectItem 2, objectItem 1]
  have hkeys : keysToCompare .allFields items = .ok ["x"] := by rfl
  have hvalid : validateInputData (fun _ => .undefined) 2 (withIndices items) ["x"] = .ok () := by
    rfl
  have hkept := h plain (fun _ => .undefined) 2 .allFields items insertionSort _ plain_equalityLaws
    isStableSort_insertionSort
    (removeDuplicateInputItems_ok hkeys hvalid isStableSort_insertionSort)
  have hlength := congrArg List.length hkept
  exact absurd hlength (by decide +kernel)

def numberItem (n : ℚ) : INodeExecutionData := ⟨⟨[("id", .number n)], by simp⟩⟩

theorem numberItems_removeDuplicate :
    SortsWell plain (fun _ => .undefined) .allFields [numberItem 2, numberItem 1, numberItem 2] ∧
    ∀ sort, IsStableSort sort →
      removeDuplicateInputItems plain (fun _ => .undefined) 2 sort .allFields
        [numberItem 2, numberItem 1, numberItem 2] =
      .ok (firstItems plain (fun _ => .undefined) .allFields
        [numberItem 2, numberItem 1, numberItem 2]) := by
  let items := [numberItem 2, numberItem 1, numberItem 2]
  have hkeys : keysToCompare .allFields items = .ok ["id"] := by rfl
  have hvalid : validateInputData (fun _ => .undefined) 2 (withIndices items) ["id"] = .ok () := by
    rfl
  have hc : Consistent (comparator plain (fun _ => .undefined) ["id"]) items :=
    ⟨by decide +kernel, by decide +kernel, by decide +kernel⟩
  have hsorts : SortsWell plain (fun _ => .undefined) .allFields items :=
    ⟨["id"], hkeys, by decide, hc⟩
  have hok : ∃ kept, removeDuplicateInputItems plain (fun _ => .undefined) 2 insertionSort
      .allFields items = .ok kept :=
    ⟨_, removeDuplicateInputItems_ok hkeys hvalid isStableSort_insertionSort⟩
  exact ⟨hsorts, (removesDuplicates_iff plain_equalityLaws
    ⟨_, isStableSort_insertionSort, hok⟩).mpr (.inr hsorts)⟩

end Example

end N8n.RemoveDuplicates
