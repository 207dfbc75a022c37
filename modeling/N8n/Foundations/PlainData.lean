import Mathlib.Algebra.Group.Int.Defs
import N8n.Foundations.OrderedMap
import Mathlib.Data.Option.Basic
import Mathlib.Data.Rat.Defs

/-!
# Plain data

Objects and arrays as programs see them: properties by key, and arrays with a length and
possibly holes. Array indices are keys of their own kind, so no name is a text of
digits. What the language brings along is a parameter: the names that objects and arrays
inherit, and the length that a value stands for when it is assigned to `length`. The
accessor `__proto__` is not among the names.
-/

namespace N8n.PlainData

open OrderedMap (lookupEntry setEntry lookupEntry_setEntry)

inductive Key where
  | index (n : ℕ)
  | name (s : String)
  deriving DecidableEq, Repr

inductive Primitive where
  | undefined
  | null
  | bool (b : Bool)
  | num (q : ℚ)
  | str (s : String)
  | builtin (name : String)
  deriving DecidableEq, Repr

inductive Shape where
  | object
  | array (length : ℕ)
  deriving DecidableEq, Repr

inductive Value where
  | primitive (p : Primitive)
  | container (shape : Shape) (entries : List (Key × Value))

def Value.undefined : Value := .primitive .undefined

def Value.isArray : Value → Bool
  | .container (.array _) _ => true
  | _ => false

mutual

/-- The value without the properties of a name, at every level. -/
def Value.without (k : Key) : Value → Value
  | .primitive p => .primitive p
  | .container shape entries => .container shape (withoutEntries k entries)

def withoutEntries (k : Key) : List (Key × Value) → List (Key × Value)
  | [] => []
  | (j, v) :: entries =>
    if j = k then withoutEntries k entries else (j, v.without k) :: withoutEntries k entries

end

structure Language where
  objectNames : String → Bool
  arrayNames : String → Bool
  toLength : Value → Option ℕ
  constructor_inherited : objectNames "constructor" = true

namespace Language
variable (lang : Language)

def inherits : Shape → Key → Bool
  | .object, .name s => lang.objectNames s
  | .array _, .name s => lang.objectNames s || lang.arrayNames s
  | _, .index _ => false

/-- What is found when a container has no property of its own. -/
def inherited (shape : Shape) : Key → Primitive
  | .name s => if lang.inherits shape (.name s) then .builtin s else .undefined
  | .index _ => .undefined

theorem inherited_of_not_inherits {lang : Language} {shape : Shape} {k : Key}
    (h : lang.inherits shape k = false) : lang.inherited shape k = .undefined := by
  cases k with
  | index n => rfl
  | name s => rw [inherited, if_neg (by simp [h])]

/-- The names of the prototypes of objects and arrays. Of the texts, the decimal ones are
lengths. -/
def builtins : Language where
  objectNames s := ["constructor", "hasOwnProperty", "isPrototypeOf", "propertyIsEnumerable",
    "toLocaleString", "toString", "valueOf", "__defineGetter__", "__defineSetter__",
    "__lookupGetter__", "__lookupSetter__"].contains s
  arrayNames s := ["at", "concat", "copyWithin", "entries", "every", "fill", "filter", "find",
    "findIndex", "findLast", "findLastIndex", "flat", "flatMap", "forEach", "includes", "indexOf",
    "join", "keys", "lastIndexOf", "map", "pop", "push", "reduce", "reduceRight", "reverse",
    "shift", "slice", "some", "sort", "splice", "toReversed", "toSorted", "toSpliced", "unshift",
    "values", "with"].contains s
  toLength
    | .primitive .null => some 0
    | .primitive (.bool b) => some b.toNat
    | .primitive (.num q) => if q.den = 1 ∧ 0 ≤ q ∧ q.num < 2 ^ 32 then some q.num.toNat else none
    | .primitive (.str s) => if s = "" then some 0 else s.toNat?
    | _ => none
  constructor_inherited := rfl

end Language

section Induction
variable {P : Value → Prop}

mutual

/-- Induction over the values that properties have. -/
theorem Value.induct (primitive : ∀ p, P (.primitive p))
    (container : ∀ shape entries,
      (∀ k v, lookupEntry k entries = some v → P v) → P (.container shape entries)) :
    ∀ v, P v
  | .primitive p => primitive p
  | .container shape entries =>
    container shape entries (inductEntries primitive container entries)

theorem inductEntries (primitive : ∀ p, P (.primitive p))
    (container : ∀ shape entries,
      (∀ k v, lookupEntry k entries = some v → P v) → P (.container shape entries)) :
    ∀ (entries : List (Key × Value)) (k : Key) (v : Value), lookupEntry k entries = some v → P v
  | [], k, v, h => by simp [lookupEntry] at h
  | (j, w) :: entries, k, v, h => by
    rw [lookupEntry] at h
    split_ifs at h
    · rw [← Option.some.inj h]
      exact Value.induct primitive container w
    · exact inductEntries primitive container entries k v h

end

end Induction

mutual

/-- What JSON texts stand for. -/
def Value.isJson : Value → Bool
  | .primitive .undefined => false
  | .primitive (.builtin _) => false
  | .primitive _ => true
  | .container .object entries => decide (entries.map Prod.fst).Nodup && isJsonEntries entries
  | .container (.array length) entries =>
    decide (entries.map Prod.fst = (List.range length).map .index) && isJsonEntries entries

def isJsonEntries : List (Key × Value) → Bool
  | [] => true
  | (_, v) :: entries => v.isJson && isJsonEntries entries

end

theorem isJson_of_lookupEntry {k : Key} {v : Value} :
    ∀ {entries : List (Key × Value)}, isJsonEntries entries = true →
      lookupEntry k entries = some v → v.isJson = true := by
  intro entries h hv
  induction entries with
  | nil => simp [lookupEntry] at hv
  | cons e entries ih =>
    rw [isJsonEntries, Bool.and_eq_true] at h
    rw [lookupEntry] at hv
    split_ifs at hv with hk
    · rw [← Option.some.inj hv]
      exact h.1
    · exact ih h.2 hv

/-! ### Properties of a container -/

section Entries
variable {α : Type*}

def Shape.grow : Shape → Key → Shape
  | .array length, .index n => .array (max length (n + 1))
  | shape, _ => shape

def Shape.lengthOf : Shape → Key → Option ℕ
  | .array length, .name s => if s = "length" then some length else none
  | _, _ => none

def deleteEntry (k : Key) (entries : List (Key × α)) : List (Key × α) :=
  entries.filter fun e => decide (e.1 ≠ k)

def truncate (length : ℕ) (entries : List (Key × α)) : List (Key × α) :=
  entries.filter fun e => match e.1 with
    | .index n => decide (n < length)
    | .name _ => true

/-- Without a result the value is no length. -/
def assign (shape : Shape) (entries : List (Key × α)) (k : Key) (a : α) (length : Option ℕ) :
    Option (Shape × List (Key × α)) :=
  match shape.lengthOf k with
  | some _ => length.map fun n => (.array n, truncate n entries)
  | none => some (shape.grow k, setEntry k a entries)

/-- Without a result the property cannot be deleted. -/
def remove (shape : Shape) (entries : List (Key × α)) (k : Key) :
    Option (Shape × List (Key × α)) :=
  match shape.lengthOf k with
  | some _ => none
  | none => some (shape, deleteEntry k entries)

/-- The element is set behind the last one, and then the length. -/
def pushEntry (length : ℕ) (entries : List (Key × α)) (a : α) : List (Key × α) :=
  truncate (length + 1) (setEntry (.index length) a entries)

def popEntry (length : ℕ) (entries : List (Key × α)) : List (Key × α) :=
  truncate length (deleteEntry (.index length) entries)

def ownKeys (shape : Shape) (entries : List (Key × α)) : List Key :=
  entries.map Prod.fst ++ match shape with
    | .array _ => [.name "length"]
    | .object => []

def ownProperty (ofPrimitive : Primitive → α) (shape : Shape) (entries : List (Key × α)) (k : Key) :
    Option α :=
  match shape.lengthOf k with
  | some n => some (ofPrimitive (.num n))
  | none => lookupEntry k entries

def property (lang : Language) (ofPrimitive : Primitive → α) (shape : Shape)
    (entries : List (Key × α)) (k : Key) : α :=
  (ownProperty ofPrimitive shape entries k).getD (ofPrimitive (lang.inherited shape k))

@[simp]
theorem lengthOf_object (k : Key) : Shape.object.lengthOf k = none := by
  cases k <;> rfl

theorem Shape.grow_ne_object {shape : Shape} (h : shape ≠ .object) (k : Key) :
    shape.grow k ≠ .object := by
  cases shape with
  | object => exact absurd rfl h
  | array n => cases k <;> simp [Shape.grow]

theorem assign_ne_object {shape shape' : Shape} {entries entries' : List (Key × α)} {k : Key} {a : α}
    {length : Option ℕ} (h : assign shape entries k a length = some (shape', entries'))
    (hshape : shape ≠ .object) : shape' ≠ .object := by
  rw [assign] at h
  split at h
  · obtain ⟨n, -, hn⟩ := Option.map_eq_some_iff.mp h
    rw [← (Prod.mk.inj hn).1]
    simp
  · rw [← (Prod.mk.inj (Option.some.inj h)).1]
    exact Shape.grow_ne_object hshape k

theorem remove_shape {shape shape' : Shape} {entries entries' : List (Key × α)} {k : Key}
    (h : remove shape entries k = some (shape', entries')) : shape' = shape := by
  rw [remove] at h
  split at h
  · simp at h
  · exact (Prod.mk.inj (Option.some.inj h)).1.symm

theorem lookupEntry_deleteEntry (k k' : Key) (entries : List (Key × α)) :
    lookupEntry k' (deleteEntry k entries) = if k = k' then none else lookupEntry k' entries := by
  induction entries with
  | nil => simp [deleteEntry, lookupEntry]
  | cons e entries ih =>
    rw [deleteEntry] at ih ⊢
    by_cases he : e.1 = k
    · rw [List.filter_cons_of_neg (by simp [he]), ih]
      by_cases hk : k = k'
      · simp [hk]
      · simp [lookupEntry, hk, he]
    · rw [List.filter_cons_of_pos (by simp [he]), lookupEntry, lookupEntry, ih]
      by_cases hk : k = k'
      · simp [hk, hk ▸ he]
      · simp [hk]

theorem lookupEntry_truncate (length : ℕ) (k : Key) (entries : List (Key × α)) :
    lookupEntry k (truncate length entries) =
      match k with
      | .index n => if n < length then lookupEntry k entries else none
      | .name _ => lookupEntry k entries := by
  induction entries with
  | nil => cases k <;> simp [truncate, lookupEntry]
  | cons e entries ih =>
    obtain ⟨k', a⟩ := e
    rw [truncate] at ih ⊢
    cases k' with
    | name s =>
      rw [List.filter_cons_of_pos rfl, lookupEntry, lookupEntry, ih]
      cases k with
      | name s' => rfl
      | index n => simp
    | index m =>
      by_cases hm : m < length
      · rw [List.filter_cons_of_pos (by simpa using hm), lookupEntry, lookupEntry, ih]
        cases k with
        | name s' => rfl
        | index n =>
          by_cases hn : m = n
          · simp [hn, hn ▸ hm]
          · simp [hn]
      · rw [List.filter_cons_of_neg (by simpa using hm), ih, lookupEntry]
        cases k with
        | name s' => simp
        | index n =>
          by_cases hn : m = n
          · simp [hn ▸ hm]
          · simp [hn]

theorem mem_ownKeys {shape : Shape} {entries : List (Key × α)} {k : Key} :
    k ∈ ownKeys shape entries ↔
      (lookupEntry k entries).isSome = true ∨ (shape.lengthOf k).isSome = true := by
  unfold ownKeys
  rw [List.mem_append]
  refine or_congr ?_ ?_
  · rw [Option.isSome_iff_ne_none, ne_eq, OrderedMap.lookupEntry_eq_none, not_not]
  · cases shape with
    | object => simp [Shape.lengthOf]
    | array n =>
      cases k with
      | index m => simp [Shape.lengthOf]
      | name s => by_cases hs : s = "length" <;> simp [Shape.lengthOf, hs]

end Entries

/-! ### Containers with related properties -/

section Related
variable {α β : Type*} {R : α → β → Prop} {shape : Shape} {entries : List (Key × α)}
  {entries' : List (Key × β)} {a : α} {b : β}

def Related (R : α → β → Prop) (entries : List (Key × α)) (entries' : List (Key × β)) : Prop :=
  ∀ k, Option.Rel R (lookupEntry k entries) (lookupEntry k entries')

theorem isSome_eq_of_rel {x : Option α} {y : Option β} (h : Option.Rel R x y) :
    x.isSome = y.isSome := by
  cases h <;> rfl

theorem Related.setEntry (h : Related R entries entries') (k : Key) (hab : R a b) :
    Related R (setEntry k a entries) (OrderedMap.setEntry k b entries') := by
  intro k'
  rw [lookupEntry_setEntry, lookupEntry_setEntry]
  split_ifs
  · exact .some hab
  · exact h k'

theorem Related.deleteEntry (h : Related R entries entries') (k : Key) :
    Related R (deleteEntry k entries) (PlainData.deleteEntry k entries') := by
  intro k'
  rw [lookupEntry_deleteEntry, lookupEntry_deleteEntry]
  split_ifs
  · exact .none
  · exact h k'

theorem Related.truncate (h : Related R entries entries') (n : ℕ) :
    Related R (truncate n entries) (PlainData.truncate n entries') := by
  intro k
  rw [lookupEntry_truncate, lookupEntry_truncate]
  cases k with
  | name s => exact h _
  | index i =>
    dsimp only
    split_ifs
    · exact h _
    · exact .none

theorem Related.pushEntry (h : Related R entries entries') (n : ℕ) (hab : R a b) :
    Related R (pushEntry n entries a) (PlainData.pushEntry n entries' b) :=
  (h.setEntry _ hab).truncate _

theorem Related.popEntry (h : Related R entries entries') (n : ℕ) :
    Related R (popEntry n entries) (PlainData.popEntry n entries') :=
  (h.deleteEntry _).truncate _

/-- An assignment fails on both sides, or leaves containers of one shape with related properties. -/
theorem Related.assign (h : Related R entries entries') (shape : Shape) (k : Key) (hab : R a b)
    (length : Option ℕ) :
    Option.Rel (fun x y => x.1 = y.1 ∧ Related R x.2 y.2) (assign shape entries k a length)
      (PlainData.assign shape entries' k b length) := by
  rw [PlainData.assign, PlainData.assign]
  split
  · cases length with
    | none => exact .none
    | some n => exact .some ⟨rfl, h.truncate n⟩
  · exact .some ⟨rfl, h.setEntry k hab⟩

theorem Related.remove (h : Related R entries entries') (shape : Shape) (k : Key) :
    Option.Rel (fun x y => x.1 = y.1 ∧ Related R x.2 y.2) (remove shape entries k)
      (PlainData.remove shape entries' k) := by
  rw [PlainData.remove, PlainData.remove]
  split
  · exact .none
  · exact .some ⟨rfl, h.deleteEntry k⟩

theorem Related.ownProperty (h : Related R entries entries') {f : Primitive → α} {g : Primitive → β}
    (hfg : ∀ p, R (f p) (g p)) (shape : Shape) (k : Key) :
    Option.Rel R (ownProperty f shape entries k) (PlainData.ownProperty g shape entries' k) := by
  rw [PlainData.ownProperty, PlainData.ownProperty]
  split
  · exact .some (hfg _)
  · exact h k

theorem Related.property (h : Related R entries entries') {f : Primitive → α} {g : Primitive → β}
    (hfg : ∀ p, R (f p) (g p)) (lang : Language) (shape : Shape) (k : Key) :
    R (property lang f shape entries k) (PlainData.property lang g shape entries' k) := by
  have hown := h.ownProperty hfg shape k
  rw [PlainData.property, PlainData.property]
  revert hown
  generalize PlainData.ownProperty f shape entries k = x
  generalize PlainData.ownProperty g shape entries' k = y
  rintro (hab | _)
  · exact hab
  · exact hfg _

theorem rel_map_left {γ : Type*} {f : α → γ} {S : γ → β → Prop} {x : Option α} {y : Option β} :
    Option.Rel S (x.map f) y ↔ Option.Rel (fun a b => S (f a) b) x y := by
  cases x <;> cases y <;> constructor <;> intro h <;> cases h <;> constructor <;> assumption

/-- Only one side is written, with what is related to the other side's value. -/
theorem Related.setEntry_left (h : Related R entries entries') {k : Key}
    (hk : lookupEntry k entries' = some b) (hab : R a b) :
    Related R (OrderedMap.setEntry k a entries) entries' := by
  intro k'
  rw [lookupEntry_setEntry]
  split_ifs with hkk
  · rw [← hkk, hk]
    exact .some hab
  · exact h k'

theorem Related.mem_ownKeys (h : Related R entries entries') (k : Key) :
    k ∈ ownKeys shape entries ↔ k ∈ ownKeys shape entries' := by
  rw [PlainData.mem_ownKeys, PlainData.mem_ownKeys, isSome_eq_of_rel (h k)]

end Related

/-! ### Operations -/

inductive Op where
  | get (k : Key)
  | set (k : Key) (v : Value)
  | delete (k : Key)
  | has (k : Key)
  | ownKeys
  | hasOwn (k : Key)
  | push (v : Value)
  | pop

def Op.writes : Op → Bool
  | .set _ _ => true
  | .delete _ => true
  | .push _ => true
  | .pop => true
  | _ => false

inductive Result (α : Type*) where
  | value (a : α)
  | bool (b : Bool)
  | keys (ks : List Key)
  | done
  | error

def Result.map {α β : Type*} (f : α → β) : Result α → Result β
  | .value a => .value (f a)
  | .bool b => .bool b
  | .keys ks => .keys ks
  | .done => .done
  | .error => .error

/-- Listed keys are compared as sets. -/
def Result.Alike {α β : Type*} (R : α → β → Prop) : Result α → Result β → Prop
  | .value a, .value b => R a b
  | .bool b, .bool b' => b = b'
  | .keys ks, .keys ks' => ∀ k, k ∈ ks ↔ k ∈ ks'
  | .done, .done => True
  | .error, .error => True
  | _, _ => False

namespace Value
variable (lang : Language)

def apply (op : Op) (shape : Shape) (entries : List (Key × Value)) : Value × Result Value :=
  match op with
  | .get k => (.container shape entries, .value (property lang .primitive shape entries k))
  | .set k v =>
    match assign shape entries k v (lang.toLength v) with
    | some (shape, entries) => (.container shape entries, .done)
    | none => (.container shape entries, .error)
  | .delete k =>
    match remove shape entries k with
    | some (shape, entries) => (.container shape entries, .bool true)
    | none => (.container shape entries, .bool false)
  | .has k => (.container shape entries,
      .bool ((ownProperty .primitive shape entries k).isSome || lang.inherits shape k))
  | .ownKeys => (.container shape entries, .keys (PlainData.ownKeys shape entries))
  | .hasOwn k => (.container shape entries, .bool (ownProperty .primitive shape entries k).isSome)
  | .push v =>
    match shape with
    | .object => (.container shape entries, .error)
    | .array n =>
      (.container (.array (n + 1)) (pushEntry n entries v), .value (.primitive (.num (n + 1))))
  | .pop =>
    match shape with
    | .object => (.container shape entries, .error)
    | .array 0 => (.container (.array 0) (truncate 0 entries), .value .undefined)
    | .array (n + 1) =>
      (.container (.array n) (popEntry n entries),
        .value (property lang .primitive (.array (n + 1)) entries (.index n)))

section Containers
variable {lang} {shape shape' : Shape} {entries entries' : List (Key × Value)} {k : Key}

theorem ownProperty_eq_container :
    ownProperty .primitive shape entries k = some (.container shape' entries') ↔
      property lang .primitive shape entries k = .container shape' entries' := by
  rw [property]
  cases ownProperty .primitive shape entries k <;> simp

theorem lookupEntry_of_ownProperty
    (h : ownProperty .primitive shape entries k = some (.container shape' entries')) :
    lookupEntry k entries = some (.container shape' entries') := by
  rw [ownProperty] at h
  split at h
  · simp at h
  · exact h

end Containers

/-- An operation on the container that a path leads to. -/
def applyAt (call : Shape → List (Key × Value) → Value × Result Value) :
    List Key → Value → Value × Result Value
  | _, .primitive p => (.primitive p, .error)
  | [], .container shape entries => call shape entries
  | k :: path, .container shape entries =>
    match ownProperty .primitive shape entries k with
    | some (.container childShape children) =>
      let (child, result) := applyAt call path (.container childShape children)
      (.container shape (setEntry k child entries), result)
    | _ => (.container shape entries, .error)

end Value
end N8n.PlainData
