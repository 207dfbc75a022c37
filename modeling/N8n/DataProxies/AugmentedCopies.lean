import N8n.DataProxies.AugmentObject

/-!
# Augmented data as a private copy

An augmented value stands for a plain one when it shows the same properties, and nothing
of the original can be reached without a proxy. Every operation keeps this, and what it
answers stands for what the same operation answers on the copy, where names that are
special to the proxies are left out.
-/

namespace N8n.AugmentObject

open PlainData
open OrderedMap (lookupEntry setEntry lookupEntry_setEntry)

def shape? : Augmented → Option Shape
  | .plain _ (.primitive _) => none
  | .plain _ (.container shape _) => some shape
  | .object _ _ _ => some .object
  | .array shape data newData => some (newData.getD (shape, sharedEntries data)).1

/-- The properties as a reader gets them. -/
def own (a : Augmented) (k : Key) : Option Augmented :=
  match a with
  | .plain _ (.primitive _) => none
  | .plain shared (.container _ entries) => (lookupEntry k entries).map (.plain shared)
  | .object data newData deleted =>
    if k ∈ deleted then none
    else match lookupEntry k newData with
      | some a => some a
      | none => (lookupEntry k data).map fun v => augment (.plain true v)
  | .array shape data newData =>
    (lookupEntry k (newData.getD (shape, sharedEntries data)).2).map augment

/-- Elements without holes, and nothing else. -/
def Dense (shape : Shape) (data : List (Key × Value)) : Prop :=
  ∃ n, shape = .array n ∧ ∀ k, (lookupEntry k data).isSome = true ↔ ∃ i < n, k = .index i

def Sound : Augmented → Prop
  | .plain shared _ => shared = false
  | .object _ newData deleted => ∀ k ∈ deleted, lookupEntry k newData = none
  | .array shape data none => Dense shape data
  | .array _ _ (some (shape, _)) => shape ≠ .object

inductive Represents : Augmented → Value → Prop
  | primitive (shared : Bool) (p : Primitive) : Represents (.plain shared (.primitive p)) (.primitive p)
  | container {a : Augmented} {shape : Shape} {entries : List (Key × Value)} :
      shape? a = some shape → Sound a →
      (∀ k, Option.Rel Represents (own a k) (lookupEntry k entries)) →
      Represents a (.container shape entries)

theorem represents_container {a : Augmented} {shape : Shape} {entries : List (Key × Value)} :
    Represents a (.container shape entries) ↔ shape? a = some shape ∧ Sound a ∧
      ∀ k, Option.Rel Represents (own a k) (lookupEntry k entries) := by
  constructor
  · rintro (_ | ⟨hshape, hsound, hown⟩)
    exact ⟨hshape, hsound, hown⟩
  · rintro ⟨hshape, hsound, hown⟩
    exact .container hshape hsound hown

theorem Represents.isContainer_iff {a : Augmented} {v : Value} (h : Represents a v) :
    isContainer a = true ↔ ∃ shape entries, v = .container shape entries := by
  cases h with
  | primitive shared p => simp [isContainer]
  | container hshape _ _ =>
    refine ⟨fun _ => ⟨_, _, rfl⟩, fun _ => ?_⟩
    cases a with
    | plain shared v => cases v <;> simp [shape?, isContainer] at hshape ⊢
    | object data newData deleted => rfl
    | array shape data newData => rfl

/-! ### Plain values and fresh proxies -/

theorem represents_plain_container {shared : Bool} {shape shape' : Shape}
    {entries entries' : List (Key × Value)} :
    Represents (.plain shared (.container shape entries)) (.container shape' entries') ↔
      shape = shape' ∧ shared = false ∧
        Related (fun v v' => Represents (.plain shared v) v') entries entries' := by
  rw [represents_container]
  simp only [shape?, Sound, own, Option.some.injEq, rel_map_left]
  rfl

theorem represents_plain (v : Value) : Represents (.plain false v) v := by
  induction v using Value.induct with
  | primitive p => exact .primitive false p
  | container shape entries ih =>
    refine represents_plain_container.mpr ⟨rfl, rfl, fun k => ?_⟩
    cases hk : lookupEntry k entries with
    | none => exact .none
    | some v => exact .some (ih k v hk)

@[simp]
theorem augment_augment (a : Augmented) : augment (augment a) = augment a := by
  cases a with
  | plain shared v =>
    cases v with
    | primitive p => rfl
    | container shape entries => cases shape <;> rfl
  | object data newData deleted => rfl
  | array shape data newData => rfl

theorem lookupEntry_sharedEntries (k : Key) (data : List (Key × Value)) :
    lookupEntry k (sharedEntries data) = (lookupEntry k data).map (.plain true) := by
  induction data with
  | nil => rfl
  | cons e data ih =>
    rw [sharedEntries, List.map_cons, lookupEntry, lookupEntry]
    rw [sharedEntries] at ih
    rw [ih]
    split_ifs <;> rfl

theorem dense_of_isJson {n : ℕ} {data : List (Key × Value)}
    (h : (Value.container (.array n) data).isJson = true) : Dense (.array n) data := by
  refine ⟨n, rfl, fun k => ?_⟩
  rw [Value.isJson, Bool.and_eq_true, decide_eq_true_iff] at h
  rw [Option.isSome_iff_ne_none, ne_eq, OrderedMap.lookupEntry_eq_none, not_not, h.1]
  simp [eq_comm]

/-- A fresh proxy shows what it stands before. -/
theorem represents_augment {shared : Bool} (v : Value) (h : v.isJson = true) :
    Represents (augment (.plain shared v)) v := by
  induction v using Value.induct generalizing shared with
  | primitive p => exact .primitive shared p
  | container shape entries ih =>
    have hentries : ∀ k, Option.Rel Represents
        ((lookupEntry k entries).map fun v => augment (.plain true v)) (lookupEntry k entries) := by
      intro k
      cases hk : lookupEntry k entries with
      | none => exact .none
      | some v =>
        refine .some (ih k v hk (isJson_of_lookupEntry ?_ hk))
        cases shape <;> rw [Value.isJson, Bool.and_eq_true] at h <;> exact h.2
    cases shape with
    | object => exact .container rfl nofun fun k => by simpa [augment, own, lookupEntry] using hentries k
    | array n =>
      refine .container rfl (dense_of_isJson h) fun k => ?_
      have hk := hentries k
      simp only [augment, own, Option.getD_none, lookupEntry_sharedEntries, Option.map_map]
      exact hk

theorem represents_augment_of_set {v : Value} (h : v = .undefined ∨ v.isJson = true) :
    Represents (augment (.plain true v)) v := by
  rcases h with rfl | h
  · exact .primitive true .undefined
  · exact represents_augment v h

/-! ### Arrays -/

section Arrays
variable {shape shape' : Shape} {data entries : List (Key × Value)}
  {newData : Option (Shape × List (Key × Augmented))}

/-- The elements of an array and what they stand for. -/
abbrev Elements (new : List (Key × Augmented)) (entries : List (Key × Value)) : Prop :=
  Related (fun a v => Represents (augment a) v) new entries

theorem represents_array {newShape : Shape} {new : List (Key × Augmented)} :
    Represents (.array shape data (some (newShape, new))) (.container shape' entries) ↔
      newShape = shape' ∧ newShape ≠ .object ∧ Elements new entries := by
  rw [represents_container]
  simp only [shape?, Sound, own, Option.some.injEq, Option.getD_some, rel_map_left]
  rfl

theorem Represents.read (h : Represents (.array shape data newData) (.container shape' entries)) :
    (newData.getD (shape, sharedEntries data)).1 = shape' ∧
      Elements (newData.getD (shape, sharedEntries data)).2 entries := by
  obtain ⟨hshape, -, hown⟩ := represents_container.mp h
  exact ⟨Option.some.inj hshape, fun k => rel_map_left.mp (hown k)⟩

theorem Represents.ne_object (h : Represents (.array shape data newData) (.container shape' entries)) :
    shape' ≠ .object := by
  obtain ⟨hshape, hsound, -⟩ := represents_container.mp h
  cases newData with
  | none =>
    obtain ⟨n, rfl, -⟩ := hsound
    rw [← Option.some.inj hshape]
    simp
  | some contents => exact Option.some.inj hshape ▸ hsound

theorem lookupEntry_spread (h : Dense shape data) (k : Key) :
    lookupEntry k (spread shape data).2 = lookupEntry k (sharedEntries data) := by
  obtain ⟨n, rfl, hdense⟩ := h
  rw [lookupEntry_sharedEntries]
  cases hk : lookupEntry k data with
  | none =>
    rw [Option.map_none, OrderedMap.lookupEntry_eq_none]
    intro hmem
    obtain ⟨i, hi, rfl⟩ : ∃ i < n, Key.index i = k := by simpa [spread] using hmem
    simp [(hdense _).mpr ⟨i, hi, rfl⟩ |> Option.isSome_iff_ne_none.mp] at hk
  | some v =>
    obtain ⟨i, hi, rfl⟩ := (hdense k).mp (by rw [hk]; rfl)
    have hnodup : ((spread (.array n) data).2.map Prod.fst).Nodup := by
      simp only [spread, List.map_map]
      exact List.nodup_range.map fun i j hij => Key.index.inj hij
    rw [Option.map_some, OrderedMap.lookupEntry_eq_some hnodup]
    exact List.mem_map.mpr ⟨i, List.mem_range.mpr hi, by rw [hk]; rfl⟩

/-- The copy shows what was read before it was made. -/
theorem Represents.getData (h : Represents (.array shape data newData) (.container shape' entries)) :
    (getData shape data newData).1 = shape' ∧ Elements (getData shape data newData).2 entries := by
  have hread := h.read
  cases newData with
  | some new => exact hread
  | none =>
    obtain ⟨-, hdense, -⟩ := represents_container.mp h
    refine ⟨?_, fun k => ?_⟩
    · obtain ⟨n, rfl, -⟩ := hdense
      exact hread.1
    · rw [AugmentObject.getData, Option.getD_none, lookupEntry_spread hdense]
      exact hread.2 k

end Arrays

/-! ### Objects -/

section Objects
variable {data entries : List (Key × Value)} {newData : List (Key × Augmented)} {deleted : List Key}

theorem represents_object {shape : Shape} :
    Represents (.object data newData deleted) (.container shape entries) ↔
      shape = .object ∧ (∀ k ∈ deleted, lookupEntry k newData = none) ∧
        ∀ k, Option.Rel Represents (own (.object data newData deleted) k) (lookupEntry k entries) := by
  rw [represents_container]
  simp only [shape?, Sound, Option.some.injEq, eq_comm]

theorem hasOwnObject_eq (k : Key) :
    hasOwnObject data newData deleted k = (own (.object data newData deleted) k).isSome := by
  rw [hasOwnObject, own]
  split_ifs with hk hn
  · rfl
  · obtain ⟨a, ha⟩ := Option.isSome_iff_exists.mp hn
    rw [ha]
    rfl
  · rw [Option.not_isSome_iff_eq_none.mp hn]
    cases lookupEntry k data <;> rfl

end Objects

/-! ### Own properties -/

section Own
variable {a : Augmented} {shape : Shape} {entries : List (Key × Value)} {lang : Language}

theorem Represents.owns_eq (h : Represents a (.container shape entries)) (k : Key) :
    owns a k = (ownProperty .primitive shape entries k).isSome := by
  cases a with
  | plain shared v =>
    cases v with
    | primitive p => cases h with | container hshape _ _ => simp [shape?] at hshape
    | container shape' entries' =>
      obtain ⟨rfl, -, hrel⟩ := represents_plain_container.mp h
      exact isSome_eq_of_rel (hrel.ownProperty (fun p => .primitive shared p) shape' k)
  | object data newData deleted =>
    obtain ⟨rfl, -, hown⟩ := represents_object.mp h
    rw [owns, hasOwnObject_eq, isSome_eq_of_rel (hown k), ownProperty, lengthOf_object]
  | array shape' data newData =>
    obtain ⟨hshape, hrel⟩ := h.read
    have hown := hrel.ownProperty (f := ofPrimitive) (fun p => .primitive false p) shape k
    rw [owns, ← isSome_eq_of_rel hown, ← hshape]

/-- Where no property of the name stands, `constructor` is the built-in one. -/
theorem Represents.property_constructor (h : Represents a (.container shape entries))
    (hk : owns a constructorKey = false) :
    property lang .primitive shape entries constructorKey = .primitive (.builtin "constructor") := by
  rw [h.owns_eq, Option.isSome_eq_false_iff, Option.isNone_iff_eq_none] at hk
  rw [property, hk, Option.getD_none]
  have hinherits : lang.inherits shape constructorKey = true := by
    cases shape <;> simp [constructorKey, Language.inherits, lang.constructor_inherited]
  rw [constructorKey] at hinherits ⊢
  rw [Language.inherited, if_pos hinherits]

end Own

/-! ### Reading -/

section Get
variable {a : Augmented} {shape : Shape} {entries : List (Key × Value)} {lang : Language} {k : Key}

def sharing : Augmented → Option Bool
  | .plain shared _ => some shared
  | _ => none

/-- The container that was read stands where a path finds it again. -/
def HasSlot (k : Key) (child : Augmented) : Augmented → Prop
  | .plain shared _ => sharing child = some shared
  | .object _ _ deleted => k ∉ deleted
  | .array _ _ newData => newData.isSome = true ∧ sharing child = none

theorem sharing_augment {shared : Bool} {shape : Shape} {entries : List (Key × Value)} :
    sharing (augment (.plain shared (.container shape entries))) = none := by
  cases shape <;> rfl

theorem augment_eq_self {a : Augmented}
    (ha : ∀ shared shape entries, a ≠ .plain shared (.container shape entries)) : augment a = a := by
  cases a with
  | plain shared v =>
    cases v with
    | primitive p => rfl
    | container shape entries => exact absurd rfl (ha shared shape entries)
  | object data newData deleted => rfl
  | array shape data newData => rfl

theorem sharing_eq_none {a : Augmented}
    (ha : ∀ shared shape entries, a ≠ .plain shared (.container shape entries))
    (hc : isContainer a = true) : sharing a = none := by
  cases a with
  | plain shared v =>
    cases v with
    | primitive p => simp [isContainer] at hc
    | container shape entries => exact absurd rfl (ha shared shape entries)
  | object data newData deleted => rfl
  | array shape data newData => rfl

theorem property_sharedEntries (shape : Shape) (data : List (Key × Value)) :
    ∃ shared v, property lang ofPrimitive shape (sharedEntries data) k = .plain shared v := by
  rw [property, ownProperty, lookupEntry_sharedEntries]
  cases shape.lengthOf k with
  | some n => exact ⟨_, _, rfl⟩
  | none => cases lookupEntry k data <;> exact ⟨_, _, rfl⟩

theorem getArray_represents {data : List (Key × Value)} {shape' : Shape}
    {newData : Option (Shape × List (Key × Augmented))}
    (h : Represents (.array shape data newData) (.container shape' entries))
    (hk : k ≠ constructorKey) :
    Represents (getArray lang shape data newData k).1 (.container shape' entries) ∧
      Represents (getArray lang shape data newData k).2 (property lang .primitive shape' entries k) ∧
      (isContainer (getArray lang shape data newData k).2 = true →
        HasSlot k (getArray lang shape data newData k).2 (getArray lang shape data newData k).1) := by
  obtain ⟨hshape, hrel⟩ := h.read
  have hvalue := hrel.property (f := ofPrimitive) (g := .primitive) (fun p => .primitive false p)
    lang shape' k
  rw [← hshape] at hvalue
  unfold getArray
  rw [if_neg hk]
  dsimp only
  split
  · rename_i shared valueShape children hread
    rw [hread] at hvalue
    obtain ⟨_, _, hcontainer⟩ := hvalue.isContainer_iff.mp (by cases valueShape <;> rfl)
    obtain ⟨hgetShape, hget⟩ := h.getData
    have hslot := Value.lookupEntry_of_ownProperty (Value.ownProperty_eq_container.mpr hcontainer)
    refine ⟨?_, hshape ▸ hvalue, fun _ => ⟨rfl, sharing_augment⟩⟩
    refine represents_array.mpr ⟨hgetShape, hgetShape ▸ h.ne_object, hget.setEntry_left hslot ?_⟩
    rw [augment_augment, ← hcontainer]
    exact hvalue
  · rename_i value hread
    rw [augment_eq_self hread, hshape] at hvalue
    refine ⟨h, hshape ▸ hvalue, fun hc => ⟨?_, sharing_eq_none hread hc⟩⟩
    cases newData with
    | some contents => rfl
    | none =>
      obtain ⟨shared, v, hv⟩ := @property_sharedEntries lang k shape data
      cases v with
      | primitive p => simp [hv, isContainer] at hc
      | container valueShape children => exact absurd hv (hread _ _ _)

theorem property_object (k : Key) (entries : List (Key × Value)) :
    property lang .primitive .object entries k =
      (lookupEntry k entries).getD (.primitive (lang.inherited .object k)) := by
  rw [property, ownProperty, lengthOf_object]

/-- What was read is kept in the side object. -/
theorem represents_cached {data : List (Key × Value)} {newData : List (Key × Augmented)}
    {deleted : List Key} (h : Represents (.object data newData deleted) (.container shape entries))
    (hk : k ∉ deleted) (ha : own (.object data newData deleted) k = some a) :
    Represents (.object data (setEntry k a newData) deleted) (.container shape entries) := by
  obtain ⟨hshape, hdeleted, hown⟩ := represents_object.mp h
  refine represents_object.mpr ⟨hshape, fun k' hk' => ?_, fun k' => ?_⟩
  · rw [lookupEntry_setEntry, if_neg (by rintro rfl; exact hk hk')]
    exact hdeleted k' hk'
  · have hk' := hown k'
    by_cases hkk : k = k'
    · subst hkk
      rw [ha] at hk'
      rw [own, if_neg hk, lookupEntry_setEntry, if_pos rfl]
      exact hk'
    · rw [own, lookupEntry_setEntry, if_neg hkk]
      exact hk'

theorem getObject_represents {data : List (Key × Value)} {newData : List (Key × Augmented)}
    {deleted : List Key} (h : Represents (.object data newData deleted) (.container shape entries))
    (hk : k ≠ constructorKey) (hhides : hides lang (.object data newData deleted) k = false) :
    Represents (getObject lang data newData deleted k).1 (.container shape entries) ∧
      Represents (getObject lang data newData deleted k).2
        (property lang .primitive shape entries k) ∧
      (isContainer (getObject lang data newData deleted k).2 = true →
        HasSlot k (getObject lang data newData deleted k).2
          (getObject lang data newData deleted k).1) := by
  obtain ⟨rfl, hdeleted, hown⟩ := represents_object.mp h
  have hrel := hown k
  rw [property_object]
  unfold getObject
  rw [if_neg hk]
  by_cases hd : k ∈ deleted
  · have hinherits : lang.inherits .object k = false := by simpa [hides, hd] using hhides
    rw [own, if_pos hd] at hrel
    rw [if_pos hd, Language.inherited_of_not_inherits hinherits]
    generalize lookupEntry k entries = y at hrel
    cases hrel
    exact ⟨h, .primitive _ _, by simp [isContainer, ofPrimitive]⟩
  · rw [if_neg hd]
    cases hn : lookupEntry k newData with
    | some a =>
      simp only [own, hd, hn, ↓reduceIte] at hrel
      generalize lookupEntry k entries = y at hrel
      cases hrel with
      | some ha => exact ⟨h, ha, fun _ => hd⟩
    | none =>
      have hownk : own (.object data newData deleted) k =
          (lookupEntry k data).map fun v => augment (.plain true v) := by
        rw [own, if_neg hd, hn]
      have hvalue : property lang ofPrimitive .object (sharedEntries data) k =
          ((lookupEntry k data).map (.plain true)).getD
            (ofPrimitive (lang.inherited .object k)) := by
        rw [property, ownProperty, lengthOf_object, lookupEntry_sharedEntries]
      dsimp only
      rw [hvalue]
      rw [hownk] at hrel
      cases hdata : lookupEntry k data with
      | none =>
        rw [hdata] at hrel
        generalize lookupEntry k entries = y at hrel
        cases hrel
        exact ⟨h, .primitive _ _, by simp [isContainer, ofPrimitive]⟩
      | some v =>
        rw [hdata] at hrel hownk
        simp only [Option.map_some, Option.getD_some] at hrel hownk ⊢
        cases v with
        | primitive p =>
          generalize lookupEntry k entries = y at hrel
          cases hrel with
          | some ha => exact ⟨h, ha, by simp [isContainer]⟩
        | container valueShape children =>
          refine ⟨represents_cached h hd hownk, ?_, fun _ => hd⟩
          generalize lookupEntry k entries = y at hrel
          cases hrel with
          | some ha => exact ha

theorem get_represents (h : Represents a (.container shape entries))
    (hk : readsAlike lang k a = true) :
    Represents (get lang k a).1 (.container shape entries) ∧
      Represents (get lang k a).2 (property lang .primitive shape entries k) ∧
      (isContainer (get lang k a).2 = true → HasSlot k (get lang k a).2 (get lang k a).1) := by
  rw [readsAlike] at hk
  cases a with
  | plain shared v =>
    cases v with
    | primitive p => cases h with | container hshape _ _ => simp [shape?] at hshape
    | container shape' entries' =>
      obtain ⟨rfl, hshared, hrel⟩ := represents_plain_container.mp h
      exact ⟨h, hrel.property (fun p => .primitive shared p) lang shape' k, fun _ => rfl⟩
  | object data newData deleted =>
    by_cases hc : k = constructorKey
    · subst hc
      have howns : owns (.object data newData deleted) constructorKey = false := by
        simpa [isProxy] using hk
      rw [get, getObject, if_pos rfl, h.property_constructor howns]
      exact ⟨h, .primitive _ _, by simp [isContainer, ofPrimitive]⟩
    · exact getObject_represents h hc (by simpa [hc] using hk)
  | array shape' data newData =>
    by_cases hc : k = constructorKey
    · subst hc
      have howns : owns (.array shape' data newData) constructorKey = false := by
        simpa [isProxy] using hk
      rw [get, getArray, if_pos rfl, h.property_constructor howns]
      exact ⟨h, .primitive _ _, by simp [isContainer, ofPrimitive]⟩
    · exact getArray_represents h hc

end Get

/-! ### Operations -/

def Agrees (out : Outcome) (copy : Value × Result Value) : Prop :=
  Represents out.self copy.1 ∧ out.result.Alike Represents copy.2 ∧ out.touched = false

/-- JSON values or undefined are set, and JSON values are pushed. -/
def takes : Op → Prop
  | .set _ v => v = .undefined ∨ v.isJson = true
  | .push v => v.isJson = true
  | _ => True

section Apply
variable {shape shape' : Shape} {entries : List (Key × Value)} {lang : Language} {op : Op}

theorem applyCopy_eq (h : ∀ k, op = .set k .undefined → shape ≠ .object) :
    applyCopy lang op shape entries = Value.apply lang op shape entries := by
  unfold applyCopy
  split
  · exact absurd rfl (h _ rfl)
  · rfl

theorem apply_plain {shared : Bool} {held : List (Key × Value)}
    (h : Represents (.plain shared (.container shape held)) (.container shape' entries))
    (hc : answersAlike lang op (.plain shared (.container shape held)) = true) :
    Agrees (apply lang op (.plain shared (.container shape held)))
      (applyCopy lang op shape' entries) := by
  obtain ⟨rfl, rfl, hrel⟩ := represents_plain_container.mp h
  have hkept : ∀ {shape : Shape} {held entries : List (Key × Value)},
      Related (fun v v' => Represents (.plain false v) v') held entries →
      Represents (.plain false (.container shape held)) (.container shape entries) :=
    fun hrel => represents_plain_container.mpr ⟨rfl, rfl, hrel⟩
  have hprimitive : ∀ p, Represents (.plain false (.primitive p)) (.primitive p) := .primitive false
  cases op with
  | get k => exact ⟨h, hrel.property hprimitive lang shape k, rfl⟩
  | set k v =>
    rw [applyCopy_eq (by rintro k' hop rfl; cases hop; simp [answersAlike, Value.undefined] at hc)]
    have hassign := hrel.assign shape k (represents_plain v) (lang.toLength v)
    simp only [apply, Value.apply]
    generalize assign shape held k v (lang.toLength v) = x at hassign
    generalize assign shape entries k v (lang.toLength v) = y at hassign
    cases hassign with
    | none => exact ⟨h, trivial, rfl⟩
    | @some x y hxy =>
      obtain ⟨shape', held'⟩ := x
      obtain ⟨_, entries'⟩ := y
      obtain ⟨rfl, hrel'⟩ := hxy
      exact ⟨hkept hrel', trivial, rfl⟩
  | delete k =>
    have hremove := hrel.remove shape k
    simp only [apply, applyCopy, Value.apply]
    generalize remove shape held k = x at hremove
    generalize remove shape entries k = y at hremove
    cases hremove with
    | none => exact ⟨h, rfl, rfl⟩
    | @some x y hxy =>
      obtain ⟨shape', held'⟩ := x
      obtain ⟨_, entries'⟩ := y
      obtain ⟨rfl, hrel'⟩ := hxy
      exact ⟨hkept hrel', rfl, rfl⟩
  | has k =>
    have hown := isSome_eq_of_rel (hrel.ownProperty hprimitive shape k)
    refine ⟨h, ?_, rfl⟩
    simp only [apply, applyCopy, Value.apply, Result.map, Result.Alike, hown]
  | ownKeys => exact ⟨h, hrel.mem_ownKeys, rfl⟩
  | hasOwn k => exact ⟨h, isSome_eq_of_rel (hrel.ownProperty hprimitive shape k), rfl⟩
  | push v =>
    cases shape with
    | object => exact ⟨h, trivial, rfl⟩
    | array n => exact ⟨hkept (hrel.pushEntry n (represents_plain v)), .primitive _ _, rfl⟩
  | pop =>
    cases shape with
    | object => exact ⟨h, trivial, rfl⟩
    | array n =>
      cases n with
      | zero => exact ⟨hkept (hrel.truncate 0), .primitive _ _, rfl⟩
      | succ n =>
        exact ⟨hkept (hrel.popEntry n), hrel.property hprimitive lang _ _, rfl⟩

theorem apply_array {data : List (Key × Value)}
    {newData : Option (Shape × List (Key × Augmented))}
    (h : Represents (.array shape data newData) (.container shape' entries)) (hop : takes op)
    (hc : answersAlike lang op (.array shape data newData) = true) :
    Agrees (apply lang op (.array shape data newData)) (applyCopy lang op shape' entries) := by
  obtain ⟨hreadShape, hread⟩ := h.read
  obtain ⟨hgetShape, hget⟩ := h.getData
  have hne := h.ne_object
  have hcopy : ∀ {newShape : Shape} {new : List (Key × Augmented)} {entries : List (Key × Value)},
      newShape ≠ .object → Elements new entries →
      Represents (.array shape data (some (newShape, new))) (.container newShape entries) :=
    fun hne hrel => represents_array.mpr ⟨rfl, hne, hrel⟩
  have hprimitive : ∀ p, Represents (augment (ofPrimitive p)) (.primitive p) := .primitive false
  cases op with
  | get k =>
    obtain ⟨hself, hvalue, -⟩ := get_represents h hc
    exact ⟨hself, hvalue, rfl⟩
  | set k v =>
    rw [applyCopy_eq fun _ _ => hne]
    have hv : Represents (augment (augment (.plain true v))) v := by
      rw [augment_augment]
      exact represents_augment_of_set hop
    have hassign := hget.assign shape' k hv (lang.toLength v)
    simp only [apply, applyArray, Value.apply, hgetShape]
    cases ha : assign shape' (getData shape data newData).2 k (augment (.plain true v))
      (lang.toLength v) with
    | none =>
      rw [ha] at hassign
      generalize assign shape' entries k v (lang.toLength v) = y at hassign
      cases hassign
      exact ⟨hcopy hne hget, trivial, rfl⟩
    | some x =>
      rw [ha] at hassign
      obtain ⟨newShape, new⟩ := x
      generalize assign shape' entries k v (lang.toLength v) = y at hassign
      cases hassign with
      | @some _ y hxy =>
        obtain ⟨_, entries'⟩ := y
        obtain ⟨rfl, hrel⟩ := hxy
        exact ⟨hcopy (assign_ne_object ha hne) hrel, trivial, rfl⟩
  | delete k =>
    have hremove := hget.remove shape' k
    simp only [apply, applyArray, applyCopy, Value.apply, hgetShape]
    cases hr : remove shape' (getData shape data newData).2 k with
    | none =>
      rw [hr] at hremove
      generalize remove shape' entries k = y at hremove
      cases hremove
      exact ⟨hcopy hne hget, rfl, rfl⟩
    | some x =>
      rw [hr] at hremove
      obtain ⟨newShape, new⟩ := x
      generalize remove shape' entries k = y at hremove
      cases hremove with
      | @some _ y hxy =>
        obtain ⟨_, entries'⟩ := y
        obtain ⟨rfl, hrel⟩ := hxy
        exact ⟨hcopy (remove_shape hr ▸ hne) hrel, rfl, rfl⟩
  | has k =>
    have hown := isSome_eq_of_rel (hread.ownProperty hprimitive shape' k)
    refine ⟨h, ?_, rfl⟩
    simp only [apply, applyArray, applyCopy, Value.apply, Result.Alike, hreadShape, hown]
  | ownKeys =>
    refine ⟨h, ?_, rfl⟩
    simp only [apply, applyArray, applyCopy, Value.apply, Result.Alike, hreadShape]
    exact fun k => hread.mem_ownKeys k
  | hasOwn k =>
    refine ⟨h, ?_, rfl⟩
    simp only [apply, applyArray, applyCopy, Value.apply, Result.Alike]
    rw [← h.owns_eq]
    cases newData with
    | none => rfl
    | some contents => exact hc.symm
  | push v =>
    have hv : Represents (augment (augment (.plain true v))) v := by
      rw [augment_augment]
      exact represents_augment v hop
    cases shape' with
    | object => exact absurd rfl hne
    | array n =>
      simp only [apply, applyArray, applyCopy, Value.apply, hgetShape]
      exact ⟨hcopy (by simp) (hget.pushEntry n hv), .primitive _ _, rfl⟩
  | pop =>
    cases shape' with
    | object => exact absurd rfl hne
    | array n =>
      cases n with
      | zero =>
        simp only [apply, applyArray, applyCopy, Value.apply, hgetShape]
        exact ⟨hcopy (by simp) (hget.truncate 0), .primitive _ _, rfl⟩
      | succ n =>
        have hvalue : Represents (getArray lang shape data newData (.index n)).2
            (property lang .primitive (.array (n + 1)) entries (.index n)) :=
          (getArray_represents h (by simp [constructorKey])).2.1
        simp only [apply, applyArray, applyCopy, Value.apply, hgetShape]
        exact ⟨hcopy (by simp) (hget.popEntry n), hvalue, rfl⟩

section Object
variable {data : List (Key × Value)} {newData : List (Key × Augmented)} {deleted : List Key}

theorem own_object_set {value : Augmented} (k k' : Key) :
    own (.object data (setEntry k value newData) (deleted.filter fun j => decide (j ≠ k))) k' =
      if k = k' then some value else own (.object data newData deleted) k' := by
  rw [own, own, lookupEntry_setEntry]
  by_cases hk : k = k'
  · simp [hk]
  · simp [hk, Ne.symm hk]

theorem mem_deleted {k j : Key} {b : Bool} :
    j ∈ (if b then k :: deleted else deleted) ↔ j ∈ deleted ∨ (k = j ∧ b = true) := by
  cases b <;> simp [eq_comm, or_comm]

theorem own_object_delete {k : Key} {b : Bool} (hb : (lookupEntry k data).isSome = true → b = true)
    (k' : Key) :
    own (.object data (deleteEntry k newData) (if b then k :: deleted else deleted)) k' =
      if k = k' then none else own (.object data newData deleted) k' := by
  rw [own, own, lookupEntry_deleteEntry]
  simp only [mem_deleted]
  by_cases hk : k = k'
  · subst hk
    cases b with
    | true => simp
    | false =>
      have hnone : lookupEntry k data = none := by
        rw [← Option.not_isSome_iff_eq_none]
        exact fun h => Bool.false_ne_true (hb h)
      simp [hnone]
  · simp [hk]

/-- A name is deleted for good where the data has it. -/
theorem represents_object_delete {k : Key} {b : Bool}
    (h : Represents (.object data newData deleted) (.container shape entries))
    (hb : (lookupEntry k data).isSome = true → b = true) :
    Represents (.object data (deleteEntry k newData) (if b then k :: deleted else deleted))
      (.container shape (deleteEntry k entries)) := by
  obtain ⟨hshape, hdisjoint, hown⟩ := represents_object.mp h
  refine represents_object.mpr ⟨hshape, fun j hj => ?_, fun k' => ?_⟩
  · rw [lookupEntry_deleteEntry]
    split_ifs with hkj
    · rfl
    · exact hdisjoint j ((mem_deleted.mp hj).resolve_right fun h => hkj h.1)
  · rw [own_object_delete hb, lookupEntry_deleteEntry]
    split_ifs
    · exact .none
    · exact hown k'

theorem represents_object_set {k : Key} {value : Augmented} {v : Value}
    (h : Represents (.object data newData deleted) (.container shape entries))
    (hv : Represents value v) :
    Represents (.object data (setEntry k value newData) (deleted.filter fun j => decide (j ≠ k)))
      (.container shape (setEntry k v entries)) := by
  obtain ⟨hshape, hdisjoint, hown⟩ := represents_object.mp h
  refine represents_object.mpr ⟨hshape, fun j hj => ?_, fun k' => ?_⟩
  · obtain ⟨hj, hjk⟩ := List.mem_filter.mp hj
    rw [lookupEntry_setEntry, if_neg (Ne.symm (of_decide_eq_true hjk))]
    exact hdisjoint j hj
  · rw [own_object_set, lookupEntry_setEntry]
    split_ifs
    · exact .some hv
    · exact hown k'

theorem mem_ownKeysObject (k : Key) :
    k ∈ ownKeysObject data newData deleted ↔
      (own (.object data newData deleted) k).isSome = true := by
  rw [← hasOwnObject_eq, ownKeysObject, hasOwnObject, List.mem_filter, List.mem_dedup,
    List.mem_append]
  have hmem : ∀ {α : Type} (es : List (Key × α)),
      k ∈ es.map Prod.fst ↔ (lookupEntry k es).isSome = true := by
    intro α es
    rw [Option.isSome_iff_ne_none, ne_eq, OrderedMap.lookupEntry_eq_none, not_not]
  rw [hmem, hmem]
  by_cases hd : k ∈ deleted
  · simp [hd]
  · cases hn : lookupEntry k newData <;> simp [hd]

theorem copy_set_undefined (k : Key) :
    applyCopy lang (.set k .undefined) .object entries =
      (.container .object (deleteEntry k entries), .done) := by
  simp [applyCopy, Value.undefined, Value.apply, remove]

theorem copy_set {k : Key} {v : Value} (hv : v ≠ .undefined) :
    applyCopy lang (.set k v) .object entries =
      (.container .object (setEntry k v entries), .done) := by
  rw [applyCopy_eq fun k' hop => absurd (Op.set.inj hop).2 hv]
  cases k <;> simp [Value.apply, assign, Shape.grow]

theorem copy_delete (k : Key) :
    applyCopy lang (.delete k) .object entries =
      (.container .object (deleteEntry k entries), .bool true) := by
  simp [applyCopy, Value.apply, remove]

theorem apply_set {k : Key} {v : Value} (hv : v ≠ .undefined) :
    apply lang (.set k v) (.object data newData deleted) =
      ⟨.object data (setEntry k (.plain false v) newData) (deleted.filter fun j => decide (j ≠ k)),
        .done, false⟩ := by
  simp only [apply, applyObject]
  unfold setObject
  split
  · exact absurd rfl hv
  · rfl

theorem apply_object (h : Represents (.object data newData deleted) (.container shape entries))
    (hc : answersAlike lang op (.object data newData deleted) = true) :
    Agrees (apply lang op (.object data newData deleted)) (applyCopy lang op shape entries) := by
  obtain ⟨rfl, hdisjoint, hown⟩ := represents_object.mp h
  cases op with
  | get k =>
    obtain ⟨hself, hvalue, -⟩ := get_represents h hc
    exact ⟨hself, hvalue, rfl⟩
  | set k v =>
    by_cases hv : v = .undefined
    · subst hv
      refine ⟨?_, trivial, rfl⟩
      rw [copy_set_undefined]
      exact represents_object_delete (b := (lookupEntry k data).isSome || lang.inherits .object k) h
        fun hk => by rw [hk, Bool.true_or]
    · rw [copy_set hv, apply_set hv]
      exact ⟨represents_object_set h (represents_plain v), trivial, rfl⟩
  | delete k =>
    rw [copy_delete]
    exact ⟨represents_object_delete h id, rfl, rfl⟩
  | has k =>
    refine ⟨h, ?_, rfl⟩
    have hk := isSome_eq_of_rel (hown k)
    simp only [apply, applyObject, applyCopy, Value.apply, Result.Alike, ownProperty,
      lengthOf_object, ← hk, ← hasOwnObject_eq, hasObject, hasOwnObject]
    by_cases hd : k ∈ deleted
    · simpa [answersAlike, hides, hd] using hc
    · cases lookupEntry k newData <;> simp [hd]
  | ownKeys =>
    refine ⟨h, fun k => ?_, rfl⟩
    rw [mem_ownKeysObject, isSome_eq_of_rel (hown k), mem_ownKeys, lengthOf_object]
    simp
  | hasOwn k =>
    refine ⟨h, ?_, rfl⟩
    simp only [apply, applyObject, applyCopy, Value.apply, Result.Alike, hasOwnObject_eq,
      isSome_eq_of_rel (hown k), ownProperty, lengthOf_object]
  | push v => exact ⟨h, trivial, rfl⟩
  | pop => exact ⟨h, trivial, rfl⟩

end Object

/-- One operation on a container. -/
theorem apply_agrees {a : Augmented} (h : Represents a (.container shape entries)) (hop : takes op)
    (hc : answersAlike lang op a = true) :
    Agrees (apply lang op a) (applyCopy lang op shape entries) := by
  cases a with
  | plain shared v =>
    cases v with
    | primitive p => cases h with | container hshape _ _ => simp [shape?] at hshape
    | container shape' held => exact apply_plain h hc
  | object data newData deleted => exact apply_object h hc
  | array shape' data newData => exact apply_array h hop hc

end Apply

/-! ### Paths -/

section Paths
variable {a child : Augmented} {shape : Shape} {entries : List (Key × Value)} {lang : Language}
  {op : Op} {k : Key}

theorem sharing_get : sharing (get lang k a).1 = sharing a := by
  cases a with
  | plain shared v => cases v <;> rfl
  | object data newData deleted =>
    simp only [get, getObject]
    split_ifs
    · rfl
    · rfl
    · split <;> rfl
    · split <;> rfl
  | array shape data newData =>
    simp only [get, getArray]
    split_ifs
    · rfl
    · split <;> rfl

theorem sharing_store : sharing (store k child a) = sharing a := by
  cases a with
  | plain shared v =>
    cases v with
    | primitive p => rfl
    | container shape entries => cases child <;> rfl
  | object data newData deleted => rfl
  | array shape data newData => cases newData <;> rfl

theorem sharing_apply : sharing (apply lang op a).self = sharing a := by
  cases a with
  | plain shared v => cases v <;> rfl
  | object data newData deleted =>
    cases op with
    | get k => exact sharing_get (a := .object data newData deleted)
    | set k v =>
      simp only [apply, applyObject]
      unfold setObject
      split <;> rfl
    | delete k => rfl
    | has k => rfl
    | ownKeys => rfl
    | hasOwn k => rfl
    | push v => rfl
    | pop => rfl
  | array shape data newData =>
    cases op with
    | get k => exact sharing_get (a := .array shape data newData)
    | set k v =>
      simp only [apply, applyArray]
      split <;> rfl
    | delete k =>
      simp only [apply, applyArray]
      split <;> rfl
    | has k => rfl
    | ownKeys => rfl
    | hasOwn k => rfl
    | push v =>
      simp only [apply, applyArray]
      split <;> rfl
    | pop =>
      simp only [apply, applyArray]
      split <;> rfl

theorem sharing_applyAt (path : List Key) : sharing (applyAt lang op path a).self = sharing a := by
  induction path generalizing a with
  | nil => exact sharing_apply
  | cons k path ih =>
    simp only [applyAt]
    split_ifs
    · rw [sharing_store, sharing_get]
    · exact sharing_get

theorem store_represents {v : Value} (h : Represents a (.container shape entries))
    (hslot : HasSlot k child a) (hchild : Represents child v) :
    Represents (store k child a) (.container shape (setEntry k v entries)) := by
  cases a with
  | plain shared held =>
    cases held with
    | primitive p => cases h with | container hshape _ _ => simp [shape?] at hshape
    | container shape' held =>
      obtain ⟨rfl, hshared, hrel⟩ := represents_plain_container.mp h
      cases child with
      | plain shared' w =>
        obtain rfl : shared' = shared := by simpa [HasSlot, sharing] using hslot
        exact represents_plain_container.mpr ⟨rfl, hshared, hrel.setEntry k hchild⟩
      | object data newData deleted => simp [HasSlot, sharing] at hslot
      | array shape data newData => simp [HasSlot, sharing] at hslot
  | object data newData deleted =>
    have hfilter : (deleted.filter fun j => decide (j ≠ k)) = deleted :=
      List.filter_eq_self.mpr fun j hj => by
        simpa using fun hjk : j = k => hslot (hjk ▸ hj)
    have hset := represents_object_set h hchild (k := k)
    rw [hfilter] at hset
    exact hset
  | array shape' data newData =>
    obtain ⟨hsome, hsharing⟩ := hslot
    cases newData with
    | none => simp at hsome
    | some contents =>
      obtain ⟨rfl, hne, hrel⟩ := represents_array.mp h
      have hproxy : Represents (augment child) v := by
        rw [augment_eq_self fun shared shape entries he => by simp [he, sharing] at hsharing]
        exact hchild
      exact represents_array.mpr ⟨rfl, hne, hrel.setEntry k hproxy⟩

theorem HasSlot.congr {child' : Augmented} (h : HasSlot k child a)
    (hsharing : sharing child' = sharing child) : HasSlot k child' a := by
  cases a with
  | plain shared v => exact hsharing.trans h
  | object data newData deleted => exact h
  | array shape data newData => exact ⟨h.1, hsharing.trans h.2⟩

/-- One operation at the end of a path. -/
theorem applyAt_agrees {v : Value} (h : Represents a v) (hop : takes op) (path : List Key)
    (hc : answersAlikeAt lang op path a = true) :
    Agrees (applyAt lang op path a) (v.applyAt (applyCopy lang op) path) := by
  induction path generalizing a v with
  | nil =>
    cases h with
    | primitive shared p => exact ⟨.primitive shared p, trivial, rfl⟩
    | container hshape hsound hown => exact apply_agrees (.container hshape hsound hown) hop hc
  | cons k path ih =>
    rw [answersAlikeAt, Bool.and_eq_true] at hc
    cases v with
    | primitive p => cases h with | primitive shared p => exact ⟨.primitive shared p, trivial, rfl⟩
    | container shape entries =>
      obtain ⟨hself, hvalue, hslot⟩ := get_represents h hc.1
      by_cases hcontainer : isContainer (get lang k a).2 = true
      · obtain ⟨childShape, children, hchild⟩ := hvalue.isContainer_iff.mp hcontainer
        rw [hchild] at hvalue
        obtain ⟨hself', hresult, htouched⟩ := ih hvalue hc.2
        simp only [applyAt, Value.applyAt, Value.ownProperty_eq_container.mpr hchild, hcontainer,
          if_true]
        exact ⟨store_represents hself ((hslot hcontainer).congr (sharing_applyAt path)) hself',
          hresult, htouched⟩
      · rw [Value.applyAt]
        split
        · rename_i howned
          exact absurd (hvalue.isContainer_iff.mpr
            ⟨_, _, Value.ownProperty_eq_container.mp howned⟩) hcontainer
        · simp only [applyAt, if_neg hcontainer]
          exact ⟨hself, trivial, rfl⟩

end Paths

/-! ### Runs -/

/-- The augmented value and the deep copy that it is compared with. -/
structure Session where
  augmented : Augmented
  copy : Value

abbrev Access := List Key × Op

namespace Session

/-- `augmentObject` or `augmentArray`, as the value is an object or an array. -/
def start (v : Value) : Session := ⟨augment (.plain true v), v⟩

def next (lang : Language) (s : Session) (e : Access) : Session :=
  ⟨(applyAt lang e.2 e.1 s.augmented).self, (s.copy.applyAt (applyCopy lang e.2) e.1).1⟩

def Step (lang : Language) (s : Session) (e : Access) (s' : Session) : Prop :=
  takes e.2 ∧ s' = s.next lang e

def ActsAlike (lang : Language) (s : Session) (e : Access) : Prop :=
  (applyAt lang e.2 e.1 s.augmented).result.Alike Represents
      (s.copy.applyAt (applyCopy lang e.2) e.1).2 ∧
    (applyAt lang e.2 e.1 s.augmented).touched = false

def AnswersAlike (lang : Language) (s : Session) (e : Access) : Prop :=
  answersAlikeAt lang e.2 e.1 s.augmented = true

instance (lang : Language) (s : Session) (e : Access) : Decidable (s.AnswersAlike lang e) :=
  inferInstanceAs (Decidable (_ = true))

/-- `{a: [1]}`: an element is pushed, read back and looked for. -/
def pushed : List Access :=
  [([.name "a"], .push (.primitive (.num 2))), ([.name "a"], .get (.index 1)),
    ([.name "a"], .hasOwn (.index 1)), ([], .delete (.name "a")), ([], .ownKeys)]

def listed : Value :=
  .container .object [(.name "a", .container (.array 1) [(.index 0, .primitive (.num 1))])]

end Session

end N8n.AugmentObject
