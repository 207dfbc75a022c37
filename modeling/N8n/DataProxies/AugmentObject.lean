import N8n.Foundations.PlainData
import N8n.Foundations.Runs
import Mathlib.Data.List.Dedup

/-!
# Augmented data

A proxy stands before a container of the original data and keeps the changes apart: an
object has a side object for what was set and read and a set of deleted names, an array is
copied before its first change. Nested containers get proxies of their own when they are
read. What the proxies hold of the original is marked as shared, so that a write to it
would show.
-/

namespace N8n.AugmentObject

open PlainData
open OrderedMap (lookupEntry setEntry lookupEntry_setEntry)

inductive Augmented where
  | plain (shared : Bool) (v : Value)
  | object (data : List (Key × Value)) (newData : List (Key × Augmented)) (deleted : List Key)
  | array (shape : Shape) (data : List (Key × Value))
      (newData : Option (Shape × List (Key × Augmented)))

def ofPrimitive (p : Primitive) : Augmented := .plain false (.primitive p)

def augment : Augmented → Augmented
  | .plain _ (.container .object data) => .object data [] []
  | .plain _ (.container (.array length) data) => .array (.array length) data none
  | a => a

def isContainer : Augmented → Bool
  | .plain _ (.primitive _) => false
  | _ => true

/-- The properties of the original as its reader gets them. -/
def sharedEntries (data : List (Key × Value)) : List (Key × Augmented) :=
  data.map fun e => (e.1, .plain true e.2)

/-- `[...data]` -/
def spread : Shape → List (Key × Value) → Shape × List (Key × Augmented)
  | .object, _ => (.array 0, [])
  | .array length, data => (.array length, (List.range length).map fun i =>
      (.index i, .plain true ((lookupEntry (.index i) data).getD .undefined)))

def getData (shape : Shape) (data : List (Key × Value))
    (newData : Option (Shape × List (Key × Augmented))) : Shape × List (Key × Augmented) :=
  newData.getD (spread shape data)

def constructorKey : Key := .name "constructor"

structure Outcome where
  self : Augmented
  result : Result Augmented
  touched : Bool

section Traps
variable (lang : Language)

def getObject (data : List (Key × Value)) (newData : List (Key × Augmented)) (deleted : List Key)
    (k : Key) : Augmented × Augmented :=
  let self := Augmented.object data newData deleted
  if k = constructorKey then (self, ofPrimitive (.builtin "constructor"))
  else if k ∈ deleted then (self, ofPrimitive .undefined)
  else match lookupEntry k newData with
    | some a => (self, a)
    | none =>
      let value := property lang ofPrimitive .object (sharedEntries data) k
      if isContainer value then
        (.object data (setEntry k (augment value) newData) deleted, augment value)
      else (self, value)

def getArray (shape : Shape) (data : List (Key × Value))
    (newData : Option (Shape × List (Key × Augmented))) (k : Key) : Augmented × Augmented :=
  let self := Augmented.array shape data newData
  if k = constructorKey then (self, ofPrimitive (.builtin "constructor"))
  else
    let (readShape, read) := newData.getD (shape, sharedEntries data)
    match property lang ofPrimitive readShape read k with
    | .plain shared (.container valueShape entries) =>
      let (newShape, new) := getData shape data newData
      let a := augment (.plain shared (.container valueShape entries))
      (.array shape data (some (newShape, setEntry k a new)), a)
    | value => (self, value)

def get (k : Key) : Augmented → Augmented × Augmented
  | .plain shared (.primitive p) => (.plain shared (.primitive p), ofPrimitive .undefined)
  | .plain shared (.container shape entries) =>
    (.plain shared (.container shape entries),
      .plain shared (property lang .primitive shape entries k))
  | .object data newData deleted => getObject lang data newData deleted k
  | .array shape data newData => getArray lang shape data newData k

def setObject (data : List (Key × Value)) (newData : List (Key × Augmented)) (deleted : List Key)
    (k : Key) : Value → Augmented
  | .primitive .undefined =>
    .object data (deleteEntry k newData)
      (if (lookupEntry k data).isSome || lang.inherits .object k then k :: deleted else deleted)
  | value => .object data (setEntry k (.plain false value) newData)
      (deleted.filter fun j => decide (j ≠ k))

def deleteObject (data : List (Key × Value)) (newData : List (Key × Augmented))
    (deleted : List Key) (k : Key) : Augmented :=
  .object data (deleteEntry k newData)
    (if (lookupEntry k data).isSome then k :: deleted else deleted)

def hasObject (data : List (Key × Value)) (newData : List (Key × Augmented)) (deleted : List Key)
    (k : Key) : Bool :=
  if k ∈ deleted then false
  else if (lookupEntry k newData).isSome then true
  else (lookupEntry k data).isSome || lang.inherits .object k

def ownKeysObject (data : List (Key × Value)) (newData : List (Key × Augmented))
    (deleted : List Key) : List Key :=
  (data.map Prod.fst ++ newData.map Prod.fst).dedup.filter fun k => decide (k ∉ deleted)

def hasOwnObject (data : List (Key × Value)) (newData : List (Key × Augmented))
    (deleted : List Key) (k : Key) : Bool :=
  if k ∈ deleted then false
  else if (lookupEntry k newData).isSome then true
  else (lookupEntry k data).isSome

def applyObject (data : List (Key × Value)) (newData : List (Key × Augmented))
    (deleted : List Key) (op : Op) : Augmented × Result Augmented :=
  let self := Augmented.object data newData deleted
  match op with
  | .get k => let (self, value) := getObject lang data newData deleted k; (self, .value value)
  | .set k value => (setObject lang data newData deleted k value, .done)
  | .delete k => (deleteObject data newData deleted k, .bool true)
  | .has k => (self, .bool (hasObject lang data newData deleted k))
  | .ownKeys => (self, .keys (ownKeysObject data newData deleted))
  | .hasOwn k => (self, .bool (hasOwnObject data newData deleted k))
  | .push _ => (self, .error)
  | .pop => (self, .error)

/-- After the copy every name but `length` has a descriptor, of the original or the default one. -/
def hasOwnArray (shape : Shape) (data : List (Key × Value))
    (newData : Option (Shape × List (Key × Augmented))) (k : Key) : Bool :=
  match newData with
  | none => (ownProperty ofPrimitive shape (sharedEntries data) k).isSome
  | some _ => true

def applyArray (shape : Shape) (data : List (Key × Value))
    (newData : Option (Shape × List (Key × Augmented))) (op : Op) : Augmented × Result Augmented :=
  let self := Augmented.array shape data newData
  let copy := fun contents => Augmented.array shape data (some contents)
  let (readShape, read) := newData.getD (shape, sharedEntries data)
  let (newShape, new) := getData shape data newData
  match op with
  | .get k => let (self, value) := getArray lang shape data newData k; (self, .value value)
  | .set k value =>
    match assign newShape new k (augment (.plain true value)) (lang.toLength value) with
    | some contents => (copy contents, .done)
    | none => (copy (newShape, new), .error)
  | .delete k =>
    match remove newShape new k with
    | some contents => (copy contents, .bool true)
    | none => (copy (newShape, new), .bool false)
  | .has k => (self,
      .bool ((ownProperty ofPrimitive readShape read k).isSome || lang.inherits readShape k))
  | .ownKeys => (self, .keys (ownKeys readShape read))
  | .hasOwn k => (self, .bool (hasOwnArray shape data newData k))
  | .push value =>
    match newShape with
    | .object => (self, .error)
    | .array n => (copy (.array (n + 1), pushEntry n new (augment (.plain true value))),
        .value (ofPrimitive (.num (n + 1))))
  | .pop =>
    match newShape with
    | .object => (self, .error)
    | .array 0 => (copy (.array 0, truncate 0 new), .value (ofPrimitive .undefined))
    | .array (n + 1) => (copy (.array n, popEntry n new),
        .value (getArray lang shape data newData (.index n)).2)

def apply (op : Op) : Augmented → Outcome
  | .plain shared (.primitive p) => ⟨.plain shared (.primitive p), .error, false⟩
  | .plain shared (.container shape entries) =>
    let (v, result) := Value.apply lang op shape entries
    ⟨.plain shared v, result.map (.plain shared), shared && op.writes⟩
  | .object data newData deleted =>
    let (self, result) := applyObject lang data newData deleted op
    ⟨self, result, false⟩
  | .array shape data newData =>
    let (self, result) := applyArray lang shape data newData op
    ⟨self, result, false⟩

/-- A container in the slot that it was read from. -/
def store (k : Key) (child : Augmented) : Augmented → Augmented
  | .plain shared (.container shape entries) =>
    match child with
    | .plain _ v => .plain shared (.container shape (setEntry k v entries))
    | _ => .plain shared (.container shape entries)
  | .object data newData deleted => .object data (setEntry k child newData) deleted
  | .array shape data (some (newShape, new)) => .array shape data (some (newShape, setEntry k child new))
  | a => a

/-- The operation on what a path of reads leads to. -/
def applyAt (op : Op) : List Key → Augmented → Outcome
  | [], a => apply lang op a
  | k :: path, a =>
    let (a, child) := get lang k a
    if isContainer child then
      let out := applyAt op path child
      ⟨store k out.self a, out.result, out.touched⟩
    else ⟨a, .error, false⟩

/-! ### The deep copy -/

/-- On an object, setting a property to undefined counts as deleting it. -/
def applyCopy (op : Op) (shape : Shape) (entries : List (Key × Value)) : Value × Result Value :=
  match op, shape with
  | .set k (.primitive .undefined), .object =>
    ((Value.apply lang (.delete k) .object entries).1, .done)
  | op, shape => Value.apply lang op shape entries

end Traps

/-! ### Where the proxies answer alike -/

section Conditions
variable (lang : Language)

def owns (a : Augmented) (k : Key) : Bool :=
  match a with
  | .plain _ (.primitive _) => false
  | .plain _ (.container shape entries) => (ownProperty .primitive shape entries k).isSome
  | .object data newData deleted => hasOwnObject data newData deleted k
  | .array shape data newData =>
    let (readShape, read) := newData.getD (shape, sharedEntries data)
    (ownProperty ofPrimitive readShape read k).isSome

/-- A deleted name that objects inherit. -/
def hides (a : Augmented) (k : Key) : Bool :=
  match a with
  | .object _ _ deleted => decide (k ∈ deleted) && lang.inherits .object k
  | _ => false

def isProxy : Augmented → Bool
  | .plain _ _ => false
  | _ => true

/-- `constructor` reads as the built-in one even where the data has a property of that name,
and a deleted name hides what objects inherit. -/
def readsAlike (k : Key) (a : Augmented) : Bool :=
  if k = constructorKey then !(isProxy a && owns a k) else !hides lang a k

/-- Further, a copied array claims to have every name, and an object that was assigned keeps
what is set to undefined. -/
def answersAlike (op : Op) (a : Augmented) : Bool :=
  match op, a with
  | .get k, a => readsAlike lang k a
  | .has k, a => !hides lang a k
  | .hasOwn k, .array shape data (some newData) => owns (.array shape data (some newData)) k
  | .set _ (.primitive .undefined), .plain _ (.container .object _) => false
  | _, _ => true

def answersAlikeAt (op : Op) : List Key → Augmented → Bool
  | [], a => answersAlike lang op a
  | k :: path, a => readsAlike lang k a && answersAlikeAt op path (get lang k a).2

end Conditions

end N8n.AugmentObject
