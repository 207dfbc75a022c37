import N8n.Foundations.FoldM
import N8n.Foundations.LeastRoutes
import N8n.Foundations.ObjectGraph
import N8n.Foundations.PlainData

/-!
# Removing circular references

One set of seen objects serves the whole walk. What the walk looks at are the non-empty objects
among the properties of an object and among the items of its arrays, but not in arrays of arrays.
-/

namespace N8n.CircularRefs

open ObjectGraph PlainData LeastRoutes
open Relation (ReflTransGen TransGen)

abbrev Value := ObjectGraph.Value Primitive

abbrev Cell := ObjectGraph.Cell Primitive

/-- Calls nest as deep as the stack allows. -/
inductive Failure where
  | stackOverflow
  | noObject
  deriving DecidableEq, Repr

inductive Slot where
  | property (obj : ℕ) (key : String)
  | item (value : ℕ) (index : ℕ)
  deriving DecidableEq

structure Removal where
  cells : List Cell
  seen : List ℕ

def Slot.holder : Slot → ℕ
  | property obj _ => obj
  | item value _ => value

def Slot.lookup : Slot → Cell → Option Value
  | property _ key, .object properties => properties.get? key
  | item _ index, .array items => items[index]?
  | _, _ => none

def Slot.assign (v : Value) : Slot → Cell → Cell
  | property _ key, .object properties => .object (properties.set key v)
  | item _ index, .array items => .array (items.set index v)
  | _, cell => cell

def slotValue (cells : List Cell) (slot : Slot) : Option Value :=
  (cells[slot.holder]?).bind slot.lookup

/-- `{ circularReference: true }` -/
def marker : Cell := .object (.set .empty "circularReference" (.primitive (.bool true)))

namespace Removal

def add (s : Removal) (r : ℕ) : Removal := { s with seen := r :: s.seen }

def hasSeen (s : Removal) : Value → Bool
  | .primitive _ => false
  | .ref r => decide (r ∈ s.seen)

def cut (s : Removal) (slot : Slot) : Removal :=
  { s with cells := s.cells.modify slot.holder (slot.assign (.ref s.cells.length)) ++ [marker] }

end Removal

def isTraversableObject (cells : List Cell) : Value → Bool
  | .primitive _ => false
  | .ref r =>
    match cells[r]? with
    | some (.object properties) => !properties.keys.isEmpty
    | _ => false

section Remove
variable (remove : ℕ → Removal → Except Failure Removal)

def removeFrom (s : Removal) : Value → Except Failure Removal
  | .primitive _ => .ok s
  | .ref r => remove r s

def visitItem (value : ℕ) (s : Removal) (index : ℕ) : Except Failure Removal :=
  match slotValue s.cells (.item value index) with
  | none => .ok s
  | some val =>
    if s.hasSeen val then .ok (s.cut (.item value index))
    else if isTraversableObject s.cells val then removeFrom remove s val
    else .ok s

def visitProperty (obj : ℕ) (s : Removal) (entry : String × Value) : Except Failure Removal :=
  if isTraversableObject s.cells entry.2 then
    if s.hasSeen entry.2 then .ok (s.cut (.property obj entry.1)) else removeFrom remove s entry.2
  else
    match entry.2 with
    | .primitive _ => .ok s
    | .ref value =>
      match s.cells[value]? with
      | some (.array items) => (List.range items.length).foldlM (visitItem remove value) s
      | _ => .ok s

end Remove

def removeCircularRefs : ℕ → ℕ → Removal → Except Failure Removal
  | 0, _, _ => .error .stackOverflow
  | stack + 1, obj, s =>
    match s.cells[obj]? with
    | some (.object properties) =>
      properties.entries.foldlM (visitProperty (removeCircularRefs stack) obj) (s.add obj)
    | _ => .error .noObject

/-- The objects and arrays that one object leads to. -/
structure Rooted where
  cells : List Cell
  root : ℕ
  root_object : ∃ properties, cells[root]? = some (.object properties)
  closed : ∀ a b, Contains cells a b → b < cells.length
  reached : ∀ r < cells.length, ReflTransGen (Contains cells) root r

/-- No object or array can be reached from itself. -/
def NoCycle (cells : List Cell) : Prop := ∀ r, ¬ TransGen (Contains cells) r r

def RemovesCycles (g : Rooted) : Prop :=
  ∃ stack s, removeCircularRefs stack g.root ⟨g.cells, []⟩ = .ok s ∧ NoCycle s.cells ∧
    (NoCycle g.cells → s.cells = g.cells)

/-! ### What the walk looks at -/

def meetsItem (cells : List Cell) (value index : ℕ) : List (Slot × ℕ) :=
  match slotValue cells (.item value index) with
  | some (.ref x) =>
    if isTraversableObject cells (.ref x) then [(.item value index, x)] else []
  | _ => []

def meetsProperty (cells : List Cell) (obj : ℕ) (entry : String × Value) : List (Slot × ℕ) :=
  match entry.2 with
  | .primitive _ => []
  | .ref x =>
    if isTraversableObject cells (.ref x) then [(.property obj entry.1, x)]
    else
      match cells[x]? with
      | some (.array items) => (List.range items.length).flatMap (meetsItem cells x)
      | _ => []

/-- The non-empty objects among the properties of an object and the items of its arrays. -/
def meets (cells : List Cell) (obj : ℕ) : List (Slot × ℕ) :=
  match cells[obj]? with
  | some (.object properties) => properties.entries.flatMap (meetsProperty cells obj)
  | _ => []

/-! ### What a cut does to the slots -/

section Slots
variable {cells : List Cell} {cell : Cell} {slot slot' : Slot} {u v : Value} {s : Removal} {r : ℕ}

def SameShape : Cell → Cell → Prop
  | .array items, .array items' => items'.length = items.length
  | .object properties, .object properties' => properties'.keys = properties.keys
  | _, _ => False

theorem lookup_assign (h : slot.lookup cell = some u) :
    slot.lookup (slot.assign v cell) = some v := by
  cases slot with
  | property obj key =>
    cases cell with
    | array items => cases h
    | object properties => exact OrderedMap.get?_set_self properties key v
  | item value index =>
    cases cell with
    | object properties => cases h
    | array items =>
      obtain ⟨hlt, -⟩ := List.getElem?_eq_some_iff.mp h
      exact List.getElem?_set_self hlt

theorem lookup_assign_of_ne (hne : slot ≠ slot') (hholder : slot.holder = slot'.holder) :
    slot'.lookup (slot.assign v cell) = slot'.lookup cell := by
  cases slot <;> cases slot' <;> cases cell <;> try rfl
  · obtain rfl := hholder
    exact OrderedMap.get?_set_of_ne fun h => hne (congrArg _ h)
  · obtain rfl := hholder
    exact List.getElem?_set_ne fun h => hne (congrArg _ h)

theorem SameShape.trans {cell' cell'' : Cell} (h : SameShape cell cell')
    (h' : SameShape cell' cell'') : SameShape cell cell'' := by
  cases cell <;> cases cell' <;> cases cell'' <;> first | exact Eq.trans h' h | cases h | cases h'

theorem SameShape.refl (cell : Cell) : SameShape cell cell := by
  cases cell <;> exact rfl

theorem sameShape_assign (h : slot.lookup cell = some u) : SameShape cell (slot.assign v cell) := by
  cases slot with
  | property obj key =>
    cases cell with
    | array items => cases h
    | object properties =>
      change (properties.set key v).keys = properties.keys
      rw [OrderedMap.keys_set, if_pos (OrderedMap.mem_keys_of_get? h)]
  | item value index =>
    cases cell with
    | object properties => cases h
    | array items => exact List.length_set

theorem length_cut (s : Removal) (slot : Slot) : (s.cut slot).cells.length = s.cells.length + 1 := by
  simp [Removal.cut]

theorem getElem?_cut (hr : r < s.cells.length) : (s.cut slot).cells[r]? =
    if slot.holder = r then s.cells[r]?.map (slot.assign (.ref s.cells.length))
    else s.cells[r]? := by
  rw [Removal.cut, List.getElem?_append_left (by simpa using hr), List.getElem?_modify]
  split_ifs <;> simp

theorem getElem?_cut_length : (s.cut slot).cells[s.cells.length]? = some marker := by
  rw [Removal.cut, List.getElem?_append_right (by simp)]
  simp

theorem slotValue_eq_some : slotValue cells slot = some u ↔
    ∃ cell, cells[slot.holder]? = some cell ∧ slot.lookup cell = some u :=
  Option.bind_eq_some_iff

theorem slotValue_cut (h : slotValue s.cells slot = some u) :
    slotValue (s.cut slot).cells slot = some (.ref s.cells.length) := by
  obtain ⟨cell, hcell, hu⟩ := slotValue_eq_some.mp h
  obtain ⟨hlt, -⟩ := List.getElem?_eq_some_iff.mp hcell
  refine slotValue_eq_some.mpr ⟨_, ?_, lookup_assign hu⟩
  rw [getElem?_cut hlt, if_pos rfl, hcell, Option.map_some]

theorem slotValue_cut_of_ne (hne : slot ≠ slot') (hlt : slot'.holder < s.cells.length) :
    slotValue (s.cut slot).cells slot' = slotValue s.cells slot' := by
  rw [slotValue, slotValue, getElem?_cut hlt]
  split_ifs with hholder
  · cases s.cells[slot'.holder]? with
    | none => rfl
    | some cell => exact lookup_assign_of_ne hne hholder
  · rfl

/-- What a cell contains stands in its slots. -/
theorem contains_iff {a b : ℕ} : Contains cells a b ↔
    ∃ slot : Slot, slot.holder = a ∧ slotValue cells slot = some (.ref b) := by
  constructor
  · rintro ⟨cell, hcell, hb⟩
    cases cell with
    | array items =>
      obtain ⟨i, hi⟩ := List.mem_iff_getElem?.mp hb
      exact ⟨.item a i, rfl, slotValue_eq_some.mpr ⟨_, hcell, hi⟩⟩
    | object properties =>
      obtain ⟨key, hkey⟩ := OrderedMap.mem_values.mp hb
      exact ⟨.property a key, rfl, slotValue_eq_some.mpr ⟨_, hcell, hkey⟩⟩
  · rintro ⟨slot, rfl, h⟩
    obtain ⟨cell, hcell, hb⟩ := slotValue_eq_some.mp h
    refine ⟨cell, hcell, ?_⟩
    cases slot with
    | property obj key =>
      cases cell with
      | array items => cases hb
      | object properties => exact OrderedMap.mem_values.mpr ⟨key, hb⟩
    | item value index =>
      cases cell with
      | object properties => cases hb
      | array items => exact List.mem_of_getElem? hb

end Slots

end N8n.CircularRefs
