import N8n.Foundations.OrderedMap
import N8n.Workflow.Connections

/-!
# The data of a run

What the nodes of a workflow have put out, run by run. The items are of a type
`ι` of their own: the code looks at how many there are and passes them on. An
array of outputs can have holes, so a place in it holds items, `null` or nothing.
-/

namespace N8n

variable {ι : Type}

inductive Slot (ι : Type) where
  | undefined
  | null
  | items (items : List ι)
  deriving DecidableEq, Repr

/-- `slot ?? null`, as far as there are items. -/
def Slot.items? : Slot ι → Option (List ι)
  | .items l => some l
  | .null => none
  | .undefined => none

def Slot.isNull : Slot ι → Bool
  | .null => true
  | .undefined => false
  | .items _ => false

@[simp] theorem Slot.isNull_iff {slot : Slot ι} : slot.isNull = true ↔ slot = .null := by
  cases slot <;> simp [isNull]

/-- Reading past the end of an array gives `undefined`. -/
def getSlot (slots : List (Slot ι)) (index : ℕ) : Slot ι := slots[index]?.getD .undefined

/-- Writing past the end of an array leaves holes. -/
def setSlot : List (Slot ι) → ℕ → Slot ι → List (Slot ι)
  | [], 0, slot => [slot]
  | [], index + 1, slot => .undefined :: setSlot [] index slot
  | _ :: slots, 0, slot => slot :: slots
  | s :: slots, index + 1, slot => s :: setSlot slots index slot

@[simp] theorem getSlot_nil (index : ℕ) : getSlot ([] : List (Slot ι)) index = .undefined := rfl

@[simp] theorem getSlot_cons_zero (s : Slot ι) (slots : List (Slot ι)) :
    getSlot (s :: slots) 0 = s := rfl

@[simp] theorem getSlot_cons_succ (s : Slot ι) (slots : List (Slot ι)) (index : ℕ) :
    getSlot (s :: slots) (index + 1) = getSlot slots index := rfl

theorem getSlot_setSlot (slots : List (Slot ι)) (index index' : ℕ) (slot : Slot ι) :
    getSlot (setSlot slots index slot) index' =
      if index = index' then slot else getSlot slots index' := by
  induction slots, index, slot using setSlot.induct generalizing index' with
  | case1 slot => cases index' <;> simp [setSlot]
  | case2 index slot ih => cases index' <;> simp [setSlot, ih]
  | case3 s slots slot => cases index' <;> simp [setSlot]
  | case4 s slots index slot ih => cases index' <;> simp [setSlot, ih]

theorem mem_setSlot {slots : List (Slot ι)} {index : ℕ} {slot s : Slot ι}
    (h : s ∈ setSlot slots index slot) : s ∈ slots ∨ s = slot ∨ s = .undefined := by
  induction slots, index, slot using setSlot.induct with
  | case1 slot => exact Or.inr (Or.inl (List.mem_singleton.mp h))
  | case2 index slot ih =>
    rcases List.mem_cons.mp h with rfl | h
    · exact Or.inr (Or.inr rfl)
    · exact ih h
  | case3 t slots slot =>
    rcases List.mem_cons.mp h with rfl | h
    · exact Or.inr (Or.inl rfl)
    · exact Or.inl (List.mem_cons_of_mem _ h)
  | case4 t slots index slot ih =>
    rcases List.mem_cons.mp h with rfl | h
    · exact Or.inl List.mem_cons_self
    · rcases ih h with h | h
      · exact Or.inl (List.mem_cons_of_mem _ h)
      · exact Or.inr h

/-- The same for an array whose places hold something or not. -/
def writeAt {α : Type} (l : List (Option α)) (index : ℕ) (a : Option α) : List (Option α) :=
  (l ++ List.replicate (index + 1 - l.length) none).set index a

theorem join_writeAt {α : Type} (l : List (Option α)) (index index' : ℕ) (a : Option α) :
    (writeAt l index a)[index']?.join = if index = index' then a else l[index']?.join := by
  rw [writeAt, List.getElem?_set]
  split_ifs with heq hlt
  · rfl
  · simp only [List.length_append, List.length_replicate] at hlt
    omega
  · rw [List.getElem?_append]
    split_ifs with hlt
    · rfl
    · rw [List.getElem?_eq_none (Nat.not_lt.mp hlt), List.getElem?_replicate]
      split_ifs <;> rfl

abbrev ITaskDataConnections (ι : Type) := OrderedMap NodeConnectionType (List (Slot ι))

structure ITaskData (ι : Type) where
  data : Option (ITaskDataConnections ι)

abbrev IRunData (ι : Type) := OrderedMap String (List (ITaskData ι))

abbrev IPinData (ι : Type) := OrderedMap String (List ι)

end N8n
