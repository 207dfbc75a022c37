import Mathlib.Data.List.Nodup
import Mathlib.Data.List.Basic
import Mathlib.Tactic.SplitIfs

/-!
# Sets that keep the order of insertion

The elements stand in the order in which they were first added. Adding an
element that is there leaves the set as it is. That no element occurs twice is
a field of the structure.
-/

namespace N8n

structure OrderedSet (α : Type*) where
  elems : List α
  nodup : elems.Nodup

namespace OrderedSet
variable {α β : Type*}

instance : Membership α (OrderedSet α) := ⟨fun s a => a ∈ s.elems⟩

theorem mem_def {a : α} {s : OrderedSet α} : a ∈ s ↔ a ∈ s.elems := Iff.rfl

def empty : OrderedSet α := ⟨[], List.nodup_nil⟩

def size (s : OrderedSet α) : ℕ := s.elems.length

def first? (s : OrderedSet α) : Option α := s.elems.head?

def filter (p : α → Bool) (s : OrderedSet α) : OrderedSet α :=
  ⟨s.elems.filter p, s.nodup.filter p⟩

@[simp] theorem not_mem_empty (a : α) : a ∉ (empty : OrderedSet α) := List.not_mem_nil

@[simp] theorem mem_filter {p : α → Bool} {a : α} {s : OrderedSet α} :
    a ∈ s.filter p ↔ a ∈ s ∧ p a = true := List.mem_filter

theorem mem_of_first? {a : α} {s : OrderedSet α} (h : s.first? = some a) : a ∈ s :=
  List.mem_of_head? h

theorem first?_isSome {a : α} {s : OrderedSet α} (h : a ∈ s) : ∃ b, s.first? = some b := by
  rcases s with ⟨_ | ⟨b, l⟩, hn⟩
  · cases h
  · exact ⟨b, rfl⟩

theorem eq_of_size_le_one {a b : α} {s : OrderedSet α} (hs : s.size ≤ 1) (ha : a ∈ s)
    (hb : b ∈ s) : a = b := by
  rcases s with ⟨_ | ⟨c, _ | ⟨d, l⟩⟩, hn⟩
  · cases ha
  · rw [List.mem_singleton.mp ha, List.mem_singleton.mp hb]
  · simp [size] at hs

variable [DecidableEq α]

instance (a : α) (s : OrderedSet α) : Decidable (a ∈ s) :=
  inferInstanceAs (Decidable (a ∈ s.elems))

instance : DecidableEq (OrderedSet α)
  | ⟨l, _⟩, ⟨m, _⟩ =>
    if h : l = m then isTrue (by cases h; rfl) else isFalse (fun he => h (congrArg elems he))

def insert (s : OrderedSet α) (a : α) : OrderedSet α :=
  if h : a ∈ s.elems then s
  else ⟨s.elems ++ [a], List.nodup_append_comm.mp (List.nodup_cons.mpr ⟨h, s.nodup⟩)⟩

@[simp] theorem mem_insert {a b : α} {s : OrderedSet α} : b ∈ s.insert a ↔ b ∈ s ∨ b = a := by
  unfold insert
  split_ifs with h
  · refine ⟨Or.inl, fun hb => hb.elim id ?_⟩
    rintro rfl
    exact h
  · simp [mem_def]

theorem elems_insert {a : α} {s : OrderedSet α} (h : a ∉ s) :
    (s.insert a).elems = s.elems ++ [a] := by
  rw [insert, dif_neg (mem_def.not.mp h)]

theorem size_insert {a : α} {s : OrderedSet α} (h : a ∉ s) : (s.insert a).size = s.size + 1 := by
  rw [size, elems_insert h, List.length_append]
  rfl

def insertAll (s : OrderedSet α) (l : List α) : OrderedSet α := l.foldl insert s

@[simp] theorem mem_insertAll {a : α} {s : OrderedSet α} {l : List α} :
    a ∈ s.insertAll l ↔ a ∈ s ∨ a ∈ l := by
  induction l generalizing s with
  | nil => simp [insertAll]
  | cons b l ih =>
    have h := ih (s := s.insert b)
    simp only [insertAll, List.foldl_cons] at h ⊢
    rw [h, mem_insert, List.mem_cons, or_assoc]

/-- Elements that are new, each once, come after those that are there. -/
theorem elems_insertAll {s : OrderedSet α} {l : List α} (hl : l.Nodup) (hs : ∀ a ∈ l, a ∉ s) :
    (s.insertAll l).elems = s.elems ++ l := by
  induction l generalizing s with
  | nil => exact (List.append_nil _).symm
  | cons a l ih =>
    obtain ⟨ha, hl⟩ := List.nodup_cons.mp hl
    have hnew : a ∉ s := hs a List.mem_cons_self
    have hrest : ∀ b ∈ l, b ∉ s.insert a := by
      intro b hb hmem
      rcases mem_insert.mp hmem with hmem | rfl
      · exact hs b (List.mem_cons_of_mem a hb) hmem
      · exact ha hb
    have h := ih hl hrest
    rw [elems_insert hnew, List.append_assoc] at h
    exact h

def ofList (l : List α) : OrderedSet α := empty.insertAll l

@[simp] theorem mem_ofList {a : α} {l : List α} : a ∈ ofList l ↔ a ∈ l := by
  simp [ofList]

def delete (s : OrderedSet α) (a : α) : OrderedSet α := s.filter (fun b => decide (b ≠ a))

def inter (s t : OrderedSet α) : OrderedSet α := s.filter (fun a => decide (a ∈ t))

def union (s t : OrderedSet α) : OrderedSet α := s.insertAll t.elems

def difference (s t : OrderedSet α) : OrderedSet α := s.filter (fun a => decide (a ∉ t))

@[simp] theorem mem_delete {a b : α} {s : OrderedSet α} : b ∈ s.delete a ↔ b ∈ s ∧ b ≠ a := by
  simp [delete]

@[simp] theorem mem_inter {a : α} {s t : OrderedSet α} : a ∈ s.inter t ↔ a ∈ s ∧ a ∈ t := by
  simp [inter]

@[simp] theorem mem_union {a : α} {s t : OrderedSet α} : a ∈ s.union t ↔ a ∈ s ∨ a ∈ t := by
  unfold union
  rw [mem_insertAll]
  exact Iff.rfl

@[simp] theorem mem_difference {a : α} {s t : OrderedSet α} :
    a ∈ s.difference t ↔ a ∈ s ∧ a ∉ t := by
  simp [difference]

end OrderedSet
end N8n
