import N8n.Foundations.SplitLists
import Mathlib.Data.List.Induction
import Mathlib.Data.List.Nodup

/-!
# Calls in a log

Some messages of a log open a call under a key and say by which tag it is answered, others
answer the calls of a tag. A call is answered by the first answer to its tag that comes after
the message that has opened it.
-/

namespace N8n.OpenedCalls
open N8n.SplitLists

variable {α κ τ β : Type*} {opens : α → Option (κ × τ)} {log : List α} {k : κ} {t : τ}

/-! ### Keys and tags that are used once -/

/-- A key is opened at one place. -/
theorem split_unique (hkeys : ((log.filterMap opens).map Prod.fst).Nodup) {before before' : List α}
    {m m' : α} {after after' : List α} {t t' : τ} (h : log = before ++ m :: after)
    (hopens : opens m = some (k, t)) (h' : log = before' ++ m' :: after')
    (hopens' : opens m' = some (k, t')) : t = t' ∧ after = after' := by
  have hno : ∀ {before middle after : List α} {m m' : α} {t t' : τ},
      log = before ++ m :: (middle ++ m' :: after) → opens m = some (k, t) →
        opens m' = some (k, t') → False := by
    intro before middle after m m' t t' hlog hm hm'
    rw [hlog] at hkeys
    simp only [List.filterMap_append, List.filterMap_cons, hm, hm', List.map_append,
      List.map_cons] at hkeys
    have hdup := (List.nodup_append.mp hkeys).2.1
    exact (List.nodup_cons.mp hdup).1 (by simp)
  rw [h] at h'
  rcases List.append_eq_append_iff.mp h' with ⟨middle, rfl, hmid⟩ | ⟨middle, rfl, hmid⟩
  · cases middle with
    | nil =>
      obtain ⟨rfl, rfl⟩ := List.cons.inj hmid
      exact ⟨congrArg Prod.snd (Option.some.inj (hopens.symm.trans hopens')), rfl⟩
    | cons first middle =>
      obtain ⟨rfl, rfl⟩ := List.cons.inj hmid
      exact (hno h hopens hopens').elim
  · cases middle with
    | nil =>
      obtain ⟨rfl, rfl⟩ := List.cons.inj hmid
      exact ⟨congrArg Prod.snd (Option.some.inj (hopens.symm.trans hopens')), rfl⟩
    | cons first middle =>
      obtain ⟨rfl, rfl⟩ := List.cons.inj hmid
      exact (@hno before' middle after m' m t' t (h.trans (by simp)) hopens' hopens).elim

/-- A tag is that of one key. -/
theorem key_unique (htags : ((log.filterMap opens).map Prod.snd).Nodup) {k' : κ}
    (h : (k, t) ∈ log.filterMap opens) (h' : (k', t) ∈ log.filterMap opens) : k = k' :=
  congrArg Prod.fst (List.inj_on_of_nodup_map htags h h' rfl)

/-! ### Running and answered calls -/

variable [DecidableEq τ] {answers : α → Option (τ × β)} {m : α} {b : β}

def answerTo (answers : α → Option (τ × β)) (t : τ) (m : α) : Option β :=
  (answers m).bind fun answer => if answer.1 = t then some answer.2 else none

def firstAnswer (answers : α → Option (τ × β)) (t : τ) (log : List α) : Option β :=
  log.findSome? (answerTo answers t)

/-- The call of the key waits for an answer to the tag. -/
def Running (opens : α → Option (κ × τ)) (answers : α → Option (τ × β)) (log : List α) (k : κ)
    (t : τ) : Prop :=
  ∃ before m after, log = before ++ m :: after ∧ opens m = some (k, t) ∧
    firstAnswer answers t after = none

def Answered (opens : α → Option (κ × τ)) (answers : α → Option (τ × β)) (log : List α) (k : κ)
    (b : β) : Prop :=
  ∃ t before m after, log = before ++ m :: after ∧ opens m = some (k, t) ∧
    firstAnswer answers t after = some b

theorem answerTo_eq_some : answerTo answers t m = some b ↔ answers m = some (t, b) := by
  unfold answerTo
  cases answers m with
  | none => simp
  | some answer =>
    obtain ⟨t', b'⟩ := answer
    by_cases ht : t' = t
    · simp [ht]
    · simp [ht]

theorem answerTo_eq_none : answerTo answers t m = none ↔ ∀ b, answers m ≠ some (t, b) := by
  rw [Option.eq_none_iff_forall_ne_some]
  exact forall_congr' fun b => not_congr answerTo_eq_some

@[simp] theorem firstAnswer_nil : firstAnswer answers t [] = none := rfl

theorem firstAnswer_concat :
    firstAnswer answers t (log ++ [m]) = (firstAnswer answers t log).or (answerTo answers t m) := by
  rw [firstAnswer, List.findSome?_append, List.findSome?_singleton, firstAnswer]

theorem running_nil : ¬ Running opens answers [] k t := by
  rintro ⟨before, m, after, heq, -⟩
  simp at heq

theorem answered_nil : ¬ Answered opens answers [] k b := by
  rintro ⟨t, before, m, after, heq, -⟩
  simp at heq

theorem running_concat : Running opens answers (log ++ [m]) k t ↔
    (Running opens answers log k t ∧ ∀ b, answers m ≠ some (t, b)) ∨ opens m = some (k, t) := by
  rw [Running, exists_split_concat, or_comm]
  apply or_congr
  · simp only [firstAnswer_concat, Option.or_eq_none_iff, answerTo_eq_none, Running]
    constructor
    · rintro ⟨before, m', after, heq, hopens, hnone, hm⟩
      exact ⟨⟨before, m', after, heq, hopens, hnone⟩, hm⟩
    · rintro ⟨⟨before, m', after, heq, hopens, hnone⟩, hm⟩
      exact ⟨before, m', after, heq, hopens, hnone, hm⟩
  · simp

theorem answered_concat : Answered opens answers (log ++ [m]) k b ↔
    Answered opens answers log k b ∨
      ∃ t, Running opens answers log k t ∧ answers m = some (t, b) := by
  have hsplit : ∀ t, (∃ before m' after, log ++ [m] = before ++ m' :: after ∧
        opens m' = some (k, t) ∧ firstAnswer answers t after = some b) ↔
      (∃ before m' after, log = before ++ m' :: after ∧ opens m' = some (k, t) ∧
        firstAnswer answers t after = some b) ∨
      (Running opens answers log k t ∧ answers m = some (t, b)) := by
    intro t
    rw [exists_split_concat, or_comm]
    simp only [firstAnswer_concat, Option.or_eq_some_iff, answerTo_eq_some, firstAnswer_nil,
      Running]
    constructor
    · rintro (⟨before, m', after, heq, hopens, hb | ⟨hnone, hm⟩⟩ | ⟨-, h⟩)
      · exact Or.inl ⟨before, m', after, heq, hopens, hb⟩
      · exact Or.inr ⟨⟨before, m', after, heq, hopens, hnone⟩, hm⟩
      · cases h
    · rintro (⟨before, m', after, heq, hopens, hb⟩ | ⟨⟨before, m', after, heq, hopens, hnone⟩, hm⟩)
      · exact Or.inl ⟨before, m', after, heq, hopens, Or.inl hb⟩
      · exact Or.inl ⟨before, m', after, heq, hopens, Or.inr ⟨hnone, hm⟩⟩
  simp only [Answered, hsplit, exists_or]

theorem Running.mem_opened (h : Running opens answers log k t) : (k, t) ∈ log.filterMap opens := by
  obtain ⟨before, m, after, rfl, hopens, -⟩ := h
  exact List.mem_filterMap.mpr ⟨m, by simp, hopens⟩

theorem Answered.append (h : Answered opens answers log k b) (new : List α) :
    Answered opens answers (log ++ new) k b := by
  obtain ⟨t, before, m, after, rfl, hopens, hfirst⟩ := h
  refine ⟨t, before, m, after ++ new, by simp, hopens, ?_⟩
  rw [firstAnswer, List.findSome?_append, ← firstAnswer, hfirst]
  rfl

/-- An answer is among what is new, to a call that is open by then. -/
theorem answered_append {new : List α} (h : Answered opens answers (log ++ new) k b) :
    Answered opens answers log k b ∨
      ∃ t, (k, t) ∈ (log ++ new).filterMap opens ∧ ∃ m ∈ new, answers m = some (t, b) := by
  induction new using List.reverseRecOn with
  | nil => exact Or.inl (log.append_nil ▸ h)
  | append_singleton new m ih =>
    rw [← List.append_assoc] at h ⊢
    have hmono : ∀ {t}, (k, t) ∈ (log ++ new).filterMap opens →
        (k, t) ∈ (log ++ new ++ [m]).filterMap opens := fun ht => by
      rw [List.filterMap_append]
      exact List.mem_append_left _ ht
    rcases answered_concat.mp h with h | ⟨t, hrun, hm⟩
    · refine (ih h).imp_right ?_
      rintro ⟨t, ht, m', hm', hanswers⟩
      exact ⟨t, hmono ht, m', List.mem_append_left _ hm', hanswers⟩
    · exact Or.inr ⟨t, hmono hrun.mem_opened, m, by simp, hm⟩

/-- A call that was opened waits for its answer or has it. -/
theorem running_or_answered (h : (k, t) ∈ log.filterMap opens) :
    Running opens answers log k t ∨ ∃ b, Answered opens answers log k b := by
  obtain ⟨m, hm, hopens⟩ := List.mem_filterMap.mp h
  obtain ⟨before, after, hlog⟩ := List.append_of_mem hm
  cases hfirst : firstAnswer answers t after with
  | none => exact Or.inl ⟨before, m, after, hlog, hopens, hfirst⟩
  | some b => exact Or.inr ⟨b, t, before, m, after, hlog, hopens, hfirst⟩

theorem Running.not_answered (hkeys : ((log.filterMap opens).map Prod.fst).Nodup)
    (h : Running opens answers log k t) : ¬ Answered opens answers log k b := by
  rintro ⟨t', before', m', after', h', hopens', hb⟩
  obtain ⟨before, m, after, h, hopens, hnone⟩ := h
  obtain ⟨rfl, rfl⟩ := split_unique hkeys h hopens h' hopens'
  rw [hnone] at hb
  cases hb

end N8n.OpenedCalls
