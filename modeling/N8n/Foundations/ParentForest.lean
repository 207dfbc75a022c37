import Mathlib.Logic.Relation
import Mathlib.Data.Nat.Notation

/-!
# Forests given by parents

Every node has a parent or is a root. A node is rooted when the way up ends at a
root. Nodes that get new parents stay rooted as long as no new parent is below one
of them; a new parent that is below its own child makes a cycle.
-/

namespace N8n.ParentForest

variable {α : Type*} {parent parent' : α → Option α} {a b d : α} {moved : α → Prop}

/-- The way up from the node ends at a root after `n` steps. -/
inductive Depth (parent : α → Option α) : α → ℕ → Prop
  | root {a : α} : parent a = none → Depth parent a 0
  | step {a b : α} {n : ℕ} : parent a = some b → Depth parent b n → Depth parent a (n + 1)

def Rooted (parent : α → Option α) (a : α) : Prop := ∃ n, Depth parent a n

/-- `b` is `a` or comes on the way up from `a`. -/
def Below (parent : α → Option α) (a b : α) : Prop :=
  Relation.ReflTransGen (fun x y => parent x = some y) a b

theorem Rooted.root (h : parent a = none) : Rooted parent a := ⟨0, .root h⟩

theorem Rooted.step (h : parent a = some b) (hb : Rooted parent b) : Rooted parent a := by
  obtain ⟨n, hn⟩ := hb
  exact ⟨n + 1, .step h hn⟩

theorem Depth.of_parent {n : ℕ} (h : Depth parent a n) (hb : parent a = some b) :
    ∃ m, n = m + 1 ∧ Depth parent b m := by
  cases h with
  | root hnone =>
    rw [hnone] at hb
    cases hb
  | step hsome hrest =>
    obtain rfl := Option.some.inj (hsome.symm.trans hb)
    exact ⟨_, rfl, hrest⟩

theorem Rooted.of_parent (h : Rooted parent a) (hb : parent a = some b) : Rooted parent b := by
  obtain ⟨n, hn⟩ := h
  obtain ⟨m, _, hm⟩ := hn.of_parent hb
  exact ⟨m, hm⟩

theorem Depth.unique {m n : ℕ} (hm : Depth parent a m) (hn : Depth parent a n) : m = n := by
  induction hm generalizing n with
  | root hnone =>
    cases hn with
    | root => rfl
    | step hsome =>
      rw [hnone] at hsome
      cases hsome
  | step hsome _ ih =>
    obtain ⟨k, rfl, hk⟩ := hn.of_parent hsome
    rw [ih hk]

/-- A node whose parent is below it is not rooted. -/
theorem not_rooted_of_cycle (hb : parent a = some b) (hba : Below parent b a) :
    ¬ Rooted parent a := by
  rintro ⟨n, hn⟩
  induction hn generalizing b with
  | root hnone =>
    rw [hnone] at hb
    cases hb
  | @step a c n hc _ ih =>
    obtain rfl := Option.some.inj (hc.symm.trans hb)
    -- one step further up the cycle starts at the parent
    rcases Relation.ReflTransGen.cases_head hba with rfl | ⟨e, hce, hea⟩
    · exact ih hb .refl
    · exact ih hce (hea.tail hb)

theorem rooted_congr (hsame : ∀ x, Below parent a x → parent' x = parent x)
    (h : Rooted parent a) : Rooted parent' a := by
  obtain ⟨n, hn⟩ := h
  induction hn with
  | root hnone => exact .root ((hsame _ .refl).trans hnone)
  | step hsome _ ih =>
    refine .step ((hsame _ .refl).trans hsome) (ih fun x hx => hsame x ?_)
    exact Relation.ReflTransGen.head hsome hx

/-- Nodes that become roots or get a parent that is not below one of them stay rooted. -/
theorem rooted_of_moved (hstay : ∀ x, ¬ moved x → parent' x = parent x)
    (hmove : ∀ x, moved x → parent' x = none ∨
      ∃ d, parent' x = some d ∧ Rooted parent d ∧ ∀ m, moved m → ¬ Below parent d m)
    (h : Rooted parent a) : Rooted parent' a := by
  obtain ⟨n, hn⟩ := h
  have hmoved : ∀ x, moved x → Rooted parent' x := by
    intro x hx
    rcases hmove x hx with hnone | ⟨d, hd, hrooted, hfree⟩
    · exact .root hnone
    · exact .step hd (rooted_congr (fun y hy => hstay y fun hm => hfree y hm hy) hrooted)
  induction hn with
  | @root a hnone =>
    by_cases ha : moved a
    · exact hmoved a ha
    · exact .root ((hstay a ha).trans hnone)
  | @step a b n hsome _ ih =>
    by_cases ha : moved a
    · exact hmoved a ha
    · exact .step ((hstay a ha).trans hsome) ih

/-- When the new parent of moved nodes is below one of them, the first such node on the way
up is not rooted. -/
theorem exists_not_rooted (hstay : ∀ x, ¬ moved x → parent' x = parent x)
    (hmove : ∀ x, moved x → parent' x = some d) {m : α} (hm : moved m) (hdm : Below parent d m) :
    ∃ m, moved m ∧ Below parent d m ∧ ¬ Rooted parent' m := by
  have hfirst : ∀ c, Below parent c m →
      ∃ m, moved m ∧ Below parent c m ∧ Below parent' c m := by
    intro c hc
    induction hc using Relation.ReflTransGen.head_induction_on with
    | refl => exact ⟨m, hm, .refl, .refl⟩
    | @head c e hce _ ih =>
      by_cases hc : moved c
      · exact ⟨c, hc, .refl, .refl⟩
      · obtain ⟨m, hm, hem, hem'⟩ := ih
        exact ⟨m, hm, Relation.ReflTransGen.head hce hem,
          Relation.ReflTransGen.head ((hstay c hc).trans hce) hem'⟩
  obtain ⟨m, hm, hdm, hdm'⟩ := hfirst d hdm
  exact ⟨m, hm, hdm, not_rooted_of_cycle (hmove m hm) hdm'⟩

end N8n.ParentForest
