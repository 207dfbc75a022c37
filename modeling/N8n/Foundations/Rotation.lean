import N8n.Foundations.Runs
import Mathlib.Data.List.Chain

/-!
# A queue that rotates

The first item goes to the end of the queue if it is of the kind that does and its
key is not the one of the item before. Such a queue rotates for ever exactly when all
of its items are of the kind and no key is that of the item before, all around.
-/

namespace N8n.Rotation

open Runs

variable {α κ : Type*}

structure Queue (α κ : Type*) where
  items : List α
  last : κ

inductive Rotates (ok : α → Prop) (key : α → κ) (update : α → α) : Queue α κ → Queue α κ → Prop
  | mk {a : α} {rest : List α} {last : κ} : ok a → key a ≠ last →
      Rotates ok key update ⟨a :: rest, last⟩ ⟨rest ++ [update a], key a⟩

/-- The keys all around, up to the first one again. -/
def around (key : α → κ) (q : Queue α κ) : List κ :=
  q.last :: (q.items.map key ++ (q.items.head?.map key).toList)

structure Turning (ok : α → Prop) (key : α → κ) (q : Queue α κ) : Prop where
  nonempty : q.items ≠ []
  ok : ∀ a ∈ q.items, ok a
  differ : List.IsChain (· ≠ ·) (around key q)

variable {ok : α → Prop} {key : α → κ} {update : α → α} {q q' : Queue α κ}

theorem Turning.rotates (hok : ∀ a, ok a → ok (update a)) (hkey : ∀ a, key (update a) = key a)
    (h : Turning ok key q) : ∃ q', Rotates ok key update q q' ∧ Turning ok key q' := by
  obtain ⟨_ | ⟨a, rest⟩, last⟩ := q
  · exact absurd rfl h.nonempty
  · have hdiffer := h.differ
    simp only [around, List.map_cons, List.head?_cons, Option.map_some, Option.toList_some,
      List.cons_append, List.isChain_cons_cons] at hdiffer
    have ha := h.ok a List.mem_cons_self
    refine ⟨_, .mk ha hdiffer.1.symm, by simp, ?_, ?_⟩
    · intro b hb
      rcases List.mem_append.mp hb with hb | hb
      · exact h.ok b (List.mem_cons_of_mem a hb)
      · exact List.mem_singleton.mp hb ▸ hok a ha
    · cases rest with
      | nil => simp at hdiffer
      | cons b rest =>
        have hab : key a ≠ key b := (List.isChain_cons_cons.mp hdiffer.2).1
        have hkeys : around key ⟨b :: rest ++ [update a], key a⟩ =
            (key a :: (List.map key (b :: rest) ++ [key a])) ++ [key b] := by
          simp [around, hkey]
        rw [hkeys, List.isChain_append]
        refine ⟨hdiffer.2, List.isChain_singleton _, ?_⟩
        intro x hx y hy
        simp only [List.head?_cons, Option.mem_def, Option.some.injEq] at hy
        rw [List.getLast?_cons, List.getLast?_concat] at hx
        simp only [Option.getD_some, Option.mem_def, Option.some.injEq] at hx
        rwa [← hx, ← hy]

/-- After one turn of the items that are still in front. -/
theorem Endless.turn {front back : List α} {last : κ}
    (h : Endless (Rotates ok key update) ⟨front ++ back, last⟩) :
    (∀ a ∈ front, ok a) ∧ List.IsChain (· ≠ ·) (last :: front.map key) ∧
      Endless (Rotates ok key update)
        ⟨back ++ front.map update, (front.map key).getLastD last⟩ := by
  induction front generalizing back last with
  | nil =>
    simpa using h
  | cons a front ih =>
    obtain ⟨q', hstep, hq'⟩ := h.step
    cases hstep with
    | mk ha hne =>
      have hturned : Endless (Rotates ok key update) ⟨front ++ (back ++ [update a]), key a⟩ := by
        rw [← List.append_assoc]
        exact hq'
      obtain ⟨hfront, hdiffer, hend⟩ := ih hturned
      refine ⟨List.forall_mem_cons.mpr ⟨ha, hfront⟩, ?_, ?_⟩
      · exact List.isChain_cons_cons.mpr ⟨hne.symm, hdiffer⟩
      · rw [List.append_assoc] at hend
        rwa [List.map_cons, List.map_cons, List.getLastD_cons]

theorem endless_iff (hok : ∀ a, ok a → ok (update a)) (hkey : ∀ a, key (update a) = key a) :
    Endless (Rotates ok key update) q ↔ Turning ok key q := by
  constructor
  · intro h
    obtain ⟨items, last⟩ := q
    have hfront : Endless (Rotates ok key update) ⟨items ++ [], last⟩ := by
      rwa [List.append_nil]
    obtain ⟨hall, hdiffer, hend⟩ := Endless.turn hfront
    obtain ⟨q', hstep, _⟩ := h.step
    obtain ⟨q'', hnext, _⟩ := hend.step
    cases hstep with
    | @mk a rest _ ha hne =>
      refine ⟨List.cons_ne_nil a rest, hall, ?_⟩
      cases hnext with
      | mk _ hne' =>
        rw [hkey] at hne'
        have hkeys : around key ⟨a :: rest, last⟩ = (last :: (a :: rest).map key) ++ [key a] := rfl
        rw [hkeys, List.isChain_append]
        refine ⟨hdiffer, List.isChain_singleton _, ?_⟩
        intro x hx y hy
        simp only [List.head?_cons, Option.mem_def, Option.some.injEq] at hy
        rw [List.getLast?_cons, Option.mem_def, Option.some.injEq,
          ← List.getLastD_eq_getLast?] at hx
        rw [← hx, ← hy]
        exact hne'.symm
  · intro h
    exact endless_of_step h fun q hq => hq.rotates hok hkey

end N8n.Rotation
