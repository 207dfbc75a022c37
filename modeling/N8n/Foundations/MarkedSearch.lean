import N8n.Foundations.FoldM
import N8n.Foundations.OrderedSet
import Mathlib.Data.Finset.Card
import Mathlib.Data.Finset.Dedup
import Mathlib.Logic.Relation

/-!
# Searching with marks

A recursion that marks what it meets, skips what is marked already and goes on from the target
of what it marks. From no marks at all it marks what can be reached.
-/

namespace N8n.MarkedSearch

universe u v w

variable {α : Type w} {β : Type u} {ε : Type v}

section Collect
variable [DecidableEq β] (start : α → Except ε (List β)) (target : β → α) (outOfFuel : ε)

def collect : ℕ → α → OrderedSet β → Except ε (OrderedSet β)
  | 0, _, _ => .error outOfFuel
  | fuel + 1, a, marked => do
    let found ← start a
    found.foldlM
      (fun marked b =>
        if b ∈ marked then pure marked else collect fuel (target b) (marked.insert b))
      marked

end Collect

section Reached
variable (next : α → List β) (target : β → α)

def Leads (b c : β) : Prop := c ∈ next (target b)

/-- What the elements of the list lead to. -/
def Reached (l : List β) (b : β) : Prop :=
  ∃ first ∈ l, Relation.ReflTransGen (Leads next target) first b

/-- All of the list is marked, and of what is new also all that it leads to, and nothing else. -/
structure Collected (l : List β) (marked marked' : OrderedSet β) : Prop where
  keeps : ∀ b ∈ marked, b ∈ marked'
  direct : ∀ b ∈ l, b ∈ marked'
  closed : ∀ b ∈ marked', b ∈ marked ∨ ∀ c ∈ next (target b), c ∈ marked'
  found : ∀ b ∈ marked', b ∈ marked ∨ Reached next target l b

variable {next target} {l : List β} {b : β} {marked marked' marked'' : OrderedSet β}

theorem Collected.nil : Collected next target [] marked marked :=
  ⟨fun _ h => h, fun _ h => absurd h List.not_mem_nil, fun _ => Or.inl, fun _ => Or.inl⟩

theorem Collected.skip (hb : b ∈ marked) (h : Collected next target l marked marked') :
    Collected next target (b :: l) marked marked' where
  keeps := h.keeps
  direct := List.forall_mem_cons.mpr ⟨h.keeps b hb, h.direct⟩
  closed := h.closed
  found := fun c hc => (h.found c hc).imp_right fun ⟨first, hfirst, hpath⟩ =>
    ⟨first, List.mem_cons_of_mem b hfirst, hpath⟩

theorem Collected.mark [DecidableEq β]
    (hbelow : Collected next target (next (target b)) (marked.insert b) marked')
    (h : Collected next target l marked' marked'') :
    Collected next target (b :: l) marked marked'' := by
  have hb : b ∈ marked' := hbelow.keeps b (OrderedSet.mem_insert.mpr (Or.inr rfl))
  refine ⟨fun c hc => ?_, List.forall_mem_cons.mpr ⟨h.keeps b hb, h.direct⟩, fun c hc => ?_,
    fun c hc => ?_⟩
  · exact h.keeps c (hbelow.keeps c (OrderedSet.mem_insert.mpr (Or.inl hc)))
  · rcases h.closed c hc with hc | hc
    · rcases hbelow.closed c hc with hc | hc
      · rcases OrderedSet.mem_insert.mp hc with hc | rfl
        · exact Or.inl hc
        · exact Or.inr fun d hd => h.keeps d (hbelow.direct d hd)
      · exact Or.inr fun d hd => h.keeps d (hc d hd)
    · exact Or.inr hc
  · rcases h.found c hc with hc | ⟨first, hfirst, hpath⟩
    · rcases hbelow.found c hc with hc | ⟨first, hfirst, hpath⟩
      · rcases OrderedSet.mem_insert.mp hc with hc | rfl
        · exact Or.inl hc
        · exact Or.inr ⟨c, List.mem_cons_self, .refl⟩
      · exact Or.inr ⟨b, List.mem_cons_self, .head hfirst hpath⟩
    · exact Or.inr ⟨first, List.mem_cons_of_mem b hfirst, hpath⟩

theorem Collected.mem_iff [DecidableEq β] (h : Collected next target l .empty marked) :
    b ∈ marked ↔ Reached next target l b := by
  constructor
  · exact fun hb => (h.found b hb).resolve_left (OrderedSet.not_mem_empty b)
  · rintro ⟨first, hfirst, hpath⟩
    induction hpath with
    | refl => exact h.direct first hfirst
    | @tail c d _ hstep ih => exact (h.closed c ih).resolve_left (OrderedSet.not_mem_empty c) d hstep

end Reached

section Spec
variable [DecidableEq β] {start : α → Except ε (List β)} {next : α → List β} {target : β → α}
  {outOfFuel : ε}

def unmarked (all : Finset β) (marked : OrderedSet β) : Finset β :=
  all.filter fun b => b ∉ marked

theorem unmarked_insert_lt {all : Finset β} {marked : OrderedSet β} {b : β} (hb : b ∈ all)
    (hnew : b ∉ marked) : (unmarked all (marked.insert b)).card < (unmarked all marked).card := by
  apply Finset.card_lt_card
  rw [Finset.ssubset_iff_of_subset]
  · exact ⟨b, by simp [unmarked, hb, hnew], by simp [unmarked]⟩
  · intro c hc
    simp only [unmarked, Finset.mem_filter, OrderedSet.mem_insert, not_or] at hc ⊢
    exact ⟨hc.1, hc.2.1⟩

theorem unmarked_le {all : Finset β} {marked marked' : OrderedSet β}
    (h : ∀ b ∈ marked, b ∈ marked') :
    (unmarked all marked').card ≤ (unmarked all marked).card := by
  apply Finset.card_le_card
  intro b hb
  simp only [unmarked, Finset.mem_filter] at hb ⊢
  exact ⟨hb.1, fun hmarked => hb.2 (h b hmarked)⟩

variable {nodes : α → Prop} {all : Finset β} (hstart : ∀ a, nodes a → start a = .ok (next a))
  (hall : ∀ a, nodes a → ∀ b ∈ next a, b ∈ all ∧ nodes (target b))
include hstart hall

theorem collect_spec {fuel : ℕ} {a : α} {marked : OrderedSet β} (ha : nodes a)
    (hfuel : (unmarked all marked).card < fuel) :
    ∃ marked', collect start target outOfFuel fuel a marked = .ok marked' ∧
      Collected next target (next a) marked marked' := by
  induction fuel generalizing a marked with
  | zero => omega
  | succ fuel ih =>
    rw [collect, hstart a ha, FoldM.ok_bind]
    have hl := hall a ha
    generalize next a = l at hl
    induction l generalizing marked with
    | nil => exact ⟨marked, rfl, .nil⟩
    | cons b l ihl =>
      obtain ⟨⟨hb, hnode⟩, hl⟩ := List.forall_mem_cons.mp hl
      rw [List.foldlM_cons]
      split_ifs with hmarked
      · obtain ⟨marked', hok, h⟩ := ihl hfuel hl
        exact ⟨marked', hok, h.skip hmarked⟩
      · have hlt := unmarked_insert_lt hb hmarked
        obtain ⟨marked', hok, hbelow⟩ := @ih (target b) (marked.insert b) hnode (by omega)
        have hle : (unmarked all marked').card ≤ (unmarked all marked).card := unmarked_le
          fun c hc => hbelow.keeps c (OrderedSet.mem_insert.mpr (Or.inl hc))
        obtain ⟨marked'', hok', h⟩ := @ihl marked' (by omega) hl
        exact ⟨marked'', by rw [hok]; exact hok', .mark hbelow h⟩

variable (start outOfFuel) in
theorem collect_empty {fuel : ℕ} {a : α} (ha : nodes a) (hfuel : all.card < fuel) :
    ∃ marked, collect start target outOfFuel fuel a .empty = .ok marked ∧
      ∀ b, b ∈ marked ↔ Reached next target (next a) b := by
  obtain ⟨marked, hok, h⟩ : ∃ marked, collect start target outOfFuel fuel a .empty = .ok marked ∧
      Collected next target (next a) .empty marked :=
    collect_spec hstart hall ha (Nat.lt_of_le_of_lt (Finset.card_filter_le _ _) hfuel)
  exact ⟨marked, hok, fun b => h.mem_iff⟩

end Spec
end N8n.MarkedSearch
