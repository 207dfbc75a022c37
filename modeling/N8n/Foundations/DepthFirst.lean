import Mathlib.Data.List.Nodup
import Mathlib.Logic.Relation
import N8n.Foundations.SplitLists

/-!
# Depth-first search

A search enters a node, leaves the edges to its children one after the other, each
once the child was visited, and then leaves the node. The nodes that are entered and
not left form the path of the search. A state of any kind goes along with the search
and is changed by its events.

A path descends when it leaves its edges in the opposite order to the search: each
edge was left before the edge that leads to it.
-/

namespace N8n.DepthFirst

open Relation

variable {α σ : Type*}

def Reaches (children : α → List α) (a b : α) : Prop :=
  ReflTransGen (fun a b => b ∈ children a) a b

/-- Each of the two reaches the other. -/
def Joined (children : α → List α) (a b : α) : Prop :=
  Reaches children a b ∧ Reaches children b a

inductive Event (α : Type*) where
  | enter (v : α)
  | edge (v c : α)
  | leave (v : α)

structure Point (α σ : Type*) where
  path : List α
  visited : List α
  edges : List (α × α)
  state : σ

inductive Step (children : α → List α) (act : Event α → σ → σ) : Point α σ → Point α σ → Prop
  | enter {p : Point α σ} {v : α} : v ∉ p.visited → (∀ u ∈ p.path.head?, v ∈ children u) →
      Step children act p
        ⟨v :: p.path, p.visited ++ [v], p.edges, act (.enter v) p.state⟩
  | edge {p : Point α σ} {v c : α} {rest : List α} : p.path = v :: rest → c ∈ children v →
      c ∈ p.visited →
      Step children act p ⟨p.path, p.visited, p.edges ++ [(v, c)], act (.edge v c) p.state⟩
  | leave {p : Point α σ} {v : α} {rest : List α} : p.path = v :: rest →
      (∀ c ∈ children v, c ∈ p.visited) →
      Step children act p ⟨rest, p.visited, p.edges, act (.leave v) p.state⟩

inductive Descends : List (α × α) → α → α → Prop
  | refl (edges : List (α × α)) (v : α) : Descends edges v v
  | step {earlier later : List (α × α)} {v c r : α} : Descends earlier c r →
      Descends (earlier ++ (v, c) :: later) v r

section Reaches
variable {children : α → List α} {a b c : α}

theorem Joined.refl (a : α) : Joined children a a := ⟨.refl, .refl⟩

theorem Joined.symm (h : Joined children a b) : Joined children b a := ⟨h.2, h.1⟩

theorem Joined.trans (h : Joined children a b) (h' : Joined children b c) :
    Joined children a c :=
  ⟨h.1.trans h'.1, h'.2.trans h.2⟩

end Reaches

section Descends
variable {edges : List (α × α)} {v r a b : α}

theorem Descends.append (h : Descends edges v r) (later : List (α × α)) :
    Descends (edges ++ later) v r := by
  cases h with
  | refl => exact .refl _ _
  | step h =>
    rw [List.append_assoc, List.cons_append]
    exact .step h

theorem descends_concat :
    Descends (edges ++ [(a, b)]) v r ↔ Descends edges v r ∨ (v = a ∧ Descends edges b r) := by
  constructor
  · intro h
    generalize hl : edges ++ [(a, b)] = l at h
    cases h with
    | refl => exact Or.inl (.refl _ _)
    | @step earlier later _ c _ h =>
      rcases SplitLists.concat_eq_iff.mp hl with ⟨rfl, he, rfl⟩ | ⟨later, rfl, rfl⟩
      · obtain ⟨rfl, rfl⟩ := Prod.mk.inj he
        exact Or.inr ⟨rfl, h⟩
      · exact Or.inl (.step h)
  · rintro (h | ⟨rfl, h⟩)
    · exact h.append _
    · exact .step h

theorem Descends.reaches {children : α → List α} (hedges : ∀ e ∈ edges, e.2 ∈ children e.1)
    (h : Descends edges v r) : Reaches children v r := by
  induction h with
  | refl => exact .refl
  | @step earlier later v c r _ ih =>
    have hc := hedges (v, c) (by simp)
    exact .head hc (ih fun e he => hedges e (List.mem_append_left _ he))

/-- The first edge of a path that is not trivial starts at its node. -/
theorem Descends.eq_or_source (h : Descends edges v r) : v = r ∨ ∃ c, (v, c) ∈ edges := by
  cases h with
  | refl => exact Or.inl rfl
  | @step earlier later _ c _ _ => exact Or.inr ⟨c, by simp⟩

end Descends

variable [DecidableEq α]

/-- The place of a node in the order of the visits. -/
def Point.idx (p : Point α σ) (v : α) : ℕ := p.visited.idxOf v

structure Sound (children : α → List α) (p : Point α σ) : Prop where
  nodup : p.visited.Nodup
  path_visited : ∀ v ∈ p.path, v ∈ p.visited
  edges_visited : ∀ e ∈ p.edges, e.1 ∈ p.visited
  edges_children : ∀ e ∈ p.edges, e.2 ∈ children e.1
  /-- The children of a node that was left are visited. -/
  closed : ∀ v ∈ p.visited, v ∉ p.path → ∀ c ∈ children v, c ∈ p.visited
  ordered : p.path.Pairwise fun a b => p.idx b < p.idx a ∧ Reaches children b a
  below : ∀ g ∈ p.path, ∀ v ∈ p.visited, p.idx g ≤ p.idx v → Reaches children g v
  /-- A node on the path that is not the first of its component lies below another one. -/
  joins : ∀ above v rest, p.path = above ++ v :: rest →
    ∀ y ∈ p.visited, Joined children y v → p.idx y < p.idx v → ∃ g ∈ rest, Joined children g v

section Index
variable {p : Point α σ} {v x y : α}

theorem idxOf_append_of_visited {l : List α} (h : x ∈ l) (l' : List α) :
    (l ++ l').idxOf x = l.idxOf x :=
  List.idxOf_append_of_mem h

theorem idxOf_new {l : List α} (h : v ∉ l) : (l ++ [v]).idxOf v = l.length := by
  rw [List.idxOf_append_of_notMem h]
  simp

theorem idx_lt (h : x ∈ p.visited) : p.idx x < p.visited.length := List.idxOf_lt_length_of_mem h

theorem idx_inj (hx : x ∈ p.visited) (h : p.idx x = p.idx y) : x = y :=
  (List.idxOf_inj hx).mp h

end Index

section Sound
variable {children : α → List α} {act : Event α → σ → σ} {p p' : Point α σ} {v x : α}

/-- A path that leaves the visited nodes passes the path of the search. -/
theorem Sound.meets_path (hs : Sound children p) (hx : x ∈ p.visited) (hv : v ∉ p.visited)
    (h : Reaches children x v) : ∃ g ∈ p.path, Reaches children x g ∧ Reaches children g v := by
  induction h using ReflTransGen.head_induction_on with
  | refl => exact absurd hx hv
  | @head a c hac hcv ih =>
    by_cases ha : a ∈ p.path
    · exact ⟨a, ha, .refl, .head hac hcv⟩
    · obtain ⟨g, hg, hcg, hgv⟩ := ih (hs.closed a hx ha c hac)
      exact ⟨g, hg, .head hac hcg, hgv⟩

theorem Sound.joined_on_path (hs : Sound children p) (hx : x ∈ p.visited) (hv : v ∉ p.visited)
    (h : Joined children x v) : ∃ g ∈ p.path, Joined children g x := by
  obtain ⟨g, hg, hxg, hgv⟩ := hs.meets_path hx hv h.1
  exact ⟨g, hg, hgv.trans h.2, hxg⟩

/-- When the first node of a component is left, the component is visited. -/
theorem Sound.component_visited (hs : Sound children p) {rest : List α} (hpath : p.path = v :: rest)
    (hchildren : ∀ c ∈ children v, c ∈ p.visited) (hroot : ¬ ∃ g ∈ rest, Joined children g v)
    (h : Joined children v x) : x ∈ p.visited := by
  obtain ⟨hvx, hxv⟩ := h
  induction hvx with
  | refl => exact hs.path_visited _ (hpath ▸ List.mem_cons_self)
  | @tail b c hvb hbc ih =>
    have hb := ih (.head hbc hxv)
    by_cases hbp : b ∈ p.path
    · rcases List.mem_cons.mp (hpath ▸ hbp) with rfl | hbr
      · exact hchildren c hbc
      · exact absurd ⟨b, hbr, .head hbc hxv, hvb⟩ hroot
    · exact hs.closed b hb hbp c hbc

theorem Sound.head_reaches (hs : Sound children p) {u : α} {rest : List α}
    (hpath : p.path = u :: rest) : ∀ g ∈ p.path, Reaches children g u := by
  have hordered := hs.ordered
  rw [hpath] at hordered ⊢
  intro g hg
  rcases List.mem_cons.mp hg with rfl | hg
  · exact .refl
  · exact ((List.pairwise_cons.mp hordered).1 g hg).2

/-- The nodes on the path reach the node that is entered. -/
theorem Sound.reaches_entered (hs : Sound children p)
    (hchild : ∀ u ∈ p.path.head?, v ∈ children u) : ∀ g ∈ p.path, Reaches children g v := by
  cases hpath : p.path with
  | nil => simp
  | cons u rest =>
    intro g hg
    exact (hs.head_reaches hpath g (hpath ▸ hg)).tail (hchild u (by simp [hpath]))

theorem Sound.enter (hs : Sound children p) (hv : v ∉ p.visited)
    (hchild : ∀ u ∈ p.path.head?, v ∈ children u) (state : σ) :
    Sound children ⟨v :: p.path, p.visited ++ [v], p.edges, state⟩ := by
  have hidx : ∀ {x}, x ∈ p.visited → (p.visited ++ [v]).idxOf x = p.visited.idxOf x :=
    fun h => idxOf_append_of_visited h [v]
  have hnew := idxOf_new hv
  have hlt : ∀ {x}, x ∈ p.visited → p.visited.idxOf x < p.visited.length :=
    fun h => List.idxOf_lt_length_of_mem h
  have hreach := hs.reaches_entered hchild
  constructor
  case nodup =>
    exact List.nodup_append.mpr ⟨hs.nodup, List.nodup_singleton v,
      fun a ha b hb hab => hv (by rw [← List.mem_singleton.mp hb, ← hab]; exact ha)⟩
  case path_visited =>
    intro x hx
    rcases List.mem_cons.mp hx with rfl | hx
    · exact List.mem_append_right _ (List.mem_singleton_self _)
    · exact List.mem_append_left _ (hs.path_visited x hx)
  case edges_visited => exact fun e he => List.mem_append_left _ (hs.edges_visited e he)
  case edges_children => exact hs.edges_children
  case closed =>
    intro x hx hxp c hc
    rw [List.mem_cons, not_or] at hxp
    rcases List.mem_append.mp hx with hx | hx
    · exact List.mem_append_left _ (hs.closed x hx hxp.2 c hc)
    · exact absurd (List.mem_singleton.mp hx) hxp.1
  case ordered =>
    refine List.pairwise_cons.mpr ⟨fun g hg => ?_, ?_⟩
    · have hgv := hs.path_visited g hg
      refine ⟨?_, hreach g hg⟩
      rw [Point.idx, Point.idx, hidx hgv, hnew]
      exact hlt hgv
    · refine hs.ordered.imp_of_mem fun {a b} ha hb h => ⟨?_, h.2⟩
      rw [Point.idx, Point.idx, hidx (hs.path_visited a ha), hidx (hs.path_visited b hb)]
      exact h.1
  case below =>
    intro g hg x hx hle
    rw [Point.idx, Point.idx] at hle
    rcases List.mem_cons.mp hg with rfl | hg <;> rcases List.mem_append.mp hx with hx | hx
    · rw [hnew, hidx hx] at hle
      exact absurd (hlt hx) (Nat.not_lt.mpr hle)
    · rw [List.mem_singleton.mp hx]
      exact .refl
    · rw [hidx (hs.path_visited g hg), hidx hx] at hle
      exact hs.below g hg x hx hle
    · rw [List.mem_singleton.mp hx]
      exact hreach g hg
  case joins =>
    intro above u rest hpath y hy hyu hlt'
    rw [Point.idx, Point.idx] at hlt'
    cases above with
    | nil =>
      obtain ⟨rfl, rfl⟩ := List.cons.inj hpath
      have hyv : y ∈ p.visited := by
        rcases List.mem_append.mp hy with hy | hy
        · exact hy
        · rw [List.mem_singleton.mp hy] at hlt'
          exact absurd hlt' (Nat.lt_irrefl _)
      obtain ⟨g, hg, hgy⟩ := hs.joined_on_path hyv hv hyu
      exact ⟨g, hg, hgy.trans hyu⟩
    | cons a above =>
      obtain ⟨_, hpath⟩ := List.cons.inj hpath
      have huv : u ∈ p.visited := hs.path_visited u (by rw [hpath]; simp)
      rcases List.mem_append.mp hy with hy | hy
      · rw [hidx hy, hidx huv] at hlt'
        exact hs.joins above u rest hpath y hy hyu hlt'
      · rw [List.mem_singleton.mp hy, hnew, hidx huv] at hlt'
        exact absurd (hlt huv) (Nat.not_lt.mpr (Nat.le_of_lt hlt'))

theorem Sound.leave (hs : Sound children p) {rest : List α} (hpath : p.path = v :: rest)
    (hchildren : ∀ c ∈ children v, c ∈ p.visited) (state : σ) :
    Sound children ⟨rest, p.visited, p.edges, state⟩ := by
  have hmem : ∀ {x}, x ∈ rest → x ∈ p.path := fun h => hpath ▸ List.mem_cons_of_mem v h
  constructor
  case nodup => exact hs.nodup
  case path_visited => exact fun x hx => hs.path_visited x (hmem hx)
  case edges_visited => exact hs.edges_visited
  case edges_children => exact hs.edges_children
  case closed =>
    intro x hx hxr c hc
    by_cases hxv : x = v
    · exact hchildren c (hxv ▸ hc)
    · refine hs.closed x hx (fun hxp => ?_) c hc
      rcases List.mem_cons.mp (hpath ▸ hxp) with h | h
      · exact hxv h
      · exact hxr h
  case ordered => exact (List.pairwise_cons.mp (hpath ▸ hs.ordered)).2
  case below => exact fun g hg => hs.below g (hmem hg)
  case joins =>
    intro above u rest' hrest
    exact hs.joins (v :: above) u rest' (hpath.trans (congrArg (v :: ·) hrest))

theorem Sound.step (hs : Sound children p) (h : Step children act p p') : Sound children p' := by
  cases h with
  | enter hv hchild => exact hs.enter hv hchild _
  | @edge u c rest hpath hc hcv =>
    refine ⟨hs.nodup, hs.path_visited, fun e he => ?_, fun e he => ?_, hs.closed, hs.ordered,
      hs.below, hs.joins⟩
    · rcases List.mem_append.mp he with he | he
      · exact hs.edges_visited e he
      · rw [List.mem_singleton.mp he]
        exact hs.path_visited u (hpath ▸ List.mem_cons_self)
    · rcases List.mem_append.mp he with he | he
      · exact hs.edges_children e he
      · rw [List.mem_singleton.mp he]
        exact hc
  | leave hpath hchildren => exact hs.leave hpath hchildren _

end Sound

end N8n.DepthFirst
