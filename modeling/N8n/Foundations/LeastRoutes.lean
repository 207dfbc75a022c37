import Mathlib.Data.List.Lex
import Mathlib.Data.List.Basic
import Mathlib.Data.List.Induction
import Mathlib.Data.Set.Insert

/-!
# Depth-first walks and least routes

A walk looks at what its nodes meet, in the order of the meetings, goes on to what it has not
seen and records the meetings with what it has. Routes do not return to a node, and are compared
by the positions of their meetings. A walk comes to each node along the least route to it.
-/

namespace N8n.LeastRoutes

variable {α σ : Type*}

structure Walk (α σ : Type*) where
  seen : List α
  again : List σ

inductive Walks (meets : α → List (σ × α)) : List (σ × α) → Walk α σ → Walk α σ → Prop
  | done (w : Walk α σ) : Walks meets [] w w
  | again {s : σ} {x : α} {l : List (σ × α)} {w w' : Walk α σ} : x ∈ w.seen →
      Walks meets l ⟨w.seen, s :: w.again⟩ w' → Walks meets ((s, x) :: l) w w'
  | go {s : σ} {x : α} {l : List (σ × α)} {w w₁ w' : Walk α σ} : x ∉ w.seen →
      Walks meets (meets x) ⟨x :: w.seen, w.again⟩ w₁ → Walks meets l w₁ w' →
      Walks meets ((s, x) :: l) w w'

/-- A route keeps clear of what is avoided and of its own nodes. -/
inductive Route (meets : α → List (σ × α)) : Set α → α → List ℕ → α → Prop
  | here {avoid : Set α} {a : α} : a ∉ avoid → Route meets avoid a [] a
  | step {avoid : Set α} {a b c : α} {s : σ} {i : ℕ} {p : List ℕ} : a ∉ avoid →
      (meets a)[i]? = some (s, b) → Route meets (insert a avoid) b p c →
      Route meets avoid a (i :: p) c

section Routes
variable (meets : α → List (σ × α)) (avoid : Set α)

def LeastRoute (a : α) (p : List ℕ) (b : α) : Prop :=
  Route meets avoid a p b ∧ ∀ q, Route meets avoid a q b → p ≤ q

/-- The meeting does not go on from the least route to its node to the least route to what it
meets. -/
def Repeated (a : α) (t : σ) : Prop :=
  ∃ p b i x, LeastRoute meets avoid a p b ∧ (meets b)[i]? = some (t, x) ∧
    ¬ LeastRoute meets avoid a (p ++ [i]) x

/-- A route whose first meeting is one of the list. -/
def RouteFrom (l : List (σ × α)) (p : List ℕ) (c : α) : Prop :=
  ∃ i q s b, p = i :: q ∧ l[i]? = some (s, b) ∧ Route meets avoid b q c

def LeastFrom (l : List (σ × α)) (p : List ℕ) (c : α) : Prop :=
  RouteFrom meets avoid l p c ∧ ∀ q, RouteFrom meets avoid l q c → p ≤ q

def RepeatedFrom (l : List (σ × α)) (t : σ) : Prop :=
  (∃ i x, l[i]? = some (t, x) ∧ ¬ LeastFrom meets avoid l [i] x) ∨
    ∃ p b i x, LeastFrom meets avoid l p b ∧ (meets b)[i]? = some (t, x) ∧
      ¬ LeastFrom meets avoid l (p ++ [i]) x

end Routes

section Routes
variable {meets : α → List (σ × α)} {avoid avoid' : Set α} {a b c x y : α} {s t : σ} {i : ℕ}
  {p q : List ℕ} {l : List (σ × α)}

theorem Route.start_notMem (h : Route meets avoid a p b) : a ∉ avoid := by
  cases h with
  | here ha => exact ha
  | step ha => exact ha

theorem Route.end_notMem (h : Route meets avoid a p b) : b ∉ avoid := by
  induction h with
  | here ha => exact ha
  | step _ _ _ ih => exact fun hc => ih (Set.mem_insert_of_mem _ hc)

theorem Route.anti (hle : avoid' ⊆ avoid) (h : Route meets avoid a p b) :
    Route meets avoid' a p b := by
  induction h generalizing avoid' with
  | here ha => exact .here fun h => ha (hle h)
  | step ha hb _ ih => exact .step (fun h => ha (hle h)) hb (ih (Set.insert_subset_insert hle))

theorem Route.unique (h : Route meets avoid a p b) (h' : Route meets avoid a p c) : b = c := by
  induction h with
  | here _ =>
    cases h' with
    | here _ => rfl
  | step _ hb _ ih =>
    cases h' with
    | step _ hb' h' =>
      obtain ⟨-, rfl⟩ := Prod.mk.inj (Option.some.inj (hb.symm.trans hb'))
      exact ih h'

/-- Where a route leads to, others lead on. -/
theorem Route.exists_tail (h : Route meets avoid a p b) (hc : (s, c) ∈ meets b)
    (havoid : c ∉ avoid) : ∃ q, Route meets avoid a q c := by
  induction h with
  | @here avoid a ha =>
    by_cases hca : c = a
    · exact ⟨[], hca ▸ .here havoid⟩
    · obtain ⟨i, hi⟩ := List.mem_iff_getElem?.mp hc
      exact ⟨[i], .step ha hi (.here (by simp [hca, havoid]))⟩
  | @step avoid a _ _ _ i _ ha hi _ ih =>
    by_cases hca : c = a
    · exact ⟨[], hca ▸ .here havoid⟩
    · obtain ⟨q, hq⟩ := ih hc (by simp [hca, havoid])
      exact ⟨i :: q, .step ha hi hq⟩

theorem route_iff : Route meets avoid a p b ↔
    a ∉ avoid ∧ (p = [] ∧ b = a ∨ RouteFrom meets (insert a avoid) (meets a) p b) := by
  constructor
  · intro h
    cases h with
    | here ha => exact ⟨ha, Or.inl ⟨rfl, rfl⟩⟩
    | step ha hi h => exact ⟨ha, Or.inr ⟨_, _, _, _, rfl, hi, h⟩⟩
  · rintro ⟨ha, ⟨rfl, rfl⟩ | ⟨i, q, s, c, rfl, hi, h⟩⟩
    · exact .here ha
    · exact .step ha hi h

theorem RouteFrom.end_notMem (h : RouteFrom meets avoid l p b) : b ∉ avoid := by
  obtain ⟨_, _, _, _, _, _, h⟩ := h
  exact h.end_notMem

/-- The last meeting of a route. -/
theorem Route.snoc (h : Route meets avoid a (p ++ [i]) c) :
    ∃ b s, Route meets avoid a p b ∧ (meets b)[i]? = some (s, c) := by
  induction p generalizing avoid a with
  | nil =>
    cases h with
    | step ha hi h =>
      cases h with
      | here _ => exact ⟨a, _, .here ha, hi⟩
  | cons j p ih =>
    cases h with
    | step ha hj h =>
      obtain ⟨b, s, hb, hi⟩ := ih h
      exact ⟨b, s, .step ha hj hb, hi⟩

/-! ### What a route adds to what is avoided -/

/-- What can be reached from a node. -/
def Below (meets : α → List (σ × α)) (avoid : Set α) (a : α) : Set α :=
  {b | ∃ p, Route meets avoid a p b}

theorem below_closed (hb : b ∈ Below meets avoid a) (hc : (s, c) ∈ meets b) :
    c ∈ avoid ∪ Below meets avoid a := by
  by_cases havoid : c ∈ avoid
  · exact Or.inl havoid
  · obtain ⟨p, hp⟩ := hb
    exact Or.inr (hp.exists_tail hc havoid)

/-- A route from a node of a set that leads to itself only stays in it. -/
theorem Route.mem_of_closed {U : Set α} (hU : ∀ b ∈ U, ∀ s c, (s, c) ∈ meets b → c ∈ avoid ∪ U)
    (hle : avoid ⊆ avoid') (h : Route meets avoid' a p b) (ha : a ∈ U) : b ∈ U := by
  induction h with
  | here _ => exact ha
  | @step _ a _ _ _ _ _ _ hi h ih =>
    have hle' := hle.trans (Set.subset_insert a _)
    have hmem := hU _ ha _ _ (List.mem_of_getElem? hi)
    exact ih hle' (hmem.resolve_left fun hc => h.start_notMem (hle' hc))

theorem Route.avoid_union {U : Set α} (hU : ∀ b ∈ U, ∀ s c, (s, c) ∈ meets b → c ∈ avoid ∪ U)
    (hle : avoid ⊆ avoid') (h : Route meets avoid' a p b) (hb : b ∉ U) :
    Route meets (avoid' ∪ U) a p b := by
  induction h with
  | here ha => exact .here fun h => h.elim ha hb
  | step ha hi h ih =>
    refine .step ?_ hi ?_
    · rintro (hmem | hmem)
      · exact ha hmem
      · exact hb ((Route.step ha hi h).mem_of_closed hU hle hmem)
    · rw [← Set.insert_union]
      exact ih (hle.trans (Set.subset_insert _ _)) hb

theorem routeFrom_union_below : RouteFrom meets (avoid ∪ Below meets avoid x) l p b ↔
    RouteFrom meets avoid l p b ∧ b ∉ Below meets avoid x := by
  constructor
  · intro h
    have hend := h.end_notMem
    obtain ⟨i, q, s, c, hp, hi, h⟩ := h
    exact ⟨⟨i, q, s, c, hp, hi, h.anti Set.subset_union_left⟩, fun hb => hend (Or.inr hb)⟩
  · rintro ⟨⟨i, q, s, c, hp, hi, h⟩, hb⟩
    have hclosed : ∀ b ∈ Below meets avoid x, ∀ s c, (s, c) ∈ meets b →
        c ∈ avoid ∪ Below meets avoid x := fun _ hb _ _ hc => below_closed hb hc
    exact ⟨i, q, s, c, hp, hi, h.avoid_union hclosed Set.Subset.rfl hb⟩

/-! ### Routes by their first meeting -/

theorem cons_le_cons {j : ℕ} : i :: p ≤ j :: q ↔ i < j ∨ (i = j ∧ p ≤ q) := by
  have hlt : i :: p < j :: q ↔ i < j ∨ (i = j ∧ p < q) := List.cons_lt_cons_iff
  rw [le_iff_lt_or_eq, hlt, le_iff_lt_or_eq, List.cons_eq_cons]
  tauto

theorem nil_le (p : List ℕ) : [] ≤ p := by
  cases p with
  | nil => exact le_rfl
  | cons i p => exact le_of_lt List.Lex.nil

theorem routeFrom_cons : RouteFrom meets avoid ((s, x) :: l) p y ↔
    (∃ q, p = 0 :: q ∧ Route meets avoid x q y) ∨
      ∃ i q, p = (i + 1) :: q ∧ RouteFrom meets avoid l (i :: q) y := by
  constructor
  · rintro ⟨i, q, t, b, rfl, hi, h⟩
    cases i with
    | zero =>
      obtain ⟨rfl, rfl⟩ := Prod.mk.inj (Option.some.inj hi)
      exact Or.inl ⟨q, rfl, h⟩
    | succ i => exact Or.inr ⟨i, q, rfl, i, q, t, b, rfl, hi, h⟩
  · rintro (⟨q, rfl, h⟩ | ⟨i, q, rfl, j, r, t, b, heq, hi, h⟩)
    · exact ⟨0, q, s, x, rfl, rfl, h⟩
    · obtain ⟨rfl, rfl⟩ := List.cons.inj heq
      exact ⟨i + 1, q, t, b, rfl, hi, h⟩

theorem leastFrom_cons_zero :
    LeastFrom meets avoid ((s, x) :: l) (0 :: q) y ↔ LeastRoute meets avoid x q y := by
  constructor
  · rintro ⟨h, hle⟩
    have hroute : Route meets avoid x q y := by
      obtain ⟨r, hr, h⟩ | ⟨i, r, hr, -⟩ := routeFrom_cons.mp h
      · exact (List.cons.inj hr).2 ▸ h
      · cases hr
    refine ⟨hroute, fun r hr => ?_⟩
    have hcons := hle (0 :: r) (routeFrom_cons.mpr (Or.inl ⟨r, rfl, hr⟩))
    exact ((cons_le_cons.mp hcons).resolve_left (lt_irrefl 0)).2
  · rintro ⟨h, hle⟩
    refine ⟨routeFrom_cons.mpr (Or.inl ⟨q, rfl, h⟩), fun r hr => ?_⟩
    obtain ⟨r, rfl, hroute⟩ | ⟨i, r, rfl, -⟩ := routeFrom_cons.mp hr
    · exact List.cons_le_cons 0 (hle r hroute)
    · exact cons_le_cons.mpr (Or.inl (Nat.succ_pos i))

/-- What the first meeting leads to is found there. -/
theorem leastFrom_cons_succ : LeastFrom meets avoid ((s, x) :: l) ((i + 1) :: q) y ↔
    LeastFrom meets (avoid ∪ Below meets avoid x) l (i :: q) y := by
  have hsucc : ∀ j r, ((i + 1) :: q ≤ (j + 1) :: r) ↔ i :: q ≤ j :: r := by
    intro j r
    rw [cons_le_cons, cons_le_cons, Nat.add_lt_add_iff_right, Nat.add_right_cancel_iff]
  constructor
  · rintro ⟨h, hle⟩
    have hroute : RouteFrom meets avoid l (i :: q) y := by
      obtain ⟨r, hr, -⟩ | ⟨j, r, hr, h⟩ := routeFrom_cons.mp h
      · cases hr
      · obtain ⟨hij, rfl⟩ := List.cons.inj hr
        exact Nat.succ.inj hij ▸ h
    have hbelow : y ∉ Below meets avoid x := by
      rintro ⟨r, hr⟩
      have hcons := hle (0 :: r) (routeFrom_cons.mpr (Or.inl ⟨r, rfl, hr⟩))
      rcases cons_le_cons.mp hcons with h | ⟨h, -⟩ <;> omega
    refine ⟨routeFrom_union_below.mpr ⟨hroute, hbelow⟩, fun r hr => ?_⟩
    have hr' := (routeFrom_union_below.mp hr).1
    obtain ⟨j, r, -, -, rfl, -⟩ := hr
    exact (hsucc j r).mp (hle _ (routeFrom_cons.mpr (Or.inr ⟨j, r, rfl, hr'⟩)))
  · rintro ⟨h, hle⟩
    obtain ⟨hroute, hbelow⟩ := routeFrom_union_below.mp h
    refine ⟨routeFrom_cons.mpr (Or.inr ⟨i, q, rfl, hroute⟩), fun r hr => ?_⟩
    obtain ⟨r, rfl, h'⟩ | ⟨j, r, rfl, h'⟩ := routeFrom_cons.mp hr
    · exact absurd ⟨r, h'⟩ hbelow
    · exact (hsucc j r).mpr (hle _ (routeFrom_union_below.mpr ⟨h', hbelow⟩))

theorem leastRoute_iff : LeastRoute meets avoid a p b ↔
    a ∉ avoid ∧ (p = [] ∧ b = a ∨ LeastFrom meets (insert a avoid) (meets a) p b) := by
  constructor
  · rintro ⟨h, hle⟩
    obtain ⟨ha, hcases⟩ := route_iff.mp h
    refine ⟨ha, hcases.imp_right fun hfrom => ⟨hfrom, fun q hq => ?_⟩⟩
    exact hle q (route_iff.mpr ⟨ha, Or.inr hq⟩)
  · rintro ⟨ha, ⟨rfl, rfl⟩ | ⟨h, hle⟩⟩
    · exact ⟨.here ha, fun q _ => nil_le q⟩
    · refine ⟨route_iff.mpr ⟨ha, Or.inr h⟩, fun q hq => ?_⟩
      rcases (route_iff.mp hq).2 with ⟨-, rfl⟩ | hq
      · exact absurd (Set.mem_insert b avoid) h.end_notMem
      · exact hle q hq

theorem repeated_iff : Repeated meets avoid a t ↔
    a ∉ avoid ∧ RepeatedFrom meets (insert a avoid) (meets a) t := by
  have hsnoc : ∀ p i x, a ∉ avoid → (LeastRoute meets avoid a (p ++ [i]) x ↔
      LeastFrom meets (insert a avoid) (meets a) (p ++ [i]) x) := by
    intro p i x ha
    rw [leastRoute_iff]
    simp [ha]
  constructor
  · rintro ⟨p, b, i, x, hp, hi, hnot⟩
    obtain ⟨ha, hcases⟩ := leastRoute_iff.mp hp
    rw [hsnoc p i x ha] at hnot
    refine ⟨ha, ?_⟩
    rcases hcases with ⟨rfl, rfl⟩ | hp
    · exact Or.inl ⟨i, x, hi, hnot⟩
    · exact Or.inr ⟨p, b, i, x, hp, hi, hnot⟩
  · rintro ⟨ha, ⟨i, x, hi, hnot⟩ | ⟨p, b, i, x, hp, hi, hnot⟩⟩
    · rw [← List.nil_append [i], ← hsnoc [] i x ha] at hnot
      exact ⟨[], a, i, x, leastRoute_iff.mpr ⟨ha, Or.inl ⟨rfl, rfl⟩⟩, hi, hnot⟩
    · rw [← hsnoc p i x ha] at hnot
      exact ⟨p, b, i, x, leastRoute_iff.mpr ⟨ha, Or.inr hp⟩, hi, hnot⟩

theorem RouteFrom.ne_nil (h : RouteFrom meets avoid l p b) : p ≠ [] := by
  obtain ⟨i, q, -, -, rfl, -⟩ := h
  exact List.cons_ne_nil i q

theorem repeatedFrom_cons : RepeatedFrom meets avoid ((s, x) :: l) t ↔
    (x ∈ avoid ∧ t = s) ∨ Repeated meets avoid x t ∨
      RepeatedFrom meets (avoid ∪ Below meets avoid x) l t := by
  constructor
  · rintro (⟨i, y, hi, hnot⟩ | ⟨p, b, i, y, hp, hi, hnot⟩)
    · cases i with
      | zero =>
        obtain ⟨rfl, rfl⟩ := Prod.mk.inj (Option.some.inj hi)
        rw [leastFrom_cons_zero, leastRoute_iff] at hnot
        exact Or.inl ⟨by simpa using hnot, rfl⟩
      | succ i =>
        rw [leastFrom_cons_succ] at hnot
        exact Or.inr (Or.inr (Or.inl ⟨i, y, hi, hnot⟩))
    · obtain ⟨j, q, rfl⟩ := List.exists_cons_of_ne_nil hp.1.ne_nil
      rw [List.cons_append] at hnot
      cases j with
      | zero =>
        rw [leastFrom_cons_zero] at hp hnot
        exact Or.inr (Or.inl ⟨q, b, i, y, hp, hi, hnot⟩)
      | succ j =>
        rw [leastFrom_cons_succ] at hp hnot
        exact Or.inr (Or.inr (Or.inr ⟨j :: q, b, i, y, hp, hi, hnot⟩))
  · rintro (⟨hx, rfl⟩ | ⟨q, b, i, y, hp, hi, hnot⟩ | ⟨i, y, hi, hnot⟩ | ⟨p, b, i, y, hp, hi, hnot⟩)
    · refine Or.inl ⟨0, x, rfl, fun h => h.1.end_notMem hx⟩
    · rw [← leastFrom_cons_zero] at hp hnot
      exact Or.inr ⟨0 :: q, b, i, y, hp, hi, hnot⟩
    · rw [← leastFrom_cons_succ] at hnot
      exact Or.inl ⟨i + 1, y, hi, hnot⟩
    · obtain ⟨j, q, rfl⟩ := List.exists_cons_of_ne_nil hp.1.ne_nil
      rw [List.cons_append] at hnot
      rw [← leastFrom_cons_succ] at hp hnot
      exact Or.inr ⟨(j + 1) :: q, b, i, y, hp, hi, hnot⟩

end Routes

/-! ### What a walk sees and meets again -/

section Walks
variable {meets : α → List (σ × α)} {w w' : Walk α σ} {l : List (σ × α)} {a b x y : α} {s t : σ}
  {p q : List ℕ} {i j : ℕ}

structure Explored (meets : α → List (σ × α)) (avoid : Set α) (l : List (σ × α))
    (w w' : Walk α σ) : Prop where
  seen : ∀ y, y ∈ w'.seen ↔ y ∈ avoid ∨ ∃ p, RouteFrom meets avoid l p y
  again : ∀ t, t ∈ w'.again ↔ t ∈ w.again ∨ RepeatedFrom meets avoid l t
  least : ∀ p y, RouteFrom meets avoid l p y → ∃ q, LeastFrom meets avoid l q y

theorem below_eq_empty {avoid : Set α} (hx : x ∈ avoid) : Below meets avoid x = ∅ :=
  Set.eq_empty_of_forall_notMem fun _ ⟨_, h⟩ => h.start_notMem hx

theorem mem_union_below {avoid : Set α} (hx : x ∉ avoid) : y ∈ avoid ∪ Below meets avoid x ↔
    y ∈ insert x avoid ∨ ∃ p, RouteFrom meets (insert x avoid) (meets x) p y := by
  constructor
  · rintro (hy | ⟨p, hp⟩)
    · exact Or.inl (Set.mem_insert_of_mem x hy)
    · rcases (route_iff.mp hp).2 with ⟨-, rfl⟩ | hp
      · exact Or.inl (Set.mem_insert _ _)
      · exact Or.inr ⟨p, hp⟩
  · rintro ((rfl | hy) | ⟨p, hp⟩)
    · exact Or.inr ⟨[], .here hx⟩
    · exact Or.inl hy
    · exact Or.inr ⟨p, route_iff.mpr ⟨hx, Or.inr hp⟩⟩

/-- What the rest of a list adds to what its first meeting leads to. -/
theorem Explored.cons {avoid : Set α} {w w₁ w' : Walk α σ}
    (h : Explored meets (avoid ∪ Below meets avoid x) l w₁ w')
    (hagain : ∀ t, t ∈ w₁.again ↔ t ∈ w.again ∨ (x ∈ avoid ∧ t = s) ∨ Repeated meets avoid x t)
    (hleast : ∀ p y, Route meets avoid x p y → ∃ q, LeastRoute meets avoid x q y) :
    Explored meets avoid ((s, x) :: l) w w' := by
  refine ⟨fun y => ?_, fun t => ?_, fun p y hp => ?_⟩
  · rw [h.seen]
    constructor
    · rintro ((hy | ⟨p, hp⟩) | ⟨p, hp⟩)
      · exact Or.inl hy
      · exact Or.inr ⟨0 :: p, routeFrom_cons.mpr (Or.inl ⟨p, rfl, hp⟩)⟩
      · obtain ⟨i, q, rfl⟩ := List.exists_cons_of_ne_nil hp.ne_nil
        have hp' := (routeFrom_union_below.mp hp).1
        exact Or.inr ⟨(i + 1) :: q, routeFrom_cons.mpr (Or.inr ⟨i, q, rfl, hp'⟩)⟩
    · rintro (hy | ⟨p, hp⟩)
      · exact Or.inl (Or.inl hy)
      · obtain ⟨q, -, hq⟩ | ⟨i, q, -, hq⟩ := routeFrom_cons.mp hp
        · exact Or.inl (Or.inr ⟨q, hq⟩)
        · by_cases hy : y ∈ Below meets avoid x
          · exact Or.inl (Or.inr hy)
          · exact Or.inr ⟨_, routeFrom_union_below.mpr ⟨hq, hy⟩⟩
  · rw [h.again, hagain, repeatedFrom_cons]
    simp only [or_assoc]
  · by_cases hy : y ∈ Below meets avoid x
    · obtain ⟨q, hq⟩ := hy
      obtain ⟨r, hr⟩ := hleast q y hq
      exact ⟨0 :: r, leastFrom_cons_zero.mpr hr⟩
    · obtain ⟨q, -, hq⟩ | ⟨i, q, -, hq⟩ := routeFrom_cons.mp hp
      · exact absurd ⟨q, hq⟩ hy
      · obtain ⟨r, hr⟩ := h.least _ y (routeFrom_union_below.mpr ⟨hq, hy⟩)
        obtain ⟨k, r, rfl⟩ := List.exists_cons_of_ne_nil hr.1.ne_nil
        exact ⟨(k + 1) :: r, leastFrom_cons_succ.mpr hr⟩

theorem Walks.explored (h : Walks meets l w w') : Explored meets {x | x ∈ w.seen} l w w' := by
  induction h with
  | done w =>
    have hnone : ∀ p y, ¬ RouteFrom meets {x | x ∈ w.seen} [] p y := by
      rintro p y ⟨i, q, s, b, -, hi, -⟩
      cases hi
    refine ⟨fun y => ?_, fun t => ?_, fun p y hp => absurd hp (hnone p y)⟩
    · simp [hnone]
    · have hrepeated : ¬ RepeatedFrom meets {x | x ∈ w.seen} [] t := by
        rintro (⟨i, x, hi, -⟩ | ⟨p, b, i, x, hp, -⟩)
        · cases hi
        · exact hnone p b hp.1
      simp [hrepeated]
  | @again s x l w w' hx _ ih =>
    have hbelow : Below meets {x | x ∈ w.seen} x = ∅ := below_eq_empty hx
    have hrest : Explored meets ({y | y ∈ w.seen} ∪ Below meets {y | y ∈ w.seen} x) l
        ⟨w.seen, s :: w.again⟩ w' := by
      rw [hbelow, Set.union_empty]
      exact ih
    refine Explored.cons hrest (fun t => ?_) fun p y hp => ?_
    · have hrepeated : ¬ Repeated meets {x | x ∈ w.seen} x t := fun h => (repeated_iff.mp h).1 hx
      simp [hx, hrepeated, or_comm]
    · exact absurd hx hp.start_notMem
  | @go s x l w w₁ w' hx _ _ ih ih' =>
    have hinsert : {y | y ∈ x :: w.seen} = insert x {y | y ∈ w.seen} := by
      ext y
      simp
    rw [hinsert] at ih
    have hset : {y | y ∈ w₁.seen} = {y | y ∈ w.seen} ∪ Below meets {y | y ∈ w.seen} x := by
      ext y
      have hmem := @mem_union_below _ _ meets _ y {y | y ∈ w.seen} hx
      exact (ih.seen y).trans hmem.symm
    rw [hset] at ih'
    refine ih'.cons (fun t => ?_) fun p y hp => ?_
    · rw [ih.again, repeated_iff]
      simp [hx]
    · rcases (route_iff.mp hp).2 with ⟨rfl, rfl⟩ | hp
      · exact ⟨[], leastRoute_iff.mpr ⟨hx, Or.inl ⟨rfl, rfl⟩⟩⟩
      · obtain ⟨q, hq⟩ := ih.least p y hp
        exact ⟨q, leastRoute_iff.mpr ⟨hx, Or.inr hq⟩⟩

theorem Walks.append {l' : List (σ × α)} {w₁ : Walk α σ} (h : Walks meets l w w₁)
    (h' : Walks meets l' w₁ w') : Walks meets (l ++ l') w w' := by
  induction h with
  | done w => exact h'
  | again hx _ ih => exact .again hx (ih h')
  | go hx hbelow _ _ ih => exact .go hx hbelow (ih h')

theorem Walks.seen_subset (h : Walks meets l w w') : w.seen ⊆ w'.seen := by
  intro y hy
  exact (h.explored.seen y).mpr (Or.inl hy)

/-- A walk from one node sees what it leads to, and meets again what is repeated. -/
theorem Walks.explored_root (h : Walks meets (meets a) ⟨[a], []⟩ w') :
    (∀ y, y ∈ w'.seen ↔ y ∈ Below meets ∅ a) ∧ (∀ t, t ∈ w'.again ↔ Repeated meets ∅ a t) ∧
      ∀ y ∈ Below meets ∅ a, ∃ p, LeastRoute meets ∅ a p y := by
  have hset : {y | y ∈ [a]} = insert a (∅ : Set α) := by
    ext y
    simp
  have hexplored := h.explored
  rw [hset] at hexplored
  have ha : a ∉ (∅ : Set α) := Set.notMem_empty a
  refine ⟨fun y => ?_, fun t => ?_, fun y hy => ?_⟩
  · have hmem := @mem_union_below _ _ meets _ y _ ha
    rw [Set.empty_union] at hmem
    exact (hexplored.seen y).trans hmem.symm
  · rw [hexplored.again, repeated_iff]
    simp
  · obtain ⟨p, hp⟩ := hy
    rcases (route_iff.mp hp).2 with ⟨rfl, rfl⟩ | hp
    · exact ⟨[], leastRoute_iff.mpr ⟨ha, Or.inl ⟨rfl, rfl⟩⟩⟩
    · obtain ⟨q, hq⟩ := hexplored.least p y hp
      exact ⟨q, leastRoute_iff.mpr ⟨ha, Or.inr hq⟩⟩

/-- Among the nodes that a node leads to, no two meet the same one. -/
def MetOnce (meets : α → List (σ × α)) (a : α) : Prop :=
  ∀ b ∈ Below meets ∅ a, ∀ c ∈ Below meets ∅ a, ∀ (i j : ℕ) (s t : σ) (x : α),
    (meets b)[i]? = some (s, x) → (meets c)[j]? = some (t, x) → b = c ∧ i = j

theorem LeastRoute.unique {avoid : Set α} (h : LeastRoute meets avoid a p b)
    (h' : LeastRoute meets avoid a q b) : p = q := le_antisymm (h.2 q h'.1) (h'.2 p h.1)

/-- Where the root is not met and nothing else is met twice, there is one route to each node. -/
theorem MetOnce.route_unique (h : MetOnce meets a) (hroot : ∀ b s, b ∈ Below meets ∅ a → (s, a) ∉ meets b)
    (hp : Route meets ∅ a p b) (hq : Route meets ∅ a q b) : p = q := by
  have hnil : ∀ r i, ¬ Route meets ∅ a (r ++ [i]) a := by
    intro r i hr
    obtain ⟨c, s, hc, hi⟩ := hr.snoc
    exact hroot c s ⟨r, hc⟩ (List.mem_of_getElem? hi)
  have hself : ∀ c, Route meets ∅ a [] c → c = a := by
    intro c hc
    cases hc with
    | here _ => rfl
  induction p using List.reverseRecOn generalizing q b with
  | nil =>
    obtain rfl := hself b hp
    rcases List.eq_nil_or_concat q with rfl | ⟨r, i, rfl⟩
    · rfl
    · exact absurd (List.concat_eq_append ▸ hq) (hnil r i)
  | append_singleton p i ih =>
    rcases List.eq_nil_or_concat q with rfl | ⟨r, j, rfl⟩
    · obtain rfl := hself b hq
      exact absurd hp (hnil p i)
    · rw [List.concat_eq_append] at hq ⊢
      obtain ⟨c, s, hc, hi⟩ := hp.snoc
      obtain ⟨d, t, hd, hj⟩ := hq.snoc
      obtain ⟨rfl, rfl⟩ := h c ⟨p, hc⟩ d ⟨r, hd⟩ i j s t b hi hj
      rw [ih hc hd]

theorem forall_not_repeated_iff (hroot : ∀ b s, b ∈ Below meets ∅ a → (s, a) ∉ meets b)
    (hleast : ∀ y ∈ Below meets ∅ a, ∃ p, LeastRoute meets ∅ a p y) :
    (∀ t, ¬ Repeated meets ∅ a t) ↔ MetOnce meets a := by
  constructor
  · intro hnone b hb c hc i j s t x hi hj
    obtain ⟨p, hp⟩ := hleast b hb
    obtain ⟨q, hq⟩ := hleast c hc
    have hpi : LeastRoute meets ∅ a (p ++ [i]) x := by
      by_contra hnot
      exact hnone s ⟨p, b, i, x, hp, hi, hnot⟩
    have hqj : LeastRoute meets ∅ a (q ++ [j]) x := by
      by_contra hnot
      exact hnone t ⟨q, c, j, x, hq, hj, hnot⟩
    obtain ⟨rfl, hij⟩ := List.append_inj' (hpi.unique hqj) rfl
    exact ⟨hp.1.unique hq.1, (List.cons.inj hij).1⟩
  · rintro honce t ⟨p, b, i, x, hp, hi, hnot⟩
    have hmem : (t, x) ∈ meets b := List.mem_of_getElem? hi
    obtain ⟨q, hq⟩ := hp.1.exists_tail hmem (Set.notMem_empty x)
    rcases List.eq_nil_or_concat q with rfl | ⟨r, j, rfl⟩
    · cases hq with
      | here _ => exact hroot b t ⟨p, hp.1⟩ hmem
    · rw [List.concat_eq_append] at hq
      obtain ⟨c, s, hc, hj⟩ := hq.snoc
      obtain ⟨rfl, rfl⟩ := honce b ⟨p, hp.1⟩ c ⟨r, hc⟩ i j t s x hi hj
      obtain rfl := honce.route_unique hroot hp.1 hc
      exact hnot ⟨hq, fun q' hq' => (honce.route_unique hroot hq hq').le⟩

end Walks

end N8n.LeastRoutes
