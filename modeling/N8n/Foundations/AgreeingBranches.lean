import Mathlib.Data.List.Basic
import Mathlib.Logic.Relation
import Mathlib.Order.WellFounded

/-!
# Branches that have to agree

A position leads to an end, to nothing, or on to several branches. A search returns the
end that the branches it follows return, where some of them return one and these agree,
and fails otherwise. A branch that fails is not told from one that leads to nothing, so
what the search returns can leave out ends that it would have found.
-/

namespace N8n.AgreeingBranches

inductive View (π ι : Type*) where
  /-- An end, or the place of one that is not there. -/
  | leaf (x : Option ι)
  | dead
  /-- Branches, each with whether it is followed. -/
  | node (branches : List (Bool × π))

variable {π ι : Type*} (view : π → View π ι)

def Branch (q p : π) : Prop := ∃ bs b, view p = .node bs ∧ (b, q) ∈ bs

def Lineage (p q : π) : Prop := Relation.ReflTransGen (fun p q => Branch view q p) p q

/-- What a trace ends at, along all branches or along those that are followed. -/
inductive EndsAt (all : Bool) : π → ι → Prop
  | leaf {p : π} {x : ι} : view p = .leaf (some x) → EndsAt all p x
  | node {p q : π} {x : ι} {bs : List (Bool × π)} {b : Bool} :
      view p = .node bs → (b, q) ∈ bs → b = true ∨ all = true → EndsAt all q x → EndsAt all p x

def OnlyEndsAt (p : π) (x : ι) : Prop :=
  EndsAt view false p x ∧ ∀ y, EndsAt view false p y → y = x

section Agree
variable [DecidableEq ι]

def agree (results : List (Option ι)) : Option ι :=
  match results.filterMap id with
  | [] => none
  | x :: rest => if rest.any fun r => decide (r ≠ x) then none else some x

theorem agree_eq_some {results : List (Option ι)} {x : ι} :
    agree results = some x ↔ some x ∈ results ∧ ∀ y, some y ∈ results → y = x := by
  have hmem : ∀ y, some y ∈ results ↔ y ∈ results.filterMap id := by simp
  simp only [hmem, agree]
  cases results.filterMap id with
  | nil => simp
  | cons z rest =>
    dsimp only
    split_ifs with hrest
    · obtain ⟨r, hr, hne⟩ := List.any_eq_true.mp hrest
      refine iff_of_false nofun ?_
      rintro ⟨-, hall⟩
      refine of_decide_eq_true hne ?_
      rw [hall r (List.mem_cons_of_mem z hr), hall z List.mem_cons_self]
    · have hall : ∀ r ∈ rest, r = z := by simpa using hrest
      simp only [Option.some.injEq, List.mem_cons]
      constructor
      · rintro rfl
        refine ⟨Or.inl rfl, ?_⟩
        rintro y (rfl | hy)
        · rfl
        · exact hall y hy
      · rintro ⟨-, h⟩
        exact h z (Or.inl rfl)

/-- The search, with fuel for the length of the traces. -/
def search : ℕ → π → Option (Option (Option ι))
  | 0, _ => none
  | fuel + 1, p =>
    match view p with
    | .leaf x => some (some x)
    | .dead => some none
    | .node bs => ((bs.filter Prod.fst).mapM fun b => search fuel b.2).map agree

end Agree

/-- What a search returns: nothing where it fails, and else an end or the place of one. -/
structure Search [DecidableEq ι] (res : π → Option (Option ι)) : Prop where
  leaf : ∀ p x, view p = .leaf x → res p = some x
  dead : ∀ p, view p = .dead → res p = none
  node : ∀ p bs, Acc (Branch view) p → view p = .node bs →
    res p = agree ((bs.filter Prod.fst).map fun b => res b.2)

/-- The end that is returned is that of every trace, and the search fails where no trace ends. -/
def Links (res : π → Option (Option ι)) (p : π) : Prop :=
  (∀ x, res p = some (some x) → ∀ y, EndsAt view true p y → y = x) ∧
    ((∀ y, ¬ EndsAt view true p y) → res p = none)

/-- The place of an end is taken for one, or the branches with one end agree on it while
a trace ends elsewhere. -/
def Misleads (p : π) : Prop :=
  view p = .leaf none ∨ ∃ bs x, view p = .node bs ∧
    (∃ q, (true, q) ∈ bs ∧ OnlyEndsAt view q x) ∧
    (∀ q y, (true, q) ∈ bs → OnlyEndsAt view q y → y = x) ∧
    ∃ b q y, (b, q) ∈ bs ∧ EndsAt view true q y ∧ y ≠ x

section Traces
variable {view} {p q : π} {x : ι}

theorem EndsAt.all {b : Bool} (h : EndsAt view b p x) : EndsAt view true p x := by
  induction h with
  | leaf hview => exact .leaf hview
  | node hview hmem _ _ ih => exact .node hview hmem (Or.inr rfl) ih

theorem Lineage.acc (h : Lineage view p q) (hp : Acc (Branch view) p) : Acc (Branch view) q := by
  induction h with
  | refl => exact hp
  | tail _ hbranch ih => exact ih.inv hbranch

theorem endsAt_leaf {b : Bool} {x' : Option ι} (h : view p = .leaf x') :
    EndsAt view b p x ↔ x' = some x := by
  constructor
  · intro hx
    cases hx with
    | leaf hleaf => exact View.leaf.inj (h.symm.trans hleaf)
    | node hnode _ _ _ => simp [h] at hnode
  · rintro rfl
    exact .leaf h

theorem lineage_leaf {x' : Option ι} (h : view p = .leaf x') (hq : Lineage view p q) : q = p := by
  rcases hq.cases_head with rfl | ⟨r, ⟨bs, b, hview, _⟩, _⟩
  · rfl
  · simp [h] at hview

theorem lineage_node {bs : List (Bool × π)} (h : view p = .node bs) (hq : Lineage view p q) :
    q = p ∨ ∃ b ∈ bs, Lineage view b.2 q := by
  rcases hq.cases_head with rfl | ⟨r, ⟨bs', b, hview, hr⟩, hq⟩
  · exact Or.inl rfl
  · obtain rfl := View.node.inj (h.symm.trans hview)
    exact Or.inr ⟨(b, r), hr, hq⟩

theorem acc_of_view (h : ∀ bs, view p = .node bs → ∀ b ∈ bs, Acc (Branch view) b.2) :
    Acc (Branch view) p := by
  refine Acc.intro p ?_
  rintro q ⟨bs, b, hview, hq⟩
  exact h bs hview (b, q) hq

theorem acc_leaf {x : Option ι} (h : view p = .leaf x) : Acc (Branch view) p :=
  acc_of_view fun bs hview => by simp [h] at hview

theorem acc_node {bs : List (Bool × π)} (h : view p = .node bs)
    (hbs : ∀ b ∈ bs, Acc (Branch view) b.2) : Acc (Branch view) p :=
  acc_of_view fun bs' hview => by
    obtain rfl := View.node.inj (h.symm.trans hview)
    exact hbs

end Traces

section Search
variable {view} [DecidableEq ι] {res : π → Option (Option ι)} {p q : π} {x y : ι}
  {bs : List (Bool × π)}

theorem Search.node_eq_some (h : Search view res) (hp : Acc (Branch view) p)
    (hview : view p = .node bs) {r : Option ι} :
    res p = some r ↔ (∃ q, (true, q) ∈ bs ∧ res q = some r) ∧
      ∀ q r', (true, q) ∈ bs → res q = some r' → r' = r := by
  rw [h.node p bs hp hview, agree_eq_some]
  have hmem : ∀ r, some r ∈ (bs.filter Prod.fst).map (fun b => res b.2) ↔
      ∃ q, (true, q) ∈ bs ∧ res q = some r := by
    intro r
    simp only [List.mem_map, List.mem_filter]
    constructor
    · rintro ⟨⟨b, q⟩, ⟨hq, hb⟩, hr⟩
      obtain rfl : b = true := hb
      exact ⟨q, hq, hr⟩
    · rintro ⟨q, hq, hr⟩
      exact ⟨(true, q), ⟨hq, rfl⟩, hr⟩
  simp only [hmem]
  exact and_congr_right fun _ => ⟨fun h q r' hq hr => h r' ⟨q, hq, hr⟩,
    fun h r' ⟨q, hq, hr⟩ => h q r' hq hr⟩

/-- What is returned is the end of a trace that is followed. -/
theorem Search.endsAt (h : Search view res) (hp : Acc (Branch view) p) (hx : res p = some (some x)) :
    EndsAt view false p x := by
  induction hp with
  | intro p hacc ih =>
    cases hview : view p with
    | leaf x' =>
      rw [h.leaf p x' hview] at hx
      exact .leaf (by rw [hview, Option.some.inj hx])
    | dead => simp [h.dead p hview] at hx
    | node bs =>
      obtain ⟨⟨q, hq, hres⟩, -⟩ := (h.node_eq_some (Acc.intro p hacc) hview).mp hx
      exact .node hview hq (Or.inl rfl) (ih q ⟨bs, true, hview, hq⟩ hres)

theorem Search.ne_place (h : Search view res) (hp : Acc (Branch view) p)
    (hplace : ∀ q, Lineage view p q → view q ≠ .leaf none) : res p ≠ some none := by
  induction hp with
  | intro p hacc ih =>
    intro hres
    cases hview : view p with
    | leaf x =>
      rw [h.leaf p x hview] at hres
      exact hplace p .refl (by rw [hview, Option.some.inj hres])
    | dead => simp [h.dead p hview] at hres
    | node bs =>
      obtain ⟨⟨q, hq, hqres⟩, -⟩ := (h.node_eq_some (Acc.intro p hacc) hview).mp hres
      have hbranch : Branch view q p := ⟨bs, true, hview, hq⟩
      exact ih q hbranch (fun r hr => hplace r (.head hbranch hr)) hqres

/-- A position with one end returns it. -/
theorem Search.of_onlyEndsAt (h : Search view res) (hp : Acc (Branch view) p)
    (hplace : ∀ q, Lineage view p q → view q ≠ .leaf none) (hx : OnlyEndsAt view p x) :
    res p = some (some x) := by
  induction hp with
  | intro p hacc ih =>
    obtain ⟨hends, honly⟩ := hx
    cases hview : view p with
    | leaf x' =>
      cases hends with
      | leaf hleaf => rw [h.leaf p (some x) hleaf]
      | node hnode _ _ _ => simp [hview] at hnode
    | dead =>
      cases hends with
      | leaf hleaf => simp [hview] at hleaf
      | node hnode _ _ _ => simp [hview] at hnode
    | node bs =>
      have hbelow : ∀ q, (true, q) ∈ bs → ∀ r, Lineage view q r → view r ≠ .leaf none :=
        fun q hq r hr => hplace r (.head ⟨bs, true, hview, hq⟩ hr)
      have hsame : ∀ q y, (true, q) ∈ bs → EndsAt view false q y → y = x :=
        fun q y hq hy => honly y (.node hview hq (Or.inl rfl) hy)
      refine (h.node_eq_some (Acc.intro p hacc) hview).mpr ⟨?_, fun q r hq hr => ?_⟩
      · cases hends with
        | leaf hleaf => simp [hview] at hleaf
        | @node _ q _ _ b hnode hmem hb hq =>
          obtain rfl := View.node.inj (hview.symm.trans hnode)
          obtain rfl : b = true := hb.resolve_right Bool.false_ne_true
          exact ⟨q, hmem, ih q ⟨bs, true, hview, hmem⟩ (hbelow q hmem) ⟨hq, fun y => hsame q y hmem⟩⟩
      · cases r with
        | none => exact absurd hr (h.ne_place (hacc q ⟨bs, true, hview, hq⟩) (hbelow q hq))
        | some y => rw [hsame q y hq (h.endsAt (hacc q ⟨bs, true, hview, hq⟩) hr)]

theorem Links.not_misleads (h : Search view res) (hp : Acc (Branch view) p)
    (hlinks : ∀ q, Lineage view p q → Links view res q) (hq : Lineage view p q) :
    ¬ Misleads view q := by
  have hleaf : ∀ r, Lineage view p r → view r ≠ .leaf none := by
    intro r hr hview
    have hnone := (hlinks r hr).2 fun y hy => by
      cases hy with
      | leaf hleaf => simp [hview] at hleaf
      | node hnode _ _ _ => simp [hview] at hnode
    simp [h.leaf r none hview] at hnone
  have hacc := hq.acc hp
  rintro (hview | ⟨bs, x, hview, ⟨s, hs, hsx⟩, hagree, b, t, y, ht, hty, hne⟩)
  · exact hleaf q hq hview
  have hbranch : ∀ r b, (b, r) ∈ bs → Lineage view p r :=
    fun r b hr => Relation.ReflTransGen.tail hq ⟨bs, b, hview, hr⟩
  have hbelow : ∀ r b, (b, r) ∈ bs → ∀ u, Lineage view r u → view u ≠ .leaf none :=
    fun r b hr u hu => hleaf u ((hbranch r b hr).trans hu)
  have hres : res q = some (some x) := by
    refine (h.node_eq_some hacc hview).mpr ⟨⟨s, hs, ?_⟩, fun r r' hr hr' => ?_⟩
    · exact h.of_onlyEndsAt ((hbranch s true hs).acc hp) (hbelow s true hs) hsx
    · have hracc := (hbranch r true hr).acc hp
      cases r' with
      | none => exact absurd hr' (h.ne_place hracc (hbelow r true hr))
      | some z =>
        rw [hagree r z hr ⟨h.endsAt hracc hr', fun w hw => (hlinks r (hbranch r true hr)).1 z hr' w hw.all⟩]
  exact hne ((hlinks q hq).1 x hres y (.node hview ht (Or.inr rfl) hty))

theorem Links.of_not_misleads (h : Search view res) (hp : Acc (Branch view) p)
    (hsound : ∀ q, Lineage view p q → ¬ Misleads view q) : Links view res p := by
  have hplace : ∀ q, Lineage view p q → view q ≠ .leaf none :=
    fun q hq hview => hsound q hq (Or.inl hview)
  induction hp with
  | intro p hacc ih =>
    have hpacc := Acc.intro p hacc
    refine ⟨fun x hx y hy => ?_, fun hnone => ?_⟩
    · cases hy with
      | leaf hleaf =>
        rw [h.leaf p (some y) hleaf] at hx
        exact Option.some.inj (Option.some.inj hx)
      | @node _ t _ bs b hview ht _ hty =>
        obtain ⟨⟨s, hs, hsx⟩, hagree⟩ := (h.node_eq_some hpacc hview).mp hx
        have hbranch : ∀ r b, (b, r) ∈ bs → Branch view r p := fun r b hr => ⟨bs, b, hview, hr⟩
        have hlinks := ih s (hbranch s true hs)
          (fun q hq => hsound q (.head (hbranch s true hs) hq))
          fun q hq => hplace q (.head (hbranch s true hs) hq)
        by_contra hne
        refine hsound p .refl (Or.inr ⟨bs, x, hview, ⟨s, hs, ?_⟩, fun r z hr hz => ?_,
          b, t, y, ht, hty, hne⟩)
        · exact ⟨h.endsAt (hacc s (hbranch s true hs)) hsx, fun w hw => hlinks.1 x hsx w hw.all⟩
        · have hrz := h.of_onlyEndsAt (hacc r (hbranch r true hr))
            (fun q hq => hplace q (.head (hbranch r true hr) hq)) hz
          exact Option.some.inj (hagree r (some z) hr hrz)
    · cases hres : res p with
      | none => rfl
      | some r =>
        cases r with
        | none => exact absurd hres (h.ne_place hpacc hplace)
        | some x => exact absurd (h.endsAt hpacc hres).all (hnone x)

/-- The search links every position of a lineage exactly when none of them misleads it. -/
theorem links_iff (h : Search view res) (hp : Acc (Branch view) p) :
    (∀ q, Lineage view p q → Links view res q) ↔ ∀ q, Lineage view p q → ¬ Misleads view q :=
  ⟨fun hlinks _ hq => Links.not_misleads h hp hlinks hq,
    fun hsound _ hq => Links.of_not_misleads h (hq.acc hp) fun _ hr => hsound _ (hq.trans hr)⟩

end Search

/-! ### Enough fuel -/

section Fuel
variable {α β : Type*}

theorem mapM_cons_eq_some {f : α → Option β} {a : α} {l : List α} {bs : List β} :
    (a :: l).mapM f = some bs ↔ ∃ b bs', f a = some b ∧ l.mapM f = some bs' ∧ bs = b :: bs' := by
  rw [List.mapM_cons]
  cases f a with
  | none => simp
  | some b => cases l.mapM f <;> simp [eq_comm]

theorem mapM_mono {f g : α → Option β} {l : List α} {bs : List β} (h : l.mapM f = some bs)
    (hfg : ∀ a ∈ l, ∀ b, f a = some b → g a = some b) : l.mapM g = some bs := by
  induction l generalizing bs with
  | nil => exact h
  | cons a l ih =>
    obtain ⟨b, bs', hb, hbs, rfl⟩ := mapM_cons_eq_some.mp h
    exact mapM_cons_eq_some.mpr ⟨b, bs', hfg a List.mem_cons_self b hb,
      ih hbs fun c hc => hfg c (List.mem_cons_of_mem a hc), rfl⟩

theorem exists_mapM {f : α → Option β} {l : List α} (h : ∀ a ∈ l, ∃ b, f a = some b) :
    ∃ bs, l.mapM f = some bs := by
  induction l with
  | nil => exact ⟨[], rfl⟩
  | cons a l ih =>
    obtain ⟨b, hb⟩ := h a List.mem_cons_self
    obtain ⟨bs, hbs⟩ := ih fun c hc => h c (List.mem_cons_of_mem a hc)
    exact ⟨b :: bs, mapM_cons_eq_some.mpr ⟨b, bs, hb, hbs, rfl⟩⟩

theorem mapM_eq_map {f : α → Option β} {g : α → β} {l : List α} {bs : List β}
    (h : l.mapM f = some bs) (hg : ∀ a ∈ l, ∀ b, f a = some b → g a = b) : bs = l.map g := by
  induction l generalizing bs with
  | nil => simpa using h.symm
  | cons a l ih =>
    obtain ⟨b, bs', hb, hbs, rfl⟩ := mapM_cons_eq_some.mp h
    rw [List.map_cons, hg a List.mem_cons_self b hb,
      ih hbs fun c hc => hg c (List.mem_cons_of_mem a hc)]

variable {view} [DecidableEq ι] {p q : π} {fuel fuel' : ℕ} {r r' : Option (Option ι)}

theorem search_succ (h : search view fuel p = some r) : search view (fuel + 1) p = some r := by
  induction fuel generalizing p r with
  | zero => simp [search] at h
  | succ fuel ih =>
    rw [search] at h ⊢
    cases hview : view p with
    | leaf x => simpa [hview] using h
    | dead => simpa [hview] using h
    | node bs =>
      simp only [hview] at h ⊢
      obtain ⟨results, hresults, rfl⟩ := Option.map_eq_some_iff.mp h
      rw [mapM_mono hresults fun b _ r hr => ih hr, Option.map_some]

theorem search_mono (h : search view fuel p = some r) (hle : fuel ≤ fuel') :
    search view fuel' p = some r := by
  induction hle with
  | refl => exact h
  | step _ ih => exact search_succ ih

theorem search_unique (h : search view fuel p = some r) (h' : search view fuel' p = some r') :
    r = r' := by
  have hmax := search_mono h (Nat.le_max_left fuel fuel')
  rw [search_mono h' (Nat.le_max_right fuel fuel')] at hmax
  exact (Option.some.inj hmax).symm

theorem exists_common_fuel {bs : List (Bool × π)}
    (h : ∀ b ∈ bs, ∃ fuel r, search view fuel b.2 = some r) :
    ∃ fuel, ∀ b ∈ bs, ∃ r, search view fuel b.2 = some r := by
  induction bs with
  | nil => exact ⟨0, nofun⟩
  | cons b bs ih =>
    obtain ⟨fuel, r, hr⟩ := h b List.mem_cons_self
    obtain ⟨fuel', hfuel'⟩ := ih fun c hc => h c (List.mem_cons_of_mem b hc)
    refine ⟨max fuel fuel', fun c hc => ?_⟩
    rcases List.mem_cons.mp hc with rfl | hc
    · exact ⟨r, search_mono hr (Nat.le_max_left _ _)⟩
    · obtain ⟨r', hr'⟩ := hfuel' c hc
      exact ⟨r', search_mono hr' (Nat.le_max_right _ _)⟩

theorem exists_search (hp : Acc (Branch view) p) : ∃ fuel r, search view fuel p = some r := by
  induction hp with
  | intro p _ ih =>
    cases hview : view p with
    | leaf x => exact ⟨1, some x, by rw [search, hview]⟩
    | dead => exact ⟨1, none, by rw [search, hview]⟩
    | node bs =>
      have hfollowed : ∀ b ∈ bs.filter Prod.fst, ∃ fuel r, search view fuel b.2 = some r :=
        fun b hb => ih b.2 ⟨bs, b.1, hview, (List.mem_filter.mp hb).1⟩
      obtain ⟨fuel, hfuel⟩ := exists_common_fuel hfollowed
      obtain ⟨results, hresults⟩ := exists_mapM hfuel
      exact ⟨fuel + 1, agree results, by simp only [search, hview, hresults, Option.map_some]⟩

open Classical in
/-- What the search returns with enough fuel. -/
noncomputable def result (view : π → View π ι) (p : π) : Option (Option ι) :=
  if h : ∃ r fuel, search view fuel p = some r then h.choose else none

theorem result_eq (h : search view fuel p = some r) : result view p = r := by
  have hex : ∃ r fuel, search view fuel p = some r := ⟨r, fuel, h⟩
  rw [result, dif_pos hex]
  obtain ⟨fuel', h'⟩ := hex.choose_spec
  exact search_unique h' h

theorem search_result : Search view (result view) where
  leaf p x hview := result_eq (show search view 1 p = _ by rw [search, hview])
  dead p hview := result_eq (show search view 1 p = _ by rw [search, hview])
  node p bs hp hview := by
    obtain ⟨fuel, r, hr⟩ := exists_search hp
    cases fuel with
    | zero => simp [search] at hr
    | succ fuel =>
      rw [result_eq hr]
      simp only [search, hview] at hr
      obtain ⟨results, hresults, rfl⟩ := Option.map_eq_some_iff.mp hr
      rw [mapM_eq_map (g := fun b => result view b.2) hresults fun b _ r hb => result_eq hb]

end Fuel

end N8n.AgreeingBranches
