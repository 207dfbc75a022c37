import Mathlib.Data.List.Nodup
import Mathlib.Data.Finset.Card
import Mathlib.Data.Finset.Dedup
import Mathlib.Logic.Relation
import Mathlib.Tactic.SplitIfs
import N8n.Foundations.SplitLists

/-!
# Searching with one list of what was checked

A search for the ends of the paths from a node, where all branches share the list of the nodes
that they have checked. Only some nodes are marked as checked; the others have no successors.
A branch that finds nothing stands for an end itself, whether it has no successors or all of
them were checked before.
-/

namespace N8n.SharedSearch

variable {α : Type*}

def Reaches (next : α → List α) : α → α → Prop := Relation.ReflTransGen fun a b => b ∈ next a

/-- A path, and the successors that stand before those of the path. -/
inductive Route (next : α → List α) : α → α → List α → Prop
  | refl (a : α) : Route next a a []
  | step {a b c : α} {before after earlier : List α} : next a = before ++ b :: after →
      Route next b c earlier → Route next a c (before ++ earlier)

section Ends
variable (next : α → List α) (marks : α → Bool)

/-- What is checked once the nodes of a list have been searched. -/
def Covered (K : α → Prop) (l : List α) (x : α) : Prop :=
  K x ∨ (marks x = true ∧ ∃ s ∈ l, Reaches next s x)

/-- Where the search from a node comes to an end, when some nodes are checked already. -/
inductive End : (α → Prop) → α → α → Prop
  | here {K : α → Prop} {a : α} : ¬ K a → (∀ p ∈ next a, K p) → End K a a
  | down {K : α → Prop} {a b x : α} {before after : List α} : ¬ K a →
      next a = before ++ b :: after → End (Covered next marks K before) b x → End K a x

/-- What is checked is marked, and with it what comes after it below the node. -/
def Closed (K : α → Prop) (a : α) : Prop :=
  ∀ x, K x → marks x = true ∧ (Reaches next a x → ∀ y, Reaches next x y → marks y = true → K y)

/-- Nowhere on the way down does a node stand whose successors all lie below earlier ones while
it does not lie there itself. -/
def Unobstructed (a : α) : Prop :=
  ∀ x earlier, Route next a x earlier → next x ≠ [] →
    (∀ p ∈ next x, marks p = true ∧ ∃ s ∈ earlier, Reaches next s p) →
      ∃ s ∈ earlier, Reaches next s x

variable {next marks} {K K' : α → Prop} {a b x y : α} {l l' : List α}

theorem Reaches.step (h : b ∈ next a) : Reaches next a b := .single h

theorem Route.reaches {earlier : List α} (h : Route next a x earlier) : Reaches next a x := by
  induction h with
  | refl a => exact .refl
  | step hnext _ ih => exact .head (by simp [hnext]) ih

theorem eq_of_reaches (ha : next a = []) (h : Reaches next a x) : x = a := by
  rcases Relation.ReflTransGen.cases_head h with rfl | ⟨b, hb, -⟩
  · rfl
  · rw [ha] at hb
    cases hb

theorem End.reaches (h : End next marks K a x) : Reaches next a x := by
  induction h with
  | here => exact .refl
  | down _ hnext _ ih => exact .head (by simp [hnext]) ih

theorem covered_nil : Covered next marks K [] = K := by
  funext x
  simp [Covered]

theorem covered_append :
    Covered next marks (Covered next marks K l) l' = Covered next marks K (l ++ l') := by
  funext x
  simp only [Covered, List.mem_append, or_and_right, exists_or, eq_iff_iff]
  rw [and_or_left, or_assoc]

/-- Only what can be reached matters. -/
theorem End.congr (h : End next marks K a x) (hK : ∀ y, Reaches next a y → (K y ↔ K' y)) :
    End next marks K' a x := by
  induction h generalizing K' with
  | here hK0 hnext =>
    exact .here (fun h => hK0 ((hK _ .refl).mpr h))
      fun p hp => (hK p (.step hp)).mp (hnext p hp)
  | @down K a b x before after hK0 hnext _ ih =>
    refine .down (fun h => hK0 ((hK _ .refl).mpr h)) hnext (ih fun y hy => ?_)
    rw [Covered, Covered, hK y (.head (by simp [hnext]) hy)]

theorem End.route (h : End next marks K a x) :
    ∃ earlier, Route next a x earlier ∧ ¬ Covered next marks K earlier x ∧
      ∀ p ∈ next x, Covered next marks K earlier p := by
  induction h with
  | here hK0 hnext => exact ⟨[], .refl _, by rwa [covered_nil], by rwa [covered_nil]⟩
  | down hK0 hnext _ ih =>
    obtain ⟨earlier, hroute, hx, hp⟩ := ih
    rw [covered_append] at hx hp
    exact ⟨_, .step hnext hroute, hx, hp⟩

theorem Closed.descend (h : Closed next marks K a) (hb : b ∈ next a) : Closed next marks K b :=
  fun x hx => ⟨(h x hx).1, fun hbx => (h x hx).2 (.head hb hbx)⟩

theorem Closed.covered (h : Closed next marks K a) : Closed next marks (Covered next marks K l) a := by
  rintro x (hx | ⟨hmarks, s, hs, hreach⟩)
  · exact ⟨(h x hx).1, fun hax y hxy hy => Or.inl ((h x hx).2 hax y hxy hy)⟩
  · exact ⟨hmarks, fun _ y hxy hy => Or.inr ⟨hy, s, hs, hreach.trans hxy⟩⟩

theorem end_of_route {earlier : List α} (h : Route next a x earlier) (hK : Closed next marks K a)
    (hmarks : marks x = true) (hx : ¬ Covered next marks K earlier x)
    (hp : ∀ p ∈ next x, Covered next marks K earlier p) : End next marks K a x := by
  induction h generalizing K with
  | refl a =>
    rw [covered_nil] at hx hp
    exact .here hx hp
  | @step a b c before after earlier hnext hroute ih =>
    have hb : b ∈ next a := by simp [hnext]
    rw [← covered_append] at hx hp
    refine .down (fun ha => ?_) hnext (ih (hK.descend hb).covered hmarks hx hp)
    exact hx (Or.inl (Or.inl ((hK a ha).2 .refl c (.head hb hroute.reaches) hmarks)))

/-- In a finite graph without cycles every node has fewer nodes below it than above it. -/
theorem below_lt (hacyclic : ∀ a b, b ∈ next a → ¬ Reaches next b a) {nodes : Finset α}
    [∀ a, DecidablePred (Reaches next a)] (ha : a ∈ nodes) (hb : b ∈ next a) :
    (nodes.filter (Reaches next b)).card < (nodes.filter (Reaches next a)).card := by
  apply Finset.card_lt_card
  rw [Finset.ssubset_iff_of_subset]
  · refine ⟨a, Finset.mem_filter.mpr ⟨ha, .refl⟩, fun h => ?_⟩
    exact hacyclic a b hb (Finset.mem_filter.mp h).2
  · intro c hc
    rw [Finset.mem_filter] at hc ⊢
    exact ⟨hc.1, .head hb hc.2⟩

/-- A node without successors is an end as long as nothing that leads to it is checked. -/
theorem end_of_reaches (hacyclic : ∀ a b, b ∈ next a → ¬ Reaches next b a) {nodes : Finset α}
    (hnodes : ∀ a, next a ≠ [] → a ∈ nodes) (h : Reaches next a x) (hx : next x = [])
    (hK : ∀ y, Reaches next y x → ¬ K y) : End next marks K a x := by
  classical
  generalize hn : (nodes.filter (Reaches next a)).card = n
  induction n using Nat.strong_induction_on generalizing a K with
  | _ n ih =>
    rcases Relation.ReflTransGen.cases_head h with rfl | ⟨c, hc, hcx⟩
    · exact .here (hK a .refl) (by simp [hx])
    · obtain ⟨b, before, after, hb, hnext, hfirst⟩ :
          ∃ b before after, Reaches next b x ∧ next a = before ++ b :: after ∧
            ∀ s ∈ before, ¬ Reaches next s x := by
        generalize next a = l at hc
        induction l with
        | nil => cases hc
        | cons d l ihl =>
          by_cases hd : Reaches next d x
          · exact ⟨d, [], l, hd, rfl, fun s hs => absurd hs List.not_mem_nil⟩
          · have hcl : c ∈ l := (List.mem_cons.mp hc).resolve_left fun h => hd (h ▸ hcx)
            obtain ⟨b, before, after, hb, hl, hfirst⟩ := ihl hcl
            refine ⟨b, d :: before, after, hb, by rw [hl]; rfl, ?_⟩
            exact List.forall_mem_cons.mpr ⟨hd, hfirst⟩
      have hmem : b ∈ next a := by simp [hnext]
      have hlt := below_lt hacyclic (hnodes a (List.ne_nil_of_mem hmem)) hmem
      refine .down (hK a h) hnext (ih _ (hn ▸ hlt) hb (fun y hy hcovered => ?_) rfl)
      rcases hcovered with hy' | ⟨-, s, hs, hsy⟩
      · exact hK y hy hy'
      · exact hfirst s hs (hsy.trans hy)

theorem split_concat {P : List α → α → Prop} {l : List α} {a : α} :
    (∃ b before after, l ++ [a] = before ++ b :: after ∧ P before b) ↔
      (∃ b before after, l = before ++ b :: after ∧ P before b) ∨ P l a := by
  rw [exists_comm, SplitLists.exists_split_concat, exists_comm, or_comm]

theorem not_end_of_mem {K : α → Prop} {a x : α} (ha : K a) : ¬ End next marks K a x := by
  intro h
  cases h with
  | here hK => exact hK ha
  | down hK => exact hK ha

end Ends

/-! ### The search -/

section Search
variable [DecidableEq α]

/-- What is not on the list yet is put at its end. -/
def addNew (found more : List α) : List α :=
  more.foldl (fun found a => if a ∈ found then found else found ++ [a]) found

theorem addNew_cons (found : List α) (a : α) (more : List α) :
    addNew found (a :: more) = addNew (if a ∈ found then found else found ++ [a]) more := rfl

theorem mem_addNew {found more : List α} {x : α} : x ∈ addNew found more ↔ x ∈ found ∨ x ∈ more := by
  induction more generalizing found with
  | nil => simp [addNew]
  | cons a more ih =>
    rw [addNew_cons, ih, List.mem_cons]
    split_ifs with ha
    · exact ⟨Or.imp_right Or.inr, by rintro (h | rfl | h) <;> simp_all⟩
    · simp [or_assoc]

theorem nodup_addNew {found more : List α} (h : found.Nodup) : (addNew found more).Nodup := by
  induction more generalizing found with
  | nil => exact h
  | cons a more ih =>
    rw [addNew_cons]
    split_ifs with ha
    · exact ih h
    · exact ih (List.nodup_append.mpr ⟨h, List.nodup_singleton a, by
        rintro b hb c hc rfl
        exact ha (List.mem_singleton.mp hc ▸ hb)⟩)

theorem addNew_ne_nil {found more : List α} (h : more ≠ []) : addNew found more ≠ [] := by
  obtain ⟨a, ha⟩ := List.exists_mem_of_ne_nil more h
  exact List.ne_nil_of_mem (mem_addNew.mpr (Or.inr ha))

variable (next : α → List α) (marks : α → Bool)

def visit (search : α → List α → List α × List α) (s : List α × List α) (b : α) :
    List α × List α :=
  if b ∈ s.2 then s
  else
    let below := search b s.2
    (addNew s.1 (if below.1 = [] then [b] else below.1), below.2)

/-- What is found below a node, and what has been checked then. -/
def search : ℕ → α → List α → List α × List α
  | 0, _, checked => ([], checked)
  | fuel + 1, a, checked =>
    if marks a = false ∨ a ∈ checked then ([], checked)
    else (next a).foldl (visit (search fuel)) ([], checked ++ [a])

/-- The outcome of the search from a node. -/
structure Searched (checked : List α) (a : α) (s : List α × List α) : Prop where
  checked_iff : ∀ x, x ∈ s.2 ↔ x ∈ checked ∨ (marks x = true ∧ Reaches next a x)
  found_iff : ∀ x, x ∈ s.1 ↔ x ≠ a ∧ End next marks (· ∈ checked) a x
  nil_iff : s.1 = [] ↔ ∀ p ∈ next a, p ∈ checked
  nodup : s.1.Nodup

/-- The outcome after some of the successors. -/
structure Scanned (checked before : List α) (s : List α × List α) : Prop where
  checked_iff : ∀ x, x ∈ s.2 ↔ Covered next marks (· ∈ checked) before x
  found_iff : ∀ x, x ∈ s.1 ↔ ∃ b l l', before = l ++ b :: l' ∧
    End next marks (Covered next marks (· ∈ checked) l) b x
  nil_iff : s.1 = [] ↔ ∀ b ∈ before, b ∈ checked
  nodup : s.1.Nodup

section Spec
variable {next : α → List α} {marks : α → Bool} (hacyclic : ∀ a b, b ∈ next a → ¬ Reaches next b a)

include hacyclic

/-- What one successor adds: its ends, the successor itself among them. -/
theorem Searched.mem_added {checked : List α} {b x : α} {below : List α × List α}
    (h : Searched next marks checked b below) (hb : b ∉ checked) :
    x ∈ (if below.1 = [] then [b] else below.1) ↔ End next marks (· ∈ checked) b x := by
  by_cases hx : x = b
  · subst hx
    have hend : End next marks (· ∈ checked) x x ↔ ∀ p ∈ next x, p ∈ checked := by
      constructor
      · intro hend
        cases hend with
        | here _ hnext => exact hnext
        | down _ hnext hend => exact absurd hend.reaches (hacyclic x _ (by simp [hnext]))
      · exact .here hb
    rw [hend, ← h.nil_iff]
    split_ifs with hnil
    · simp [hnil]
    · rw [h.found_iff]
      simp [hnil]
  · have hfound := h.found_iff x
    rw [and_iff_right hx] at hfound
    rw [← hfound]
    split_ifs with hnil
    · simp [hnil, hx]
    · exact Iff.rfl

theorem Scanned.visit {checked before : List α} {b : α} {s : List α × List α}
    {search : α → List α → List α × List α} (h : Scanned next marks checked before s)
    (hclosed : ∀ c ∈ before ++ [b], Closed next marks (· ∈ checked) c)
    (hsearch : b ∉ s.2 → Searched next marks s.2 b (search b s.2)) :
    Scanned next marks checked (before ++ [b]) (SharedSearch.visit search s b) := by
  have hK : (· ∈ s.2) = Covered next marks (· ∈ checked) before :=
    funext fun x => propext (h.checked_iff x)
  have hall : (∀ c ∈ before ++ [b], c ∈ checked) ↔ (∀ c ∈ before, c ∈ checked) ∧ b ∈ checked := by
    rw [List.forall_mem_append, List.forall_mem_singleton]
  rw [SharedSearch.visit]
  split_ifs with hb
  · have hcovered := (h.checked_iff b).mp hb
    refine ⟨fun x => ?_, fun x => ?_, ?_, h.nodup⟩
    · rw [← covered_append, ← hK, Covered]
      refine ⟨Or.inl, ?_⟩
      rintro (hx | ⟨hmarks, c, hc, hreach⟩)
      · exact hx
      · rw [List.mem_singleton.mp hc] at hreach
        exact (h.checked_iff x).mpr
          (((hclosed b (by simp)).covered b hcovered).2 .refl x hreach hmarks)
    · rw [split_concat, h.found_iff, ← hK]
      exact (or_iff_left (not_end_of_mem hb)).symm
    · rw [h.nil_iff, hall]
      refine ⟨fun hbefore => ⟨hbefore, ?_⟩, And.left⟩
      rcases hcovered with hb | ⟨hmarks, c, hc, hreach⟩
      · exact hb
      · exact (hclosed c (List.mem_append_left _ hc) c (hbefore c hc)).2 .refl b hreach hmarks
  · have hbelow := hsearch hb
    refine ⟨fun x => ?_, fun x => ?_, ?_, nodup_addNew h.nodup⟩
    · rw [hbelow.checked_iff, ← covered_append, ← hK, Covered]
      simp
    · rw [mem_addNew, h.found_iff, hbelow.mem_added hacyclic hb, split_concat, hK]
    · rw [hall]
      dsimp only
      refine iff_of_false (addNew_ne_nil ?_) fun h' => hb ((h.checked_iff b).mpr (Or.inl h'.2))
      split_ifs with hnil
      · exact List.cons_ne_nil b []
      · exact hnil

omit hacyclic [DecidableEq α] in
/-- A node that is not marked is left at once. -/
theorem searched_leaf {checked : List α} {a : α} (hmarks : marks a = false) (hnext : next a = []) : Searched next marks checked a ([], checked) where
  checked_iff x := by
    refine (or_iff_left ?_).symm
    rintro ⟨hx, hreach⟩
    rw [eq_of_reaches hnext hreach, hmarks] at hx
    cases hx
  found_iff x := iff_of_false List.not_mem_nil fun ⟨hne, hend⟩ =>
    hne (eq_of_reaches hnext hend.reaches)
  nil_iff := by simp [hnext]
  nodup := List.nodup_nil

omit [DecidableEq α] in
theorem Scanned.searched {checked : List α} {a : α} {s : List α × List α} (ha : a ∉ checked)
    (hmarks : marks a = true) (h : Scanned next marks (checked ++ [a]) (next a) s) :
    Searched next marks checked a s where
  checked_iff x := by
    rw [h.checked_iff, Covered, List.mem_append, List.mem_singleton, or_assoc]
    refine or_congr_right ⟨?_, ?_⟩
    · rintro (rfl | ⟨hx, b, hb, hreach⟩)
      · exact ⟨hmarks, .refl⟩
      · exact ⟨hx, .head hb hreach⟩
    · rintro ⟨hx, hreach⟩
      rcases Relation.ReflTransGen.cases_head hreach with rfl | ⟨b, hb, hreach⟩
      · exact Or.inl rfl
      · exact Or.inr ⟨hx, b, hb, hreach⟩
  found_iff x := by
    have hagree : ∀ {b y : α} {l : List α}, b ∈ next a → Reaches next b y →
        (Covered next marks (· ∈ checked ++ [a]) l y ↔ Covered next marks (· ∈ checked) l y) := by
      intro b y l hb hreach
      have hne : y ≠ a := fun he => hacyclic a b hb (he ▸ hreach)
      simp [Covered, hne]
    rw [h.found_iff]
    constructor
    · rintro ⟨b, before, after, hnext, hend⟩
      have hb : b ∈ next a := by simp [hnext]
      refine ⟨fun he => hacyclic a b hb (he ▸ hend.reaches), .down ha hnext ?_⟩
      exact hend.congr fun y hy => hagree hb hy
    · rintro ⟨hne, hend⟩
      cases hend with
      | here => exact absurd rfl hne
      | @down _ _ b _ before after _ hnext hend =>
        have hb : b ∈ next a := by simp [hnext]
        exact ⟨b, before, after, hnext, hend.congr fun y hy => (hagree hb hy).symm⟩
  nil_iff := by
    rw [h.nil_iff]
    refine forall₂_congr fun b hb => ?_
    have hne : b ≠ a := fun he => hacyclic a b hb (he ▸ .refl)
    simp [hne]
  nodup := h.nodup

theorem search_spec (hmarks : ∀ a, next a ≠ [] → marks a = true) {nodes : Finset α}
    (hnodes : ∀ a, marks a = true → a ∈ nodes) {fuel : ℕ} {a : α} {checked : List α}
    (ha : a ∉ checked) (hclosed : Closed next marks (· ∈ checked) a)
    (hfuel : (nodes \ checked.toFinset).card < fuel) :
    Searched next marks checked a (search next marks fuel a checked) := by
  induction fuel generalizing a checked with
  | zero => omega
  | succ fuel ih =>
    rw [search]
    cases hleaf : marks a with
    | false =>
      rw [if_pos (Or.inl rfl)]
      refine searched_leaf hleaf (by_contra fun hne => ?_)
      rw [hmarks a hne] at hleaf
      cases hleaf
    | true =>
      rw [if_neg (by simp [ha])]
      have hclosed' : ∀ b ∈ next a, Closed next marks (· ∈ checked ++ [a]) b := by
        intro b hb x hx
        rcases List.mem_append.mp hx with hx | hx
        · obtain ⟨hmark, hbelow⟩ := hclosed.descend hb x hx
          exact ⟨hmark, fun hbx y hxy hy => List.mem_append_left _ (hbelow hbx y hxy hy)⟩
        · obtain rfl := List.mem_singleton.mp hx
          exact ⟨hleaf, fun hbx => absurd hbx (hacyclic x b hb)⟩
      have hlt : (nodes \ (checked ++ [a]).toFinset).card < (nodes \ checked.toFinset).card := by
        apply Finset.card_lt_card
        rw [Finset.ssubset_iff_of_subset]
        · exact ⟨a, by simp [hnodes a hleaf, ha], by simp⟩
        · intro b hb
          simp only [Finset.mem_sdiff, List.mem_toFinset, List.mem_append, not_or] at hb ⊢
          exact ⟨hb.1, hb.2.1⟩
      have hscan : ∀ before, before <+: next a → Scanned next marks (checked ++ [a]) before
          (before.foldl (visit (search next marks fuel)) ([], checked ++ [a])) := by
        intro before
        induction before using List.reverseRecOn with
        | nil =>
          intro _
          exact ⟨fun x => by rw [covered_nil]; rfl, fun x => by simp, by simp, List.nodup_nil⟩
        | append_singleton before b ihb =>
          intro hprefix
          have hs := ihb ((List.prefix_append before [b]).trans hprefix)
          rw [List.foldl_append, List.foldl_cons, List.foldl_nil]
          have hsub := hprefix.subset
          refine hs.visit hacyclic (fun c hc => hclosed' c (hsub hc)) fun hb => ih hb ?_ ?_
          · rw [funext fun x => propext (hs.checked_iff x)]
            exact (hclosed' b (hsub (by simp))).covered
          · refine Nat.lt_of_le_of_lt (Finset.card_le_card ?_) (Nat.lt_of_lt_of_le hlt
              (Nat.le_of_lt_succ hfuel))
            intro x hx
            simp only [Finset.mem_sdiff, List.mem_toFinset] at hx ⊢
            exact ⟨hx.1, fun h => hx.2 ((hs.checked_iff x).mpr (Or.inl h))⟩
      exact (hscan (next a) List.prefix_rfl).searched hacyclic ha hleaf

/-- The search finds the nodes without successors exactly when it is not obstructed. -/
theorem found_iff_unobstructed (hmarks : ∀ a, next a ≠ [] → marks a = true) {nodes : Finset α}
    (hnodes : ∀ a, marks a = true → a ∈ nodes) {fuel : ℕ} {a : α} (ha : next a ≠ [])
    (hfuel : nodes.card < fuel) :
    (∀ x, x ∈ (search next marks fuel a []).1 ↔ Reaches next a x ∧ next x = []) ↔
      Unobstructed next marks a := by
  have hclosed : Closed next marks (· ∈ ([] : List α)) a := fun x hx => absurd hx List.not_mem_nil
  have hsearched : Searched next marks [] a (search next marks fuel a []) :=
    search_spec hacyclic hmarks hnodes List.not_mem_nil hclosed (by simpa using hfuel)
  have hself : ¬ End next marks (· ∈ ([] : List α)) a a := by
    intro hend
    cases hend with
    | here _ hnext =>
      obtain ⟨p, hp⟩ := List.exists_mem_of_ne_nil _ ha
      exact absurd (hnext p hp) List.not_mem_nil
    | down _ hnext hend => exact hacyclic a _ (by simp [hnext]) hend.reaches
  simp only [hsearched.found_iff]
  constructor
  · intro h x earlier hroute hx hp
    by_contra hnone
    have hcovered : ¬ Covered next marks (· ∈ ([] : List α)) earlier x := by
      rintro (hnil | ⟨-, hreach⟩)
      · exact List.not_mem_nil hnil
      · exact hnone hreach
    have hend := end_of_route hroute hclosed (hmarks x hx) hcovered fun p hp' => Or.inr (hp p hp')
    exact hx ((h x).mp ⟨fun he => hself (he ▸ hend), hend⟩).2
  · intro h x
    constructor
    · rintro ⟨-, hend⟩
      refine ⟨hend.reaches, by_contra fun hx => ?_⟩
      obtain ⟨earlier, hroute, hcovered, hp⟩ := hend.route
      have hp' := fun p hp' => (hp p hp').resolve_left List.not_mem_nil
      exact hcovered (Or.inr ⟨hmarks x hx, h x earlier hroute hx hp'⟩)
    · rintro ⟨hreach, hx⟩
      refine ⟨fun he => ha (he ▸ hx), ?_⟩
      exact end_of_reaches hacyclic (fun b hb => hnodes b (hmarks b hb)) hreach hx
        fun y _ => List.not_mem_nil

end Spec
end Search
end N8n.SharedSearch
