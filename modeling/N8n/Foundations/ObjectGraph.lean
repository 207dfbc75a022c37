import N8n.Foundations.OrderedMap
import Mathlib.Logic.Relation
import Mathlib.Data.List.Forall2
import Mathlib.Order.WellFounded
import Mathlib.Data.Fintype.EquivFin
import Mathlib.Data.Set.Finite.Basic

/-!
# Graphs of objects and arrays

Objects and arrays are cells that values refer to, so a cell may be shared and may lead back to
itself. Where no cell leads back to itself, a value unfolds to a tree.
-/

namespace N8n.ObjectGraph

open Relation (ReflTransGen TransGen)

inductive Value (π : Type*) where
  | primitive (p : π)
  | ref (r : ℕ)
  deriving DecidableEq

inductive Cell (π : Type*) where
  | array (items : List (Value π))
  | object (properties : OrderedMap String (Value π))

section Graphs
variable {π : Type*}

def Cell.values : Cell π → List (Value π)
  | array items => items
  | object properties => properties.values

def Contains (cells : List (Cell π)) (a b : ℕ) : Prop :=
  ∃ cell, cells[a]? = some cell ∧ Value.ref b ∈ cell.values

def Leads (cells : List (Cell π)) (v : Value π) (r : ℕ) : Prop :=
  ∃ a, v = .ref a ∧ ReflTransGen (Contains cells) a r

/-- No cell that the value leads to leads back to itself. -/
def Acyclic (cells : List (Cell π)) (v : Value π) : Prop :=
  ∀ r, Leads cells v r → ¬ TransGen (Contains cells) r r

/-- The cells that are referred to are there. -/
structure Graph (π : Type*) where
  cells : List (Cell π)
  root : Value π
  root_lt : ∀ r, root = .ref r → r < cells.length
  closed : ∀ a b, Contains cells a b → b < cells.length

theorem Leads.tail {cells : List (Cell π)} {v : Value π} {a b : ℕ} (h : Leads cells v a)
    (hb : Contains cells a b) : Leads cells v b := by
  obtain ⟨c, rfl, hc⟩ := h
  exact ⟨c, rfl, hc.tail hb⟩

theorem leads_ref (cells : List (Cell π)) (r : ℕ) : Leads cells (.ref r) r := ⟨r, rfl, .refl⟩

theorem Leads.of_mem {cells : List (Cell π)} {r a : ℕ} {cell : Cell π} {v : Value π}
    (hcell : cells[r]? = some cell) (hv : v ∈ cell.values) (h : Leads cells v a) :
    TransGen (Contains cells) r a := by
  obtain ⟨b, rfl, hb⟩ := h
  exact TransGen.head' ⟨cell, hcell, hv⟩ hb

theorem Acyclic.of_mem {cells : List (Cell π)} {r : ℕ} {cell : Cell π} {v : Value π}
    (h : Acyclic cells (.ref r)) (hcell : cells[r]? = some cell) (hv : v ∈ cell.values) :
    Acyclic cells v := fun a ha => h a ⟨r, rfl, (ha.of_mem hcell hv).to_reflTransGen⟩

/-- Where there are finitely many cells, paths that do not lead back end. -/
theorem acc_of_acyclic {R : ℕ → ℕ → Prop} {n a : ℕ} (hbound : ∀ a b, R a b → b < n)
    (h : ∀ b, ReflTransGen R a b → ¬ TransGen R b b) : Acc (fun b a => R a b) a := by
  let S := {b // ReflTransGen R a b}
  have hfinite : Finite S := by
    refine Set.Finite.to_subtype (((Set.finite_lt_nat n).insert a).subset fun b hb => ?_)
    rcases ReflTransGen.cases_tail hb with rfl | ⟨c, -, hc⟩
    · exact Set.mem_insert _ _
    · exact Set.mem_insert_of_mem _ (hbound c b hc)
  let T : S → S → Prop := fun x y => TransGen R y.1 x.1
  have htrans : IsTrans S T := ⟨fun _ _ _ hab hbc => hbc.trans hab⟩
  have hirrefl : Std.Irrefl T := ⟨fun x hx => h x.1 x.2 hx⟩
  have hwf : WellFounded T := Finite.wellFounded_of_trans_of_irrefl T
  have hall : ∀ x : S, Acc (fun b a => R a b) x.1 := by
    intro x
    induction x using hwf.induction with
    | _ x ih => exact .intro _ fun b hb => ih ⟨b, x.2.tail hb⟩ (TransGen.single hb)
  exact hall ⟨a, .refl⟩

theorem not_transGen_of_acc {R : ℕ → ℕ → Prop} {a : ℕ} (h : Acc (fun b a => R a b) a) :
    ¬ TransGen R a a := by
  induction h with
  | intro a _ ih =>
    intro hcycle
    obtain ⟨b, hab, hba⟩ := TransGen.head'_iff.mp hcycle
    exact ih b hab (TransGen.tail' hba hab)

end Graphs

/-! ### Trees -/

inductive Tree (π : Type*) where
  | leaf (p : π)
  | array (items : List (Tree π))
  | object (properties : List (String × Tree π))

section Trees
variable {π : Type*} {α β γ δ : Type*}

/-- The tree of a value in a number of levels, with the properties of some names only. -/
def Unfolds (lookup : ℕ → Option (Cell π)) (keep : String → Bool) : ℕ → Value π → Tree π → Prop
  | 0, _, _ => False
  | _ + 1, .primitive p, t => t = .leaf p
  | n + 1, .ref r, t =>
    match lookup r with
    | none => False
    | some (.array items) => ∃ ts, t = .array ts ∧ List.Forall₂ (Unfolds lookup keep n) items ts
    | some (.object properties) => ∃ es, t = .object es ∧
        List.Forall₂ (fun e e' => e.1 = e'.1 ∧ Unfolds lookup keep n e.2 e'.2)
          (properties.entries.filter fun e => keep e.1) es

def KeptTree (lookup : ℕ → Option (Cell π)) (keep : String → Bool) (v : Value π) (t : Tree π) :
    Prop := ∃ n, Unfolds lookup keep n v t

/-- A value unfolds to a tree. -/
def HasTree (cells : List (Cell π)) (v : Value π) (t : Tree π) : Prop :=
  KeptTree (cells[·]?) (fun _ => true) v t

variable {lookup lookup' : ℕ → Option (Cell π)} {keep : String → Bool} {v : Value π} {t t' : Tree π}
  {n m r : ℕ}

/-- More levels and more cells keep a tree. -/
theorem Unfolds.mono (hlookup : ∀ r cell, lookup r = some cell → lookup' r = some cell)
    (hle : n ≤ m) (h : Unfolds lookup keep n v t) : Unfolds lookup' keep m v t := by
  induction n generalizing m v t with
  | zero => cases h
  | succ n ih =>
    obtain ⟨m, rfl⟩ : ∃ m', m = m' + 1 := ⟨m - 1, by omega⟩
    have hle' : n ≤ m := Nat.le_of_succ_le_succ hle
    cases v with
    | primitive p => exact h
    | ref r =>
      rw [Unfolds] at h ⊢
      cases hcell : lookup r with
      | none =>
        rw [hcell] at h
        cases h
      | some cell =>
        rw [hcell] at h
        rw [hlookup r cell hcell]
        cases cell with
        | array items =>
          obtain ⟨ts, rfl, hts⟩ := h
          exact ⟨ts, rfl, hts.imp fun _ _ h => ih hle' h⟩
        | object properties =>
          obtain ⟨es, rfl, hes⟩ := h
          exact ⟨es, rfl, hes.imp fun _ _ h => ⟨h.1, ih hle' h.2⟩⟩

theorem Unfolds.unique (h : Unfolds lookup keep n v t) (h' : Unfolds lookup keep n v t') : t = t' := by
  induction n generalizing v t t' with
  | zero => cases h
  | succ n ih =>
    cases v with
    | primitive p => exact h.trans h'.symm
    | ref r =>
      rw [Unfolds] at h h'
      cases hcell : lookup r with
      | none =>
        rw [hcell] at h
        cases h
      | some cell =>
        rw [hcell] at h h'
        cases cell with
        | array items =>
          obtain ⟨ts, rfl, hts⟩ := h
          obtain ⟨ts', rfl, hts'⟩ := h'
          have hunique : Relator.RightUnique (Unfolds lookup keep n) := fun _ _ _ h h' => ih h h'
          exact congrArg Tree.array (List.right_unique_forall₂' hunique hts hts')
        | object properties =>
          obtain ⟨es, rfl, hes⟩ := h
          obtain ⟨es', rfl, hes'⟩ := h'
          have hunique : Relator.RightUnique fun (e : String × Value π) (e' : String × Tree π) =>
              e.1 = e'.1 ∧ Unfolds lookup keep n e.2 e'.2 :=
            fun _ _ _ h h' => Prod.ext (h.1.symm.trans h'.1) (ih h.2 h'.2)
          exact congrArg Tree.object (List.right_unique_forall₂' hunique hes hes')

theorem KeptTree.unique (h : KeptTree lookup keep v t) (h' : KeptTree lookup keep v t') : t = t' := by
  obtain ⟨n, hn⟩ := h
  obtain ⟨m, hm⟩ := h'
  exact (hn.mono (fun _ _ h => h) (le_max_left n m)).unique
    (hm.mono (fun _ _ h => h) (le_max_right n m))

theorem KeptTree.mono (hlookup : ∀ r cell, lookup r = some cell → lookup' r = some cell)
    (h : KeptTree lookup keep v t) : KeptTree lookup' keep v t := by
  obtain ⟨n, hn⟩ := h
  exact ⟨n, hn.mono hlookup le_rfl⟩

/-- Relations that hold at some level each hold at a common one. -/
theorem exists_forall₂ {R : ℕ → α → β → Prop} (hmono : ∀ n m a b, n ≤ m → R n a b → R m a b)
    {l : List α} {l' : List β} (h : List.Forall₂ (fun a b => ∃ n, R n a b) l l') :
    ∃ n, List.Forall₂ (R n) l l' := by
  induction h with
  | nil => exact ⟨0, .nil⟩
  | cons hab _ ih =>
    obtain ⟨n, hn⟩ := hab
    obtain ⟨m, hm⟩ := ih
    exact ⟨max n m, .cons (hmono _ _ _ _ (le_max_left n m) hn)
      (hm.imp fun a b h => hmono _ _ a b (le_max_right n m) h)⟩

theorem keptTree_primitive (p : π) : KeptTree lookup keep (.primitive p) (.leaf p) := ⟨1, rfl⟩

theorem keptTree_array {items : List (Value π)} (hcell : lookup r = some (.array items)) :
    KeptTree lookup keep (.ref r) t ↔
      ∃ ts, t = .array ts ∧ List.Forall₂ (KeptTree lookup keep) items ts := by
  constructor
  · rintro ⟨n, hn⟩
    cases n with
    | zero => cases hn
    | succ n =>
      rw [Unfolds, hcell] at hn
      obtain ⟨ts, rfl, hts⟩ := hn
      exact ⟨ts, rfl, hts.imp fun _ _ h => ⟨n, h⟩⟩
  · rintro ⟨ts, rfl, hts⟩
    obtain ⟨n, hn⟩ := exists_forall₂ (fun n m a b hle h => h.mono (fun _ _ h => h) hle) hts
    refine ⟨n + 1, ?_⟩
    rw [Unfolds, hcell]
    exact ⟨ts, rfl, hn⟩

theorem keptTree_object {properties : OrderedMap String (Value π)}
    (hcell : lookup r = some (.object properties)) : KeptTree lookup keep (.ref r) t ↔
      ∃ es, t = .object es ∧
        List.Forall₂ (fun e e' => e.1 = e'.1 ∧ KeptTree lookup keep e.2 e'.2)
          (properties.entries.filter fun e => keep e.1) es := by
  constructor
  · rintro ⟨n, hn⟩
    cases n with
    | zero => cases hn
    | succ n =>
      rw [Unfolds, hcell] at hn
      obtain ⟨es, rfl, hes⟩ := hn
      exact ⟨es, rfl, hes.imp fun _ _ h => ⟨h.1, n, h.2⟩⟩
  · rintro ⟨es, rfl, hes⟩
    have hlevels : List.Forall₂ (fun e e' => ∃ n, e.1 = e'.1 ∧ Unfolds lookup keep n e.2 e'.2)
        (properties.entries.filter fun e => keep e.1) es :=
      hes.imp fun _ _ h => h.2.imp fun _ hn => ⟨h.1, hn⟩
    obtain ⟨n, hn⟩ := exists_forall₂
      (fun n m a b hle h => ⟨h.1, h.2.mono (fun _ _ h => h) hle⟩) hlevels
    refine ⟨n + 1, ?_⟩
    rw [Unfolds, hcell]
    exact ⟨es, rfl, hn⟩

/-- Every object that the value leads to has properties of these names only. -/
def AllKept (cells : List (Cell π)) (keep : String → Bool) (v : Value π) : Prop :=
  ∀ r properties, Leads cells v r → cells[r]? = some (.object properties) →
    ∀ key ∈ properties.keys, keep key = true

theorem AllKept.of_mem {cells : List (Cell π)} {cell : Cell π} (h : AllKept cells keep (.ref r))
    (hcell : cells[r]? = some cell) (hv : v ∈ cell.values) : AllKept cells keep v :=
  fun r' properties hr' => h r' properties ⟨r, rfl, (hr'.of_mem hcell hv).to_reflTransGen⟩

theorem allKept_ref {cells : List (Cell π)} {cell : Cell π} (hcell : cells[r]? = some cell)
    (hkeys : ∀ properties, cell = .object properties → ∀ key ∈ properties.keys, keep key = true)
    (hvalues : ∀ v ∈ cell.values, AllKept cells keep v) : AllKept cells keep (.ref r) := by
  rintro r' properties ⟨a, ha, hr'⟩ hproperties
  obtain rfl := Value.ref.inj ha
  rcases ReflTransGen.cases_head hr' with rfl | ⟨b, ⟨cell', hcell', hb⟩, hr'⟩
  · exact hkeys properties (Option.some.inj (hcell.symm.trans hproperties))
  · obtain rfl := Option.some.inj (hcell.symm.trans hcell')
    exact hvalues _ hb r' properties ⟨b, rfl, hr'⟩ hproperties

theorem forall₂_imp_mem {R S : α → β → Prop} {l : List α} {l' : List β} (h : List.Forall₂ R l l')
    (himp : ∀ a ∈ l, ∀ b, R a b → S a b) : List.Forall₂ S l l' := by
  induction h with
  | nil => exact .nil
  | cons hab _ ih =>
    exact .cons (himp _ List.mem_cons_self _ hab)
      (ih fun a ha => himp a (List.mem_cons_of_mem _ ha))

theorem forall_of_forall₂ {R S : α → β → Prop} {P : α → Prop} {l : List α} {l' : List β}
    (h : List.Forall₂ R l l') (h' : List.Forall₂ S l l') (himp : ∀ a b, R a b → S a b → P a) :
    ∀ a ∈ l, P a := by
  induction h with
  | nil => exact fun a ha => absurd ha List.not_mem_nil
  | cons hab _ ih =>
    obtain ⟨hab', hrest⟩ := List.forall₂_cons.mp h'
    exact List.forall_mem_cons.mpr ⟨himp _ _ hab hab', ih hrest⟩

theorem Unfolds.all {cells : List (Cell π)} (h : Unfolds (cells[·]?) keep n v t)
    (hkept : AllKept cells keep v) : Unfolds (cells[·]?) (fun _ => true) n v t := by
  induction n generalizing v t with
  | zero => cases h
  | succ n ih =>
    cases v with
    | primitive p => exact h
    | ref r =>
      rw [Unfolds] at h ⊢
      cases hcell : cells[r]? with
      | none =>
        simp only [hcell] at h
      | some cell =>
        simp only [hcell] at h ⊢
        cases cell with
        | array items =>
          obtain ⟨ts, rfl, hts⟩ := h
          exact ⟨ts, rfl, forall₂_imp_mem hts fun v hv _ h => ih h (hkept.of_mem hcell hv)⟩
        | object properties =>
          obtain ⟨es, rfl, hes⟩ := h
          have hall : (properties.entries.filter fun e => keep e.1) = properties.entries :=
            List.filter_eq_self.mpr fun e he =>
              hkept r properties (leads_ref cells r) hcell e.1 (List.mem_map_of_mem he)
          rw [hall] at hes
          refine ⟨es, rfl, ?_⟩
          rw [List.filter_true]
          exact forall₂_imp_mem hes fun e he _ h =>
            ⟨h.1, ih h.2 (hkept.of_mem hcell (List.mem_map_of_mem he))⟩

theorem Unfolds.allKept {cells : List (Cell π)} (h : Unfolds (cells[·]?) keep n v t)
    (h' : Unfolds (cells[·]?) (fun _ => true) n v t) : AllKept cells keep v := by
  induction n generalizing v t with
  | zero => cases h
  | succ n ih =>
    cases v with
    | primitive p => exact fun r _ ⟨a, ha, _⟩ => nomatch ha
    | ref r =>
      rw [Unfolds] at h h'
      cases hcell : cells[r]? with
      | none =>
        simp only [hcell] at h
      | some cell =>
        simp only [hcell] at h h'
        cases cell with
        | array items =>
          obtain ⟨ts, rfl, hts⟩ := h
          obtain ⟨ts', hts', hitems⟩ := h'
          obtain rfl := Tree.array.inj hts'
          exact allKept_ref hcell nofun (forall_of_forall₂ hts hitems fun _ _ h h' => ih h h')
        | object properties =>
          obtain ⟨es, rfl, hes⟩ := h
          obtain ⟨es', hes', hall⟩ := h'
          obtain rfl := Tree.object.inj hes'
          rw [List.filter_true] at hall
          -- A property that is not kept would make the tree smaller.
          have hlength : (properties.entries.filter fun e => keep e.1).length =
              properties.entries.length := hes.length_eq.trans hall.length_eq.symm
          have hkeep := List.length_filter_eq_length_iff.mp hlength
          rw [List.filter_eq_self.mpr hkeep] at hes
          refine allKept_ref hcell (fun properties' heq key hkey => ?_) fun v hv => ?_
          · obtain rfl := Cell.object.inj heq
            obtain ⟨e, he, rfl⟩ := List.mem_map.mp hkey
            exact hkeep e he
          · obtain ⟨e, he, rfl⟩ := List.mem_map.mp hv
            exact forall_of_forall₂ (P := fun e : String × Value π => AllKept cells keep e.2) hes hall
              (fun _ _ h h' => ih h.2 h'.2) e he

/-- A tree is whole exactly when nothing is left out of it. -/
theorem hasTree_iff_allKept {cells : List (Cell π)} (h : KeptTree (cells[·]?) keep v t) :
    HasTree cells v t ↔ AllKept cells keep v := by
  obtain ⟨n, hn⟩ := h
  constructor
  · rintro ⟨m, hm⟩
    exact (hn.mono (fun _ _ h => h) (le_max_left n m)).allKept
      (hm.mono (fun _ _ h => h) (le_max_right n m))
  · exact fun hkept => ⟨n, hn.all hkept⟩

end Trees

end N8n.ObjectGraph
