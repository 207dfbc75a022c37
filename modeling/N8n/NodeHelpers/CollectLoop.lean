import N8n.NodeHelpers.NodeParameters
import N8n.Foundations.FoldM

/-!
# What a call collects

Once the values that display rules look at are known, a property adds the same value
in whatever state it is visited. A call that returns has either returned its node
values, or holds for every name the value that the properties of that name have added.
-/

namespace N8n

open OrderedMap (lookupEntry setEntry)
open FoldM

namespace CollectCall
variable (context : NodeContext) (c : CollectCall) (check : INodeParameters)

/-- What a property adds when it is displayed. `none` stands for the return of the node values. -/
def addition (property : INodeProperties × CollectionCall) :
    Except Failure (Option (Option ParameterValue)) :=
  match property with
  | (.simple name type default _, _) =>
    if c.flags.returnDefaults then .ok (some (some (simpleValue type default (c.value name))))
    else .ok (some ((c.value name).filter (isKept c.parentType default)))
  | (property, collection) => do
    match ← collection c.flags (c.nodeValuesRoot.getD check) (c.value property.name) with
    | .unset => .ok (some none)
    | .set value => .ok (some (some value))
    | .setOnly value => .ok (some (some value))
    | .nodeValues => .ok none

def isDisplayed (root : Option INodeParameters) (property : INodeProperties) : Except Failure Bool :=
  displayParameter context check (root.getD check) property.displayOptions

def adds (property : INodeProperties × CollectionCall) :
    Except Failure (Option (Option ParameterValue)) :=
  if c.skips property.1.name then .ok (some none)
  else do
    if ← isDisplayed context check c.nodeValuesRoot property.1 then c.addition check property
    else .ok (some none)

end CollectCall

/-- The loop over the properties with what each of them adds. -/
def collect (adds : INodeProperties × CollectionCall → Except Failure (Option (Option ParameterValue)))
    (returned : INodeParameters) :
    List (INodeProperties × CollectionCall) → INodeParameters → Except Failure INodeParameters
  | [], parameters => .ok parameters
  | property :: properties, parameters => do
    match ← adds property with
    | none => .ok returned
    | some none => collect adds returned properties parameters
    | some (some value) =>
      collect adds returned properties (setEntry property.1.name value parameters)

section Collect
variable {context : NodeContext} {c : CollectCall} {check : INodeParameters}

/-- What follows a property does not look at the values that the call itself would display by. -/
theorem store_bind (hcheck : c.nodeValuesDisplayCheck = some check) (honly : c.onlySimpleTypes = false)
    (property : INodeProperties) (collection : CollectionCall) (s : CollectState)
    (next : CollectState → Except Failure INodeParameters)
    (rest : INodeParameters → Except Failure INodeParameters)
    (hnext : ∀ s, next s = rest s.nodeParameters) :
    (c.store property collection s >>= fun
      | none => .ok (c.nodeValues.getD [])
      | some s => next s) =
    (c.addition check (property, collection) >>= fun
      | none => .ok (c.nodeValues.getD [])
      | some none => rest s.nodeParameters
      | some (some value) => rest (setEntry property.name value s.nodeParameters)) := by
  have hroot : c.root s = c.nodeValuesRoot.getD check := by
    rw [CollectCall.root, CollectCall.displayCheck, hcheck, Option.getD_some]
  have hcollection : ∀ property : INodeProperties,
      ((do
        match ← collection c.flags (c.root s) (c.value property.name) with
        | .unset => .ok (some s)
        | .set value => .ok (some (s.set property.name value))
        | .setOnly value =>
          .ok (some { s with nodeParameters := setEntry property.name value s.nodeParameters })
        | .nodeValues => .ok none : Except Failure (Option CollectState)) >>= fun
          | none => .ok (c.nodeValues.getD [])
          | some s => next s) =
      ((do
        match ← collection c.flags (c.nodeValuesRoot.getD check) (c.value property.name) with
        | .unset => .ok (some none)
        | .set value => .ok (some (some value))
        | .setOnly value => .ok (some (some value))
        | .nodeValues => .ok none : Except Failure (Option (Option ParameterValue))) >>= fun
          | none => .ok (c.nodeValues.getD [])
          | some none => rest s.nodeParameters
          | some (some value) => rest (setEntry property.name value s.nodeParameters)) := by
    intro property
    rw [hroot]
    cases collection c.flags (c.nodeValuesRoot.getD check) (c.value property.name) with
    | error e => rfl
    | ok resolved =>
      cases resolved with
      | unset => simp only [ok_bind, hnext]
      | set value => simp only [ok_bind, hnext]; rfl
      | setOnly value => simp only [ok_bind, hnext]
      | nodeValues => rfl
  cases property with
  | simple name type default displayOptions =>
    simp only [CollectCall.store, CollectCall.addition]
    split_ifs
    · simp only [ok_bind, hnext]
      rfl
    · cases c.value name with
      | none => simp only [ok_bind, hnext, Option.filter_none]
      | some value =>
        cases hkept : isKept c.parentType default value with
        | false => simp only [ok_bind, hnext, hkept, Option.filter_some, Bool.false_eq_true, if_false]
        | true =>
          simp only [ok_bind, hnext, hkept, Option.filter_some, if_true]
          rfl
  | collection name default displayOptions multipleValues options =>
    simp only [CollectCall.store, CollectCall.addition, honly, Bool.false_eq_true, if_false]
    exact hcollection _
  | fixedCollection name default displayOptions multipleValues options =>
    simp only [CollectCall.store, CollectCall.addition, honly, Bool.false_eq_true, if_false]
    exact hcollection _

theorem visitAll_eq_collect (hcheck : c.nodeValuesDisplayCheck = some check)
    (hflags : c.flags.returnNoneDisplayed = false) (honly : c.onlySimpleTypes = false)
    (duplicateParameterNames : List String) (properties : List (INodeProperties × CollectionCall))
    (s : CollectState) :
    c.visitAll context duplicateParameterNames properties s =
      collect (c.adds context check) (c.nodeValues.getD []) properties s.nodeParameters := by
  induction properties generalizing s with
  | nil => rfl
  | cons p properties ih =>
    obtain ⟨property, collection⟩ := p
    have hshows : c.shows context duplicateParameterNames property s =
        CollectCall.isDisplayed context check c.nodeValuesRoot property := by
      simp only [CollectCall.shows, CollectCall.isDisplayed, CollectCall.root,
        CollectCall.displayCheck, hflags, hcheck, true_or, if_true, Option.getD_some]
    simp only [CollectCall.visitAll, collect, CollectCall.visit, CollectCall.adds, hshows]
    by_cases hskips : c.skips property.name = true
    · simp only [hskips, if_true, ok_bind, ih]
    · simp only [hskips, Bool.false_eq_true, if_false]
      cases CollectCall.isDisplayed context check c.nodeValuesRoot property with
      | error e => rfl
      | ok displayed =>
        cases displayed with
        | false => simp only [ok_bind, Bool.false_eq_true, if_false, ih]
        | true =>
          simp only [ok_bind, if_true]
          exact store_bind hcheck honly property collection s _ _ fun s => ih s

/-! ### The parameters in the end -/

variable {adds adds' : INodeProperties × CollectionCall → Except Failure (Option (Option ParameterValue))}
  {returned returned' parameters collected : INodeParameters}
  {properties : List (INodeProperties × CollectionCall)} {name : String} {value : ParameterValue}

/-- Properties that add the same, and none that ends the call. -/
theorem collect_congr (hadds : ∀ p ∈ properties, adds p = adds' p)
    (hreturns : ∀ p ∈ properties, adds' p ≠ .ok none) (parameters : INodeParameters) :
    collect adds returned properties parameters = collect adds' returned' properties parameters := by
  induction properties generalizing parameters with
  | nil => rfl
  | cons p properties ih =>
    have hrest := ih (fun q hq => hadds q (List.mem_cons_of_mem p hq))
      (fun q hq => hreturns q (List.mem_cons_of_mem p hq))
    rw [collect, collect, hadds p List.mem_cons_self]
    match hp : adds' p with
    | .error e => rfl
    | .ok none => exact absurd hp (hreturns p List.mem_cons_self)
    | .ok (some none) => exact hrest parameters
    | .ok (some (some value)) => exact hrest _

/-- A name whose properties add nothing but one value. -/
theorem collect_get (hok : collect adds returned properties parameters = .ok collected)
    (hreturns : ∀ p ∈ properties, adds p ≠ .ok none)
    (hname : ∀ p ∈ properties, p.1.name = name →
      adds p = .ok (some none) ∨ adds p = .ok (some (some value))) :
    (lookupEntry name collected = some value ∧
      ∃ p ∈ properties, p.1.name = name ∧ adds p = .ok (some (some value))) ∨
    (lookupEntry name collected = lookupEntry name parameters ∧
      ∀ p ∈ properties, p.1.name = name → adds p = .ok (some none)) := by
  induction properties generalizing parameters with
  | nil =>
    obtain rfl := Except.ok.inj hok
    exact Or.inr ⟨rfl, nofun⟩
  | cons p properties ih =>
    have hrest : ∀ parameters, collect adds returned properties parameters = .ok collected → _ :=
      fun parameters hok => ih hok (fun q hq => hreturns q (List.mem_cons_of_mem p hq))
        (fun q hq => hname q (List.mem_cons_of_mem p hq))
    rw [collect] at hok
    match hp : adds p with
    | .error e =>
      rw [hp] at hok
      cases hok
    | .ok none => exact absurd hp (hreturns p List.mem_cons_self)
    | .ok (some none) =>
      rw [hp] at hok
      rcases hrest parameters hok with ⟨hget, q, hq, hadds⟩ | ⟨hget, hnone⟩
      · exact Or.inl ⟨hget, q, List.mem_cons_of_mem p hq, hadds⟩
      · exact Or.inr ⟨hget, List.forall_mem_cons.mpr ⟨fun _ => hp, hnone⟩⟩
    | .ok (some (some v)) =>
      rw [hp] at hok
      by_cases hpname : p.1.name = name
      · have hv : v = value := by
          rcases hname p List.mem_cons_self hpname with hadds | hadds <;> rw [hp] at hadds
          · cases Except.ok.inj hadds
          · exact Option.some.inj (Option.some.inj (Except.ok.inj hadds))
        subst hv
        rcases hrest _ hok with ⟨hget, _⟩ | ⟨hget, _⟩
        · exact Or.inl ⟨hget, p, List.mem_cons_self, hpname, hp⟩
        · refine Or.inl ⟨hget.trans ?_, p, List.mem_cons_self, hpname, hp⟩
          rw [OrderedMap.lookupEntry_setEntry, if_pos hpname]
      · rcases hrest _ hok with ⟨hget, q, hq, hadds⟩ | ⟨hget, hnone⟩
        · exact Or.inl ⟨hget, q, List.mem_cons_of_mem p hq, hadds⟩
        · refine Or.inr ⟨hget.trans ?_, List.forall_mem_cons.mpr ⟨fun h => absurd h hpname, hnone⟩⟩
          rw [OrderedMap.lookupEntry_setEntry, if_neg hpname]

/-- A call that returns has met no error, and it has returned its node values if a property
says so. -/
theorem collect_ok (hok : collect adds returned properties parameters = .ok collected) :
    (collected = returned ∧ ∃ p ∈ properties, adds p = .ok none) ∨
      ∀ p ∈ properties, ∃ addition, adds p = .ok (some addition) := by
  induction properties generalizing parameters with
  | nil => exact Or.inr nofun
  | cons p properties ih =>
    rw [collect] at hok
    have hrest : ∀ addition parameters, adds p = .ok (some addition) →
        collect adds returned properties parameters = .ok collected →
        (collected = returned ∧ ∃ q ∈ p :: properties, adds q = .ok none) ∨
          ∀ q ∈ p :: properties, ∃ addition, adds q = .ok (some addition) := by
      intro addition parameters hp hok
      rcases ih hok with ⟨heq, q, hq, hnone⟩ | hall
      · exact Or.inl ⟨heq, q, List.mem_cons_of_mem p hq, hnone⟩
      · exact Or.inr (List.forall_mem_cons.mpr ⟨⟨addition, hp⟩, hall⟩)
    match hp : adds p with
    | .error e =>
      rw [hp] at hok
      cases hok
    | .ok none =>
      rw [hp] at hok
      exact Or.inl ⟨(Except.ok.inj hok).symm, p, List.mem_cons_self, hp⟩
    | .ok (some none) =>
      rw [hp] at hok
      exact hrest none parameters hp hok
    | .ok (some (some value)) =>
      rw [hp] at hok
      exact hrest (some value) _ hp hok

end Collect

/-! ### The values that display rules look at -/

section DisplayCheck
variable (context : NodeContext) (c : CollectCall) (duplicateParameterNames : List String)

/-- Whenever the call stores a value, `P` holds of the property. -/
def EveryStored (P : INodeProperties → Prop) :
    List (INodeProperties × CollectionCall) → CollectState → Prop
  | [], _ => True
  | (property, collection) :: properties, s =>
    (c.skips property.name = false →
      c.shows context duplicateParameterNames property s = .ok true → P property) ∧
    ∀ s', c.visit context duplicateParameterNames property collection s = .ok (some s') →
      EveryStored P properties s'

variable {context c duplicateParameterNames}

theorem visitAll_congr {c' : CollectCall} {P : INodeProperties → Prop}
    {properties : List (INodeProperties × CollectionCall)} {s : CollectState}
    {collected : INodeParameters}
    (hok : c.visitAll context duplicateParameterNames properties s = .ok collected)
    (hstored : EveryStored context c duplicateParameterNames P properties s)
    (hreturns : ∀ p ∈ properties, ∀ s,
      c.visit context duplicateParameterNames p.1 p.2 s ≠ .ok none)
    (hvisit : ∀ p ∈ properties, ∀ s s',
      c.visit context duplicateParameterNames p.1 p.2 s = .ok (some s') →
      (c.skips p.1.name = false →
        c.shows context duplicateParameterNames p.1 s = .ok true → P p.1) →
      c'.visit context duplicateParameterNames p.1 p.2 s = .ok (some s')) :
    c'.visitAll context duplicateParameterNames properties s = .ok collected := by
  induction properties generalizing s with
  | nil => exact hok
  | cons p properties ih =>
    rw [CollectCall.visitAll] at hok ⊢
    match hp : c.visit context duplicateParameterNames p.1 p.2 s with
    | .error e =>
      rw [hp] at hok
      cases hok
    | .ok none => exact absurd hp (hreturns p List.mem_cons_self s)
    | .ok (some s') =>
      rw [hp] at hok
      rw [hvisit p List.mem_cons_self s s' hp hstored.1]
      exact ih hok (hstored.2 s' hp) (fun q hq => hreturns q (List.mem_cons_of_mem p hq))
        fun q hq => hvisit q (List.mem_cons_of_mem p hq)

end DisplayCheck
end N8n
