import N8n.NodeHelpers.DroppedDefaults

/-!
# Restored parameters are those of before
-/

namespace N8n

open OrderedMap (lookupEntry setEntry)
open FoldM

section Level
variable {context : NodeContext}

/-- What is kept of a collection gives with defaults what the collection gives. -/
def CollectionRoundTrips (call : CollectionCall) (root : INodeParameters)
    (parentType : Option ParentType) (value : ParameterValue) : Prop :=
  ∀ resolved, call withoutDefaults root (some value) = .ok resolved →
    match resolved with
    | .unset => parentType ≠ some .collection ∧
        call withDefaults root none = call withDefaults root (some value)
    | .set kept => call withDefaults root (some kept) = call withDefaults root (some value)
    | .setOnly kept => call withDefaults root (some kept) = call withDefaults root (some value)
    | .nodeValues => True

def RoundTrips (call : PropertiesCall) (root : Option INodeParameters)
    (parentType : Option ParentType) (values : Option INodeParameters) : Prop :=
  ∀ kept, call withoutDefaults root parentType values = .ok kept →
    call withDefaults root parentType (some kept) = call withDefaults root parentType values

theorem mem_collectionCalls {properties : List INodeProperties}
    {p : INodeProperties × CollectionCall} (h : p ∈ collectionCalls context properties) :
    p.1 ∈ properties ∧ p.2 = collectionCall context p.1 := by
  induction properties with
  | nil => cases h
  | cons property properties ih =>
    rw [collectionCalls] at h
    rcases List.mem_cons.mp h with rfl | h
    · exact ⟨List.mem_cons_self, rfl⟩
    · exact ⟨List.mem_cons_of_mem _ (ih h).1, (ih h).2⟩

theorem collectionCalls_fst (properties : List INodeProperties) :
    (collectionCalls context properties).map (·.1) = properties := by
  induction properties with
  | nil => rfl
  | cons property properties ih => rw [collectionCalls, List.map_cons, ih]

theorem mem_of_inResolveOrder {properties ordered : List (INodeProperties × CollectionCall)}
    (h : inResolveOrder properties = .ok ordered) {p : INodeProperties × CollectionCall}
    (hp : p ∈ ordered) : p ∈ properties := by
  obtain ⟨order, _, hok⟩ := bind_eq_ok.mp h
  obtain rfl := Except.ok.inj hok
  obtain ⟨index, _, hindex⟩ := List.mem_filterMap.mp hp
  exact List.mem_of_getElem? hindex

theorem propertiesCall_eq {properties : List INodeProperties} {root : Option INodeParameters}
    {parentType : Option ParentType} {values : INodeParameters}
    {ordered : List (INodeProperties × CollectionCall)} {check : INodeParameters}
    (hpass : FirstPass context properties root parentType values ordered check)
    {flags : ReturnFlags} (hflags : flags.returnNoneDisplayed = false) :
    propertiesCall context (collectionCalls context properties) flags root parentType (some values) =
      collect (CollectCall.adds context ⟨flags, false, some values, parentType, some check, root⟩ check)
        values ordered [] := by
  rw [propertiesCall, getPropertiesParameters, hpass.order, ok_bind, hflags]
  simp only [Bool.false_eq_true, if_false, hpass.check, Functor.map, Except.map, ok_bind]
  exact visitAll_eq_collect rfl hflags rfl _ _ _

/-- A call that returns has made the first pass. -/
theorem exists_firstPass {properties : List INodeProperties} {root : Option INodeParameters}
    {parentType : Option ParentType} {values kept : INodeParameters}
    (hok : propertiesCall context (collectionCalls context properties) withoutDefaults root
      parentType (some values) = .ok kept) :
    ∃ ordered check, FirstPass context properties root parentType values ordered check := by
  rw [propertiesCall, getPropertiesParameters] at hok
  obtain ⟨ordered, hordered, hok⟩ := bind_eq_ok.mp hok
  simp only [withoutDefaults, Bool.false_eq_true, if_false] at hok
  obtain ⟨_, hcheck, _⟩ := bind_eq_ok.mp hok
  obtain ⟨check, hcheck, _⟩ := map_eq_ok.mp hcheck
  exact ⟨ordered, check, hordered, hcheck⟩

/-! ### What is kept under one name -/

/-- What the properties add to a call for the values. -/
def addsFor (context : NodeContext) (flags : ReturnFlags) (check : INodeParameters)
    (root : Option INodeParameters) (parentType : Option ParentType) (values : INodeParameters) :
    INodeProperties × CollectionCall → Except Failure (Option (Option ParameterValue)) :=
  CollectCall.adds context ⟨flags, false, some values, parentType, some check, root⟩ check

section Kept
variable {check : INodeParameters} {root : Option INodeParameters} {parentType : Option ParentType}
  {values kept : INodeParameters} {ordered : List (INodeProperties × CollectionCall)}
  {p : INodeProperties × CollectionCall} {name : String} {value : ParameterValue}

theorem addsFor_of_none (h : lookupEntry p.1.name values = none) :
    addsFor context withoutDefaults check root parentType values p = .ok (some none) := by
  simp [addsFor, CollectCall.adds, CollectCall.skips, CollectCall.value, withoutDefaults, h]

theorem addsFor_of_some {flags : ReturnFlags} (h : lookupEntry p.1.name values = some value) :
    addsFor context flags check root parentType values p = (do
      if ← CollectCall.isDisplayed context check root p.1 then
        CollectCall.addition ⟨flags, false, some values, parentType, some check, root⟩ check p
      else .ok (some none)) := by
  simp [addsFor, CollectCall.adds, CollectCall.skips, CollectCall.value, h]

/-- A property with a value is displayed or not when the call returns. -/
theorem isDisplayed_ok (h : lookupEntry p.1.name values = some value)
    {addition : Option ParameterValue}
    (hadds : addsFor context withoutDefaults check root parentType values p = .ok (some addition)) :
    CollectCall.isDisplayed context check root p.1 = .ok false ∨ Shown context check root p.1 := by
  rw [addsFor_of_some h] at hadds
  obtain ⟨displayed, hdisplayed, _⟩ := bind_eq_ok.mp hadds
  cases displayed with
  | false => exact Or.inl hdisplayed
  | true => exact Or.inr hdisplayed

theorem addsFor_of_hidden {flags : ReturnFlags} (h : lookupEntry p.1.name values = some value)
    (hhidden : CollectCall.isDisplayed context check root p.1 = .ok false) :
    addsFor context flags check root parentType values p = .ok (some none) := by
  rw [addsFor_of_some h, hhidden]
  rfl

theorem addsFor_of_shown {flags : ReturnFlags} (h : lookupEntry p.1.name values = some value)
    (hshown : Shown context check root p.1) :
    addsFor context flags check root parentType values p =
      CollectCall.addition ⟨flags, false, some values, parentType, some check, root⟩ check p := by
  rw [addsFor_of_some h, hshown]
  rfl

/-- The loop of a call without defaults that has not returned its node values. -/
structure Dropped (context : NodeContext) (check : INodeParameters) (root : Option INodeParameters)
    (parentType : Option ParentType) (values : INodeParameters)
    (ordered : List (INodeProperties × CollectionCall)) (kept : INodeParameters) : Prop where
  collect : collect (addsFor context withoutDefaults check root parentType values) values ordered []
    = .ok kept
  adds : ∀ p ∈ ordered, ∃ addition,
    addsFor context withoutDefaults check root parentType values p = .ok (some addition)

theorem Dropped.get (h : Dropped context check root parentType values ordered kept)
    (hname : ∀ p ∈ ordered, p.1.name = name →
      addsFor context withoutDefaults check root parentType values p = .ok (some none) ∨
      addsFor context withoutDefaults check root parentType values p = .ok (some (some value))) :
    (lookupEntry name kept = some value ∧ ∃ p ∈ ordered, p.1.name = name ∧
      addsFor context withoutDefaults check root parentType values p = .ok (some (some value))) ∨
    (lookupEntry name kept = none ∧ ∀ p ∈ ordered, p.1.name = name →
      addsFor context withoutDefaults check root parentType values p = .ok (some none)) := by
  refine collect_get h.collect (fun p hp hnone => ?_) hname
  obtain ⟨addition, hadds⟩ := h.adds p hp
  rw [hadds] at hnone
  cases Except.ok.inj hnone

theorem Dropped.get_of_none (h : Dropped context check root parentType values ordered kept)
    (hvalue : lookupEntry name values = none) : lookupEntry name kept = none := by
  have hname : ∀ p ∈ ordered, p.1.name = name →
      addsFor context withoutDefaults check root parentType values p = .ok (some none) := by
    rintro p _ rfl
    exact addsFor_of_none hvalue
  rcases h.get fun p hp hn => (Or.inl (hname p hp hn) :
      _ ∨ _ = Except.ok (some (some ParameterValue.null))) with
    ⟨_, p, hp, hn, hadds⟩ | ⟨hget, _⟩
  · rw [hname p hp hn] at hadds
    cases Option.some.inj (Except.ok.inj hadds)
  · exact hget

theorem addition_simple {type : SimpleType} {default : ParameterValue}
    {displayOptions : Option IDisplayOptions} {collection : CollectionCall}
    (hvalue : lookupEntry name values = some value) :
    CollectCall.addition ⟨withoutDefaults, false, some values, parentType, some check, root⟩ check
      (.simple name type default displayOptions, collection) =
      .ok (some (if isKept parentType default value then some value else none)) := by
  simp only [CollectCall.addition, CollectCall.value, withoutDefaults, Bool.false_eq_true, if_false,
    Option.bind_some, hvalue, Option.filter_some]

theorem Dropped.get_simple (h : Dropped context check root parentType values ordered kept)
    {type : SimpleType} {default : ParameterValue} {displayOptions : Option IDisplayOptions}
    (hrestored : SimpleRestored context ordered check root parentType values
      (.simple name type default displayOptions))
    (hvalue : lookupEntry name values = some value) :
    lookupEntry name kept = some value ∨ (lookupEntry name kept = none ∧
      parentType ≠ some .collection ∧
      simpleValue type default none = simpleValue type default (some value)) := by
  obtain ⟨hsimple, hkept⟩ := hrestored value hvalue
  have hadds : ∀ p ∈ ordered, p.1.name = name → Shown context check root p.1 →
      addsFor context withoutDefaults check root parentType values p =
        .ok (some (if keepsSimple parentType p.1 value then some value else none)) := by
    rintro ⟨property, collection⟩ hp rfl hshown
    rw [addsFor_of_shown hvalue hshown]
    cases property with
    | simple name type default displayOptions => exact addition_simple hvalue
    | collection => cases hsimple _ hp rfl hshown
    | fixedCollection => cases hsimple _ hp rfl hshown
  have hname : ∀ p ∈ ordered, p.1.name = name →
      addsFor context withoutDefaults check root parentType values p = .ok (some none) ∨
      addsFor context withoutDefaults check root parentType values p = .ok (some (some value)) := by
    intro p hp hn
    obtain ⟨addition, haddition⟩ := h.adds p hp
    rcases isDisplayed_ok (hn ▸ hvalue) haddition with hhidden | hshown
    · exact Or.inl (addsFor_of_hidden (hn ▸ hvalue) hhidden)
    · rw [hadds p hp hn hshown]
      split_ifs
      · exact Or.inr rfl
      · exact Or.inl rfl
  rcases h.get hname with ⟨hget, _⟩ | ⟨hget, hnone⟩
  · exact Or.inl hget
  · refine Or.inr ⟨hget, hkept.resolve_left ?_⟩
    rintro ⟨q, hq, hn, hshown, hkeeps⟩
    have hnoneq := hnone q hq hn
    rw [hadds q hq hn hshown, hkeeps] at hnoneq
    cases Option.some.inj (Except.ok.inj hnoneq)

theorem Dropped.get_collection (h : Dropped context check root parentType values ordered kept)
    (hshown : Shown context check root p.1)
    (hvalue : lookupEntry p.1.name values = some value) (hp : p ∈ ordered)
    (halone : ∀ q ∈ ordered, Shown context check root q.1 → q.1.name = p.1.name → q = p)
    {addition : Option ParameterValue}
    (hadds : addsFor context withoutDefaults check root parentType values p = .ok (some addition)) :
    lookupEntry p.1.name kept = addition := by
  have hname : ∀ q ∈ ordered, q.1.name = p.1.name → q = p ∨
      addsFor context withoutDefaults check root parentType values q = .ok (some none) := by
    intro q hq hn
    obtain ⟨_, hadditionq⟩ := h.adds q hq
    rcases isDisplayed_ok (hn ▸ hvalue) hadditionq with hhidden | hshownq
    · exact Or.inr (addsFor_of_hidden (hn ▸ hvalue) hhidden)
    · exact Or.inl (halone q hq hshownq hn)
  cases addition with
  | none =>
    have hnone : ∀ q ∈ ordered, q.1.name = p.1.name →
        addsFor context withoutDefaults check root parentType values q = .ok (some none) := by
      intro q hq hn
      rcases hname q hq hn with rfl | hnone
      · exact hadds
      · exact hnone
    rcases h.get fun q hq hn => (Or.inl (hnone q hq hn) :
        _ ∨ _ = Except.ok (some (some ParameterValue.null))) with
      ⟨_, q, hq, hn, hsome⟩ | ⟨hget, _⟩
    · rw [hnone q hq hn] at hsome
      cases Option.some.inj (Except.ok.inj hsome)
    · exact hget
  | some kept =>
    have hsome : ∀ q ∈ ordered, q.1.name = p.1.name →
        addsFor context withoutDefaults check root parentType values q = .ok (some none) ∨
        addsFor context withoutDefaults check root parentType values q = .ok (some (some kept)) := by
      intro q hq hn
      rcases hname q hq hn with rfl | hnone
      · exact Or.inr hadds
      · exact Or.inl hnone
    rcases h.get hsome with ⟨hget, _⟩ | ⟨_, hnone⟩
    · exact hget
    · rw [hnone p hp rfl] at hadds
      cases Option.some.inj (Except.ok.inj hadds)

theorem addsFor_congr {flags : ReturnFlags} {values' : INodeParameters}
    (h : lookupEntry p.1.name values' = lookupEntry p.1.name values) :
    addsFor context flags check root parentType values' p =
      addsFor context flags check root parentType values p := by
  obtain ⟨property, collection⟩ := p
  cases property <;>
    simp only [addsFor, CollectCall.adds, CollectCall.skips, CollectCall.addition,
      CollectCall.value, Option.bind_some, INodeProperties.name] at h ⊢ <;>
    simp only [h, Option.isNone_some] <;> rfl

/-- With defaults a property without a value is not left out, outside of a collection. -/
theorem addsFor_withDefaults (hparent : parentType ≠ some .collection)
    (hshown : Shown context check root p.1) :
    addsFor context withDefaults check root parentType values p =
      CollectCall.addition ⟨withDefaults, false, some values, parentType, some check, root⟩ check
        p := by
  have hskips : CollectCall.skips ⟨withDefaults, false, some values, parentType, some check, root⟩
      p.1.name = false := by
    simp [CollectCall.skips, withDefaults, hparent]
  rw [addsFor, CollectCall.adds, hskips, hshown]
  rfl

theorem addsFor_hidden {flags : ReturnFlags}
    (hhidden : CollectCall.isDisplayed context check root p.1 = .ok false) :
    addsFor context flags check root parentType values p = .ok (some none) := by
  rw [addsFor, CollectCall.adds, hhidden]
  simp only [ok_bind, Bool.false_eq_true, if_false, ite_self]

/-! ### One list of properties -/

theorem displayCheckCall_skips (property : INodeProperties) (values : INodeParameters) :
    (displayCheckCall root parentType (some values)).skips property.name =
      ((lookupEntry property.name values).isNone && decide (parentType = some .collection)) := by
  simp only [CollectCall.skips, displayCheckCall, CollectCall.value, Option.isNone_some,
    Option.bind_some, Bool.false_or, Bool.not_true]
  rfl

theorem displayCheckCall_visit_congr {values' : INodeParameters} {property : INodeProperties}
    (h : lookupEntry property.name values' = lookupEntry property.name values)
    (duplicateParameterNames : List String) (collection : CollectionCall) (s : CollectState) :
    (displayCheckCall root parentType (some values')).visit context duplicateParameterNames property
      collection s =
    (displayCheckCall root parentType (some values)).visit context duplicateParameterNames property
      collection s := by
  rw [CollectCall.visit, CollectCall.visit, displayCheckCall_skips, displayCheckCall_skips, h]
  cases property with
  | simple name type default displayOptions =>
    have hstore : ∀ values, (displayCheckCall root parentType (some values)).store
        (.simple name type default displayOptions) collection s =
        .ok (some (s.set name (simpleValue type default (lookupEntry name values)))) :=
      fun _ => rfl
    rw [hstore, hstore, ← INodeProperties.name.eq_1 name type default displayOptions, h]
    rfl
  | collection => rfl
  | fixedCollection => rfl

/-- While the values that display rules look at are filled in, a visit finds the same. -/
theorem Dropped.visit (h : Dropped context check root parentType values ordered kept)
    (duplicateParameterNames : List String) (property : INodeProperties)
    (collection : CollectionCall) {s s' : CollectState}
    (hvisit : (displayCheckCall root parentType (some values)).visit context
      duplicateParameterNames property collection s = .ok (some s'))
    (hrestored : (displayCheckCall root parentType (some values)).skips property.name = false →
      (displayCheckCall root parentType (some values)).shows context duplicateParameterNames
        property s = .ok true → SimpleRestored context ordered check root parentType values property) :
    (displayCheckCall root parentType (some kept)).visit context duplicateParameterNames property
      collection s = .ok (some s') := by
  cases hvalue : lookupEntry property.name values with
  | none =>
    rw [displayCheckCall_visit_congr ((h.get_of_none hvalue).trans hvalue.symm)]
    exact hvisit
  | some value =>
    have hskips : (displayCheckCall root parentType (some values)).skips property.name = false := by
      rw [displayCheckCall_skips, hvalue]
      rfl
    have hvisited := hvisit
    rw [CollectCall.visit, hskips] at hvisited
    obtain ⟨displayed, hdisplayed, hstore⟩ := bind_eq_ok.mp hvisited
    -- the rules are looked up the same way, whatever the values are
    have hshows : (displayCheckCall root parentType (some kept)).shows context
        duplicateParameterNames property s = .ok displayed := hdisplayed
    cases displayed with
    | false =>
      rw [CollectCall.visit, hshows, ok_bind, if_neg Bool.false_ne_true, ite_self]
      exact hstore
    | true =>
      rw [if_pos rfl] at hstore
      cases property with
      | collection =>
        rw [CollectCall.visit, hshows, ok_bind, if_pos rfl, ← hstore]
        exact ite_self _
      | fixedCollection =>
        rw [CollectCall.visit, hshows, ok_bind, if_pos rfl, ← hstore]
        exact ite_self _
      | simple name type default displayOptions =>
        rcases h.get_simple (hrestored hskips hdisplayed) hvalue with hget | ⟨hget, hparent, heq⟩
        · have hsame := hget.trans hvalue.symm
          rw [displayCheckCall_visit_congr
            (show lookupEntry (INodeProperties.simple name type default displayOptions).name kept = _
              from hsame)]
          exact hvisit
        · have hkept : (displayCheckCall root parentType (some kept)).skips name = false := by
            simp [displayCheckCall, CollectCall.skips, hparent]
          rw [CollectCall.visit, INodeProperties.name, hkept, hshows, ← hstore]
          simp only [CollectCall.store, displayCheckCall, CollectCall.value, Option.bind_some,
            INodeProperties.name, if_true] at hget hvalue ⊢
          rw [hget, hvalue, heq]
          rfl

theorem Dropped.firstPass {properties : List INodeProperties}
    (h : Dropped context check root parentType values ordered kept)
    (hpass : FirstPass context properties root parentType values ordered check)
    (hstored : EveryStored context (displayCheckCall root parentType (some values))
      (duplicateNames properties) (SimpleRestored context ordered check root parentType values)
      ordered ⟨[], []⟩) :
    FirstPass context properties root parentType kept ordered check := by
  refine ⟨hpass.order, ?_⟩
  have hok := hpass.check
  rw [displayCheckValues, collectionCalls_fst] at hok ⊢
  refine visitAll_congr hok hstored (fun p _ s hnone => ?_)
    fun p _ s s' => h.visit _ p.1 p.2
  rw [CollectCall.visit] at hnone
  split_ifs at hnone
  · cases Except.ok.inj hnone
  · obtain ⟨displayed, _, hstore⟩ := bind_eq_ok.mp hnone
    cases displayed with
    | false => cases Except.ok.inj hstore
    | true =>
      rw [if_pos rfl] at hstore
      cases hproperty : p.1 <;> rw [hproperty] at hstore <;> cases Except.ok.inj hstore

/-- A collection gives no node values when defaults are asked for. -/
theorem collectionCall_ne_nodeValues (property : INodeProperties) (root : INodeParameters)
    (value : Option ParameterValue) :
    collectionCall context property withDefaults root value ≠ .ok .nodeValues := by
  intro h
  cases property with
  | simple => cases Except.ok.inj h
  | collection name default displayOptions multipleValues options =>
    simp only [collectionCall, collectionValue] at h
    cases value with
    | none =>
      simp only [withDefaults, Bool.true_eq_false, if_false] at h
      split_ifs at h
      · cases default <;> cases Except.ok.inj h
      · cases Except.ok.inj h
    | some value =>
      simp only at h
      split_ifs at h
      · cases Except.ok.inj h
      · obtain ⟨_, _, h⟩ := bind_eq_ok.mp h
        cases Except.ok.inj h
  | fixedCollection name default displayOptions multipleValues options =>
    simp only [collectionCall, fixedCollectionValue, withDefaults, Bool.true_eq_false, false_and,
      if_false, or_true, if_true] at h
    split_ifs at h <;> obtain ⟨_, _, h⟩ := bind_eq_ok.mp h <;> cases Except.ok.inj h

/-- What a collection adds. -/
theorem addition_collection {flags : ReturnFlags} (hsimple : p.1.isSimple = false) :
    CollectCall.addition ⟨flags, false, some values, parentType, some check, root⟩ check p = (do
      match ← p.2 flags (root.getD check) (lookupEntry p.1.name values) with
      | .unset => .ok (some none)
      | .set value => .ok (some (some value))
      | .setOnly value => .ok (some (some value))
      | .nodeValues => .ok none) := by
  obtain ⟨property, collection⟩ := p
  cases property with
  | simple => cases hsimple
  | collection => rfl
  | fixedCollection => rfl

theorem Dropped.adds_simple (h : Dropped context check root parentType values ordered kept)
    (hshown : Shown context check root p.1)
    (hvalue : lookupEntry p.1.name values = some value) (hsimple : p.1.isSimple = true)
    (hrestored : SimpleRestored context ordered check root parentType values p.1) :
    addsFor context withDefaults check root parentType kept p =
      addsFor context withDefaults check root parentType values p := by
  obtain ⟨property, collection⟩ := p
  cases property with
  | collection => cases hsimple
  | fixedCollection => cases hsimple
  | simple name type default displayOptions =>
    rcases h.get_simple hrestored hvalue with hget | ⟨hget, hparent, heq⟩
    · have hsame := hget.trans hvalue.symm
      exact addsFor_congr (p := (.simple name type default displayOptions, collection)) hsame
    · have hlookup : lookupEntry name values = some value := hvalue
      rw [addsFor_withDefaults hparent hshown, addsFor_withDefaults hparent hshown]
      simp only [CollectCall.addition, withDefaults, if_true, CollectCall.value, Option.bind_some,
        hget, hlookup, heq]

theorem Dropped.adds_collection (h : Dropped context check root parentType values ordered kept)
    (hp : p ∈ ordered) (hshown : Shown context check root p.1)
    (hvalue : lookupEntry p.1.name values = some value) (hsimple : p.1.isSimple = false)
    (halone : ∀ q ∈ ordered, Shown context check root q.1 → q.1.name = p.1.name → q = p)
    (htrip : CollectionRoundTrips p.2 (root.getD check) parentType value) :
    addsFor context withDefaults check root parentType kept p =
      addsFor context withDefaults check root parentType values p := by
  obtain ⟨addition, hadds⟩ := h.adds p hp
  have hget := h.get_collection hshown hvalue hp halone hadds
  have hset : ∀ kept', lookupEntry p.1.name kept = some kept' →
      p.2 withDefaults (root.getD check) (some kept') =
        p.2 withDefaults (root.getD check) (some value) →
      addsFor context withDefaults check root parentType kept p =
        addsFor context withDefaults check root parentType values p := by
    intro kept' hkept hcall
    rw [addsFor_of_shown hkept hshown, addsFor_of_shown hvalue hshown,
      addition_collection hsimple, addition_collection hsimple, hkept, hvalue, hcall]
  rw [addsFor_of_shown hvalue hshown, addition_collection hsimple, hvalue] at hadds
  obtain ⟨resolved, hresolved, hadds⟩ := bind_eq_ok.mp hadds
  have hround := htrip resolved hresolved
  cases resolved with
  | unset =>
    obtain rfl := Option.some.inj (Except.ok.inj hadds)
    obtain ⟨hparent, hcall⟩ := hround
    rw [addsFor_withDefaults hparent hshown, addsFor_withDefaults hparent hshown,
      addition_collection hsimple, addition_collection hsimple, hget, hvalue, hcall]
  | set kept' =>
    obtain rfl := Option.some.inj (Except.ok.inj hadds)
    exact hset kept' hget hround
  | setOnly kept' =>
    obtain rfl := Option.some.inj (Except.ok.inj hadds)
    exact hset kept' hget hround
  | nodeValues => cases Except.ok.inj hadds

theorem adds_ne_return {properties : List INodeProperties}
    (hpass : FirstPass context properties root parentType values ordered check)
    (hp : p ∈ ordered) : addsFor context withDefaults check root parentType values p ≠ .ok none := by
  have hcall := (mem_collectionCalls (mem_of_inResolveOrder hpass.order hp)).2
  intro hadds
  rw [addsFor, CollectCall.adds] at hadds
  split_ifs at hadds
  · cases Except.ok.inj hadds
  · obtain ⟨displayed, _, hadds⟩ := bind_eq_ok.mp hadds
    cases displayed with
    | false => cases Except.ok.inj hadds
    | true =>
      rw [if_pos rfl] at hadds
      cases hsimple : p.1.isSimple with
      | false =>
        rw [addition_collection hsimple, hcall] at hadds
        obtain ⟨resolved, hresolved, hadds⟩ := bind_eq_ok.mp hadds
        cases resolved with
        | nodeValues => exact collectionCall_ne_nodeValues _ _ _ hresolved
        | unset => cases Except.ok.inj hadds
        | set => cases Except.ok.inj hadds
        | setOnly => cases Except.ok.inj hadds
      | true =>
        obtain ⟨property, collection⟩ := p
        cases property with
        | simple => cases Except.ok.inj hadds
        | collection => cases hsimple
        | fixedCollection => cases hsimple

end Kept

theorem ParametersRestored.roundTrips {properties : List INodeProperties}
    {root : Option INodeParameters} {parentType : Option ParentType}
    {values : Option INodeParameters}
    (hrestored : ParametersRestored context properties root parentType values)
    (hcollections : ∀ p ∈ properties, ∀ root parentType value,
      CollectionRestored context p root parentType value →
      CollectionRoundTrips (collectionCall context p) root parentType value) :
    RoundTrips (propertiesCall context (collectionCalls context properties)) root parentType
      values := by
  intro kept hok
  obtain ⟨hstored, hsimple, halone, hcollection⟩ := hrestored
  rename_i values
  obtain ⟨ordered, check, hpass⟩ := exists_firstPass hok
  rw [propertiesCall_eq hpass rfl] at hok
  rcases collect_ok hok with ⟨rfl, _⟩ | hadds
  · rfl
  have h : Dropped context check root parentType values ordered kept := ⟨hok, hadds⟩
  rw [propertiesCall_eq (h.firstPass hpass (hstored _ _ hpass)) rfl, propertiesCall_eq hpass rfl]
  refine collect_congr (fun p hp => ?_) (fun p hp => adds_ne_return hpass hp) []
  obtain ⟨hmem, hcall⟩ := mem_collectionCalls (mem_of_inResolveOrder hpass.order hp)
  change addsFor context withDefaults check root parentType kept p =
    addsFor context withDefaults check root parentType values p
  cases hvalue : lookupEntry p.1.name values with
  | none => exact addsFor_congr ((h.get_of_none hvalue).trans hvalue.symm)
  | some value =>
    obtain ⟨addition, haddition⟩ := hadds p hp
    rcases isDisplayed_ok hvalue haddition with hhidden | hshown
    · rw [addsFor_hidden hhidden, addsFor_hidden hhidden]
    · cases hp1 : p.1.isSimple with
      | true => exact h.adds_simple hshown hvalue hp1 (hsimple _ _ hpass p hp hshown)
      | false =>
        refine h.adds_collection hp hshown hvalue hp1
          (fun q hq => halone _ _ hpass p hp q hq hp1 hshown) ?_
        rw [hcall]
        exact hcollections p.1 hmem _ _ _ (hcollection _ _ hpass p hp hshown hp1 value hvalue)

end Level
end N8n
