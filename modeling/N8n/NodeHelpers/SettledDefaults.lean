import N8n.NodeHelpers.RestoredCollections

/-!
# Defaults that are filled in again

A call with defaults for what such a call has returned. The first call lets display rules look
at the values of hidden properties, and returns without them, so the second call may display
something else. Where it displays the same, it returns the same.
-/

namespace N8n

open OrderedMap (lookupEntry setEntry mem_of_lookupEntry)
open FoldM

section Conditions
variable (context : NodeContext)

/-- Whatever is not left out for want of a value is displayed or not as before. -/
def SameDisplay (ordered : List (INodeProperties × CollectionCall)) (parentType : Option ParentType)
    (parameters check check' : INodeParameters) (root root' : Option INodeParameters) : Prop :=
  ∀ p ∈ ordered, (parentType = some .collection → lookupEntry p.1.name parameters ≠ none) →
    CollectCall.isDisplayed context check' root' p.1 =
      CollectCall.isDisplayed context check root p.1

mutual

/-- What a collection gives for the value is what it gives for that again, with another root. -/
inductive CollectionSettled :
    INodeProperties → INodeParameters → INodeParameters → Option ParameterValue → Prop
  | values {name default displayOptions options root root' value} :
    CollectionSettled (.collection name default displayOptions (some true) options) root root' value
  | collection {name default displayOptions multipleValues options root root' value}
    (hsettled : ParametersSettled options (some root) (some root') (some .collection)
      value.asParameters) :
    CollectionSettled (.collection name default displayOptions multipleValues options) root root'
      (some value)
  | default {name default displayOptions multipleValues options root root'}
    (hdefault : collectionCall context
      (.collection name default displayOptions multipleValues options) withDefaults root'
      (some default) = .ok (.set default)) :
    CollectionSettled (.collection name default displayOptions multipleValues options) root root'
      none
  | multiple {name default displayOptions options root root' value}
    (hsettled : ∀ e ∈ (Option.getD value default).entries, ∀ values items item,
      lookupEntry e.1 options = some values → e.2.items = .ok items → item ∈ items →
      ParametersSettled values (some root) (some root') (some .fixedCollection) item.asParameters) :
    CollectionSettled (.fixedCollection name default displayOptions (some true) options) root root'
      value
  | single {name default displayOptions multipleValues options root root' value}
    (hmultiple : multipleValues ≠ some true)
    (hsettled : ∀ e ∈ value.entries, ∀ values, lookupEntry e.1 options = some values →
      ParametersSettled values (some root) (some root') (some .fixedCollection) e.2.asParameters) :
    CollectionSettled (.fixedCollection name default displayOptions multipleValues options) root
      root' (some value)
  | unset {name default displayOptions multipleValues options root root'}
    (hmultiple : multipleValues ≠ some true) :
    CollectionSettled (.fixedCollection name default displayOptions multipleValues options) root
      root' none

/-- The second call displays what the first one does, at every depth. -/
inductive ParametersSettled : List INodeProperties → Option INodeParameters →
    Option INodeParameters → Option ParentType → Option INodeParameters → Prop
  | nothing {properties root root' parentType}
    (hempty : parentType ≠ some .collection →
      propertiesCall context (collectionCalls context properties) withDefaults root' parentType
        (some []) = .ok []) :
    ParametersSettled properties root root' parentType none
  | intro {properties root root' parentType values ordered check parameters check'}
    (hpass : FirstPass context properties root parentType values ordered check)
    (hcall : propertiesCall context (collectionCalls context properties) withDefaults root
      parentType (some values) = .ok parameters)
    (hpass' : FirstPass context properties root' parentType parameters ordered check')
    (hdisplay : SameDisplay context ordered parentType parameters check check' root root')
    (halone : ∀ p ∈ ordered, ∀ q ∈ ordered, p.1.isSimple = false → Shown context check root p.1 →
      Shown context check root q.1 → q.1.name = p.1.name → q = p)
    (hcollection : ∀ p ∈ ordered, p.1.isSimple = false → Shown context check root p.1 →
      (parentType = some .collection → lookupEntry p.1.name values ≠ none) →
      CollectionSettled p.1 (root.getD check) (root'.getD check') (lookupEntry p.1.name values)) :
    ParametersSettled properties root root' parentType (some values)

end

end Conditions

/-! ### Collecting again -/

section Collect
variable {adds adds' : INodeProperties × CollectionCall → Except Failure (Option (Option ParameterValue))}
  {returned returned' parameters parameters' collected : INodeParameters}
  {properties : List (INodeProperties × CollectionCall)} {name : String} {value : ParameterValue}

/-- Nothing more is added under the name. -/
theorem collect_get_of_none (hok : collect adds returned properties parameters = .ok collected)
    (hreturns : ∀ p ∈ properties, adds p ≠ .ok none)
    (hnone : ∀ p ∈ properties, p.1.name = name → adds p = .ok (some none)) :
    lookupEntry name collected = lookupEntry name parameters := by
  have hadded : ∀ p ∈ properties, p.1.name = name →
      adds p = .ok (some none) ∨ adds p = .ok (some (some .null)) :=
    fun p hp hname => Or.inl (hnone p hp hname)
  rcases collect_get hok hreturns hadded with ⟨_, p, hp, hname, hadds⟩ | ⟨hget, _⟩
  · rw [hnone p hp hname] at hadds
    cases Option.some.inj (Except.ok.inj hadds)
  · exact hget

/-- Something is added under the name, in this or in one of the next rounds. -/
theorem collect_get_of_some (hok : collect adds returned properties parameters = .ok collected)
    (hreturns : ∀ p ∈ properties, adds p ≠ .ok none)
    (hsome : lookupEntry name parameters ≠ none ∨
      ∃ p ∈ properties, p.1.name = name ∧ ∃ value, adds p = .ok (some (some value))) :
    lookupEntry name collected ≠ none := by
  induction properties generalizing parameters with
  | nil =>
    obtain rfl := Except.ok.inj hok
    rcases hsome with hsome | ⟨p, hp, _⟩
    · exact hsome
    · cases hp
  | cons p properties ih =>
    have hrest := fun q hq => hreturns q (List.mem_cons_of_mem p hq)
    rw [collect] at hok
    rcases hp : adds p with e | _ | _ | value
    · rw [hp] at hok
      cases hok
    · exact absurd hp (hreturns p List.mem_cons_self)
    · rw [hp] at hok
      refine ih hok hrest ?_
      rcases hsome with hsome | ⟨q, hq, hname, value, hadds⟩
      · exact Or.inl hsome
      · rcases List.mem_cons.mp hq with rfl | hq
        · rw [hp] at hadds
          cases Option.some.inj (Except.ok.inj hadds)
        · exact Or.inr ⟨q, hq, hname, value, hadds⟩
    · rw [hp] at hok
      refine ih hok hrest ?_
      rw [OrderedMap.lookupEntry_setEntry]
      by_cases hname : p.1.name = name
      · exact Or.inl (by simp [hname])
      · rw [if_neg hname]
        rcases hsome with hsome | ⟨q, hq, hqname, value, hadds⟩
        · exact Or.inl hsome
        · rcases List.mem_cons.mp hq with rfl | hq
          · exact absurd hqname hname
          · exact Or.inr ⟨q, hq, hqname, value, hadds⟩

theorem collect_ne_error (hok : collect adds returned properties parameters = .ok collected)
    (hreturns : ∀ p ∈ properties, adds p ≠ .ok none) {p : INodeProperties × CollectionCall}
    (hp : p ∈ properties) {e : Failure} : adds p ≠ .error e := by
  rcases collect_ok hok with ⟨_, q, hq, hadds⟩ | hall
  · exact absurd hadds (hreturns q hq)
  · obtain ⟨addition, hadds⟩ := hall p hp
    simp [hadds]

/-- Two lists of entries with the same keys and the same values. -/
theorem entries_ext {es es' : INodeParameters} (hkeys : es'.map Prod.fst = es.map Prod.fst)
    (hnodup : (es.map Prod.fst).Nodup) (hget : ∀ name, lookupEntry name es' = lookupEntry name es) :
    es' = es := by
  refine List.ext_getElem? fun i => ?_
  have hkey := congrArg (·[i]?) hkeys
  simp only [List.getElem?_map] at hkey
  cases he : es[i]? with
  | none => simpa [he] using hkey
  | some e =>
    obtain ⟨name, value⟩ := e
    simp only [he, Option.map_some, Option.map_eq_some_iff] at hkey
    obtain ⟨⟨name', value'⟩, he', rfl⟩ := hkey
    have hvalue := (OrderedMap.lookupEntry_eq_some hnodup).mpr (List.mem_of_getElem? he)
    have hvalue' := (OrderedMap.lookupEntry_eq_some (hkeys ▸ hnodup)).mpr (List.mem_of_getElem? he')
    rw [hget, hvalue] at hvalue'
    rw [he', Option.some.inj hvalue']

/-- Each property adds something again, and the last one of a name what it added before. -/
theorem collect_again (hok : collect adds returned properties parameters = .ok collected)
    (hreturns : ∀ p ∈ properties, adds p ≠ .ok none)
    (hnone : ∀ p ∈ properties, adds p = .ok (some none) → adds' p = .ok (some none))
    (hsome : ∀ p ∈ properties, ∀ value, adds p = .ok (some (some value)) →
      ∃ value', adds' p = .ok (some (some value')) ∧
        (lookupEntry p.1.name collected = some value → value' = value))
    (hkeys : parameters'.map Prod.fst = parameters.map Prod.fst)
    (hnodup : (parameters.map Prod.fst).Nodup)
    (hget : ∀ name, lookupEntry name parameters' = lookupEntry name parameters ∨
      ∃ p ∈ properties, p.1.name = name ∧ adds p ≠ .ok (some none)) :
    collect adds' returned' properties parameters' = .ok collected := by
  induction properties generalizing parameters parameters' with
  | nil =>
    obtain rfl := Except.ok.inj hok
    have hsame : ∀ name, lookupEntry name parameters' = lookupEntry name parameters := by
      intro name
      rcases hget name with hget | ⟨p, hp, _⟩
      · exact hget
      · cases hp
    rw [entries_ext hkeys hnodup hsame]
    rfl
  | cons p properties ih =>
    have hreturns' := fun q hq => hreturns q (List.mem_cons_of_mem p hq)
    have hnone' := fun q hq => hnone q (List.mem_cons_of_mem p hq)
    have hsome' := fun q hq => hsome q (List.mem_cons_of_mem p hq)
    rw [collect] at hok ⊢
    rcases hp : adds p with e | _ | _ | value
    · rw [hp] at hok
      cases hok
    · exact absurd hp (hreturns p List.mem_cons_self)
    · rw [hp] at hok
      rw [hnone p List.mem_cons_self hp]
      refine ih hok hreturns' hnone' hsome' hkeys hnodup fun name => ?_
      rcases hget name with hget | ⟨q, hq, hname, hadds⟩
      · exact Or.inl hget
      · rcases List.mem_cons.mp hq with rfl | hq
        · exact absurd hp hadds
        · exact Or.inr ⟨q, hq, hname, hadds⟩
    · rw [hp] at hok
      obtain ⟨value', hp', hlast⟩ := hsome p List.mem_cons_self value hp
      rw [hp']
      refine ih hok hreturns' hnone' hsome' ?_ ?_ fun name => ?_
      · rw [OrderedMap.map_fst_setEntry, OrderedMap.map_fst_setEntry, hkeys]
      · exact (OrderedMap.set ⟨parameters, hnodup⟩ p.1.name value).nodup
      · by_cases hlater : ∃ q ∈ properties, q.1.name = name ∧ adds q ≠ .ok (some none)
        · exact Or.inr hlater
        · left
          rw [OrderedMap.lookupEntry_setEntry, OrderedMap.lookupEntry_setEntry]
          split_ifs with hname
          · subst hname
            -- the property is the last one that adds something under its name
            have hcollected := collect_get_of_none hok hreturns' fun q hq hname => by
              by_contra hadds
              exact hlater ⟨q, hq, hname, hadds⟩
            rw [OrderedMap.lookupEntry_setEntry, if_pos rfl] at hcollected
            rw [hlast hcollected]
          · rcases hget name with hget | ⟨q, hq, hqname, hadds⟩
            · exact hget
            · rcases List.mem_cons.mp hq with rfl | hq
              · exact absurd hqname hname
              · exact absurd ⟨q, hq, hqname, hadds⟩ hlater

end Collect

/-! ### One list of properties -/

section Level
variable {context : NodeContext} {check check' parameters values : INodeParameters}
  {root root' : Option INodeParameters} {parentType : Option ParentType}
  {ordered : List (INodeProperties × CollectionCall)} {p : INodeProperties × CollectionCall}
  {properties : List INodeProperties}

theorem simpleValue_again (type : SimpleType) (default : ParameterValue)
    (value : Option ParameterValue) :
    simpleValue type default (some (simpleValue type default value)) =
      simpleValue type default value := by
  have hor : orDefault (some (orDefault value default)) default = orDefault value default := by
    rcases value with _ | _ | _ <;> cases default <;> rfl
  cases type with
  | boolean => rfl
  | number => rfl
  | options => rfl
  | resourceLocator =>
    simp only [simpleValue]
    split_ifs
    · rfl
    · exact hor
  | other name => exact hor

/-- With defaults a collection always gives a value. -/
theorem collectionCall_set {property : INodeProperties} (hsimple : property.isSimple = false)
    {root : INodeParameters} {value : Option ParameterValue} {resolved : Resolved}
    (h : collectionCall context property withDefaults root value = .ok resolved) :
    ∃ value', resolved = .set value' := by
  cases property with
  | simple => cases hsimple
  | collection name default displayOptions multipleValues options =>
    simp only [collectionCall, collectionValue] at h
    cases value with
    | none =>
      simp only [withDefaults, Bool.true_eq_false, if_false] at h
      split_ifs at h
      · cases default <;> exact ⟨_, (Except.ok.inj h).symm⟩
      · exact ⟨_, (Except.ok.inj h).symm⟩
    | some value =>
      simp only at h
      split_ifs at h
      · exact ⟨_, (Except.ok.inj h).symm⟩
      · obtain ⟨_, _, h⟩ := bind_eq_ok.mp h
        exact ⟨_, (Except.ok.inj h).symm⟩
  | fixedCollection name default displayOptions multipleValues options =>
    simp only [collectionCall, fixedCollectionValue, withDefaults, Bool.true_eq_false, false_and,
      if_false, or_true, if_true] at h
    split_ifs at h <;> obtain ⟨_, _, h⟩ := bind_eq_ok.mp h <;> exact ⟨_, (Except.ok.inj h).symm⟩

theorem addsFor_skipped {flags : ReturnFlags} (hparent : parentType = some .collection)
    (hvalue : lookupEntry p.1.name values = none) :
    addsFor context flags check root parentType values p = .ok (some none) := by
  simp [addsFor, CollectCall.adds, CollectCall.skips, CollectCall.value, hparent, hvalue]

theorem addsFor_unskipped
    (hskips : parentType = some .collection → lookupEntry p.1.name values ≠ none) :
    addsFor context withDefaults check root parentType values p = (do
      if ← CollectCall.isDisplayed context check root p.1 then
        CollectCall.addition ⟨withDefaults, false, some values, parentType, some check, root⟩ check p
      else .ok (some none)) := by
  have hskips : CollectCall.skips ⟨withDefaults, false, some values, parentType, some check, root⟩
      p.1.name = false := by
    by_cases hparent : parentType = some .collection
    · obtain ⟨value, hvalue⟩ := Option.ne_none_iff_exists'.mp (hskips hparent)
      simp [CollectCall.skips, CollectCall.value, hvalue]
    · simp [CollectCall.skips, withDefaults, hparent]
  rw [addsFor, CollectCall.adds, hskips]
  rfl

/-- With defaults a property that is displayed adds a value. -/
theorem addition_withDefaults (hcall : p.2 = collectionCall context p.1)
    {addition : Option (Option ParameterValue)}
    (h : CollectCall.addition ⟨withDefaults, false, some values, parentType, some check, root⟩ check
      p = .ok addition) :
    ∃ value, addition = some (some value) ∧
      match p.1 with
      | .simple name type default _ => value = simpleValue type default (lookupEntry name values)
      | property => collectionCall context property withDefaults (root.getD check)
          (lookupEntry property.name values) = .ok (.set value) := by
  obtain ⟨property, collection⟩ := p
  obtain rfl : collection = collectionCall context property := hcall
  have hcollection : property.isSimple = false → ∃ value, addition = some (some value) ∧
      collectionCall context property withDefaults (root.getD check)
        (lookupEntry property.name values) = .ok (.set value) := by
    intro hsimple
    rw [addition_collection (p := (property, collectionCall context property)) hsimple] at h
    obtain ⟨resolved, hresolved, h⟩ := bind_eq_ok.mp h
    obtain ⟨value, rfl⟩ := collectionCall_set hsimple hresolved
    exact ⟨value, (Except.ok.inj h).symm, hresolved⟩
  cases property with
  | simple name type default displayOptions => exact ⟨_, (Except.ok.inj h).symm, rfl⟩
  | collection => exact hcollection rfl
  | fixedCollection => exact hcollection rfl

/-- What the call adds for a property, when it adds something. -/
theorem addsFor_eq_some (hcall : p.2 = collectionCall context p.1) {value : ParameterValue}
    (h : addsFor context withDefaults check root parentType values p = .ok (some (some value))) :
    (parentType = some .collection → lookupEntry p.1.name values ≠ none) ∧
      Shown context check root p.1 ∧
      match p.1 with
      | .simple name type default _ => value = simpleValue type default (lookupEntry name values)
      | property => collectionCall context property withDefaults (root.getD check)
          (lookupEntry property.name values) = .ok (.set value) := by
  have hskips : parentType = some .collection → lookupEntry p.1.name values ≠ none := by
    intro hparent hvalue
    rw [addsFor_skipped hparent hvalue] at h
    cases Option.some.inj (Except.ok.inj h)
  rw [addsFor_unskipped hskips] at h
  obtain ⟨displayed, hdisplayed, h⟩ := bind_eq_ok.mp h
  cases displayed with
  | false => cases Option.some.inj (Except.ok.inj h)
  | true =>
    rw [if_pos rfl] at h
    obtain ⟨value', heq, hvalue⟩ := addition_withDefaults hcall h
    obtain rfl := Option.some.inj (Option.some.inj heq)
    exact ⟨hskips, hdisplayed, hvalue⟩

/-- What the call adds for a property, when it adds nothing. -/
theorem addsFor_eq_none (hcall : p.2 = collectionCall context p.1)
    (h : addsFor context withDefaults check root parentType values p = .ok (some none)) :
    parentType = some .collection ∧ lookupEntry p.1.name values = none ∨
      CollectCall.isDisplayed context check root p.1 = .ok false := by
  by_cases hskips : parentType = some .collection ∧ lookupEntry p.1.name values = none
  · exact Or.inl hskips
  · rw [addsFor_unskipped fun hparent hvalue => hskips ⟨hparent, hvalue⟩] at h
    obtain ⟨displayed, hdisplayed, h⟩ := bind_eq_ok.mp h
    cases displayed with
    | false => exact Or.inr hdisplayed
    | true =>
      rw [if_pos rfl] at h
      obtain ⟨value, heq, _⟩ := addition_withDefaults hcall h
      cases Option.some.inj heq

/-- What a collection gives is what it gives for that again. -/
def SettlesAgain (call : CollectionCall) (root root' : INodeParameters)
    (value : Option ParameterValue) : Prop :=
  ∀ value', call withDefaults root value = .ok (.set value') →
    call withDefaults root' (some value') = .ok (.set value')

theorem addsFor_again (hcall : ∀ p ∈ ordered, p.2 = collectionCall context p.1)
    (hok : collect (addsFor context withDefaults check root parentType values) values ordered [] =
      .ok parameters)
    (hreturns : ∀ p ∈ ordered,
      addsFor context withDefaults check root parentType values p ≠ .ok none)
    (hdisplay : SameDisplay context ordered parentType parameters check check' root root')
    (halone : ∀ p ∈ ordered, ∀ q ∈ ordered, p.1.isSimple = false → Shown context check root p.1 →
      Shown context check root q.1 → q.1.name = p.1.name → q = p)
    (hsettles : ∀ p ∈ ordered, p.1.isSimple = false → Shown context check root p.1 →
      (parentType = some .collection → lookupEntry p.1.name values ≠ none) →
      SettlesAgain p.2 (root.getD check) (root'.getD check') (lookupEntry p.1.name values))
    (hp : p ∈ ordered) {value : ParameterValue}
    (h : addsFor context withDefaults check root parentType values p = .ok (some (some value))) :
    ∃ value', addsFor context withDefaults check' root' parentType parameters p =
        .ok (some (some value')) ∧
      (lookupEntry p.1.name parameters = some value → value' = value) := by
  obtain ⟨hskips, hshown, hvalue⟩ := addsFor_eq_some (hcall p hp) h
  have hstored : lookupEntry p.1.name parameters ≠ none :=
    collect_get_of_some hok hreturns (Or.inr ⟨p, hp, rfl, value, h⟩)
  have hshown' : Shown context check' root' p.1 := (hdisplay p hp fun _ => hstored).trans hshown
  have hagain : addsFor context withDefaults check' root' parentType parameters p =
      CollectCall.addition ⟨withDefaults, false, some parameters, parentType, some check', root'⟩
        check' p := by
    rw [addsFor_unskipped fun _ => hstored, hshown']
    rfl
  rw [hagain]
  have hcollection : p.1.isSimple = false →
      collectionCall context p.1 withDefaults (root.getD check) (lookupEntry p.1.name values) =
        .ok (.set value) →
      ∃ value', CollectCall.addition
          ⟨withDefaults, false, some parameters, parentType, some check', root'⟩ check' p =
          .ok (some (some value')) ∧ (lookupEntry p.1.name parameters = some value → value' = value) := by
    intro hsimple hset
    have hname : ∀ q ∈ ordered, q.1.name = p.1.name →
        addsFor context withDefaults check root parentType values q = .ok (some none) ∨
        addsFor context withDefaults check root parentType values q = .ok (some (some value)) := by
      intro q hq hqname
      rcases hadds : addsFor context withDefaults check root parentType values q with e | _ | _ | value'
      · exact absurd hadds (collect_ne_error hok hreturns hq)
      · exact absurd hadds (hreturns q hq)
      · exact Or.inl rfl
      · obtain ⟨_, hqshown, _⟩ := addsFor_eq_some (hcall q hq) hadds
        obtain rfl := halone p hp q hq hsimple hshown hqshown hqname
        exact Or.inr (hadds.symm.trans h)
    have hget : lookupEntry p.1.name parameters = some value := by
      rcases collect_get hok hreturns hname with ⟨hget, _⟩ | ⟨_, hnone⟩
      · exact hget
      · rw [hnone p hp rfl] at h
        cases Option.some.inj (Except.ok.inj h)
    have hsettled := hsettles p hp hsimple hshown hskips
    rw [hcall p hp] at hsettled
    refine ⟨value, ?_, fun _ => rfl⟩
    rw [addition_collection hsimple, hcall p hp, hget, hsettled value hset]
    rfl
  obtain ⟨property, collection⟩ := p
  cases property with
  | simple name type default displayOptions =>
    refine ⟨_, rfl, fun hget => ?_⟩
    subst hvalue
    have hget : lookupEntry name parameters = _ := hget
    simp only [CollectCall.value, Option.bind_some, hget, simpleValue_again]
  | collection => exact hcollection rfl hvalue
  | fixedCollection => exact hcollection rfl hvalue

theorem propertiesCall_nil {parameters : INodeParameters}
    (hok : propertiesCall context (collectionCalls context properties) withDefaults root
      (some .collection) none = .ok parameters) :
    propertiesCall context (collectionCalls context properties) withDefaults root'
      (some .collection) (some []) = .ok [] := by
  have hvisitAll : ∀ (c : CollectCall), c.nodeValues = some [] → c.parentType = some .collection →
      ∀ names properties (s : CollectState),
        c.visitAll context names properties s = .ok s.nodeParameters := by
    intro c hvalues hparent names properties
    induction properties with
    | nil => exact fun _ => rfl
    | cons p properties ih =>
      intro s
      have hskips : c.skips p.1.name = true := by
        simp [CollectCall.skips, CollectCall.value, hvalues, hparent, lookupEntry]
      rw [CollectCall.visitAll, CollectCall.visit, hskips]
      exact ih s
  rw [propertiesCall, getPropertiesParameters] at hok ⊢
  obtain ⟨ordered, hordered, _⟩ := bind_eq_ok.mp hok
  have hcheck : displayCheckValues context (collectionCalls context properties) root'
      (some .collection) (some []) ordered = .ok [] := hvisitAll _ rfl rfl _ _ _
  rw [hordered, ok_bind]
  simp only [withDefaults, Bool.false_eq_true, if_false, hcheck, Functor.map, Except.map, ok_bind]
  exact hvisitAll _ rfl rfl _ _ _

theorem ParametersSettled.again {values : Option INodeParameters}
    (h : ParametersSettled context properties root root' parentType values)
    (hcollections : ∀ p ∈ properties, ∀ root root' value,
      CollectionSettled context p root root' value →
      SettlesAgain (collectionCall context p) root root' value)
    (hok : propertiesCall context (collectionCalls context properties) withDefaults root parentType
      values = .ok parameters) :
    propertiesCall context (collectionCalls context properties) withDefaults root' parentType
      (some parameters) = .ok parameters := by
  cases h with
  | nothing hempty =>
    obtain rfl := propertiesCall_none hok
    by_cases hparent : parentType = some .collection
    · subst hparent
      exact propertiesCall_nil hok
    · exact hempty hparent
  | intro hpass hcall hpass' hdisplay halone hcollection =>
    rename_i values ordered check parameters' check'
    obtain rfl := Except.ok.inj (hcall.symm.trans hok)
    have hmem := fun p hp => mem_collectionCalls (mem_of_inResolveOrder hpass.order (p := p) hp)
    rw [propertiesCall_eq hpass rfl] at hok
    rw [propertiesCall_eq hpass' rfl]
    have hreturns := fun p (hp : p ∈ ordered) => adds_ne_return hpass hp
    refine collect_again hok hreturns (fun p hp hadds => ?_) (fun p hp value hadds => ?_) rfl
      List.nodup_nil fun _ => Or.inl rfl
    · rcases addsFor_eq_none (hmem p hp).2 hadds with ⟨hparent, hvalue⟩ | hhidden
      · refine addsFor_skipped hparent ?_
        rw [collect_get_of_none hok hreturns fun q hq hname =>
          addsFor_skipped hparent (hname ▸ hvalue)]
        rfl
      · by_cases hskips : parentType = some .collection ∧ lookupEntry p.1.name parameters' = none
        · exact addsFor_skipped hskips.1 hskips.2
        · exact addsFor_hidden
            ((hdisplay p hp fun hparent hvalue => hskips ⟨hparent, hvalue⟩).trans hhidden)
    · refine addsFor_again (fun p hp => (hmem p hp).2) hok hreturns hdisplay halone
        (fun p hp hsimple hshown hskips => ?_) hp hadds
      rw [(hmem p hp).2]
      exact hcollections p.1 (hmem p hp).1 _ _ _ (hcollection p hp hsimple hshown hskips)

end Level

/-! ### Items of a collection -/

section Items
variable {options : List (String × PropertiesCall)} {root root' : INodeParameters}
  {entries : List (String × ParameterValue)} {value : Option ParameterValue}
  {acc collectionValues : INodeParameters}

/-- What the call returns for an item is what it returns for that again. -/
def CallSettlesAgain (call : PropertiesCall) (root root' : INodeParameters) (parentType : ParentType)
    (values : Option INodeParameters) : Prop :=
  ∀ parameters, call withDefaults (some root) (some parentType) values = .ok parameters →
    call withDefaults (some root') (some parentType) (some parameters) = .ok parameters

theorem multipleItems_again {itemName : String} {itemValue itemValue' : ParameterValue}
    (hok : multipleItems options withDefaults root itemName itemValue = .ok itemValue')
    (hsettles : ∀ call, lookupEntry itemName options = some call → ∀ items item,
      itemValue.items = .ok items → item ∈ items →
      CallSettlesAgain call root root' .fixedCollection item.asParameters) :
    multipleItems options withDefaults root' itemName itemValue' = .ok itemValue' := by
  obtain ⟨items, hitems, hok⟩ := bind_eq_ok.mp hok
  obtain ⟨values, hvalues, hok⟩ := bind_eq_ok.mp hok
  obtain rfl := Except.ok.inj hok
  rw [multipleItems, ParameterValue.items, ok_bind]
  rw [mapM_again hvalues fun item hitem value hvalue => ?_]
  · rfl
  cases hcall : lookupEntry itemName options with
  | none =>
    rw [hcall] at hvalue
    cases hvalue
  | some call =>
    rw [hcall] at hvalue
    obtain ⟨parameters, hparameters, rfl⟩ := map_eq_ok.mp hvalue
    exact congrArg (ParameterValue.obj <$> ·)
      (hsettles call hcall items item hitems hitem parameters hparameters)

/-- A loop over items that are settled. -/
theorem multipleCollections_settled
    (hsettled : ∀ e ∈ entries, multipleItems options withDefaults root' e.1 e.2 = .ok e.2)
    (hnodup : (acc.map Prod.fst ++ entries.map Prod.fst).Nodup) :
    multipleCollections options withDefaults root' entries acc = .ok (acc ++ entries) := by
  induction entries generalizing acc with
  | nil => rw [multipleCollections, List.append_nil]
  | cons e entries ih =>
    have hnew : e.1 ∉ acc.map Prod.fst := fun h =>
      (List.nodup_append.mp hnodup).2.2 _ h _ List.mem_cons_self rfl
    rw [multipleCollections, hsettled e List.mem_cons_self, ok_bind,
      OrderedMap.setEntry_of_notMem hnew,
      ih (fun e he => hsettled e (List.mem_cons_of_mem _ he)) (by simpa using hnodup)]
    simp

theorem multipleCollections_again
    (hok : multipleCollections options withDefaults root entries acc = .ok collectionValues)
    (hsettles : ∀ e ∈ entries, ∀ call, lookupEntry e.1 options = some call → ∀ items item,
      e.2.items = .ok items → item ∈ items →
      CallSettlesAgain call root root' .fixedCollection item.asParameters)
    (hacc : ∀ e ∈ acc, multipleItems options withDefaults root' e.1 e.2 = .ok e.2)
    (hnodup : (acc.map Prod.fst).Nodup) :
    multipleCollections options withDefaults root' collectionValues [] = .ok collectionValues := by
  induction entries generalizing acc with
  | nil =>
    obtain rfl := Except.ok.inj hok
    exact multipleCollections_settled hacc (by simpa using hnodup)
  | cons e entries ih =>
    obtain ⟨itemValue, hvalue, hok⟩ := bind_eq_ok.mp hok
    have hitem := multipleItems_again hvalue (hsettles e List.mem_cons_self)
    refine ih hok (fun e he => hsettles e (List.mem_cons_of_mem _ he)) (fun e' he' => ?_)
      (OrderedMap.set ⟨acc, hnodup⟩ e.1 itemValue).nodup
    rcases OrderedMap.mem_of_setEntry he' with rfl | he'
    · exact hitem
    · exact hacc e' he'

/-- An item of a collection for one value that the call gives back. -/
def ItemSettled (options : List (String × PropertiesCall)) (root' : INodeParameters)
    (e : String × ParameterValue) : Prop :=
  ∃ call parameters, lookupEntry e.1 options = some call ∧ e.2 = .obj parameters ∧
    parameters ≠ [] ∧
    call withDefaults (some root') (some .fixedCollection) (some parameters) = .ok parameters

theorem singleCollections_settled {value : ParameterValue}
    (hsettled : ∀ e ∈ entries, ItemSettled options root' e)
    (hnodup : (acc.map Prod.fst ++ entries.map Prod.fst).Nodup) :
    singleCollections options withDefaults root' (some value) entries acc =
      .ok (acc ++ entries) := by
  induction entries generalizing acc with
  | nil => rw [singleCollections, List.append_nil]
  | cons e entries ih =>
    obtain ⟨itemName, itemValue⟩ := e
    have hnew : itemName ∉ acc.map Prod.fst := fun h =>
      (List.nodup_append.mp hnodup).2.2 _ h _ List.mem_cons_self rfl
    obtain ⟨call, parameters, hcall, hvalue, hne, hparameters⟩ := hsettled _ List.mem_cons_self
    obtain rfl : itemValue = .obj parameters := hvalue
    have hempty : parameters.isEmpty = false := by simpa using hne
    have hcall : lookupEntry itemName options = some call := hcall
    rw [singleCollections, hcall]
    dsimp only [ParameterValue.asParameters]
    rw [if_neg (by simp), hparameters, ok_bind, hempty, if_neg Bool.false_ne_true,
      OrderedMap.setEntry_of_notMem hnew,
      ih (fun e he => hsettled e (List.mem_cons_of_mem _ he)) (by simpa using hnodup)]
    simp

theorem singleCollections_again {value' : ParameterValue}
    (hok : singleCollections options withDefaults root value entries acc = .ok collectionValues)
    (hsettles : value ≠ none → ∀ e ∈ entries, ∀ call, lookupEntry e.1 options = some call →
      CallSettlesAgain call root root' .fixedCollection e.2.asParameters)
    (hacc : ∀ e ∈ acc, ItemSettled options root' e) (hnodup : (acc.map Prod.fst).Nodup) :
    singleCollections options withDefaults root' (some value') collectionValues [] =
      .ok collectionValues := by
  induction entries generalizing acc with
  | nil =>
    obtain rfl := Except.ok.inj hok
    exact singleCollections_settled hacc (by simpa using hnodup)
  | cons e entries ih =>
    have hrest := fun hvalue e he => hsettles hvalue e (List.mem_cons_of_mem _ he)
    rw [singleCollections] at hok
    cases hcall : lookupEntry e.1 options with
    | none =>
      rw [hcall] at hok
      exact ih hok hrest hacc hnodup
    | some call =>
      rw [hcall] at hok
      dsimp only at hok
      split_ifs at hok with hvalue
      obtain ⟨parameters, hparameters, hok⟩ := bind_eq_ok.mp hok
      split_ifs at hok with hempty
      · exact ih hok hrest hacc hnodup
      · refine ih hok hrest (fun e' he' => ?_) (OrderedMap.set ⟨acc, hnodup⟩ e.1 _).nodup
        rcases OrderedMap.mem_of_setEntry he' with rfl | he'
        · exact ⟨call, parameters, hcall, rfl, by simpa using hempty,
            hsettles hvalue e List.mem_cons_self call hcall parameters hparameters⟩
        · exact hacc e' he'

end Items

/-! ### Every property -/

section Properties
variable {context : NodeContext}

theorem collection_settlesAgain {name : String} {default : ParameterValue}
    {displayOptions : Option IDisplayOptions} {multipleValues : Option Bool}
    {options : List INodeProperties} {root root' : INodeParameters} {value : ParameterValue}
    (hagain : CallSettlesAgain (propertiesCall context (collectionCalls context options)) root root'
      .collection value.asParameters) :
    SettlesAgain
      (collectionCall context (.collection name default displayOptions multipleValues options))
      root root' (some value) := by
  intro value' h
  simp only [collectionCall, collectionValue] at h ⊢
  split_ifs at h ⊢
  · rfl
  · obtain ⟨parameters, hparameters, h⟩ := bind_eq_ok.mp h
    obtain rfl := Resolved.set.inj (Except.ok.inj h)
    rw [ParameterValue.asParameters, hagain parameters hparameters]
    rfl

theorem values_settlesAgain {name : String} {default : ParameterValue}
    {displayOptions : Option IDisplayOptions} {options : List INodeProperties}
    {root root' : INodeParameters} {value : Option ParameterValue} :
    SettlesAgain (collectionCall context (.collection name default displayOptions (some true) options))
      root root' value :=
  fun _ _ => rfl

theorem fixedCollection_settlesAgain {name : String} {default : ParameterValue}
    {displayOptions : Option IDisplayOptions} {multipleValues : Option Bool}
    {options : List (String × List INodeProperties)} {root root' : INodeParameters}
    {value : Option ParameterValue}
    (hmultiple : multipleValues = some true → ∀ e ∈ (value.getD default).entries,
      ∀ values items item, lookupEntry e.1 options = some values → e.2.items = .ok items →
      item ∈ items → CallSettlesAgain (propertiesCall context (collectionCalls context values)) root
        root' .fixedCollection item.asParameters)
    (hsingle : multipleValues ≠ some true → ∀ v, value = some v → ∀ e ∈ v.entries, ∀ values,
      lookupEntry e.1 options = some values →
      CallSettlesAgain (propertiesCall context (collectionCalls context values)) root root'
        .fixedCollection e.2.asParameters) :
    SettlesAgain
      (collectionCall context (.fixedCollection name default displayOptions multipleValues options))
      root root' value := by
  intro value' h
  simp only [collectionCall, fixedCollectionValue_withDefaults, Option.getD_some] at h ⊢
  split_ifs at h ⊢ with hmany
  · obtain ⟨collectionValues, hvalues, h⟩ := bind_eq_ok.mp h
    obtain rfl := Resolved.set.inj (Except.ok.inj h)
    rw [ParameterValue.entries, multipleCollections_again hvalues
      (fun e he call hcall items item hitems hitem => ?_) (by simp) List.nodup_nil]
    · rfl
    · rw [lookupEntry_optionCalls] at hcall
      obtain ⟨values, hlookup, rfl⟩ := Option.map_eq_some_iff.mp hcall
      exact hmultiple hmany e he values items item hlookup hitems hitem
  · obtain ⟨collectionValues, hvalues, h⟩ := bind_eq_ok.mp h
    obtain rfl := Resolved.set.inj (Except.ok.inj h)
    rw [ParameterValue.entries, singleCollections_again hvalues (fun hne e he call hcall => ?_)
      (by simp) List.nodup_nil]
    · rfl
    · rw [lookupEntry_optionCalls] at hcall
      obtain ⟨values, hlookup, rfl⟩ := Option.map_eq_some_iff.mp hcall
      obtain ⟨v, rfl⟩ := Option.ne_none_iff_exists'.mp hne
      exact hsingle hmany v rfl e he values hlookup

theorem CollectionSettled.settlesAgain (property : INodeProperties) :
    ∀ root root' value, CollectionSettled context property root root' value →
      SettlesAgain (collectionCall context property) root root' value := by
  induction property using INodeProperties.induct with
  | simple =>
    intro root root' value h
    cases h
  | collection name default displayOptions multipleValues options ih =>
    intro root root' value h
    cases h with
    | values => exact values_settlesAgain
    | collection hsettled =>
      exact collection_settlesAgain fun parameters hok => hsettled.again ih hok
    | default hdefault =>
      intro value' h
      by_cases hmultiple : multipleValues = some true
      · subst hmultiple
        exact values_settlesAgain value' h
      · simp only [collectionCall, collectionValue, withDefaults, Bool.true_eq_false, if_false,
          hmultiple] at h
        obtain rfl := Resolved.set.inj (Except.ok.inj h)
        exact hdefault
  | fixedCollection name default displayOptions multipleValues options ih =>
    intro root root' value h
    cases h with
    | multiple hsettled =>
      refine fixedCollection_settlesAgain (fun _ e he values items item hvalues hitems hitem =>
        fun parameters hok => ?_) fun h => absurd rfl h
      exact (hsettled e he values items item hvalues hitems hitem).again
        (ih _ (mem_of_lookupEntry hvalues)) hok
    | single hmultiple hsettled =>
      refine fixedCollection_settlesAgain (fun h => absurd h hmultiple)
        fun _ v hv e he values hvalues parameters hok => ?_
      obtain rfl := Option.some.inj hv
      exact (hsettled e he values hvalues).again (ih _ (mem_of_lookupEntry hvalues)) hok
    | unset hmultiple =>
      refine fixedCollection_settlesAgain (fun h => absurd h hmultiple) fun _ v hv => ?_
      cases hv

/-- Defaults that were filled in are filled in once and for all, when the second call displays
what the first one does. -/
theorem getNodeParameters_settled {nodePropertiesArray : List INodeProperties}
    {nodeValues parameters : INodeParameters}
    (hsettled : ParametersSettled context nodePropertiesArray none none none (some nodeValues))
    (hok : getNodeParameters context nodePropertiesArray (some nodeValues) true false =
      .ok parameters) :
    getNodeParameters context nodePropertiesArray (some parameters) true false = .ok parameters :=
  hsettled.again (fun p _ => CollectionSettled.settlesAgain p) hok

/-- The file name is shown for a stored operation that the first call does not return. -/
def uploadProperties : List INodeProperties :=
  [resourceProperty,
    .simple "operation" .options (.str "get")
      (some ⟨some [("resource", [.value (.str "file")])], none⟩),
    .simple "fileName" (.other "string") (.str "")
      (some ⟨some [("operation", [.value (.str "upload")])], none⟩)]

example :
    getNodeParameters plainContext uploadProperties
        (some [("operation", .str "upload"), ("fileName", .str "a.txt")]) true false =
      .ok [("resource", .str "user"), ("fileName", .str "a.txt")] ∧
    getNodeParameters plainContext uploadProperties
        (some [("resource", .str "user"), ("fileName", .str "a.txt")]) true false =
      .ok [("resource", .str "user")] := by
  decide +kernel

end Properties

/-! ### A list of rules again -/

theorem modeProperty_settled (root root' : INodeParameters) :
    ParametersSettled plainContext [modeProperty] (some root) (some root') (some .fixedCollection)
      (some [("mode", .str "contains")]) := by
  have honly : ∀ {p}, p ∈ collectionCalls plainContext [modeProperty] →
      p = (modeProperty, collectionCall plainContext modeProperty) := by
    intro p hp
    simpa [collectionCalls] using hp
  refine @ParametersSettled.intro _ _ _ _ _ _ (collectionCalls plainContext [modeProperty])
    [("mode", .str "contains")] [("mode", .str "contains")] [("mode", .str "contains")]
    ⟨rfl, rfl⟩ rfl ⟨rfl, rfl⟩ ?_ ?_ ?_
  · intro p hp _
    obtain rfl := honly hp
    rfl
  · intro p hp q hq hsimple
    obtain rfl := honly hp
    cases hsimple
  · intro p hp hsimple
    obtain rfl := honly hp
    cases hsimple

theorem rulesValue_settled :
    ParametersSettled plainContext [resourceProperty, rulesProperty] none none none
      (some (rulesValue "contains")) := by
  have hcases : ∀ {p}, p ∈ collectionCalls plainContext [resourceProperty, rulesProperty] →
      p = (resourceProperty, collectionCall plainContext resourceProperty) ∨
        p = (rulesProperty, collectionCall plainContext rulesProperty) := by
    intro p hp
    simpa [collectionCalls] using hp
  refine @ParametersSettled.intro _ _ _ _ _ _
    (collectionCalls plainContext [resourceProperty, rulesProperty]) [("resource", .str "user")]
    userRules [("resource", .str "user")] ⟨rfl, rfl⟩ rfl ⟨rfl, rfl⟩ ?_ ?_ ?_
  · intro p hp _
    rcases hcases hp with rfl | rfl <;> rfl
  · intro p hp q hq hsimple _ _ hname
    rcases hcases hp with rfl | rfl <;> rcases hcases hq with rfl | rfl
    · rfl
    · cases hsimple
    · exact absurd hname (by decide)
    · rfl
  · intro p hp hsimple _ _
    rcases hcases hp with rfl | rfl
    · cases hsimple
    · refine .single (by simp) fun e he values hvalues => ?_
      obtain rfl := List.mem_singleton.mp he
      obtain rfl := Option.some.inj hvalues
      exact modeProperty_settled _ _

theorem userRules_stay :
    getNodeParameters plainContext [resourceProperty, rulesProperty] (some userRules) true false =
      .ok userRules :=
  @getNodeParameters_settled _ _ (rulesValue "contains") _ rulesValue_settled rfl

end N8n
