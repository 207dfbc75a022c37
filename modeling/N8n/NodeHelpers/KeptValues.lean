import N8n.NodeHelpers.RestoredDefaults

/-!
# What is kept without defaults

A call without defaults returns something exactly when a displayed value is kept.
-/

namespace N8n

open OrderedMap (lookupEntry setEntry mem_of_lookupEntry setEntry_ne_nil)
open FoldM

section Options
variable {context : NodeContext}

theorem lookupEntry_optionCalls (name : String) (options : List (String × List INodeProperties)) :
    lookupEntry name (optionCalls context options) =
      (lookupEntry name options).map fun values =>
        propertiesCall context (collectionCalls context values) := by
  induction options with
  | nil => rfl
  | cons option options ih =>
    rw [optionCalls, lookupEntry, lookupEntry, ih]
    split_ifs <;> rfl

end Options

/-! ### A loop that collects nothing -/

section Collect
variable {adds : INodeProperties × CollectionCall → Except Failure (Option (Option ParameterValue))}
  {returned parameters collected : INodeParameters} {properties : List (INodeProperties × CollectionCall)}

theorem collect_ne_nil (hok : collect adds returned properties parameters = .ok collected)
    (hreturned : ∀ p ∈ properties, adds p = .ok none → returned ≠ [])
    (hadds : parameters ≠ [] ∨ ∃ p ∈ properties, adds p ≠ .ok (some none)) : collected ≠ [] := by
  induction properties generalizing parameters with
  | nil =>
    obtain rfl := Except.ok.inj hok
    rcases hadds with hparameters | ⟨p, hp, _⟩
    · exact hparameters
    · cases hp
  | cons p properties ih =>
    have hrest := fun q hq => hreturned q (List.mem_cons_of_mem p hq)
    rw [collect] at hok
    rcases hp : adds p with e | _ | _ | value
    · rw [hp] at hok
      cases hok
    · rw [hp] at hok
      rw [← Except.ok.inj hok]
      exact hreturned p List.mem_cons_self hp
    · rw [hp] at hok
      refine ih hok hrest ?_
      rcases hadds with hparameters | ⟨q, hq, hqadds⟩
      · exact Or.inl hparameters
      · rcases List.mem_cons.mp hq with rfl | hq
        · exact absurd hp hqadds
        · exact Or.inr ⟨q, hq, hqadds⟩
    · rw [hp] at hok
      exact ih hok hrest (Or.inl (setEntry_ne_nil _ _ _))

theorem exists_adds_of_ne_nil (hok : collect adds returned properties parameters = .ok collected)
    (hcollected : collected ≠ []) :
    parameters ≠ [] ∨ ∃ p ∈ properties, ∃ addition, adds p = .ok addition ∧ addition ≠ some none := by
  induction properties generalizing parameters with
  | nil =>
    obtain rfl := Except.ok.inj hok
    exact Or.inl hcollected
  | cons p properties ih =>
    rw [collect] at hok
    rcases hp : adds p with e | _ | _ | value
    · rw [hp] at hok
      cases hok
    · exact Or.inr ⟨p, List.mem_cons_self, none, hp, by simp⟩
    · rw [hp] at hok
      rcases ih hok with hparameters | ⟨q, hq, hadds⟩
      · exact Or.inl hparameters
      · exact Or.inr ⟨q, List.mem_cons_of_mem p hq, hadds⟩
    · exact Or.inr ⟨p, List.mem_cons_self, _, hp, by simp⟩

end Collect

/-! ### What a call keeps -/

section Keeps
variable {context : NodeContext}

theorem FirstPass.unique {properties : List INodeProperties} {root : Option INodeParameters}
    {parentType : Option ParentType} {values : INodeParameters}
    {ordered ordered' : List (INodeProperties × CollectionCall)} {check check' : INodeParameters}
    (h : FirstPass context properties root parentType values ordered check)
    (h' : FirstPass context properties root parentType values ordered' check') :
    ordered' = ordered ∧ check' = check := by
  obtain rfl := Except.ok.inj (h'.order.symm.trans h.order)
  exact ⟨rfl, Except.ok.inj (h'.check.symm.trans h.check)⟩

theorem Keeps.isSimple {property : INodeProperties} {root : INodeParameters} {value : ParameterValue}
    (h : Keeps context property root value) : property.isSimple = false := by
  cases h <;> rfl

def KeepsExactly (context : NodeContext) (property : INodeProperties) : Prop :=
  property.isSimple = false → ∀ root value resolved,
    collectionCall context property withoutDefaults root (some value) = .ok resolved →
      (resolved ≠ .unset ↔ Keeps context property root value)

theorem keepsAny_of_ne_nil {properties : List INodeProperties}
    (hproperties : ∀ p ∈ properties, KeepsExactly context p)
    {root : Option INodeParameters} {parentType : Option ParentType} {values kept : INodeParameters}
    {ordered : List (INodeProperties × CollectionCall)} {check : INodeParameters}
    (hpass : FirstPass context properties root parentType values ordered check)
    (hcall : ∀ p ∈ ordered, p.1 ∈ properties ∧ p.2 = collectionCall context p.1)
    (hok : collect (addsFor context withoutDefaults check root parentType values) values ordered [] =
      .ok kept) (hkept : kept ≠ []) : KeepsAny context properties root parentType values := by
  obtain ⟨p, hp, addition, hadds, haddition⟩ :=
    (exists_adds_of_ne_nil hok hkept).resolve_left fun h => h rfl
  cases hvalue : lookupEntry p.1.name values with
  | none =>
    rw [addsFor_of_none hvalue] at hadds
    exact absurd (Except.ok.inj hadds).symm haddition
  | some value =>
    rw [addsFor_of_some hvalue] at hadds
    obtain ⟨displayed, hshown, hadds⟩ := bind_eq_ok.mp hadds
    cases displayed with
    | false => exact absurd (Except.ok.inj hadds).symm haddition
    | true =>
      rw [if_pos rfl] at hadds
      cases hsimple : p.1.isSimple with
      | true =>
        obtain ⟨property, collection⟩ := p
        cases property with
        | collection => cases hsimple
        | fixedCollection => cases hsimple
        | simple name type default displayOptions =>
          have hlookup : lookupEntry name values = some value := hvalue
          rw [addition_simple hlookup] at hadds
          refine KeepsAny.simple hpass hp hshown hvalue ?_
          cases hkeeps : isKept parentType default value with
          | true => exact hkeeps
          | false =>
            rw [hkeeps] at hadds
            exact absurd (Except.ok.inj hadds).symm haddition
      | false =>
        rw [addition_collection hsimple, hvalue, (hcall p hp).2] at hadds
        obtain ⟨resolved, hresolved, hadds⟩ := bind_eq_ok.mp hadds
        refine KeepsAny.collection hpass hp hshown hvalue
          ((hproperties _ (hcall p hp).1 hsimple _ _ _ hresolved).mp ?_)
        rintro rfl
        exact haddition (Except.ok.inj hadds).symm

theorem ne_nil_of_keepsAny {properties : List INodeProperties}
    (hproperties : ∀ p ∈ properties, KeepsExactly context p)
    {root : Option INodeParameters} {parentType : Option ParentType} {values kept : INodeParameters}
    {ordered : List (INodeProperties × CollectionCall)} {check : INodeParameters}
    (hpass : FirstPass context properties root parentType values ordered check)
    (hcall : ∀ p ∈ ordered, p.1 ∈ properties ∧ p.2 = collectionCall context p.1)
    (hok : collect (addsFor context withoutDefaults check root parentType values) values ordered [] =
      .ok kept) (hkeeps : KeepsAny context properties root parentType values) : kept ≠ [] := by
  have hne : ∀ p ∈ ordered, ∀ value, lookupEntry p.1.name values = some value →
      addsFor context withoutDefaults check root parentType values p ≠ .ok (some none) →
      kept ≠ [] := by
    intro p hp value hvalue hadds
    have hvalues : values ≠ [] := by
      rintro rfl
      cases hvalue
    exact collect_ne_nil hok (fun _ _ _ => hvalues) (Or.inr ⟨p, hp, hadds⟩)
  cases hkeeps with
  | simple hpass' hp hshown hvalue hkeeps =>
    obtain ⟨rfl, rfl⟩ := hpass.unique hpass'
    rename_i p value
    refine hne p hp value hvalue ?_
    rw [addsFor_of_shown hvalue hshown]
    obtain ⟨property, collection⟩ := p
    cases property with
    | collection => cases hkeeps
    | fixedCollection => cases hkeeps
    | simple name type default displayOptions =>
      have hkept : isKept parentType default value = true := hkeeps
      have hlookup : lookupEntry name values = some value := hvalue
      rw [addition_simple hlookup, hkept]
      exact fun h => Option.some_ne_none _ (Option.some.inj (Except.ok.inj h))
  | collection hpass' hp hshown hvalue hkeeps =>
    obtain ⟨rfl, rfl⟩ := hpass.unique hpass'
    rename_i p value
    refine hne p hp value hvalue fun hadds => ?_
    have hsimple := hkeeps.isSimple
    rw [addsFor_of_shown hvalue hshown, addition_collection hsimple, hvalue,
      (hcall p hp).2] at hadds
    obtain ⟨resolved, hresolved, hadds⟩ := bind_eq_ok.mp hadds
    have hunset := (hproperties _ (hcall p hp).1 hsimple _ _ _ hresolved).mpr hkeeps
    cases resolved with
    | unset => exact hunset rfl
    | set => cases Option.some.inj (Except.ok.inj hadds)
    | setOnly => cases Option.some.inj (Except.ok.inj hadds)
    | nodeValues => cases Except.ok.inj hadds

theorem keepsAny_iff {properties : List INodeProperties}
    (hproperties : ∀ p ∈ properties, KeepsExactly context p)
    {root : Option INodeParameters} {parentType : Option ParentType} {values kept : INodeParameters}
    (hok : propertiesCall context (collectionCalls context properties) withoutDefaults root
      parentType (some values) = .ok kept) :
    kept ≠ [] ↔ KeepsAny context properties root parentType values := by
  obtain ⟨ordered, check, hpass⟩ := exists_firstPass hok
  rw [propertiesCall_eq hpass rfl] at hok
  have hcall : ∀ p ∈ ordered, p.1 ∈ properties ∧ p.2 = collectionCall context p.1 :=
    fun p hp => mem_collectionCalls (mem_of_inResolveOrder hpass.order hp)
  exact ⟨keepsAny_of_ne_nil hproperties hpass hcall hok,
    ne_nil_of_keepsAny hproperties hpass hcall hok⟩

/-! ### Items of a collection -/

theorem propertiesCall_none {properties : List INodeProperties} {flags : ReturnFlags}
    {root : Option INodeParameters} {parentType : Option ParentType} {kept : INodeParameters}
    (hok : propertiesCall context (collectionCalls context properties) flags root parentType none
      = .ok kept) : kept = [] := by
  have hvisitAll : ∀ (c : CollectCall), c.nodeValues = none →
      ∀ names properties (s : CollectState),
        c.visitAll context names properties s = .ok s.nodeParameters := by
    intro c hvalues names properties
    induction properties with
    | nil => exact fun _ => rfl
    | cons p properties ih =>
      intro s
      have hskips : c.skips p.1.name = true := by
        simp [CollectCall.skips, hvalues]
      rw [CollectCall.visitAll, CollectCall.visit, hskips]
      exact ih s
  rw [propertiesCall, getPropertiesParameters] at hok
  obtain ⟨ordered, _, hok⟩ := bind_eq_ok.mp hok
  split_ifs at hok
  · exact (Except.ok.inj ((hvisitAll _ rfl _ _ _).symm.trans hok)).symm
  · obtain ⟨check, _, hok⟩ := bind_eq_ok.mp hok
    exact (Except.ok.inj ((hvisitAll _ rfl _ _ _).symm.trans hok)).symm

section Items
variable {options : List (String × PropertiesCall)} {flags : ReturnFlags} {root : INodeParameters}
  {entries : List (String × ParameterValue)} {acc collectionValues : INodeParameters}

theorem multipleCollections_ne_nil
    (hok : multipleCollections options flags root entries acc = .ok collectionValues) :
    collectionValues ≠ [] ↔ acc ≠ [] ∨ entries ≠ [] := by
  induction entries generalizing acc with
  | nil =>
    obtain rfl := Except.ok.inj hok
    simp
  | cons e entries ih =>
    obtain ⟨values, _, hok⟩ := bind_eq_ok.mp hok
    simp [ih hok, setEntry_ne_nil]

/-- One value is there for an item when the call for it returns something. -/
theorem singleCollections_ne_nil {value : ParameterValue}
    (hok : singleCollections options flags root (some value) entries acc = .ok collectionValues) :
    collectionValues ≠ [] ↔ acc ≠ [] ∨ ∃ e ∈ entries, ∃ call parameters,
      lookupEntry e.1 options = some call ∧
      call flags (some root) (some .fixedCollection) e.2.asParameters = .ok parameters ∧
      parameters ≠ [] := by
  induction entries generalizing acc with
  | nil =>
    obtain rfl := Except.ok.inj hok
    simp
  | cons e entries ih =>
    rw [singleCollections] at hok
    simp only [List.exists_mem_cons_iff]
    cases hcall : lookupEntry e.1 options with
    | none =>
      rw [hcall] at hok
      simp [ih hok]
    | some call =>
      rw [hcall] at hok
      obtain ⟨parameters, hparameters, hok⟩ := bind_eq_ok.mp hok
      rw [ih hok]
      cases parameters with
      | nil => simp [hparameters]
      | cons p ps => simp [hparameters, setEntry_ne_nil]

theorem singleCollections_ok {value : ParameterValue}
    (hok : singleCollections options flags root (some value) entries acc = .ok collectionValues) :
    ∀ e ∈ entries, ∀ call, lookupEntry e.1 options = some call →
      ∃ parameters, call flags (some root) (some .fixedCollection) e.2.asParameters =
        .ok parameters := by
  induction entries generalizing acc with
  | nil => exact fun _ h => absurd h List.not_mem_nil
  | cons e entries ih =>
    rw [singleCollections] at hok
    cases hcall : lookupEntry e.1 options with
    | none =>
      rw [hcall] at hok
      exact List.forall_mem_cons.mpr ⟨fun call h => (nomatch hcall.symm.trans h), ih hok⟩
    | some call =>
      rw [hcall] at hok
      obtain ⟨parameters, hparameters, hok⟩ := bind_eq_ok.mp hok
      refine List.forall_mem_cons.mpr ⟨fun call' h => ?_, ih hok⟩
      obtain rfl := Option.some.inj (hcall.symm.trans h)
      exact ⟨parameters, hparameters⟩

/-- What a fixed collection without defaults can give. -/
theorem fixedCollectionValue_cases {default value : ParameterValue} {multipleValues : Option Bool}
    {resolved : Resolved}
    (h : fixedCollectionValue default multipleValues options withoutDefaults root (some value) =
      .ok resolved) :
    (multipleValues = some false ∧ value.truthy = true ∧ value.entries = [] ∧
      resolved = .nodeValues) ∨
    ¬ (multipleValues = some false ∧ value.truthy = true ∧ value.entries = []) ∧
    ∃ collectionValues,
      (if multipleValues = some true then
        multipleCollections options withoutDefaults root value.entries []
      else singleCollections options withoutDefaults root (some value) value.entries []) =
        .ok collectionValues ∧
      ((collectionValues ≠ [] ∧ resolved = .set (.obj collectionValues)) ∨
        (collectionValues = [] ∧ multipleValues = some false ∧ (∃ e es, value = .obj (e :: es)) ∧
          resolved = .setOnly (.obj (value.entries.map fun e => (e.1, .obj [])))) ∨
        (collectionValues = [] ∧ (multipleValues = some false → ∀ e es, value ≠ .obj (e :: es)) ∧
          resolved = .unset)) := by
  simp only [fixedCollectionValue, withoutDefaults, Bool.false_eq_true, if_false, true_and,
    Option.any_some, Option.elim_some, or_false] at h
  split_ifs at h with hempty hmultiple honly honly
  · simp only [Bool.and_eq_true, List.isEmpty_iff] at hempty
    exact Or.inl ⟨hempty.1, hempty.2.1, hempty.2.2, (Except.ok.inj h).symm⟩
  all_goals
    obtain ⟨collectionValues, hvalues, hresolved⟩ := bind_eq_ok.mp h
    simp only [Bool.and_eq_true, List.isEmpty_iff] at hempty
    refine Or.inr ⟨hempty, collectionValues, by simp only [hmultiple, if_true, if_false]; exact hvalues, ?_⟩
    by_cases hne : collectionValues ≠ []
    · rw [if_pos hne] at hresolved
      exact Or.inl ⟨hne, (Except.ok.inj hresolved).symm⟩
    · rw [if_neg hne] at hresolved
      have hnil := not_not.mp hne
      split at hresolved
      · rename_i e es hvalue
        obtain rfl := Option.some.inj hvalue
        first
        | exact Or.inr (Or.inl ⟨hnil, honly, ⟨e, es, rfl⟩, (Except.ok.inj hresolved).symm⟩)
        | exact Or.inr (Or.inr ⟨hnil, fun h' => absurd h' honly, (Except.ok.inj hresolved).symm⟩)
      · rename_i hobj
        exact Or.inr (Or.inr ⟨hnil, fun _ e es he => hobj e es (congrArg some he),
          (Except.ok.inj hresolved).symm⟩)

end Items

theorem keeps_fixedCollection {name : String} {default value : ParameterValue}
    {displayOptions : Option IDisplayOptions} {multipleValues : Option Bool}
    {options : List (String × List INodeProperties)} {root : INodeParameters} :
    Keeps context (.fixedCollection name default displayOptions multipleValues options) root value ↔
      (multipleValues = some true ∧ value.entries ≠ []) ∨
      (multipleValues = some false ∧
        ((value.truthy = true ∧ value.entries = []) ∨ ∃ entries, value = .obj entries)) ∨
      (multipleValues ≠ some true ∧ ∃ e ∈ value.entries, ∃ values item,
        lookupEntry e.1 options = some values ∧ e.2.asParameters = some item ∧
        KeepsAny context values (some root) (some .fixedCollection) item) := by
  constructor
  · intro h
    cases h with
    | multiple hentries => exact Or.inl ⟨rfl, hentries⟩
    | empty htruthy hentries => exact Or.inr (Or.inl ⟨rfl, Or.inl ⟨htruthy, hentries⟩⟩)
    | onlyOne => exact Or.inr (Or.inl ⟨rfl, Or.inr ⟨_, rfl⟩⟩)
    | single hmultiple he hvalues hitem hkeeps =>
      exact Or.inr (Or.inr ⟨hmultiple, _, he, _, _, hvalues, hitem, hkeeps⟩)
  · rintro (⟨rfl, hentries⟩ | ⟨rfl, ⟨htruthy, hentries⟩ | ⟨entries, rfl⟩⟩ |
      ⟨hmultiple, e, he, values, item, hvalues, hitem, hkeeps⟩)
    · exact .multiple hentries
    · exact .empty htruthy hentries
    · exact .onlyOne
    · exact .single hmultiple he hvalues hitem hkeeps

/-- An item is kept when something of it is. -/
theorem exists_kept_item {options : List (String × List INodeProperties)}
    (hoptions : ∀ o ∈ options, ∀ p ∈ o.2, KeepsExactly context p) {root : INodeParameters}
    {entries : List (String × ParameterValue)} {value : ParameterValue}
    {collectionValues : INodeParameters}
    (hok : singleCollections (optionCalls context options) withoutDefaults root (some value) entries []
      = .ok collectionValues) :
    collectionValues ≠ [] ↔ ∃ e ∈ entries, ∃ values item, lookupEntry e.1 options = some values ∧
      e.2.asParameters = some item ∧
      KeepsAny context values (some root) (some .fixedCollection) item := by
  rw [singleCollections_ne_nil hok]
  simp only [ne_eq, not_true_eq_false, false_or, lookupEntry_optionCalls, Option.map_eq_some_iff]
  constructor
  · rintro ⟨e, he, _, parameters, ⟨values, hvalues, rfl⟩, hparameters, hne⟩
    cases hitem : e.2.asParameters with
    | none =>
      rw [hitem] at hparameters
      exact absurd (propertiesCall_none hparameters) hne
    | some item =>
      rw [hitem] at hparameters
      exact ⟨e, he, values, item, hvalues, hitem,
        (keepsAny_iff (hoptions _ (mem_of_lookupEntry hvalues)) hparameters).mp hne⟩
  · rintro ⟨e, he, values, item, hvalues, hitem, hkeeps⟩
    have hcall : lookupEntry e.1 (optionCalls context options) =
        some (propertiesCall context (collectionCalls context values)) := by
      rw [lookupEntry_optionCalls, hvalues, Option.map_some]
    obtain ⟨parameters, hparameters⟩ := singleCollections_ok hok e he _ hcall
    refine ⟨e, he, _, parameters, ⟨values, hvalues, rfl⟩, hparameters, ?_⟩
    rw [hitem] at hparameters
    exact (keepsAny_iff (hoptions _ (mem_of_lookupEntry hvalues)) hparameters).mpr hkeeps

theorem keepsExactly (property : INodeProperties) : KeepsExactly context property := by
  induction property using INodeProperties.induct with
  | simple name type default displayOptions =>
    intro hsimple
    cases hsimple
  | collection name default displayOptions multipleValues options ih =>
    intro _ root value resolved h
    refine iff_of_true ?_ .collection
    rintro rfl
    simp only [collectionCall, collectionValue] at h
    split_ifs at h
    · cases Except.ok.inj h
    · obtain ⟨_, _, h⟩ := bind_eq_ok.mp h
      cases Except.ok.inj h
  | fixedCollection name default displayOptions multipleValues options ih =>
    intro _ root value resolved h
    rw [keeps_fixedCollection]
    rw [collectionCall] at h
    rcases fixedCollectionValue_cases h with ⟨rfl, htruthy, hentries, rfl⟩ |
      ⟨hempty, collectionValues, hvalues, hresolved⟩
    · simp [htruthy, hentries]
    · by_cases hmultiple : multipleValues = some true
      · rw [if_pos hmultiple] at hvalues
        have hne := multipleCollections_ne_nil hvalues
        rcases hresolved with ⟨hkept, rfl⟩ | ⟨_, honly, _⟩ | ⟨hkept, _, rfl⟩
        · simp [hmultiple, by simpa using hne.mp hkept]
        · cases hmultiple.symm.trans honly
        · simp [hmultiple, hkept] at hne ⊢
          exact hne
      · rw [if_neg hmultiple] at hvalues
        have hne := exists_kept_item ih hvalues
        rcases hresolved with ⟨hkept, rfl⟩ | ⟨_, honly, ⟨e, es, rfl⟩, rfl⟩ | ⟨hkept, honly, rfl⟩
        · exact iff_of_true (by simp) (Or.inr (Or.inr ⟨hmultiple, hne.mp hkept⟩))
        · exact iff_of_true (by simp) (Or.inr (Or.inl ⟨honly, Or.inr ⟨_, rfl⟩⟩))
        · refine iff_of_false (fun h => h rfl) ?_
          rintro (⟨hmultiple', _⟩ | ⟨hfalse, hvalue⟩ | ⟨_, hitem⟩)
          · exact hmultiple hmultiple'
          · rcases hvalue with hvalue | ⟨entries, rfl⟩
            · exact hempty ⟨hfalse, hvalue⟩
            · cases entries with
              | nil => exact hempty ⟨hfalse, rfl, rfl⟩
              | cons e es => exact honly hfalse e es rfl
          · exact hne.mpr hitem hkept

end Keeps
end N8n
