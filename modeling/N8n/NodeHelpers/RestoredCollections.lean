import N8n.NodeHelpers.KeptValues

/-!
# Collections that come back

The items of a collection are lists of properties again. What is kept of them gives
with defaults what they give, so a call without defaults can be made up for by one with
defaults at every depth.
-/

namespace N8n

open OrderedMap (lookupEntry setEntry mem_of_lookupEntry)
open FoldM

section Collections
variable {context : NodeContext}

theorem collect_of_none
    {adds : INodeProperties × CollectionCall → Except Failure (Option (Option ParameterValue))}
    {returned : INodeParameters} {properties : List (INodeProperties × CollectionCall)}
    (h : ∀ p ∈ properties, adds p = .ok (some none)) (parameters : INodeParameters) :
    collect adds returned properties parameters = .ok parameters := by
  induction properties with
  | nil => rfl
  | cons p properties ih =>
    rw [collect, h p List.mem_cons_self]
    exact ih fun q hq => h q (List.mem_cons_of_mem p hq)

theorem ShowsNothing.withDefaults {properties : List INodeProperties}
    {root : Option INodeParameters} {parentType : Option ParentType} {values kept : INodeParameters}
    (h : ShowsNothing context properties root parentType values)
    (hok : propertiesCall context (collectionCalls context properties) withoutDefaults root
      parentType (some values) = .ok kept) :
    propertiesCall context (collectionCalls context properties) N8n.withDefaults root parentType
      (some values) = .ok [] := by
  obtain ⟨ordered, check, hpass⟩ := exists_firstPass hok
  rw [propertiesCall_eq hpass rfl]
  exact collect_of_none (fun p hp => addsFor_hidden (h ordered check hpass p hp)) []

section Items
variable {options : List (String × PropertiesCall)} {root : INodeParameters}
  {entries : List (String × ParameterValue)} {value value' : ParameterValue}
  {acc collectionValues : INodeParameters}

theorem multipleItems_roundTrips {itemName : String}
    (hok : multipleItems options withoutDefaults root itemName value = .ok value')
    (htrip : ∀ call, lookupEntry itemName options = some call →
      ∀ items item, value.items = .ok items → item ∈ items →
      RoundTrips call (some root) (some .fixedCollection) item.asParameters) :
    multipleItems options withDefaults root itemName value' =
      multipleItems options withDefaults root itemName value := by
  obtain ⟨items, hitems, hok⟩ := bind_eq_ok.mp hok
  obtain ⟨values, hvalues, hok⟩ := bind_eq_ok.mp hok
  obtain rfl := Except.ok.inj hok
  rw [multipleItems, multipleItems, hitems, ParameterValue.items, ok_bind, ok_bind]
  refine congrArg (· >>= _) (mapM_congr hvalues fun item hitem kept hkept => ?_)
  cases hcall : lookupEntry itemName options with
  | none => rfl
  | some call =>
    rw [hcall] at hkept
    obtain ⟨parameters, hparameters, rfl⟩ := map_eq_ok.mp hkept
    exact congrArg (ParameterValue.obj <$> ·)
      (htrip call hcall items item hitems hitem parameters hparameters)

theorem multipleCollections_roundTrips
    (hok : multipleCollections options withoutDefaults root entries acc = .ok collectionValues)
    (hnodup : (acc.map Prod.fst ++ entries.map Prod.fst).Nodup)
    (htrip : ∀ e ∈ entries, ∀ call, lookupEntry e.1 options = some call →
      ∀ items item, e.2.items = .ok items → item ∈ items →
      RoundTrips call (some root) (some .fixedCollection) item.asParameters) :
    ∃ kept, collectionValues = acc ++ kept ∧
      ∀ acc', multipleCollections options withDefaults root kept acc' =
        multipleCollections options withDefaults root entries acc' := by
  induction entries generalizing acc with
  | nil =>
    obtain rfl := Except.ok.inj hok
    exact ⟨[], (List.append_nil _).symm, fun _ => rfl⟩
  | cons e entries ih =>
    obtain ⟨itemName, itemValue⟩ := e
    obtain ⟨itemKept, hitems, hok⟩ := bind_eq_ok.mp hok
    have hnew : itemName ∉ acc.map Prod.fst := fun h =>
      (List.nodup_append.mp hnodup).2.2 _ h _ List.mem_cons_self rfl
    rw [OrderedMap.setEntry_of_notMem hnew] at hok
    obtain ⟨kept, rfl, hkept⟩ := ih hok (by simpa using hnodup)
      fun e he => htrip e (List.mem_cons_of_mem _ he)
    refine ⟨(itemName, itemKept) :: kept, List.append_assoc _ _ _, fun acc' => ?_⟩
    rw [multipleCollections, multipleCollections,
      multipleItems_roundTrips hitems (htrip _ List.mem_cons_self)]
    exact bind_congr fun itemValues => hkept _

theorem singleCollections_roundTrips
    (hok : singleCollections options withoutDefaults root (some value) entries acc =
      .ok collectionValues)
    (hnodup : (acc.map Prod.fst ++ entries.map Prod.fst).Nodup)
    (htrip : ∀ e ∈ entries, ∀ call, lookupEntry e.1 options = some call →
      RoundTrips call (some root) (some .fixedCollection) e.2.asParameters)
    (hkeeps : ∀ e ∈ entries, ∀ call, lookupEntry e.1 options = some call →
      call withoutDefaults (some root) (some .fixedCollection) e.2.asParameters = .ok [] →
      call withDefaults (some root) (some .fixedCollection) e.2.asParameters = .ok []) :
    ∃ kept, collectionValues = acc ++ kept ∧
      ∀ acc', singleCollections options withDefaults root (some value') kept acc' =
        singleCollections options withDefaults root (some value) entries acc' := by
  induction entries generalizing acc with
  | nil =>
    obtain rfl := Except.ok.inj hok
    exact ⟨[], (List.append_nil _).symm, fun _ => rfl⟩
  | cons e entries ih =>
    obtain ⟨itemName, itemValue⟩ := e
    have hrest : ∀ acc, singleCollections options withoutDefaults root (some value) entries acc =
        .ok collectionValues → (acc.map Prod.fst ++ entries.map Prod.fst).Nodup →
        ∃ kept, collectionValues = acc ++ kept ∧
          ∀ acc', singleCollections options withDefaults root (some value') kept acc' =
            singleCollections options withDefaults root (some value) entries acc' :=
      fun acc hok hnodup => ih hok hnodup (fun e he => htrip e (List.mem_cons_of_mem _ he))
        fun e he => hkeeps e (List.mem_cons_of_mem _ he)
    have hnodup' : (acc.map Prod.fst ++ entries.map Prod.fst).Nodup :=
      hnodup.sublist (List.Sublist.append_left (List.sublist_cons_self _ _) _)
    rw [singleCollections] at hok
    cases hcall : lookupEntry itemName options with
    | none =>
      rw [hcall] at hok
      obtain ⟨kept, hvalues, hkept⟩ := hrest acc hok hnodup'
      refine ⟨kept, hvalues, fun acc' => ?_⟩
      rw [hkept, singleCollections, hcall]
    | some call =>
      rw [hcall] at hok
      obtain ⟨parameters, hparameters, hok⟩ := bind_eq_ok.mp hok
      cases parameters with
      | nil =>
        obtain ⟨kept, hvalues, hkept⟩ := hrest acc hok hnodup'
        refine ⟨kept, hvalues, fun acc' => ?_⟩
        have hnothing := hkeeps _ List.mem_cons_self call hcall hparameters
        rw [hkept, singleCollections, hcall]
        dsimp only at hnothing ⊢
        rw [hnothing]
        rfl
      | cons parameter parameters =>
        have hnew : itemName ∉ acc.map Prod.fst := fun h =>
          (List.nodup_append.mp hnodup).2.2 _ h _ List.mem_cons_self rfl
        simp only [List.isEmpty_cons, Bool.false_eq_true, if_false,
          OrderedMap.setEntry_of_notMem hnew] at hok
        obtain ⟨kept, rfl, hkept⟩ := hrest _ hok (by simpa using hnodup)
        refine ⟨(itemName, .obj (parameter :: parameters)) :: kept, List.append_assoc _ _ _,
          fun acc' => ?_⟩
        have hround := htrip _ List.mem_cons_self call hcall _ hparameters
        rw [singleCollections, singleCollections, hcall]
        dsimp only [ParameterValue.asParameters] at hround ⊢
        rw [hround]
        exact bind_congr fun itemParameters => hkept _

theorem singleCollections_emptied
    (hcall : ∀ e ∈ entries, ∀ call, lookupEntry e.1 options = some call →
      call withDefaults (some root) (some .fixedCollection) (some []) =
        call withDefaults (some root) (some .fixedCollection) e.2.asParameters) :
    singleCollections options withDefaults root (some value')
        (entries.map fun e => (e.1, .obj [])) acc =
      singleCollections options withDefaults root (some value) entries acc := by
  induction entries generalizing acc with
  | nil => rfl
  | cons e entries ih =>
    have hrest := @ih
    replace hrest := fun acc => @hrest acc fun e he => hcall e (List.mem_cons_of_mem _ he)
    rw [List.map_cons, singleCollections, singleCollections]
    cases hlookup : lookupEntry e.1 options with
    | none => exact hrest acc
    | some call =>
      dsimp only [ParameterValue.asParameters]
      rw [hcall e List.mem_cons_self call hlookup]
      exact bind_congr fun itemParameters => hrest _

theorem singleCollections_of_nil
    (hcall : ∀ e ∈ entries, ∀ call, lookupEntry e.1 options = some call →
      call withDefaults (some root) (some .fixedCollection) e.2.asParameters = .ok []) :
    singleCollections options withDefaults root (some value) entries acc = .ok acc := by
  induction entries with
  | nil => rfl
  | cons e entries ih =>
    rw [singleCollections]
    cases hlookup : lookupEntry e.1 options with
    | none => exact ih fun e he => hcall e (List.mem_cons_of_mem _ he)
    | some call =>
      dsimp only
      rw [hcall e List.mem_cons_self call hlookup]
      exact ih fun e he => hcall e (List.mem_cons_of_mem _ he)

end Items

/-! ### One property -/

theorem collection_roundTrips {name : String} {default value : ParameterValue}
    {displayOptions : Option IDisplayOptions} {multipleValues : Option Bool}
    {options : List INodeProperties} {root : INodeParameters} {parentType : Option ParentType}
    (htrip : multipleValues ≠ some true →
      RoundTrips (propertiesCall context (collectionCalls context options)) (some root)
        (some .collection) value.asParameters) :
    CollectionRoundTrips
      (collectionCall context (.collection name default displayOptions multipleValues options))
      root parentType value := by
  intro resolved h
  simp only [collectionCall, collectionValue] at h ⊢
  split_ifs at h with hmultiple
  · obtain rfl := Except.ok.inj h
    rfl
  · obtain ⟨kept, hkept, h⟩ := bind_eq_ok.mp h
    obtain rfl := Except.ok.inj h
    simp only [hmultiple, if_false, ParameterValue.asParameters, htrip hmultiple kept hkept]

section FixedCollection
variable {default value : ParameterValue} {multipleValues : Option Bool}
  {options : List (String × PropertiesCall)} {root : INodeParameters}

theorem fixedCollectionValue_withDefaults (value : Option ParameterValue) :
    fixedCollectionValue default multipleValues options withDefaults root value = (do
      let collectionValues ←
        if multipleValues = some true then
          multipleCollections options withDefaults root (value.getD default).entries []
        else singleCollections options withDefaults root value (value.getD default).entries []
      .ok (.set (.obj collectionValues))) := by
  simp only [fixedCollectionValue, withDefaults, Bool.true_eq_false, false_and, if_false, if_true,
    or_true, Option.elim_some]

theorem fixedCollectionValue_unset (hdefault : default.entries = []) :
    fixedCollectionValue default multipleValues options withDefaults root none =
      .ok (.set (.obj [])) := by
  rw [fixedCollectionValue_withDefaults, Option.getD_none, hdefault]
  split_ifs <;> rfl

end FixedCollection

section Restored
variable {name : String} {default : ParameterValue} {displayOptions : Option IDisplayOptions}
  {multipleValues : Option Bool} {options : List (String × List INodeProperties)}
  {root : INodeParameters} {parentType : Option ParentType}
  {entries : List (String × ParameterValue)}

/-- The calls for the items of a collection. -/
theorem forall_optionCalls {P : (String × ParameterValue) → PropertiesCall → Prop}
    (h : ∀ e ∈ entries, ∀ values, lookupEntry e.1 options = some values →
      P e (propertiesCall context (collectionCalls context values))) :
    ∀ e ∈ entries, ∀ call, lookupEntry e.1 (optionCalls context options) = some call → P e call := by
  intro e he call hcall
  rw [lookupEntry_optionCalls] at hcall
  obtain ⟨values, hvalues, rfl⟩ := Option.map_eq_some_iff.mp hcall
  exact h e he values hvalues

theorem multiple_roundTrips (hnodup : (entries.map Prod.fst).Nodup)
    (htrip : ∀ e ∈ entries, ∀ values items item, lookupEntry e.1 options = some values →
      e.2.items = .ok items → item ∈ items →
      RoundTrips (propertiesCall context (collectionCalls context values)) (some root)
        (some .fixedCollection) item.asParameters)
    (hempty : entries = [] → parentType ≠ some .collection ∧ default.entries = []) :
    CollectionRoundTrips
      (collectionCall context (.fixedCollection name default displayOptions (some true) options))
      root parentType (.obj entries) := by
  intro resolved h
  rw [collectionCall] at h ⊢
  rcases fixedCollectionValue_cases h with ⟨honly, _⟩ | ⟨_, collectionValues, hvalues, hresolved⟩
  · cases honly
  rw [if_pos rfl] at hvalues
  have hne := multipleCollections_ne_nil hvalues
  rcases hresolved with ⟨_, rfl⟩ | ⟨_, honly, _⟩ | ⟨hnil, _, rfl⟩
  · obtain ⟨kept, rfl, hkept⟩ := multipleCollections_roundTrips hvalues hnodup
      (forall_optionCalls fun e he values hlookup items item => htrip e he values items item hlookup)
    simp only [fixedCollectionValue_withDefaults, if_true]
    exact congrArg (· >>= _) (hkept [])
  · cases honly
  · have hentries : entries = [] := by
      by_contra hentries
      exact hne.mpr (Or.inr hentries) hnil
    obtain ⟨hparent, hdefault⟩ := hempty hentries
    refine ⟨hparent, ?_⟩
    rw [fixedCollectionValue_unset hdefault, fixedCollectionValue_withDefaults, hentries]
    rfl

theorem emptied_roundTrips (hmultiple : multipleValues ≠ some true)
    (hvalues : singleCollections (optionCalls context options) withoutDefaults root
      (some (.obj entries)) entries [] = .ok [])
    (htrip : ∀ e ∈ entries, ∀ values, lookupEntry e.1 options = some values →
      RoundTrips (propertiesCall context (collectionCalls context values)) (some root)
        (some .fixedCollection) e.2.asParameters) :
    fixedCollectionValue default multipleValues (optionCalls context options) withDefaults root
        (some (.obj (entries.map fun e => (e.1, .obj [])))) =
      fixedCollectionValue default multipleValues (optionCalls context options) withDefaults root
        (some (.obj entries)) := by
  simp only [fixedCollectionValue_withDefaults, hmultiple, if_false]
  refine congrArg (· >>= _) (singleCollections_emptied fun e he call hcall => ?_)
  obtain ⟨parameters, hparameters⟩ := singleCollections_ok hvalues e he call hcall
  have hnil : parameters = [] := by
    by_contra hne
    exact (singleCollections_ne_nil hvalues).mpr
      (Or.inr ⟨e, he, call, parameters, hcall, hparameters, hne⟩) rfl
  subst hnil
  have htrips : RoundTrips call (some root) (some .fixedCollection) e.2.asParameters :=
    forall_optionCalls
      (P := fun e call => RoundTrips call (some root) (some .fixedCollection) e.2.asParameters)
      htrip e he call hcall
  exact htrips [] hparameters

theorem single_roundTrips (hmultiple : multipleValues ≠ some true)
    (hnodup : (entries.map Prod.fst).Nodup)
    (hitem : ∀ e ∈ entries, ∀ values, lookupEntry e.1 options = some values →
      ∃ item, e.2.asParameters = some item)
    (htrip : ∀ e ∈ entries, ∀ values, lookupEntry e.1 options = some values →
      RoundTrips (propertiesCall context (collectionCalls context values)) (some root)
        (some .fixedCollection) e.2.asParameters)
    (hkept : ∀ e ∈ entries, ∀ values item, lookupEntry e.1 options = some values →
      e.2.asParameters = some item →
      KeepsAny context values (some root) (some .fixedCollection) item ∨
        ShowsNothing context values (some root) (some .fixedCollection) item)
    (hempty : (∀ e ∈ entries, ∀ values item, lookupEntry e.1 options = some values →
        e.2.asParameters = some item →
        ¬ KeepsAny context values (some root) (some .fixedCollection) item) →
      parentType ≠ some .collection ∧ default.entries = []) :
    CollectionRoundTrips
      (collectionCall context (.fixedCollection name default displayOptions multipleValues options))
      root parentType (.obj entries) := by
  have hnothing : ∀ e ∈ entries, ∀ values, lookupEntry e.1 options = some values →
      propertiesCall context (collectionCalls context values) withoutDefaults (some root)
        (some .fixedCollection) e.2.asParameters = .ok [] →
      propertiesCall context (collectionCalls context values) withDefaults (some root)
        (some .fixedCollection) e.2.asParameters = .ok [] := by
    intro e he values hvalues hok
    obtain ⟨item, heq⟩ := hitem e he values hvalues
    rw [heq] at hok ⊢
    rcases hkept e he values item hvalues heq with hkeeps | hshows
    · exact absurd rfl ((keepsAny_iff (fun p _ => keepsExactly p) hok).mpr hkeeps)
    · exact hshows.withDefaults hok
  intro resolved h
  rw [collectionCall] at h ⊢
  rcases fixedCollectionValue_cases h with ⟨_, _, _, rfl⟩ | ⟨_, collectionValues, hvalues, hresolved⟩
  · trivial
  rw [if_neg hmultiple] at hvalues
  rcases hresolved with ⟨_, rfl⟩ | ⟨rfl, _, _, rfl⟩ | ⟨rfl, _, rfl⟩
  · obtain ⟨kept, rfl, hkept⟩ := singleCollections_roundTrips hvalues hnodup
      (forall_optionCalls htrip) (forall_optionCalls hnothing)
    simp only [fixedCollectionValue_withDefaults, hmultiple, if_false]
    exact congrArg (· >>= _) (hkept [])
  · exact emptied_roundTrips hmultiple hvalues htrip
  · have hkeepsNot : ∀ e ∈ entries, ∀ values item, lookupEntry e.1 options = some values →
        e.2.asParameters = some item →
        ¬ KeepsAny context values (some root) (some .fixedCollection) item := by
      intro e he values item hlookup heq hkeeps
      exact (exists_kept_item (fun o _ p _ => keepsExactly p) hvalues).mpr
        ⟨e, he, values, item, hlookup, heq, hkeeps⟩ rfl
    obtain ⟨hparent, hdefault⟩ := hempty hkeepsNot
    refine ⟨hparent, ?_⟩
    rw [fixedCollectionValue_unset hdefault]
    simp only [fixedCollectionValue_withDefaults, hmultiple, if_false, Option.getD_some,
      ParameterValue.entries]
    rw [singleCollections_of_nil (forall_optionCalls fun e he values hlookup => ?_)]
    · rfl
    · obtain ⟨parameters, hparameters⟩ := singleCollections_ok hvalues e he _
        (by rw [lookupEntry_optionCalls, hlookup, Option.map_some])
      have hnil : parameters = [] := by
        by_contra hne
        exact (singleCollections_ne_nil hvalues).mpr
          (Or.inr ⟨e, he, _, parameters, by rw [lookupEntry_optionCalls, hlookup, Option.map_some],
            hparameters, hne⟩) rfl
      subst hnil
      exact hnothing e he values hlookup hparameters

theorem onlyDefaults_roundTrips
    (htrip : ∀ e ∈ entries, ∀ values, lookupEntry e.1 options = some values →
      RoundTrips (propertiesCall context (collectionCalls context values)) (some root)
        (some .fixedCollection) e.2.asParameters)
    (hdefaults : ∀ e ∈ entries, ∀ values item, lookupEntry e.1 options = some values →
      e.2.asParameters = some item →
      ¬ KeepsAny context values (some root) (some .fixedCollection) item) :
    CollectionRoundTrips
      (collectionCall context (.fixedCollection name default displayOptions (some false) options))
      root parentType (.obj entries) := by
  intro resolved h
  rw [collectionCall] at h ⊢
  rcases fixedCollectionValue_cases h with ⟨_, _, _, rfl⟩ |
    ⟨hempty, collectionValues, hvalues, hresolved⟩
  · trivial
  rw [if_neg (by simp)] at hvalues
  rcases hresolved with ⟨hne, rfl⟩ | ⟨rfl, _, _, rfl⟩ | ⟨_, honly, rfl⟩
  · obtain ⟨e, he, values, item, hlookup, heq, hkeeps⟩ :=
      (exists_kept_item (fun o _ p _ => keepsExactly p) hvalues).mp hne
    exact absurd hkeeps (hdefaults e he values item hlookup heq)
  · exact emptied_roundTrips (by simp) hvalues htrip
  · cases entries with
    | nil => exact absurd ⟨rfl, rfl, rfl⟩ hempty
    | cons e es => exact absurd rfl (honly rfl e es)

end Restored

/-! ### Every property -/

theorem ParametersRestored.exists_values {properties : List INodeProperties}
    {root : Option INodeParameters} {parentType : Option ParentType}
    {values : Option INodeParameters}
    (h : ParametersRestored context properties root parentType values) :
    ∃ item, values = some item := by
  cases h
  exact ⟨_, rfl⟩

theorem CollectionRestored.roundTrips (property : INodeProperties) :
    ∀ root parentType value, CollectionRestored context property root parentType value →
      CollectionRoundTrips (collectionCall context property) root parentType value := by
  induction property using INodeProperties.induct with
  | simple => exact fun _ _ _ h => nomatch h
  | collection name default displayOptions multipleValues options ih =>
    intro root parentType value h
    cases h with
    | values => exact collection_roundTrips fun h => absurd rfl h
    | collection hrestored => exact collection_roundTrips fun _ => hrestored.roundTrips ih
  | fixedCollection name default displayOptions multipleValues options ih =>
    intro root parentType value h
    cases h with
    | multiple hnodup hrestored hempty =>
      exact multiple_roundTrips hnodup (fun e he values items item hvalues hitems hitem =>
        (hrestored e he values items item hvalues hitems hitem).roundTrips
          (ih _ (mem_of_lookupEntry hvalues))) hempty
    | single hmultiple hnodup hrestored hkept hempty =>
      exact single_roundTrips hmultiple hnodup
        (fun e he values hvalues => (hrestored e he values hvalues).exists_values)
        (fun e he values hvalues => (hrestored e he values hvalues).roundTrips
          (ih _ (mem_of_lookupEntry hvalues))) hkept hempty
    | onlyDefaults hrestored hdefaults =>
      exact onlyDefaults_roundTrips (fun e he values hvalues =>
        (hrestored e he values hvalues).roundTrips (ih _ (mem_of_lookupEntry hvalues))) hdefaults

end Collections

/-! ### A list of rules -/

section Rules

def plainContext : NodeContext :=
  ⟨⟨fun values name => lookupEntry name values, fun _ _ => none, fun _ _ => .ok false⟩, none, none⟩

def modeProperty : INodeProperties := .simple "mode" .options (.str "equals") none

def rulesProperty : INodeProperties :=
  .fixedCollection "rules" (.obj []) none none [("values", [modeProperty])]

def rulesValue (mode : String) : INodeParameters :=
  [("rules", .obj [("values", .obj [("mode", .str mode)])])]

theorem modeProperty_restored (root : INodeParameters) :
    ParametersRestored plainContext [modeProperty] (some root) (some .fixedCollection)
        (some [("mode", .str "contains")]) ∧
      KeepsAny plainContext [modeProperty] (some root) (some .fixedCollection)
        [("mode", .str "contains")] := by
  have hpass : FirstPass plainContext [modeProperty] (some root) (some .fixedCollection)
      [("mode", .str "contains")] [(modeProperty, collectionCall plainContext modeProperty)]
      [("mode", .str "contains")] := ⟨rfl, rfl⟩
  have hrestored : SimpleRestored plainContext
      [(modeProperty, collectionCall plainContext modeProperty)] [("mode", .str "contains")]
      (some root) (some .fixedCollection) [("mode", .str "contains")] modeProperty := by
    intro value hvalue
    obtain rfl := Option.some.inj hvalue
    refine ⟨fun q hq _ _ => ?_, Or.inl ⟨_, List.mem_cons_self, rfl, rfl, rfl⟩⟩
    rw [List.mem_singleton.mp hq]
    rfl
  refine ⟨.intro ?_ ?_ ?_ ?_, .simple hpass List.mem_cons_self rfl rfl rfl⟩ <;>
    intro ordered check hpass' <;> obtain ⟨rfl, rfl⟩ := hpass.unique hpass'
  · exact ⟨fun _ _ => hrestored, fun _ _ => trivial⟩
  · intro p hp _
    obtain rfl := List.mem_singleton.mp hp
    exact hrestored
  · intro p hp q hq hsimple
    obtain rfl := List.mem_singleton.mp hp
    cases hsimple
  · intro p hp _ hsimple
    obtain rfl := List.mem_singleton.mp hp
    cases hsimple

def resourceProperty : INodeProperties := .simple "resource" .options (.str "user") none

/-- The resource is the default one. -/
def userRules : INodeParameters := ("resource", .str "user") :: rulesValue "contains"

theorem userRules_restored :
    ParametersRestored plainContext [resourceProperty, rulesProperty] none none (some userRules) := by
  have hpass : FirstPass plainContext [resourceProperty, rulesProperty] none none userRules
      (collectionCalls plainContext [resourceProperty, rulesProperty])
      [("resource", .str "user")] := ⟨rfl, rfl⟩
  have hcases : ∀ {p}, p ∈ collectionCalls plainContext [resourceProperty, rulesProperty] →
      p = (resourceProperty, collectionCall plainContext resourceProperty) ∨
        p = (rulesProperty, collectionCall plainContext rulesProperty) := by
    intro p hp
    simpa [collectionCalls] using hp
  have hresource : SimpleRestored plainContext
      (collectionCalls plainContext [resourceProperty, rulesProperty]) [("resource", .str "user")]
      none none userRules resourceProperty := by
    intro value hvalue
    obtain rfl := Option.some.inj hvalue
    refine ⟨fun q hq hname _ => ?_, Or.inr ⟨by simp, rfl⟩⟩
    rcases hcases hq with rfl | rfl
    · rfl
    · exact absurd hname (by decide)
  refine .intro ?_ ?_ ?_ ?_ <;>
    intro ordered check hpass' <;> obtain ⟨rfl, rfl⟩ := hpass.unique hpass'
  · exact ⟨fun _ _ => hresource, fun _ _ => ⟨fun _ _ => trivial, fun _ _ => trivial⟩⟩
  · intro p hp _
    rcases hcases hp with rfl | rfl
    · exact hresource
    · trivial
  · intro p hp q hq hsimple _ _ hname
    rcases hcases hp with rfl | rfl <;> rcases hcases hq with rfl | rfl
    · rfl
    · cases hsimple
    · exact absurd hname (by decide)
    · rfl
  · intro p hp _ hsimple value hvalue
    rcases hcases hp with rfl | rfl
    · cases hsimple
    obtain rfl := Option.some.inj hvalue
    have hitem : ∀ e ∈ [("values", ParameterValue.obj [("mode", .str "contains")])], ∀ values,
        lookupEntry e.1 [("values", [modeProperty])] = some values →
        values = [modeProperty] ∧ e.2.asParameters = some [("mode", .str "contains")] := by
      intro e he values hvalues
      obtain rfl := List.mem_singleton.mp he
      exact ⟨(Option.some.inj hvalues).symm, rfl⟩
    refine .single (by simp) (by simp) (fun e he values hvalues => ?_)
      (fun e he values item hvalues hitem' => Or.inl ?_) fun hnot => absurd ?_
        (hnot _ List.mem_cons_self _ _ rfl rfl)
    · obtain ⟨rfl, heq⟩ := hitem e he values hvalues
      rw [heq]
      exact (modeProperty_restored _).1
    · obtain ⟨rfl, heq⟩ := hitem e he values hvalues
      obtain rfl := Option.some.inj (heq.symm.trans hitem')
      exact (modeProperty_restored _).2
    · exact (modeProperty_restored _).2

end Rules
end N8n
