import N8n.Foundations.FoldM
import N8n.NodeHelpers.ResolveOrder
import Mathlib.Data.List.Induction
import Mathlib.Data.List.Nodup
import Mathlib.Logic.Relation

/-!
# When the order of the parameters is found

The `continue` after a missing dependency is one of the inner loop. So a parameter goes into the
order when the queue first comes to it, whether its dependencies are there or not, and once more
for each time it was put back.
-/

namespace N8n.ResolveOrder

/-- The only error of the loop. -/
def maxIterations : Failure :=
  .applicationError ("Could not resolve parameter dependencies. Max iterations " ++
    "reached! Hint: If `displayOptions` are specified in any child parameter of a parent " ++
    "`collection` or `fixedCollection`, remove the `displayOptions` from the child parameter.")

section Loop
variable (names : List String) (dependencies : IParameterDependencies)

def needed (index : ℕ) : List String := (dependencies.get? (names.getD index "")).getD []

def missing (resolvedParameters : List String) (index : ℕ) : List String :=
  (needed names dependencies index).filter fun dependency =>
    dependency ∉ resolvedParameters ∧ ¬ dependency.startsWith "/"

/-- The state after the round, unless that is one too many. -/
def next (index : ℕ) (rest : List ℕ) (s : ResolveState) : ResolveState :=
  let indexToResolve := rest ++ (missing names dependencies s.resolvedParameters index).map fun _ => index
  { executionOrder := s.executionOrder ++ [index]
    indexToResolve
    resolvedParameters := s.resolvedParameters ++ [names.getD index ""]
    lastIndexLength :=
      if needed names dependencies index = [] then s.lastIndexLength else indexToResolve.length
    lastIndexReduction :=
      if needed names dependencies index ≠ [] ∧ indexToResolve.length < s.lastIndexLength then
        s.iterations + 1
      else s.lastIndexReduction
    iterations := s.iterations + 1 }

def Exhausted (index : ℕ) (s : ResolveState) : Prop :=
  needed names dependencies index ≠ [] ∧ s.lastIndexReduction + names.length < s.iterations

instance (index : ℕ) (s : ResolveState) : Decidable (Exhausted names dependencies index s) :=
  inferInstanceAs (Decidable (_ ∧ _))

theorem resolveIndex_eq (index : ℕ) (rest : List ℕ) (s : ResolveState) :
    resolveIndex names dependencies index rest s =
      if Exhausted names dependencies index (next names dependencies index rest s) then
        .error maxIterations
      else .ok (next names dependencies index rest s) := by
  have hneeded : (dependencies.get? (names.getD index "")).getD [] =
      needed names dependencies index := rfl
  rw [resolveIndex]
  simp only [hneeded]
  by_cases h : needed names dependencies index = []
  · simp [h, Exhausted, next, missing]
  · rw [if_neg h]
    simp only [Exhausted, next, missing, h, ne_eq, not_false_eq_true, true_and, if_false,
      gt_iff_lt, Nat.cast_add, Nat.cast_one]
    rfl

variable {names dependencies}

theorem resolveLoop_cons {fuel index : ℕ} {rest : List ℕ} {s : ResolveState}
    (h : s.indexToResolve = index :: rest) :
    resolveLoop names dependencies (fuel + 1) s =
      if Exhausted names dependencies index (next names dependencies index rest s) then
        .error maxIterations
      else resolveLoop names dependencies fuel (next names dependencies index rest s) := by
  rw [resolveLoop, h]
  dsimp only
  rw [resolveIndex_eq]
  split_ifs <;> rfl

theorem resolveLoop_nil {fuel : ℕ} {s : ResolveState} (h : s.indexToResolve = []) :
    resolveLoop names dependencies (fuel + 1) s = .ok s.executionOrder := by
  rw [resolveLoop, h]

end Loop

/-! ### Dependencies -/

section Dependencies

abbrev Parameters := List (String × Option IDisplayOptions)

def RulesName (rules : Option DisplayRules) (dependency : String) : Prop :=
  dependency ∈ (rules.getD []).map Prod.fst

/-- A rule of a parameter of the name looks at the dependency, which is not one of the node. -/
def DependsOn (parameters : Parameters) (name dependency : String) : Prop :=
  ∃ options : IDisplayOptions, (name, some options) ∈ parameters ∧
    (RulesName options.«show» dependency ∨ RulesName options.hide dependency) ∧
    ¬ dependency.startsWith "@" = true

theorem mem_addDependencies {rules : DisplayRules} {found : List String} {dependency : String} :
    dependency ∈ addDependencies found rules ↔
      dependency ∈ found ∨ (dependency ∈ rules.map Prod.fst ∧ ¬ dependency.startsWith "@" = true) := by
  induction rules generalizing found with
  | nil => simp [addDependencies]
  | cons rule rules ih =>
    rw [addDependencies, List.foldl_cons, ← addDependencies, ih, List.map_cons, List.mem_cons]
    split_ifs with h
    · rcases h with h | h
      · by_cases hd : dependency = rule.1
        · simp [hd, h]
        · simp [hd]
      · by_cases hd : dependency = rule.1
        · simp [hd, h]
        · simp [hd]
    · rw [not_or] at h
      by_cases hd : dependency = rule.1
      · simp [hd, h.2]
      · simp [hd]

theorem getParameterDependencies_concat (parameters : Parameters)
    (parameter : String × Option IDisplayOptions) :
    getParameterDependencies (parameters ++ [parameter]) =
      let found := ((getParameterDependencies parameters).get? parameter.1).getD []
      (getParameterDependencies parameters).set parameter.1 <| match parameter.2 with
        | none => found
        | some options =>
          addDependencies (addDependencies found (options.«show».getD [])) (options.hide.getD []) := by
  rw [getParameterDependencies, List.foldl_append, List.foldl_cons, List.foldl_nil,
    ← getParameterDependencies]
  cases parameter.2 <;> rfl

theorem dependsOn_concat {parameters : Parameters} {parameter : String × Option IDisplayOptions}
    {name dependency : String} :
    DependsOn (parameters ++ [parameter]) name dependency ↔
      DependsOn parameters name dependency ∨ DependsOn [parameter] name dependency := by
  simp only [DependsOn, List.mem_append, or_and_right, exists_or]

theorem mem_dependencies {parameters : Parameters} {name dependency : String} :
    dependency ∈ ((getParameterDependencies parameters).get? name).getD [] ↔
      DependsOn parameters name dependency := by
  induction parameters using List.reverseRecOn with
  | nil => simp [getParameterDependencies, DependsOn]
  | append_singleton parameters parameter ih =>
    obtain ⟨name', options⟩ := parameter
    rw [getParameterDependencies_concat, dependsOn_concat, ← ih, OrderedMap.get?_set]
    by_cases hname : name' = name
    · subst hname
      rw [if_pos rfl, Option.getD_some]
      cases options with
      | none => simp [DependsOn]
      | some options =>
        simp only [mem_addDependencies, DependsOn, RulesName, List.mem_singleton, Prod.mk.injEq,
          Option.some.injEq, true_and, exists_eq_left]
        tauto
    · rw [if_neg hname]
      simp [DependsOn, Ne.symm hname]

theorem mem_needed {parameters : Parameters} {names : List String} {index : ℕ} {dependency : String} :
    dependency ∈ needed names (getParameterDependencies parameters) index ↔
      DependsOn parameters (names.getD index "") dependency :=
  mem_dependencies

theorem DependsOn.mem_names {parameters : Parameters} {name dependency : String}
    (h : DependsOn parameters name dependency) : name ∈ parameters.map Prod.fst := by
  obtain ⟨options, hmem, -⟩ := h
  exact List.mem_map_of_mem hmem

end Dependencies

/-! ### The rounds of the loop -/

section Rounds
variable {names : List String} {dependencies : IParameterDependencies} {s : ResolveState}
  {index : ℕ} {rest : List ℕ}

/-- Where nothing is missing the queue gets shorter, which allows for more rounds. -/
theorem next_of_met (hmissing : missing names dependencies s.resolvedParameters index = [])
    (hqueue : s.indexToResolve = index :: rest)
    (hle : s.indexToResolve.length ≤ s.lastIndexLength) :
    (next names dependencies index rest s).indexToResolve = rest ∧
      rest.length ≤ (next names dependencies index rest s).lastIndexLength ∧
      ¬ Exhausted names dependencies index (next names dependencies index rest s) := by
  rw [hqueue, List.length_cons] at hle
  have hrest : (next names dependencies index rest s).indexToResolve = rest := by
    simp [next, hmissing]
  refine ⟨hrest, ?_, ?_⟩
  · simp only [next, hmissing, List.map_nil, List.append_nil]
    split_ifs <;> omega
  · rintro ⟨hneeded, hlt⟩
    simp only [next, hmissing, List.map_nil, List.append_nil] at hlt
    rw [if_pos ⟨hneeded, by omega⟩] at hlt
    omega

/-- Every index that is in the order or in the queue ends up in the order, as often. -/
theorem count_le_of_resolveLoop {fuel : ℕ} {order : List ℕ}
    (h : resolveLoop names dependencies fuel s = .ok order) (i : ℕ) :
    s.executionOrder.count i + s.indexToResolve.count i ≤ order.count i := by
  induction fuel generalizing s with
  | zero => cases h
  | succ fuel ih =>
    cases hqueue : s.indexToResolve with
    | nil =>
      rw [resolveLoop_nil hqueue] at h
      obtain rfl := Except.ok.inj h
      simp
    | cons index rest =>
      rw [resolveLoop_cons hqueue] at h
      split_ifs at h
      have hle := ih h
      simp only [next, List.count_append, List.count_cons] at hle ⊢
      omega

variable (names) in
/-- The first pass has come to the parameter with index `k`. -/
structure FirstPass (k : ℕ) (pushed : List ℕ) (s : ResolveState) : Prop where
  order : s.executionOrder = List.range k
  queue : s.indexToResolve = List.range' k (names.length - k) ++ pushed
  resolved : s.resolvedParameters = names.take k

theorem firstPass_start (lastIndexLength : ℕ) (lastIndexReduction : ℤ) (iterations : ℕ) :
    FirstPass names 0 []
      ⟨[], List.range names.length, [], lastIndexLength, lastIndexReduction, iterations⟩ :=
  ⟨rfl, by simp [List.range_eq_range'], rfl⟩

theorem FirstPass.queue_cons {k : ℕ} {pushed : List ℕ} (h : FirstPass names k pushed s)
    (hk : k < names.length) :
    s.indexToResolve = k :: (List.range' (k + 1) (names.length - (k + 1)) ++ pushed) := by
  rw [h.queue, show names.length - k = names.length - (k + 1) + 1 by omega, List.range'_succ,
    List.cons_append]

theorem take_getD {k : ℕ} (hk : k < names.length) :
    names.take k ++ [names.getD k ""] = names.take (k + 1) := by
  rw [List.take_succ_eq_append_getElem hk, List.getD_eq_getElem?_getD, List.getElem?_eq_getElem hk,
    Option.getD_some]

variable (dependencies) in
theorem FirstPass.next {k : ℕ} {pushed : List ℕ} (h : FirstPass names k pushed s)
    (hk : k < names.length) :
    FirstPass names (k + 1)
      (pushed ++ (missing names dependencies (names.take k) k).map fun _ => k)
      (next names dependencies k (List.range' (k + 1) (names.length - (k + 1)) ++ pushed) s) where
  order := by rw [ResolveOrder.next, h.order, List.range_succ]
  queue := by rw [ResolveOrder.next, h.resolved, List.append_assoc]
  resolved := by rw [ResolveOrder.next, h.resolved, take_getD hk]

theorem FirstPass.met {k fuel : ℕ} {order : List ℕ} (h : FirstPass names k [] s)
    (hloop : resolveLoop names dependencies fuel s = .ok order) (hnodup : order.Nodup) :
    ∀ index, k ≤ index → index < names.length →
      missing names dependencies (names.take index) index = [] := by
  induction fuel generalizing k s with
  | zero => cases hloop
  | succ fuel ih =>
    intro index hle hlt
    rw [resolveLoop_cons (h.queue_cons (by omega))] at hloop
    split_ifs at hloop
    have hnext : FirstPass names (k + 1) _ _ := h.next dependencies (by omega)
    have hmet : missing names dependencies (names.take k) k = [] := by
      have hcount := count_le_of_resolveLoop hloop k
      have hone := List.nodup_iff_count_le_one.mp hnodup k
      rw [hnext.order, hnext.queue] at hcount
      simp only [List.range_succ, List.count_append, List.nil_append, List.count_singleton_self,
        List.map_const', List.count_replicate_self] at hcount
      exact List.eq_nil_of_length_eq_zero (by omega)
    rw [hmet] at hnext
    by_cases hindex : index = k
    · exact hindex ▸ hmet
    · exact ih hnext hloop index (by omega) hlt

theorem FirstPass.resolveLoop_eq {k fuel : ℕ} (h : FirstPass names k [] s) (hk : k ≤ names.length)
    (hle : s.indexToResolve.length ≤ s.lastIndexLength) (hfuel : names.length - k < fuel)
    (hmet : ∀ index, k ≤ index → index < names.length →
      missing names dependencies (names.take index) index = []) :
    resolveLoop names dependencies fuel s = .ok (List.range names.length) := by
  induction fuel generalizing k s with
  | zero => omega
  | succ fuel ih =>
    by_cases hend : k = names.length
    · subst hend
      rw [resolveLoop_nil (by rw [h.queue, Nat.sub_self]; rfl), h.order]
    · have hlt : k < names.length := by omega
      have hmissing := hmet k le_rfl hlt
      have hqueue := h.queue_cons hlt
      rw [← h.resolved] at hmissing
      obtain ⟨hrest, hle', hcontinue⟩ := next_of_met hmissing hqueue hle
      rw [resolveLoop_cons hqueue, if_neg hcontinue]
      have hnext : FirstPass names (k + 1) _ _ := h.next dependencies hlt
      rw [← h.resolved, hmissing] at hnext
      exact ih hnext hlt (by rw [hrest]; exact hle') (by omega) fun index hle => hmet index (by omega)

end Rounds

/-! ### The order that is found -/

section Order
variable (parameters : Parameters)

def resolveOrder : Except Failure (List ℕ) :=
  getParameterResolveOrder (parameters.map Prod.fst) (getParameterDependencies parameters)

def nameOf (index : ℕ) : String := (parameters.map Prod.fst).getD index ""

/-- A dependency that is looked for among the parameters, and not at the root of the node. -/
def Needs (index : ℕ) (dependency : String) : Prop :=
  DependsOn parameters (nameOf parameters index) dependency ∧ ¬ dependency.startsWith "/" = true

/-- Every index once, each after an index of every name that its parameter depends on. -/
structure InOrder (order : List ℕ) : Prop where
  once : order.Perm (List.range parameters.length)
  after : ∀ before index rest, order = before ++ index :: rest →
    ∀ dependency, Needs parameters index dependency →
      ∃ earlier ∈ before, nameOf parameters earlier = dependency

/-- Every parameter is declared after parameters of all the names that it depends on. -/
def DeclaredAfter : Prop :=
  ∀ index < parameters.length, ∀ dependency, Needs parameters index dependency →
    dependency ∈ (parameters.map Prod.fst).take index

variable {parameters}

theorem missing_eq_nil {resolvedParameters : List String} {index : ℕ} :
    missing (parameters.map Prod.fst) (getParameterDependencies parameters) resolvedParameters
      index = [] ↔ ∀ dependency, Needs parameters index dependency →
        dependency ∈ resolvedParameters := by
  rw [missing, List.filter_eq_nil_iff]
  simp only [mem_needed, Needs, nameOf, decide_eq_true_eq]
  exact forall_congr' fun dependency => by tauto

theorem exists_of_mem_take {index : ℕ} {dependency : String}
    (h : dependency ∈ (parameters.map Prod.fst).take index) :
    ∃ earlier < index, nameOf parameters earlier = dependency := by
  obtain ⟨earlier, hlt, hget⟩ := List.mem_iff_getElem.mp h
  rw [List.length_take] at hlt
  refine ⟨earlier, by omega, ?_⟩
  rw [List.getElem_take] at hget
  rw [nameOf, List.getD_eq_getElem?_getD, List.getElem?_eq_getElem (by omega), Option.getD_some, hget]

/-- `unit` is displayed for a `mode`, which is declared after it. -/
def unitBeforeMode : Parameters :=
  [("unit", some ⟨some [("mode", [.value (.str "every")])], none⟩), ("mode", none)]

theorem unitBeforeMode_dependsOn {name dependency : String} :
    DependsOn unitBeforeMode name dependency ↔ name = "unit" ∧ dependency = "mode" := by
  constructor
  · rintro ⟨options, hmem, hrule, -⟩
    simp only [unitBeforeMode, List.mem_cons, Prod.mk.injEq, Option.some.injEq, List.not_mem_nil,
      reduceCtorEq, and_false, or_false] at hmem
    obtain ⟨rfl, rfl⟩ := hmem
    simpa [RulesName] using hrule
  · rintro ⟨rfl, rfl⟩
    exact ⟨_, List.mem_cons_self, Or.inl (by simp [RulesName]), by simp⟩

end Order

/-! ### The end of the loop -/

section Ends
variable {names : List String} {dependencies : IParameterDependencies} {s : ResolveState}
  {index : ℕ} {rest : List ℕ}

/-- What holds of the counters after every round. -/
structure Sound (s : ResolveState) : Prop where
  length_le : s.indexToResolve.length ≤ s.lastIndexLength
  reduction_le : s.lastIndexReduction ≤ s.iterations
  reduction_ge : -1 ≤ s.lastIndexReduction

theorem sound_start : Sound ⟨[], List.range names.length, [], names.length, -1, 0⟩ :=
  ⟨by simp, by simp, le_rfl⟩

variable (names dependencies) in
theorem Sound.next (h : Sound s) (hqueue : s.indexToResolve = index :: rest) :
    Sound (next names dependencies index rest s) := by
  obtain ⟨hlength, hle, hge⟩ := h
  rw [hqueue, List.length_cons] at hlength
  refine ⟨?_, ?_, ?_⟩
  · by_cases hneeded : needed names dependencies index = []
    · simp only [ResolveOrder.next, missing, hneeded, List.filter_nil, List.map_nil,
        List.append_nil, if_true]
      omega
    · simp only [ResolveOrder.next, if_neg hneeded, le_refl]
  · simp only [ResolveOrder.next]
    split_ifs <;> push_cast <;> omega
  · simp only [ResolveOrder.next]
    split_ifs <;> omega

/-- The names of the parameters that come first, counted with what they need. -/
def neededBy (dependencies : IParameterDependencies) (names : List String) : ℕ :=
  (names.map fun name => ((dependencies.get? name).getD []).length).sum

theorem neededBy_take {k : ℕ} (hk : k < names.length) (resolvedParameters : List String) :
    neededBy dependencies (names.take k) +
        (missing names dependencies resolvedParameters k).length ≤
      neededBy dependencies (names.take (k + 1)) := by
  rw [← take_getD hk, neededBy, neededBy, List.map_append, List.sum_append, List.map_singleton,
    List.sum_singleton]
  exact Nat.add_le_add_left (List.length_filter_le _ _) _

/-- The first pass fails only at its end, when something is missing there; else as much as it has
put back is left. -/
theorem FirstPass.ends {k : ℕ} (fuel : ℕ) {pushed : List ℕ} (h : FirstPass names k pushed s)
    (hs : Sound s) (hk : k ≤ names.length) (hiterations : s.iterations = k)
    (hlength : pushed.length ≤ neededBy dependencies (names.take k))
    (hpushed : ∀ i ∈ pushed, i < names.length) :
    (resolveLoop names dependencies (fuel + (names.length - k)) s = .error maxIterations ∧
      missing names dependencies (names.take (names.length - 1)) (names.length - 1) ≠ []) ∨
    ∃ pushed' s', FirstPass names names.length pushed' s' ∧ Sound s' ∧
      pushed'.length ≤ neededBy dependencies names ∧ (∀ i ∈ pushed', i < names.length) ∧
      resolveLoop names dependencies (fuel + (names.length - k)) s =
        resolveLoop names dependencies fuel s' := by
  induction hn : names.length - k generalizing k pushed s with
  | zero =>
    obtain rfl : k = names.length := by omega
    rw [List.take_length] at hlength
    exact Or.inr ⟨pushed, s, h, hs, hlength, hpushed, rfl⟩
  | succ n ih =>
    have hlt : k < names.length := by omega
    have hqueue := h.queue_cons hlt
    have hnext : FirstPass names (k + 1) _ _ := h.next dependencies hlt
    have hsound : Sound _ := hs.next names dependencies hqueue
    rw [← Nat.add_assoc, resolveLoop_cons hqueue]
    split_ifs with hexhausted
    · refine Or.inl ⟨rfl, fun hmissing => ?_⟩
      have hlast : k = names.length - 1 := by
        have hge := hsound.reduction_ge
        have hexceeds := hexhausted.2
        have hiterations' : (ResolveOrder.next names dependencies k
          (List.range' (k + 1) (names.length - (k + 1)) ++ pushed) s).iterations = k + 1 := by
          rw [ResolveOrder.next, hiterations]
        rw [hiterations'] at hexceeds
        push_cast at hexceeds
        omega
      rw [← hlast, ← h.resolved] at hmissing
      exact (next_of_met hmissing hqueue hs.length_le).2.2 hexhausted
    · refine ih hnext hsound hlt (by rw [ResolveOrder.next, hiterations]) ?_ ?_ (by omega)
      · rw [List.length_append, List.length_map]
        exact (Nat.add_le_add_right hlength _).trans (neededBy_take hlt _)
      · intro i hi
        rcases List.mem_append.mp hi with hi | hi
        · exact hpushed i hi
        · obtain ⟨-, -, rfl⟩ := List.mem_map.mp hi
          exact hlt

variable (names) in
/-- All names of the list are resolved, and only parameters of the list are in the queue. -/
structure Later (s : ResolveState) : Prop where
  resolved : ∀ name, name ∈ s.resolvedParameters ↔ name ∈ names
  queue : ∀ i ∈ s.indexToResolve, i < names.length

variable (names dependencies) in
/-- The dependencies that no parameter of the list has the name of. -/
def absent (index : ℕ) : List String := missing names dependencies names index

theorem FirstPass.later {pushed : List ℕ} (h : FirstPass names names.length pushed s)
    (hpushed : ∀ i ∈ pushed, i < names.length) : Later names s := by
  refine ⟨fun name => by rw [h.resolved, List.take_length], fun i hi => ?_⟩
  rw [h.queue, Nat.sub_self] at hi
  exact hpushed i hi

theorem Later.missing_eq (h : Later names s) (index : ℕ) :
    missing names dependencies s.resolvedParameters index = absent names dependencies index := by
  rw [absent, missing, missing]
  exact List.filter_congr fun dependency _ => by simp only [h.resolved]

theorem getD_mem {index : ℕ} (h : index < names.length) : names.getD index "" ∈ names := by
  rw [List.getD_eq_getElem?_getD, List.getElem?_eq_getElem h, Option.getD_some]
  exact List.getElem_mem h

theorem Later.next (h : Later names s) (hqueue : s.indexToResolve = index :: rest) :
    Later names (next names dependencies index rest s) := by
  have hindex : index < names.length := h.queue index (hqueue ▸ List.mem_cons_self)
  refine ⟨fun name => ?_, fun i hi => ?_⟩
  · rw [ResolveOrder.next, List.mem_append, h.resolved, List.mem_singleton]
    exact or_iff_left_of_imp fun heq => heq ▸ getD_mem hindex
  · rw [ResolveOrder.next, List.mem_append] at hi
    rcases hi with hi | hi
    · exact h.queue i (hqueue ▸ List.mem_cons_of_mem index hi)
    · obtain ⟨-, -, rfl⟩ := List.mem_map.mp hi
      exact hindex

theorem Later.next_queue (h : Later names s) (index : ℕ) (rest : List ℕ) :
    (ResolveOrder.next names dependencies index rest s).indexToResolve =
      rest ++ (absent names dependencies index).map fun _ => index := by
  rw [ResolveOrder.next, h.missing_eq]

theorem Later.ok {fuel : ℕ} (h : Later names s) (hs : Sound s)
    (habsent : ∀ i ∈ s.indexToResolve, absent names dependencies i = [])
    (hfuel : s.indexToResolve.length < fuel) :
    ∃ order, resolveLoop names dependencies fuel s = .ok order := by
  induction fuel generalizing s with
  | zero => omega
  | succ fuel ih =>
    cases hqueue : s.indexToResolve with
    | nil => exact ⟨_, resolveLoop_nil hqueue⟩
    | cons index rest =>
      rw [hqueue] at habsent hfuel
      have hmissing := (h.missing_eq index).trans (habsent index List.mem_cons_self)
      obtain ⟨hrest, -, hcontinue⟩ := next_of_met hmissing hqueue hs.length_le
      rw [resolveLoop_cons hqueue, if_neg hcontinue]
      refine ih (h.next hqueue) (hs.next names dependencies hqueue) ?_ ?_
      · rw [hrest]
        exact fun i hi => habsent i (List.mem_cons_of_mem index hi)
      · rw [hrest]
        rw [List.length_cons] at hfuel
        omega

theorem needed_ne_nil (h : absent names dependencies index ≠ []) :
    needed names dependencies index ≠ [] := by
  intro hnil
  rw [absent, missing, hnil] at h
  exact h rfl

/-- Where the first index is put back the queue does not get shorter, which is noted. -/
theorem Later.next_put_back (h : Later names s) (hqueue : s.indexToResolve = index :: rest)
    (habsent : absent names dependencies index ≠ []) :
    s.indexToResolve.length ≤ (ResolveOrder.next names dependencies index rest s).indexToResolve.length ∧
    (ResolveOrder.next names dependencies index rest s).lastIndexLength =
      (ResolveOrder.next names dependencies index rest s).indexToResolve.length := by
  constructor
  · have hpos := List.length_pos_of_ne_nil habsent
    rw [h.next_queue, hqueue, List.length_cons, List.length_append, List.length_map]
    omega
  · exact if_neg (needed_ne_nil habsent)

/-- A round that does not make the queue shorter is the last one when `n` rounds were. -/
theorem Later.exhausted_iff (h : Later names s) (hqueue : s.indexToResolve = index :: rest)
    (habsent : absent names dependencies index ≠ [])
    (hlength : s.lastIndexLength ≤ s.indexToResolve.length) :
    (ResolveOrder.next names dependencies index rest s).lastIndexReduction = s.lastIndexReduction ∧
    (Exhausted names dependencies index (ResolveOrder.next names dependencies index rest s) ↔
      s.lastIndexReduction + names.length < s.iterations + 1) := by
  have hle := (h.next_put_back hqueue habsent).1
  have hreduction : (ResolveOrder.next names dependencies index rest s).lastIndexReduction =
      s.lastIndexReduction :=
    if_neg fun hlt => absurd hlt.2 (Nat.not_lt.mpr (hlength.trans hle))
  refine ⟨hreduction, ?_⟩
  rw [Exhausted, and_iff_right (needed_ne_nil habsent), hreduction, ResolveOrder.next, Nat.cast_add,
    Nat.cast_one]

theorem Later.stuck {fuel : ℕ} (h : Later names s) (hnonempty : s.indexToResolve ≠ [])
    (habsent : ∀ i ∈ s.indexToResolve, absent names dependencies i ≠ [])
    (hlength : s.lastIndexLength ≤ s.indexToResolve.length)
    (hfuel : s.lastIndexReduction + names.length < s.iterations + (fuel + 1)) :
    resolveLoop names dependencies (fuel + 1) s = .error maxIterations := by
  induction fuel generalizing s with
  | zero =>
    obtain ⟨index, rest, hqueue⟩ := List.exists_cons_of_ne_nil hnonempty
    have hindex := habsent index (hqueue ▸ List.mem_cons_self)
    rw [resolveLoop_cons hqueue, if_pos ((h.exhausted_iff hqueue hindex hlength).2.mpr (by omega))]
  | succ fuel ih =>
    obtain ⟨index, rest, hqueue⟩ := List.exists_cons_of_ne_nil hnonempty
    have hindex := habsent index (hqueue ▸ List.mem_cons_self)
    obtain ⟨hle, hnoted⟩ := h.next_put_back hqueue hindex
    obtain ⟨hreduction, -⟩ := h.exhausted_iff hqueue hindex hlength
    rw [resolveLoop_cons hqueue]
    split_ifs
    · rfl
    · refine ih (h.next hqueue) ?_ ?_ hnoted.le ?_
      · have hpos := List.length_pos_of_ne_nil hnonempty
        exact List.ne_nil_of_length_pos (by omega)
      · intro i hi
        rw [h.next_queue, List.mem_append] at hi
        rcases hi with hi | hi
        · exact habsent i (hqueue ▸ List.mem_cons_of_mem index hi)
        · obtain ⟨-, -, rfl⟩ := List.mem_map.mp hi
          exact hindex
      · rw [hreduction, ResolveOrder.next]
        push_cast at hfuel ⊢
        omega

theorem Later.ends {fuel : ℕ} {front back : List ℕ} (h : Later names s) (hs : Sound s)
    (hqueue : s.indexToResolve = front ++ back)
    (hback : ∀ i ∈ back, absent names dependencies i ≠ [])
    (hfuel : front.length + names.length + 3 ≤ fuel) :
    (∃ order, resolveLoop names dependencies fuel s = .ok order) ∨
      resolveLoop names dependencies fuel s = .error maxIterations := by
  obtain ⟨fuel, rfl⟩ : ∃ n, fuel = n + 1 := ⟨fuel - 1, by omega⟩
  induction front generalizing fuel back s with
  | nil =>
    rw [List.nil_append] at hqueue
    cases back with
    | nil => exact Or.inl ⟨_, resolveLoop_nil hqueue⟩
    | cons index rest =>
      have habsent := hback index List.mem_cons_self
      obtain ⟨hlength, hnoted⟩ := h.next_put_back hqueue habsent
      have hsound := (hs.next names dependencies hqueue).reduction_le
      obtain ⟨fuel, rfl⟩ : ∃ n, fuel = n + 1 := ⟨fuel - 1, by omega⟩
      rw [resolveLoop_cons hqueue]
      split_ifs
      · exact Or.inr rfl
      · refine Or.inr ((h.next hqueue).stuck ?_ ?_ hnoted.le (by simp at hfuel; omega))
        · exact List.ne_nil_of_length_pos (by rw [hqueue] at hlength; exact Nat.lt_of_lt_of_le (by simp) hlength)
        · intro i hi
          rw [h.next_queue, List.mem_append] at hi
          rcases hi with hi | hi
          · exact hback i (List.mem_cons_of_mem index hi)
          · obtain ⟨-, -, rfl⟩ := List.mem_map.mp hi
            exact habsent
  | cons index front ih =>
    rw [List.length_cons] at hfuel
    obtain ⟨fuel, rfl⟩ : ∃ n, fuel = n + 1 := ⟨fuel - 1, by omega⟩
    rw [resolveLoop_cons hqueue]
    split_ifs
    · exact Or.inr rfl
    · refine ih (h.next hqueue) (hs.next names dependencies hqueue)
        ((h.next_queue index (front ++ back)).trans (List.append_assoc _ _ _)) ?_ fuel (by omega)
      intro i hi
      rcases List.mem_append.mp hi with hi | hi
      · exact hback i hi
      · obtain ⟨d, hd, rfl⟩ := List.mem_map.mp hi
        exact List.ne_nil_of_mem hd

theorem never_ok {fuel i : ℕ} (hresolved : s.resolvedParameters ⊆ names)
    (hqueue : ∀ i ∈ s.indexToResolve, i < names.length) (hi : i ∈ s.indexToResolve)
    (habsent : absent names dependencies i ≠ []) (order : List ℕ) :
    resolveLoop names dependencies fuel s ≠ .ok order := by
  induction fuel generalizing s with
  | zero => exact nofun
  | succ fuel ih =>
    obtain ⟨index, rest, hcons⟩ := List.exists_cons_of_ne_nil (List.ne_nil_of_mem hi)
    rw [hcons] at hi hqueue
    have hindex := hqueue index List.mem_cons_self
    rw [resolveLoop_cons hcons]
    split_ifs
    · exact nofun
    · refine ih ?_ (fun j hj => ?_) ?_
      · exact List.append_subset.mpr ⟨hresolved, by simpa [next] using getD_mem hindex⟩
      · rcases List.mem_append.mp hj with hj | hj
        · exact hqueue j (List.mem_cons_of_mem index hj)
        · obtain ⟨-, -, rfl⟩ := List.mem_map.mp hj
          exact hindex
      · rcases List.mem_cons.mp hi with rfl | hi
        · obtain ⟨d, hd⟩ := List.exists_mem_of_ne_nil _ habsent
          rw [absent, missing, List.mem_filter, decide_eq_true_eq] at hd
          refine List.mem_append_right _ (List.mem_map.mpr ⟨d, List.mem_filter.mpr ⟨hd.1, ?_⟩, rfl⟩)
          exact decide_eq_true ⟨fun hmem => hd.2.1 (hresolved hmem), hd.2.2⟩
        · exact List.mem_append_left _ hi

end Ends

section Resolved
variable {parameters : Parameters}

variable (parameters) in
theorem resolveOrder_passes :
    (resolveOrder parameters = .error maxIterations ∧
      missing (parameters.map Prod.fst) (getParameterDependencies parameters)
        ((parameters.map Prod.fst).take (parameters.length - 1)) (parameters.length - 1) ≠ []) ∨
    ∃ fuel s, Later (parameters.map Prod.fst) s ∧ Sound s ∧
      s.indexToResolve.length + parameters.length + 3 ≤ fuel ∧
      resolveOrder parameters =
        resolveLoop (parameters.map Prod.fst) (getParameterDependencies parameters) fuel s := by
  generalize hnames : parameters.map Prod.fst = names
  generalize hdependencies : getParameterDependencies parameters = dependencies
  have hlength : parameters.length = names.length := by rw [← hnames, List.length_map]
  have hrounds : resolveRounds names dependencies =
      2 * names.length + neededBy dependencies names + 3 + (names.length - 0) := by
    rw [resolveRounds, neededBy]
    omega
  rw [resolveOrder, hnames, hdependencies, getParameterResolveOrder, hrounds, hlength]
  rcases (firstPass_start _ _ _).ends (2 * names.length + neededBy dependencies names + 3)
    sound_start (Nat.zero_le _) rfl (Nat.zero_le _) (fun _ hi => absurd hi List.not_mem_nil) with
    h | ⟨pushed, s, hpass, hs, hpushed, hbound, heq⟩
  · exact Or.inl h
  · have hqueue : s.indexToResolve = pushed := by
      rw [hpass.queue, Nat.sub_self]
      rfl
    exact Or.inr ⟨_, s, hpass.later hbound, hs, by rw [hqueue]; omega, heq⟩

theorem absent_eq_nil {index : ℕ} :
    absent (parameters.map Prod.fst) (getParameterDependencies parameters) index = [] ↔
      ∀ dependency, Needs parameters index dependency → dependency ∈ parameters.map Prod.fst :=
  missing_eq_nil

theorem missing_last_eq_nil (hself : ∀ name, ¬ DependsOn parameters name name)
    (hpresent : ∀ index dependency, Needs parameters index dependency →
      dependency ∈ parameters.map Prod.fst) :
    missing (parameters.map Prod.fst) (getParameterDependencies parameters)
      ((parameters.map Prod.fst).take (parameters.length - 1)) (parameters.length - 1) = [] := by
  refine missing_eq_nil.mpr fun dependency hneeds => ?_
  have hmem := hpresent _ _ hneeds
  have hpos := List.length_pos_of_mem hmem
  rw [List.length_map] at hpos
  have hsplit := @take_getD (parameters.map Prod.fst) (parameters.length - 1)
    (by rw [List.length_map]; omega)
  rw [show parameters.length - 1 + 1 = (parameters.map Prod.fst).length by
    rw [List.length_map]; omega, List.take_length] at hsplit
  rw [← hsplit, List.mem_append, List.mem_singleton] at hmem
  refine hmem.resolve_right fun heq => hself dependency ?_
  have hdepends := hneeds.1
  rwa [nameOf, ← heq] at hdepends

/-- `unit` is displayed for a `mode` that no parameter has the name of. -/
def unitWithoutMode : Parameters := [("unit", some ⟨some [("mode", [.value (.str "every")])], none⟩)]

end Resolved
end N8n.ResolveOrder
