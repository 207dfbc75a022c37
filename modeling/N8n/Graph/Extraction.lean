import N8n.Graph.GraphUtils
import N8n.Foundations.StackSearch
import N8n.Foundations.Paths

/-!
# What an accepted extraction promises

An accepted selection is entered at its start only and left at its end only.
`hasPath` searches the whole graph, yet the path it finds stays in the
selection up to the end, since no other node of the selection leads out. The
code takes an empty name for a missing entry or exit and does not look for a
path then.
-/

namespace N8n.GraphUtils

def MainEdge (adjacencyList : IConnectionAdjacencyList) (a b : String) : Prop :=
  ∃ tos, (a, tos) ∈ adjacencyList.entries ∧ ∃ c ∈ tos, c.type = .main ∧ c.node = b

def EntersAt (graphIds : OrderedSet String) (adjacencyList : IConnectionAdjacencyList)
    (b : String) : Prop :=
  b ∈ graphIds ∧ ∃ a, a ∉ graphIds ∧ MainEdge adjacencyList a b

def LeavesAt (graphIds : OrderedSet String) (adjacencyList : IConnectionAdjacencyList)
    (a : String) : Prop :=
  a ∈ graphIds ∧ ∃ b, b ∉ graphIds ∧ MainEdge adjacencyList a b

def Inside (graphIds : OrderedSet String) (adjacencyList : IConnectionAdjacencyList)
    (a b : String) : Prop :=
  a ∈ graphIds ∧ b ∈ graphIds ∧ MainEdge adjacencyList a b

structure OneEntryOneExit (graphIds : OrderedSet String) (adjacencyList : IConnectionAdjacencyList)
    (data : ExtractableSubgraphData) : Prop where
  entry : ∀ b, EntersAt graphIds adjacencyList b → data.start = some b
  exit : ∀ a, LeavesAt graphIds adjacencyList a → data.end_ = some a
  path : ∀ start end_, data.start = some start → data.end_ = some end_ →
    start ∈ graphIds ∧ Relation.ReflTransGen (Inside graphIds adjacencyList) start end_

/-- An entry and an exit of which one has the empty name are joined by main connections. -/
def EmptyNamesJoined (graphIds : OrderedSet String) (adjacencyList : IConnectionAdjacencyList) :
    Prop :=
  ∀ start end_, EntersAt graphIds adjacencyList start → LeavesAt graphIds adjacencyList end_ →
    start = "" ∨ end_ = "" → Relation.ReflTransGen (MainEdge adjacencyList) start end_

/-! ### The search for a path -/

theorem mem_mainChildren {adjacencyList : IConnectionAdjacencyList} {a b : String} :
    b ∈ mainChildren adjacencyList a ↔ MainEdge adjacencyList a b := by
  simp only [mainChildren, OrderedSet.mem_ofList, List.mem_map, List.mem_filter,
    decide_eq_true_eq, MainEdge]
  cases h : adjacencyList.get? a with
  | none =>
    constructor
    · rintro ⟨c, ⟨hc, _⟩, _⟩
      cases hc
    · rintro ⟨tos, htos, _⟩
      rw [OrderedMap.get?_eq_some.mpr htos] at h
      cases h
  | some tos =>
    have hmem := OrderedMap.get?_eq_some.mp h
    constructor
    · rintro ⟨c, ⟨hc, ht⟩, hb⟩
      exact ⟨tos, hmem, c, hc, ht, hb⟩
    · rintro ⟨tos', htos', c, hc, ht, hb⟩
      rw [OrderedMap.get?_eq_some.mpr htos'] at h
      obtain rfl := Option.some.inj h
      exact ⟨c, ⟨hc, ht⟩, hb⟩

theorem hasPathLoop_eq_search (adjacencyList : IConnectionAdjacencyList) (end_ : String)
    (fuel : ℕ) (seen : OrderedSet String) (paths : List String) :
    hasPathLoop adjacencyList end_ fuel seen paths =
      StackSearch.search (fun a => (mainChildren adjacencyList a).elems) end_ fuel
        ⟨seen, paths⟩ := by
  induction fuel generalizing seen paths with
  | zero => rfl
  | succ fuel ih =>
    cases paths with
    | nil => rfl
    | cons next paths =>
      simp only [hasPathLoop, StackSearch.search]
      split_ifs with h
      · rfl
      · exact ih _ _

theorem hasPath_sound {fuel : ℕ} {start end_ : String} {adjacencyList : IConnectionAdjacencyList}
    (h : hasPath fuel start end_ adjacencyList = some true) :
    Relation.ReflTransGen (MainEdge adjacencyList) start end_ := by
  unfold hasPath at h
  rw [hasPathLoop_eq_search] at h
  have hpath := StackSearch.search_sound (a := start)
    (fun b hb => by rw [List.mem_singleton.mp hb]) h
  exact Relation.ReflTransGen.mono (fun a b hab => mem_mainChildren.mp hab) _ _ hpath

theorem hasPath_ends (start end_ : String) (adjacencyList : IConnectionAdjacencyList) :
    ∃ bound, ∀ fuel ≥ bound, ∃ r, hasPath fuel start end_ adjacencyList = some r := by
  let nodes : Finset String := insert start
    (adjacencyList.entries.flatMap fun e => e.2.map Connection.node).toFinset
  let next := fun a => (mainChildren adjacencyList a).elems
  have hclosed : ∀ a ∈ nodes, ∀ b ∈ next a, b ∈ nodes := by
    intro a _ b hb
    obtain ⟨tos, htos, c, hc, _, rfl⟩ := mem_mainChildren.mp hb
    simp only [nodes, Finset.mem_insert, List.mem_toFinset, List.mem_flatMap, List.mem_map]
    exact Or.inr ⟨_, htos, c, hc, rfl⟩
  refine ⟨StackSearch.potential next nodes ⟨.empty, [start]⟩ + 1, fun fuel hfuel => ?_⟩
  unfold hasPath
  rw [hasPathLoop_eq_search]
  apply StackSearch.search_ends hclosed
  · intro a ha
    rw [List.mem_singleton.mp ha]
    exact Finset.mem_insert_self _ _
  · exact ⟨fun h => absurd h (OrderedSet.not_mem_empty start), trivial⟩
  · exact hfuel

/-! ### The checks -/

theorem mem_inputNodes {graphIds : OrderedSet String} {adjacencyList : IConnectionAdjacencyList}
    {b : String} :
    b ∈ (inputAndRootNodes graphIds adjacencyList).1 ↔ EntersAt graphIds adjacencyList b := by
  simp only [inputAndRootNodes, OrderedSet.mem_ofList, List.mem_map, List.mem_filter,
    getInputEdges, List.mem_flatMap, decide_eq_true_eq, EntersAt, MainEdge]
  constructor
  · rintro ⟨⟨a, c⟩, ⟨⟨⟨a', tos⟩, htos, hin⟩, ht⟩, rfl⟩
    dsimp only at hin
    split_ifs at hin with ha
    · cases hin
    · obtain ⟨c', hc', he⟩ := List.mem_map.mp hin
      obtain ⟨rfl, rfl⟩ := Prod.mk.inj he
      obtain ⟨hc', hg⟩ := List.mem_filter.mp hc'
      exact ⟨of_decide_eq_true hg, a', ha, tos, htos, c', hc', ht, rfl⟩
  · rintro ⟨hb, a, ha, tos, htos, c, hc, ht, rfl⟩
    refine ⟨(a, c), ⟨⟨(a, tos), htos, ?_⟩, ht⟩, rfl⟩
    dsimp only
    rw [if_neg ha]
    exact List.mem_map.mpr ⟨c, List.mem_filter.mpr ⟨hc, decide_eq_true hb⟩, rfl⟩

theorem mem_outputNodes {graphIds : OrderedSet String} {adjacencyList : IConnectionAdjacencyList}
    {a : String} :
    a ∈ (outputAndLeafNodes graphIds adjacencyList).1 ↔ LeavesAt graphIds adjacencyList a := by
  simp only [outputAndLeafNodes, OrderedSet.mem_ofList, List.mem_map, List.mem_filter,
    getOutputEdges, List.mem_flatMap, decide_eq_true_eq, LeavesAt, MainEdge]
  constructor
  · rintro ⟨⟨a', c⟩, ⟨⟨⟨a'', tos⟩, htos, hin⟩, ht⟩, rfl⟩
    dsimp only at hin
    split_ifs at hin with ha
    · obtain ⟨c', hc', he⟩ := List.mem_map.mp hin
      obtain ⟨rfl, rfl⟩ := Prod.mk.inj he
      obtain ⟨hc', hg⟩ := List.mem_filter.mp hc'
      exact ⟨ha, c'.node, of_decide_eq_true hg, tos, htos, c', hc', ht, rfl⟩
    · cases hin
  · rintro ⟨ha, b, hb, tos, htos, c, hc, ht, rfl⟩
    refine ⟨(a, c), ⟨⟨(a, tos), htos, ?_⟩, ht⟩, rfl⟩
    dsimp only
    rw [if_pos ha]
    exact List.mem_map.mpr ⟨c, List.mem_filter.mpr ⟨hc, decide_eq_true hb⟩, rfl⟩

theorem lacksPath_ends (adjacencyList : IConnectionAdjacencyList) (start end_ : Option String) :
    ∃ bound, ∀ fuel ≥ bound, ∃ r, lacksPath fuel adjacencyList start end_ = some r := by
  rcases start with _ | start
  · exact ⟨0, fun _ _ => ⟨false, rfl⟩⟩
  · rcases end_ with _ | end_
    · exact ⟨0, fun _ _ => ⟨false, rfl⟩⟩
    · obtain ⟨bound, h⟩ := hasPath_ends start end_ adjacencyList
      refine ⟨bound, fun fuel hfuel => ?_⟩
      obtain ⟨r, hr⟩ := h fuel hfuel
      simp only [lacksPath, hr]
      split_ifs
      · exact ⟨!r, rfl⟩
      · exact ⟨false, rfl⟩

theorem mem_rootInputNodes {graphIds : OrderedSet String}
    {adjacencyList : IConnectionAdjacencyList} {b : String}
    (h : b ∈ rootInputNodes graphIds adjacencyList) : EntersAt graphIds adjacencyList b :=
  mem_inputNodes.mp (OrderedSet.mem_inter.mp h).2

theorem mem_leafOutputNodes {graphIds : OrderedSet String}
    {adjacencyList : IConnectionAdjacencyList} {a : String}
    (h : a ∈ leafOutputNodes graphIds adjacencyList) : LeavesAt graphIds adjacencyList a :=
  mem_outputNodes.mp (OrderedSet.mem_inter.mp h).2

/-- What is known when no check reports an error. -/
structure Accepted (fuel : ℕ) (graphIds : OrderedSet String)
    (adjacencyList : IConnectionAdjacencyList) : Prop where
  inputsAreRoots : ∀ b, EntersAt graphIds adjacencyList b → b ∈ rootInputNodes graphIds adjacencyList
  oneInput : (rootInputNodes graphIds adjacencyList).size ≤ 1
  outputsAreLeaves :
    ∀ a, LeavesAt graphIds adjacencyList a → a ∈ leafOutputNodes graphIds adjacencyList
  oneOutput : (leafOutputNodes graphIds adjacencyList).size ≤ 1
  joined : lacksPath fuel adjacencyList (rootInputNodes graphIds adjacencyList).first?
    (leafOutputNodes graphIds adjacencyList).first? = some false

theorem mem_of_difference_nil {α : Type*} [DecidableEq α] {s t : OrderedSet α} {a : α}
    (h : (s.difference t).elems = []) (ha : a ∈ s) : a ∈ t := by
  by_contra hn
  have hmem : a ∈ (s.difference t).elems := OrderedSet.mem_difference.mpr ⟨ha, hn⟩
  rw [h] at hmem
  cases hmem

theorem ite_error_eq_ok {ε α : Type*} {c : Prop} [Decidable c] {e : ε} {x y : α} :
    (if c then Except.error e else .ok x) = .ok y ↔ ¬ c ∧ x = y := by
  split_ifs with h
  · simp [h]
  · simp [h]

theorem parse_accepted {fuel : ℕ} {graphIds : OrderedSet String}
    {adjacencyList : IConnectionAdjacencyList} {data : ExtractableSubgraphData}
    (h : parseExtractableSubgraphSelection fuel graphIds adjacencyList = some (.ok data)) :
    Accepted fuel graphIds adjacencyList ∧
      data = ⟨(rootInputNodes graphIds adjacencyList).first?,
        (leafOutputNodes graphIds adjacencyList).first?⟩ := by
  simp only [parseExtractableSubgraphSelection, Option.map_eq_some_iff, ite_error_eq_ok] at h
  obtain ⟨lacks, hlacks, hlen, hdata⟩ := h
  simp only [gt_iff_lt, not_lt, Nat.le_zero, List.length_eq_zero_iff, List.append_eq_nil_iff,
    List.map_eq_nil_iff, ite_eq_right_iff, List.cons_ne_nil, imp_false] at hlen
  obtain ⟨⟨⟨⟨hin, hone⟩, hout⟩, hone'⟩, hpath⟩ := hlen
  obtain rfl : lacks = false := by simpa using hpath
  refine ⟨⟨fun b hb => ?_, by omega, fun a ha => ?_, by omega, hlacks⟩, ?_⟩
  · have hb' := mem_inputNodes.mpr hb
    exact OrderedSet.mem_inter.mpr ⟨mem_of_difference_nil hin hb', hb'⟩
  · have ha' := mem_outputNodes.mpr ha
    exact OrderedSet.mem_inter.mpr ⟨mem_of_difference_nil hout ha', ha'⟩
  · exact hdata.symm

theorem Accepted.start_eq {fuel : ℕ} {graphIds : OrderedSet String}
    {adjacencyList : IConnectionAdjacencyList} (h : Accepted fuel graphIds adjacencyList)
    {b : String} (hb : EntersAt graphIds adjacencyList b) :
    (rootInputNodes graphIds adjacencyList).first? = some b := by
  have hmem := h.inputsAreRoots b hb
  obtain ⟨b', hb'⟩ := OrderedSet.first?_isSome hmem
  rw [hb', OrderedSet.eq_of_size_le_one h.oneInput (OrderedSet.mem_of_first? hb') hmem]

theorem Accepted.end_eq {fuel : ℕ} {graphIds : OrderedSet String}
    {adjacencyList : IConnectionAdjacencyList} (h : Accepted fuel graphIds adjacencyList)
    {a : String} (ha : LeavesAt graphIds adjacencyList a) :
    (leafOutputNodes graphIds adjacencyList).first? = some a := by
  have hmem := h.outputsAreLeaves a ha
  obtain ⟨a', ha'⟩ := OrderedSet.first?_isSome hmem
  rw [ha', OrderedSet.eq_of_size_le_one h.oneOutput (OrderedSet.mem_of_first? ha') hmem]

/-- The only exit is the end, so a path of the whole graph to it can be taken inside. -/
theorem Accepted.path_inside {fuel : ℕ} {graphIds : OrderedSet String}
    {adjacencyList : IConnectionAdjacencyList} (h : Accepted fuel graphIds adjacencyList)
    {start end_ : String} (hs : start ∈ graphIds) (he : LeavesAt graphIds adjacencyList end_)
    (hpath : Relation.ReflTransGen (MainEdge adjacencyList) start end_) :
    Relation.ReflTransGen (Inside graphIds adjacencyList) start end_ := by
  apply Paths.stays_inside (s := fun a => a ∈ graphIds) _ hpath hs
  intro x y hxy hx hy
  have hx' : LeavesAt graphIds adjacencyList x := ⟨hx, y, hy, hxy⟩
  have := (h.end_eq hx').symm.trans (h.end_eq he)
  exact Option.some.inj this

theorem Accepted.path_of_names {fuel : ℕ} {graphIds : OrderedSet String}
    {adjacencyList : IConnectionAdjacencyList} (h : Accepted fuel graphIds adjacencyList)
    {start end_ : String} (hs : EntersAt graphIds adjacencyList start)
    (he : LeavesAt graphIds adjacencyList end_) (hns : start ≠ "") (hne : end_ ≠ "") :
    Relation.ReflTransGen (MainEdge adjacencyList) start end_ := by
  have hj := h.joined
  rw [h.start_eq hs, h.end_eq he] at hj
  simp only [lacksPath, hns, hne, ne_eq, not_false_eq_true, and_self, if_true,
    Option.map_eq_some_iff, Bool.not_eq_false'] at hj
  obtain ⟨found, hfound, rfl⟩ := hj
  exact hasPath_sound hfound

theorem accepted_iff {fuel : ℕ} {graphIds : OrderedSet String}
    {adjacencyList : IConnectionAdjacencyList} (h : Accepted fuel graphIds adjacencyList) :
    OneEntryOneExit graphIds adjacencyList ⟨(rootInputNodes graphIds adjacencyList).first?,
        (leafOutputNodes graphIds adjacencyList).first?⟩ ↔
      EmptyNamesJoined graphIds adjacencyList := by
  constructor
  · intro hp start end_ hs he _
    obtain ⟨_, hpath⟩ := hp.path start end_ (h.start_eq hs) (h.end_eq he)
    exact Relation.ReflTransGen.mono (fun a b hab => hab.2.2) _ _ hpath
  · intro hjoined
    refine ⟨fun b hb => h.start_eq hb, fun a ha => h.end_eq ha, fun start end_ hs he => ?_⟩
    have hs' := mem_rootInputNodes (OrderedSet.mem_of_first? hs)
    have he' := mem_leafOutputNodes (OrderedSet.mem_of_first? he)
    refine ⟨hs'.1, h.path_inside hs'.1 he' ?_⟩
    by_cases hempty : start = "" ∨ end_ = ""
    · exact hjoined start end_ hs' he' hempty
    · rw [not_or] at hempty
      exact h.path_of_names hs' he' hempty.1 hempty.2

/-- The call ends, and what it accepts has one entry, one exit and a path inside, exactly
when an entry or exit with an empty name is joined to the other. -/
theorem parseExtractableSubgraphSelection_spec (graphIds : OrderedSet String)
    (adjacencyList : IConnectionAdjacencyList) :
    (∃ bound, ∀ fuel ≥ bound,
      ∃ r, parseExtractableSubgraphSelection fuel graphIds adjacencyList = some r) ∧
    ∀ fuel data,
      parseExtractableSubgraphSelection fuel graphIds adjacencyList = some (.ok data) →
        (OneEntryOneExit graphIds adjacencyList data ↔
          EmptyNamesJoined graphIds adjacencyList) := by
  constructor
  · obtain ⟨bound, hbound⟩ := lacksPath_ends adjacencyList
      (rootInputNodes graphIds adjacencyList).first? (leafOutputNodes graphIds adjacencyList).first?
    refine ⟨bound, fun fuel hfuel => ?_⟩
    obtain ⟨lacks, hlacks⟩ := hbound fuel hfuel
    simp only [parseExtractableSubgraphSelection, hlacks]
    exact ⟨_, rfl⟩
  · intro fuel data h
    obtain ⟨haccepted, rfl⟩ := parse_accepted h
    exact accepted_iff haccepted

/-- `x → ""` and `b → y`: the selection of the two inner nodes is accepted, and no path
joins them. -/
def emptyEntry : IConnectionAdjacencyList :=
  ⟨[("x", [⟨"", .main, 0⟩]), ("b", [⟨"y", .main, 0⟩])], by decide⟩

def chain : IConnectionAdjacencyList :=
  ⟨[("x", [⟨"a", .main, 0⟩]), ("a", [⟨"b", .main, 0⟩]), ("b", [⟨"y", .main, 0⟩])], by decide⟩

theorem unjoined_selection_accepted : ¬ ∀ (graphIds : OrderedSet String)
    (adjacencyList : IConnectionAdjacencyList) (fuel : ℕ) (data : ExtractableSubgraphData),
    parseExtractableSubgraphSelection fuel graphIds adjacencyList = some (.ok data) →
      OneEntryOneExit graphIds adjacencyList data := by
  intro h
  have hp := (h (.ofList ["", "b"]) emptyEntry 1 ⟨some "", some "b"⟩ rfl).path "" "b" rfl rfl
  rcases Relation.ReflTransGen.cases_head hp.2 with he | ⟨c, ⟨_, _, tos, htos, _⟩, _⟩
  · exact absurd he (by decide)
  · simp [emptyEntry] at htos

theorem chain_extractable :
    OneEntryOneExit (.ofList ["a", "b"]) chain ⟨some "a", some "b"⟩ := by
  refine ((parseExtractableSubgraphSelection_spec (.ofList ["a", "b"]) chain).2 5 _ rfl).mpr ?_
  rintro start end_ ⟨hs, _⟩ ⟨he, _⟩ hempty
  rw [OrderedSet.mem_ofList] at hs he
  rcases hempty with rfl | rfl
  · exact absurd hs (by decide)
  · exact absurd he (by decide)

end N8n.GraphUtils
