import N8n.Graph.FindSubgraph

/-!
# What the subgraph between trigger and destination contains

Every main connection on a main path without repeated nodes is kept. A branch
that runs into itself is kept as well, so a cycle from which the destination
can be reached stays in the result whether or not the trigger leads to it.
-/

namespace N8n
namespace DirectedGraph

/-- A path of main connections from `a` to `b`, as the list of its connections. -/
inductive MainPath (graph : DirectedGraph) : INode → List GraphConnection → INode → Prop
  | nil (a : INode) : MainPath graph a [] a
  | cons {c : GraphConnection} {path : List GraphConnection} {b : INode} :
      c ∈ graph.getConnections → c.type = .main → MainPath graph c.toNode path b →
      MainPath graph c.fromNode (c :: path) b

structure KeepsBetween (graph : DirectedGraph) (destination trigger : INode)
    (subgraph : DirectedGraph) : Prop where
  between : ∀ c ∈ subgraph.getConnections, c.type = .main → ∀ n, n = c.fromNode ∨ n = c.toNode →
    Relation.ReflTransGen graph.MainEdge trigger n ∧
      Relation.ReflTransGen graph.MainEdge n destination
  complete : ∀ path, MainPath graph trigger path destination →
    (trigger :: path.map GraphConnection.toNode).Nodup → ∀ c ∈ path, c ∈ subgraph.getConnections

def MainEdgeAvoiding (graph : DirectedGraph) (avoid : INode → Prop) (a b : INode) : Prop :=
  graph.MainEdge a b ∧ ¬ avoid a ∧ ¬ avoid b

/-- The trigger leads to every cycle beside it that leads to the destination. -/
def LoopsReachable (graph : DirectedGraph) (destination trigger : INode) : Prop :=
  ∀ n, Relation.TransGen (graph.MainEdgeAvoiding fun a => a = trigger ∨ a = destination) n n →
    Relation.ReflTransGen (graph.MainEdgeAvoiding fun a => a = trigger) n destination →
    Relation.ReflTransGen graph.MainEdge trigger n

/-- The calls that `findSubgraph` makes. -/
def Visits (graph : DirectedGraph) (destination trigger : INode)
    (q : INode × List GraphConnection) : Prop :=
  Relation.ReflTransGen (Call graph trigger) (destination, []) q

/-! ### Paths that are kept -/

theorem visits_of_path {graph : DirectedGraph} {destination trigger a : INode}
    {path : List GraphConnection} (hpath : MainPath graph a path destination)
    (hnodup : (a :: path.map GraphConnection.toNode).Nodup)
    (ht : trigger ∉ path.map GraphConnection.toNode) :
    Visits graph destination trigger (a, path.reverse) := by
  induction hpath with
  | nil a => exact .refl
  | @cons c path b hc hmain _ ih =>
    simp only [List.map_cons, List.nodup_cons, List.mem_cons, not_or] at hnodup ht
    obtain ⟨⟨_, hfrom⟩, hto, hrest⟩ := hnodup
    have hvisit := ih (List.nodup_cons.mpr ⟨hto, hrest⟩) ht.2
    have hoff : ¬ OnBranch path.reverse c.toNode := by
      rintro ⟨c', hc', he⟩
      exact hto (List.mem_map.mpr ⟨c', List.mem_reverse.mp hc', he⟩)
    rw [List.reverse_cons]
    exact hvisit.tail (.parent (Ne.symm ht.1) hoff hc hmain rfl)

theorem kept_of_path {graph : DirectedGraph} {destination trigger : INode}
    {path : List GraphConnection} (hpath : MainPath graph trigger path destination)
    (hnodup : (trigger :: path.map GraphConnection.toNode).Nodup) {c : GraphConnection}
    (hc : c ∈ path) : Kept graph destination trigger (destination, []) c :=
  ⟨_, visits_of_path hpath hnodup (List.nodup_cons.mp hnodup).1, Or.inl rfl,
    List.mem_reverse.mpr hc⟩

/-! ### What a branch is -/

structure Branch (graph : DirectedGraph) (destination trigger : INode)
    (q : INode × List GraphConnection) : Prop where
  up : ∀ c ∈ q.2, Relation.ReflTransGen graph.MainEdge q.1 c.fromNode
  edge : ∀ c ∈ q.2, graph.MainEdge c.fromNode c.toNode
  down : ∀ c ∈ q.2, Relation.ReflTransGen graph.MainEdge c.toNode destination
  beside : q.1 = trigger ∨
    Relation.ReflTransGen (graph.MainEdgeAvoiding fun a => a = trigger) q.1 destination
  rooted : q = (destination, []) ∨ OnBranch q.2 destination
  loop : ∀ c ∈ q.2, c.toNode ≠ destination → q.1 = trigger ∨ q.1 = destination ∨
    Relation.TransGen (graph.MainEdgeAvoiding fun a => a = trigger ∨ a = destination) q.1 c.toNode

theorem MainEdgeAvoiding.toMain {graph : DirectedGraph} {avoid : INode → Prop} {a b : INode}
    (h : Relation.ReflTransGen (graph.MainEdgeAvoiding avoid) a b) :
    Relation.ReflTransGen graph.MainEdge a b :=
  Relation.ReflTransGen.mono (fun _ _ h => h.1) _ _ h

theorem branch_call {graph : DirectedGraph} {destination trigger : INode}
    {q q' : INode × List GraphConnection} (h : Branch graph destination trigger q)
    (hcall : Call graph trigger q q') : Branch graph destination trigger q' := by
  cases hcall with
  | @parent current branch c ht hoff hc hmain hto =>
    have hedge : graph.MainEdge c.fromNode c.toNode := ⟨c, hc, hmain, rfl, rfl⟩
    have hopen := h.beside.resolve_left ht
    dsimp only at hopen
    subst hto
    have hdown : Relation.ReflTransGen graph.MainEdge c.toNode destination :=
      MainEdgeAvoiding.toMain hopen
    refine ⟨fun c' hc' => ?_, fun c' hc' => ?_, fun c' hc' => ?_, ?_, ?_, fun c' hc' hne => ?_⟩
    · rcases List.mem_append.mp hc' with hc' | hc'
      · exact .head hedge (h.up c' hc')
      · rw [List.mem_singleton.mp hc']
    · rcases List.mem_append.mp hc' with hc' | hc'
      · exact h.edge c' hc'
      · rw [List.mem_singleton.mp hc']
        exact hedge
    · rcases List.mem_append.mp hc' with hc' | hc'
      · exact h.down c' hc'
      · rw [List.mem_singleton.mp hc']
        exact hdown
    · by_cases hf : c.fromNode = trigger
      · exact Or.inl hf
      · exact Or.inr (.head ⟨hedge, hf, ht⟩ hopen)
    · right
      rcases h.rooted with he | ⟨c', hc', he⟩
      · exact ⟨c, by simp, (Prod.mk.inj he).1⟩
      · exact ⟨c', List.mem_append_left _ hc', he⟩
    · by_cases hf : c.fromNode = trigger
      · exact Or.inl hf
      by_cases hf' : c.fromNode = destination
      · exact Or.inr (Or.inl hf')
      refine Or.inr (Or.inr ?_)
      have hfrom : ¬ (c.fromNode = trigger ∨ c.fromNode = destination) := by tauto
      rcases List.mem_append.mp hc' with hc' | hc'
      · have hroot : OnBranch branch destination := by
          rcases h.rooted with he | he
          · rw [(Prod.mk.inj he).2] at hc'
            cases hc'
          · exact he
        have hcur : c.toNode ≠ destination := fun he => hoff (he ▸ hroot)
        have hloop := ((h.loop c' hc' hne).resolve_left ht).resolve_left hcur
        exact .head ⟨hedge, hfrom, by tauto⟩ hloop
      · obtain rfl := List.mem_singleton.mp hc'
        exact .single ⟨hedge, hfrom, by tauto⟩

theorem branch_of_visits {graph : DirectedGraph} {destination trigger : INode}
    {q : INode × List GraphConnection} (h : Visits graph destination trigger q) :
    Branch graph destination trigger q := by
  induction h with
  | refl =>
    exact ⟨fun c hc => absurd hc List.not_mem_nil, fun c hc => absurd hc List.not_mem_nil,
      fun c hc => absurd hc List.not_mem_nil, Or.inr .refl, Or.inl rfl,
      fun c hc => absurd hc List.not_mem_nil⟩
  | tail _ hcall ih => exact branch_call ih hcall

theorem trigger_leads_to_kept {graph : DirectedGraph} {destination trigger : INode}
    (hloops : LoopsReachable graph destination trigger) {q : INode × List GraphConnection}
    (hb : Branch graph destination trigger q) (hk : Keeps destination trigger q) :
    Relation.ReflTransGen graph.MainEdge trigger q.1 := by
  by_cases ht : q.1 = trigger
  · rw [ht]
  · obtain ⟨hd, c, hc, he⟩ := hk.resolve_left ht
    have hloop := ((hb.loop c hc (he ▸ hd)).resolve_left ht).resolve_left hd
    rw [he] at hloop
    exact hloops q.1 hloop (hb.beside.resolve_left ht)

theorem kept_between {graph : DirectedGraph} {destination trigger : INode}
    (hloops : LoopsReachable graph destination trigger) {c : GraphConnection}
    (hc : Kept graph destination trigger (destination, []) c) (n : INode)
    (hn : n = c.fromNode ∨ n = c.toNode) :
    Relation.ReflTransGen graph.MainEdge trigger n ∧
      Relation.ReflTransGen graph.MainEdge n destination := by
  obtain ⟨q, hvisits, hkeeps, hmem⟩ := hc
  have hb := branch_of_visits hvisits
  have hfrom := (trigger_leads_to_kept hloops hb hkeeps).trans (hb.up c hmem)
  have hedge := hb.edge c hmem
  rcases hn with rfl | rfl
  · exact ⟨hfrom, .head hedge (hb.down c hmem)⟩
  · exact ⟨hfrom.tail hedge, hb.down c hmem⟩

/-! ### Cycles that are kept -/

theorem first_visit {graph : DirectedGraph} {destination trigger n : INode}
    {q : INode × List GraphConnection} (h : Visits graph destination trigger q)
    (hn : OnBranch q.2 n) :
    ∃ branch, Visits graph destination trigger (n, branch) ∧ ¬ OnBranch branch n := by
  induction h with
  | refl =>
    obtain ⟨c, hc, _⟩ := hn
    cases hc
  | tail hvisits hcall ih =>
    cases hcall with
    | @parent current branch c _ hoff _ _ hto =>
      obtain ⟨c', hc', rfl⟩ := hn
      rcases List.mem_append.mp hc' with hc' | hc'
      · exact ih ⟨c', hc', rfl⟩
      · rw [List.mem_singleton.mp hc', hto]
        exact ⟨branch, hvisits, hoff⟩

theorem visits_of_reaches {graph : DirectedGraph} {destination trigger n : INode}
    (h : Relation.ReflTransGen (graph.MainEdgeAvoiding fun a => a = trigger) n destination) :
    ∃ branch, Visits graph destination trigger (n, branch) ∧ ¬ OnBranch branch n := by
  induction h using Relation.ReflTransGen.head_induction_on with
  | refl => exact ⟨[], .refl, fun ⟨c, hc, _⟩ => List.not_mem_nil hc⟩
  | head hedge _ ih =>
    obtain ⟨branch, hvisits, hoff⟩ := ih
    obtain ⟨⟨c, hc, hmain, rfl, rfl⟩, _, ht⟩ := hedge
    have hnext : Visits graph destination trigger (c.fromNode, branch ++ [c]) :=
      hvisits.tail (.parent ht hoff hc hmain rfl)
    by_cases hon : OnBranch (branch ++ [c]) c.fromNode
    · exact first_visit hnext hon
    · exact ⟨_, hnext, hon⟩

/-- Walking backwards along a cycle the search meets the branch again, at the latest in `n`. -/
theorem keeps_on_cycle {graph : DirectedGraph} {destination trigger n a : INode}
    {branch : List GraphConnection}
    (hpath : Relation.ReflTransGen
      (graph.MainEdgeAvoiding fun a => a = trigger ∨ a = destination) n a)
    (ha : ¬ (a = trigger ∨ a = destination)) (hn : OnBranch branch n)
    (hvisits : Visits graph destination trigger (a, branch)) :
    ∃ q, Visits graph destination trigger q ∧ Keeps destination trigger q ∧
      ∀ c ∈ branch, c ∈ q.2 := by
  induction hpath generalizing branch with
  | refl => exact ⟨_, hvisits, Or.inr ⟨fun he => ha (Or.inr he), hn⟩, fun _ hc => hc⟩
  | tail _ hedge ih =>
    obtain ⟨⟨c, hc, hmain, rfl, rfl⟩, hfrom, _⟩ := hedge
    by_cases hon : OnBranch branch c.toNode
    · exact ⟨_, hvisits, Or.inr ⟨fun he => ha (Or.inr he), hon⟩, fun _ hc => hc⟩
    · obtain ⟨c', hc', he⟩ := hn
      have hnext := hvisits.tail (.parent (fun he => ha (Or.inl he)) hon hc hmain rfl)
      obtain ⟨q, hq, hkeeps, hsub⟩ := ih hfrom ⟨c', List.mem_append_left _ hc', he⟩ hnext
      exact ⟨q, hq, hkeeps, fun c hc => hsub c (List.mem_append_left _ hc)⟩

theorem kept_of_loop {graph : DirectedGraph} {destination trigger n : INode}
    (hloop : Relation.TransGen
      (graph.MainEdgeAvoiding fun a => a = trigger ∨ a = destination) n n)
    (hdown : Relation.ReflTransGen (graph.MainEdgeAvoiding fun a => a = trigger) n destination) :
    ∃ c, Kept graph destination trigger (destination, []) c ∧ c.toNode = n := by
  obtain ⟨branch, hvisits, hoff⟩ := visits_of_reaches hdown
  obtain ⟨a, hpath, ⟨c, hc, hmain, rfl, rfl⟩, hfrom, hto⟩ :=
    Relation.TransGen.tail'_iff.mp hloop
  have hnext := hvisits.tail (.parent (fun he => hto (Or.inl he)) hoff hc hmain rfl)
  obtain ⟨q, hq, hkeeps, hsub⟩ := keeps_on_cycle hpath hfrom ⟨c, by simp, rfl⟩ hnext
  exact ⟨c, ⟨q, hq, hkeeps, hsub c (by simp)⟩, rfl⟩

/-! ### The whole search -/

theorem mainEdge_of_kept {graph : DirectedGraph} {destination trigger : INode}
    {c : GraphConnection} (hc : Kept graph destination trigger (destination, []) c) :
    c.type = .main := by
  obtain ⟨q, hvisits, _, hmem⟩ := hc
  clear * - hvisits hmem
  induction hvisits with
  | refl => cases hmem
  | tail _ hcall ih =>
    cases hcall with
    | parent _ _ _ hmain _ =>
      rcases List.mem_append.mp hmem with hmem | hmem
      · exact ih hmem
      · rw [List.mem_singleton.mp hmem]
        exact hmain

/-- The search ends without an error, and its main connections are those of the branches
that it keeps. -/
theorem findSubgraph_main {graph : DirectedGraph} (hv : graph.Valid) {destination : INode}
    (hd : graph.nodeExists destination) (trigger : INode) :
    ∃ bound, ∀ fuel ≥ bound, ∃ subgraph,
      graph.findSubgraph destination trigger fuel = .ok subgraph ∧
      ∀ c, c.type = .main → (c ∈ subgraph.getConnections ↔
        Kept graph destination trigger (destination, []) c) := by
  refine ⟨(graph.unvisited []).card + graph.getConnections.toFinset.card + 1, fun fuel hfuel => ?_⟩
  obtain ⟨part, hok, hw, helems⟩ := findSubgraphRecursive_spec hv destination trigger hd
    (empty_within graph) (fun c (hc : c ∈ []) => absurd hc List.not_mem_nil)
    (Nat.lt_of_lt_of_le (by omega) hfuel)
  obtain ⟨subgraph, hok', hmain⟩ := addUtilityConnections_spec hv (Nat.lt_of_lt_of_le (by omega) hfuel) hw
  refine ⟨subgraph, ?_, fun c hc => ?_⟩
  · simp only [findSubgraph, hok, FoldM.ok_bind, hok']
  · have h := hmain c
    rw [helems] at h
    have hnone : c ∉ empty.getConnections := List.not_mem_nil
    tauto

theorem keepsBetween_iff {graph subgraph : DirectedGraph} {destination trigger : INode}
    (hmain : ∀ c, c.type = .main → (c ∈ subgraph.getConnections ↔
      Kept graph destination trigger (destination, []) c)) :
    KeepsBetween graph destination trigger subgraph ↔
      LoopsReachable graph destination trigger := by
  constructor
  · intro h n hloop hdown
    obtain ⟨c, hkept, rfl⟩ := kept_of_loop hloop hdown
    have hc := mainEdge_of_kept hkept
    exact (h.between c ((hmain c hc).mpr hkept) hc _ (Or.inr rfl)).1
  · intro hloops
    refine ⟨fun c hc hm n hn => kept_between hloops ((hmain c hm).mp hc) n hn,
      fun path hpath hnodup c hc => ?_⟩
    have hkept := kept_of_path hpath hnodup hc
    exact (hmain c (mainEdge_of_kept hkept)).mpr hkept

/-- The search succeeds on every valid graph. It keeps exactly the part between trigger and
destination when the trigger leads to every cycle beside it that leads to the destination. -/
theorem findSubgraph_keepsBetween_iff (graph : DirectedGraph) (hv : graph.Valid)
    (destination trigger : INode) (hd : graph.nodeExists destination) :
    ∃ bound, ∀ fuel ≥ bound, ∃ subgraph,
      graph.findSubgraph destination trigger fuel = .ok subgraph ∧
      (KeepsBetween graph destination trigger subgraph ↔
        LoopsReachable graph destination trigger) := by
  obtain ⟨bound, h⟩ := findSubgraph_main hv hd trigger
  refine ⟨bound, fun fuel hfuel => ?_⟩
  obtain ⟨subgraph, hok, hmain⟩ := h fuel hfuel
  exact ⟨subgraph, hok, keepsBetween_iff hmain⟩

def besideLoop : DirectedGraph :=
  ofNames ["trigger", "x", "y", "destination"]
    [("trigger", "destination"), ("x", "y"), ("y", "x"), ("y", "destination")]

theorem besideLoop_unreachable {n : INode}
    (h : Relation.ReflTransGen besideLoop.MainEdge (noOp "trigger") n) : n ≠ noOp "y" := by
  have hclosed : n = noOp "trigger" ∨ n = noOp "destination" := by
    induction h with
    | refl => exact Or.inl rfl
    | tail _ hedge ih =>
      obtain ⟨c, hc, _, rfl, rfl⟩ := hedge
      have hall : ∀ c ∈ besideLoop.getConnections,
          c.fromNode = noOp "trigger" ∨ c.fromNode = noOp "destination" →
            c.toNode = noOp "trigger" ∨ c.toNode = noOp "destination" := by decide
      exact hall c hc ih
  rcases hclosed with rfl | rfl
  · decide
  · decide

/-- The cycle of `x` and `y` leads to the destination and is kept, but the trigger does not
lead to it. -/
theorem besideLoop_kept : ¬ ∀ (graph : DirectedGraph) (destination trigger : INode) (fuel : ℕ)
    (subgraph : DirectedGraph), graph.Valid → graph.nodeExists destination →
    graph.findSubgraph destination trigger fuel = .ok subgraph →
    KeepsBetween graph destination trigger subgraph := by
  intro h
  have hkeeps : (besideLoop.findSubgraph (noOp "destination") (noOp "trigger") 5).toOption.any
      (fun subgraph => decide (⟨noOp "y", noOp "x", .main, 0, 0⟩ ∈ subgraph.getConnections)) =
        true := by
    decide
  cases hfind : besideLoop.findSubgraph (noOp "destination") (noOp "trigger") 5 with
  | error e =>
    rw [hfind] at hkeeps
    cases hkeeps
  | ok subgraph =>
    rw [hfind] at hkeeps
    have hb := h _ _ _ _ subgraph (valid_of_entries (by decide) (by decide)) (by decide) hfind
    have hreach := (hb.between _ (of_decide_eq_true hkeeps) rfl _ (Or.inl rfl)).1
    exact besideLoop_unreachable hreach rfl

def straight : DirectedGraph :=
  ofNames ["trigger", "a", "destination"] [("trigger", "a"), ("a", "destination")]

theorem straight_keepsBetween : ∃ bound, ∀ fuel ≥ bound, ∃ subgraph,
    straight.findSubgraph (noOp "destination") (noOp "trigger") fuel = .ok subgraph ∧
      KeepsBetween straight (noOp "destination") (noOp "trigger") subgraph := by
  obtain ⟨bound, h⟩ := findSubgraph_keepsBetween_iff straight
    (valid_of_entries (by decide) (by decide)) (noOp "destination") (noOp "trigger") (by decide)
  refine ⟨bound, fun fuel hfuel => ?_⟩
  obtain ⟨subgraph, hok, hiff⟩ := h fuel hfuel
  refine ⟨subgraph, hok, hiff.mpr ?_⟩
  intro n hloop _
  obtain ⟨_, _, ⟨c, hc, _, rfl, rfl⟩, havoid, havoid'⟩ := Relation.TransGen.tail'_iff.mp hloop
  have hall : ∀ c ∈ straight.getConnections, c.fromNode = noOp "trigger" ∨
      c.toNode = noOp "destination" := by decide
  rcases hall c hc with he | he
  · exact absurd (Or.inl he) havoid
  · exact absurd (Or.inr he) havoid'

end DirectedGraph
end N8n
