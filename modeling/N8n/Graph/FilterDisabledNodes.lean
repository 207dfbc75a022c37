import Mathlib.Logic.Relation
import N8n.Graph.RemoveNode

/-!
# Dropping disabled nodes

The disabled nodes are removed one after the other, and the main connections of each are
reconnected. A connection that is there after some removals stands for a path of the graph
whose inner nodes were removed, and every such path has its connection.
-/

namespace N8n

open Relation

namespace DirectedGraph

def disabledOptions : RemoveNodeOptions where
  reconnectConnections := true
  skipConnectionFn := some fun c => decide (c.type ≠ .main)

def filterNode (filteredGraph : DirectedGraph) (node : INode) : Except Failure DirectedGraph :=
  if node.disabled = some true then Prod.fst <$> filteredGraph.removeNode node disabledOptions
  else .ok filteredGraph

def filterDisabledNodes (graph : DirectedGraph) : Except Failure DirectedGraph := do
  let filteredGraph ← graph.clone
  filteredGraph.nodes.values.foldlM filterNode filteredGraph

/-- A connection from an output to an input of the graph. -/
def Joins (graph : DirectedGraph) (c : GraphConnection) : Prop :=
  ∃ i ∈ graph.getConnections, ∃ o ∈ graph.getConnections, joinConnections i o = c

/-- From the outputs to the inputs of the graph, different connections have different keys. -/
def KeysDistinct (graph : DirectedGraph) : Prop :=
  ∀ c c', graph.Joins c → graph.Joins c' → makeKey c = makeKey c' → c = c'

/-- A path of main connections, by its first and its last one, with these inner nodes. -/
inductive PathThrough (graph : DirectedGraph) (inner : INode → Prop) :
    GraphConnection → GraphConnection → Prop
  | single {c : GraphConnection} : c ∈ graph.getConnections → c.type = .main →
      PathThrough graph inner c c
  | step {first last c : GraphConnection} : PathThrough graph inner first last →
      inner last.toNode → c ∈ graph.getConnections → c.type = .main → c.fromNode = last.toNode →
      PathThrough graph inner first c

section PathThrough
variable {graph : DirectedGraph} {inner inner' : INode → Prop}
  {first last first' last' : GraphConnection}

theorem PathThrough.first_mem (h : PathThrough graph inner first last) :
    first ∈ graph.getConnections ∧ first.type = .main := by
  induction h with
  | single hc hmain => exact ⟨hc, hmain⟩
  | step _ _ _ _ _ ih => exact ih

theorem PathThrough.last_mem (h : PathThrough graph inner first last) :
    last ∈ graph.getConnections ∧ last.type = .main := by
  cases h with
  | single hc hmain => exact ⟨hc, hmain⟩
  | step _ _ hc hmain _ => exact ⟨hc, hmain⟩

theorem PathThrough.mono (h : PathThrough graph inner first last)
    (hinner : ∀ n, inner n → inner' n) : PathThrough graph inner' first last := by
  induction h with
  | single hc hmain => exact .single hc hmain
  | step _ hlast hc hmain hfrom ih => exact .step ih (hinner _ hlast) hc hmain hfrom

theorem PathThrough.trans (h : PathThrough graph inner first last) (hlast : inner last.toNode)
    (hfrom : first'.fromNode = last.toNode) (h' : PathThrough graph inner first' last') :
    PathThrough graph inner first last' := by
  induction h' with
  | single hc hmain => exact .step h hlast hc hmain hfrom
  | step _ hinner hc hmain hfrom' ih => exact .step ih hinner hc hmain hfrom'

/-- A path that may also pass one more node passes it or not; between its first and its
last visit to the node nothing matters. -/
theorem PathThrough.split {node : INode}
    (h : PathThrough graph (fun n => inner n ∨ n = node) first last) :
    PathThrough graph inner first last ∨
      ∃ i o, PathThrough graph inner first i ∧ i.toNode = node ∧ o.fromNode = node ∧
        PathThrough graph inner o last := by
  induction h with
  | single hc hmain => exact Or.inl (.single hc hmain)
  | @step last c _ hlast hc hmain hfrom ih =>
    rcases hlast with hlast | hlast
    · rcases ih with ih | ⟨i, o, hi, hto, ho, hpath⟩
      · exact Or.inl (.step ih hlast hc hmain hfrom)
      · exact Or.inr ⟨i, o, hi, hto, ho, .step hpath hlast hc hmain hfrom⟩
    · rcases ih with ih | ⟨i, o, hi, hto, _, _⟩
      · exact Or.inr ⟨last, c, ih, hlast, hfrom.trans hlast, .single hc hmain⟩
      · exact Or.inr ⟨i, c, hi, hto, hfrom.trans hlast, .single hc hmain⟩

theorem PathThrough.transGen (h : PathThrough graph inner first last) :
    TransGen graph.MainEdge first.fromNode last.toNode := by
  induction h with
  | single hc hmain => exact .single ⟨_, hc, hmain, rfl, rfl⟩
  | step _ _ hc hmain hfrom ih => exact .tail ih ⟨_, hc, hmain, hfrom, rfl⟩

end PathThrough

/-- What is left of the graph when the inner nodes are gone. -/
structure Filtered (graph : DirectedGraph) (inner : INode → Prop) (filteredGraph : DirectedGraph) :
    Prop where
  nodes : ∀ n, filteredGraph.nodeExists n ↔ graph.nodeExists n ∧ ¬ inner n
  keyed : filteredGraph.connections.Keyed makeKey
  others : ∀ c ∈ filteredGraph.getConnections, c.type ≠ .main → c ∈ graph.getConnections
  main : ∀ c ∈ filteredGraph.getConnections, c.type = .main →
    ∃ first last, PathThrough graph inner first last ∧ joinConnections first last = c
  paths : ∀ first last, PathThrough graph inner first last → ¬ inner first.fromNode →
    ¬ inner last.toNode → joinConnections first last ∈ filteredGraph.getConnections

section Filtered
variable {graph filteredGraph : DirectedGraph} {inner : INode → Prop} {node : INode}

theorem joinConnections_self (c : GraphConnection) : joinConnections c c = c := rfl

theorem joinConnections_join (first i o last : GraphConnection) :
    joinConnections (joinConnections first i) (joinConnections o last) =
      joinConnections first last := rfl

theorem filtered_refl (hvalid : graph.Valid) : Filtered graph (fun _ => False) graph := by
  refine ⟨by simp, hvalid.keyed, fun _ hc _ => hc, fun c hc hmain => ?_, ?_⟩
  · exact ⟨c, c, .single hc hmain, joinConnections_self c⟩
  · intro first last hpath _ _
    cases hpath with
    | single hc _ => exact hc
    | step _ hinner _ _ _ => exact hinner.elim

theorem Filtered.joins (h : Filtered graph inner filteredGraph) {c : GraphConnection}
    (hc : c ∈ filteredGraph.getConnections) : graph.Joins c := by
  by_cases hmain : c.type = .main
  · obtain ⟨first, last, hpath, rfl⟩ := h.main c hc hmain
    exact ⟨first, hpath.first_mem.1, last, hpath.last_mem.1, rfl⟩
  · have hc := h.others c hc hmain
    exact ⟨c, hc, c, hc, joinConnections_self c⟩

theorem Joins.join {i o : GraphConnection} (hi : graph.Joins i) (ho : graph.Joins o) :
    graph.Joins (joinConnections i o) := by
  obtain ⟨first, hfirst, i, _, rfl⟩ := hi
  obtain ⟨o, _, last, hlast, rfl⟩ := ho
  exact ⟨first, hfirst, last, hlast, (joinConnections_join first i o last).symm⟩

theorem disabledOptions_skips {c : GraphConnection} :
    disabledOptions.skips c = false ↔ c.type = .main := by
  simp [RemoveNodeOptions.skips, disabledOptions]

/-- The connections after a removal: those that were not at the node, and the new ones. -/
theorem Filtered.mem_removed (h : Filtered graph inner filteredGraph)
    (hkeys : graph.KeysDistinct) (c : GraphConnection) :
    c ∈ ((filteredGraph.connectionsWithout node).setAll makeKey (disabledOptions.reconnect
        (filteredGraph.getConnections.filter fun c => decide (c.toNode = node))
        (filteredGraph.getConnections.filter fun c => decide (c.fromNode = node)))).values ↔
      (c ∈ filteredGraph.getConnections ∧ c.toNode ≠ node ∧ c.fromNode ≠ node) ∨
      ∃ i ∈ filteredGraph.getConnections, ∃ o ∈ filteredGraph.getConnections,
        (i.type = .main ∧ i.toNode = node) ∧ (o.type = .main ∧ o.fromNode = node) ∧
        joinConnections i o = c := by
  have hnew : ∀ c, c ∈ disabledOptions.reconnect
      (filteredGraph.getConnections.filter fun c => decide (c.toNode = node))
      (filteredGraph.getConnections.filter fun c => decide (c.fromNode = node)) ↔
      ∃ i ∈ filteredGraph.getConnections, ∃ o ∈ filteredGraph.getConnections,
        (i.type = .main ∧ i.toNode = node) ∧ (o.type = .main ∧ o.fromNode = node) ∧
        joinConnections i o = c := by
    intro c
    simp only [mem_reconnect, List.mem_filter, decide_eq_true_iff, disabledOptions_skips]
    constructor
    · rintro ⟨i, ⟨hi, hto⟩, himain, o, ⟨ho, hfrom⟩, homain, hjoin⟩
      exact ⟨i, hi, o, ho, ⟨himain, hto⟩, ⟨homain, hfrom⟩, hjoin⟩
    · rintro ⟨i, hi, o, ho, ⟨himain, hto⟩, ⟨homain, hfrom⟩, hjoin⟩
      exact ⟨i, ⟨hi, hto⟩, himain, o, ⟨ho, hfrom⟩, homain, hjoin⟩
  have hkeyed : (filteredGraph.connectionsWithout node).Keyed makeKey :=
    OrderedMap.Keyed.filter h.keyed _
  have hjoins : ∀ c, (∃ i ∈ filteredGraph.getConnections, ∃ o ∈ filteredGraph.getConnections,
      (i.type = .main ∧ i.toNode = node) ∧ (o.type = .main ∧ o.fromNode = node) ∧
        joinConnections i o = c) → graph.Joins c := by
    rintro _ ⟨i, hi, o, ho, _, _, rfl⟩
    exact (h.joins hi).join (h.joins ho)
  rw [hkeyed.mem_values_setAll, mem_connectionsWithout, hnew]
  intro hc a ha he
  refine hkeys c a ?_ (hjoins a ((hnew a).mp ha)) he
  rcases hc with hc | hc
  · exact h.joins (mem_connectionsWithout.mp hc).1
  · exact hjoins c ((hnew c).mp hc)

theorem Filtered.removeNode (h : Filtered graph inner filteredGraph) (hkeys : graph.KeysDistinct)
    (hnode : graph.nodeExists node) (hinner : ¬ inner node) :
    ∃ graph', Prod.fst <$> filteredGraph.removeNode node disabledOptions = .ok graph' ∧
      Filtered graph (fun n => inner n ∨ n = node) graph' := by
  have hexists : filteredGraph.nodeExists node := (h.nodes node).mpr ⟨hnode, hinner⟩
  have hremoved := @Filtered.mem_removed _ _ _ node h hkeys
  refine ⟨_, congrArg (Prod.fst <$> ·) (removeNode_reconnect hexists rfl), ?_⟩
  constructor
  case nodes =>
    intro n
    have hdelete : (filteredGraph.nodes.delete node.name).get? n.name = some n ↔
        filteredGraph.nodeExists n ∧ n ≠ node := by
      rw [nodeExists, OrderedMap.get?_delete]
      split_ifs with he
      · refine iff_of_false (by simp) fun hn => hn.2 ?_
        rw [← he, hexists] at hn
        exact (Option.some.inj hn.1).symm
      · exact ⟨fun hn => ⟨hn, fun he' => he (he' ▸ rfl)⟩, fun hn => hn.1⟩
    rw [nodeExists, hdelete, h.nodes, not_or, and_assoc]
  case keyed => exact OrderedMap.Keyed.setAll (OrderedMap.Keyed.filter h.keyed _) _
  case others =>
    intro c hc hother
    rcases (hremoved c).mp hc with ⟨hc, _⟩ | ⟨i, _, o, _, ⟨himain, _⟩, _, rfl⟩
    · exact h.others c hc hother
    · exact absurd himain hother
  case main =>
    intro c hc hmain
    rcases (hremoved c).mp hc with ⟨hc, _⟩ | ⟨i, hi, o, ho, ⟨himain, hto⟩, ⟨homain, hfrom⟩, rfl⟩
    · obtain ⟨first, last, hpath, hjoin⟩ := h.main c hc hmain
      exact ⟨first, last, hpath.mono fun _ => Or.inl, hjoin⟩
    · obtain ⟨first, i, hpath, rfl⟩ := h.main i hi himain
      obtain ⟨o, last, hpath', rfl⟩ := h.main o ho homain
      have hat : i.toNode = node := hto
      have hleft : o.fromNode = node := hfrom
      refine ⟨first, last, ?_, (joinConnections_join first i o last).symm⟩
      exact (hpath.mono fun _ => Or.inl).trans (Or.inr hat) (hleft.trans hat.symm)
        (hpath'.mono fun _ => Or.inl)
  case paths =>
    intro first last hpath hfirst hlast
    rw [not_or] at hfirst hlast
    rcases hpath.split with hpath | ⟨i, o, hpath, hto, hfrom, hpath'⟩
    · exact (hremoved _).mpr (Or.inl ⟨h.paths first last hpath hfirst.1 hlast.1,
        hlast.2, hfirst.2⟩)
    · have hi := h.paths first i hpath hfirst.1 (hto ▸ hinner)
      have ho := h.paths o last hpath' (hfrom ▸ hinner) hlast.1
      refine (hremoved _).mpr (Or.inr ⟨_, hi, _, ho, ⟨?_, hto⟩, ⟨?_, hfrom⟩,
        joinConnections_join first i o last⟩)
      · exact hpath.first_mem.2
      · exact hpath'.first_mem.2

/-- The loop over the nodes removes those of them that are disabled. -/
theorem Filtered.filterNodes (hkeys : graph.KeysDistinct)
    (nodes : List INode) (hnodes : ∀ n ∈ nodes, graph.nodeExists n) (hnodup : nodes.Nodup)
    (hinner : ∀ n ∈ nodes, ¬ inner n) (h : Filtered graph inner filteredGraph) :
    ∃ graph', nodes.foldlM filterNode filteredGraph = .ok graph' ∧
      Filtered graph (fun n => inner n ∨ (n ∈ nodes ∧ n.disabled = some true)) graph' := by
  induction nodes generalizing inner filteredGraph with
  | nil => exact ⟨filteredGraph, rfl, by simpa using h⟩
  | cons node nodes ih =>
    obtain ⟨hnew, hnodup⟩ := List.nodup_cons.mp hnodup
    have hnodes' : ∀ n ∈ nodes, graph.nodeExists n := fun n hn =>
      hnodes n (List.mem_cons_of_mem node hn)
    by_cases hdisabled : node.disabled = some true
    · obtain ⟨graph₁, hok, h₁⟩ := h.removeNode hkeys (hnodes node List.mem_cons_self)
        (hinner node List.mem_cons_self)
      obtain ⟨graph₂, hok₂, h₂⟩ := ih hnodes' hnodup (fun n hn hor => by
        rcases hor with hor | rfl
        · exact hinner n (List.mem_cons_of_mem node hn) hor
        · exact hnew hn) h₁
      have hstep : filterNode filteredGraph node = .ok graph₁ := (if_pos hdisabled).trans hok
      refine ⟨graph₂, (FoldM.foldlM_cons_ok hstep).trans hok₂, ?_⟩
      convert h₂ using 2 with n
      rw [List.mem_cons, or_assoc, or_and_right]
      constructor
      · rintro (hn | ⟨rfl, _⟩ | hn)
        · exact Or.inl hn
        · exact Or.inr (Or.inl rfl)
        · exact Or.inr (Or.inr hn)
      · rintro (hn | rfl | hn)
        · exact Or.inl hn
        · exact Or.inr (Or.inl ⟨rfl, hdisabled⟩)
        · exact Or.inr (Or.inr hn)
    · obtain ⟨graph₂, hok₂, h₂⟩ := ih hnodes' hnodup
        (fun n hn => hinner n (List.mem_cons_of_mem node hn)) h
      have hstep : filterNode filteredGraph node = .ok filteredGraph := if_neg hdisabled
      refine ⟨graph₂, (FoldM.foldlM_cons_ok hstep).trans hok₂, ?_⟩
      convert h₂ using 2 with n
      rw [List.mem_cons, or_and_right]
      refine or_congr_right (or_iff_right ?_)
      rintro ⟨rfl, hn⟩
      exact hdisabled hn

end Filtered

def Disabled (node : INode) : Prop := node.disabled = some true

/-- The nodes are the enabled ones, and the flow between them is as before. -/
structure KeepsFlow (graph filteredGraph : DirectedGraph) : Prop where
  nodes : ∀ n, filteredGraph.nodeExists n ↔ graph.nodeExists n ∧ ¬ Disabled n
  paths : ∀ u v, filteredGraph.nodeExists u → filteredGraph.nodeExists v →
    (TransGen filteredGraph.MainEdge u v ↔ TransGen graph.MainEdge u v)
  kept : ∀ c ∈ graph.getConnections, c.type = .main → filteredGraph.nodeExists c.fromNode →
    filteredGraph.nodeExists c.toNode → c ∈ filteredGraph.getConnections
  added : ∀ c ∈ filteredGraph.getConnections, c ∉ graph.getConnections →
    ∃ first last, PathThrough graph Disabled first last ∧
      first.fromNode = c.fromNode ∧ last.toNode = c.toNode ∧
      first.outputIndex = c.outputIndex ∧ last.inputIndex = c.inputIndex

section Flow
variable {graph filteredGraph : DirectedGraph} {inner : INode → Prop}

/-- Up to the last node that is left, a path of the graph is a path of what is left. -/
theorem Filtered.path_to (h : Filtered graph inner filteredGraph) {u v : INode} (hu : ¬ inner u)
    (hpath : TransGen graph.MainEdge u v) :
    ∃ w, ¬ inner w ∧ (w = u ∨ TransGen filteredGraph.MainEdge u w) ∧
      ∃ first last, PathThrough graph inner first last ∧ first.fromNode = w ∧ last.toNode = v := by
  induction hpath with
  | single hedge =>
    obtain ⟨c, hc, hmain, hfrom, hto⟩ := hedge
    exact ⟨u, hu, Or.inl rfl, c, c, .single hc hmain, hfrom, hto⟩
  | @tail v v' _ hedge ih =>
    obtain ⟨c, hc, hmain, hfrom, hto⟩ := hedge
    obtain ⟨w, hw, huw, first, last, hpath, hfirst, hlast⟩ := ih
    by_cases hv : inner v
    · exact ⟨w, hw, huw, first, c,
        .step hpath (hlast ▸ hv) hc hmain (hfrom.trans hlast.symm), hfirst, hto⟩
    · have hedge : filteredGraph.MainEdge w v := by
        have hmem := h.paths first last hpath (hfirst ▸ hw) (hlast ▸ hv)
        exact ⟨_, hmem, hpath.first_mem.2, hfirst, hlast⟩
      refine ⟨v, hv, Or.inr ?_, c, c, .single hc hmain, hfrom, hto⟩
      rcases huw with rfl | huw
      · exact .single hedge
      · exact huw.tail hedge

theorem Filtered.edge_transGen (h : Filtered graph inner filteredGraph) {u v : INode}
    (hedge : filteredGraph.MainEdge u v) : TransGen graph.MainEdge u v := by
  obtain ⟨c, hc, hmain, rfl, rfl⟩ := hedge
  obtain ⟨first, last, hpath, rfl⟩ := h.main c hc hmain
  exact hpath.transGen

theorem Filtered.path_iff (h : Filtered graph inner filteredGraph) {u v : INode} (hu : ¬ inner u)
    (hv : ¬ inner v) : TransGen filteredGraph.MainEdge u v ↔ TransGen graph.MainEdge u v := by
  constructor
  · intro hpath
    clear hv
    induction hpath with
    | single hedge => exact h.edge_transGen hedge
    | tail _ hedge ih => exact ih.trans (h.edge_transGen hedge)
  · intro hpath
    obtain ⟨w, hw, huw, first, last, hpath, hfirst, hlast⟩ := h.path_to hu hpath
    have hedge : filteredGraph.MainEdge w v := by
      have hmem := h.paths first last hpath (hfirst ▸ hw) (hlast ▸ hv)
      exact ⟨_, hmem, hpath.first_mem.2, hfirst, hlast⟩
    rcases huw with rfl | huw
    · exact .single hedge
    · exact huw.tail hedge

end Flow

theorem values_nodup {graph : DirectedGraph} (h : graph.Valid) : graph.nodes.values.Nodup := by
  have hkeys := graph.nodes.nodup
  have hnames : graph.nodes.entries.map Prod.fst = graph.nodes.values.map (·.name) := by
    rw [OrderedMap.values, List.map_map]
    refine List.map_congr_left fun e he => ?_
    exact (h.named e.1 e.2 (OrderedMap.get?_eq_some.mpr he)).symm
  rw [hnames] at hkeys
  exact hkeys.of_map _

theorem filterDisabledNodes_keepsFlow (graph : DirectedGraph) (hvalid : graph.Valid)
    (hkeys : graph.KeysDistinct) : ∃ filteredGraph, graph.filterDisabledNodes = .ok filteredGraph ∧
      KeepsFlow graph filteredGraph := by
  obtain ⟨filteredGraph, hok, h⟩ := (filtered_refl hvalid).filterNodes hkeys graph.nodes.values
    (fun n hn => hvalid.mem_nodes_values.mp hn) (values_nodup hvalid) (fun _ _ => id)
  refine ⟨filteredGraph, ?_, ?_⟩
  · rw [filterDisabledNodes, hvalid.clone_eq]
    exact hok
  · have hnodes : ∀ n, filteredGraph.nodeExists n ↔ graph.nodeExists n ∧ ¬ Disabled n := by
      intro n
      rw [h.nodes, hvalid.mem_nodes_values, false_or, not_and]
      exact and_congr_right fun hn => ⟨fun himp => himp hn, fun hd _ => hd⟩
    have hinner : ∀ n, filteredGraph.nodeExists n →
        ¬ (False ∨ (n ∈ graph.nodes.values ∧ n.disabled = some true)) :=
      fun n hn => ((h.nodes n).mp hn).2
    refine ⟨hnodes, fun u v hu hv => h.path_iff (hinner u hu) (hinner v hv),
      fun c hc hmain hfrom hto => ?_, fun c hc hnew => ?_⟩
    · exact h.paths c c (.single hc hmain) (hinner _ hfrom) (hinner _ hto)
    · by_cases hmain : c.type = .main
      · obtain ⟨first, last, hpath, rfl⟩ := h.main c hc hmain
        refine ⟨first, last, hpath.mono ?_, rfl, rfl, rfl, rfl⟩
        rintro n (hn | hn)
        · exact hn.elim
        · exact hn.2
      · exact absurd (h.others c hc hmain) hnew

/-- A disabled node between two others. -/
def disabledBetween : DirectedGraph :=
  let off : INode := { noOp "off" with disabled := some true }
  ofParts [noOp "a", off, noOp "b"] [⟨noOp "a", off, .main, 1, 0⟩, ⟨off, noOp "b", .main, 0, 2⟩]

theorem disabledBetween_keepsFlow : ∃ filteredGraph,
    disabledBetween.filterDisabledNodes = .ok filteredGraph ∧
      KeepsFlow disabledBetween filteredGraph := by
  refine filterDisabledNodes_keepsFlow disabledBetween
    (valid_of_entries (by decide) (by decide)) ?_
  rintro _ _ ⟨i, hi, o, ho, rfl⟩ ⟨i', hi', o', ho', rfl⟩
  have hall : ∀ i ∈ disabledBetween.getConnections, ∀ o ∈ disabledBetween.getConnections,
      ∀ i' ∈ disabledBetween.getConnections, ∀ o' ∈ disabledBetween.getConnections,
      makeKey (joinConnections i o) = makeKey (joinConnections i' o') →
        joinConnections i o = joinConnections i' o' := by decide
  exact hall i hi o ho i' hi' o' ho'

end DirectedGraph
end N8n
