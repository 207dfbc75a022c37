import N8n.Foundations.PathSearch
import N8n.Graph.WorkflowConversion

/-!
# Nodes by their depth

`searchNodesBFS` visits the nodes in rounds. What a round queues is visited in the next one, and a
node that is visited again gets the index of the connection only. `visited` is an object that is
read without a test of the property, so the names of the properties that it inherits stand for
functions.
-/

namespace N8n.NodesByDepth

open DirectedGraph (objectProperties)
open Distances (Distance)

structure IConnectedNode where
  name : String
  indicies : List ℕ
  depth : ℕ
  deriving DecidableEq, Repr

/-- The indices of a later visit are put to those of the first one. -/
def IConnectedNode.merge (node curr : IConnectedNode) : IConnectedNode :=
  { node with indicies := (node.indicies ++ curr.indicies).eraseDups }

/-- `returnConns` shares its nodes with `visited`, so they are given by name. -/
structure Search where
  returnConns : List String
  queue : List IConnectedNode
  visited : OrderedMap String IConnectedNode

def mainConnections (connections : IConnections) (nodeName : String) : List Connection :=
  (((connections.get? nodeName).bind (·.get? .main)).getD []).flatMap (·.getD [])

def visit (connections : IConnections) (sourceNode : String) (depth : ℕ) (s : Search)
    (curr : IConnectedNode) : Except Failure Search :=
  match s.visited.get? curr.name with
  | some node =>
    .ok { s with visited := s.visited.set curr.name (node.merge curr) }
  | none =>
    if curr.name ∈ objectProperties then .error .typeError
    -- An entry of that name hides the method that is called.
    else if connections.has "hasOwnProperty" then .error .typeError
    else
      .ok {
        returnConns := if curr.name = sourceNode then s.returnConns else s.returnConns ++ [curr.name]
        queue := s.queue ++ (mainConnections connections curr.name).map
          fun connection => ⟨connection.node, [connection.index], depth⟩
        visited := s.visited.set curr.name curr }

def searchRounds (connections : IConnections) (sourceNode : String) (maxDepth : ℤ) :
    ℕ → ℕ → Search → Except Failure Search
  | 0, _, _ => .error .outOfFuel
  | fuel + 1, depth, s =>
    if s.queue = [] then .ok s
    else if maxDepth ≠ -1 ∧ maxDepth < depth then .ok s
    else do
      let s ← s.queue.foldlM (visit connections sourceNode (depth + 1)) { s with queue := [] }
      searchRounds connections sourceNode maxDepth fuel (depth + 1) s

def searchNodesBFS (connections : IConnections) (sourceNode : String) (maxDepth : ℤ) :
    Except Failure (List IConnectedNode) := do
  let s ← searchRounds connections sourceNode maxDepth (connections.size + 2) 0
    ⟨[], [⟨sourceNode, [], 0⟩], .empty⟩
  pure (s.returnConns.filterMap s.visited.get?)

def mainNext (connections : IConnections) (nodeName : String) : List String :=
  (mainConnections connections nodeName).map (·.node)

/-- `-1` is no bound. -/
def WithinDepth (depth : ℕ) (maxDepth : ℤ) : Prop := maxDepth = -1 ∨ (depth : ℤ) ≤ maxDepth

section Claim
variable (connections : IConnections) (sourceNode : String)

/-- An index of a connection to the node, from a node at that distance. -/
def IndexFrom (name : String) (depth index : ℕ) : Prop :=
  ∃ «from», Distance (mainNext connections) sourceNode «from» depth ∧
    ∃ connection ∈ mainConnections connections «from», connection.node = name ∧
      connection.index = index

/-- The nodes come with their distances, each once and the nearer ones first, and with the indices
of the connections that were followed. -/
structure ShortestDistances (maxDepth : ℤ) (nodes : List IConnectedNode) : Prop where
  nodup : (nodes.map (·.name)).Nodup
  sorted : (nodes.map (·.depth)).Pairwise (· ≤ ·)
  mem_iff : ∀ name depth, (∃ node ∈ nodes, node.name = name ∧ node.depth = depth) ↔
    name ≠ sourceNode ∧ Distance (mainNext connections) sourceNode name depth ∧
      WithinDepth depth maxDepth
  indicies : ∀ node ∈ nodes, node.indicies.Nodup ∧ ∀ index, index ∈ node.indicies ↔
    ∃ depth, WithinDepth (depth + 1) maxDepth ∧
      IndexFrom connections sourceNode node.name depth index

/-- No name stands for an inherited property. -/
def OwnNames (maxDepth : ℤ) : Prop :=
  connections.has "hasOwnProperty" = false ∧ ∀ name depth,
    Distance (mainNext connections) sourceNode name depth → WithinDepth depth maxDepth →
      name ∉ objectProperties

end Claim

/-! ### A round -/

section Round
variable (connections : IConnections) (sourceNode : String) (depth : ℕ)

/-- The indices that have come to a node by the rounds before and by what was taken from the
queue. -/
def IndexBefore (taken : List IConnectedNode) (name : String) (index : ℕ) : Prop :=
  (∃ d, d + 1 < depth ∧ IndexFrom connections sourceNode name d index) ∨
    ∃ curr ∈ taken, curr.name = name ∧ index ∈ curr.indicies

/-- What is queued for a round. -/
structure Queued (queue : List IConnectedNode) : Prop where
  entry : ∀ curr ∈ queue, curr.depth = depth ∧ curr.indicies.Nodup ∧
    ∃ d ≤ depth, Distance (mainNext connections) sourceNode curr.name d
  complete : ∀ name, Distance (mainNext connections) sourceNode name depth →
    ∃ curr ∈ queue, curr.name = name
  index : ∀ name index, (∃ curr ∈ queue, curr.name = name ∧ index ∈ curr.indicies) ↔
    ∃ d, d + 1 = depth ∧ IndexFrom connections sourceNode name d index

/-- What has been visited by the rounds before and by what was taken from the queue. -/
structure Visited (taken : List IConnectedNode) (s : Search) : Prop where
  mem_keys : ∀ name, name ∈ s.visited.keys ↔
    (∃ d < depth, Distance (mainNext connections) sourceNode name d) ∨
      ∃ curr ∈ taken, curr.name = name
  le : ∀ name ∈ s.visited.keys, ∃ d ≤ depth,
    Distance (mainNext connections) sourceNode name d
  sorted : s.visited.keys.Pairwise fun a b => ∀ d e,
    Distance (mainNext connections) sourceNode a d →
      Distance (mainNext connections) sourceNode b e → d ≤ e
  node : ∀ name node, s.visited.get? name = some node → node.name = name ∧
    Distance (mainNext connections) sourceNode name node.depth ∧ node.indicies.Nodup ∧
      ∀ index, index ∈ node.indicies ↔ IndexBefore connections sourceNode depth taken name index
  returned : s.returnConns = s.visited.keys.filter fun name => decide (name ≠ sourceNode)
  queue : ∀ curr, curr ∈ s.queue ↔ ∃ «from», (∃ curr ∈ taken, curr.name = «from») ∧
    Distance (mainNext connections) sourceNode «from» depth ∧
      ∃ connection ∈ mainConnections connections «from»,
        curr = ⟨connection.node, [connection.index], depth + 1⟩
  own : ∀ name ∈ s.visited.keys, name ∉ objectProperties ∧ connections.has "hasOwnProperty" = false

variable {connections sourceNode depth} {taken : List IConnectedNode} {s s' : Search}
  {curr : IConnectedNode}

theorem indexBefore_concat {name : String} {index : ℕ} :
    IndexBefore connections sourceNode depth (taken ++ [curr]) name index ↔
      IndexBefore connections sourceNode depth taken name index ∨
        (curr.name = name ∧ index ∈ curr.indicies) := by
  simp only [IndexBefore, List.mem_append, List.mem_singleton, or_and_right, exists_or,
    exists_eq_left, or_assoc]

theorem nodup_eraseDups (l : List ℕ) : l.eraseDups.Nodup := by
  generalize hn : l.length = n
  induction n using Nat.strong_induction_on generalizing l with
  | _ n ih =>
    cases l with
    | nil => simp
    | cons a l =>
      have hlen := List.length_filter_le (fun b => !b == a) l
      rw [List.length_cons] at hn
      rw [List.eraseDups_cons, List.nodup_cons, List.mem_eraseDups]
      exact ⟨by simp, ih _ (by omega) _ rfl⟩

theorem exists_concat {P : String → Prop} :
    (∃ c ∈ taken ++ [curr], P c.name) ↔ (∃ c ∈ taken, P c.name) ∨ P curr.name := by
  simp only [List.mem_append, List.mem_singleton, or_and_right, exists_or, exists_eq_left]

/-- A node that was visited before gets the indices. -/
theorem Visited.again (h : Visited connections sourceNode depth taken s) {node : IConnectedNode}
    (hnode : s.visited.get? curr.name = some node) :
    Visited connections sourceNode depth (taken ++ [curr])
      { s with visited := s.visited.set curr.name (node.merge curr) } := by
  have hkey : curr.name ∈ s.visited.keys := OrderedMap.mem_keys_of_get? hnode
  have hkeys : (s.visited.set curr.name (node.merge curr)).keys = s.visited.keys := by
    rw [OrderedMap.keys_set, if_pos hkey]
  refine ⟨fun name => ?_, ?_, ?_, fun name node' hget => ?_, ?_, fun c => ?_, ?_⟩
  · rw [hkeys, h.mem_keys, exists_concat (P := (· = name)), ← or_assoc]
    refine (or_iff_left_of_imp ?_).symm
    rintro rfl
    exact (h.mem_keys _).mp hkey
  · rw [hkeys]
    exact h.le
  · rw [hkeys]
    exact h.sorted
  · rw [OrderedMap.get?_set] at hget
    simp only [indexBefore_concat]
    split_ifs at hget with hname
    · obtain rfl := Option.some.inj hget
      obtain ⟨hn, hdist, hnodup, hindex⟩ := h.node _ _ hnode
      subst hname
      refine ⟨hn, hdist, nodup_eraseDups _, fun index => ?_⟩
      simp only [IConnectedNode.merge, List.mem_eraseDups, List.mem_append, hindex, true_and]
    · obtain ⟨hn, hdist, hnodup, hindex⟩ := h.node _ _ hget
      exact ⟨hn, hdist, hnodup, fun index => by simp [hindex, hname]⟩
  · rw [hkeys]
    exact h.returned
  · rw [h.queue]
    refine exists_congr fun «from» => ?_
    rw [exists_concat (P := (· = «from»))]
    refine and_congr_left fun hdist => (or_iff_left_of_imp ?_).symm
    rintro rfl
    refine ((h.mem_keys _).mp hkey).resolve_left ?_
    rintro ⟨d, hd, hdist'⟩
    exact absurd (hdist.1.unique hdist') (by omega)
  · rw [hkeys]
    exact h.own

/-- A node that was not visited before is at the distance of the round. -/
theorem Visited.first (h : Visited connections sourceNode depth taken s)
    (hcurr : curr.depth = depth ∧ curr.indicies.Nodup ∧
      ∃ d ≤ depth, Distance (mainNext connections) sourceNode curr.name d)
    (hnone : s.visited.get? curr.name = none) (hown : curr.name ∉ objectProperties)
    (hmethod : connections.has "hasOwnProperty" = false) :
    Visited connections sourceNode depth (taken ++ [curr])
      { returnConns := if curr.name = sourceNode then s.returnConns else s.returnConns ++ [curr.name]
        queue := s.queue ++ (mainConnections connections curr.name).map
          fun connection => ⟨connection.node, [connection.index], depth + 1⟩
        visited := s.visited.set curr.name curr } := by
  obtain ⟨hdepth, hnodup, d, hd, hdist⟩ := hcurr
  have hkey : curr.name ∉ s.visited.keys := OrderedMap.get?_eq_none.mp hnone
  have hkeys : (s.visited.set curr.name curr).keys = s.visited.keys ++ [curr.name] := by
    rw [OrderedMap.keys_set, if_neg hkey]
  obtain rfl : d = depth := by
    by_contra hne
    exact hkey ((h.mem_keys _).mpr (Or.inl ⟨d, by omega, hdist⟩))
  refine ⟨fun name => ?_, ?_, ?_, fun name node' hget => ?_, ?_, fun c => ?_, ?_⟩
  · rw [hkeys, List.mem_append, h.mem_keys, exists_concat (P := (· = name)), or_assoc,
      List.mem_singleton, eq_comm]
  · rw [hkeys]
    refine List.forall_mem_append.mpr ⟨h.le, ?_⟩
    rw [List.forall_mem_singleton]
    exact ⟨d, le_refl d, hdist⟩
  · rw [hkeys, List.pairwise_append]
    refine ⟨h.sorted, List.pairwise_singleton _ _, fun a ha b hb m n hm hn => ?_⟩
    obtain rfl := List.mem_singleton.mp hb
    obtain ⟨k, hk, hak⟩ := h.le a ha
    rw [hm.unique hak, hn.unique hdist]
    exact hk
  · rw [OrderedMap.get?_set] at hget
    simp only [indexBefore_concat]
    split_ifs at hget with hname
    · obtain rfl := Option.some.inj hget
      subst hname
      refine ⟨rfl, hdepth ▸ hdist, hnodup, fun index => ?_⟩
      rw [or_iff_right, and_iff_right rfl]
      rintro (⟨e, he, «from», hfrom, connection, hconnection, hname, -⟩ | ⟨c, hc, hname, -⟩)
      · obtain ⟨k, hk, hdist'⟩ := hfrom.next_le (List.mem_map.mpr ⟨connection, hconnection, hname⟩)
        exact absurd (hdist.unique hdist') (by omega)
      · exact hkey ((h.mem_keys _).mpr (Or.inr ⟨c, hc, hname⟩))
    · obtain ⟨hn, hdist, hnodup, hindex⟩ := h.node _ _ hget
      exact ⟨hn, hdist, hnodup, fun index => by simp [hindex, hname]⟩
  · rw [hkeys, List.filter_append, ← h.returned]
    by_cases hsource : curr.name = sourceNode <;> simp [hsource]
  · rw [List.mem_append, h.queue, List.mem_map]
    constructor
    · rintro (⟨«from», hfrom, hrest⟩ | ⟨connection, hconnection, rfl⟩)
      · exact ⟨«from», (exists_concat (P := (· = «from»))).mpr (Or.inl hfrom), hrest⟩
      · exact ⟨curr.name, ⟨curr, by simp, rfl⟩, hdist, connection, hconnection, rfl⟩
    · rintro ⟨«from», hfrom, hrest⟩
      rcases (exists_concat (P := (· = «from»))).mp hfrom with hfrom | rfl
      · exact Or.inl ⟨«from», hfrom, hrest⟩
      · obtain ⟨-, connection, hconnection, rfl⟩ := hrest
        exact Or.inr ⟨connection, hconnection, rfl⟩
  · rw [hkeys]
    refine List.forall_mem_append.mpr ⟨h.own, ?_⟩
    rw [List.forall_mem_singleton]
    exact ⟨hown, hmethod⟩

theorem Visited.visit (h : Visited connections sourceNode depth taken s)
    (hcurr : curr.depth = depth ∧ curr.indicies.Nodup ∧
      ∃ d ≤ depth, Distance (mainNext connections) sourceNode curr.name d)
    (hok : NodesByDepth.visit connections sourceNode (depth + 1) s curr = .ok s') :
    Visited connections sourceNode depth (taken ++ [curr]) s' := by
  rw [NodesByDepth.visit] at hok
  cases hget : s.visited.get? curr.name with
  | some node =>
    simp only [hget] at hok
    exact Except.ok.inj hok ▸ h.again hget
  | none =>
    simp only [hget] at hok
    by_cases hown : curr.name ∈ objectProperties
    · rw [if_pos hown] at hok
      cases hok
    · rw [if_neg hown] at hok
      cases hmethod : connections.has "hasOwnProperty" with
      | true =>
        rw [if_pos hmethod] at hok
        cases hok
      | false =>
        rw [if_neg (by simp [hmethod])] at hok
        exact Except.ok.inj hok ▸ h.first hcurr hget hown hmethod

theorem Visited.foldlM {queue : List IConnectedNode}
    (hqueue : ∀ curr ∈ queue, curr.depth = depth ∧ curr.indicies.Nodup ∧
      ∃ d ≤ depth, Distance (mainNext connections) sourceNode curr.name d)
    (h : Visited connections sourceNode depth taken s)
    (hok : queue.foldlM (NodesByDepth.visit connections sourceNode (depth + 1)) s = .ok s') :
    Visited connections sourceNode depth (taken ++ queue) s' := by
  induction queue generalizing taken s with
  | nil =>
    rw [List.append_nil]
    exact Except.ok.inj hok ▸ h
  | cons curr queue ih =>
    rw [List.foldlM_cons] at hok
    obtain ⟨t, ht, hok⟩ := FoldM.bind_eq_ok.mp hok
    rw [List.append_cons]
    obtain ⟨hcurr, hqueue⟩ := List.forall_mem_cons.mp hqueue
    exact ih hqueue (h.visit hcurr ht) hok

/-- The state between two rounds. -/
structure Level (connections : IConnections) (sourceNode : String) (depth : ℕ) (s : Search) :
    Prop where
  visited : Visited connections sourceNode depth [] { s with queue := [] }
  queued : Queued connections sourceNode depth s.queue

theorem level_start (connections : IConnections) (sourceNode : String) :
    Level connections sourceNode 0 ⟨[], [⟨sourceNode, [], 0⟩], .empty⟩ where
  visited := by
    refine ⟨fun name => ?_, ?_, List.Pairwise.nil, fun name node hget => ?_, rfl, fun c => ?_, ?_⟩
    · simp [OrderedMap.keys, OrderedMap.empty]
    · simp [OrderedMap.keys, OrderedMap.empty]
    · simp at hget
    · simp
    · simp [OrderedMap.keys, OrderedMap.empty]
  queued := by
    refine ⟨?_, fun name hname => ?_, fun name index => ?_⟩
    · rw [List.forall_mem_singleton]
      exact ⟨rfl, List.nodup_nil, 0, le_refl 0, Distances.distance_zero _⟩
    · exact ⟨_, List.mem_singleton_self _, (Distances.eq_of_distance_zero hname).symm⟩
    · simp

theorem Level.next (h : Level connections sourceNode depth s)
    (hok : s.queue.foldlM (NodesByDepth.visit connections sourceNode (depth + 1))
      { s with queue := [] } = .ok s') :
    Level connections sourceNode (depth + 1) s' := by
  have hvisited := h.visited.foldlM h.queued.entry hok
  rw [List.nil_append] at hvisited
  have hfrom : ∀ name, Distance (mainNext connections) sourceNode name depth →
      ∃ curr ∈ s.queue, curr.name = name := h.queued.complete
  refine ⟨⟨fun name => ?_, ?_, hvisited.sorted, fun name node hget => ?_, hvisited.returned,
    fun c => ?_, hvisited.own⟩, ⟨fun c hc => ?_, fun name hname => ?_, fun name index => ?_⟩⟩
  · rw [hvisited.mem_keys]
    simp only [List.not_mem_nil, false_and, exists_false, or_false]
    constructor
    · rintro (⟨d, hd, hdist⟩ | ⟨c, hc, rfl⟩)
      · exact ⟨d, by omega, hdist⟩
      · obtain ⟨-, -, d, hd, hdist⟩ := h.queued.entry c hc
        exact ⟨d, by omega, hdist⟩
    · rintro ⟨d, hd, hdist⟩
      rcases Nat.lt_succ_iff_lt_or_eq.mp hd with hd | rfl
      · exact Or.inl ⟨d, hd, hdist⟩
      · exact Or.inr (hfrom name hdist)
  · intro name hname
    obtain ⟨d, hd, hdist⟩ := hvisited.le name hname
    exact ⟨d, by omega, hdist⟩
  · obtain ⟨hn, hdist, hnodup, hindex⟩ := hvisited.node name node hget
    refine ⟨hn, hdist, hnodup, fun index => (hindex index).trans ?_⟩
    rw [IndexBefore, IndexBefore, h.queued.index]
    simp only [List.not_mem_nil, false_and, exists_false, or_false]
    constructor
    · rintro (⟨d, hd, hd'⟩ | ⟨d, hd, hd'⟩) <;> exact ⟨d, by omega, hd'⟩
    · rintro ⟨d, hd, hd'⟩
      rcases Nat.lt_or_ge (d + 1) depth with hlt | hge
      · exact Or.inl ⟨d, hlt, hd'⟩
      · exact Or.inr ⟨d, by omega, hd'⟩
  · simp
  · obtain ⟨«from», -, hdist, connection, hconnection, rfl⟩ := (hvisited.queue c).mp hc
    refine ⟨rfl, List.nodup_singleton _, ?_⟩
    exact hdist.next_le (List.mem_map.mpr ⟨connection, hconnection, rfl⟩)
  · obtain ⟨«from», hdist, hnext⟩ := hname.pred
    obtain ⟨connection, hconnection, rfl⟩ := List.mem_map.mp hnext
    exact ⟨_, (hvisited.queue _).mpr ⟨«from», hfrom _ hdist, hdist, connection, hconnection, rfl⟩, rfl⟩
  · constructor
    · rintro ⟨c, hc, hname, hindex⟩
      obtain ⟨«from», -, hdist, connection, hconnection, rfl⟩ := (hvisited.queue c).mp hc
      exact ⟨depth, rfl, «from», hdist, connection, hconnection, hname,
        (List.mem_singleton.mp hindex).symm⟩
    · rintro ⟨d, hd, «from», hdist, connection, hconnection, hname, hindex⟩
      obtain rfl : d = depth := by omega
      exact ⟨_, (hvisited.queue _).mpr ⟨«from», hfrom _ hdist, hdist, connection, hconnection, rfl⟩,
        hname, by simp [hindex]⟩

end Round

/-! ### The rounds -/

section Rounds
variable {connections : IConnections} {sourceNode : String} {maxDepth : ℤ} {depth fuel : ℕ}
  {s s' : Search}

theorem withinDepth_iff : WithinDepth depth maxDepth ↔ ¬ (maxDepth ≠ -1 ∧ maxDepth < depth) := by
  rw [WithinDepth, not_and_or, not_not, not_lt]

/-- The search ends between two rounds, with an empty queue or beyond the greatest depth. -/
theorem searchRounds_ok (h : Level connections sourceNode depth s)
    (hwithin : ∀ d < depth, WithinDepth d maxDepth)
    (hok : searchRounds connections sourceNode maxDepth fuel depth s = .ok s') :
    ∃ end', Level connections sourceNode end' s' ∧ (∀ d < end', WithinDepth d maxDepth) ∧
      (s'.queue = [] ∨ ¬ WithinDepth end' maxDepth) := by
  induction fuel generalizing depth s with
  | zero => cases hok
  | succ fuel ih =>
    rw [searchRounds] at hok
    split_ifs at hok with hqueue hdepth
    · obtain rfl := Except.ok.inj hok
      exact ⟨depth, h, hwithin, Or.inl hqueue⟩
    · obtain rfl := Except.ok.inj hok
      exact ⟨depth, h, hwithin, Or.inr fun hw => withinDepth_iff.mp hw hdepth⟩
    · obtain ⟨t, ht, hok⟩ := FoldM.bind_eq_ok.mp hok
      refine ih (h.next ht) (fun d hd => ?_) hok
      rcases Nat.lt_succ_iff_lt_or_eq.mp hd with hd | rfl
      · exact hwithin d hd
      · exact withinDepth_iff.mpr hdepth

/-- The nodes with connections that have been visited. -/
def visitedKeys (connections : IConnections) (s : Search) : Finset String :=
  s.visited.keys.toFinset ∩ connections.keys.toFinset

theorem mem_keys_of_mainConnections {nodeName : String} {connection : Connection}
    (h : connection ∈ mainConnections connections nodeName) : nodeName ∈ connections.keys := by
  by_contra hkey
  rw [mainConnections, OrderedMap.get?_eq_none.mpr hkey] at h
  simp at h

theorem card_visitedKeys_le : (visitedKeys connections s).card ≤ connections.size := by
  refine (Finset.card_le_card Finset.inter_subset_right).trans ?_
  refine (List.toFinset_card_le _).trans ?_
  rw [OrderedMap.keys, List.length_map]
  exact le_rfl

/-- When something is queued again, the round has visited a node that had not been visited. -/
theorem Level.visitedKeys_lt (h : Level connections sourceNode depth s)
    (h' : Visited connections sourceNode depth s.queue s') (hqueue : s'.queue ≠ []) :
    (visitedKeys connections s).card < (visitedKeys connections s').card := by
  obtain ⟨curr, hcurr⟩ := List.exists_mem_of_ne_nil _ hqueue
  obtain ⟨«from», hfrom, hdist, connection, hconnection, -⟩ := (h'.queue curr).mp hcurr
  have hold : ∀ name, name ∈ s.visited.keys ↔
      ∃ d < depth, Distance (mainNext connections) sourceNode name d := by
    intro name
    rw [h.visited.mem_keys]
    simp
  apply Finset.card_lt_card
  rw [Finset.ssubset_iff_of_subset]
  · refine ⟨«from», ?_, ?_⟩
    · simp only [visitedKeys, Finset.mem_inter, List.mem_toFinset]
      exact ⟨(h'.mem_keys _).mpr (Or.inr hfrom), mem_keys_of_mainConnections hconnection⟩
    · simp only [visitedKeys, Finset.mem_inter, List.mem_toFinset, hold]
      rintro ⟨⟨d, hd, hdist'⟩, -⟩
      exact absurd (hdist.unique hdist') (by omega)
  · intro name hname
    simp only [visitedKeys, Finset.mem_inter, List.mem_toFinset, hold] at hname ⊢
    exact ⟨(h'.mem_keys name).mpr (Or.inl hname.1), hname.2⟩

theorem exists_foldlM_visit {queue : List IConnectedNode}
    (hown : ∀ curr ∈ queue, curr.name ∉ objectProperties)
    (hmethod : connections.has "hasOwnProperty" = false) (s : Search) :
    ∃ s', queue.foldlM (visit connections sourceNode depth) s = .ok s' := by
  induction queue generalizing s with
  | nil => exact ⟨s, rfl⟩
  | cons curr queue ih =>
    obtain ⟨hcurr, hown⟩ := List.forall_mem_cons.mp hown
    obtain ⟨t, ht⟩ : ∃ t, visit connections sourceNode depth s curr = .ok t := by
      rw [visit]
      cases s.visited.get? curr.name with
      | some node => exact ⟨_, rfl⟩
      | none => exact ⟨_, by rw [if_neg hcurr, if_neg (by simp [hmethod])]⟩
    obtain ⟨s', hs'⟩ := ih hown t
    exact ⟨s', (FoldM.foldlM_cons_ok ht).trans hs'⟩

/-- There are fewer rounds that queue something than nodes with connections. -/
theorem exists_searchRounds (hown : OwnNames connections sourceNode maxDepth)
    (h : Level connections sourceNode depth s)
    (hcount : s.queue ≠ [] → depth ≤ (visitedKeys connections s).card)
    (hfuel : connections.size + 2 ≤ fuel + depth) (hpos : 0 < fuel) :
    ∃ s', searchRounds connections sourceNode maxDepth fuel depth s = .ok s' := by
  induction fuel generalizing depth s with
  | zero => omega
  | succ fuel ih =>
    rw [searchRounds]
    split_ifs with hqueue hdepth
    · exact ⟨s, rfl⟩
    · exact ⟨s, rfl⟩
    · have hwithin := withinDepth_iff.mpr hdepth
      have hnames : ∀ curr ∈ s.queue, curr.name ∉ objectProperties := by
        intro curr hcurr
        obtain ⟨-, -, d, hd, hdist⟩ := h.queued.entry curr hcurr
        exact hown.2 _ d hdist (hwithin.imp_right fun hle => by omega)
      obtain ⟨t, ht⟩ : ∃ t, s.queue.foldlM (visit connections sourceNode (depth + 1))
          { s with queue := [] } = .ok t := exists_foldlM_visit hnames hown.1 _
      have hvisited := h.visited.foldlM h.queued.entry ht
      have hle : (visitedKeys connections s).card ≤ connections.size := card_visitedKeys_le
      have hdepth := hcount hqueue
      rw [ht, FoldM.ok_bind]
      refine ih (h.next ht) (fun hqueue' => ?_) (by omega) (by omega)
      have hlt := h.visitedKeys_lt hvisited hqueue'
      omega

/-- Between two rounds where nothing more is searched the visited nodes are those within reach. -/
theorem Level.within (h : Level connections sourceNode depth s)
    (hwithin : ∀ d < depth, WithinDepth d maxDepth)
    (hend : s.queue = [] ∨ ¬ WithinDepth depth maxDepth) {name : String} {d : ℕ}
    (hdist : Distance (mainNext connections) sourceNode name d) :
    d < depth ↔ WithinDepth d maxDepth := by
  refine ⟨hwithin d, fun hd => ?_⟩
  by_contra hge
  rcases hend with hnil | hbeyond
  · obtain ⟨c, hc⟩ := hdist.exists_of_le (Nat.le_of_not_lt hge)
    obtain ⟨curr, hcurr, -⟩ := h.queued.complete c hc
    rw [hnil] at hcurr
    cases hcurr
  · exact hbeyond (hd.imp_right fun hle => by omega)

theorem Level.mem_keys (h : Level connections sourceNode depth s) {name : String} :
    name ∈ s.visited.keys ↔
      ∃ d < depth, Distance (mainNext connections) sourceNode name d := by
  rw [h.visited.mem_keys]
  simp

theorem map_name_filterMap {names : List String} {visited : OrderedMap String IConnectedNode}
    (hkeys : ∀ name ∈ names, name ∈ visited.keys)
    (hnames : ∀ name node, visited.get? name = some node → node.name = name) :
    (names.filterMap visited.get?).map (·.name) = names := by
  induction names with
  | nil => rfl
  | cons name names ih =>
    obtain ⟨hname, hkeys⟩ := List.forall_mem_cons.mp hkeys
    obtain ⟨node, hnode⟩ := OrderedMap.exists_get?_of_mem_keys hname
    rw [List.filterMap_cons_some hnode, List.map_cons, hnames name node hnode, ih hkeys]

theorem Level.shortestDistances (h : Level connections sourceNode depth s)
    (hwithin : ∀ d < depth, WithinDepth d maxDepth)
    (hend : s.queue = [] ∨ ¬ WithinDepth depth maxDepth) :
    ShortestDistances connections sourceNode maxDepth (s.returnConns.filterMap s.visited.get?) := by
  have hreturned := h.visited.returned
  have hnode := h.visited.node
  dsimp only at hreturned hnode
  have hnames := fun name node hget => (hnode name node hget).1
  have hmem : ∀ name, name ∈ s.returnConns ↔ name ∈ s.visited.keys ∧ name ≠ sourceNode := by
    intro name
    rw [hreturned, List.mem_filter, decide_eq_true_eq]
  refine ⟨?_, ?_, fun name d => ?_, fun node hin => ?_⟩
  · rw [map_name_filterMap (fun name hname => ((hmem name).mp hname).1) hnames, hreturned]
    exact s.visited.keys_nodup.filter _
  · rw [List.pairwise_map, List.pairwise_filterMap, hreturned]
    refine (h.visited.sorted.filter _).imp fun {a b} hle node hget node' hget' => ?_
    exact hle _ _ (hnode a node hget).2.1 (hnode b node' hget').2.1
  · constructor
    · rintro ⟨node, hin, rfl, rfl⟩
      obtain ⟨name, hname, hget⟩ := List.mem_filterMap.mp hin
      obtain ⟨rfl, hdist, -⟩ := hnode name node hget
      obtain ⟨hkey, hne⟩ := (hmem _).mp hname
      obtain ⟨d, hd, hdist'⟩ := h.mem_keys.mp hkey
      exact ⟨hne, hdist, hdist.unique hdist' ▸ hwithin d hd⟩
    · rintro ⟨hne, hdist, hd⟩
      have hkey := h.mem_keys.mpr ⟨d, (h.within hwithin hend hdist).mpr hd, hdist⟩
      obtain ⟨node, hget⟩ := OrderedMap.exists_get?_of_mem_keys hkey
      obtain ⟨hname, hdist', -⟩ := hnode name node hget
      exact ⟨node, List.mem_filterMap.mpr ⟨name, (hmem name).mpr ⟨hkey, hne⟩, hget⟩, hname,
        hdist'.unique hdist⟩
  · obtain ⟨name, hname, hget⟩ := List.mem_filterMap.mp hin
    obtain ⟨rfl, -, hnodup, hindex⟩ := hnode name node hget
    refine ⟨hnodup, fun index => (hindex index).trans ?_⟩
    rw [IndexBefore]
    simp only [List.not_mem_nil, false_and, exists_false, or_false]
    refine exists_congr fun d => and_congr_left fun hfrom => ⟨hwithin (d + 1), fun hd => ?_⟩
    obtain ⟨«from», hdist, -⟩ := id hfrom
    have hlt := (h.within hwithin hend hdist).mpr (hd.imp_right fun hle => by omega)
    by_contra hge
    obtain rfl : d + 1 = depth := by omega
    rcases hend with hnil | hbeyond
    · obtain ⟨curr, hcurr, -⟩ := (h.queued.index _ index).mpr ⟨d, rfl, hfrom⟩
      rw [hnil] at hcurr
      cases hcurr
    · exact hbeyond hd

end Rounds

/-- The search gives the shortest distances exactly when no name that it comes to is that of an
inherited property. -/
theorem searchNodesBFS_iff (connections : IConnections) (sourceNode : String) (maxDepth : ℤ)
    (hmax : -1 ≤ maxDepth) :
    (∃ nodes, searchNodesBFS connections sourceNode maxDepth = .ok nodes ∧
      ShortestDistances connections sourceNode maxDepth nodes) ↔
      OwnNames connections sourceNode maxDepth := by
  have hstart := level_start connections sourceNode
  have hnone : ∀ d < 0, WithinDepth d maxDepth := fun d hd => absurd hd (Nat.not_lt_zero d)
  constructor
  · rintro ⟨nodes, hok, -⟩
    obtain ⟨s, hs, -⟩ := FoldM.bind_eq_ok.mp hok
    obtain ⟨depth, hlevel, hwithin, hend⟩ := searchRounds_ok hstart hnone hs
    have hown : ∀ name d, Distance (mainNext connections) sourceNode name d →
        WithinDepth d maxDepth →
          name ∉ objectProperties ∧ connections.has "hasOwnProperty" = false := by
      intro name d hdist hd
      exact hlevel.visited.own name
        (hlevel.mem_keys.mpr ⟨d, (hlevel.within hwithin hend hdist).mpr hd, hdist⟩)
    refine ⟨(hown sourceNode 0 (Distances.distance_zero _) ?_).2,
      fun name d hdist hd => (hown name d hdist hd).1⟩
    unfold WithinDepth
    omega
  · intro hown
    obtain ⟨s, hs⟩ := exists_searchRounds hown hstart (fun _ => Nat.zero_le _) (by omega)
      (Nat.succ_pos (connections.size + 1))
    obtain ⟨depth, hlevel, hwithin, hend⟩ := searchRounds_ok hstart hnone hs
    refine ⟨_, ?_, hlevel.shortestDistances hwithin hend⟩
    rw [searchNodesBFS, hs]
    rfl

section Names

def oneConnection (source destination : String) : IConnections :=
  OrderedMap.empty.set source (OrderedMap.empty.set .main [some [⟨destination, .main, 0⟩]])

/-- A node that is named like an inherited property. -/
theorem constructor_not_shortest : ¬ ∀ (connections : IConnections) (sourceNode : String)
    (maxDepth : ℤ), -1 ≤ maxDepth → ∃ nodes,
      searchNodesBFS connections sourceNode maxDepth = .ok nodes ∧
        ShortestDistances connections sourceNode maxDepth nodes := by
  intro h
  obtain ⟨nodes, hok, -⟩ := h (oneConnection "A" "constructor") "A" (-1) (by decide)
  have herror : searchNodesBFS (oneConnection "A" "constructor") "A" (-1) = .error .typeError := by
    decide
  rw [herror] at hok
  cases hok

theorem mem_mainNext_oneConnection {nodeName name : String}
    (h : name ∈ mainNext (oneConnection "A" "B") nodeName) : name = "B" := by
  obtain ⟨connection, hconnection, rfl⟩ := List.mem_map.mp h
  obtain rfl : nodeName = "A" :=
    List.mem_singleton.mp (mem_keys_of_mainConnections hconnection)
  exact List.mem_singleton.mp h

theorem oneConnection_shortest : ∃ nodes,
    searchNodesBFS (oneConnection "A" "B") "A" (-1) = .ok nodes ∧
      ShortestDistances (oneConnection "A" "B") "A" (-1) nodes := by
  refine (searchNodesBFS_iff (oneConnection "A" "B") "A" (-1) (by decide)).mpr
    ⟨by decide, fun name depth hdist _ => ?_⟩
  cases depth with
  | zero =>
    rw [Distances.eq_of_distance_zero hdist]
    decide
  | succ depth =>
    obtain ⟨_, -, hnext⟩ := hdist.pred
    rw [mem_mainNext_oneConnection hnext]
    decide

end Names
end N8n.NodesByDepth
