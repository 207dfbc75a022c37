import N8n.Foundations.ConsecutiveGroups
import N8n.Workflow.Node
import N8n.Workflow.RunData
import Mathlib.Data.List.Sort

/-!
# Groups of incoming connections, for all integer input indices

Nothing keeps the input index of a connection from being negative. The groups are made here of
connections with any integer as their index, with the running index of the source, which each round
counts up before it looks for a connection.
-/

namespace N8n.IntegerInputs

open ConsecutiveGroups (From Taken Grouping Full Unimodal)

variable {ι : Type}

structure GraphConnection where
  fromNode : INode
  toNode : INode
  type : NodeConnectionType
  outputIndex : ℕ
  inputIndex : ℤ
  deriving DecidableEq

structure DirectedGraph where
  nodes : OrderedMap String INode
  connections : OrderedMap String GraphConnection

/-- `graph.getConnections({ to: node })` -/
def DirectedGraph.getConnections (graph : DirectedGraph) (node : INode) : List GraphConnection :=
  graph.connections.values.filter fun c => decide (c.toNode = node)

/-- `sortByInputIndexThenByName` gives no positive number. -/
def sortByInputIndexThenByName (localeCompare : String → String → ℤ)
    (connection1 connection2 : GraphConnection) : Prop :=
  if connection1.inputIndex = connection2.inputIndex then
    localeCompare connection1.fromNode.name connection2.fromNode.name ≤ 0
  else connection1.inputIndex ≤ connection2.inputIndex

instance (localeCompare : String → String → ℤ) :
    DecidableRel (sortByInputIndexThenByName localeCompare) := fun _ _ =>
  inferInstanceAs (Decidable (ite _ _ _))

structure SourceConnectionGroup where
  complete : Bool
  connections : List GraphConnection

def newGroup : SourceConnectionGroup := ⟨true, []⟩

def lowestInputIndex (connections : List GraphConnection) : ℤ :=
  ((connections.map (·.inputIndex)).min?).getD 0

def groupConnections : ℕ → ℤ → SourceConnectionGroup → List SourceConnectionGroup →
    List GraphConnection → List GraphConnection → Except Failure (List SourceConnectionGroup)
  | 0, _, _, _, _, _ => .error .outOfFuel
  | fuel + 1, currentInputIndex, currentGroup, groups, withData, withoutData =>
    if withData.length = 0 ∧ withoutData.length = 0 then .ok (groups ++ [currentGroup])
    else
      let currentInputIndex := currentInputIndex + 1
      match withData.find? (·.inputIndex = currentInputIndex) with
      | some connection =>
        groupConnections fuel currentInputIndex
          { currentGroup with connections := currentGroup.connections ++ [connection] } groups
          (withData.eraseP (·.inputIndex = currentInputIndex)) withoutData
      | none =>
        match withoutData.find? (·.inputIndex = currentInputIndex) with
        | some connection =>
          groupConnections fuel currentInputIndex
            ⟨false, currentGroup.connections ++ [connection]⟩ groups withData
            (withoutData.eraseP (·.inputIndex = currentInputIndex))
        | none =>
          groupConnections fuel (lowestInputIndex (withData ++ withoutData) - 1) newGroup
            (groups ++ [currentGroup]) withData withoutData

section Data
variable (runData : IRunData ι) (pinnedData : IPinData ι)

def hasData (connection : GraphConnection) : Bool :=
  runData.has connection.fromNode.name || pinnedData.has connection.fromNode.name

def getSourceDataGroups (localeCompare : String → String → ℤ) (graph : DirectedGraph)
    (node : INode) : Except Failure (List SourceConnectionGroup) :=
  let connections := graph.getConnections node
  let sortedWithData := (connections.filter (hasData runData pinnedData)).insertionSort
    (sortByInputIndexThenByName localeCompare)
  let sortedWithoutData := (connections.filter fun c =>
      !hasData runData pinnedData c && decide (c.type = .main)).insertionSort
    (sortByInputIndexThenByName localeCompare)
  if sortedWithData.length = 0 ∧ sortedWithoutData.length = 0 then .ok []
  else
    groupConnections (2 * (sortedWithData.length + sortedWithoutData.length) + 1)
      (lowestInputIndex (sortedWithData ++ sortedWithoutData) - 1) newGroup [] sortedWithData
      sortedWithoutData

def sourceConnections (graph : DirectedGraph) (node : INode) : List GraphConnection :=
  (graph.getConnections node).filter fun c =>
    hasData runData pinnedData c || decide (c.type = .main)

end Data

/-! ### The loop -/

theorem lowestInputIndex_le {connections : List GraphConnection} {c : GraphConnection}
    (hc : c ∈ connections) : lowestInputIndex connections ≤ c.inputIndex := by
  have hmem := List.mem_map_of_mem (f := fun c : GraphConnection => c.inputIndex) hc
  cases hmin : (connections.map (·.inputIndex)).min? with
  | none => exact absurd hmem (by rw [List.min?_eq_none_iff.mp hmin]; exact List.not_mem_nil)
  | some index =>
    rw [lowestInputIndex, hmin]
    exact (List.min?_eq_some_iff.mp hmin).2 _ hmem

/-- The lowest index is that of a connection, so that the next round takes one. -/
theorem lowestInputIndex_mem {connections : List GraphConnection} (h : connections ≠ []) :
    ∃ c ∈ connections, c.inputIndex = lowestInputIndex connections := by
  cases hmin : (connections.map (·.inputIndex)).min? with
  | none => exact absurd (List.map_eq_nil_iff.mp (List.min?_eq_none_iff.mp hmin)) h
  | some index =>
    obtain ⟨c, hc, hindex⟩ := List.mem_map.mp (List.min?_mem hmin)
    exact ⟨c, hc, by rw [lowestInputIndex, hmin, hindex, Option.getD_some]⟩

def Marked (hasData : GraphConnection → Bool) (group : SourceConnectionGroup) : Prop :=
  group.complete = true ↔ ∀ c ∈ group.connections, hasData c = true

/-- What is known of a group that is begun, and of the connections that are left. -/
structure Begun (hasData : GraphConnection → Bool) (first : ℤ) (group : SourceConnectionGroup)
    (left : List GraphConnection) : Prop where
  marked : Marked hasData group
  consecutive : From GraphConnection.inputIndex first group.connections
  best : ∀ a ∈ group.connections, ∀ b ∈ left, b.inputIndex = a.inputIndex → hasData b = true →
    hasData a = true

/-- What the loop makes of a group that it has begun and the connections that are left. -/
structure Grouped (hasData : GraphConnection → Bool) (first : ℤ)
    (currentGroup : SourceConnectionGroup) (left : List GraphConnection)
    (made : List SourceConnectionGroup) : Prop where
  marked : ∀ group ∈ made, Marked hasData group
  taken : ∃ group rest later, made = group :: later ∧
    Taken GraphConnection.inputIndex (fun c => hasData c = true) first
      (currentGroup.connections ++ left) group.connections rest ∧
    Grouping GraphConnection.inputIndex (fun c => hasData c = true) rest
      (later.map (·.connections))

section Loop
variable {hasData : GraphConnection → Bool} {first : ℤ} {complete : Bool}
  {connections left left' : List GraphConnection} {c : GraphConnection}
  {made : List SourceConnectionGroup}

theorem begun_newGroup (first : ℤ) (left : List GraphConnection) :
    Begun hasData first newGroup left :=
  ⟨⟨fun _ _ hc => absurd hc List.not_mem_nil, fun _ => rfl⟩, trivial,
    fun _ ha => absurd ha List.not_mem_nil⟩

theorem Begun.take (h : Begun hasData first ⟨complete, connections⟩ left)
    (hc : c.inputIndex = first + connections.length) (hleft : left.Perm (c :: left'))
    (hbest : ∀ b ∈ left', b.inputIndex = c.inputIndex → hasData b = true → hasData c = true) :
    Begun hasData first ⟨complete && hasData c, connections ++ [c]⟩ left' := by
  refine ⟨?_, h.consecutive.append hc, fun a ha b hb => ?_⟩
  · have hmarked := h.marked
    simp only [Marked, Bool.and_eq_true, List.mem_append, List.mem_singleton, or_imp, forall_and,
      forall_eq] at hmarked ⊢
    rw [hmarked]
  · rcases List.mem_append.mp ha with ha | ha
    · exact h.best a ha b (hleft.mem_iff.mpr (List.mem_cons_of_mem c hb))
    · rw [List.mem_singleton.mp ha]
      exact hbest b hb

theorem Grouped.take (hleft : left.Perm (c :: left'))
    (h : Grouped hasData first ⟨complete && hasData c, connections ++ [c]⟩ left' made) :
    Grouped hasData first ⟨complete, connections⟩ left made := by
  obtain ⟨group, rest, later, hmade, htaken, hrest⟩ := h.taken
  refine ⟨h.marked, group, rest, later, hmade, htaken.congr ?_, hrest⟩
  rw [List.append_assoc, List.singleton_append]
  exact hleft.append_left connections

/-- The groups of the connections that are left, begun at the lowest index. -/
theorem Grouped.grouping (hne : left ≠ [])
    (h : Grouped hasData (lowestInputIndex left) newGroup left made) :
    Grouping GraphConnection.inputIndex (fun c => hasData c = true) left
      (made.map (·.connections)) := by
  obtain ⟨group, rest, later, rfl, htaken, hrest⟩ := h.taken
  obtain ⟨c, hc, hfirst⟩ := lowestInputIndex_mem hne
  exact .cons (htaken.ne_nil hc hfirst) (fun _ hc => lowestInputIndex_le hc) htaken hrest

/-- A group is closed where no connection that is left has the next index. -/
theorem Begun.close {group : SourceConnectionGroup} (h : Begun hasData first group left)
    (hends : ∀ b ∈ left, b.inputIndex ≠ first + group.connections.length) :
    Taken GraphConnection.inputIndex (fun c => hasData c = true) first (group.connections ++ left)
      group.connections left :=
  ⟨.refl _, h.consecutive, hends, h.best⟩

theorem Grouped.close {group : SourceConnectionGroup} (hbegun : Begun hasData first group left)
    (hends : ∀ b ∈ left, b.inputIndex ≠ first + group.connections.length) (hne : left ≠ [])
    (h : Grouped hasData (lowestInputIndex left) newGroup left made) :
    Grouped hasData first group left (group :: made) := by
  refine ⟨fun group' hgroup' => ?_, group, left, made, rfl, hbegun.close hends, h.grouping hne⟩
  rcases List.mem_cons.mp hgroup' with rfl | hgroup'
  · exact hbegun.marked
  · exact h.marked group' hgroup'

structure Found (inputIndex : ℤ) (c : GraphConnection) (connections rest : List GraphConnection) :
    Prop where
  mem : c ∈ connections
  index : c.inputIndex = inputIndex
  perm : connections.Perm (c :: rest)
  sub : ∀ b ∈ rest, b ∈ connections
  length : rest.length + 1 = connections.length

theorem found_of_find? {inputIndex : ℤ}
    (h : connections.find? (·.inputIndex = inputIndex) = some c) :
    Found inputIndex c connections (connections.eraseP (·.inputIndex = inputIndex)) where
  mem := List.mem_of_find?_eq_some h
  index := by simpa using List.find?_some h
  perm := ConsecutiveGroups.perm_cons_eraseP h
  sub := fun _ hb => List.mem_of_mem_eraseP hb
  length := (ConsecutiveGroups.perm_cons_eraseP h).length_eq.symm

theorem groupConnections_grouped {fuel : ℕ} {currentInputIndex first : ℤ}
    {currentGroup : SourceConnectionGroup} {groups : List SourceConnectionGroup}
    {withData withoutData : List GraphConnection}
    (hwith : ∀ c ∈ withData, hasData c = true) (hwithout : ∀ c ∈ withoutData, hasData c = false)
    (hbegun : Begun hasData first currentGroup (withData ++ withoutData))
    (hindex : currentInputIndex + 1 = first + currentGroup.connections.length)
    -- two rounds for each connection are enough, since a round that closes a group is followed by
    -- one that takes a connection
    (hfuel : 2 * (withData.length + withoutData.length) < fuel ∨
      2 * (withData.length + withoutData.length) ≤ fuel ∧ 0 < fuel ∧
        ∃ c ∈ withData ++ withoutData, c.inputIndex = currentInputIndex + 1) :
    ∃ made, groupConnections fuel currentInputIndex currentGroup groups withData withoutData =
        .ok (groups ++ made) ∧
      Grouped hasData first currentGroup (withData ++ withoutData) made := by
  induction fuel generalizing currentInputIndex first currentGroup groups withData withoutData with
  | zero => omega
  | succ fuel ih =>
    rw [groupConnections]
    split_ifs with hdone
    · obtain ⟨rfl, rfl⟩ := hdone.imp List.length_eq_zero_iff.mp List.length_eq_zero_iff.mp
      refine ⟨[currentGroup], rfl, ?_, currentGroup, [], [], rfl,
        hbegun.close fun _ hb => absurd hb List.not_mem_nil, .nil⟩
      exact fun group hgroup => List.mem_singleton.mp hgroup ▸ hbegun.marked
    · dsimp only
      generalize currentInputIndex + 1 = inputIndex at hindex hfuel ⊢
      have hnext : ∀ c : GraphConnection,
          inputIndex + 1 = first + (currentGroup.connections ++ [c]).length := by
        intro c
        rw [hindex, List.length_append, List.length_singleton]
        omega
      cases hfind : withData.find? (·.inputIndex = inputIndex) with
      | some c =>
        have hfound := found_of_find? hfind
        have hlength := hfound.length
        have hdata := hwith c hfound.mem
        have hleft := hfound.perm.append_right withoutData
        have htake := hbegun.take (hfound.index.trans hindex) hleft fun _ _ _ _ => hdata
        obtain ⟨made, hok, hgrouped⟩ := @ih inputIndex first _ groups _ _
          (fun b hb => hwith b (hfound.sub b hb)) hwithout htake (hnext c) (Or.inl (by omega))
        rw [hdata, Bool.and_true] at hok
        exact ⟨made, hok, hgrouped.take hleft⟩
      | none =>
        have hnone : ∀ b ∈ withData, b.inputIndex ≠ inputIndex := by
          simpa using List.find?_eq_none.mp hfind
        dsimp only
        cases hfind' : withoutData.find? (·.inputIndex = inputIndex) with
        | some c =>
          have hfound := found_of_find? hfind'
          have hlength := hfound.length
          have hdata := hwithout c hfound.mem
          have hwithout' := fun b hb => hwithout b (hfound.sub b hb)
          have hleft := (hfound.perm.append_left withData).trans List.perm_middle
          have htake := hbegun.take (hfound.index.trans hindex) hleft (by
            intro b hb hsame hb'
            rcases List.mem_append.mp hb with hb | hb
            · exact absurd (hsame.trans hfound.index) (hnone b hb)
            · rw [hwithout' b hb] at hb'
              cases hb')
          obtain ⟨made, hok, hgrouped⟩ := @ih inputIndex first _ groups _ _ hwith hwithout'
            htake (hnext c) (Or.inl (by omega))
          rw [hdata, Bool.and_false] at hok
          exact ⟨made, hok, hgrouped.take hleft⟩
        | none =>
          have hnone' : ∀ b ∈ withoutData, b.inputIndex ≠ inputIndex := by
            simpa using List.find?_eq_none.mp hfind'
          have hends : ∀ b ∈ withData ++ withoutData, b.inputIndex ≠ inputIndex :=
            fun b hb => (List.mem_append.mp hb).elim (hnone b) (hnone' b)
          have hne : withData ++ withoutData ≠ [] := by
            intro hnil
            obtain ⟨rfl, rfl⟩ := List.append_eq_nil_iff.mp hnil
            exact hdone ⟨rfl, rfl⟩
          have hlt : 2 * (withData.length + withoutData.length) < fuel + 1 := by
            rcases hfuel with hlt | ⟨-, -, b, hb, hsame⟩
            · exact hlt
            · exact absurd hsame (hends b hb)
          have hpos := List.length_pos_of_ne_nil hne
          rw [List.length_append] at hpos
          obtain ⟨c, hc, hlowest⟩ := lowestInputIndex_mem hne
          obtain ⟨made, hok, hgrouped⟩ := @ih _ _ _ (groups ++ [currentGroup]) _ _ hwith hwithout
            (begun_newGroup (lowestInputIndex (withData ++ withoutData)) _)
            (show lowestInputIndex (withData ++ withoutData) - 1 + 1 = _ + ((0 : ℕ) : ℤ) by omega)
            (Or.inr ⟨by omega, by omega, c, hc, by omega⟩)
          exact ⟨currentGroup :: made, by rw [hok, List.append_assoc, List.singleton_append],
            .close hbegun (fun b hb => hindex ▸ hends b hb) hne hgrouped⟩

end Loop

/-! ### The groups -/

section Groups
variable (localeCompare : String → String → ℤ) (graph : DirectedGraph) (node : INode)
  (runData : IRunData ι) (pinnedData : IPinData ι)

theorem sourceConnections_perm {r : GraphConnection → GraphConnection → Prop} [DecidableRel r] :
    (((graph.getConnections node).filter (hasData runData pinnedData)).insertionSort r ++
      ((graph.getConnections node).filter fun c =>
        !hasData runData pinnedData c && decide (c.type = .main)).insertionSort r).Perm
      (sourceConnections runData pinnedData graph node) := by
  refine ((List.perm_insertionSort _ _).append (List.perm_insertionSort _ _)).trans ?_
  refine .trans (.of_eq ?_) (List.filter_append_perm (hasData runData pinnedData) _)
  rw [sourceConnections, List.filter_filter, List.filter_filter]
  congr 1 <;> refine List.filter_congr fun c _ => ?_ <;> cases hasData runData pinnedData c <;> rfl

theorem getSourceDataGroups_grouping :
    ∃ groups left, getSourceDataGroups runData pinnedData localeCompare graph node = .ok groups ∧
      left.Perm (sourceConnections runData pinnedData graph node) ∧
      Grouping GraphConnection.inputIndex (fun c => hasData runData pinnedData c = true) left
        (groups.map (·.connections)) ∧
      ∀ group ∈ groups, Marked (hasData runData pinnedData) group := by
  have hperm := sourceConnections_perm graph node runData pinnedData
    (r := sortByInputIndexThenByName localeCompare)
  rw [getSourceDataGroups]
  generalize hwith : ((graph.getConnections node).filter (hasData runData pinnedData)).insertionSort
    (sortByInputIndexThenByName localeCompare) = withData at hperm ⊢
  generalize hwithout : ((graph.getConnections node).filter fun c =>
      !hasData runData pinnedData c && decide (c.type = .main)).insertionSort
    (sortByInputIndexThenByName localeCompare) = withoutData at hperm ⊢
  split_ifs with hnone
  · obtain ⟨rfl, rfl⟩ := hnone.imp List.length_eq_zero_iff.mp List.length_eq_zero_iff.mp
    exact ⟨[], [], rfl, hperm, .nil, fun _ hgroup => absurd hgroup List.not_mem_nil⟩
  · have hdata : ∀ c ∈ withData, hasData runData pinnedData c = true := by
      intro c hc
      rw [← hwith, List.mem_insertionSort] at hc
      exact (List.mem_filter.mp hc).2
    have hdata' : ∀ c ∈ withoutData, hasData runData pinnedData c = false := by
      intro c hc
      rw [← hwithout, List.mem_insertionSort, List.mem_filter, Bool.and_eq_true,
        Bool.not_eq_true'] at hc
      exact hc.2.1
    have hne : withData ++ withoutData ≠ [] := by
      intro hnil
      obtain ⟨rfl, rfl⟩ := List.append_eq_nil_iff.mp hnil
      exact hnone ⟨rfl, rfl⟩
    obtain ⟨made, hok, hgrouped⟩ := @groupConnections_grouped _ _ _ _ newGroup [] _ _ hdata hdata'
      (begun_newGroup (lowestInputIndex (withData ++ withoutData)) _)
      (show lowestInputIndex (withData ++ withoutData) - 1 + 1 = _ + ((0 : ℕ) : ℤ) by omega)
      (Or.inl (Nat.lt_succ_self _))
    exact ⟨made, withData ++ withoutData, hok, hperm, hgrouped.grouping hne, hgrouped.marked⟩

/-- Each group has one connection for every input of which earlier groups have left any, and one
with data if they have left one with data. -/
def AsFullAsPossible (groups : List SourceConnectionGroup) : Prop :=
  ∀ before group after, groups = before ++ group :: after →
    ∀ c ∈ (sourceConnections runData pinnedData graph node).diff
        (before.flatMap (·.connections)),
      ∃ d, group.connections.filter (fun d => d.inputIndex = c.inputIndex) = [d] ∧
        (hasData runData pinnedData c = true → hasData runData pinnedData d = true)

theorem append_diff {α : Type} [DecidableEq α] (l l' : List α) : (l ++ l').diff l = l' := by
  induction l with
  | nil => exact List.diff_nil l'
  | cons a l ih => rw [List.cons_append, List.diff_cons, List.erase_cons_head, ih]

variable {graph node runData pinnedData} in
theorem asFullAsPossible_iff {groups : List SourceConnectionGroup} {left : List GraphConnection}
    (hleft : left.Perm (sourceConnections runData pinnedData graph node))
    (hgrouping : Grouping GraphConnection.inputIndex
      (fun c => hasData runData pinnedData c = true) left (groups.map (·.connections))) :
    AsFullAsPossible graph node runData pinnedData groups ↔
      Full GraphConnection.inputIndex (fun c => hasData runData pinnedData c = true)
        (groups.map (·.connections)) := by
  -- what is left by the groups before
  have hmem : ∀ before group after, groups = before ++ group :: after → ∀ c,
      c ∈ (sourceConnections runData pinnedData graph node).diff
        (before.flatMap (·.connections)) ↔
      c ∈ group.connections ++ (after.map (·.connections)).flatten := by
    rintro before group after rfl c
    have hall := hgrouping.perm.trans hleft
    rw [List.map_append, List.flatten_append, List.map_cons, List.flatten_cons] at hall
    rw [← (hall.diff_right _).mem_iff, List.flatMap_def, append_diff]
  constructor
  · intro h before' group' after' heq c hc
    obtain ⟨before, more, rfl, rfl, hmore⟩ := List.map_eq_append_iff.mp heq
    obtain ⟨group, after, rfl, rfl, rfl⟩ := List.map_eq_cons_iff.mp hmore
    obtain ⟨d, hfilter, hdata⟩ := h before group after rfl c
      ((hmem before group after rfl c).mpr hc)
    have hd : d ∈ group.connections.filter (fun d => d.inputIndex = c.inputIndex) := by
      rw [hfilter]
      exact List.mem_singleton_self d
    rw [List.mem_filter, decide_eq_true_eq] at hd
    exact ⟨d, hd.1, hd.2, hdata⟩
  · rintro h before group after rfl c hc
    obtain ⟨d, hd, hindex, hdata⟩ := h (before.map (·.connections)) group.connections
      (after.map (·.connections)) (by rw [List.map_append, List.map_cons]) c
      ((hmem before group after rfl c).mp hc)
    obtain ⟨-, first, hfrom⟩ := hgrouping.consecutive group.connections (by simp)
    exact ⟨d, hindex ▸ hfrom.filter_eq hd, hdata⟩

end Groups

/-! ### An input without connections -/

section Gap

def firstSource : INode := { name := "first", type := "n8n-nodes-base.set" }
def thirdSource : INode := { name := "third", type := "n8n-nodes-base.set" }
def mergeNode : INode := { name := "merge", type := "n8n-nodes-base.merge" }

/-- Two sources, at the first and the third input of a node. -/
def firstAndThird : DirectedGraph where
  nodes := .setAll (·.name) .empty [firstSource, thirdSource, mergeNode]
  connections :=
    (OrderedMap.empty.set "first-main-0-0-merge" ⟨firstSource, mergeNode, .main, 0, 0⟩).set
      "third-main-0-2-merge" ⟨thirdSource, mergeNode, .main, 0, 2⟩

def bothRan : IRunData Unit := (OrderedMap.empty.set "first" [⟨none⟩]).set "third" [⟨none⟩]

end Gap
end N8n.IntegerInputs
