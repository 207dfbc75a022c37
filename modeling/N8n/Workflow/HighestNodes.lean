import N8n.Foundations.SharedSearch
import N8n.Workflow.ParentOrder

/-!
# The highest nodes above a node

`getHighestNode` goes up the main connections of the nodes of the workflow with one list of
checked nodes. A parent above which nothing is found counts as a highest node, also when all its
own parents were checked before.
-/

namespace N8n.HighestNodes

open ConnectedNodes (connectedTo Feeds)
open Relation (ReflTransGen TransGen)
open SharedSearch (Reaches Unobstructed addNew search visit)

/-- `getHighestNode` without a connection index. -/
def getHighestNode (workflow : Workflow) (nodeName : String) : Except Failure (List String) :=
  Prod.fst <$> workflow.getHighestNodeFrom (workflow.connectionsByDestinationNode.size + 1)
    nodeName none []

/-- A main connection that leaves a node of the workflow. -/
def MainParent (workflow : Workflow) (parent child : String) : Prop :=
  workflow.nodes.has parent = true ∧
    Feeds workflow.connectionsBySourceNode (.one .main) parent child

/-- The parents in the order of the connections to the node. -/
def parents (workflow : Workflow) (nodeName : String) : List String :=
  (connectedTo workflow.connectionsByDestinationNode (.one .main) nodeName).filter workflow.nodes.has

def mainLists (workflow : Workflow) (nodeName : String) : Option (List (Option (List Connection))) :=
  (workflow.connectionsByDestinationNode.get? nodeName).bind (·.get? .main)

def hasInputs (workflow : Workflow) (nodeName : String) : Bool := (mainLists workflow nodeName).isSome

section Parents
variable {workflow : Workflow} {nodeName parent : String}

theorem mem_parents : parent ∈ parents workflow nodeName ↔ MainParent workflow parent nodeName := by
  rw [parents, List.mem_filter, Workflow.connectionsByDestinationNode,
    ConnectedNodes.mem_connectedTo_byDestination, MainParent]
  exact and_comm

theorem parents_eq : parents workflow nodeName =
    ((((mainLists workflow nodeName).getD []).flatMap (·.getD [])).map (·.node)).filter
      workflow.nodes.has := by
  rw [parents, connectedTo, mainLists]
  cases workflow.connectionsByDestinationNode.get? nodeName with
  | none => rfl
  | some byType => simp [ConnectedNodes.ConnectionTypes.types, List.map_flatMap]

theorem hasInputs_of_parents (h : parents workflow nodeName ≠ []) :
    hasInputs workflow nodeName = true := by
  rw [hasInputs, Option.isSome_iff_ne_none]
  intro hnone
  rw [parents_eq, hnone] at h
  exact h rfl

theorem mem_keys_of_hasInputs (h : hasInputs workflow nodeName = true) :
    nodeName ∈ workflow.connectionsByDestinationNode.keys.toFinset := by
  rw [List.mem_toFinset]
  by_contra hkey
  rw [hasInputs, mainLists, OrderedMap.get?_eq_none.mpr hkey] at h
  cases h

end Parents

section Search
variable {workflow : Workflow} (hdisabled : ∀ node ∈ workflow.nodes.values, node.disabled = none)
include hdisabled

theorem disabled_of_get? {nodeName : String} {node : INode}
    (hnode : workflow.nodes.get? nodeName = some node) : node.disabled = none :=
  hdisabled node (OrderedMap.mem_values.mpr ⟨nodeName, hnode⟩)

theorem addHighest_eq {returnNodes : List String} {connection : Connection} {node : INode}
    (hnode : workflow.nodes.get? connection.node = some node) (followed : List String × List String) :
    Workflow.addHighest returnNodes connection node followed =
      (addNew returnNodes (if followed.1 = [] then [connection.node] else followed.1),
        followed.2) := by
  simp [Workflow.addHighest, disabled_of_get? hdisabled hnode, addNew]

omit hdisabled in
theorem foldlM_eq_ok {α σ : Type} {f : σ → α → Except Failure σ} {g : σ → α → σ} {l : List α}
    (h : ∀ s, ∀ a ∈ l, f s a = .ok (g s a)) (s : σ) : l.foldlM f s = .ok (l.foldl g s) := by
  induction l generalizing s with
  | nil => rfl
  | cons a l ih =>
    rw [List.foldlM_cons, h s a List.mem_cons_self, FoldM.ok_bind, List.foldl_cons]
    exact ih (fun s b hb => h s b (List.mem_cons_of_mem a hb)) _

/-- Without disabled nodes the recursion is the search with a shared list. -/
theorem getHighestNodeFrom_eq {fuel : ℕ} {nodeName : String} {checkedNodes : List String}
    (hnode : workflow.nodes.has nodeName = true) :
    workflow.getHighestNodeFrom fuel nodeName none checkedNodes =
      .ok (search (parents workflow) (hasInputs workflow) fuel nodeName checkedNodes) := by
  induction fuel generalizing nodeName checkedNodes with
  | zero => rfl
  | succ fuel ih =>
    obtain ⟨node, hget⟩ := Option.isSome_iff_exists.mp hnode
    simp only [Workflow.getHighestNodeFrom, hget, disabled_of_get? hdisabled hget, search]
    have hlists : (workflow.connectionsByDestinationNode.get? nodeName).bind (·.get? .main) =
        mainLists workflow nodeName := rfl
    rw [hlists, hasInputs, parents_eq]
    cases mainLists workflow nodeName with
    | none => rfl
    | some inputs =>
      by_cases hin : nodeName ∈ checkedNodes
      · simp [hin]
      · have hall : (inputs.zipIdx.flatMap fun input =>
            if (none : Option ℕ).any (fun index => decide (index ≠ input.2)) then []
            else input.1.getD []) = inputs.flatMap (·.getD []) := by
          conv_rhs => rw [← List.zipIdx_map_fst 0 inputs, List.flatMap_map]
          rfl
        simp only [hin, if_false, Option.isSome_some, reduceCtorEq, or_false, Option.getD_some]
        rw [List.foldl_filter, List.foldl_map]
        refine (congrArg (fun l => List.foldlM _ _ l) hall).trans (foldlM_eq_ok ?_ _)
        intro found connection _
        rw [visit]
        by_cases hchecked : connection.node ∈ found.2
        · simp [hchecked]
        · cases hget' : workflow.nodes.get? connection.node with
          | none => simp [hchecked, OrderedMap.has, hget']
          | some parent =>
            have hhas : workflow.nodes.has connection.node = true := by
              rw [OrderedMap.has, hget']
              rfl
            simp only [hchecked, hhas, if_false, if_true, ih hhas]
            exact congrArg Except.ok (addHighest_eq hdisabled hget' _)

end Search

/-- Each ancestor without parents is found once, and no other node is found. -/
def FindsRoots (workflow : Workflow) (nodeName : String) : Prop :=
  ∃ names, getHighestNode workflow nodeName = .ok names ∧ names.Nodup ∧
    ∀ name, name ∈ names ↔ TransGen (MainParent workflow) name nodeName ∧
      ∀ parent, ¬ MainParent workflow parent name

section Roots
variable {workflow : Workflow} {nodeName name : String}

theorem reaches_parents :
    Reaches (parents workflow) nodeName name ↔ ReflTransGen (MainParent workflow) name nodeName := by
  simp only [Reaches, mem_parents]
  exact Relation.reflTransGen_swap

theorem parents_eq_nil : parents workflow name = [] ↔ ∀ parent, ¬ MainParent workflow parent name := by
  simp only [List.eq_nil_iff_forall_not_mem, mem_parents]

end Roots

section Meeting

/-- Nodes that are named, with the main connections from each of them. -/
def mainWorkflow (tables : List (String × List String)) : Workflow where
  nodes := tables.foldl (fun nodes table => nodes.set table.1 { name := table.1, type := "" }) .empty
  connectionsBySourceNode := tables.foldl (fun connections table =>
    if table.2 = [] then connections
    else connections.set table.1 (ConnectedNodes.mainTo table.2)) .empty
  executionOrderV1 := true
  nodeType _ := none
  evaluate _ _ := none

/-- `A` leads to `B`, from there two branches lead to `M`. -/
def meeting : Workflow :=
  mainWorkflow [("A", ["B"]), ("B", ["C", "D"]), ("C", ["M"]), ("D", ["M"]), ("M", [])]

def line : Workflow := mainWorkflow [("A", ["B"]), ("B", ["M"]), ("M", [])]

theorem acyclic_of_rank {workflow : Workflow} (rank : String → ℕ)
    (h : ∀ e ∈ ends workflow.connectionsBySourceNode, rank e.1.node < rank e.2.node)
    (name : String) : ¬ TransGen (MainParent workflow) name name := by
  have hlt : ∀ a b, TransGen (MainParent workflow) a b → rank a < rank b := by
    intro a b hpath
    induction hpath with
    | single hstep =>
      obtain ⟨-, e, he, rfl, rfl, -⟩ := hstep
      exact h e he
    | tail _ hstep ih =>
      obtain ⟨-, e, he, rfl, rfl, -⟩ := hstep
      exact lt_trans ih (h e he)
  exact fun hpath => lt_irrefl _ (hlt name name hpath)

theorem line_parents (name : String) : (parents line name).length ≤ 1 := by
  by_cases hkey : name ∈ line.connectionsByDestinationNode.keys
  · have hkeys : line.connectionsByDestinationNode.keys = ["B", "M"] := by decide
    rw [hkeys, List.mem_cons, List.mem_singleton] at hkey
    rcases hkey with rfl | rfl <;> decide
  · rw [parents_eq, mainLists, OrderedMap.get?_eq_none.mpr hkey]
    exact Nat.zero_le 1

/-- On a line no other connection comes before those of a path. -/
theorem line_unobstructed (name : String) :
    Unobstructed (parents line) (hasInputs line) name := by
  intro x earlier hroute hx hp
  have hnil : earlier = [] := by
    clear hx hp
    induction hroute with
    | refl => rfl
    | @step a b c before after earlier hnext _ ih =>
      have hlen := line_parents a
      rw [hnext, List.length_append, List.length_cons] at hlen
      rw [ih, List.length_eq_zero_iff.mp (show before.length = 0 by omega)]
      rfl
  obtain ⟨p, hmem⟩ := List.exists_mem_of_ne_nil _ hx
  obtain ⟨-, s, hs, -⟩ := hp p hmem
  rw [hnil] at hs
  cases hs

end Meeting

end N8n.HighestNodes
