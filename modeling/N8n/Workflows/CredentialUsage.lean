import N8n.Foundations.OrderedMap
import N8n.Foundations.FoldM
import Mathlib.Data.Int.Notation

/-!
# The check of the credentials of a saved workflow

A user who saves a workflow sends the nodes; those that use a credential the user has
no access to are put back to the version that is stored. A reference to a credential
is a text in the old format. Of a node `parameters` stands for the fields that are
copied and never looked at. The function of the source is given the nodes of the two
versions; a version without nodes goes the way of an empty list.
-/

namespace N8n

/-- The `id` of a reference as it is sent. -/
inductive CredentialId where
  | missing
  | null
  | given (id : String)
  deriving DecidableEq, Repr

structure INodeCredentialsDetails where
  id : CredentialId
  name : String
  deriving DecidableEq, Repr

inductive NodeCredential where
  | old (name : String)
  | details (details : INodeCredentialsDetails)
  deriving DecidableEq, Repr

structure WorkflowNode (π : Type*) where
  id : Option String
  name : String
  type : String
  parameters : π
  position : ℤ × ℤ
  disabled : Bool
  credentials : Option (OrderedMap String NodeCredential)

structure NodeOperationError where
  message : String
  deriving DecidableEq, Repr

def CredentialId.given? : CredentialId → Option String
  | .given id => some id
  | _ => none

/-- The empty text is no id. -/
def INodeCredentialsDetails.usedId (d : INodeCredentialsDetails) : Option String :=
  d.id.given?.filter (· ≠ "")

def NodeCredential.usedId : NodeCredential → Option String
  | .old _ => none
  | .details d => d.usedId

variable {π : Type*}

namespace WorkflowNode

def credential? (node : WorkflowNode π) (type : String) : Option NodeCredential :=
  node.credentials.bind (·.get? type)

def RefersTo (node : WorkflowNode π) (type id : String) : Prop :=
  ∃ credential, node.credential? type = some credential ∧ credential.usedId = some id

def isInaccessible (userCredIds : List String) (node : WorkflowNode π) : Bool :=
  node.credentials.any fun credentials =>
    credentials.values.any fun nodeCred => nodeCred.usedId.any (· ∉ userCredIds)

/-- `Object.assign` of all that the previous version has but the three fields that may change. -/
def assign (previous node : WorkflowNode π) : WorkflowNode π :=
  { node with
    id := previous.id
    type := previous.type
    parameters := previous.parameters
    credentials := previous.credentials.or node.credentials }

end WorkflowNode

open WorkflowNode

def getNodesWithInaccessibleCreds (nodes : List (WorkflowNode π)) (userCredIds : List String) :
    List (WorkflowNode π) :=
  nodes.filter (isInaccessible userCredIds)

/-- One round of the loop over the nodes with credentials that the user may not use. -/
def replaceNode (previousNodes nodes : List (WorkflowNode π)) (node : WorkflowNode π) :
    Except NodeOperationError (List (WorkflowNode π)) :=
  if node.id ∉ previousNodes.map (·.id) then
    .error ⟨"You don't have access to the credentials in the '" ++ node.name ++
      "' node. Ask the owner to share them with you."⟩
  else
    match previousNodes.find? (·.id = node.id) with
    | none => .ok nodes
    | some previous => .ok (nodes.modify (nodes.findIdx (·.id = node.id)) previous.assign)

def validateWorkflowCredentialUsage (newNodes previousNodes : List (WorkflowNode π))
    (allowedCredentialIds : List String) : Except NodeOperationError (List (WorkflowNode π)) :=
  (getNodesWithInaccessibleCreds newNodes allowedCredentialIds).foldlM
    (replaceNode previousNodes) newNodes

/-! ### The nodes after the check -/

section Checked
variable {newNodes previousNodes checked : List (WorkflowNode π)} {userCredIds : List String}
  {node previous : WorkflowNode π} {ids : List (Option String)} {i : ℕ}

/-- The first node with its id is put back when the id is among the given ones. -/
def putBack (newNodes previousNodes : List (WorkflowNode π)) (ids : List (Option String)) (i : ℕ)
    (node : WorkflowNode π) : WorkflowNode π :=
  if node.id ∈ ids ∧ newNodes.findIdx (·.id = node.id) = i then
    (previousNodes.find? (·.id = node.id)).elim node (·.assign node)
  else node

theorem find?_id (h : previousNodes.find? (·.id = node.id) = some previous) :
    previous.id = node.id := by
  have hfound := List.find?_some h
  exact of_decide_eq_true hfound

theorem putBack_id : (putBack newNodes previousNodes ids i node).id = node.id := by
  rw [putBack]
  split_ifs
  · cases hprevious : previousNodes.find? (·.id = node.id) with
    | none => rfl
    | some previous =>
      have hid := find?_id hprevious
      exact hid
  · rfl

theorem findIdx_mapIdx_putBack (id : Option String) :
    (newNodes.mapIdx (putBack newNodes previousNodes ids)).findIdx (·.id = id) =
      newNodes.findIdx (·.id = id) := by
  have hids : (newNodes.mapIdx (putBack newNodes previousNodes ids)).map (·.id) =
      newNodes.map (·.id) := by
    refine List.ext_getElem? fun i => ?_
    rw [List.getElem?_map, List.getElem?_map, List.getElem?_mapIdx, Option.map_map]
    exact Option.map_congr fun node _ => putBack_id
  have hfindIdx : ∀ nodes : List (WorkflowNode π),
      nodes.findIdx (·.id = id) = (nodes.map (·.id)).findIdx (· = id) := by
    intro nodes
    rw [List.findIdx_map]
    rfl
  rw [hfindIdx, hids, ← hfindIdx]

theorem id_of_findIdx {id : Option String} (hi : newNodes[i]? = some node)
    (hfirst : newNodes.findIdx (·.id = id) = i) : node.id = id := by
  obtain ⟨hlt, hget⟩ := List.getElem?_eq_some_iff.mp hi
  subst hfirst
  have hfound := List.findIdx_getElem (w := hlt)
  rw [hget] at hfound
  exact of_decide_eq_true hfound

/-- One more id is looked at. -/
theorem putBack_append {id : Option String} (hi : newNodes[i]? = some node)
    (hprevious : previousNodes.find? (·.id = id) = some previous) :
    (if newNodes.findIdx (·.id = id) = i then
      previous.assign (putBack newNodes previousNodes ids i node)
      else putBack newNodes previousNodes ids i node) =
      putBack newNodes previousNodes (ids ++ [id]) i node := by
  by_cases hfirst : newNodes.findIdx (·.id = id) = i
  · obtain rfl := id_of_findIdx hi hfirst
    have hlast : node.id ∈ ids ++ [node.id] ∧ newNodes.findIdx (·.id = node.id) = i :=
      ⟨List.mem_append_right _ (List.mem_singleton_self _), hfirst⟩
    rw [if_pos hfirst, putBack, putBack, hprevious, if_pos hlast]
    split_ifs
    · cases hcredentials : previous.credentials <;> simp [WorkflowNode.assign, hcredentials]
    · rfl
  · rw [if_neg hfirst, putBack, putBack]
    have hiff : node.id ∈ ids ++ [id] ∧ newNodes.findIdx (·.id = node.id) = i ↔
        node.id ∈ ids ∧ newNodes.findIdx (·.id = node.id) = i := by
      rw [List.mem_append, List.mem_singleton]
      refine and_congr_left fun hnode => or_iff_left ?_
      rintro rfl
      exact hfirst hnode
    simp only [hiff]

theorem replaceNode_ok (hok : replaceNode previousNodes
    (newNodes.mapIdx (putBack newNodes previousNodes ids)) node = .ok checked) :
    node.id ∈ previousNodes.map (·.id) ∧
      checked = newNodes.mapIdx (putBack newNodes previousNodes (ids ++ [node.id])) := by
  rw [replaceNode] at hok
  split_ifs at hok with hid
  refine ⟨hid, ?_⟩
  obtain ⟨previous, hprevious⟩ : ∃ previous, previousNodes.find? (·.id = node.id) = some previous := by
    obtain ⟨previous, hmem, heq⟩ := List.mem_map.mp hid
    exact Option.isSome_iff_exists.mp
      (List.find?_isSome.mpr ⟨previous, hmem, decide_eq_true heq⟩)
  simp only [hprevious, findIdx_mapIdx_putBack] at hok
  rw [← Except.ok.inj hok]
  refine List.ext_getElem? fun i => ?_
  rw [List.getElem?_modify, List.getElem?_mapIdx, List.getElem?_mapIdx, Option.map_eq_map,
    Option.map_map]
  exact Option.map_congr fun n hn => putBack_append hn hprevious

theorem validateWorkflowCredentialUsage_ok
    (hok : validateWorkflowCredentialUsage newNodes previousNodes userCredIds = .ok checked) :
    (∀ node ∈ getNodesWithInaccessibleCreds newNodes userCredIds,
      node.id ∈ previousNodes.map (·.id)) ∧
    checked = newNodes.mapIdx (putBack newNodes previousNodes
      ((getNodesWithInaccessibleCreds newNodes userCredIds).map (·.id))) := by
  have hloop : ∀ (nodes : List (WorkflowNode π)) (ids : List (Option String)),
      nodes.foldlM (replaceNode previousNodes)
        (newNodes.mapIdx (putBack newNodes previousNodes ids)) = .ok checked →
      (∀ node ∈ nodes, node.id ∈ previousNodes.map (·.id)) ∧
        checked = newNodes.mapIdx (putBack newNodes previousNodes (ids ++ nodes.map (·.id))) := by
    intro nodes
    induction nodes with
    | nil =>
      intro ids hok
      rw [List.map_nil, List.append_nil]
      exact ⟨nofun, (Except.ok.inj hok).symm⟩
    | cons node nodes ih =>
      intro ids hok
      rw [List.foldlM_cons] at hok
      obtain ⟨next, hnext, hok⟩ := FoldM.bind_eq_ok.mp hok
      obtain ⟨hid, rfl⟩ := replaceNode_ok hnext
      obtain ⟨hids, hchecked⟩ := ih _ hok
      rw [List.append_assoc] at hchecked
      exact ⟨List.forall_mem_cons.mpr ⟨hid, hids⟩, hchecked⟩
  have hnone : newNodes.mapIdx (putBack newNodes previousNodes []) = newNodes := by
    refine List.ext_getElem? fun i => ?_
    rw [List.getElem?_mapIdx]
    cases newNodes[i]? <;> simp [putBack]
  refine hloop _ [] ?_
  rw [hnone]
  exact hok

end Checked

end N8n
