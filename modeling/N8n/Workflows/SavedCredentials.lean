import N8n.Workflows.ReplaceCredentials
import Mathlib.Data.List.Range

/-!
# The credentials of the nodes that are saved

A node that the check has put back refers to what the stored node refers to. Any other
node must not refer, after its references are looked up, to a credential that the user
has no access to, unless the stored workflow uses it in the same way.
-/

namespace N8n

variable {π : Type*} {table : CredentialsTable}

/-! ### The loops -/

theorem replaceEntries_spec (id : String × NodeCredential → Option String)
    {entries : List (String × NodeCredential)} (hnodup : (entries.map Prod.fst).Nodup)
    (credentials : OrderedMap String NodeCredential) {caches : CredentialsCaches}
    (I : List (String × NodeCredential) → CredentialsCaches → Prop) (hI : I [] caches)
    (hstep : ∀ done e later caches, entries = done ++ e :: later → I done caches →
      (replaceCredential table e.1 e.2 caches).1.usedId = id e ∧
        I (done ++ [e]) (replaceCredential table e.1 e.2 caches).2) :
    I entries (replaceEntries table entries credentials caches).2 ∧
      ∀ type, ((replaceEntries table entries credentials caches).1.get? type).map
          NodeCredential.usedId =
        ((OrderedMap.lookupEntry type entries).map fun credential => id (type, credential)).or
          ((credentials.get? type).map NodeCredential.usedId) := by
  induction entries generalizing credentials caches I with
  | nil => exact ⟨hI, fun _ => rfl⟩
  | cons e entries ih =>
    obtain ⟨hused, hnext⟩ := hstep [] e entries caches rfl hI
    obtain ⟨hnew, hnodup⟩ := List.nodup_cons.mp hnodup
    have hrest := ih hnodup (credentials.set e.1 (replaceCredential table e.1 e.2 caches).1)
      (fun done => I (e :: done)) hnext
      fun done e' later caches hsplit => hstep (e :: done) e' later caches (by rw [hsplit]; rfl)
    refine ⟨hrest.1, fun type => ?_⟩
    rw [replaceEntries, List.foldl_cons]
    refine (hrest.2 type).trans ?_
    rw [OrderedMap.lookupEntry, OrderedMap.get?_set]
    split_ifs with htype
    · subst htype
      rw [OrderedMap.lookupEntry_eq_none.mpr hnew, Option.map_some, Option.map_some, hused]
      rfl
    · rfl

theorem replaceInNodes_spec (table : CredentialsTable) (nodes : List (WorkflowNode π))
    {caches : CredentialsCaches} (I : ℕ → CredentialsCaches → Prop) (hI : I 0 caches)
    (hstep : ∀ i node caches, nodes[i]? = some node → I i caches →
      I (i + 1) (replaceInNode table node caches).2) (i : ℕ) :
    ∃ caches', (nodes[i]?.isSome → I i caches') ∧ (replaceInNodes table nodes caches)[i]? =
      nodes[i]?.map fun node => (replaceInNode table node caches').1 := by
  induction nodes generalizing caches I i with
  | nil => exact ⟨caches, nofun, rfl⟩
  | cons node nodes ih =>
    cases i with
    | zero => exact ⟨caches, fun _ => hI, rfl⟩
    | succ i =>
      exact ih (fun i => I (i + 1)) (hstep 0 node caches rfl hI)
        (fun i node caches hi => hstep (i + 1) node caches hi) i

/-! ### One node -/

section Node
variable {node : WorkflowNode π} {entries : List (String × NodeCredential)}
  {caches : CredentialsCaches} {type x : String}

/-- The references that are looked up. -/
def WorkflowNode.activeEntries (node : WorkflowNode π) : List (String × NodeCredential) :=
  if node.disabled then [] else node.credentials.elim [] (·.entries)

theorem replaceInNode_spec (id : String × NodeCredential → Option String)
    (I : List (String × NodeCredential) → CredentialsCaches → Prop) (hI : I [] caches)
    (hstep : ∀ done e later caches, node.activeEntries = done ++ e :: later → I done caches →
      (replaceCredential table e.1 e.2 caches).1.usedId = id e ∧
        I (done ++ [e]) (replaceCredential table e.1 e.2 caches).2) :
    I node.activeEntries (replaceInNode table node caches).2 ∧ ∀ type x,
      (replaceInNode table node caches).1.RefersTo type x ↔
        ∃ credential, node.credential? type = some credential ∧
          (if node.disabled then credential.usedId else id (type, credential)) = some x := by
  rw [WorkflowNode.activeEntries] at hstep ⊢
  cases hcredentials : node.credentials with
  | none =>
    simp only [replaceInNode, hcredentials, WorkflowNode.RefersTo, WorkflowNode.credential?,
      Option.bind_none, Option.elim_none, ite_self, reduceCtorEq, false_and, exists_false,
      implies_true, and_true]
    exact hI
  | some credentials =>
    cases hdisabled : node.disabled with
    | true =>
      simp only [replaceInNode, hcredentials, hdisabled, if_true]
      exact ⟨hI, fun type x => Iff.rfl⟩
    | false =>
      rw [hcredentials, hdisabled] at hstep
      obtain ⟨hcaches, hused⟩ := replaceEntries_spec id credentials.nodup credentials I hI hstep
      simp only [replaceInNode, hcredentials, hdisabled, Bool.false_eq_true, if_false]
      refine ⟨hcaches, fun type x => ?_⟩
      have hget := hused type
      rw [← OrderedMap.get?] at hget
      rw [WorkflowNode.RefersTo, WorkflowNode.credential?, WorkflowNode.credential?, hcredentials,
        Option.bind_some, Option.bind_some]
      cases hold : credentials.get? type with
      | none =>
        rw [hold] at hget
        have hnone := Option.map_eq_none_iff.mp hget
        rw [hnone]
        simp
      | some credential =>
        rw [hold] at hget
        obtain ⟨saved, hsaved, hid⟩ := Option.map_eq_some_iff.mp hget
        simp only [hsaved, Option.some.injEq, exists_eq_left', hid]

theorem replaceInNode_fields (table : CredentialsTable) (node : WorkflowNode π)
    (caches : CredentialsCaches) :
    (replaceInNode table node caches).1.id = node.id ∧
      (replaceInNode table node caches).1.type = node.type ∧
      (replaceInNode table node caches).1.parameters = node.parameters := by
  rw [replaceInNode]
  split
  · exact ⟨rfl, rfl, rfl⟩
  · split_ifs <;> exact ⟨rfl, rfl, rfl⟩

theorem settled?_of_notMem {key : String} (h : type ∉ entries.map Prod.fst) :
    settled? table entries type key = none := by
  rw [settled?, List.findSome?_eq_none_iff]
  intro e he
  rw [Option.bind_eq_none_iff]
  intro details _
  exact if_neg fun hall => h (List.mem_map.mpr ⟨e, he, hall.1⟩)

/-- The references of one node have different types and do not meddle with each other. -/
theorem standsFor_append {done : List (String × NodeCredential)} (h : type ∉ done.map Prod.fst)
    (credential : NodeCredential) :
    standsFor table (entries ++ done) type credential = standsFor table entries type credential := by
  have hsettled : ∀ key, settled? table (entries ++ done) type key =
      settled? table entries type key := by
    intro key
    rw [settled?_append, settled?_of_notMem h, Option.or_none]
  match credential with
  | .old name => rfl
  | .details ⟨.null, name⟩ => rfl
  | .details ⟨.missing, name⟩ => exact congrArg (Option.getD · _) (hsettled _)
  | .details ⟨.given id, name⟩ => exact congrArg (Option.getD · _) (hsettled _)

theorem activeEntries_nodup (node : WorkflowNode π) :
    (node.activeEntries.map Prod.fst).Nodup := by
  rw [WorkflowNode.activeEntries]
  split_ifs
  · exact List.nodup_nil
  · cases node.credentials with
    | none => exact List.nodup_nil
    | some credentials => exact credentials.nodup

theorem credential?_of_mem {e : String × NodeCredential} (h : e ∈ node.activeEntries) :
    node.credential? e.1 = some e.2 := by
  rw [WorkflowNode.activeEntries] at h
  split_ifs at h
  · cases h
  · cases hcredentials : node.credentials with
    | none =>
      rw [hcredentials] at h
      cases h
    | some credentials =>
      rw [hcredentials] at h
      rw [WorkflowNode.credential?, hcredentials]
      exact OrderedMap.get?_eq_some.mpr h

/-- The id that a reference of the node is saved with. -/
def WorkflowNode.savedId (table : CredentialsTable) (entries : List (String × NodeCredential))
    (node : WorkflowNode π) (type : String) (credential : NodeCredential) : Option String :=
  if node.disabled then credential.usedId else standsFor table entries type credential

theorem Cached.replaceInNode (h : Cached table entries caches)
    (htable : ∀ row ∈ table, row.id ≠ "undefined") (node : WorkflowNode π) :
    Cached table (entries ++ node.activeEntries) (replaceInNode table node caches).2 ∧
      ∀ type x, (replaceInNode table node caches).1.RefersTo type x ↔
        ∃ credential, node.credential? type = some credential ∧
          node.savedId table entries type credential = some x := by
  refine replaceInNode_spec (fun e => standsFor table entries e.1 e.2)
    (fun done caches => Cached table (entries ++ done) caches) (by rwa [List.append_nil]) ?_
  intro done e later caches hsplit hcached
  obtain ⟨hused, hnext⟩ := hcached.replaceCredential htable e.1 e.2
  have hnew : e.1 ∉ done.map Prod.fst := by
    have hnodup := activeEntries_nodup node
    rw [hsplit, List.map_append, List.map_cons] at hnodup
    exact fun hmem => (List.nodup_append.mp hnodup).2.2 _ hmem _ List.mem_cons_self rfl
  rw [standsFor_append hnew] at hused
  rw [List.append_assoc] at hnext
  exact ⟨hused, hnext⟩

end Node

/-! ### Stored versions -/

structure StoredVersion (table : CredentialsTable) (nodes : List (WorkflowNode π)) : Prop where
  distinct : (nodes.map (·.id)).Nodup
  exist : ∀ node ∈ nodes, ∀ type credential, node.credential? type = some credential →
    ∃ row ∈ table, row.type = type ∧ ∃ name, credential = .details ⟨.given row.id, name⟩

theorem StoredVersion.replaceInNode {nodes : List (WorkflowNode π)}
    {entries : List (String × NodeCredential)} {caches : CredentialsCaches}
    (hnodes : StoredVersion table nodes) (htable : ∀ row ∈ table, row.id ≠ "undefined")
    {stored node : WorkflowNode π} (hstored : stored ∈ nodes)
    (hcredentials : node.credentials = stored.credentials) (h : Cached table entries caches) :
    Cached table entries (replaceInNode table node caches).2 ∧
      ∀ type x, (replaceInNode table node caches).1.RefersTo type x ↔ stored.RefersTo type x := by
  have hstep : ∀ done e later caches, node.activeEntries = done ++ e :: later →
      Cached table entries caches →
      (replaceCredential table e.1 e.2 caches).1.usedId = e.2.usedId ∧
        Cached table entries (replaceCredential table e.1 e.2 caches).2 := by
    intro done e later caches hsplit hcached
    have hmem : e ∈ node.activeEntries := hsplit ▸ List.mem_append_right _ List.mem_cons_self
    have hcredential := credential?_of_mem hmem
    rw [WorkflowNode.credential?, hcredentials] at hcredential
    obtain ⟨row, hrow, htype, name, he⟩ := hnodes.exist stored hstored e.1 e.2 hcredential
    rw [he]
    exact hcached.replaceCredential_of_row htable hrow htype
  obtain ⟨hcached, hrefers⟩ := replaceInNode_spec (fun e => e.2.usedId)
    (fun _ caches => Cached table entries caches) h hstep
  refine ⟨hcached, fun type x => (hrefers type x).trans ?_⟩
  rw [WorkflowNode.RefersTo, WorkflowNode.credential?, WorkflowNode.credential?, hcredentials]
  simp only [ite_self]

/-! ### All nodes -/

section Saved
variable {newNodes previousNodes checked : List (WorkflowNode π)} {userCredIds : List String}
  {node : WorkflowNode π} {i : ℕ}

/-- The check replaces the node by the stored one and its references. -/
def IsPutBack (newNodes previousNodes : List (WorkflowNode π)) (userCredIds : List String) (i : ℕ)
    (node : WorkflowNode π) : Prop :=
  newNodes.findIdx (·.id = node.id) = i ∧
    (∃ other ∈ getNodesWithInaccessibleCreds newNodes userCredIds, other.id = node.id) ∧
    ∃ stored ∈ previousNodes, stored.id = node.id ∧ stored.credentials.isSome

instance : Decidable (IsPutBack newNodes previousNodes userCredIds i node) :=
  inferInstanceAs (Decidable (_ ∧ _ ∧ _))

/-- The references that the user has sent with the first `i` nodes and that are looked up. -/
def sentEntries (newNodes previousNodes : List (WorkflowNode π)) (userCredIds : List String)
    (i : ℕ) : List (String × NodeCredential) :=
  (List.range i).flatMap fun j => newNodes[j]?.elim [] fun node =>
    if IsPutBack newNodes previousNodes userCredIds j node then [] else node.activeEntries

/-- A node of the stored version refers to the credential in the same way. -/
def SameUse (previousNodes : List (WorkflowNode π)) (node : WorkflowNode π) (type id : String) :
    Prop :=
  ∃ stored ∈ previousNodes, stored.id = node.id ∧ stored.RefersTo type id ∧
    stored.type = node.type ∧ stored.parameters = node.parameters

/-- Nodes that refer to other credentials than those of the user do so as before. -/
def NothingOpened (previousNodes : List (WorkflowNode π)) (userCredIds : List String)
    (nodes : List (WorkflowNode π)) : Prop :=
  ∀ node ∈ nodes, ∀ type id, node.RefersTo type id → id ∉ userCredIds →
    SameUse previousNodes node type id

/-- Every reference that is not put back is saved with an id that its node may have. -/
def SentProperly (table : CredentialsTable) (newNodes previousNodes : List (WorkflowNode π))
    (userCredIds : List String) : Prop :=
  ∀ i node, newNodes[i]? = some node → ¬ IsPutBack newNodes previousNodes userCredIds i node →
    ∀ type credential id, node.credential? type = some credential →
      node.savedId table (sentEntries newNodes previousNodes userCredIds i) type credential =
        some id → id ∉ userCredIds → SameUse previousNodes node type id

theorem sentEntries_succ (hi : newNodes[i]? = some node) :
    sentEntries newNodes previousNodes userCredIds (i + 1) =
      sentEntries newNodes previousNodes userCredIds i ++
        if IsPutBack newNodes previousNodes userCredIds i node then [] else node.activeEntries := by
  rw [sentEntries, sentEntries, List.range_succ, List.flatMap_append, List.flatMap_singleton, hi]
  rfl

theorem sameUse_congr {node' : WorkflowNode π} {type id : String} (hid : node.id = node'.id)
    (htype : node.type = node'.type) (hparameters : node.parameters = node'.parameters) :
    SameUse previousNodes node type id ↔ SameUse previousNodes node' type id := by
  rw [SameUse, SameUse, hid, htype, hparameters]

theorem StoredVersion.find?_eq_some (h : StoredVersion table previousNodes)
    {stored : WorkflowNode π} {id : Option String} :
    previousNodes.find? (·.id = id) = some stored ↔ stored ∈ previousNodes ∧ stored.id = id := by
  constructor
  · intro hfound
    have hid := List.find?_some hfound
    exact ⟨List.mem_of_find?_eq_some hfound, of_decide_eq_true hid⟩
  · rintro ⟨hmem, hid⟩
    obtain ⟨found, hfound⟩ : ∃ found, previousNodes.find? (·.id = id) = some found :=
      Option.isSome_iff_exists.mp (List.find?_isSome.mpr ⟨stored, hmem, decide_eq_true hid⟩)
    have hfoundId := List.find?_some hfound
    rw [hfound, List.inj_on_of_nodup_map h.distinct (List.mem_of_find?_eq_some hfound) hmem
      ((of_decide_eq_true hfoundId).trans hid.symm)]

theorem StoredVersion.not_sameUse (h : StoredVersion table previousNodes)
    {stored : WorkflowNode π} (hmem : stored ∈ previousNodes) (hnone : stored.credentials = none)
    (hid : stored.id = node.id) {type id : String} : ¬ SameUse previousNodes node type id := by
  rintro ⟨other, hother, hotherId, ⟨credential, hcredential, _⟩, _⟩
  obtain rfl := List.inj_on_of_nodup_map h.distinct hother hmem (hotherId.trans hid.symm)
  rw [WorkflowNode.credential?, hnone] at hcredential
  cases hcredential

section Checked
variable {ids : List (Option String)}
  (hids : ids = (getNodesWithInaccessibleCreds newNodes userCredIds).map (·.id))
include hids

theorem StoredVersion.putBack_eq_assign (h : StoredVersion table previousNodes)
    (hback : IsPutBack newNodes previousNodes userCredIds i node) :
    ∃ stored ∈ previousNodes, stored.credentials.isSome ∧
      putBack newNodes previousNodes ids i node = stored.assign node := by
  obtain ⟨hfirst, hother, stored, hmem, hid, hcredentials⟩ := hback
  refine ⟨stored, hmem, hcredentials, ?_⟩
  rw [putBack, h.find?_eq_some.mpr ⟨hmem, hid⟩, if_pos ⟨hids ▸ List.mem_map.mpr hother, hfirst⟩]
  rfl

/-- A node that is not put back keeps its references. Where its other fields are those of a
stored node, that node has no credentials. -/
theorem StoredVersion.putBack_eq_self (h : StoredVersion table previousNodes)
    (hback : ¬ IsPutBack newNodes previousNodes userCredIds i node) :
    putBack newNodes previousNodes ids i node = node ∨
      ∃ stored ∈ previousNodes, stored.id = node.id ∧ stored.credentials = none ∧
        putBack newNodes previousNodes ids i node = stored.assign node := by
  rw [putBack]
  split_ifs with hfirst
  · cases hfound : previousNodes.find? (·.id = node.id) with
    | none => exact Or.inl rfl
    | some stored =>
      obtain ⟨hmem, hid⟩ := h.find?_eq_some.mp hfound
      refine Or.inr ⟨stored, hmem, hid, ?_, rfl⟩
      by_contra hcredentials
      exact hback ⟨hfirst.2, List.mem_map.mp (hids ▸ hfirst.1), stored, hmem, hid,
        Option.isSome_iff_ne_none.mpr hcredentials⟩
  · exact Or.inl rfl

/-- A node that is put back. -/
theorem StoredVersion.saved_putBack (h : StoredVersion table previousNodes)
    (htable : ∀ row ∈ table, row.id ≠ "undefined") (hi : newNodes[i]? = some node)
    (hback : IsPutBack newNodes previousNodes userCredIds i node) {caches : CredentialsCaches}
    (hcached : Cached table (sentEntries newNodes previousNodes userCredIds i) caches) :
    Cached table (sentEntries newNodes previousNodes userCredIds (i + 1))
        (N8n.replaceInNode table (putBack newNodes previousNodes ids i node) caches).2 ∧
      ∀ type id, (N8n.replaceInNode table (putBack newNodes previousNodes ids i node)
        caches).1.RefersTo type id → SameUse previousNodes
          (N8n.replaceInNode table (putBack newNodes previousNodes ids i node) caches).1 type id := by
  obtain ⟨stored, hmem, hsome, heq⟩ := h.putBack_eq_assign hids hback
  obtain ⟨hid, htype, hparameters⟩ :=
    replaceInNode_fields table (putBack newNodes previousNodes ids i node) caches
  have hcredentials : (putBack newNodes previousNodes ids i node).credentials =
      stored.credentials := by
    obtain ⟨credentials, hcredentials⟩ := Option.isSome_iff_exists.mp hsome
    rw [heq, WorkflowNode.assign, hcredentials]
    rfl
  obtain ⟨hnext, hrefers⟩ := h.replaceInNode htable hmem hcredentials hcached
  rw [sentEntries_succ hi, if_pos hback, List.append_nil]
  rw [heq] at hid htype hparameters hnext hrefers ⊢
  exact ⟨hnext, fun type id hrefersTo => ⟨stored, hmem, hid.symm, (hrefers type id).mp hrefersTo,
    htype.symm, hparameters.symm⟩⟩

/-- A node that is not put back. -/
theorem StoredVersion.saved_sent (h : StoredVersion table previousNodes)
    (htable : ∀ row ∈ table, row.id ≠ "undefined") (hi : newNodes[i]? = some node)
    (hback : ¬ IsPutBack newNodes previousNodes userCredIds i node) {caches : CredentialsCaches}
    (hcached : Cached table (sentEntries newNodes previousNodes userCredIds i) caches) :
    Cached table (sentEntries newNodes previousNodes userCredIds (i + 1))
        (N8n.replaceInNode table (putBack newNodes previousNodes ids i node) caches).2 ∧
      ∀ type id, ((N8n.replaceInNode table (putBack newNodes previousNodes ids i node)
          caches).1.RefersTo type id ↔ ∃ credential, node.credential? type = some credential ∧
            node.savedId table (sentEntries newNodes previousNodes userCredIds i) type
              credential = some id) ∧
        (SameUse previousNodes (N8n.replaceInNode table
          (putBack newNodes previousNodes ids i node) caches).1 type id ↔
            SameUse previousNodes node type id) := by
  obtain ⟨hid, htype, hparameters⟩ :=
    replaceInNode_fields table (putBack newNodes previousNodes ids i node) caches
  obtain ⟨hnext, hrefers⟩ :=
    hcached.replaceInNode htable (putBack newNodes previousNodes ids i node)
  rw [sentEntries_succ hi, if_neg hback]
  rcases h.putBack_eq_self hids hback with heq | ⟨stored, hmem, hstored, hnone, heq⟩
  · rw [heq] at hid htype hparameters hnext hrefers ⊢
    exact ⟨hnext, fun type id => ⟨hrefers type id, sameUse_congr hid htype hparameters⟩⟩
  · have hcredentials : (stored.assign node).credentials = node.credentials := by
      rw [WorkflowNode.assign, hnone]
      rfl
    have hactive : (stored.assign node).activeEntries = node.activeEntries := by
      rw [WorkflowNode.activeEntries, WorkflowNode.activeEntries, hcredentials]
      rfl
    rw [heq, hactive] at hnext
    rw [heq] at hid hrefers ⊢
    refine ⟨hnext, fun type id => ⟨(hrefers type id).trans ?_, ?_⟩⟩
    · rw [WorkflowNode.credential?, WorkflowNode.credential?, hcredentials]
      rfl
    · exact iff_of_false (h.not_sameUse hmem hnone hid.symm) (h.not_sameUse hmem hnone hstored)

end Checked

end Saved

section Example

def bossTable : CredentialsTable := [⟨"c1", "Boss", "httpBasicAuth"⟩]

def bossNode (parameters : String) : WorkflowNode String :=
  ⟨some "n1", "Request", "httpRequest", parameters, (0, 0), false,
    some (OrderedMap.empty.set "httpBasicAuth" (.details ⟨.given "c1", "Boss"⟩))⟩

theorem storedVersion_boss : StoredVersion bossTable [bossNode "GET"] where
  distinct := List.nodup_singleton _
  exist := by
    intro node hnode type credential hcredential
    obtain rfl := List.mem_singleton.mp hnode
    have hget : (OrderedMap.empty.set "httpBasicAuth"
        (NodeCredential.details ⟨.given "c1", "Boss"⟩)).get? type = some credential := hcredential
    rw [OrderedMap.get?_set] at hget
    split_ifs at hget with htype
    · subst htype
      exact ⟨⟨"c1", "Boss", "httpBasicAuth"⟩, List.mem_singleton_self _, rfl, "Boss",
        (Option.some.inj hget).symm⟩
    · cases hget

/-- A new node names the credential, with a `null` id. -/
def namingNode : WorkflowNode String :=
  { bossNode "DELETE" with
    id := some "n2"
    credentials := some (OrderedMap.empty.set "httpBasicAuth" (.details ⟨.null, "Boss"⟩)) }

end Example
end N8n
