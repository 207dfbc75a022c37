import N8n.Workflows.SavedCredentials

/-!
# References to credentials that are looked up on their own

The caches of `replaceInvalidCredentials` hold what earlier references were replaced by. They leave
each reference as it would be in a workflow of its own, but for two kinds: a reference in the old
format whose name is not unique, and one with an id of no credential and another name than the
reference that went into the cache.
-/

namespace N8n

variable {π : Type*}

/-! ### What a reference becomes -/

section Becomes
variable (table : CredentialsTable)

/-- The name of a reference in the old format or with a `null` id. -/
def NodeCredential.byName? : NodeCredential → Option String
  | .old name => some name
  | .details ⟨.null, name⟩ => some name
  | .details _ => none

theorem credential_of_byName {credential : NodeCredential} {name : String}
    (h : credential.byName? = some name) :
    credential = .old name ∨ credential = .details ⟨.null, name⟩ := by
  rw [NodeCredential.byName?.eq_def] at h
  split at h
  · exact .inl (Option.some.inj h ▸ rfl)
  · exact .inr (Option.some.inj h ▸ rfl)
  · contradiction

def nameDetails (type name : String) : INodeCredentialsDetails :=
  match table.findBy name type with
  | [row] => row.details
  | _ => ⟨.null, name⟩

/-- What the reference becomes when it is the first one. -/
def becomes (type : String) : NodeCredential → NodeCredential
  | .old name =>
    match table.findBy name type with
    | [row] => .details row.details
    | _ => .old name
  | .details ⟨.null, name⟩ => .details (nameDetails table type name)
  | .details details => .details (lookedUp table type details)

/-- A reference with the id, and a name that is not unique. -/
def keptAt (type id : String) (e : String × NodeCredential) : Option INodeCredentialsDetails :=
  match e with
  | (type', .details ⟨.given id', name⟩) =>
    if type' = type ∧ id' = id ∧ (table.findBy name type).length ≠ 1 then some ⟨.given id, name⟩
    else none
  | _ => none

/-- The first reference that went into the cache under the id, if there is no such credential. -/
def keptMissing (entries : List (String × NodeCredential)) (type id : String) :
    Option INodeCredentialsDetails :=
  if (table.findOneBy (some id) type).isSome then none else entries.findSome? (keptAt table type id)

def hasName (entries : List (String × NodeCredential)) (type name : String) : Bool :=
  entries.any fun e => e.1 = type ∧ e.2.byName? = some name

/-- What the reference becomes after those in `entries`. -/
def becomesAfter (entries : List (String × NodeCredential)) (type : String) :
    NodeCredential → NodeCredential
  | .old name =>
    if hasName entries type name then .details (nameDetails table type name)
    else becomes table type (.old name)
  | .details ⟨.given id, name⟩ =>
    .details ((keptMissing table entries type id).getD (lookedUp table type ⟨.given id, name⟩))
  | credential => becomes table type credential

/-- The second reference is not replaced by what the first one left in the caches. -/
structure Independent (earlier later : String × NodeCredential) : Prop where
  text : ∀ name, later.2 = .old name → earlier.1 = later.1 → earlier.2.byName? = some name →
    (table.findBy name later.1).length = 1
  id : ∀ id name name', earlier.1 = later.1 → earlier.2 = .details ⟨.given id, name⟩ →
    later.2 = .details ⟨.given id, name'⟩ → table.findOneBy (some id) later.1 = none →
      (table.findBy name later.1).length ≠ 1 → name = name'

def references (nodes : List (WorkflowNode π)) : List (String × NodeCredential) :=
  nodes.flatMap WorkflowNode.activeEntries

/-- The node with only one of its references. -/
def WorkflowNode.onlyReference (node : WorkflowNode π) (type : String)
    (credential : NodeCredential) : WorkflowNode π :=
  { node with credentials := some (OrderedMap.empty.set type credential) }

def EachOnItsOwn (nodes : List (WorkflowNode π)) : Prop :=
  ∀ (i : ℕ) (node : WorkflowNode π) (type : String) (credential : NodeCredential),
    nodes[i]? = some node → node.disabled = false → node.credential? type = some credential →
      ((replaceInvalidCredentials table nodes)[i]?).bind (·.credential? type) =
        ((replaceInvalidCredentials table [node.onlyReference type credential])[0]?).bind
          (·.credential? type)

/-- Every reference is a text, or has an id or `null`. -/
def HaveIds (entries : List (String × NodeCredential)) : Prop :=
  ∀ e ∈ entries, ∀ name, e.2 ≠ .details ⟨.missing, name⟩

end Becomes

/-! ### What the caches hold -/

section Memo
variable {table : CredentialsTable} {entries : List (String × NodeCredential)}
  {caches : CredentialsCaches} {type name id : String} {details : INodeCredentialsDetails}
  {credential : NodeCredential}

structure Memo (table : CredentialsTable) (entries : List (String × NodeCredential))
    (caches : CredentialsCaches) : Prop where
  byName : ∀ type name, caches.byName.get? (type, name) =
    if hasName entries type name then some (nameDetails table type name) else none
  hit : ∀ type id details, caches.byId.get? (type, id) = some details →
    (∃ row, table.findOneBy (some id) type = some row ∧ details = row.details) ∨
      keptMissing table entries type id = some details
  miss : ∀ type id, caches.byId.get? (type, id) = none → keptMissing table entries type id = none

theorem memo_empty (table : CredentialsTable) : Memo table [] ⟨.empty, .empty⟩ :=
  ⟨fun _ _ => rfl, nofun, fun _ _ _ => by simp [keptMissing]⟩

theorem hasName_concat (e : String × NodeCredential) :
    hasName (entries ++ [e]) type name =
      (hasName entries type name || decide (e.1 = type ∧ e.2.byName? = some name)) := by
  simp [hasName]

theorem keptMissing_append (later : List (String × NodeCredential)) :
    keptMissing table (entries ++ later) type id =
      (keptMissing table entries type id).or (keptMissing table later type id) := by
  rw [keptMissing, keptMissing, keptMissing, List.findSome?_append]
  split <;> rfl

theorem keptMissing_single (e : String × NodeCredential) :
    keptMissing table [e] type id =
      if (table.findOneBy (some id) type).isSome then none else keptAt table type id e := by
  rw [keptMissing, List.findSome?_cons, List.findSome?_nil]
  cases keptAt table type id e <;> rfl

theorem keptMissing_of_byName {e : String × NodeCredential} (h : e.2.byName? = some name)
    (type id : String) : keptMissing table [e] type id = none := by
  rw [keptMissing_single, ite_eq_left_iff]
  obtain ⟨type', credential⟩ := e
  match credential, h with
  | .old _, _ => exact fun _ => rfl
  | .details ⟨.null, _⟩, _ => exact fun _ => rfl

theorem keptMissing_single_of_ne {type' id' : String} (h : (type', id') ≠ (type, id)) :
    keptMissing table [(type', .details ⟨.given id', name⟩)] type id = none := by
  rw [keptMissing_single, ite_eq_left_iff]
  exact fun _ => if_neg fun hall => h (Prod.ext hall.1 hall.2.1)

theorem Memo.concat_byName (h : Memo table entries caches) (hname : credential.byName? = some name)
    {byName : CredentialsCache} (hbyName : ∀ type' name', byName.get? (type', name') =
      if (type, name) = (type', name') then some (nameDetails table type name)
      else caches.byName.get? (type', name')) :
    Memo table (entries ++ [(type, credential)]) { caches with byName := byName } := by
  refine ⟨fun type' name' => ?_, fun type' id details hget => ?_, fun type' id hget => ?_⟩
  · rw [hbyName, hasName_concat, h.byName, hname]
    by_cases heq : (type, name) = (type', name')
    · obtain ⟨rfl, rfl⟩ := Prod.mk.inj heq
      simp
    · have hne : ¬ (type = type' ∧ name = name') := fun hall => heq (Prod.ext hall.1 hall.2)
      simp [hne]
  · rw [keptMissing_append]
    exact (h.hit type' id details hget).imp_right fun hkept => by rw [hkept, Option.some_or]
  · rw [keptMissing_append, h.miss type' id hget, Option.none_or]
    exact keptMissing_of_byName hname type' id

theorem becomes_of_byName (hname : credential.byName? = some name) :
    becomes table type credential = match table.findBy name type with
      | [row] => .details row.details
      | _ => credential := by
  rcases credential_of_byName hname with rfl | rfl
  · rfl
  · rw [becomes, nameDetails]
    split <;> rfl

theorem becomesAfter_of_byName (hname : credential.byName? = some name) :
    becomesAfter table entries type credential =
      if hasName entries type name then .details (nameDetails table type name)
      else becomes table type credential := by
  rcases credential_of_byName hname with rfl | rfl
  · rfl
  · simp [becomesAfter, becomes]

theorem Memo.replaceByName (h : Memo table entries caches) (hname : credential.byName? = some name) :
    (replaceByName table type name credential caches).1 = becomesAfter table entries type credential ∧
      Memo table (entries ++ [(type, credential)])
        (replaceByName table type name credential caches).2 := by
  have hbyName := h.byName type name
  -- Whether the name is unique or not, the cache has the details of the name afterwards.
  have hset : Memo table (entries ++ [(type, credential)]) { caches with
      byName := caches.byName.set (type, name) (nameDetails table type name) } :=
    h.concat_byName hname fun type' name' => OrderedMap.get?_set _ _ _ _
  rw [N8n.replaceByName, becomesAfter_of_byName hname]
  cases hhas : hasName entries type name with
  | true =>
    rw [hhas, if_pos rfl] at hbyName
    rw [hbyName]
    refine ⟨rfl, h.concat_byName hname fun type' name' => ?_⟩
    split
    · next heq =>
      obtain ⟨rfl, rfl⟩ := Prod.mk.inj heq
      exact hbyName
    · rfl
  | false =>
    rw [hhas, if_neg Bool.false_ne_true] at hbyName
    rw [hbyName, if_neg Bool.false_ne_true, becomes_of_byName hname]
    rw [nameDetails] at hset
    cases hrows : table.findBy name type with
    | nil => rw [hrows] at hset; exact ⟨rfl, hset⟩
    | cons row rows =>
      rw [hrows] at hset
      cases rows with
      | nil => exact ⟨rfl, hset⟩
      | cons row' rows => exact ⟨rfl, hset⟩

theorem findOneBy_of_nodup (hids : (table.map (·.id)).Nodup) {row : CredentialRow}
    (hrow : row ∈ table) : table.findOneBy (some row.id) row.type = some row := by
  obtain ⟨found, hfound⟩ := findOneBy_of_mem hrow
  rw [hfound, List.inj_on_of_nodup_map hids (List.mem_of_find?_eq_some hfound) hrow
    (findOneBy_id hfound)]

/-- A reference whose id is in the cache already, or is found by its name. -/
theorem Memo.concat_id (h : Memo table entries caches)
    (hkept : caches.byId.get? (type, id) = none →
      keptMissing table [(type, .details ⟨.given id, name⟩)] type id = none) :
    Memo table (entries ++ [(type, .details ⟨.given id, name⟩)]) caches := by
  refine ⟨fun type' name' => ?_, fun type' id' details hget => ?_, fun type' id' hget => ?_⟩
  · rw [hasName_concat, h.byName]
    simp [NodeCredential.byName?]
  · rw [keptMissing_append]
    exact (h.hit type' id' details hget).imp_right fun hkept => by rw [hkept, Option.some_or]
  · rw [keptMissing_append, h.miss type' id' hget, Option.none_or]
    by_cases heq : (type, id) = (type', id')
    · obtain ⟨rfl, rfl⟩ := Prod.mk.inj heq
      exact hkept hget
    · exact keptMissing_single_of_ne heq

/-- What is put into the cache. -/
theorem Memo.setById (h : Memo table entries caches)
    (hdetails : (∃ row, table.findOneBy (some id) type = some row ∧ details = row.details) ∨
      keptMissing table entries type id = some details) :
    Memo table entries { caches with byId := caches.byId.set (type, id) details } := by
  refine ⟨h.byName, fun type' id' details' hget => ?_, fun type' id' hget => ?_⟩
  · rw [OrderedMap.get?_set] at hget
    split_ifs at hget with heq
    · obtain ⟨rfl, rfl⟩ := Prod.mk.inj heq
      rw [← Option.some.inj hget]
      exact hdetails
    · exact h.hit type' id' details' hget
  · rw [OrderedMap.get?_set] at hget
    split_ifs at hget
    exact h.miss type' id' hget

/-- A reference that stays what it is goes into the cache. -/
theorem Memo.keep (h : Memo table entries caches) (hmiss : caches.byId.get? (type, id) = none)
    (hkept : keptMissing table [(type, .details ⟨.given id, name⟩)] type id = some ⟨.given id, name⟩) :
    Memo table (entries ++ [(type, .details ⟨.given id, name⟩)])
      { caches with byId := caches.byId.set (type, id) ⟨.given id, name⟩ } := by
  refine ⟨fun type' name' => ?_, fun type' id' details hget => ?_, fun type' id' hget => ?_⟩
  · rw [hasName_concat, h.byName]
    simp [NodeCredential.byName?]
  · rw [OrderedMap.get?_set] at hget
    rw [keptMissing_append]
    split_ifs at hget with heq
    · obtain ⟨rfl, rfl⟩ := Prod.mk.inj heq
      rw [h.miss type id hmiss, Option.none_or, hkept]
      exact .inr hget
    · exact (h.hit type' id' details hget).imp_right fun hkept => by rw [hkept, Option.some_or]
  · rw [OrderedMap.get?_set] at hget
    split_ifs at hget with heq
    rw [keptMissing_append, h.miss type' id' hget, Option.none_or]
    exact keptMissing_single_of_ne heq

theorem Memo.replaceById (h : Memo table entries caches) (hids : (table.map (·.id)).Nodup) :
    (replaceById table type ⟨.given id, name⟩ caches).1 =
        becomesAfter table entries type (.details ⟨.given id, name⟩) ∧
      Memo table (entries ++ [(type, .details ⟨.given id, name⟩)])
        (replaceById table type ⟨.given id, name⟩ caches).2 := by
  rw [N8n.replaceById, becomesAfter]
  simp only [CredentialId.key, CredentialId.given?, lookedUp]
  cases hcached : caches.byId.get? (type, id) with
  | some cached =>
    refine ⟨?_, h.concat_id fun hmiss => by rw [hcached] at hmiss; cases hmiss⟩
    rcases h.hit type id cached hcached with ⟨row, hrow, rfl⟩ | hkept
    · have hnone : keptMissing table entries type id = none := by simp [keptMissing, hrow]
      rw [hnone, hrow]
      rfl
    · rw [hkept]
      rfl
  | none =>
    rw [h.miss type id hcached, Option.getD_none]
    have hconcat : (caches.byId.get? (type, id) = none →
        keptMissing table [(type, .details ⟨.given id, name⟩)] type id = none) →
        Memo table (entries ++ [(type, .details ⟨.given id, name⟩)]) caches := h.concat_id
    cases hone : table.findOneBy (some id) type with
    | some row =>
      refine ⟨rfl, (hconcat fun _ => ?_).setById (.inl ⟨row, hone, rfl⟩)⟩
      simp [keptMissing, hone]
    | none =>
      have hsingle : keptMissing table [(type, .details ⟨.given id, name⟩)] type id =
          if (table.findBy name type).length ≠ 1 then some ⟨.given id, name⟩ else none := by
        simp [keptMissing_single, hone, keptAt]
      cases hrows : table.findBy name type with
      | nil =>
        refine ⟨rfl, h.keep hcached ?_⟩
        rw [hsingle, hrows]
        rfl
      | cons row rows =>
        cases rows with
        | nil =>
          obtain ⟨hmem, htype⟩ := mem_findBy (hrows ▸ List.mem_singleton_self row)
          have hfound := findOneBy_of_nodup hids hmem
          rw [htype] at hfound
          refine ⟨rfl, (hconcat fun _ => ?_).setById (.inl ⟨row, hfound, rfl⟩)⟩
          rw [hsingle, hrows]
          rfl
        | cons row' rows =>
          refine ⟨rfl, h.keep hcached ?_⟩
          rw [hsingle, hrows]
          simp

theorem Memo.replaceCredential (h : Memo table entries caches) (hids : (table.map (·.id)).Nodup)
    (type : String) (hid : ∀ name, credential ≠ .details ⟨.missing, name⟩) :
    (replaceCredential table type credential caches).1 =
        becomesAfter table entries type credential ∧
      Memo table (entries ++ [(type, credential)])
        (replaceCredential table type credential caches).2 := by
  match credential, hid with
  | .old name, _ => exact h.replaceByName rfl
  | .details ⟨.null, name⟩, _ => exact h.replaceByName rfl
  | .details ⟨.given id, name⟩, _ => exact h.replaceById hids
  | .details ⟨.missing, name⟩, hid => exact absurd rfl (hid name)

end Memo

/-! ### The references of all nodes -/

section Nodes
variable {table : CredentialsTable} {caches : CredentialsCaches} {node : WorkflowNode π}
  {nodes : List (WorkflowNode π)} {entries : List (String × NodeCredential)}

theorem replaceEntries_memo (hids : (table.map (·.id)).Nodup)
    {later : List (String × NodeCredential)} (hmissing : HaveIds later)
    (hnodup : (later.map Prod.fst).Nodup) (credentials : OrderedMap String NodeCredential)
    (h : Memo table entries caches) :
    Memo table (entries ++ later) (replaceEntries table later credentials caches).2 ∧
      (∀ before type credential rest, later = before ++ (type, credential) :: rest →
        (replaceEntries table later credentials caches).1.get? type =
          some (becomesAfter table (entries ++ before) type credential)) ∧
      ∀ type ∉ later.map Prod.fst,
        (replaceEntries table later credentials caches).1.get? type = credentials.get? type := by
  induction later generalizing entries credentials caches with
  | nil => exact ⟨by simpa [replaceEntries] using h, by simp, fun _ _ => rfl⟩
  | cons e later ih =>
    obtain ⟨hnew, hnodup⟩ := List.nodup_cons.mp hnodup
    obtain ⟨hmissing, hrest⟩ := List.forall_mem_cons.mp hmissing
    obtain ⟨hresult, hmemo⟩ := h.replaceCredential hids e.1 hmissing
    obtain ⟨hcaches, hlater, hother⟩ := ih hrest hnodup
      (credentials.set e.1 (replaceCredential table e.1 e.2 caches).1) hmemo
    rw [List.append_assoc, List.singleton_append] at hcaches
    refine ⟨hcaches, ?_, ?_⟩
    · rintro (_ | ⟨e', before⟩) type credential rest hsplit
      · obtain ⟨rfl, rfl⟩ := List.cons.inj hsplit
        rw [List.append_nil, ← hresult]
        exact (hother type hnew).trans (OrderedMap.get?_set_self _ _ _)
      · obtain ⟨rfl, hrest⟩ := List.cons.inj hsplit
        rw [List.append_cons]
        exact hlater before type credential rest hrest
    · intro type htype
      rw [List.map_cons, List.mem_cons, not_or] at htype
      exact (hother type htype.2).trans (OrderedMap.get?_set_of_ne (Ne.symm htype.1))

theorem replaceInNode_memo (hids : (table.map (·.id)).Nodup) (hmissing : HaveIds node.activeEntries)
    (h : Memo table entries caches) :
    Memo table (entries ++ node.activeEntries) (replaceInNode table node caches).2 ∧
      ∀ before type credential rest, node.activeEntries = before ++ (type, credential) :: rest →
        (replaceInNode table node caches).1.credential? type =
          some (becomesAfter table (entries ++ before) type credential) := by
  rw [WorkflowNode.activeEntries] at hmissing ⊢
  rw [replaceInNode]
  cases hcredentials : node.credentials with
  | none => simpa using h
  | some credentials =>
    cases hdisabled : node.disabled with
    | true => simpa using h
    | false =>
      rw [hcredentials, hdisabled] at hmissing
      obtain ⟨hcaches, hresults, -⟩ :=
        replaceEntries_memo hids hmissing credentials.nodup credentials h
      exact ⟨hcaches, hresults⟩

theorem references_cons (node : WorkflowNode π) (nodes : List (WorkflowNode π)) :
    references (node :: nodes) = node.activeEntries ++ references nodes :=
  List.flatMap_cons

theorem references_take_succ {i : ℕ} (hi : nodes[i]? = some node) :
    references (nodes.take (i + 1)) = references (nodes.take i) ++ node.activeEntries := by
  simp [references, List.take_add_one, hi]

/-- A reference of the workflow becomes what those before it allow. -/
theorem replaceInvalidCredentials_reference (hids : (table.map (·.id)).Nodup)
    (hmissing : HaveIds (references nodes)) {i : ℕ} (hi : nodes[i]? = some node)
    {before rest : List (String × NodeCredential)} {type : String} {credential : NodeCredential}
    (hsplit : node.activeEntries = before ++ (type, credential) :: rest) :
    ((replaceInvalidCredentials table nodes)[i]?).bind (·.credential? type) =
      some (becomesAfter table (references (nodes.take i) ++ before) type credential) := by
  have hmissingNode : ∀ node ∈ nodes, HaveIds node.activeEntries := fun node hnode e he =>
    hmissing e (List.mem_flatMap.mpr ⟨node, hnode, he⟩)
  obtain ⟨caches, hmemo, hget⟩ := replaceInNodes_spec table nodes
    (fun i caches => Memo table (references (nodes.take i)) caches) (memo_empty table)
    (fun i node caches hi hmemo => by
      rw [references_take_succ hi]
      exact (replaceInNode_memo hids (hmissingNode node (List.mem_of_getElem? hi)) hmemo).1) i
  rw [hi] at hmemo hget
  rw [replaceInvalidCredentials, hget, Option.map_some, Option.bind_some]
  exact (replaceInNode_memo hids (hmissingNode node (List.mem_of_getElem? hi)) (hmemo rfl)).2
    before type credential rest hsplit

theorem becomesAfter_nil (type : String) (credential : NodeCredential) :
    becomesAfter table [] type credential = becomes table type credential := by
  match credential with
  | .old _ => rfl
  | .details ⟨.null, _⟩ => rfl
  | .details ⟨.given _, _⟩ => simp [becomesAfter, becomes, keptMissing]
  | .details ⟨.missing, _⟩ => rfl

theorem activeEntries_of_credential? {type : String} {credential : NodeCredential}
    (henabled : node.disabled = false) (h : node.credential? type = some credential) :
    ∃ before rest, node.activeEntries = before ++ (type, credential) :: rest := by
  obtain ⟨credentials, hcredentials, hget⟩ := Option.bind_eq_some_iff.mp h
  refine List.append_of_mem ?_
  rw [WorkflowNode.activeEntries, henabled, hcredentials]
  exact OrderedMap.mem_of_lookupEntry hget

theorem credential?_of_activeEntries {type : String} {credential : NodeCredential}
    (h : (type, credential) ∈ node.activeEntries) :
    node.disabled = false ∧ node.credential? type = some credential := by
  rw [WorkflowNode.activeEntries] at h
  split_ifs at h with hdisabled
  · simp at h
  cases hcredentials : node.credentials with
  | none => simp [hcredentials] at h
  | some credentials =>
    rw [hcredentials] at h
    refine ⟨by simpa using hdisabled, ?_⟩
    rw [WorkflowNode.credential?, hcredentials]
    exact OrderedMap.get?_eq_some.mpr h

theorem replaceInvalidCredentials_onlyReference (hids : (table.map (·.id)).Nodup)
    (henabled : node.disabled = false) {type : String} {credential : NodeCredential}
    (hid : ∀ name, credential ≠ .details ⟨.missing, name⟩) :
    ((replaceInvalidCredentials table [node.onlyReference type credential])[0]?).bind
      (·.credential? type) = some (becomes table type credential) := by
  have hactive : (node.onlyReference type credential).activeEntries =
      [] ++ [(type, credential)] := by
    simp only [WorkflowNode.activeEntries, WorkflowNode.onlyReference, henabled]
    rfl
  rw [replaceInvalidCredentials_reference hids ?_ rfl hactive]
  · exact congrArg some (becomesAfter_nil type credential)
  · intro e he
    rw [references, List.flatMap_singleton, hactive, List.nil_append, List.mem_singleton] at he
    subst he
    exact hid

/-- A reference of the workflow is one of a node, and the references of the nodes before come
first. -/
theorem references_split {before : List (String × NodeCredential)} {e : String × NodeCredential} :
    (∃ later, references nodes = before ++ e :: later) ↔
      ∃ i node done rest, nodes[i]? = some node ∧ node.activeEntries = done ++ e :: rest ∧
        before = references (nodes.take i) ++ done := by
  constructor
  · rintro ⟨later, hsplit⟩
    induction nodes generalizing before with
    | nil => simp [references] at hsplit
    | cons node nodes ih =>
      rw [references_cons] at hsplit
      have hnext : ∀ {before'}, before = node.activeEntries ++ before' →
          references nodes = before' ++ e :: later →
          ∃ i node' done rest, (node :: nodes)[i]? = some node' ∧
            node'.activeEntries = done ++ e :: rest ∧
            before = references ((node :: nodes).take i) ++ done := by
        intro before' hbefore hrest
        obtain ⟨i, node', done, rest, hi, hactive, rfl⟩ := ih hrest
        refine ⟨i + 1, node', done, rest, hi, hactive, ?_⟩
        rw [hbefore, List.take_succ_cons, references_cons, List.append_assoc]
      rcases List.append_eq_append_iff.mp hsplit with ⟨before', hbefore, hrest⟩ |
        ⟨rest, hactive, hrest⟩
      · exact hnext hbefore hrest
      · cases rest with
        | nil => exact @hnext [] (by simp [hactive]) hrest.symm
        | cons e' rest =>
          obtain ⟨rfl, -⟩ := List.cons.inj hrest
          exact ⟨0, node, before, rest, rfl, hactive, rfl⟩
  · rintro ⟨i, node, done, rest, hi, hactive, rfl⟩
    refine ⟨rest ++ references (nodes.drop (i + 1)), ?_⟩
    obtain ⟨hlt, hget⟩ := List.getElem?_eq_some_iff.mp hi
    conv_lhs => rw [← List.take_append_drop i nodes, List.drop_eq_getElem_cons hlt, hget]
    simp [references, hactive]

theorem eachOnItsOwn_iff_becomes (hids : (table.map (·.id)).Nodup)
    (hmissing : HaveIds (references nodes)) :
    EachOnItsOwn table nodes ↔ ∀ before e later, references nodes = before ++ e :: later →
      becomesAfter table before e.1 e.2 = becomes table e.1 e.2 := by
  have hnotMissing : ∀ {i : ℕ} {node : WorkflowNode π} {e : String × NodeCredential},
      nodes[i]? = some node → e ∈ node.activeEntries → ∀ name, e.2 ≠ .details ⟨.missing, name⟩ :=
    fun hi he => hmissing _ (List.mem_flatMap.mpr ⟨_, List.mem_of_getElem? hi, he⟩)
  constructor
  · rintro h before ⟨type, credential⟩ later hsplit
    obtain ⟨i, node, done, rest, hi, hactive, rfl⟩ := references_split.mp ⟨later, hsplit⟩
    have hmem : (type, credential) ∈ node.activeEntries := by simp [hactive]
    obtain ⟨henabled, hcredential⟩ := credential?_of_activeEntries hmem
    have hsame := h i node type credential hi henabled hcredential
    rw [replaceInvalidCredentials_reference hids hmissing hi hactive,
      replaceInvalidCredentials_onlyReference hids henabled (hnotMissing hi hmem)] at hsame
    exact Option.some.inj hsame
  · intro h i node type credential hi henabled hcredential
    obtain ⟨done, rest, hactive⟩ := activeEntries_of_credential? henabled hcredential
    have hmem : (type, credential) ∈ node.activeEntries := by simp [hactive]
    obtain ⟨later, hsplit⟩ := references_split.mpr ⟨i, node, done, rest, hi, hactive, rfl⟩
    rw [replaceInvalidCredentials_reference hids hmissing hi hactive,
      replaceInvalidCredentials_onlyReference hids henabled (hnotMissing hi hmem)]
    exact congrArg some (h _ (type, credential) later hsplit)

/-! ### References that do not meddle with each other -/

theorem pairwise_iff_split {α : Type*} {R : α → α → Prop} {l : List α} :
    l.Pairwise R ↔ ∀ before a later, l = before ++ a :: later → ∀ b ∈ before, R b a := by
  constructor
  · rintro h before a later rfl b hb
    exact (List.pairwise_append.mp h).2.2 b hb a List.mem_cons_self
  · intro h
    induction l using List.reverseRecOn with
    | nil => exact .nil
    | append_singleton l a ih =>
      refine List.pairwise_append.mpr ⟨ih fun before b later hsplit => ?_, List.pairwise_singleton _ _,
        fun b hb c hc => ?_⟩
      · exact h before b (later ++ [a]) (by simp [hsplit])
      · rw [List.mem_singleton.mp hc]
        exact h l a [] rfl b hb

theorem becomesAfter_old_iff {entries : List (String × NodeCredential)} {type name : String} :
    becomesAfter table entries type (.old name) = becomes table type (.old name) ↔
      (hasName entries type name = true → (table.findBy name type).length = 1) := by
  rw [becomesAfter, becomes, nameDetails]
  cases hasName entries type name with
  | false => simp
  | true =>
    cases table.findBy name type with
    | nil => simp
    | cons row rows => cases rows <;> simp

theorem keptAt_eq_some {type id : String} {e : String × NodeCredential}
    {details : INodeCredentialsDetails} :
    keptAt table type id e = some details ↔ ∃ name, e = (type, .details ⟨.given id, name⟩) ∧
      (table.findBy name type).length ≠ 1 ∧ details = ⟨.given id, name⟩ := by
  unfold keptAt
  split
  · next type' id' name =>
    constructor
    · intro h
      split_ifs at h with hall
      obtain ⟨rfl, rfl, hname⟩ := hall
      exact ⟨name, rfl, hname, (Option.some.inj h).symm⟩
    · rintro ⟨name', heq, hname, rfl⟩
      simp only [Prod.mk.injEq, NodeCredential.details.injEq, INodeCredentialsDetails.mk.injEq,
        CredentialId.given.injEq] at heq
      obtain ⟨rfl, rfl, rfl⟩ := heq
      rw [if_pos ⟨rfl, rfl, hname⟩]
  · next hother =>
    refine ⟨nofun, ?_⟩
    rintro ⟨name, rfl, -⟩
    exact absurd rfl (hother _ _ _)

theorem keptMissing_eq_some {entries : List (String × NodeCredential)} {type id : String}
    {details : INodeCredentialsDetails} (h : keptMissing table entries type id = some details) :
    table.findOneBy (some id) type = none ∧ ∃ name, (type, .details ⟨.given id, name⟩) ∈ entries ∧
      (table.findBy name type).length ≠ 1 ∧ details = ⟨.given id, name⟩ := by
  rw [keptMissing] at h
  split_ifs at h with hone
  obtain ⟨e, he, hkept⟩ := List.exists_of_findSome?_eq_some h
  obtain ⟨name, rfl, hname, hdetails⟩ := keptAt_eq_some.mp hkept
  exact ⟨by simpa using hone, name, he, hname, hdetails⟩

/-- An id of no credential stays, unless another one is found by the name. -/
theorem lookedUp_eq_iff {type id name name' : String}
    (hone : table.findOneBy (some id) type = none)
    (hname : (table.findBy name type).length ≠ 1) :
    lookedUp table type ⟨.given id, name'⟩ = ⟨.given id, name⟩ ↔ name = name' := by
  simp only [lookedUp, CredentialId.given?, hone]
  constructor
  · intro h
    split at h
    · next row hrows =>
      obtain ⟨hmem, htype⟩ := mem_findBy (hrows ▸ List.mem_singleton_self row)
      obtain ⟨found, hfound⟩ := findOneBy_of_mem hmem
      rw [CredentialRow.details, INodeCredentialsDetails.mk.injEq, CredentialId.given.injEq] at h
      rw [h.1, htype, hone] at hfound
      cases hfound
    · rw [INodeCredentialsDetails.mk.injEq] at h
      exact h.2.symm
  · rintro rfl
    split
    · next row hrows => simp [hrows] at hname
    · rfl

theorem becomesAfter_given_iff {entries : List (String × NodeCredential)} {type id name name' : String}
    (hkept : keptMissing table entries type id = some ⟨.given id, name⟩) :
    becomesAfter table entries type (.details ⟨.given id, name'⟩) =
      becomes table type (.details ⟨.given id, name'⟩) ↔ name = name' := by
  obtain ⟨hone, _, -, hname, heq⟩ := keptMissing_eq_some hkept
  obtain rfl := (INodeCredentialsDetails.mk.inj heq).2
  rw [becomesAfter, hkept, Option.getD_some, ← lookedUp_eq_iff hone hname, eq_comm]
  exact NodeCredential.details.injEq _ _ ▸ Iff.rfl

theorem independent_of_becomes {before : List (String × NodeCredential)} {e : String × NodeCredential}
    (h : ∀ before' e' later', before ++ [e] = before' ++ e' :: later' →
      becomesAfter table before' e'.1 e'.2 = becomes table e'.1 e'.2)
    {b : String × NodeCredential} (hb : b ∈ before) : Independent table b e := by
  have he := h before e [] rfl
  obtain ⟨type, credential⟩ := e
  constructor
  · rintro name rfl htype hname
    refine becomesAfter_old_iff.mp he ?_
    exact List.any_eq_true.mpr ⟨b, hb, by simpa using ⟨htype, hname⟩⟩
  · rintro id name name' htype hb' rfl hone hname
    obtain ⟨p, q, rfl⟩ := List.append_of_mem hb
    obtain rfl : b = (type, .details ⟨.given id, name⟩) := Prod.ext htype hb'
    -- What is in the cache was put there by `b` or before it.
    cases hkept : keptMissing table p type id with
    | none =>
      refine (becomesAfter_given_iff ?_).mp he
      have hsingle : keptMissing table [(type, .details ⟨.given id, name⟩)] type id =
          some ⟨.given id, name⟩ := by
        rw [keptMissing_single, if_neg (by simp [hone])]
        exact keptAt_eq_some.mpr ⟨name, rfl, hname, rfl⟩
      rw [List.append_cons, keptMissing_append, keptMissing_append, hkept, hsingle, Option.none_or,
        Option.some_or]
    | some details =>
      obtain ⟨-, name₀, -, -, rfl⟩ := keptMissing_eq_some hkept
      have hkeptLater : keptMissing table (p ++ (type, .details ⟨.given id, name⟩) :: q) type id =
          some ⟨.given id, name₀⟩ := by
        rw [keptMissing_append, hkept, Option.some_or]
      have hlater := (becomesAfter_given_iff hkeptLater).mp he
      have hb := h p (type, .details ⟨.given id, name⟩) (q ++ [(type, .details ⟨.given id, name'⟩)])
        (by simp)
      exact ((becomesAfter_given_iff hkept).mp hb).symm.trans hlater

theorem becomesAfter_of_independent {before : List (String × NodeCredential)}
    {e : String × NodeCredential} (h : ∀ b ∈ before, Independent table b e) :
    becomesAfter table before e.1 e.2 = becomes table e.1 e.2 := by
  obtain ⟨type, credential⟩ := e
  match credential with
  | .old name =>
    refine becomesAfter_old_iff.mpr fun hhas => ?_
    obtain ⟨b, hb, hname⟩ := List.any_eq_true.mp hhas
    obtain ⟨htype, hname⟩ := of_decide_eq_true hname
    exact (h b hb).text name rfl htype hname
  | .details ⟨.null, _⟩ => rfl
  | .details ⟨.missing, _⟩ => rfl
  | .details ⟨.given id, name'⟩ =>
    cases hkept : keptMissing table before type id with
    | none => simp [becomesAfter, becomes, hkept]
    | some details =>
      obtain ⟨hone, name, hb, hname, rfl⟩ := keptMissing_eq_some hkept
      exact (becomesAfter_given_iff hkept).mpr
        ((h _ hb).id id name name' rfl rfl rfl hone hname)

end Nodes

/-! ### Two nodes with one name -/

section Example

def bossReference (name : String) (credential : NodeCredential) : WorkflowNode Unit :=
  ⟨some name, name, "n8n-nodes-base.httpRequest", (), (0, 0), false,
    some (OrderedMap.empty.set "httpBasicAuth" credential)⟩

def boss : CredentialRow := ⟨"1", "Boss", "httpBasicAuth"⟩

end Example

end N8n
