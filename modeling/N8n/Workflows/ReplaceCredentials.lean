import N8n.Workflows.CredentialUsage

/-!
# References to credentials are looked up

Before a workflow is saved, `replaceInvalidCredentials` looks every reference up in the
table: by name when it has the old format or a `null` id, by id and type otherwise, and
by name when there is no such credential. What was found, or not found, goes into two
caches that are kept over all nodes. In the condition of a query a missing id is no
condition, and as the key of a cache it is the text "undefined". Names and ids are none
of the properties that every object inherits.
-/

namespace N8n

structure CredentialRow where
  id : String
  name : String
  type : String
  deriving DecidableEq, Repr

abbrev CredentialsTable := List CredentialRow

namespace CredentialsTable

def findBy (table : CredentialsTable) (name type : String) : List CredentialRow :=
  table.filter fun row => row.name = name ∧ row.type = type

def findOneBy (table : CredentialsTable) (id : Option String) (type : String) :
    Option CredentialRow :=
  table.find? fun row => id.all (row.id = ·) ∧ row.type = type

end CredentialsTable

def CredentialRow.details (row : CredentialRow) : INodeCredentialsDetails := ⟨.given row.id, row.name⟩

def CredentialId.key : CredentialId → String
  | .missing => "undefined"
  | .null => "null"
  | .given id => id

/-- By the type of the credential, and its name or id. -/
abbrev CredentialsCache := OrderedMap (String × String) INodeCredentialsDetails

structure CredentialsCaches where
  byName : CredentialsCache
  byId : CredentialsCache

section Loop
variable {π : Type*} (table : CredentialsTable)

/-- `credential` is the reference with the name. -/
def replaceByName (type name : String) (credential : NodeCredential) (caches : CredentialsCaches) :
    NodeCredential × CredentialsCaches :=
  match caches.byName.get? (type, name) with
  | some cached => (.details cached, caches)
  | none =>
    match table.findBy name type with
    | [row] =>
      (.details row.details, { caches with byName := caches.byName.set (type, name) row.details })
    | _ => (credential, { caches with byName := caches.byName.set (type, name) ⟨.null, name⟩ })

def replaceById (type : String) (credential : INodeCredentialsDetails) (caches : CredentialsCaches) :
    NodeCredential × CredentialsCaches :=
  match caches.byId.get? (type, credential.id.key) with
  | some cached => (.details cached, caches)
  | none =>
    match table.findOneBy credential.id.given? type with
    | some row =>
      (.details row.details,
        { caches with byId := caches.byId.set (type, credential.id.key) row.details })
    | none =>
      match table.findBy credential.name type with
      | [row] =>
        (.details row.details, { caches with byId := caches.byId.set (type, row.id) row.details })
      | _ =>
        (.details credential,
          { caches with byId := caches.byId.set (type, credential.id.key) credential })

def replaceCredential (type : String) (credential : NodeCredential) (caches : CredentialsCaches) :
    NodeCredential × CredentialsCaches :=
  match credential with
  | .old name => replaceByName table type name credential caches
  | .details ⟨.null, name⟩ => replaceByName table type name credential caches
  | .details details => replaceById table type details caches

/-- The references of one node, in their order. -/
def replaceEntries (entries : List (String × NodeCredential))
    (credentials : OrderedMap String NodeCredential) (caches : CredentialsCaches) :
    OrderedMap String NodeCredential × CredentialsCaches :=
  entries.foldl (fun r e =>
    let s := replaceCredential table e.1 e.2 r.2
    (r.1.set e.1 s.1, s.2)) (credentials, caches)

def replaceInNode (node : WorkflowNode π) (caches : CredentialsCaches) :
    WorkflowNode π × CredentialsCaches :=
  match node.credentials with
  | none => (node, caches)
  | some credentials =>
    if node.disabled then (node, caches)
    else
      let r := replaceEntries table credentials.entries credentials caches
      ({ node with credentials := some r.1 }, r.2)

def replaceInNodes : List (WorkflowNode π) → CredentialsCaches → List (WorkflowNode π)
  | [], _ => []
  | node :: nodes, caches =>
    let r := replaceInNode table node caches
    r.1 :: replaceInNodes nodes r.2

def replaceInvalidCredentials (nodes : List (WorkflowNode π)) : List (WorkflowNode π) :=
  replaceInNodes table nodes ⟨.empty, .empty⟩

end Loop

/-! ### What a reference stands for -/

section StandsFor
variable (table : CredentialsTable)

def foundByName (type name : String) : Option String :=
  match table.findBy name type with
  | [row] => row.details.usedId
  | _ => none

/-- A reference that has an id, or should have one. -/
def lookedUp (type : String) (credential : INodeCredentialsDetails) : INodeCredentialsDetails :=
  match table.findOneBy credential.id.given? type with
  | some row => row.details
  | none =>
    match table.findBy credential.name type with
    | [row] => row.details
    | _ => credential

/-- Later references of the type with the same id follow a reference that is found by its id
or not at all. -/
def isSettled (type : String) (credential : INodeCredentialsDetails) : Bool :=
  (table.findOneBy credential.id.given? type).isSome ||
    (table.findBy credential.name type).length ≠ 1

def NodeCredential.byId? : NodeCredential → Option INodeCredentialsDetails
  | .old _ => none
  | .details ⟨.null, _⟩ => none
  | .details credential => some credential

/-- What a type and the key of an id stand for after the references in `entries`. -/
def settled? (entries : List (String × NodeCredential)) (type key : String) :
    Option (Option String) :=
  entries.findSome? fun e => e.2.byId?.bind fun details =>
    if e.1 = type ∧ details.id.key = key ∧ isSettled table e.1 details then
      some (lookedUp table e.1 details).usedId
    else none

/-- The id that a reference has after `entries` were looked up. -/
def standsFor (entries : List (String × NodeCredential)) (type : String) :
    NodeCredential → Option String
  | .old name => foundByName table type name
  | .details ⟨.null, name⟩ => foundByName table type name
  | .details details =>
    (settled? table entries type details.id.key).getD (lookedUp table type details).usedId

end StandsFor

section Cached
variable {table : CredentialsTable} {entries : List (String × NodeCredential)}
  {caches : CredentialsCaches} {type key name : String} {details : INodeCredentialsDetails}
  {row : CredentialRow}

/-- The entry is that of the credential with the key as its id. -/
def IsRow (table : CredentialsTable) (type key : String) (details : INodeCredentialsDetails) : Prop :=
  key ≠ "undefined" ∧
    ∃ row, table.findOneBy (some key) type = some row ∧ details.usedId = row.details.usedId

/-- What the caches hold when the references in `entries` have been looked up. -/
structure Cached (table : CredentialsTable) (entries : List (String × NodeCredential))
    (caches : CredentialsCaches) : Prop where
  byName : ∀ type name details, caches.byName.get? (type, name) = some details →
    details.usedId = foundByName table type name
  hit : ∀ type key details, caches.byId.get? (type, key) = some details →
    settled? table entries type key = some details.usedId ∨ IsRow table type key details
  miss : ∀ type key, caches.byId.get? (type, key) = none → settled? table entries type key = none

theorem cached_empty : Cached table [] ⟨.empty, .empty⟩ := ⟨nofun, nofun, fun _ _ _ => rfl⟩

theorem findOneBy_id (h : table.findOneBy (some key) type = some row) : row.id = key := by
  have hfound := List.find?_some h
  simp only [Option.all_some, decide_eq_true_eq] at hfound
  exact hfound.1

theorem findOneBy_of_mem (hrow : row ∈ table) :
    ∃ row', table.findOneBy (some row.id) row.type = some row' :=
  Option.isSome_iff_exists.mp (List.find?_isSome.mpr ⟨row, hrow, by simp⟩)

theorem mem_findBy (h : row ∈ table.findBy name type) : row ∈ table ∧ row.type = type := by
  obtain ⟨hmem, hfound⟩ := List.mem_filter.mp h
  exact ⟨hmem, (of_decide_eq_true hfound).2⟩

theorem usedId_details : row.details.usedId = (some row.id).filter (· ≠ "") := rfl

theorem eq_given_of_key (hkey : key ≠ "undefined") (hnull : details.id ≠ .null)
    (h : details.id.key = key) : details.id = .given key := by
  cases hid : details.id with
  | missing =>
    rw [hid] at h
    exact absurd h.symm hkey
  | null => exact absurd hid hnull
  | given id =>
    rw [hid] at h
    exact congrArg CredentialId.given h

theorem byId?_eq_some {credential : NodeCredential} (h : credential.byId? = some details) :
    credential = .details details ∧ details.id ≠ .null := by
  match credential, h with
  | .details ⟨.missing, _⟩, rfl => exact ⟨rfl, nofun⟩
  | .details ⟨.given _, _⟩, rfl => exact ⟨rfl, nofun⟩

theorem settled?_append (later : List (String × NodeCredential)) :
    settled? table (entries ++ later) type key =
      (settled? table entries type key).or (settled? table later type key) :=
  List.findSome?_append

theorem settled?_single {credential : NodeCredential} (h : credential.byId? = some details) :
    settled? table [(type, credential)] type details.id.key =
      if isSettled table type details then some (lookedUp table type details).usedId else none := by
  simp [settled?, h]

theorem settled?_single_of_ne {credential : NodeCredential} {type' key' : String}
    (h : ∀ details, credential.byId? = some details → (type, details.id.key) ≠ (type', key')) :
    settled? table [(type, credential)] type' key' = none := by
  rw [settled?, List.findSome?_cons, List.findSome?_nil]
  cases hbyId : credential.byId? with
  | none => rfl
  | some details =>
    have hne := h details hbyId
    rw [Option.bind_some, if_neg fun hall => hne (Prod.ext hall.1 hall.2.1)]

/-- Every reference with the id of a credential of its type stands for that credential. -/
theorem lookedUp_of_row (hkey : key ≠ "undefined") (hnull : details.id ≠ .null)
    (h : details.id.key = key) (hrow : table.findOneBy (some key) type = some row) :
    lookedUp table type details = row.details := by
  rw [lookedUp, eq_given_of_key hkey hnull h, CredentialId.given?, hrow]

theorem settled?_of_row (hkey : key ≠ "undefined")
    (hrow : table.findOneBy (some key) type = some row) {id : Option String}
    (h : settled? table entries type key = some id) : id = row.details.usedId := by
  obtain ⟨e, _, he⟩ := List.exists_of_findSome?_eq_some h
  obtain ⟨details, hbyId, hid⟩ := Option.bind_eq_some_iff.mp he
  split_ifs at hid with hall
  obtain ⟨rfl, hk, _⟩ := hall
  rw [lookedUp_of_row hkey (byId?_eq_some hbyId).2 hk hrow] at hid
  exact (Option.some.inj hid).symm

theorem Cached.replaceByName (h : Cached table entries caches) (name : String)
    (credential : NodeCredential) (hused : credential.usedId = none) :
    (replaceByName table type name credential caches).1.usedId = foundByName table type name ∧
      Cached table entries (replaceByName table type name credential caches).2 := by
  have hset : ∀ details : INodeCredentialsDetails, details.usedId = foundByName table type name →
      Cached table entries { caches with byName := caches.byName.set (type, name) details } := by
    refine fun details hdetails => ⟨fun type' name' details' hget => ?_, h.hit, h.miss⟩
    rw [OrderedMap.get?_set] at hget
    split_ifs at hget with heq
    · obtain ⟨rfl, rfl⟩ := Prod.mk.inj heq
      rw [← Option.some.inj hget, hdetails]
    · exact h.byName type' name' details' hget
  rw [N8n.replaceByName]
  cases hcached : caches.byName.get? (type, name) with
  | some details => exact ⟨h.byName type name details hcached, h⟩
  | none =>
    have hname : foundByName table type name = match table.findBy name type with
      | [row] => row.details.usedId
      | _ => none := rfl
    cases hrows : table.findBy name type with
    | nil =>
      rw [hrows] at hname
      exact ⟨hused.trans hname.symm, hset _ hname.symm⟩
    | cons row rows =>
      rw [hrows] at hname
      cases rows with
      | nil => exact ⟨hname.symm, hset _ hname.symm⟩
      | cons row' rows => exact ⟨hused.trans hname.symm, hset _ hname.symm⟩

/-- An entry that the references so far account for goes into the cache. -/
theorem Cached.setById (h : Cached table entries caches)
    (hdetails : settled? table entries type key = some details.usedId ∨
      IsRow table type key details) :
    Cached table entries { caches with byId := caches.byId.set (type, key) details } := by
  refine ⟨h.byName, fun type' key' details' hget => ?_, fun type' key' hget => ?_⟩
  · rw [OrderedMap.get?_set] at hget
    split_ifs at hget with heq
    · obtain ⟨rfl, rfl⟩ := Prod.mk.inj heq
      rw [← Option.some.inj hget]
      exact hdetails
    · exact h.hit type' key' details' hget
  · rw [OrderedMap.get?_set] at hget
    split_ifs at hget
    exact h.miss type' key' hget

theorem hit_append {type' key' : String} (e : String × NodeCredential)
    (h : settled? table entries type' key' = some details.usedId ∨
      IsRow table type' key' details) :
    settled? table (entries ++ [e]) type' key' = some details.usedId ∨
      IsRow table type' key' details := by
  refine h.imp_left fun hsettled => ?_
  rw [settled?_append, hsettled, Option.some_or]

/-- A reference that settles nothing new. -/
theorem Cached.append (h : Cached table entries caches) {credential : NodeCredential}
    (hcredential : ∀ details, credential.byId? = some details →
      caches.byId.get? (type, details.id.key) = none → isSettled table type details = false) :
    Cached table (entries ++ [(type, credential)]) caches := by
  refine ⟨h.byName, fun type' key' details' hget => hit_append _ (h.hit type' key' details' hget),
    fun type' key' hget => ?_⟩
  rw [settled?_append, h.miss type' key' hget, Option.none_or]
  by_cases heq : ∃ details, credential.byId? = some details ∧
      (type, details.id.key) = (type', key')
  · obtain ⟨details, hbyId, heq⟩ := heq
    obtain ⟨rfl, rfl⟩ := Prod.mk.inj heq
    rw [settled?_single hbyId, hcredential details hbyId hget]
    rfl
  · exact settled?_single_of_ne fun details hbyId hkey => heq ⟨details, hbyId, hkey⟩

theorem Cached.settle (h : Cached table entries caches) {credential : NodeCredential}
    (hbyId : credential.byId? = some details)
    (hmiss : caches.byId.get? (type, details.id.key) = none)
    (hsettled : isSettled table type details = true) :
    Cached table (entries ++ [(type, credential)])
      { caches with byId := caches.byId.set (type, details.id.key) (lookedUp table type details) } := by
  have hother : ∀ type' key', (type, details.id.key) ≠ (type', key') →
      settled? table [(type, credential)] type' key' = none := by
    intro type' key' hne
    refine settled?_single_of_ne fun details' hbyId' => ?_
    obtain rfl := Option.some.inj (hbyId.symm.trans hbyId')
    exact hne
  refine ⟨h.byName, fun type' key' details' hget => ?_, fun type' key' hget => ?_⟩
  · rw [OrderedMap.get?_set] at hget
    split_ifs at hget with heq
    · obtain ⟨rfl, rfl⟩ := Prod.mk.inj heq
      refine Or.inl ?_
      rw [settled?_append, h.miss type _ hmiss, Option.none_or, settled?_single hbyId,
        if_pos hsettled, Option.some.inj hget]
    · exact hit_append _ (h.hit type' key' details' hget)
  · rw [OrderedMap.get?_set] at hget
    split_ifs at hget with heq
    rw [settled?_append, h.miss type' key' hget, Option.none_or, hother type' key' heq]

theorem Cached.replaceById (h : Cached table entries caches)
    (htable : ∀ row ∈ table, row.id ≠ "undefined") {credential : NodeCredential}
    (hbyId : credential.byId? = some details) :
    (replaceById table type details caches).1.usedId =
        (settled? table entries type details.id.key).getD (lookedUp table type details).usedId ∧
      Cached table (entries ++ [(type, credential)]) (replaceById table type details caches).2 := by
  rw [N8n.replaceById]
  cases hcached : caches.byId.get? (type, details.id.key) with
  | some cached =>
    refine ⟨?_, h.append fun details' hbyId' hmiss => ?_⟩
    · rcases h.hit type _ cached hcached with hsettled | ⟨hkey, row, hrow, hused⟩
      · rw [hsettled]
        rfl
      · rw [lookedUp_of_row hkey (byId?_eq_some hbyId).2 rfl hrow]
        cases hsettled : settled? table entries type details.id.key with
        | none => exact hused
        | some id => exact hused.trans (settled?_of_row hkey hrow hsettled).symm
    · obtain rfl := Option.some.inj (hbyId.symm.trans hbyId')
      rw [hcached] at hmiss
      cases hmiss
  | none =>
    rw [h.miss type _ hcached, Option.getD_none]
    have hsettle := h.settle hbyId hcached
    cases hone : table.findOneBy details.id.given? type with
    | some row =>
      have hlookedUp : lookedUp table type details = row.details := by rw [lookedUp, hone]
      rw [hlookedUp] at hsettle ⊢
      exact ⟨rfl, hsettle (by rw [isSettled, hone]; rfl)⟩
    | none =>
      match hrows : table.findBy details.name type with
      | [row] =>
        have hlookedUp : lookedUp table type details = row.details := by rw [lookedUp, hone, hrows]
        have hunsettled : isSettled table type details = false := by rw [isSettled, hone, hrows]; rfl
        rw [hlookedUp]
        refine ⟨rfl, Cached.append (h.setById (Or.inr ?_)) fun details' hbyId' _ => ?_⟩
        · obtain ⟨hmem, htype⟩ := mem_findBy (hrows ▸ List.mem_singleton_self row)
          obtain ⟨found, hfound⟩ := findOneBy_of_mem hmem
          rw [htype] at hfound
          refine ⟨htable row hmem, found, hfound, ?_⟩
          rw [usedId_details, usedId_details, findOneBy_id hfound]
        · obtain rfl := Option.some.inj (hbyId.symm.trans hbyId')
          exact hunsettled
      | [] =>
        have hlookedUp : lookedUp table type details = details := by rw [lookedUp, hone, hrows]
        rw [hlookedUp] at hsettle ⊢
        exact ⟨rfl, hsettle (by rw [isSettled, hone, hrows]; rfl)⟩
      | row :: row' :: rows =>
        have hlookedUp : lookedUp table type details = details := by rw [lookedUp, hone, hrows]
        rw [hlookedUp] at hsettle ⊢
        exact ⟨rfl, hsettle (by simp [isSettled, hone, hrows])⟩

/-- A reference is looked up. -/
theorem Cached.replaceCredential (h : Cached table entries caches)
    (htable : ∀ row ∈ table, row.id ≠ "undefined") (type : String) (credential : NodeCredential) :
    (replaceCredential table type credential caches).1.usedId =
        standsFor table entries type credential ∧
      Cached table (entries ++ [(type, credential)])
        (replaceCredential table type credential caches).2 := by
  match credential with
  | .old name =>
    obtain ⟨hused, hcached⟩ := h.replaceByName name (.old name) rfl
    exact ⟨hused, hcached.append nofun⟩
  | .details ⟨.null, name⟩ =>
    obtain ⟨hused, hcached⟩ := h.replaceByName name (.details ⟨.null, name⟩) rfl
    exact ⟨hused, hcached.append nofun⟩
  | .details ⟨.missing, name⟩ => exact h.replaceById htable rfl
  | .details ⟨.given id, name⟩ => exact h.replaceById htable rfl

/-- A reference to a credential of its type stays what it is, and later ones do not notice. -/
theorem Cached.replaceCredential_of_row (h : Cached table entries caches)
    (htable : ∀ row ∈ table, row.id ≠ "undefined") (hrow : row ∈ table) (htype : row.type = type) :
    (N8n.replaceCredential table type (.details ⟨.given row.id, name⟩) caches).1.usedId =
        row.details.usedId ∧
      Cached table entries
        (N8n.replaceCredential table type (.details ⟨.given row.id, name⟩) caches).2 := by
  obtain ⟨found, hfound⟩ := findOneBy_of_mem hrow
  rw [htype] at hfound
  have hused : found.details.usedId = row.details.usedId := by
    rw [usedId_details, usedId_details, findOneBy_id hfound]
  refine ⟨?_, ?_⟩
  · have hstands : standsFor table entries type (.details ⟨.given row.id, name⟩) =
        (settled? table entries type row.id).getD
          (lookedUp table type ⟨.given row.id, name⟩).usedId := rfl
    have hnull : (⟨.given row.id, name⟩ : INodeCredentialsDetails).id ≠ .null := nofun
    rw [(h.replaceCredential htable type _).1, hstands,
      lookedUp_of_row (htable row hrow) hnull rfl hfound]
    cases hsettled : settled? table entries type row.id with
    | none => exact hused
    | some id => exact (settled?_of_row (htable row hrow) hfound hsettled).trans hused
  · have hcaches : (N8n.replaceCredential table type (.details ⟨.given row.id, name⟩) caches).2 =
        match caches.byId.get? (type, row.id) with
        | some _ => caches
        | none => { caches with byId := caches.byId.set (type, row.id) found.details } := by
      simp only [N8n.replaceCredential, N8n.replaceById, CredentialId.key, CredentialId.given?,
        hfound]
      cases caches.byId.get? (type, row.id) <;> rfl
    rw [hcaches]
    split
    · exact h
    · exact h.setById (Or.inr ⟨htable row hrow, found, hfound, rfl⟩)

end Cached

end N8n
