import N8n.Foundations.DecimalOrder
import N8n.Webhooks.PathSegments
import N8n.Webhooks.WebhookCache

/-!
# The URL of a webhook

`getNodeWebhookUrl` shows a URL for a webhook, `getNodeWebhooks` and `addWebhooks` decide under
which path and id it is stored, and `toKey` under which key it is registered for a test. Each of
them looks for itself whether the path has parameters and whether the id stands in front of it.
-/

namespace N8n.Webhooks

/-- An optional text that is there and not empty. -/
def truthy (o : Option String) : Bool := o.getD "" ≠ ""

structure WebhookNode where
  name : String
  disabled : Bool
  webhookId : Option String
  deriving DecidableEq, Repr

/-- What the type of a node says about a webhook of it, with the expressions evaluated. -/
structure WebhookDescription where
  path : Option String
  isFullPath : Bool
  restartWebhook : Bool
  httpMethod : Option (List HttpMethod)
  deriving DecidableEq, Repr

structure WebhookData where
  httpMethod : HttpMethod
  node : String
  path : String
  workflowId : String
  webhookId : Option String
  deriving DecidableEq, Repr

section
-- `encodeURIComponent` of a name in lower case
variable (encodedName : String → String)

def getNodeWebhookPath (workflowId : String) (node : WebhookNode) (path : String)
    (isFullPath restartWebhook : Bool) : String :=
  if restartWebhook then path
  else
    match node.webhookId with
    | none => workflowId ++ "/" ++ encodedName node.name ++ "/" ++ path
    | some webhookId => if isFullPath then path else webhookId ++ "/" ++ path

def getNodeWebhookUrl (baseUrl workflowId : String) (node : WebhookNode) (path : String)
    (isFullPath : Bool) : String :=
  -- a path with parameters is shown behind the id
  let isFullPath := if hasColonSegment path && truthy node.webhookId then false else isFullPath
  let path := removeLeadingSlash path
  baseUrl ++ "/" ++ getNodeWebhookPath encodedName workflowId node path isFullPath false

def isDynamicPath (rawPath : String) : Bool :=
  let path := afterFirstSlash rawPath
  if path = "" || path = ":" || path = "/:" then false else hasColonSegment path

def getNodeWebhooks (workflowId : String) (node : WebhookNode)
    (descriptions : List WebhookDescription) (ignoreRestartWebhooks : Bool) : List WebhookData :=
  if node.disabled then []
  else
    descriptions.flatMap fun webhookDescription =>
      if ignoreRestartWebhooks && webhookDescription.restartWebhook then []
      else
        match webhookDescription.path, webhookDescription.httpMethod with
        | some nodeWebhookPath, some webhookMethods =>
          let path := getNodeWebhookPath encodedName workflowId node
            (removeTrailingSlash (removeLeadingSlash nodeWebhookPath))
            webhookDescription.isFullPath webhookDescription.restartWebhook
          let webhookId :=
            if isDynamicPath path && truthy node.webhookId then node.webhookId else none
          webhookMethods.map fun httpMethod => ⟨httpMethod, node.name, path, workflowId, webhookId⟩
        | _, _ => []

end

/-! ### Production -/

/-- The row that is made for a webhook. -/
def createWebhook (node : WebhookNode) (data : WebhookData) : WebhookEntity :=
  let webhookPath := removeTrailingSlash (removeLeadingSlash data.path)
  let isDynamic := hasColonSegment data.path && truthy node.webhookId
  { workflowId := data.workflowId
    webhookPath := webhookPath
    method := data.httpMethod
    node := node.name
    webhookId := if isDynamic then node.webhookId else none
    pathLength := if isDynamic then some (split webhookPath).length else none }

namespace WebhookService
variable (s : WebhookService)

/-- `storeWebhook`, waited for. -/
def stored (webhook : WebhookEntity) : WebhookService :=
  (s.next (.storeWebhook webhook)).access (.upsert webhook)

/-- Static webhooks are put into the cache. -/
def populateCache : WebhookService :=
  (s.rows.values.filter (·.webhookId.isNone)).foldl
    (fun s webhook => s.issue (.set webhook.cacheKey webhook)) s

def addWebhooks (getNode : String → WebhookNode) (webhooks : List WebhookData) : WebhookService :=
  (webhooks.foldl (fun s data => s.stored (createWebhook (getNode data.node) data)) s).populateCache

/-- The pending writes are performed. -/
def performAll : WebhookService := s.writes.foldl perform s

end WebhookService

/-! ### Tests -/

def toKey (httpMethod : HttpMethod) (path : String) (webhookId : Option String) : String :=
  match webhookId with
  | none => httpMethod.text ++ "|" ++ path
  | some webhookId =>
    if webhookId = "" then httpMethod.text ++ "|" ++ path
    else
      let path := if startsWith path webhookId then afterFirstSlash path else path
      httpMethod.text ++ "|" ++ webhookId ++ "|" ++ (split path).length.repr

/-- The registered webhooks by their keys. -/
abbrev TestWebhookRegistrations := OrderedMap String WebhookData

namespace TestWebhookRegistrations
variable (registrations : TestWebhookRegistrations)

def register (webhook : WebhookData) : TestWebhookRegistrations :=
  registrations.set (toKey webhook.httpMethod webhook.path webhook.webhookId) webhook

/-- What `needsWebhook` registers. -/
def needsWebhook (webhooks : List WebhookData) : TestWebhookRegistrations :=
  webhooks.foldl (fun registrations webhook =>
    register registrations { webhook with path := removeTrailingSlash webhook.path }) registrations

def getActiveWebhook (httpMethod : HttpMethod) (path : String) (webhookId : Option String) :
    Option WebhookData :=
  match registrations.get? (toKey httpMethod path webhookId) with
  | none => none
  | some dynamicWebhook =>
    let staticElements := (split dynamicWebhook.path).filter fun ele => !startsWithColon ele
    let allStaticExist := staticElements.all fun staticEle => (split path).contains staticEle
    if allStaticExist && 0 < staticElements.length then some dynamicWebhook
    else if staticElements.length = 0 then some dynamicWebhook
    else none

/-- The webhook that `executeWebhook` takes: one without an id, or else the one of the id that
stands in front. -/
def webhookOfRequest (httpMethod : HttpMethod) (requestPath : String) : Option WebhookData :=
  let path := removeTrailingSlash requestPath
  match getActiveWebhook registrations httpMethod path none with
  | some webhook => some webhook
  | none =>
    getActiveWebhook registrations httpMethod (join (otherSegments path)) (some (uuidSegment path))

end TestWebhookRegistrations

/-! ### The path that is shown -/

/-- The path of a webhook, with a parameter in it. -/
structure PathTemplate where
  first : Segment
  rest : List Segment
  parameter : ∃ s ∈ first :: rest, s.isParameter

namespace PathTemplate
variable (t : PathTemplate) (values : ℕ → Segment)

def segments : List Segment := t.first :: t.rest

def path : String := pathOf t.segments

def fillSegment (values : ℕ → Segment) (i : ℕ) (s : Segment) : Segment :=
  if s.isParameter then values i else s

/-- Each parameter is replaced by the value for its place. -/
def filled : List Segment := t.segments.mapIdx (fillSegment values)

end PathTemplate

/-- The only webhook of a node with an id, under a path that is taken as it is. -/
structure FullPathWebhook where
  workflowId : String
  nodeName : String
  webhookId : String
  hasId : webhookId ≠ ""
  httpMethod : HttpMethod
  template : PathTemplate

namespace FullPathWebhook
variable (encodedName : String → String) (x : FullPathWebhook) (values : ℕ → Segment)

def node : WebhookNode := ⟨x.nodeName, false, some x.webhookId⟩

def webhookDescription : WebhookDescription :=
  ⟨some x.template.path, true, false, some [x.httpMethod]⟩

def webhooks : List WebhookData :=
  getNodeWebhooks encodedName x.workflowId x.node [x.webhookDescription] true

/-- The path of these segments behind the id. -/
def pathWith (segments : List Segment) : String := x.webhookId ++ "/" ++ pathOf segments

/-- The shown path with its parameters replaced. -/
def requestPath : String := x.pathWith (x.template.filled values)

/-- The webhook is in the table, and the write to the cache is pending. -/
def activated : WebhookService :=
  (WebhookService.initial []).addWebhooks (fun _ => x.node) (x.webhooks encodedName)

def registrations : TestWebhookRegistrations :=
  TestWebhookRegistrations.needsWebhook .empty (x.webhooks encodedName)

/-- The URL is the one that the request goes to, and the request gets the webhook, in production
before and after the writes to the cache as in a test. -/
def AnswersAsShown : Prop :=
  ∃ webhook, x.webhooks encodedName = [webhook] ∧
    (∀ baseUrl, getNodeWebhookUrl encodedName baseUrl x.workflowId x.node x.template.path true =
      baseUrl ++ "/" ++ x.pathWith x.template.segments) ∧
    (x.activated encodedName).lookup x.httpMethod (x.requestPath values) =
      some (createWebhook x.node webhook) ∧
    (x.activated encodedName).performAll.lookup x.httpMethod (x.requestPath values) =
      some (createWebhook x.node webhook) ∧
    (x.registrations encodedName).webhookOfRequest x.httpMethod (x.requestPath values) =
      some webhook

/-- The id has no slash in it; and where there are more segments than one, one after the first
opens with a colon, and the id opens the first segment as it is and as it is requested, or
neither of them. -/
structure IdRecognized : Prop where
  plainId : '/' ∉ x.webhookId.toList
  isDynamic : x.template.rest = [] ∨
    x.template.rest.map (·.text) ≠ [":"] ∧ ∃ s ∈ x.template.rest, s.opensWithColon
  first : x.template.rest = [] ∨ (startsWith x.template.first.text x.webhookId =
    startsWith (PathTemplate.fillSegment values 0 x.template.first).text x.webhookId)

/-! ### What is stored and registered -/

theorem truthy_webhookId : truthy (some x.webhookId) = true := decide_eq_true x.hasId

theorem hasColonSegment_path : hasColonSegment x.template.path = true := by
  obtain ⟨s, hs, hparameter⟩ := x.template.parameter
  rw [PathTemplate.path, PathTemplate.segments, hasColonSegment_pathOf, List.any_eq_true]
  exact ⟨s, hs, (Bool.and_eq_true_iff.mp hparameter).1⟩

theorem removeLeadingSlash_path : removeLeadingSlash x.template.path = x.template.path :=
  removeLeadingSlash_pathOf _ _

theorem removeTrailingSlash_path : removeTrailingSlash x.template.path = x.template.path :=
  removeTrailingSlash_pathOf _ _

theorem getNodeWebhookUrl_eq (baseUrl : String) :
    getNodeWebhookUrl encodedName baseUrl x.workflowId x.node x.template.path true =
      baseUrl ++ "/" ++ x.pathWith x.template.segments := by
  simp only [getNodeWebhookUrl, getNodeWebhookPath, node, truthy_webhookId,
    x.hasColonSegment_path, x.removeLeadingSlash_path, Bool.and_self, if_true,
    Bool.false_eq_true, if_false]
  rfl

/-- The webhook of the node, with its id when the path counts as dynamic. -/
def webhook : WebhookData :=
  ⟨x.httpMethod, x.nodeName, x.template.path, x.workflowId,
    if isDynamicPath x.template.path then some x.webhookId else none⟩

theorem webhooks_eq : x.webhooks encodedName = [x.webhook] := by
  simp only [webhooks, getNodeWebhooks, webhookDescription, node, getNodeWebhookPath,
    truthy_webhookId, x.removeLeadingSlash_path, x.removeTrailingSlash_path, Bool.and_true,
    if_true, Bool.false_eq_true, if_false, List.flatMap_cons, List.flatMap_nil,
    List.append_nil, List.map_cons, List.map_nil, Bool.and_false, webhook]

def row : WebhookEntity :=
  ⟨x.workflowId, x.template.path, x.httpMethod, x.nodeName, some x.webhookId,
    some x.template.segments.length⟩

theorem createWebhook_eq : createWebhook x.node x.webhook = x.row := by
  have hsplit : (split x.template.path).length = x.template.segments.length :=
    length_split_pathOf (List.cons_ne_nil _ _)
  simp only [createWebhook, webhook, node, x.removeLeadingSlash_path,
    x.removeTrailingSlash_path, truthy_webhookId, x.hasColonSegment_path, Bool.and_self,
    if_true, hsplit, row]

theorem activated_eq : x.activated encodedName =
    { cache := .empty
      rows := OrderedMap.set .empty x.row.rowKey x.row
      calls := []
      writes := [.set x.row.cacheKey x.row]
      found := [] } := by
  rw [activated, webhooks_eq, WebhookService.addWebhooks, List.foldl_cons, List.foldl_nil,
    createWebhook_eq]
  have hstored : (WebhookService.initial []).stored x.row =
      { cache := .empty
        rows := OrderedMap.set .empty x.row.rowKey x.row
        calls := [WebhookCall.upsert x.row].erase (.upsert x.row)
        writes := [.set x.row.cacheKey x.row]
        found := [] } := rfl
  -- the row has an id, and `populateCache` takes those without
  have hstatic : (OrderedMap.set .empty x.row.rowKey x.row).values.filter (·.webhookId.isNone) =
      [] := rfl
  rw [hstored, List.erase_cons_head, WebhookService.populateCache, hstatic, List.foldl_nil]

theorem registrations_eq : x.registrations encodedName =
    OrderedMap.set .empty (toKey x.httpMethod x.template.path x.webhook.webhookId) x.webhook := by
  rw [registrations, webhooks_eq]
  simp only [TestWebhookRegistrations.needsWebhook, List.foldl_cons, List.foldl_nil,
    TestWebhookRegistrations.register, webhook, x.removeTrailingSlash_path]

/-! ### Production -/

theorem filled_eq : x.template.filled values =
    PathTemplate.fillSegment values 0 x.template.first ::
      x.template.rest.mapIdx fun i => PathTemplate.fillSegment values (i + 1) := by
  rw [PathTemplate.filled, PathTemplate.segments, List.mapIdx_cons]

theorem length_filled : (x.template.filled values).length = x.template.segments.length :=
  List.length_mapIdx

theorem filled_ne_nil : x.template.filled values ≠ [] := by
  rw [filled_eq]
  exact List.cons_ne_nil _ _

/-- A segment that does not open with a colon is requested as it is. -/
theorem mem_filled {s : Segment} (hs : s ∈ x.template.segments)
    (hstatic : s.opensWithColon = false) : s ∈ x.template.filled values := by
  obtain ⟨i, hi, rfl⟩ := List.mem_iff_getElem.mp hs
  refine List.mem_mapIdx.mpr ⟨i, hi, ?_⟩
  rw [PathTemplate.fillSegment, Segment.isParameter, hstatic]
  rfl

theorem toList_pathWith (segments : List Segment) : (x.pathWith segments).toList =
    x.webhookId.toList ++ '/' :: (pathOf segments).toList := by
  rw [pathWith, String.toList_append, String.toList_append, List.append_assoc]
  rfl

/-- The path of the request has one slash more at least than that of the webhook. -/
theorem requestPath_ne_path : x.requestPath values ≠ x.template.path := by
  intro h
  have hcount := congrArg (fun path : String => path.toList.count '/') h
  have hlength := x.length_filled values
  simp only [requestPath, toList_pathWith, filled_eq, List.count_append, List.count_cons_self,
    count_slash_pathOf, PathTemplate.path, PathTemplate.segments, List.length_mapIdx] at hcount
  omega

theorem split_requestPath (hplain : '/' ∉ x.webhookId.toList) :
    split (x.requestPath values) = x.webhookId :: (x.template.filled values).map (·.text) := by
  rw [split, requestPath, toList_pathWith, List.splitOn_append_cons_self_of_not_mem hplain,
    List.map_cons, String.ofList_toList]
  exact congrArg _ (split_pathOf (x.filled_ne_nil values))

theorem uuidSegment_requestPath (hplain : '/' ∉ x.webhookId.toList) :
    uuidSegment (x.requestPath values) = x.webhookId := by
  rw [uuidSegment, x.split_requestPath values hplain, List.headD_cons]

theorem otherSegments_requestPath (hplain : '/' ∉ x.webhookId.toList) :
    otherSegments (x.requestPath values) = (x.template.filled values).map (·.text) := by
  rw [otherSegments, x.split_requestPath values hplain, List.tail_cons]

/-- What stands before the first slash of the request is not the id when that has a slash. -/
theorem plainId_of_uuidSegment (h : uuidSegment (x.requestPath values) = x.webhookId) :
    '/' ∉ x.webhookId.toList := by
  intro hslash
  obtain ⟨front, back, hid, hfront⟩ := List.eq_append_cons_of_mem hslash
  have hpath : (x.requestPath values).toList =
      front ++ '/' :: (back ++ '/' :: (pathOf (x.template.filled values)).toList) := by
    rw [requestPath, toList_pathWith, hid, List.append_assoc, List.cons_append]
  rw [uuidSegment, split, hpath, List.splitOn_append_cons_self_of_not_mem hfront, List.map_cons,
    List.headD_cons] at h
  rw [← h, String.toList_ofList] at hslash
  exact hfront hslash

/-- The static segments of the webhook are among those of the request. -/
theorem static_mem_filled {text : String} (htext : text ∈ split x.template.path)
    (hstatic : startsWithColon text = false) :
    text ∈ (x.template.filled values).map (·.text) := by
  rw [PathTemplate.path, PathTemplate.segments, split_pathOf (List.cons_ne_nil _ _)] at htext
  obtain ⟨s, hs, rfl⟩ := List.mem_map.mp htext
  exact List.mem_map_of_mem (x.mem_filled values hs hstatic)

theorem findDynamicWebhook_row (hplain : '/' ∉ x.webhookId.toList) :
    findDynamicWebhook [x.row] x.httpMethod (x.requestPath values) = some x.row := by
  have hlength : (otherSegments (x.requestPath values)).length = x.template.segments.length := by
    rw [x.otherSegments_requestPath values hplain, List.length_map, x.length_filled values]
  have hfound : findBy [x.row] x.webhookId x.httpMethod x.template.segments.length = [x.row] :=
    List.filter_cons_of_pos (decide_eq_true ⟨rfl, rfl, rfl⟩)
  have hmatch : allStaticSegmentsMatch (otherSegments (x.requestPath values)) x.row = true := by
    refine List.all_eq_true.mpr fun text htext => ?_
    obtain ⟨htext, hstatic⟩ := List.mem_filter.mp htext
    rw [x.otherSegments_requestPath values hplain, List.contains_iff_mem]
    exact x.static_mem_filled values htext (by simpa using hstatic)
  rw [findDynamicWebhook_eq, hlength, x.uuidSegment_requestPath values hplain, hfound,
    List.filter_cons_of_pos hmatch, List.filter_nil, List.argmax_singleton]

theorem plainId_of_findDynamicWebhook {webhook : WebhookEntity}
    (h : findDynamicWebhook [x.row] x.httpMethod (x.requestPath values) = some webhook) :
    '/' ∉ x.webhookId.toList := by
  rw [findDynamicWebhook_eq] at h
  have hmem := List.mem_of_mem_filter (List.argmax_mem h)
  obtain ⟨hrow, hfits⟩ := List.mem_filter.mp hmem
  obtain rfl := List.mem_singleton.mp hrow
  have hid := (of_decide_eq_true hfits).1
  exact x.plainId_of_uuidSegment values (Option.some.inj hid).symm

theorem lookup_row (s : WebhookService) (hrows : s.rows = OrderedMap.set .empty x.row.rowKey x.row)
    (hcache : s.cache.get? (cacheKeyOf x.httpMethod (x.requestPath values)) = none) :
    s.lookup x.httpMethod (x.requestPath values) =
      findDynamicWebhook [x.row] x.httpMethod (x.requestPath values) := by
  have hstatic : s.findStaticWebhook x.httpMethod (x.requestPath values) = none := by
    rw [WebhookService.findStaticWebhook, hrows]
    refine (OrderedMap.get?_set_of_ne ?_).trans rfl
    exact fun h => x.requestPath_ne_path values (Prod.mk.inj h).2.symm
  rw [WebhookService.lookup, hcache, hstatic]
  dsimp only
  rw [hrows]
  rfl

theorem lookup_activated : (x.activated encodedName).lookup x.httpMethod (x.requestPath values) =
    findDynamicWebhook [x.row] x.httpMethod (x.requestPath values) := by
  rw [activated_eq]
  exact x.lookup_row values _ rfl rfl

theorem lookup_performAll (h : findDynamicWebhook [x.row] x.httpMethod (x.requestPath values) =
      some x.row) :
    (x.activated encodedName).performAll.lookup x.httpMethod (x.requestPath values) =
      some x.row := by
  have hcache : (x.activated encodedName).performAll.cache =
      OrderedMap.set .empty x.row.cacheKey x.row := by
    rw [activated_eq]
    rfl
  have hrows : (x.activated encodedName).performAll.rows =
      OrderedMap.set .empty x.row.rowKey x.row := by
    rw [activated_eq]
    rfl
  by_cases hkey : x.row.cacheKey = cacheKeyOf x.httpMethod (x.requestPath values)
  · rw [WebhookService.lookup, hcache, hkey, OrderedMap.get?_set_self]
  · rw [x.lookup_row values _ hrows, h]
    rw [hcache]
    exact (OrderedMap.get?_set_of_ne hkey).trans rfl

/-! ### Tests -/

/-- The path after the first slash is that of these segments. -/
theorem isDynamicPath_iff {path : String} {s : Segment} {rest : List Segment}
    (h : afterFirstSlash path = pathOf (s :: rest)) : isDynamicPath path = true ↔
      (s :: rest).map (·.text) ≠ [":"] ∧ ∃ s' ∈ s :: rest, s'.opensWithColon := by
  have hempty : pathOf (s :: rest) ≠ "" := fun he =>
    toList_pathOf_ne_nil s rest (congrArg String.toList he)
  have hslash : pathOf (s :: rest) ≠ "/:" := fun he =>
    head?_pathOf s rest (congrArg (fun path : String => path.toList.head?) he)
  have hcolon : pathOf (s :: rest) = ":" ↔ (s :: rest).map (·.text) = [":"] := by
    constructor
    · intro he
      rw [← split_pathOf (List.cons_ne_nil s rest), he]
      decide
    · intro he
      rw [pathOf, he, join, String.intercalate_singleton]
  have hany : hasColonSegment (pathOf (s :: rest)) = true ↔
      ∃ s' ∈ s :: rest, s'.opensWithColon := by
    rw [hasColonSegment_pathOf, List.any_eq_true]
  rw [isDynamicPath, h, ← hany]
  by_cases hsingle : (s :: rest).map (·.text) = [":"]
  · simp [hcolon.mpr hsingle, hsingle]
  · rw [if_neg (by simp only [hempty, hslash, mt hcolon.mp hsingle, decide_false, Bool.or_self,
      Bool.false_eq_true, not_false_eq_true]), and_iff_right hsingle]

theorem isDynamicPath_path : isDynamicPath x.template.path = true ↔
    x.template.rest = [] ∨
      x.template.rest.map (·.text) ≠ [":"] ∧ ∃ s ∈ x.template.rest, s.opensWithColon := by
  have hparameter := x.template.parameter
  rw [PathTemplate.path, PathTemplate.segments]
  cases hrest : x.template.rest with
  | nil =>
    rw [hrest] at hparameter
    obtain ⟨s, hs, hs'⟩ := hparameter
    obtain ⟨hopens, hname⟩ := Bool.and_eq_true_iff.mp hs'
    obtain rfl := List.mem_singleton.mp hs
    rw [isDynamicPath_iff (afterFirstSlash_pathOf_singleton x.template.first)]
    refine iff_of_true ⟨fun h => ?_, x.template.first, List.mem_cons_self, hopens⟩ (Or.inl rfl)
    exact of_decide_eq_true hname (List.head_eq_of_cons_eq h)
  | cons s rest =>
    rw [isDynamicPath_iff (afterFirstSlash_pathOf_cons x.template.first s rest)]
    rw [or_iff_right (List.cons_ne_nil s rest)]

theorem getActiveWebhook_eq (path : String) (webhookId : Option String)
    (hstatic : ∀ text ∈ split x.template.path, startsWithColon text = false → text ∈ split path) :
    (x.registrations encodedName).getActiveWebhook x.httpMethod path webhookId =
      if toKey x.httpMethod x.template.path x.webhook.webhookId = toKey x.httpMethod path webhookId
      then some x.webhook else none := by
  rw [TestWebhookRegistrations.getActiveWebhook, registrations_eq, OrderedMap.get?_set]
  split_ifs with hkey
  · have hall : (((split x.template.path).filter fun ele => !startsWithColon ele).all
        fun staticEle => (split path).contains staticEle) = true := by
      refine List.all_eq_true.mpr fun text htext => ?_
      obtain ⟨htext, hopens⟩ := List.mem_filter.mp htext
      rw [List.contains_iff_mem]
      exact hstatic text htext (by simpa using hopens)
    have hpath : x.webhook.path = x.template.path := rfl
    dsimp only
    rw [hpath, hall, Bool.true_and]
    by_cases hpos : 0 < ((split x.template.path).filter fun ele => !startsWithColon ele).length
    · rw [if_pos (decide_eq_true hpos)]
    · rw [if_pos (Nat.eq_zero_of_not_pos hpos), ite_self]
  · rfl

theorem repr_inj {m n : ℕ} : m.repr = n.repr ↔ m = n := by
  refine ⟨fun h => DecimalOrder.toDigits_injective ?_, congrArg Nat.repr⟩
  rw [← Nat.toList_repr, ← Nat.toList_repr, h]

/-- The number of segments that the key of a path has in it. -/
def keyLength (id : String) (s : Segment) : List Segment → ℕ
  | [] => 1
  | _ :: rest => if startsWith s.text id then rest.length + 1 else rest.length + 2

theorem toKey_pathOf (method : HttpMethod) (s : Segment) (rest : List Segment) {id : String}
    (hid : id ≠ "") (hplain : '/' ∉ id.toList) : toKey method (pathOf (s :: rest)) (some id) =
      method.text ++ "|" ++ id ++ "|" ++ (keyLength id s rest).repr := by
  rw [toKey]
  dsimp only
  rw [if_neg hid, startsWith_pathOf s rest hplain]
  congr 2
  cases rest with
  | nil =>
    rw [afterFirstSlash_pathOf_singleton, ite_self, length_split_pathOf (List.cons_ne_nil _ _)]
    rfl
  | cons s' rest =>
    rw [afterFirstSlash_pathOf_cons, keyLength]
    split_ifs
    · exact length_split_pathOf (List.cons_ne_nil _ _)
    · exact length_split_pathOf (List.cons_ne_nil _ _)

/-- The key of a request without an id goes on with a slash after the id. -/
theorem toKey_ne_requestPath : toKey x.httpMethod x.template.path x.webhook.webhookId ≠
    toKey x.httpMethod (x.requestPath values) none := by
  intro h
  simp only [webhook] at h
  split_ifs at h with hdynamic
  · simp only [toKey, if_neg x.hasId, requestPath, pathWith, String.append_assoc,
      String.append_right_inj] at h
    have hhead := congrArg (fun key : String => key.toList.head?) h
    simp only [String.toList_append] at hhead
    cases hhead
  · simp only [toKey, String.append_right_inj] at h
    exact x.requestPath_ne_path values h.symm

theorem slash_not_mem_repr (n : ℕ) : '/' ∉ n.repr.toList := by
  intro h
  rw [Nat.toList_repr] at h
  have hdigit := Nat.isDigit_of_mem_toDigits (by decide) (by decide) h
  cases hdigit

theorem toKey_eq_iff (hplain : '/' ∉ x.webhookId.toList) :
    toKey x.httpMethod x.template.path x.webhook.webhookId =
        toKey x.httpMethod (pathOf (x.template.filled values)) (some x.webhookId) ↔
      isDynamicPath x.template.path = true ∧
        (x.template.rest = [] ∨ startsWith x.template.first.text x.webhookId =
          startsWith (PathTemplate.fillSegment values 0 x.template.first).text x.webhookId) := by
  rw [filled_eq, toKey_pathOf _ _ _ x.hasId hplain]
  simp only [webhook]
  split_ifs with hdynamic
  · rw [and_iff_right hdynamic, PathTemplate.path, PathTemplate.segments,
      toKey_pathOf _ _ _ x.hasId hplain, String.append_right_inj, repr_inj]
    cases x.template.rest with
    | nil => exact iff_of_true rfl (Or.inl rfl)
    | cons s rest =>
      rw [List.mapIdx_cons, keyLength, keyLength, List.length_mapIdx,
        or_iff_right (List.cons_ne_nil s rest)]
      cases startsWith x.template.first.text x.webhookId <;>
        cases startsWith (PathTemplate.fillSegment values 0 x.template.first).text x.webhookId <;>
          simp
  · -- the path has a slash, and what follows the method in the key of the request has none
    refine iff_of_false (fun h => ?_) fun h => hdynamic h.1
    have hrest : x.template.rest ≠ [] := fun hnil =>
      hdynamic (x.isDynamicPath_path.mpr (Or.inl hnil))
    simp only [toKey, String.append_assoc, String.append_right_inj] at h
    have hcount := congrArg (fun path : String => path.toList.count '/') h
    simp only [PathTemplate.path, PathTemplate.segments, count_slash_pathOf, String.toList_append,
      List.count_append, List.count_eq_zero.mpr hplain,
      List.count_eq_zero.mpr (slash_not_mem_repr _)] at hcount
    exact hrest (List.eq_nil_of_length_eq_zero hcount)

theorem webhookOfRequest_eq (hplain : '/' ∉ x.webhookId.toList) :
    (x.registrations encodedName).webhookOfRequest x.httpMethod (x.requestPath values) =
      if toKey x.httpMethod x.template.path x.webhook.webhookId =
        toKey x.httpMethod (pathOf (x.template.filled values)) (some x.webhookId)
      then some x.webhook else none := by
  have htrailing : removeTrailingSlash (x.requestPath values) = x.requestPath values := by
    refine if_neg ?_
    have hlast := getLast?_pathOf (PathTemplate.fillSegment values 0 x.template.first)
      (x.template.rest.mapIdx fun i => PathTemplate.fillSegment values (i + 1))
    rw [requestPath, toList_pathWith, filled_eq, List.getLast?_append_cons,
      List.getLast?_cons_of_ne_nil (toList_pathOf_ne_nil _ _)]
    exact hlast
  have hnoId : (x.registrations encodedName).getActiveWebhook x.httpMethod (x.requestPath values)
      none = none := by
    rw [getActiveWebhook_eq, if_neg (x.toKey_ne_requestPath values)]
    intro text htext hstatic
    rw [x.split_requestPath values hplain]
    exact List.mem_cons_of_mem _ (x.static_mem_filled values htext hstatic)
  rw [TestWebhookRegistrations.webhookOfRequest, htrailing, hnoId,
    x.uuidSegment_requestPath values hplain, x.otherSegments_requestPath values hplain]
  dsimp only
  refine getActiveWebhook_eq encodedName x _ _ fun text htext hstatic => ?_
  change text ∈ split (pathOf _)
  rw [split_pathOf (x.filled_ne_nil values)]
  exact x.static_mem_filled values htext hstatic

theorem answersAsShown_iff_idRecognized :
    x.AnswersAsShown encodedName values ↔ x.IdRecognized values := by
  have hfound : ∀ {webhook}, (x.activated encodedName).lookup x.httpMethod
      (x.requestPath values) = some webhook → '/' ∉ x.webhookId.toList := by
    intro webhook h
    rw [lookup_activated] at h
    exact x.plainId_of_findDynamicWebhook values h
  constructor
  · rintro ⟨webhook, hwebhooks, _, hlookup, _, htest⟩
    have hplain := hfound hlookup
    rw [x.webhookOfRequest_eq encodedName values hplain] at htest
    have hkey := (Option.ite_none_right_eq_some.mp htest).1
    obtain ⟨hdynamic, hfirst⟩ := (x.toKey_eq_iff values hplain).mp hkey
    exact ⟨hplain, x.isDynamicPath_path.mp hdynamic, hfirst⟩
  · rintro ⟨hplain, hdynamic, hfirst⟩
    have hrow := x.findDynamicWebhook_row values hplain
    have hkey := (x.toKey_eq_iff values hplain).mpr ⟨x.isDynamicPath_path.mpr hdynamic, hfirst⟩
    refine ⟨x.webhook, x.webhooks_eq encodedName, x.getNodeWebhookUrl_eq encodedName, ?_, ?_, ?_⟩
    · rw [createWebhook_eq, lookup_activated, hrow]
    · rw [createWebhook_eq, x.lookup_performAll encodedName values hrow]
    · rw [x.webhookOfRequest_eq encodedName values hplain, if_pos hkey]

section Example

def userSegment : Segment := ⟨":user", by decide, by decide⟩

def filesSegment : Segment := ⟨"files", by decide, by decide⟩

/-- The only parameter is the first of two segments. -/
def userFiles : FullPathWebhook where
  workflowId := "1"
  nodeName := "Webhook"
  webhookId := "a7"
  hasId := by decide
  httpMethod := .GET
  template := ⟨userSegment, [filesSegment], userSegment, List.mem_cons_self, by decide⟩

def ada : Segment := ⟨"ada", by decide, by decide⟩

theorem userFiles_not_answersAsShown : ¬ userFiles.AnswersAsShown id fun _ => ada := by
  rintro ⟨webhook, _, _, _, _, htest⟩
  have hnone : (userFiles.registrations id).webhookOfRequest .GET "a7/ada/files" = none := by
    decide
  have hpath : userFiles.requestPath (fun _ => ada) = "a7/ada/files" := by decide
  rw [hpath] at htest
  cases hnone.symm.trans htest

end Example

end FullPathWebhook

end N8n.Webhooks
