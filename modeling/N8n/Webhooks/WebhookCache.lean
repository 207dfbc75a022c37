import N8n.Foundations.OrderedMap
import N8n.Foundations.Runs
import N8n.Webhooks.DynamicWebhooks

/-!
# The cache of webhooks

A lookup asks the cache first, then the table for a webhook with just this path, which it
puts into the cache, and last for a dynamic webhook. What is written to the cache is not
waited for: a write is performed at any time after it was issued, and in any order with
others. Each access to the cache or to the table is one step.
-/

namespace N8n.Webhooks
open N8n.Runs

def HttpMethod.text : HttpMethod → String
  | .DELETE => "DELETE"
  | .GET => "GET"
  | .HEAD => "HEAD"
  | .PATCH => "PATCH"
  | .POST => "POST"
  | .PUT => "PUT"

/-- The key under which a lookup looks. -/
def cacheKeyOf (method : HttpMethod) (path : String) : String :=
  "webhook:" ++ method.text ++ "-" ++ path

namespace WebhookEntity
variable (w : WebhookEntity)

def uniquePath : String :=
  if w.webhookPath.toList.contains ':' then w.webhookId.getD "" ++ "/" ++ w.webhookPath
  else w.webhookPath

def cacheKey : String := cacheKeyOf w.method w.uniquePath

/-- The primary key of the row. -/
def rowKey : HttpMethod × String := (w.method, w.webhookPath)

end WebhookEntity

/-- A write to the cache that was issued and not performed yet. -/
inductive CacheWrite where
  | set (key : String) (webhook : WebhookEntity)
  | deleteMany (keys : List String)
  deriving DecidableEq, Repr

/-- A call, by the access that it waits for. -/
inductive WebhookCall where
  | getCached (method : HttpMethod) (path : String)
  | findStatic (method : HttpMethod) (path : String)
  | findDynamic (method : HttpMethod) (path : String)
  | upsert (webhook : WebhookEntity)
  | findByWorkflow (workflowId : String)
  | remove (webhooks : List WebhookEntity)
  deriving DecidableEq, Repr

structure WebhookService where
  cache : OrderedMap String WebhookEntity
  rows : OrderedMap (HttpMethod × String) WebhookEntity
  calls : List WebhookCall
  writes : List CacheWrite
  /-- What lookups have found. -/
  found : List (Option WebhookEntity)

namespace WebhookService
variable (s : WebhookService)

/-- A process that starts with the webhooks in the table. -/
def initial (webhooks : List WebhookEntity) : WebhookService :=
  { cache := .empty
    rows := OrderedMap.setAll WebhookEntity.rowKey .empty webhooks
    calls := []
    writes := []
    found := [] }

def findStaticWebhook (method : HttpMethod) (path : String) : Option WebhookEntity :=
  s.rows.get? (method, path)

def issue (write : CacheWrite) : WebhookService := { s with writes := s.writes ++ [write] }

/-- A call goes on to its next access. -/
def goOn (call : WebhookCall) (call' : WebhookCall) : WebhookService :=
  { s with calls := s.calls.erase call ++ [call'] }

def done (call : WebhookCall) : WebhookService := { s with calls := s.calls.erase call }

def answer (call : WebhookCall) (webhook : Option WebhookEntity) : WebhookService :=
  { s.done call with found := s.found ++ [webhook] }

/-- The access of a call is performed, and the call goes on. -/
def access (call : WebhookCall) : WebhookService :=
  match call with
  | .getCached method path =>
    match s.cache.get? (cacheKeyOf method path) with
    | some webhook => s.answer call (some webhook)
    | none => s.goOn call (.findStatic method path)
  | .findStatic method path =>
    match s.findStaticWebhook method path with
    | some webhook =>
      (s.issue (.set (cacheKeyOf method path) webhook)).answer call (some webhook)
    | none => s.goOn call (.findDynamic method path)
  | .findDynamic method path => s.answer call (findDynamicWebhook s.rows.values method path)
  | .upsert webhook => { s.done call with rows := s.rows.set webhook.rowKey webhook }
  | .findByWorkflow workflowId =>
    let webhooks := s.rows.values.filter (·.workflowId = workflowId)
    (s.issue (.deleteMany (webhooks.map (·.cacheKey)))).goOn call (.remove webhooks)
  | .remove webhooks =>
    { s.done call with rows := s.rows.filter fun key _ => key ∉ webhooks.map (·.rowKey) }

/-- A write to the cache is performed. -/
def perform (write : CacheWrite) : WebhookService :=
  let s := { s with writes := s.writes.erase write }
  match write with
  | .set key webhook => { s with cache := s.cache.set key webhook }
  | .deleteMany keys => { s with cache := s.cache.filter fun key _ => key ∉ keys }

inductive Event where
  | findWebhook (method : HttpMethod) (path : String)
  | storeWebhook (webhook : WebhookEntity)
  | deleteWorkflowWebhooks (workflowId : String)
  | access (call : WebhookCall)
  | perform (write : CacheWrite)

def Enabled : Event → Prop
  | .access call => call ∈ s.calls
  | .perform write => write ∈ s.writes
  | _ => True

def next : Event → WebhookService
  | .findWebhook method path => { s with calls := s.calls ++ [.getCached method path] }
  | .storeWebhook webhook =>
    { s.issue (.set webhook.cacheKey webhook) with calls := s.calls ++ [.upsert webhook] }
  | .deleteWorkflowWebhooks workflowId =>
    { s with calls := s.calls ++ [.findByWorkflow workflowId] }
  | .access call => s.access call
  | .perform write => s.perform write

def Step (s : WebhookService) (e : Event) (s' : WebhookService) : Prop :=
  s.Enabled e ∧ s' = s.next e

/-! ### Cached webhooks and their rows -/

def Stored (webhook : WebhookEntity) : Prop := s.rows.get? webhook.rowKey = some webhook

/-- What a lookup finds when nothing comes between. -/
def lookup (method : HttpMethod) (path : String) : Option WebhookEntity :=
  match s.cache.get? (cacheKeyOf method path) with
  | some webhook => some webhook
  | none =>
    match s.findStaticWebhook method path with
    | some webhook => some webhook
    | none => findDynamicWebhook s.rows.values method path

/-- With no call and no write pending every cached webhook is the row of its method and path,
and lookups find webhooks of the table only. -/
def CacheFresh : Prop :=
  s.calls = [] → s.writes = [] →
    (∀ key webhook, s.cache.get? key = some webhook → s.Stored webhook) ∧
    ∀ method path webhook, s.lookup method path = some webhook → s.Stored webhook

/-- The write will change what stands under the key. -/
def Covers (key : String) : CacheWrite → Prop
  | .set key' _ => key' = key
  | .deleteMany keys => key ∈ keys

/-- A webhook that is cached under the key will be stored, or will not stay there. -/
def Settling (calls : List WebhookCall) (writes : List CacheWrite) (key : String)
    (webhook : WebhookEntity) : Prop :=
  .upsert webhook ∈ calls ∨ ∃ write ∈ writes, Covers key write

/-- A webhook is put into the cache only while it is stored, or while its `upsert` or another
write under its key is pending; and while the row of a cached webhook is replaced or removed, a
write under its key is pending, or an `upsert` of it. -/
def NoneOvertaken (s : WebhookService) : Event → Prop
  | .perform (.set key webhook) =>
    s.Stored webhook ∨ Settling s.calls (s.writes.erase (.set key webhook)) key webhook
  | .access (.upsert webhook) =>
    ∀ key webhook', s.cache.get? key = some webhook' → s.Stored webhook' →
      webhook'.rowKey = webhook.rowKey → webhook' ≠ webhook →
        Settling s.calls s.writes key webhook'
  | .access (.remove webhooks) =>
    ∀ key webhook', s.cache.get? key = some webhook' → s.Stored webhook' →
      webhook'.rowKey ∈ webhooks.map (·.rowKey) → Settling s.calls s.writes key webhook'
  | _ => True

structure Coherent : Prop where
  keyed : s.rows.Keyed WebhookEntity.rowKey
  cached : ∀ key webhook, s.cache.get? key = some webhook →
    s.Stored webhook ∨ Settling s.calls s.writes key webhook

section Coherent
variable {s} {s' : WebhookService} {e : Event}

theorem Settling.mono {calls calls' : List WebhookCall} {writes writes' : List CacheWrite}
    {key : String} {webhook : WebhookEntity} (h : Settling calls writes key webhook)
    (hcalls : ∀ webhook, .upsert webhook ∈ calls → .upsert webhook ∈ calls')
    (hwrites : ∀ write ∈ writes, write ∈ writes') : Settling calls' writes' key webhook := by
  rcases h with hupsert | ⟨write, hmem, hcovers⟩
  · exact Or.inl (hcalls webhook hupsert)
  · exact Or.inr ⟨write, hwrites write hmem, hcovers⟩

theorem Coherent.stored_of_mem_values (h : s.Coherent) {webhook : WebhookEntity}
    (hmem : webhook ∈ s.rows.values) : s.Stored webhook := by
  obtain ⟨key, hkey⟩ := OrderedMap.mem_values.mp hmem
  obtain rfl := h.keyed key webhook hkey
  exact hkey

/-- A dynamic webhook that is found is one of the table. -/
theorem mem_of_findDynamicWebhook {stored : List WebhookEntity} {method : HttpMethod}
    {path : String} {webhook : WebhookEntity}
    (h : findDynamicWebhook stored method path = some webhook) : webhook ∈ stored := by
  rw [findDynamicWebhook_eq] at h
  exact List.mem_of_mem_filter (List.mem_of_mem_filter (List.argmax_mem h))

theorem Coherent.cacheFresh (h : s.Coherent) : s.CacheFresh := by
  intro hcalls hwrites
  have hcached : ∀ key webhook, s.cache.get? key = some webhook → s.Stored webhook := by
    intro key webhook hkey
    refine (h.cached key webhook hkey).resolve_right ?_
    rw [hcalls, hwrites]
    rintro (hupsert | ⟨write, hmem, _⟩)
    · cases hupsert
    · cases hmem
  refine ⟨hcached, ?_⟩
  intro method path webhook hlookup
  rw [lookup] at hlookup
  split at hlookup
  · rename_i webhook' hkey
    obtain rfl := Option.some.inj hlookup
    exact hcached _ _ hkey
  · split at hlookup
    · rename_i webhook' hrow
      obtain rfl := Option.some.inj hlookup
      exact h.stored_of_mem_values (OrderedMap.mem_values.mpr ⟨_, hrow⟩)
    · exact h.stored_of_mem_values (mem_of_findDynamicWebhook hlookup)

/-- Steps that leave the cache and the table as they are and take no `upsert` or write away. -/
theorem Coherent.mono (h : s.Coherent) (hcache : s'.cache = s.cache) (hrows : s'.rows = s.rows)
    (hcalls : ∀ webhook, .upsert webhook ∈ s.calls → .upsert webhook ∈ s'.calls)
    (hwrites : ∀ write ∈ s.writes, write ∈ s'.writes) : s'.Coherent := by
  refine ⟨hrows ▸ h.keyed, ?_⟩
  intro key webhook hkey
  rw [hcache] at hkey
  rw [Stored, hrows]
  exact (h.cached key webhook hkey).imp_right fun hsettling => hsettling.mono hcalls hwrites

theorem mem_erase_upsert {calls : List WebhookCall} (call : WebhookCall)
    (hcall : ∀ webhook, call ≠ .upsert webhook) (webhook : WebhookEntity)
    (hmem : .upsert webhook ∈ calls) : .upsert webhook ∈ calls.erase call :=
  (List.mem_erase_of_ne (hcall webhook).symm).mpr hmem

theorem Coherent.perform (h : s.Coherent) {write : CacheWrite}
    (hovertaken : s.NoneOvertaken (.perform write)) : (s.perform write).Coherent := by
  refine ⟨by cases write <;> exact h.keyed, ?_⟩
  cases write with
  | set key webhook =>
    intro key' webhook' hkey
    simp only [WebhookService.perform, OrderedMap.get?_set] at hkey
    split_ifs at hkey with hsame
    · obtain rfl := Option.some.inj hkey
      rw [← hsame]
      exact hovertaken
    · refine (h.cached key' webhook' hkey).imp_right ?_
      rintro (hupsert | ⟨write, hmem, hcovers⟩)
      · exact Or.inl hupsert
      · refine Or.inr ⟨write, (List.mem_erase_of_ne ?_).mpr hmem, hcovers⟩
        rintro rfl
        exact hsame hcovers
  | deleteMany keys =>
    intro key webhook hkey
    simp only [WebhookService.perform, OrderedMap.get?_filter_iff] at hkey
    obtain ⟨hkey, hleft⟩ := hkey
    refine (h.cached key webhook hkey).imp_right ?_
    rintro (hupsert | ⟨write, hmem, hcovers⟩)
    · exact Or.inl hupsert
    · refine Or.inr ⟨write, (List.mem_erase_of_ne ?_).mpr hmem, hcovers⟩
      rintro rfl
      exact of_decide_eq_true hleft hcovers

theorem Coherent.upsert (h : s.Coherent) {webhook : WebhookEntity}
    (hovertaken : s.NoneOvertaken (.access (.upsert webhook))) :
    (s.access (.upsert webhook)).Coherent := by
  refine ⟨h.keyed.set webhook, ?_⟩
  intro key webhook' hkey
  by_cases hsame : webhook' = webhook
  · rw [hsame]
    exact Or.inl (OrderedMap.get?_set_self _ _ _)
  · have hkeep : Settling s.calls s.writes key webhook' →
        Settling (s.calls.erase (.upsert webhook)) s.writes key webhook' := by
      rintro (hupsert | hcovers)
      · refine Or.inl ((List.mem_erase_of_ne ?_).mpr hupsert)
        exact fun heq => hsame (WebhookCall.upsert.inj heq)
      · exact Or.inr hcovers
    rcases h.cached key webhook' hkey with hstored | hsettling
    · by_cases hrow : webhook'.rowKey = webhook.rowKey
      · exact Or.inr (hkeep (hovertaken key webhook' hkey hstored hrow hsame))
      · refine Or.inl ?_
        simp only [Stored, access]
        rw [OrderedMap.get?_set_of_ne (Ne.symm hrow)]
        exact hstored
    · exact Or.inr (hkeep hsettling)

theorem Coherent.remove (h : s.Coherent) {webhooks : List WebhookEntity}
    (hovertaken : s.NoneOvertaken (.access (.remove webhooks))) :
    (s.access (.remove webhooks)).Coherent := by
  refine ⟨h.keyed.filter _, ?_⟩
  intro key webhook hkey
  have hkeep : Settling s.calls s.writes key webhook →
      Settling (s.calls.erase (.remove webhooks)) s.writes key webhook := fun hsettling =>
    hsettling.mono (mem_erase_upsert (.remove webhooks) nofun) fun _ hmem => hmem
  rcases h.cached key webhook hkey with hstored | hsettling
  · by_cases hrow : webhook.rowKey ∈ webhooks.map (·.rowKey)
    · exact Or.inr (hkeep (hovertaken key webhook hkey hstored hrow))
    · exact Or.inl (OrderedMap.get?_filter_iff.mpr ⟨hstored, decide_eq_true hrow⟩)
  · exact Or.inr (hkeep hsettling)

theorem Coherent.access (h : s.Coherent) {call : WebhookCall}
    (hovertaken : s.NoneOvertaken (.access call)) : (s.access call).Coherent := by
  cases call with
  | getCached method path =>
    have hcalls := @mem_erase_upsert s.calls (.getCached method path) nofun
    rw [WebhookService.access]
    split
    · exact h.mono rfl rfl hcalls fun _ hmem => hmem
    · exact h.mono rfl rfl (fun webhook hmem => List.mem_append_left _ (hcalls webhook hmem))
        fun _ hmem => hmem
  | findStatic method path =>
    have hcalls := @mem_erase_upsert s.calls (.findStatic method path) nofun
    rw [WebhookService.access]
    split
    · exact h.mono rfl rfl hcalls fun _ hmem => List.mem_append_left _ hmem
    · exact h.mono rfl rfl (fun webhook hmem => List.mem_append_left _ (hcalls webhook hmem))
        fun _ hmem => hmem
  | findDynamic method path =>
    exact h.mono rfl rfl (mem_erase_upsert (.findDynamic method path) nofun) fun _ hmem => hmem
  | upsert webhook => exact h.upsert hovertaken
  | findByWorkflow workflowId =>
    have hcalls := @mem_erase_upsert s.calls (.findByWorkflow workflowId) nofun
    exact h.mono rfl rfl (fun webhook hmem => List.mem_append_left _ (hcalls webhook hmem))
      fun _ hmem => List.mem_append_left _ hmem
  | remove webhooks => exact h.remove hovertaken

theorem Coherent.step (h : s.Coherent) (hovertaken : s.NoneOvertaken e) (hs : Step s e s') :
    s'.Coherent := by
  obtain ⟨_, rfl⟩ := hs
  cases e with
  | findWebhook method path =>
    exact h.mono rfl rfl (fun _ hmem => List.mem_append_left _ hmem) fun _ hmem => hmem
  | storeWebhook webhook =>
    exact h.mono rfl rfl (fun _ hmem => List.mem_append_left _ hmem)
      fun _ hmem => List.mem_append_left _ hmem
  | deleteWorkflowWebhooks workflowId =>
    exact h.mono rfl rfl (fun _ hmem => List.mem_append_left _ hmem) fun _ hmem => hmem
  | access call => exact h.access hovertaken
  | perform write => exact h.perform hovertaken

theorem coherent_initial (webhooks : List WebhookEntity) : (initial webhooks).Coherent :=
  ⟨OrderedMap.keyed_empty.setAll webhooks, nofun⟩

theorem cacheFresh_of_noneOvertaken {webhooks : List WebhookEntity}
    {tr : List (Event × WebhookService)} (hr : Run Step (initial webhooks) tr)
    (hovertaken : EveryStep NoneOvertaken (initial webhooks) tr) :
    Always CacheFresh (initial webhooks) tr :=
  (hr.always (coherent_initial webhooks) (fun _ _ _ h hc hs => h.step hc hs) hovertaken).mono
    fun _ h => h.cacheFresh

end Coherent

section Example

def deployed : WebhookEntity := ⟨"1", "deploy", .GET, "Webhook", none, none⟩

/-- A lookup reads the row, the workflow is deleted, and then the row is put into the cache. -/
def overtakenLookup : List Event :=
  [.findWebhook .GET "deploy", .access (.getCached .GET "deploy"),
    .access (.findStatic .GET "deploy"), .deleteWorkflowWebhooks "1",
    .access (.findByWorkflow "1"), .perform (.deleteMany [deployed.cacheKey]),
    .access (.remove [deployed]), .perform (.set deployed.cacheKey deployed)]

instance (e : Event) : Decidable (s.Enabled e) :=
  match e with
  | .access call => inferInstanceAs (Decidable (call ∈ s.calls))
  | .perform write => inferInstanceAs (Decidable (write ∈ s.writes))
  | .findWebhook _ _ | .storeWebhook _ | .deleteWorkflowWebhooks _ => isTrue trivial

theorem overtakenLookup_not_cacheFresh :
    Run Step (initial [deployed]) (trace next (initial [deployed]) overtakenLookup) ∧
    ¬ Always CacheFresh (initial [deployed]) (trace next (initial [deployed]) overtakenLookup) := by
  refine ⟨run_trace (fun _ _ h => ⟨h, rfl⟩) (by decide), fun h => ?_⟩
  have hstored := (h.final (by decide) (by decide)).1 deployed.cacheKey deployed (by decide)
  revert hstored
  unfold Stored
  decide

/-- The row is put into the cache before the workflow is deleted. -/
def cachedThenDeleted : List Event :=
  [.findWebhook .GET "deploy", .access (.getCached .GET "deploy"),
    .access (.findStatic .GET "deploy"), .perform (.set deployed.cacheKey deployed),
    .deleteWorkflowWebhooks "1", .access (.findByWorkflow "1"), .access (.remove [deployed]),
    .perform (.deleteMany [deployed.cacheKey])]

theorem cachedThenDeleted_cacheFresh :
    Always CacheFresh (initial [deployed])
      (trace next (initial [deployed]) cachedThenDeleted) := by
  have hrun : Run Step (initial [deployed])
      (trace next (initial [deployed]) cachedThenDeleted) :=
    run_trace (fun _ _ h => ⟨h, rfl⟩) (by decide)
  refine cacheFresh_of_noneOvertaken hrun ⟨trivial, trivial, trivial, Or.inl ?_, trivial, trivial,
    ?_, trivial, trivial⟩
  · unfold Stored
    decide
  · intro key webhook hkey _ _
    have hmem := OrderedMap.get?_eq_some.mp hkey
    obtain ⟨rfl, rfl⟩ := Prod.mk.inj (List.mem_singleton.mp hmem)
    exact Or.inr ⟨.deleteMany [deployed.cacheKey], List.mem_cons_self, List.mem_cons_self⟩

end Example

end WebhookService
end N8n.Webhooks
