import Mathlib.Data.List.Forall2
import Mathlib.Data.List.MinMax

/-!
# Finding the webhook of a request

`findDynamicWebhook` looks for the webhook whose path, with its parameters left
open, fits a request. It compares static segments with the set of the segments of
the request, so what it finds is the first of the longest among the webhooks whose
static segments occur anywhere in the request.
-/

namespace N8n.Webhooks

inductive HttpMethod where
  | DELETE
  | GET
  | HEAD
  | PATCH
  | POST
  | PUT
  deriving DecidableEq, Repr

structure WebhookEntity where
  workflowId : String
  webhookPath : String
  method : HttpMethod
  node : String
  webhookId : Option String
  pathLength : Option ℕ
  deriving DecidableEq, Repr

/-- `split('/')`. -/
def split (path : String) : List String := (path.toList.splitOn '/').map String.ofList

/-- `startsWith(':')`. -/
def startsWithColon (s : String) : Bool := s.toList.head? = some ':'

namespace WebhookEntity

def segments (w : WebhookEntity) : List String := split w.webhookPath

def staticSegments (w : WebhookEntity) : List String :=
  w.segments.filter fun s => !startsWithColon s

def isDynamic (w : WebhookEntity) : Bool := w.segments.any startsWithColon

end WebhookEntity

/-- The query of the repository, in the order in which it returns the webhooks. -/
def findBy (stored : List WebhookEntity) (webhookId : String) (method : HttpMethod)
    (pathLength : ℕ) : List WebhookEntity :=
  stored.filter fun w => w.webhookId = some webhookId ∧ w.method = method ∧
    w.pathLength = some pathLength

structure BestMatch where
  webhook : Option WebhookEntity
  maxMatches : ℕ

def allStaticSegmentsMatch (requestSegments : List String) (dw : WebhookEntity) : Bool :=
  dw.staticSegments.all fun s => requestSegments.contains s

def reduceMatch (requestSegments : List String) (acc : BestMatch) (dw : WebhookEntity) :
    BestMatch :=
  if allStaticSegmentsMatch requestSegments dw && acc.maxMatches < dw.staticSegments.length then
    ⟨some dw, dw.staticSegments.length⟩
  else if dw.staticSegments.length = 0 && acc.webhook.isNone then { acc with webhook := some dw }
  else acc

def uuidSegment (path : String) : String := (split path).headD ""

def otherSegments (path : String) : List String := (split path).tail

def findDynamicWebhook (stored : List WebhookEntity) (method : HttpMethod) (path : String) :
    Option WebhookEntity :=
  let dynamicWebhooks := findBy stored (uuidSegment path) method (otherSegments path).length
  if dynamicWebhooks.length = 0 then none
  else (dynamicWebhooks.foldl (reduceMatch (otherSegments path)) ⟨none, 0⟩).webhook

/-! ### What the search finds -/

def specificity (w : WebhookEntity) : ℕ := w.staticSegments.length

theorem reduceMatch_eq (request : List String) (o : Option WebhookEntity) (dw : WebhookEntity) :
    ∃ o', reduceMatch request ⟨o, (o.map specificity).getD 0⟩ dw =
        ⟨o', (o'.map specificity).getD 0⟩ ∧
      o' = if allStaticSegmentsMatch request dw
        then List.argAux (fun b c => specificity c < specificity b) o dw else o := by
  have hempty : dw.staticSegments.length = 0 → allStaticSegmentsMatch request dw = true := by
    intro h
    rw [allStaticSegmentsMatch, List.eq_nil_of_length_eq_zero h]
    rfl
  refine ⟨_, ?_, rfl⟩
  unfold reduceMatch
  cases hm : allStaticSegmentsMatch request dw with
  | false =>
    have hne : dw.staticSegments.length ≠ 0 := fun h => by
      rw [hempty h] at hm
      cases hm
    simp [hne]
  | true =>
    cases o with
    | none =>
      by_cases h0 : dw.staticSegments.length = 0
      · simp [List.argAux, specificity, h0]
      · simp [List.argAux, specificity, Nat.pos_of_ne_zero h0]
    | some w =>
      by_cases hlt : w.staticSegments.length < dw.staticSegments.length
      · simp [List.argAux, specificity, hlt]
      · simp [List.argAux, specificity, hlt]

theorem foldl_reduceMatch (request : List String) (l : List WebhookEntity)
    (o : Option WebhookEntity) :
    (l.foldl (reduceMatch request) ⟨o, (o.map specificity).getD 0⟩).webhook =
      (l.filter (allStaticSegmentsMatch request)).foldl
        (List.argAux fun b c => specificity c < specificity b) o := by
  induction l generalizing o with
  | nil => rfl
  | cons dw l ih =>
    obtain ⟨o', hstep, ho'⟩ := reduceMatch_eq request o dw
    rw [List.foldl_cons, hstep, ih, ho', List.filter_cons]
    split <;> rfl

/-- The first of the longest among the webhooks whose static segments all occur. -/
theorem findDynamicWebhook_eq (stored : List WebhookEntity) (method : HttpMethod)
    (path : String) : findDynamicWebhook stored method path =
      ((findBy stored (uuidSegment path) method (otherSegments path).length).filter
        (allStaticSegmentsMatch (otherSegments path))).argmax specificity := by
  unfold findDynamicWebhook
  dsimp only
  split
  · rename_i h
    rw [List.eq_nil_of_length_eq_zero h]
    rfl
  · exact foldl_reduceMatch (otherSegments path) _ none

/-! ### What a request asks for -/

/-- As many segments, and each that is static equals the one at its place. -/
def WebhookEntity.Matches (w : WebhookEntity) (request : List String) : Prop :=
  List.Forall₂ (fun p r => startsWithColon p = false → p = r) w.segments request

instance (w : WebhookEntity) (request : List String) : Decidable (w.Matches request) :=
  inferInstanceAs (Decidable (List.Forall₂ _ _ _))

/-- The webhooks of one id and method. -/
def registered (stored : List WebhookEntity) (webhookId : String) (method : HttpMethod) :
    List WebhookEntity :=
  stored.filter fun w => w.webhookId = some webhookId ∧ w.method = method

/-- No webhook matches, or this one does and no other one is more specific. -/
def MostSpecific (webhooks : List WebhookEntity) (request : List String) :
    Option WebhookEntity → Prop
  | none => ∀ w ∈ webhooks, ¬ w.Matches request
  | some w => w ∈ webhooks ∧ w.Matches request ∧
      ∀ v ∈ webhooks, v.Matches request → specificity v ≤ specificity w

/-- Every static segment occurs in the request, but not each at its place. -/
structure WebhookEntity.Misplaced (w : WebhookEntity) (request : List String) : Prop where
  length : w.segments.length = request.length
  occurs : ∀ s ∈ w.staticSegments, s ∈ request
  fails : ¬ w.Matches request

/-- A webhook that matches is more specific, or as specific and comes first. -/
def WebhookEntity.Outranked (w : WebhookEntity) (webhooks : List WebhookEntity)
    (request : List String) : Prop :=
  ∃ v ∈ webhooks, v.Matches request ∧ (specificity w < specificity v ∨
    specificity w = specificity v ∧ webhooks.idxOf v < webhooks.idxOf w)

instance (webhooks : List WebhookEntity) (request : List String) :
    ∀ found, Decidable (MostSpecific webhooks request found)
  | none => inferInstanceAs (Decidable (∀ w ∈ webhooks, ¬ w.Matches request))
  | some w => inferInstanceAs (Decidable (w ∈ webhooks ∧ w.Matches request ∧
      ∀ v ∈ webhooks, v.Matches request → specificity v ≤ specificity w))

instance (w : WebhookEntity) (request : List String) : Decidable (w.Misplaced request) :=
  decidable_of_iff (w.segments.length = request.length ∧ (∀ s ∈ w.staticSegments, s ∈ request) ∧
    ¬ w.Matches request) ⟨fun h => ⟨h.1, h.2.1, h.2.2⟩, fun h => ⟨h.length, h.occurs, h.fails⟩⟩

instance (w : WebhookEntity) (webhooks : List WebhookEntity) (request : List String) :
    Decidable (w.Outranked webhooks request) :=
  inferInstanceAs (Decidable (∃ v ∈ webhooks, v.Matches request ∧ (specificity w < specificity v ∨
    specificity w = specificity v ∧ webhooks.idxOf v < webhooks.idxOf w)))

theorem WebhookEntity.Matches.occurs {w : WebhookEntity} {request : List String} (h : w.Matches request) :
    ∀ s ∈ w.staticSegments, s ∈ request := by
  have hlists : ∀ {ps rs : List String},
      List.Forall₂ (fun p r => startsWithColon p = false → p = r) ps rs →
        ∀ s ∈ ps, startsWithColon s = false → s ∈ rs := by
    intro ps rs h
    induction h with
    | nil => exact nofun
    | cons hpr _ ih =>
      intro s hs hstatic
      rcases List.mem_cons.mp hs with rfl | hs
      · exact hpr hstatic ▸ List.mem_cons_self
      · exact List.mem_cons_of_mem _ (ih s hs hstatic)
  intro s hs
  obtain ⟨hs, hstatic⟩ := List.mem_filter.mp hs
  exact hlists h s hs (by simpa using hstatic)

/-- The order of two elements in a list is that in the list that is left of it. -/
theorem idxOf_filter_le {α : Type*} [DecidableEq α] {p : α → Bool} {a b : α} (ha : p a = true)
    (hb : p b = true) (l : List α) :
    (l.filter p).idxOf a ≤ (l.filter p).idxOf b ↔ l.idxOf a ≤ l.idxOf b := by
  induction l with
  | nil => simp
  | cons c l ih =>
    by_cases hc : p c = true
    · rw [List.filter_cons_of_pos hc]
      by_cases hca : c = a
      · subst hca
        simp
      · by_cases hcb : c = b
        · subst hcb
          simp [List.idxOf_cons_ne _ hca]
        · rw [List.idxOf_cons_ne _ hca, List.idxOf_cons_ne _ hcb, List.idxOf_cons_ne _ hca,
            List.idxOf_cons_ne _ hcb, Nat.succ_le_succ_iff, Nat.succ_le_succ_iff]
          exact ih
    · have hca : c ≠ a := fun he => hc (he ▸ ha)
      have hcb : c ≠ b := fun he => hc (he ▸ hb)
      rw [List.filter_cons_of_neg hc, List.idxOf_cons_ne _ hca, List.idxOf_cons_ne _ hcb,
        Nat.succ_le_succ_iff]
      exact ih

section
variable {stored : List WebhookEntity} (method : HttpMethod) (path : String)

/-- The webhooks that the search takes into account. -/
theorem candidates_eq (hlengths : ∀ w ∈ stored, w.webhookId.isSome →
      w.pathLength = some w.segments.length) :
    (findBy stored (uuidSegment path) method (otherSegments path).length).filter
        (allStaticSegmentsMatch (otherSegments path)) =
      (registered stored (uuidSegment path) method).filter fun w =>
        w.segments.length = (otherSegments path).length ∧
          ∀ s ∈ w.staticSegments, s ∈ otherSegments path := by
  rw [findBy, registered, List.filter_filter, List.filter_filter]
  refine List.filter_congr fun w hw => ?_
  rw [Bool.eq_iff_iff]
  simp only [allStaticSegmentsMatch, Bool.and_eq_true, List.all_eq_true, List.contains_eq_mem,
    decide_eq_true_eq]
  constructor
  · rintro ⟨hsegments, hid, hmethod, hlength⟩
    rw [hlengths w hw (by rw [hid]; rfl)] at hlength
    exact ⟨⟨Option.some.inj hlength, hsegments⟩, hid, hmethod⟩
  · rintro ⟨⟨hlength, hsegments⟩, hid, hmethod⟩
    exact ⟨hsegments, hid, hmethod, by rw [hlengths w hw (by rw [hid]; rfl), hlength]⟩

/-- The search finds the most specific webhook that matches exactly when each webhook whose
static segments occur out of place is outranked by one that matches. -/
theorem mostSpecific_iff (hlengths : ∀ w ∈ stored, w.webhookId.isSome →
      w.pathLength = some w.segments.length) :
    MostSpecific (registered stored (uuidSegment path) method) (otherSegments path)
        (findDynamicWebhook stored method path) ↔
      ∀ w ∈ registered stored (uuidSegment path) method, w.Misplaced (otherSegments path) →
        w.Outranked (registered stored (uuidSegment path) method) (otherSegments path) := by
  rw [findDynamicWebhook_eq, candidates_eq method path hlengths]
  generalize registered stored (uuidSegment path) method = webhooks
  generalize otherSegments path = request
  set fits : WebhookEntity → Bool := fun w => w.segments.length = request.length ∧
    ∀ s ∈ w.staticSegments, s ∈ request with hfits
  have hmatches : ∀ w : WebhookEntity, w.Matches request → fits w = true := fun w h =>
    decide_eq_true ⟨List.Forall₂.length_eq h, h.occurs⟩
  have hmisplaced : ∀ w : WebhookEntity, fits w = true → ¬ w.Matches request →
      w.Misplaced request := fun w h hfails =>
    ⟨(of_decide_eq_true h).1, (of_decide_eq_true h).2, hfails⟩
  constructor
  · intro hspecific w hw hmis
    have hin : w ∈ webhooks.filter fits :=
      List.mem_filter.mpr ⟨hw, decide_eq_true ⟨hmis.length, hmis.occurs⟩⟩
    cases hv : (webhooks.filter fits).argmax specificity with
    | none =>
      rw [List.argmax_eq_none] at hv
      rw [hv] at hin
      cases hin
    | some v =>
      rw [hv] at hspecific
      obtain ⟨hvin, hvm, _⟩ := hspecific
      obtain ⟨_, hmax, hfirst⟩ := List.argmax_eq_some_iff.mp hv
      refine ⟨v, hvin, hvm, ?_⟩
      rcases (hmax w hin).lt_or_eq with hlt | heq
      · exact Or.inl hlt
      · have hle := (idxOf_filter_le (hmatches v hvm) (List.mem_filter.mp hin).2 webhooks).mp
          (hfirst w hin heq.ge)
        have hne : webhooks.idxOf v ≠ webhooks.idxOf w := fun he =>
          hmis.fails ((List.idxOf_inj hvin).mp he ▸ hvm)
        exact Or.inr ⟨heq, lt_of_le_of_ne hle hne⟩
  · intro hranks
    cases hv : (webhooks.filter fits).argmax specificity with
    | none =>
      rw [List.argmax_eq_none] at hv
      intro w hw hm
      have hin := List.mem_filter.mpr ⟨hw, hmatches w hm⟩
      rw [hv] at hin
      cases hin
    | some v =>
      obtain ⟨hvin, hmax, hfirst⟩ := List.argmax_eq_some_iff.mp hv
      obtain ⟨hvw, hvfits⟩ := List.mem_filter.mp hvin
      refine ⟨hvw, ?_, fun u hu hum => hmax u (List.mem_filter.mpr ⟨hu, hmatches u hum⟩)⟩
      -- what outranks a webhook that is out of place would have been found instead
      by_contra hfails
      obtain ⟨u, hu, hum, hrank⟩ := hranks v hvw (hmisplaced v hvfits hfails)
      have huin := List.mem_filter.mpr ⟨hu, hmatches u hum⟩
      rcases hrank with hlt | ⟨heq, hbefore⟩
      · exact absurd (hmax u huin) (Nat.not_le_of_lt hlt)
      · have hle := (idxOf_filter_le hvfits (hmatches u hum) webhooks).mp
          (hfirst u huin heq.le)
        exact absurd hle (Nat.not_le_of_lt hbefore)

end

/-! ### A webhook found out of place -/

def dynamicWebhook (webhookPath : String) (pathLength : ℕ) : WebhookEntity where
  workflowId := "w"
  webhookPath := webhookPath
  method := .GET
  node := "Webhook"
  webhookId := some "a"
  pathLength := some pathLength

/-- Nothing matches the request, and a webhook is found. -/
theorem mostSpecific_fails :
    (∀ w ∈ [dynamicWebhook ":id/user" 2], w.isDynamic = true ∧
      w.pathLength = some w.segments.length) ∧
    uuidSegment "a/user/1" = "a" ∧ otherSegments "a/user/1" = ["user", "1"] ∧
    findDynamicWebhook [dynamicWebhook ":id/user" 2] .GET "a/user/1" =
      some (dynamicWebhook ":id/user" 2) ∧
    ¬ MostSpecific (registered [dynamicWebhook ":id/user" 2] "a" .GET) ["user", "1"]
      (findDynamicWebhook [dynamicWebhook ":id/user" 2] .GET "a/user/1") := by
  decide

/-- One webhook is out of place, and is outranked. -/
theorem mostSpecific_outranked : MostSpecific
    (registered [dynamicWebhook "user/:id" 2, dynamicWebhook ":id/user" 2] "a" .GET) ["user", "1"]
    (findDynamicWebhook [dynamicWebhook "user/:id" 2, dynamicWebhook ":id/user" 2] .GET
      "a/user/1") :=
  (mostSpecific_iff .GET "a/user/1" (by decide)).mpr (by decide)

end N8n.Webhooks
