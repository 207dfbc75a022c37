import N8n.Foundations.FilteredPages
import N8n.Foundations.FoldM
import N8n.Foundations.JsonValues

/-!
# Offset pagination

A declarative node fetches its records page by page. What comes back of a page is processed at once,
and the loop ends with the first page that is not complete after that. `get` reads a path of a
value, and `api` is the body that a request is answered with.
-/

namespace N8n.RoutingNode
open JsonValues (Value)
open FilteredPages

structure INodeExecutionData where
  json : Value

/-- The other predefined actions are functions of the items and the response as well. -/
inductive PostReceiveAction where
  | rootProperty (property : String)
  | filter (pass : INodeExecutionData → Bool)
  | function (action : List INodeExecutionData → Value → Except String (List INodeExecutionData))

structure PostReceiveMethod where
  actions : List PostReceiveAction

/-- The two parameters of a request, in its body or its query. -/
structure Request where
  limit : ℕ
  offset : ℕ
  deriving DecidableEq, Repr

structure OffsetPagination where
  pageSize : ℕ
  rootProperty : Option String
  deriving DecidableEq, Repr

section Requests
variable (get : Value → String → Value)

def runPostReceiveAction (action : PostReceiveAction) (inputData : List INodeExecutionData)
    (body : Value) : Except String (List INodeExecutionData) :=
  match action with
  | .function action => action inputData body
  | .rootProperty property => .ok (inputData.flatMap fun item =>
      match get item.json property with
      | .array itemContent => itemContent.map INodeExecutionData.mk
      | itemContent => [⟨itemContent⟩])
  | .filter pass => .ok (inputData.filter pass)

def postProcessResponseData (postReceive : List PostReceiveMethod) (body : Value) :
    Except String (List INodeExecutionData) :=
  if postReceive = [] then
    match body with
    | .array items => .ok (items.map INodeExecutionData.mk)
    | body => .ok [⟨body⟩]
  else
    (postReceive.flatMap PostReceiveMethod.actions).foldlM
      (fun returnData action => runPostReceiveAction get action returnData body) [⟨body⟩]

/-- What pagination takes for the items of a page. -/
def takeRootProperty (rootProperty : Option String) (tempResponseData : List INodeExecutionData) :
    Except String (List INodeExecutionData) :=
  match rootProperty with
  | none => .ok tempResponseData
  | some rootProperty =>
    match tempResponseData with
    | [] => .error "Cannot read properties of undefined (reading 'json')"
    | item :: _ =>
      match get item.json rootProperty with
      | .undefined =>
          .error ("The rootProperty \"" ++ rootProperty ++ "\" could not be found on item.")
      | .null => .error "Cannot read properties of null (reading 'map')"
      | .array items => .ok (items.map INodeExecutionData.mk)
      | _ => .error "tempResponseValue.map is not a function"

def receivePage (api : Request → Value) (rootProperty : Option String)
    (postReceive : List PostReceiveMethod) (request : Request) :
    Except String (List INodeExecutionData) := do
  let tempResponseData ← postProcessResponseData get postReceive (api request)
  takeRootProperty get rootProperty tempResponseData

end Requests

section Loop
variable (receive : Request → Except String (List INodeExecutionData)) (pageSize : ℕ)
  (maxResults : Option ℕ)

/-- `none` when the fuel does not suffice. -/
def offsetLoop : ℕ → Request → List INodeExecutionData →
    Option (Except String (List INodeExecutionData))
  | 0, _, _ => none
  | fuel + 1, request, responseData =>
    let resultsMissing := maxResults.map fun maxResults : ℕ =>
      (maxResults : ℤ) - responseData.length
    if resultsMissing.any (· < 1) then some (.ok responseData)
    else
      let limit := resultsMissing.elim request.limit fun missing => (min (pageSize : ℤ) missing).toNat
      match receive { request with limit } with
      | .error message => some (.error message)
      | .ok tempResponseData =>
        let responseData := responseData ++ tempResponseData
        if tempResponseData.length ≠ 0 ∧ tempResponseData.length = pageSize then
          offsetLoop fuel ⟨limit, request.offset + pageSize⟩ responseData
        else some (.ok responseData)

end Loop

/-- The branch of the offset pagination. -/
def makeRequest (get : Value → String → Value) (api : Request → Value)
    (pagination : OffsetPagination) (postReceive : List PostReceiveMethod) (maxResults : Option ℕ)
    (fuel : ℕ) : Option (Except String (List INodeExecutionData)) :=
  offsetLoop (receivePage get api pagination.rootProperty postReceive) pagination.pageSize
    (maxResults.filter (· ≠ 0)) fuel ⟨pagination.pageSize, 0⟩ []

/-- `runNode` removes the items that are not needed. -/
def removeNotNeeded (maxResults : Option ℕ) (items : List INodeExecutionData) :
    List INodeExecutionData :=
  match maxResults.filter (· ≠ 0) with
  | some maxResults => items.take maxResults
  | none => items

/-! ### The records that are wanted -/

def passes (filters : List (INodeExecutionData → Bool)) (x : Value) : Bool :=
  filters.all fun pass => pass ⟨x⟩

/-- The API has the records `xs`, and the node finds them where the API puts them. -/
inductive Answers (get : Value → String → Value) (api : Request → Value) (xs : List Value) :
    Option String → List PostReceiveMethod → List (INodeExecutionData → Bool) → Prop
  | plain (h : ∀ r, api r = .array (page xs r.offset r.limit)) : Answers get api xs none [] []
  | nested (property : String) (h : ∀ r, (∃ properties, api r = .object properties) ∧
      get (api r) property = .array (page xs r.offset r.limit)) :
      Answers get api xs (some property) [] []
  | filtered (property : String) (filters : List (INodeExecutionData → Bool))
      (postReceive : List PostReceiveMethod)
      (hactions : postReceive.flatMap PostReceiveMethod.actions =
        .rootProperty property :: filters.map .filter)
      (h : ∀ r, get (api r) property = .array (page xs r.offset r.limit)) :
      Answers get api xs none postReceive filters

def FetchesWanted (get : Value → String → Value) (api : Request → Value) (xs : List Value)
    (pagination : OffsetPagination) (postReceive : List PostReceiveMethod)
    (filters : List (INodeExecutionData → Bool)) (maxResults : Option ℕ) : Prop :=
  ∃ fuel items, makeRequest get api pagination postReceive maxResults fuel = some (.ok items) ∧
    (removeNotNeeded maxResults items).map INodeExecutionData.json =
      wanted (passes filters) xs maxResults

/-! ### One page -/

section Page
variable {get : Value → String → Value} {api : Request → Value} {xs : List Value}
  {rootProperty : Option String} {postReceive : List PostReceiveMethod}
  {filters : List (INodeExecutionData → Bool)}

theorem foldlM_filters (get : Value → String → Value) (body : Value) (items : List INodeExecutionData) :
    (filters.map PostReceiveAction.filter).foldlM
        (fun returnData action => runPostReceiveAction get action returnData body) items =
      .ok (items.filter fun item => filters.all fun pass => pass item) := by
  induction filters generalizing items with
  | nil => simp [pure, Except.pure]
  | cons pass filters ih =>
    rw [List.map_cons, List.foldlM_cons]
    refine (ih (items.filter pass)).trans ?_
    rw [List.filter_filter]
    simp [Bool.and_comm]

theorem map_filter_passes (items : List Value) :
    (items.map INodeExecutionData.mk).filter (fun item => filters.all fun pass => pass item) =
      (items.filter (passes filters)).map INodeExecutionData.mk := by
  rw [List.filter_map]
  rfl

theorem Answers.receivePage (h : Answers get api xs rootProperty postReceive filters)
    (request : Request) :
    receivePage get api rootProperty postReceive request =
      .ok (((page xs request.offset request.limit).filter (passes filters)).map
        INodeExecutionData.mk) := by
  have hall : ∀ items : List Value, items.filter (passes []) = items := fun items =>
    List.filter_eq_self.mpr fun x _ => rfl
  cases h with
  | plain h =>
    have hpost : postProcessResponseData get [] (api request) =
        .ok ((page xs request.offset request.limit).map INodeExecutionData.mk) := by
      simp [postProcessResponseData, h]
    rw [RoutingNode.receivePage, hpost, hall]
    rfl
  | nested property h =>
    obtain ⟨⟨properties, hbody⟩, hget⟩ := h request
    have hpost : postProcessResponseData get [] (api request) = .ok [⟨api request⟩] := by
      simp [postProcessResponseData, hbody]
    have htake : takeRootProperty get (some property) [⟨api request⟩] =
        .ok ((page xs request.offset request.limit).map INodeExecutionData.mk) := by
      simp [takeRootProperty, hget]
    rw [RoutingNode.receivePage, hpost, hall]
    exact htake
  | filtered property filters postReceive hactions h =>
    have hnil : postReceive ≠ [] := by
      rintro rfl
      cases hactions
    have hroot : runPostReceiveAction get (.rootProperty property) [⟨api request⟩] (api request) =
        .ok ((page xs request.offset request.limit).map INodeExecutionData.mk) := by
      simp [runPostReceiveAction, h]
    have hpost : postProcessResponseData get postReceive (api request) =
        .ok (((page xs request.offset request.limit).filter (passes filters)).map
          INodeExecutionData.mk) := by
      rw [← map_filter_passes, ← foldlM_filters get (api request)]
      simp only [postProcessResponseData, if_neg hnil, hactions, List.foldlM_cons, hroot]
      rfl
    rw [RoutingNode.receivePage, hpost]
    rfl

end Page

/-! ### All pages -/

section Pages
variable {receive : Request → Except String (List INodeExecutionData)} {pageSize : ℕ}
  {maxResults : Option ℕ} {p : Value → Bool} {xs : List Value}

/-- The end of the page that is asked for after `offset` items. -/
theorem lastEnd_of_last {offset limit : ℕ} (hp : 1 ≤ pageSize) (hoffset : offset ≤ leading p xs)
    (hdvd : pageSize ∣ offset)
    (hlimit : limit = maxResults.elim pageSize fun m => min pageSize (m - offset))
    (hm : ∀ m ∈ maxResults, offset < m) (hlast : limit = pageSize → leading p xs < offset + pageSize) :
    lastEnd pageSize p xs maxResults = offset + limit := by
  obtain ⟨k, rfl⟩ := hdvd
  have hk : k ≤ leading p xs / pageSize := (Nat.le_div_iff_mul_le hp).mpr (by rwa [Nat.mul_comm])
  have hnext : limit = pageSize → (leading p xs / pageSize + 1) * pageSize = pageSize * k + pageSize := by
    intro hfull
    have hlt : leading p xs / pageSize < k + 1 :=
      (Nat.div_lt_iff_lt_mul hp).mpr (by have := hlast hfull; rw [Nat.add_mul, Nat.mul_comm k]; omega)
    rw [show leading p xs / pageSize = k by omega, Nat.add_mul, Nat.mul_comm k, Nat.one_mul]
  have hle : pageSize * k + pageSize ≤ (leading p xs / pageSize + 1) * pageSize := by
    rw [← Nat.mul_succ, Nat.mul_comm]
    exact Nat.mul_le_mul_right pageSize (Nat.succ_le_succ hk)
  cases maxResults with
  | none =>
    rw [Option.elim_none] at hlimit
    rw [lastEnd, Option.elim_none, hnext hlimit, hlimit]
  | some m =>
    rw [Option.elim_some] at hlimit
    have hlt := hm m rfl
    rw [lastEnd, Option.elim_some]
    by_cases hfull : limit = pageSize
    · rw [hnext hfull]
      omega
    · omega

/-- The limit of the request after `offset` items. -/
theorem nextLimit_eq {limit offset : ℕ} (hlimit : maxResults = none → limit = pageSize) :
    ((maxResults.map fun m : ℕ => (m : ℤ) - offset).elim limit fun missing =>
        (min (pageSize : ℤ) missing).toNat) =
      maxResults.elim pageSize fun m => min pageSize (m - offset) := by
  cases maxResults with
  | none => exact hlimit rfl
  | some m =>
    simp only [Option.map_some, Option.elim_some]
    omega

/-- The items that are missing, when the ones that are there are not enough. -/
theorem any_missing_eq_false {offset : ℕ} (hmore : ∀ m ∈ maxResults, offset < m) :
    (maxResults.map fun m : ℕ => (m : ℤ) - offset).any (· < 1) = false := by
  cases maxResults with
  | none => rfl
  | some m =>
    have hlt := hmore m rfl
    simp only [Option.map_some, Option.any_some, decide_eq_false_iff_not]
    omega

theorem nextLimit_le (offset : ℕ) :
    maxResults.elim pageSize (fun m => min pageSize (m - offset)) ≤ pageSize := by
  cases maxResults with
  | none => exact Nat.le_refl _
  | some m => exact Nat.min_le_left _ _

/-- The items up to a page, when nothing before it was filtered out. -/
theorem take_append_page {offset : ℕ} (hoffset : offset ≤ leading p xs) (next : ℕ) :
    (xs.take offset).map INodeExecutionData.mk ++
      ((page xs offset next).filter p).map INodeExecutionData.mk =
        ((xs.take (offset + next)).filter p).map INodeExecutionData.mk := by
  rw [take_add_page, List.filter_append, List.map_append, filter_take_of_le hoffset]

theorem offsetLoop_eq (hp : 1 ≤ pageSize)
    (hreceive : ∀ request, receive request =
      .ok (((page xs request.offset request.limit).filter p).map INodeExecutionData.mk))
    {fuel limit offset : ℕ} (hlimit : maxResults = none → limit = pageSize)
    (hoffset : offset ≤ leading p xs) (hm : ∀ m ∈ maxResults, offset ≤ m)
    (hdvd : pageSize ∣ offset) (hfuel : xs.length < offset + fuel) :
    offsetLoop receive pageSize maxResults fuel ⟨limit, offset⟩
        ((xs.take offset).map INodeExecutionData.mk) =
      some (.ok (((xs.take (lastEnd pageSize p xs maxResults)).filter p).map
        INodeExecutionData.mk)) := by
  have hlength := hoffset.trans leading_le_length
  induction fuel generalizing limit offset with
  | zero => omega
  | succ fuel ih =>
    have hitems : ((xs.take offset).map INodeExecutionData.mk).length = offset := by
      rw [List.length_map, List.length_take]
      omega
    rw [offsetLoop, hitems]
    by_cases henough : ∃ m ∈ maxResults, m ≤ offset
    · obtain ⟨m, rfl, hle⟩ := henough
      obtain rfl : m = offset := Nat.le_antisymm hle (hm m rfl)
      have hstop := lt_lastStop hp p xs
      rw [if_pos (by simp), lastEnd, Option.elim_some, Nat.min_eq_right (by omega),
        filter_take_of_le hoffset]
    · have hmore : ∀ m ∈ maxResults, offset < m := fun m hmem =>
        Nat.lt_of_not_le fun hle => henough ⟨m, hmem, hle⟩
      rw [any_missing_eq_false hmore, if_neg Bool.false_ne_true]
      simp only [nextLimit_eq hlimit, hreceive]
      have hnextLe := @nextLimit_le pageSize maxResults offset
      generalize hnext : (maxResults.elim pageSize fun m => min pageSize (m - offset)) = next
        at hnextLe ⊢
      rw [List.length_map, take_append_page hoffset]
      have hfilter := List.length_filter_le p (page xs offset next)
      rw [length_page] at hfilter
      split
      · next hfull =>
        obtain rfl : next = pageSize := by omega
        have hleading := (length_filter_page_iff hoffset).mp hfull.2
        rw [filter_take_of_le hleading]
        have hbound := hleading.trans leading_le_length
        refine ih (fun hnone => ?_) hleading (fun m hmem => ?_) (Nat.dvd_add hdvd (Nat.dvd_refl _)) (by omega)
          hbound
        · rfl
        · subst hmem
          have := hmore m rfl
          rw [Option.elim_some] at hnext
          omega
      · next hincomplete =>
        rw [lastEnd_of_last hp hoffset hdvd hnext.symm hmore]
        intro hfull
        subst hfull
        by_contra hleading
        have := (length_filter_page_iff hoffset).mpr (Nat.le_of_not_lt hleading)
        omega

/-- More fuel does not change the result. -/
theorem offsetLoop_mono {fuel fuel' : ℕ} (hle : fuel ≤ fuel') {request : Request}
    {responseData : List INodeExecutionData} {result : Except String (List INodeExecutionData)}
    (h : offsetLoop receive pageSize maxResults fuel request responseData = some result) :
    offsetLoop receive pageSize maxResults fuel' request responseData = some result := by
  induction fuel generalizing fuel' request responseData with
  | zero => cases h
  | succ fuel ih =>
    obtain ⟨fuel', rfl⟩ := Nat.exists_eq_add_of_le' (Nat.succ_le_of_lt (Nat.lt_of_lt_of_le
      (Nat.succ_pos fuel) hle))
    rw [offsetLoop] at h ⊢
    split at h
    · next hstop => rw [if_pos hstop, h]
    · next hstop =>
      rw [if_neg hstop]
      dsimp only at h ⊢
      split at h
      · exact h
      · split at h
        · next hfull =>
          rw [if_pos hfull]
          exact ih (Nat.le_of_succ_le_succ hle) h
        · next hincomplete => rw [if_neg hincomplete, h]

end Pages

theorem removeNotNeeded_eq {maxResults : Option ℕ} {items : List INodeExecutionData}
    (h : ∀ m ∈ maxResults, items.length ≤ m) : removeNotNeeded maxResults items = items := by
  rw [removeNotNeeded]
  split
  · next m hm =>
    obtain ⟨rfl, -⟩ := Option.filter_eq_some_iff.mp hm
    exact List.take_of_length_le (h m rfl)
  · rfl

theorem makeRequest_eq {get : Value → String → Value} {api : Request → Value} {xs : List Value}
    {pagination : OffsetPagination} (hp : 1 ≤ pagination.pageSize)
    {postReceive : List PostReceiveMethod} {filters : List (INodeExecutionData → Bool)}
    (hapi : Answers get api xs pagination.rootProperty postReceive filters) {maxResults : Option ℕ}
    (hm : ∀ m ∈ maxResults, 1 ≤ m) {fuel : ℕ} (hfuel : xs.length < fuel) :
    makeRequest get api pagination postReceive maxResults fuel =
      some (.ok (((xs.take (lastEnd pagination.pageSize (passes filters) xs maxResults)).filter
        (passes filters)).map INodeExecutionData.mk)) := by
  have hcut : maxResults.filter (· ≠ 0) = maxResults := by
    cases maxResults with
    | none => rfl
    | some m =>
      have := hm m rfl
      exact Option.filter_some_pos (by simp; omega)
  rw [makeRequest, hcut]
  exact offsetLoop_eq hp hapi.receivePage (fun _ => rfl) (Nat.zero_le _) (fun _ _ => Nat.zero_le _)
    ⟨0, rfl⟩ (by omega)

/-- What was fetched is no longer than what is wanted, so that nothing is cut off. -/
theorem removeNotNeeded_fetched (pageSize : ℕ) (p : Value → Bool) (xs : List Value)
    (maxResults : Option ℕ) :
    removeNotNeeded maxResults
        (((xs.take (lastEnd pageSize p xs maxResults)).filter p).map INodeExecutionData.mk) =
      ((xs.take (lastEnd pageSize p xs maxResults)).filter p).map INodeExecutionData.mk := by
  refine removeNotNeeded_eq fun m hmem => ?_
  subst hmem
  have hfetched := List.length_filter_le p (xs.take (lastEnd pageSize p xs (some m)))
  have htake := List.length_take_le (lastEnd pageSize p xs (some m)) xs
  have hend : lastEnd pageSize p xs (some m) ≤ m := Nat.min_le_right _ _
  rw [List.length_map]
  exact hfetched.trans (htake.trans hend)

/-- The loop always ends. What it misses are records behind the first page with one that is filtered
out. -/
theorem fetchesWanted_iff (get : Value → String → Value) (api : Request → Value) (xs : List Value)
    (pagination : OffsetPagination) (hp : 1 ≤ pagination.pageSize)
    (postReceive : List PostReceiveMethod) (filters : List (INodeExecutionData → Bool))
    (hapi : Answers get api xs pagination.rootProperty postReceive filters) (maxResults : Option ℕ)
    (hm : ∀ m ∈ maxResults, 1 ≤ m) :
    FetchesWanted get api xs pagination postReceive filters maxResults ↔
      NothingMissed pagination.pageSize (passes filters) xs maxResults := by
  let fetched := (xs.take (lastEnd pagination.pageSize (passes filters) xs maxResults)).filter
    (passes filters)
  have hresult : ∀ fuel, xs.length < fuel →
      makeRequest get api pagination postReceive maxResults fuel =
        some (.ok (fetched.map INodeExecutionData.mk)) := fun _ => makeRequest_eq hp hapi hm
  have hunique : ∀ fuel items,
      makeRequest get api pagination postReceive maxResults fuel = some (.ok items) →
        items = fetched.map INodeExecutionData.mk := by
    intro fuel items hitems
    have hmore := offsetLoop_mono (Nat.le_add_right fuel (xs.length + 1)) hitems
    have := (hresult _ (by omega)).symm.trans hmore
    exact Except.ok.inj (Option.some.inj this.symm)
  have hkept : removeNotNeeded maxResults (fetched.map INodeExecutionData.mk) =
      fetched.map INodeExecutionData.mk := removeNotNeeded_fetched _ _ _ _
  have hjson : (fetched.map INodeExecutionData.mk).map INodeExecutionData.json = fetched := by
    rw [List.map_map]
    exact List.map_id' fetched
  rw [← filter_take_eq_wanted_iff hp]
  constructor
  · rintro ⟨fuel, items, hitems, hwanted⟩
    rwa [hunique fuel items hitems, hkept, hjson] at hwanted
  · intro hwanted
    refine ⟨xs.length + 1, _, hresult _ (Nat.lt_succ_self _), ?_⟩
    rwa [hkept, hjson]

/-! ### A record that is filtered out -/

section Example

def numbers : List Value := [.number 1, .number 2, .number 3]

def answer (r : Request) : Value := .object [("items", .array (page numbers r.offset r.limit))]

def getItems (value : Value) (path : String) : Value :=
  match value with
  | .object properties => ((properties.find? (·.1 = path)).map Prod.snd).getD .undefined
  | _ => .undefined

def isGreater (item : INodeExecutionData) : Bool :=
  match item.json with
  | .number n => 1 < n
  | _ => false

def greaterItems : List PostReceiveMethod := [⟨[.rootProperty "items", .filter isGreater]⟩]

theorem answers_numbers : Answers getItems answer numbers none greaterItems [isGreater] :=
  .filtered "items" [isGreater] greaterItems rfl fun _ => rfl

/-- Of the first page one record is filtered out, and the second page is not fetched. -/
theorem filteredPage_not_fetchesWanted :
    Answers getItems answer numbers none greaterItems [isGreater] ∧
      ¬ FetchesWanted getItems answer numbers ⟨2, none⟩ greaterItems [isGreater] none := by
  refine ⟨answers_numbers, ?_⟩
  rintro ⟨fuel, items, hitems, hwanted⟩
  have hfirst : makeRequest getItems answer ⟨2, none⟩ greaterItems none 1 =
      some (.ok [⟨.number 2⟩]) := by
    rfl
  have hlater := offsetLoop_mono (Nat.le_add_left 1 fuel) hfirst
  have hitems := offsetLoop_mono (Nat.le_add_right fuel 1) hitems
  obtain rfl : items = _ := Except.ok.inj (Option.some.inj (hitems.symm.trans hlater))
  exact absurd (congrArg List.length hwanted) (by decide +kernel)

theorem onePage_fetchesWanted :
    FetchesWanted getItems answer numbers ⟨5, none⟩ greaterItems [isGreater] (some 4) := by
  refine (fetchesWanted_iff getItems answer numbers ⟨5, none⟩ (by decide) greaterItems [isGreater]
    answers_numbers (some 4) (by simp)).mpr (.inr ?_)
  have hend : numbers.drop (lastEnd 5 (passes [isGreater]) numbers (some 4)) = [] := by
    rfl
  rw [hend]
  simp

end Example

end N8n.RoutingNode
