import N8n.Foundations.Runs
import Mathlib.Logic.Function.Basic
import Mathlib.Data.Nat.Notation

/-!
# Saving a workflow

`WorkflowService.update` on one workflow, called any number of times. The stored
workflow is one row, read and written in single steps: a call reads the row and
compares versions, waits for lookups and hooks, writes the row, reads it back, and
activates the workflow when the row says so. `earlier` holds the versions that the row
had before, so that its length counts the writes, and `generated` the ids that were
made for new versions. Of the data to be saved only the version, the `active` flag and
the names of its properties are looked at.
-/

namespace N8n

open Runs

structure WorkflowRow where
  versionId : String
  active : Bool
  deriving DecidableEq, Repr

structure UpdateCall where
  permitted : Bool
  versionId : Option String
  active : Option Bool
  properties : List String
  forceSave : Bool
  deriving DecidableEq, Repr

inductive UpdateError where
  | notFound (message : String)
  | badRequest (message : String) (errorCode : Option ℕ)
  | raised
  deriving DecidableEq, Repr

namespace UpdateCall

def changedProperties (call : UpdateCall) : List String :=
  call.properties.filter (· ∉ ["id", "versionId", "active"])

/-- The version that is written, when the one that the data carries is still stored. -/
def checkVersion (call : UpdateCall) (workflow : WorkflowRow) (uuid : String) :
    Except UpdateError (Option String) :=
  if call.permitted = false then
    .error (.notFound ("You do not have permission to update this workflow. " ++
      "Ask the owner to share it with you."))
  else if call.forceSave = false ∧ call.versionId ≠ some "" ∧
      call.versionId ≠ some workflow.versionId then
    .error (.badRequest ("Your most recent changes may be lost, because someone else just " ++
      "updated this workflow. Open this workflow in a new tab to see those new updates.")
      (some 100))
  else if call.changedProperties = [] then .ok call.versionId
  else .ok (some uuid)

/-- A call whose data is compared with the stored workflow and changes it. -/
structure Guarded (call : UpdateCall) : Prop where
  permitted : call.permitted = true
  forceSave : call.forceSave = false
  versionId : ∃ versionId, call.versionId = some versionId ∧ versionId ≠ ""
  changes : call.changedProperties ≠ []

end UpdateCall

/-- How far a call has come. It keeps the row that it read, and, once it has written, the
version that was stored right before. -/
inductive Progress where
  | waiting
  | checked (workflow : WorkflowRow) (versionId : Option String) (writesSeen : ℕ)
  | written (workflow : WorkflowRow) (storedBefore : String)
  | activating (workflow : WorkflowRow) (storedBefore : String)
  | resolved (storedBefore : String)
  | rejected (error : UpdateError)
  deriving DecidableEq, Repr

namespace Progress

def pending : Progress → Bool
  | .resolved _ | .rejected _ => false
  | _ => true

/-- The version that a call is about to write. -/
def newVersion? : Progress → Option String
  | .checked _ versionId _ => versionId
  | _ => none

def storedBefore? : Progress → Option String
  | .written _ storedBefore | .activating _ storedBefore | .resolved storedBefore =>
    some storedBefore
  | _ => none

end Progress

structure UpdateState (κ : Type*) where
  row : WorkflowRow
  earlier : List String
  generated : List String
  progress : κ → Progress

inductive UpdateEvent (κ : Type*) where
  | findWorkflowForUser (k : κ) (uuid : String)
  | update (k : κ)
  | findOne (k : κ)
  | activate (k : κ)
  | revert (k : κ) (message : String)
  | raise (k : κ)
  deriving DecidableEq, Repr

namespace UpdateState
variable {κ : Type*}

def initial (row : WorkflowRow) : UpdateState κ := ⟨row, [], [], fun _ => .waiting⟩

def become [DecidableEq κ] (s : UpdateState κ) (k : κ) (progress : Progress) : UpdateState κ :=
  { s with progress := Function.update s.progress k progress }

def generate (s : UpdateState κ) (uuid : String) : UpdateState κ :=
  { s with generated := uuid :: s.generated }

/-- Fields that are not given stay as they are. -/
def write (s : UpdateState κ) (versionId : Option String) (active : Option Bool) : UpdateState κ :=
  { s with
    row := ⟨versionId.getD s.row.versionId, active.getD s.row.active⟩
    earlier := s.row.versionId :: s.earlier }

/-- The versions that the row has had. -/
def stored (s : UpdateState κ) : List String := s.row.versionId :: s.earlier

end UpdateState

namespace WorkflowUpdate

open UpdateState

variable {κ : Type*}

inductive UpdateStep [DecidableEq κ] (calls : κ → UpdateCall) :
    UpdateState κ → UpdateEvent κ → UpdateState κ → Prop
  | accept {s k uuid versionId} (hwaiting : s.progress k = .waiting)
      (hfresh : uuid ∉ s.stored ∧ uuid ∉ s.generated)
      (hcheck : (calls k).checkVersion s.row uuid = .ok versionId) :
      UpdateStep calls s (.findWorkflowForUser k uuid)
        ((s.generate uuid).become k (.checked s.row versionId s.earlier.length))
  | refuse {s k uuid error} (hwaiting : s.progress k = .waiting)
      (hcheck : (calls k).checkVersion s.row uuid = .error error) :
      UpdateStep calls s (.findWorkflowForUser k uuid) (s.become k (.rejected error))
  | update {s k workflow versionId writesSeen}
      (hchecked : s.progress k = .checked workflow versionId writesSeen) :
      UpdateStep calls s (.update k)
        ((s.write versionId (calls k).active).become k (.written workflow s.row.versionId))
  | findOne {s k workflow storedBefore} (hwritten : s.progress k = .written workflow storedBefore) :
      UpdateStep calls s (.findOne k) (s.become k
        (if s.row.active then .activating workflow storedBefore else .resolved storedBefore))
  | activate {s k workflow storedBefore}
      (hactivating : s.progress k = .activating workflow storedBefore) :
      UpdateStep calls s (.activate k) (s.become k (.resolved storedBefore))
  -- an activation that fails takes the version back that the call has read
  | revert {s k message workflow storedBefore}
      (hactivating : s.progress k = .activating workflow storedBefore) :
      UpdateStep calls s (.revert k message)
        ((s.write (some workflow.versionId) (some false)).become k
          (.rejected (.badRequest message none)))
  | raise {s k} (hpending : (s.progress k).pending = true) :
      UpdateStep calls s (.raise k) (s.become k (.rejected .raised))

/-- No two calls that started from the same version resolve, and what a resolved call
has replaced is the version that it started from. -/
structure NothingOverwritten (calls : κ → UpdateCall) (s : UpdateState κ) : Prop where
  oncePerVersion : ∀ j k before before', s.progress j = .resolved before →
    s.progress k = .resolved before' → (calls j).versionId = (calls k).versionId → j = k
  onTop : ∀ k before, s.progress k = .resolved before → (calls k).versionId = some before

/-- Since the call has read the row nothing was written to it. -/
def Undisturbed (s : UpdateState κ) : UpdateEvent κ → Prop
  | .update k => ∀ workflow versionId writesSeen,
    s.progress k = .checked workflow versionId writesSeen → writesSeen = s.earlier.length
  | _ => True

/-! ### What is known of the calls under way -/

def Saved (call : UpdateCall) (s : UpdateState κ) (storedBefore : String) : Prop :=
  call.versionId = some storedBefore ∧ storedBefore ∈ s.earlier ∧ storedBefore ≠ s.row.versionId

def Sound (call : UpdateCall) (s : UpdateState κ) : Progress → Prop
  | .waiting | .rejected _ => True
  | .checked workflow versionId writesSeen =>
    call.versionId = some workflow.versionId ∧ writesSeen ≤ s.earlier.length ∧
      (writesSeen = s.earlier.length → s.row.versionId = workflow.versionId) ∧
      ∃ uuid ∈ s.generated, versionId = some uuid ∧ uuid ∉ s.stored
  | .written workflow storedBefore | .activating workflow storedBefore =>
    workflow.versionId = storedBefore ∧ Saved call s storedBefore
  | .resolved storedBefore => Saved call s storedBefore

/-- No two calls have the same version there. -/
def Apart (version? : Progress → Option String) (s : UpdateState κ) : Prop :=
  ∀ j k versionId, version? (s.progress j) = some versionId →
    version? (s.progress k) = some versionId → j = k

structure Consistent (calls : κ → UpdateCall) (s : UpdateState κ) : Prop where
  sound : ∀ k, Sound (calls k) s (s.progress k)
  newApart : Apart Progress.newVersion? s
  savedApart : Apart Progress.storedBefore? s

section Steps
variable {calls : κ → UpdateCall} {s s' : UpdateState κ} {k : κ} {p : Progress}
  {call : UpdateCall} {workflow : WorkflowRow} {uuid storedBefore x : String}
  {versionId : Option String} {active : Option Bool}

theorem checkVersion_ok (h : call.Guarded)
    (hok : call.checkVersion workflow uuid = .ok versionId) :
    call.versionId = some workflow.versionId ∧ versionId = some uuid := by
  obtain ⟨carried, hcarried, hne⟩ := h.versionId
  rw [UpdateCall.checkVersion, if_neg (by simp [h.permitted])] at hok
  split_ifs at hok with hdiffers hchanges
  · exact absurd hchanges h.changes
  · refine ⟨?_, (Except.ok.inj hok).symm⟩
    by_contra hversion
    exact hdiffers ⟨h.forceSave, by simpa [hcarried] using hne, hversion⟩

theorem Saved.mem_stored (h : Saved call s storedBefore) : storedBefore ∈ s.stored :=
  List.mem_cons_of_mem _ h.2.1

theorem Sound.saved (h : Sound call s p) (hp : p.storedBefore? = some storedBefore) :
    Saved call s storedBefore := by
  cases p with
  | written workflow before =>
    obtain rfl := Option.some.inj hp
    exact h.2
  | activating workflow before =>
    obtain rfl := Option.some.inj hp
    exact h.2
  | resolved before =>
    obtain rfl := Option.some.inj hp
    exact h
  | waiting => cases hp
  | checked workflow versionId writesSeen => cases hp
  | rejected error => cases hp

theorem Sound.newVersion (h : Sound call s p) (hp : p.newVersion? = some x) :
    x ∈ s.generated ∧ x ∉ s.stored := by
  cases p with
  | checked workflow versionId writesSeen =>
    obtain ⟨_, _, _, uuid, hgenerated, rfl, hnew⟩ := h
    obtain rfl := Option.some.inj hp
    exact ⟨hgenerated, hnew⟩
  | _ => cases hp

theorem Sound.generate (h : Sound call s p) : Sound call (s.generate uuid) p := by
  cases p with
  | checked workflow versionId writesSeen =>
    obtain ⟨hcarried, hseen, hrow, new, hgenerated, hnew⟩ := h
    exact ⟨hcarried, hseen, hrow, new, List.mem_cons_of_mem _ hgenerated, hnew⟩
  | _ => exact h

theorem Saved.write (h : Saved call s storedBefore) (hx : storedBefore ≠ x) :
    Saved call (s.write (some x) active) storedBefore :=
  ⟨h.1, h.mem_stored, hx⟩

/-- The row gets a version that no other call is about to write or has replaced. -/
theorem Sound.write (h : Sound call s p) (hnew : p.newVersion? ≠ some x)
    (hsaved : p.storedBefore? ≠ some x) : Sound call (s.write (some x) active) p := by
  have hsaved' : ∀ before, p.storedBefore? = some before → before ≠ x := by
    rintro before hp rfl
    exact hsaved hp
  cases p with
  | waiting => trivial
  | rejected error => trivial
  | checked workflow versionId writesSeen =>
    obtain ⟨hcarried, hseen, _, uuid, hgenerated, rfl, huuid⟩ := h
    have hlater : writesSeen < (s.write (some x) active).earlier.length := Nat.lt_succ_of_le hseen
    refine ⟨hcarried, Nat.le_of_lt hlater, fun heq => absurd heq (Nat.ne_of_lt hlater), uuid,
      hgenerated, rfl, ?_⟩
    rintro (_ | ⟨_, hmem⟩)
    · exact hnew rfl
    · exact huuid hmem
  | written workflow before => exact ⟨h.1, h.2.write (hsaved' before rfl)⟩
  | activating workflow before => exact ⟨h.1, h.2.write (hsaved' before rfl)⟩
  | resolved before => exact Saved.write h (hsaved' before rfl)

theorem Apart.others {version? : Progress → Option String} (h : Apart version? s)
    (hk : version? (s.progress k) = some x) :
    ∀ v, some x = some v → ∀ j ≠ k, version? (s.progress j) ≠ some v := by
  intro v hx j hj hv
  exact hj (h j k v hv (hk.trans hx))

theorem consistent_initial (calls : κ → UpdateCall) (row : WorkflowRow) :
    Consistent calls (initial row) where
  sound _ := trivial
  newApart := nofun
  savedApart := nofun

variable [DecidableEq κ]

theorem become_of_ne {j : κ} (hj : j ≠ k) : (s.become k p).progress j = s.progress j :=
  Function.update_of_ne hj _ _

theorem become_self : (s.become k p).progress k = p := Function.update_self _ _ _

theorem Apart.become {version? : Progress → Option String} (h : Apart version? s)
    (hp : ∀ v, version? p = some v → ∀ j ≠ k, version? (s.progress j) ≠ some v) :
    Apart version? (s.become k p) := by
  intro i j v hi hj
  by_cases hik : i = k <;> by_cases hjk : j = k
  · exact hik.trans hjk.symm
  · subst hik
    rw [become_self] at hi
    rw [become_of_ne hjk] at hj
    exact absurd hj (hp v hi j hjk)
  · subst hjk
    rw [become_self] at hj
    rw [become_of_ne hik] at hi
    exact absurd hi (hp v hj i hik)
  · rw [become_of_ne hik] at hi
    rw [become_of_ne hjk] at hj
    exact h i j v hi hj

/-- One call goes on. The others are sound with the row that it leaves. -/
theorem consistent_become (hothers : ∀ j ≠ k, Sound (calls j) s (s.progress j))
    (hnewApart : Apart Progress.newVersion? s) (hsavedApart : Apart Progress.storedBefore? s)
    (hp : Sound (calls k) s p)
    (hnew : ∀ v, p.newVersion? = some v → ∀ j ≠ k, (s.progress j).newVersion? ≠ some v)
    (hsaved : ∀ v, p.storedBefore? = some v → ∀ j ≠ k, (s.progress j).storedBefore? ≠ some v) :
    Consistent calls (s.become k p) where
  sound j := by
    have hsame : ∀ q, Sound (calls j) s q → Sound (calls j) (s.become k p) q := by
      intro q hq
      cases q <;> exact hq
    by_cases hj : j = k
    · subst hj
      rw [become_self]
      exact hsame p hp
    · rw [become_of_ne hj]
      exact hsame _ (hothers j hj)
  newApart := hnewApart.become hnew
  savedApart := hsavedApart.become hsaved

theorem Consistent.step (h : Consistent calls s) (hguarded : ∀ k, (calls k).Guarded)
    {e : UpdateEvent κ} (hundisturbed : Undisturbed s e) (hstep : UpdateStep calls s e s') :
    Consistent calls s' := by
  cases hstep with
  | @accept k uuid versionId hwaiting hfresh hcheck =>
    obtain ⟨hcarried, rfl⟩ := checkVersion_ok (hguarded k) hcheck
    refine consistent_become (fun j _ => (h.sound j).generate) h.newApart h.savedApart
      ⟨hcarried, Nat.le_refl _, fun _ => rfl, uuid, List.mem_cons_self, rfl, hfresh.1⟩ ?_ nofun
    intro v hv j _ hj
    obtain rfl := Option.some.inj hv
    exact hfresh.2 ((h.sound j).newVersion hj).1
  | refuse _ _ =>
    exact consistent_become (fun j _ => h.sound j) h.newApart h.savedApart trivial nofun nofun
  | @update k workflow versionId writesSeen hchecked =>
    have hsound := h.sound k
    rw [hchecked] at hsound
    obtain ⟨hcarried, _, hrow, uuid, _, rfl, huuid⟩ := hsound
    have hcurrent : s.row.versionId = workflow.versionId :=
      hrow (hundisturbed workflow _ writesSeen hchecked)
    have hne : s.row.versionId ≠ uuid := fun heq => huuid (heq ▸ List.mem_cons_self)
    refine consistent_become (fun j hj => (h.sound j).write ?_ ?_) h.newApart h.savedApart
      ⟨hcurrent.symm, hcurrent ▸ hcarried, List.mem_cons_self, hne⟩ nofun ?_
    · intro hnew
      exact hj (h.newApart j k uuid hnew (by rw [hchecked]; rfl))
    · intro hsaved
      exact huuid ((h.sound j).saved hsaved).mem_stored
    · intro v hv j _ hj
      obtain rfl := Option.some.inj hv
      exact ((h.sound j).saved hj).2.2 rfl
  | @findOne k workflow before hwritten =>
    have hsound := h.sound k
    rw [hwritten] at hsound
    have hbefore := h.savedApart.others (k := k) (by rw [hwritten]; rfl)
    split_ifs
    · exact consistent_become (fun j _ => h.sound j) h.newApart h.savedApart hsound nofun hbefore
    · exact consistent_become (fun j _ => h.sound j) h.newApart h.savedApart hsound.2 nofun hbefore
  | @activate k workflow before hactivating =>
    have hsound := h.sound k
    rw [hactivating] at hsound
    exact consistent_become (fun j _ => h.sound j) h.newApart h.savedApart hsound.2 nofun
      (h.savedApart.others (by rw [hactivating]; rfl))
  | @revert k message workflow before hactivating =>
    have hsound := h.sound k
    rw [hactivating] at hsound
    obtain ⟨rfl, hsaved⟩ := hsound
    refine consistent_become (fun j hj => (h.sound j).write ?_ ?_) h.newApart h.savedApart
      trivial nofun nofun
    · intro hnew
      exact ((h.sound j).newVersion hnew).2 hsaved.mem_stored
    · intro hj'
      exact hj (h.savedApart j k _ hj' (by rw [hactivating]; rfl))
  | raise _ =>
    exact consistent_become (fun j _ => h.sound j) h.newApart h.savedApart trivial nofun nofun

end Steps

section Main
variable {calls : κ → UpdateCall} {s : UpdateState κ}

theorem Consistent.nothingOverwritten (h : Consistent calls s) : NothingOverwritten calls s := by
  have hsaved : ∀ k before, s.progress k = .resolved before → Saved (calls k) s before :=
    fun k before hk => (h.sound k).saved (by rw [hk]; rfl)
  refine ⟨?_, fun k before hk => (hsaved k before hk).1⟩
  intro j k before before' hj hk hsame
  have hbefore : before = before' := Option.some.inj <|
    calc some before = (calls j).versionId := (hsaved j before hj).1.symm
      _ = (calls k).versionId := hsame
      _ = some before' := (hsaved k before' hk).1
  exact h.savedApart j k before (by rw [hj]; rfl) (by rw [hk, hbefore]; rfl)

variable [DecidableEq κ]

/-- When nothing is written between the moment at which a call reads the row and its own
write, no edit is lost. -/
theorem nothingOverwritten_of_run (hguarded : ∀ k, (calls k).Guarded) {row : WorkflowRow}
    {tr : List (UpdateEvent κ × UpdateState κ)} (hr : Run (UpdateStep calls) (initial row) tr)
    (hundisturbed : EveryStep Undisturbed (initial row) tr) :
    Always (NothingOverwritten calls) (initial row) tr :=
  (hr.always (consistent_initial calls row)
    (fun _ _ _ h hcondition hstep => h.step hguarded hcondition hstep) hundisturbed).mono
      fun _ h => h.nothingOverwritten

end Main

section Example

/-- Two windows in which the workflow is edited. -/
def edits (base : Bool → String) (window : Bool) : UpdateCall :=
  ⟨true, some (base window), none, ["nodes", "connections", "versionId"], false⟩

theorem edits_guarded {base : Bool → String} (hbase : ∀ window, base window ≠ "") (window : Bool) :
    (edits base window).Guarded :=
  ⟨rfl, rfl, ⟨base window, rfl, hbase window⟩, List.cons_ne_nil "nodes" ["connections"]⟩

def stored0 : UpdateState Bool := initial ⟨"v0", false⟩

/-- Both calls read the row before either of them writes it. -/
def lostEdit : List (UpdateEvent Bool × UpdateState Bool) :=
  let s1 := (stored0.generate "v1").become true (.checked ⟨"v0", false⟩ (some "v1") 0)
  let s2 := (s1.generate "v2").become false (.checked ⟨"v0", false⟩ (some "v2") 0)
  let s3 := (s2.write (some "v1") none).become true (.written ⟨"v0", false⟩ "v0")
  let s4 := (s3.write (some "v2") none).become false (.written ⟨"v0", false⟩ "v1")
  let s5 := s4.become true (.resolved "v0")
  [(.findWorkflowForUser true "v1", s1), (.findWorkflowForUser false "v2", s2),
    (.update true, s3), (.update false, s4), (.findOne true, s5),
    (.findOne false, s5.become false (.resolved "v1"))]

theorem lostEdit_overwrites :
    (∀ window, (edits (fun _ => "v0") window).Guarded) ∧
      Run (UpdateStep (edits fun _ => "v0")) stored0 lostEdit ∧
      ¬ Always (NothingOverwritten (edits fun _ => "v0")) stored0 lostEdit := by
  refine ⟨edits_guarded (by decide), ?_, fun h => ?_⟩
  · exact .cons (.accept rfl (by decide) (by decide)) <|
      .cons (.accept rfl (by decide) (by decide)) <| .cons (.update rfl) <| .cons (.update rfl) <|
      .cons (.findOne rfl) <| .cons (.findOne rfl) <| .nil _
  · exact absurd (h.final.oncePerVersion true false "v0" "v1" rfl rfl rfl) (by decide)

/-- The second call starts from the version that the first one has written. -/
def bothEdits : List (UpdateEvent Bool × UpdateState Bool) :=
  let s1 := (stored0.generate "v1").become true (.checked ⟨"v0", false⟩ (some "v1") 0)
  let s2 := (s1.write (some "v1") none).become true (.written ⟨"v0", false⟩ "v0")
  let s3 := s2.become true (.resolved "v0")
  let s4 := (s3.generate "v2").become false (.checked ⟨"v1", false⟩ (some "v2") 1)
  let s5 := (s4.write (some "v2") none).become false (.written ⟨"v1", false⟩ "v1")
  [(.findWorkflowForUser true "v1", s1), (.update true, s2), (.findOne true, s3),
    (.findWorkflowForUser false "v2", s4), (.update false, s5),
    (.findOne false, s5.become false (.resolved "v1"))]

theorem bothEdits_kept :
    Always (NothingOverwritten (edits fun window => if window then "v0" else "v1")) stored0
      bothEdits := by
  refine nothingOverwritten_of_run (edits_guarded (by decide)) ?_ ?_
  · exact .cons (.accept rfl (by decide) (by decide)) <| .cons (.update rfl) <|
      .cons (.findOne rfl) <| .cons (.accept rfl (by decide) (by decide)) <|
      .cons (.update rfl) <| .cons (.findOne rfl) <| .nil _
  · refine ⟨trivial, ?_, trivial, trivial, ?_, trivial, trivial⟩
    · rintro workflow versionId writesSeen hchecked
      obtain ⟨_, _, rfl⟩ := Progress.checked.inj hchecked
      rfl
    · rintro workflow versionId writesSeen hchecked
      obtain ⟨_, _, rfl⟩ := Progress.checked.inj hchecked
      rfl

end Example

end WorkflowUpdate
end N8n
