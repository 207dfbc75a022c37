import Mathlib.Logic.Function.Basic
import N8n.Foundations.Runs

/-!
# The leader among several main processes

Main processes share a key in Redis that holds the id of the leader. Every operation on
the key is sent, performed in one step, and answered; other steps may come between. The
key may expire whenever it is set, so that a renewal of its time to live shows nowhere.
-/

namespace N8n.Scaling
open N8n.Runs

inductive InstanceRole where
  | unset
  | leader
  | follower
  deriving DecidableEq, Repr

inductive LeaderEvent where
  | stepdown
  | takeover
  deriving DecidableEq, Repr

/-- Who has called `tryBecomeLeader`. -/
inductive Caller where
  | init
  | checkLeader
  deriving DecidableEq, Repr

/-- A call of `init` or `checkLeader`, by the operation it waits for: the operation was sent,
or it was performed and the answer is on its way. -/
inductive Call (η : Type*) where
  | get
  | gotten (leaderId : Option η)
  | setExpiration
  | expirationSet
  | setIfNotExists (caller : Caller)
  | keySet (caller : Caller) (keySetSuccessfully : Bool)
  deriving DecidableEq, Repr

/-- A main process. The clears are those of `shutdown` that were sent. -/
structure Main (η : Type*) where
  instanceRole : InstanceRole
  leaderCheckInterval : Bool
  initCalled : Bool
  shutDown : Bool
  calls : List (Call η)
  clears : ℕ
  emitted : List LeaderEvent

namespace Main
variable {η : Type*} (main : Main η)

def initial : Main η := ⟨.unset, false, false, false, [], 0, []⟩

def isLeader : Bool := main.instanceRole = .leader

def markAsLeader : Main η := { main with instanceRole := .leader }

def markAsFollower : Main η := { main with instanceRole := .follower }

def emit (event : LeaderEvent) : Main η := { main with emitted := main.emitted ++ [event] }

def init : Main η :=
  { main with initCalled := true, calls := main.calls ++ [.setIfNotExists .init] }

def checkLeader : Main η := { main with calls := main.calls ++ [.get] }

def shutdown : Main η :=
  { main with
    leaderCheckInterval := false
    shutDown := true
    clears := if main.isLeader then main.clears + 1 else main.clears }

/-- The end of `tryBecomeLeader`. -/
def tried (keySetSuccessfully : Bool) : Main η :=
  if keySetSuccessfully then (main.markAsLeader).emit .takeover else main.markAsFollower

variable [DecidableEq η] (hostId : η)

/-- `checkLeader` after its `get`. -/
def checked (leaderId : Option η) : Main η :=
  match leaderId with
  | some leaderId =>
    if leaderId = hostId then { main with calls := main.calls ++ [.setExpiration] }
    else if main.isLeader then (main.markAsFollower).emit .stepdown
    else main
  | none =>
    let main := (main.markAsFollower).emit .stepdown
    { main with calls := main.calls ++ [.setIfNotExists .checkLeader] }

/-- A call goes on with the answer to its operation. -/
def resume (call : Call η) : Main η :=
  let main := { main with calls := main.calls.erase call }
  match call with
  | .gotten leaderId => main.checked hostId leaderId
  | .keySet .checkLeader keySetSuccessfully => main.tried keySetSuccessfully
  | .keySet .init keySetSuccessfully =>
    { main.tried keySetSuccessfully with leaderCheckInterval := true }
  | _ => main

end Main

structure MultiMain (η : Type*) where
  leaderKey : Option η
  mains : η → Main η

namespace MultiMain
variable {η : Type*} [DecidableEq η] (s : MultiMain η)

def initial : MultiMain η := ⟨none, fun _ => .initial⟩

def update (hostId : η) (f : Main η → Main η) : MultiMain η :=
  { s with mains := Function.update s.mains hostId (f (s.mains hostId)) }

/-- Redis performs the operation of a call, and the answer takes its place. -/
def perform (hostId : η) (call : Call η) : MultiMain η :=
  let answered (answer : Call η) : MultiMain η :=
    s.update hostId fun main => { main with calls := main.calls.erase call ++ [answer] }
  match call with
  | .get => answered (.gotten s.leaderKey)
  | .setExpiration => answered .expirationSet
  | .setIfNotExists caller =>
    match s.leaderKey with
    | none => { answered (.keySet caller true) with leaderKey := some hostId }
    | some _ => answered (.keySet caller false)
  | _ => s

/-- Redis performs the clear of a `shutdown`. -/
def clear (hostId : η) : MultiMain η :=
  { s.update hostId fun main => { main with clears := main.clears - 1 } with leaderKey := none }

inductive Event (η : Type*) where
  | expire
  | init (hostId : η)
  | checkLeader (hostId : η)
  | shutdown (hostId : η)
  | perform (hostId : η) (call : Call η)
  | resume (hostId : η) (call : Call η)
  | clear (hostId : η)
  deriving DecidableEq, Repr

def Event.host : Event η → Option η
  | .expire => none
  | .init hostId | .checkLeader hostId | .shutdown hostId | .perform hostId _ | .resume hostId _
  | .clear hostId => some hostId

/-- Operations that are sent, and answers that are on their way. -/
def sent : Call η → Bool
  | .get | .setExpiration | .setIfNotExists _ => true
  | _ => false

def Enabled : Event η → Prop
  | .expire => s.leaderKey ≠ none
  | .init hostId => (s.mains hostId).initCalled = false
  | .checkLeader hostId => (s.mains hostId).leaderCheckInterval = true
  | .shutdown _ => True
  | .perform hostId call => call ∈ (s.mains hostId).calls ∧ sent call = true
  | .resume hostId call => call ∈ (s.mains hostId).calls ∧ sent call = false
  | .clear hostId => 0 < (s.mains hostId).clears

def next : Event η → MultiMain η
  | .expire => { s with leaderKey := none }
  | .init hostId => s.update hostId Main.init
  | .checkLeader hostId => s.update hostId Main.checkLeader
  | .shutdown hostId => s.update hostId Main.shutdown
  | .perform hostId call => s.perform hostId call
  | .resume hostId call => s.update hostId (·.resume hostId call)
  | .clear hostId => s.clear hostId

def Step (s : MultiMain η) (e : Event η) (s' : MultiMain η) : Prop := s.Enabled e ∧ s' = s.next e

instance (e : Event η) : Decidable (s.Enabled e) :=
  match e with
  | .expire => inferInstanceAs (Decidable (s.leaderKey ≠ none))
  | .init hostId => inferInstanceAs (Decidable ((s.mains hostId).initCalled = false))
  | .checkLeader hostId => inferInstanceAs (Decidable ((s.mains hostId).leaderCheckInterval = true))
  | .shutdown _ => isTrue trivial
  | .perform hostId call =>
    inferInstanceAs (Decidable (call ∈ (s.mains hostId).calls ∧ sent call = true))
  | .resume hostId call =>
    inferInstanceAs (Decidable (call ∈ (s.mains hostId).calls ∧ sent call = false))
  | .clear hostId => inferInstanceAs (Decidable (0 < (s.mains hostId).clears))

section Main
variable {main : Main η} {hostId : η} {call : Call η}

/-- The answer to a successful `setIfNotExists` is on its way. -/
def awaitsTakeover (main : Main η) : Prop := ∃ caller, .keySet caller true ∈ main.calls

instance (main : Main η) : Decidable (awaitsTakeover main) :=
  decidable_of_iff (.keySet .init true ∈ main.calls ∨ .keySet .checkLeader true ∈ main.calls) <| by
    constructor
    · rintro (h | h)
      exacts [⟨_, h⟩, ⟨_, h⟩]
    · rintro ⟨_ | _, h⟩
      exacts [Or.inl h, Or.inr h]

/-- The process is leader or will be as soon as it gets an answer that is on its way. -/
def Informed (main : Main η) : Prop :=
  main.shutDown = false → main.isLeader = true ∨ awaitsTakeover main

/-- The process marks itself as a follower when the call goes on. -/
def marksFollower (hostId : η) (main : Main η) : Call η → Bool
  | .gotten none => true
  | .gotten (some leaderId) => decide (leaderId ≠ hostId) && main.isLeader
  | .keySet _ keySetSuccessfully => !keySetSuccessfully
  | _ => false

theorem awaitsTakeover.erase (h : awaitsTakeover main) (call : Call η)
    (hcall : ∀ caller, call ≠ .keySet caller true) :
    awaitsTakeover { main with calls := main.calls.erase call } := by
  obtain ⟨caller, hmem⟩ := h
  exact ⟨caller, (List.mem_erase_of_ne (hcall caller).symm).mpr hmem⟩

omit [DecidableEq η] in
theorem awaitsTakeover.append (h : awaitsTakeover main) (calls : List (Call η)) :
    awaitsTakeover { main with calls := main.calls ++ calls } := by
  obtain ⟨caller, hmem⟩ := h
  exact ⟨caller, List.mem_append_left _ hmem⟩

theorem Informed.erase (h : Informed main) (call : Call η)
    (hcall : ∀ caller, call ≠ .keySet caller true) :
    Informed { main with calls := main.calls.erase call } :=
  fun hshut => (h hshut).imp_right fun hawaits => hawaits.erase call hcall

omit [DecidableEq η] in
theorem Informed.append (h : Informed main) (calls : List (Call η)) :
    Informed { main with calls := main.calls ++ calls } :=
  fun hshut => (h hshut).imp_right fun hawaits => hawaits.append calls

/-- A call that marks no follower, or marks one that awaits a takeover, keeps the process
informed. -/
theorem Informed.resume (h : Informed main) (hmarks : marksFollower hostId main call = true →
    main.shutDown = false → awaitsTakeover main) : Informed (main.resume hostId call) := by
  cases call with
  | get => exact h.erase .get nofun
  | setExpiration => exact h.erase .setExpiration nofun
  | expirationSet => exact h.erase .expirationSet nofun
  | setIfNotExists caller => exact h.erase (.setIfNotExists caller) nofun
  | gotten leaderId =>
    have herase := h.erase (.gotten leaderId) nofun
    cases leaderId with
    | none =>
      intro hshut
      have hawaits := (hmarks rfl hshut).erase (.gotten none) nofun
      exact Or.inr (hawaits.append [.setIfNotExists .checkLeader])
    | some leaderId =>
      simp only [Main.resume, Main.checked]
      split_ifs with hself hleader
      · exact herase.append [.setExpiration]
      · intro hshut
        have hmark : marksFollower hostId main (.gotten (some leaderId)) = true := by
          rw [marksFollower, Bool.and_eq_true, decide_eq_true_eq]
          exact ⟨hself, hleader⟩
        exact Or.inr ((hmarks hmark hshut).erase (.gotten (some leaderId)) nofun)
      · exact herase
  | keySet caller keySetSuccessfully =>
    cases keySetSuccessfully with
    | true =>
      intro _
      cases caller <;> exact Or.inl rfl
    | false =>
      intro hshut
      have hshut : main.shutDown = false := by cases caller <;> exact hshut
      have hawaits := (hmarks rfl hshut).erase (.keySet caller false) nofun
      cases caller <;> exact Or.inr hawaits

/-- The answer to an operation takes the place of the operation. -/
theorem Informed.answer (h : Informed main) (hsent : sent call = true) (answer : Call η) :
    Informed { main with calls := main.calls.erase call ++ [answer] } := by
  have hcall : ∀ caller, call ≠ .keySet caller true := by
    rintro caller rfl
    cases hsent
  exact (h.erase call hcall).append [answer]

end Main

/-! ### The holder of the key is informed -/

section LeaderKnows
variable {s} {s' : MultiMain η} {e : Event η}

/-- Where no call is in progress, the process that the key names knows that it is leader. -/
def LeaderKnows (s : MultiMain η) : Prop :=
  ∀ hostId, (s.mains hostId).calls = [] → (s.mains hostId).shutDown = false →
    s.leaderKey = some hostId → (s.mains hostId).isLeader = true

def HolderInformed (s : MultiMain η) : Prop :=
  ∀ hostId, s.leaderKey = some hostId → Informed (s.mains hostId)

omit [DecidableEq η] in
theorem HolderInformed.leaderKnows (h : HolderInformed s) : s.LeaderKnows := by
  intro hostId hcalls hshut hkey
  refine (h hostId hkey hshut).resolve_right ?_
  rintro ⟨caller, hmem⟩
  rw [hcalls] at hmem
  cases hmem

/-- The process that the key names is marked as a follower only while it awaits a takeover. -/
def DemotesNoHolder (s : MultiMain η) : Event η → Prop
  | .resume hostId call =>
    s.leaderKey = some hostId → marksFollower hostId (s.mains hostId) call = true →
      (s.mains hostId).shutDown = false → awaitsTakeover (s.mains hostId)
  | _ => True

instance (e : Event η) : Decidable (s.DemotesNoHolder e) :=
  match e with
  | .resume hostId call =>
    inferInstanceAs (Decidable (s.leaderKey = some hostId →
      marksFollower hostId (s.mains hostId) call = true → (s.mains hostId).shutDown = false →
        awaitsTakeover (s.mains hostId)))
  | .expire | .init _ | .checkLeader _ | .shutdown _ | .perform _ _ | .clear _ => isTrue trivial

/-- A change to one process, which does not give it the key. -/
theorem HolderInformed.update (h : HolderInformed s) (hostId : η) {f : Main η → Main η}
    (hf : s.leaderKey = some hostId → Informed (s.mains hostId) → Informed (f (s.mains hostId))) :
    HolderInformed (s.update hostId f) := by
  intro hostId' hkey
  simp only [MultiMain.update]
  by_cases hhost : hostId' = hostId
  · subst hhost
    rw [Function.update_self]
    exact hf hkey (h hostId' hkey)
  · rw [Function.update_of_ne hhost]
    exact h hostId' hkey

theorem HolderInformed.perform (h : HolderInformed s) {hostId : η} {call : Call η}
    (hsent : sent call = true) : HolderInformed (s.perform hostId call) := by
  have hanswer : ∀ answer, HolderInformed
      (s.update hostId fun main => { main with calls := main.calls.erase call ++ [answer] }) :=
    fun answer => h.update hostId fun _ hinformed => hinformed.answer hsent answer
  cases call with
  | get => exact hanswer _
  | setExpiration => exact hanswer _
  | setIfNotExists caller =>
    rw [MultiMain.perform]
    dsimp only
    split
    · intro hostId' hkey hshut
      obtain rfl : hostId = hostId' := Option.some.inj hkey
      refine Or.inr ⟨caller, ?_⟩
      simp only [MultiMain.update, Function.update_self]
      exact List.mem_append_right _ List.mem_cons_self
    · exact hanswer _
  | _ => cases hsent

theorem HolderInformed.step (h : HolderInformed s) (hdemotes : s.DemotesNoHolder e)
    (hs : Step s e s') : HolderInformed s' := by
  obtain ⟨henabled, rfl⟩ := hs
  cases e with
  | expire => exact nofun
  | init hostId => exact h.update hostId fun _ hinformed => hinformed.append [.setIfNotExists .init]
  | checkLeader hostId => exact h.update hostId fun _ hinformed => hinformed.append [.get]
  | shutdown hostId => exact h.update hostId fun _ _ => nofun
  | perform hostId call => exact h.perform henabled.2
  | resume hostId call =>
    exact h.update hostId fun hkey hinformed => hinformed.resume (hdemotes hkey)
  | clear hostId => exact nofun

theorem leaderKnows_of_demotesNoHolder {tr : List (Event η × MultiMain η)}
    (hr : Run Step initial tr) (hdemotes : EveryStep DemotesNoHolder initial tr) :
    Always LeaderKnows initial tr := by
  have hinitial : HolderInformed (initial : MultiMain η) := nofun
  exact (hr.always hinitial (fun _ _ _ h hc hs => h.step hc hs) hdemotes).mono
    fun _ h => h.leaderKnows

end LeaderKnows

/-! ### Who takes the key away -/

section KeyTaken
variable {s} {s' : MultiMain η} {e : Event η}

/-- A process loses the key to its expiry or by a step of its own. -/
def OwnLoss (s : MultiMain η) (e : Event η) (s' : MultiMain η) : Prop :=
  ∀ hostId, s.leaderKey = some hostId → s'.leaderKey ≠ some hostId →
    e = .expire ∨ e.host = some hostId

/-- A clear finds the key of the process that has sent it, or none. -/
def ClearsOwn (s : MultiMain η) : Event η → Prop
  | .clear hostId => s.leaderKey = none ∨ s.leaderKey = some hostId
  | _ => True

theorem leaderKey_perform {hostId holder : η} (call : Call η) (hkey : s.leaderKey = some holder) :
    (s.perform hostId call).leaderKey = some holder := by
  cases call with
  | setIfNotExists caller =>
    simp only [perform, hkey]
    exact hkey
  | _ => exact hkey

theorem ownLoss_iff (hs : Step s e s') : OwnLoss s e s' ↔ ClearsOwn s e := by
  obtain ⟨_, rfl⟩ := hs
  cases e with
  | expire => exact iff_of_true (fun _ _ _ => Or.inl rfl) trivial
  | init hostId => exact iff_of_true (fun _ hkey hlost => absurd hkey hlost) trivial
  | checkLeader hostId => exact iff_of_true (fun _ hkey hlost => absurd hkey hlost) trivial
  | shutdown hostId => exact iff_of_true (fun _ hkey hlost => absurd hkey hlost) trivial
  | resume hostId call => exact iff_of_true (fun _ hkey hlost => absurd hkey hlost) trivial
  | perform hostId call =>
    refine iff_of_true (fun holder hkey hlost => ?_) trivial
    exact absurd (leaderKey_perform call hkey) hlost
  | clear hostId =>
    constructor
    · intro h
      cases hkey : s.leaderKey with
      | none => exact Or.inl hkey
      | some holder =>
        refine Or.inr (hkey.trans ?_)
        rcases h holder hkey nofun with h | h
        · cases h
        · exact h.symm
    · rintro (hnone | hown) holder hkey _
      · rw [hnone] at hkey
        cases hkey
      · exact Or.inr (hown.symm.trans hkey)

theorem ownLoss_iff_clearsOwn {tr : List (Event η × MultiMain η)} (hr : Run Step initial tr) :
    EveryTransition OwnLoss initial tr ↔ EveryStep ClearsOwn initial tr :=
  hr.everyTransition_iff_of_step fun _ _ _ hs => ownLoss_iff hs

end KeyTaken

section Example

/-- Host `1` becomes leader in `init`. -/
def elected : List (Event ℕ) :=
  [.init 1, .perform 1 (.setIfNotExists .init), .resume 1 (.keySet .init true)]

/-- The key expires, and two checks of host `1` both find it vacant. -/
def overlappingChecks : List (Event ℕ) :=
  elected ++ [.expire, .checkLeader 1, .checkLeader 1, .perform 1 .get, .perform 1 .get,
    .resume 1 (.gotten none), .resume 1 (.gotten none),
    .perform 1 (.setIfNotExists .checkLeader), .perform 1 (.setIfNotExists .checkLeader),
    .resume 1 (.keySet .checkLeader true), .resume 1 (.keySet .checkLeader false)]

/-- The second check marks host `1` as a follower, which later checks leave as it is. -/
theorem overlappingChecks_not_leaderKnows :
    Run Step initial (trace next initial overlappingChecks) ∧
    ¬ Always LeaderKnows initial (trace next initial overlappingChecks) := by
  refine ⟨run_trace (fun _ _ h => ⟨h, rfl⟩) (by decide), fun h => ?_⟩
  have hleader := h.final 1 (by decide) (by decide) (by decide)
  revert hleader
  decide

/-- A check that renews the key, then one that finds it vacant and takes it again. -/
def renewed : List (Event ℕ) :=
  elected ++ [.checkLeader 1, .perform 1 .get, .resume 1 (.gotten (some 1)),
    .perform 1 .setExpiration, .resume 1 .expirationSet, .expire, .checkLeader 1, .perform 1 .get,
    .resume 1 (.gotten none), .perform 1 (.setIfNotExists .checkLeader),
    .resume 1 (.keySet .checkLeader true)]

theorem renewed_leaderKnows : Always LeaderKnows initial (trace next initial renewed) :=
  leaderKnows_of_demotesNoHolder (run_trace (fun _ _ h => ⟨h, rfl⟩) (by decide)) (by decide)

/-- The key of host `1` expires, host `2` takes it, and host `1` shuts down. -/
def lateShutdown : List (Event ℕ) :=
  elected ++ [.expire, .init 2, .perform 2 (.setIfNotExists .init), .resume 2 (.keySet .init true),
    .shutdown 1, .clear 1]

theorem lateShutdown_not_ownLoss :
    Run Step initial (trace next initial lateShutdown) ∧
    ¬ EveryTransition OwnLoss initial (trace next initial lateShutdown) := by
  have hrun : Run Step initial (trace next initial lateShutdown) :=
    run_trace (fun _ _ h => ⟨h, rfl⟩) (by decide)
  refine ⟨hrun, fun h => ?_⟩
  obtain ⟨-, -, -, -, -, -, -, -, hclear, -⟩ := h
  rcases hclear 2 (by decide) (by decide) with hexpire | hhost
  · cases hexpire
  · cases hhost

/-- Host `1` shuts down while the key is its own. -/
theorem elected_ownLoss :
    EveryTransition OwnLoss initial
      (trace next initial (elected ++ [.shutdown 1, .clear 1])) := by
  have hrun : Run Step initial (trace next initial (elected ++ [.shutdown 1, .clear 1])) :=
    run_trace (fun _ _ h => ⟨h, rfl⟩) (by decide)
  exact (ownLoss_iff_clearsOwn hrun).mpr ⟨trivial, trivial, trivial, trivial, Or.inr rfl, trivial⟩

end Example

end MultiMain
end N8n.Scaling
