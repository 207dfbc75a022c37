import Mathlib.Algebra.Order.Floor.Semiring
import Mathlib.Data.Rat.Floor
import Mathlib.Tactic.Linarith

/-!
# Retries of a node

The calls of `runNode` that are made for one item of the stack. The loop over the tries is
repeated after an error that was thrown; a loop within it is repeated while the first item
that was returned carries an error. Both count in `tryIndex`, but a call of the inner loop
that throws is not counted.
-/

namespace N8n.RetryOnFail

/-- `maxTries` is `none` where it is absent or not a number. A node with pinned data that is
not disabled is not run. -/
structure NodeSettings where
  retryOnFail : Bool
  maxTries : Option ℚ
  pinned : Bool

/-- `maxTries || 3` -/
def orThree : Option ℚ → ℚ
  | none => 3
  | some n => if n = 0 then 3 else n

def NodeSettings.tries (settings : NodeSettings) : ℚ :=
  if settings.retryOnFail then min 5 (max 2 (orThree settings.maxTries)) else 1

/-- What a call of `runNode` comes to. A call that returns is followed by the rest of the `try`
block, which may throw. -/
inductive Outcome where
  | throws
  | returnsError (restThrows : Bool)
  | returns (restThrows : Bool)
  deriving DecidableEq, Repr

/-- `nodeSuccessData?.[0]?.[0]?.json?.error === undefined` -/
def Outcome.IsSuccess : Outcome → Prop
  | .throws => False
  | .returnsError _ => False
  | .returns _ => True

def Outcome.IsError : Outcome → Prop
  | .throws => False
  | .returnsError _ => True
  | .returns _ => False

/-- The loop at a call of `runNode`: the first one of a try, or one of the inner loop. -/
inductive Position where
  | outer (tryIndex : ℕ)
  | inner (tryIndex : ℕ)
  | finished
  deriving DecidableEq, Repr

/-- The head of the loop over the tries. -/
def enterTry (maxTries : ℚ) (tryIndex : ℕ) : Position :=
  if (tryIndex : ℚ) < maxTries then .outer tryIndex else .finished

/-- The rest of the `try` block leaves the loop, unless it throws. -/
def rest (maxTries : ℚ) (tryIndex : ℕ) (restThrows : Bool) : Position :=
  if restThrows then enterTry maxTries (tryIndex + 1) else .finished

/-- The head of the inner loop, after a call that returned. -/
def continueOnFail (maxTries : ℚ) (tryIndex : ℕ) : Outcome → Position
  | .throws => enterTry maxTries (tryIndex + 1)
  | .returnsError restThrows =>
    if (tryIndex : ℚ) ≠ maxTries - 1 then .inner tryIndex else rest maxTries tryIndex restThrows
  | .returns restThrows => rest maxTries tryIndex restThrows

def next (maxTries : ℚ) : Position → Outcome → Position
  | .outer tryIndex, outcome => continueOnFail maxTries tryIndex outcome
  -- a call that throws does not get to `tryIndex++`
  | .inner tryIndex, .throws => enterTry maxTries (tryIndex + 1)
  | .inner tryIndex, outcome => continueOnFail maxTries (tryIndex + 1) outcome
  | .finished, _ => .finished

/-- The loop after the first `n` calls, if that many are made. -/
def after (settings : NodeSettings) (outcomes : ℕ → Outcome) : ℕ → Position
  | 0 => if settings.pinned then .finished else enterTry settings.tries 0
  | n + 1 => next settings.tries (after settings outcomes n) (outcomes n)

/-- Calls are counted from zero, as outcomes are. -/
def CallMade (settings : NodeSettings) (outcomes : ℕ → Outcome) (n : ℕ) : Prop :=
  after settings outcomes n ≠ .finished

structure RespectsBudget (settings : NodeSettings) (outcomes : ℕ → Outcome) : Prop where
  atMost : ∀ n, CallMade settings outcomes n → (n + 1 : ℚ) ≤ settings.tries
  notAfterSuccess : ∀ m n, CallMade settings outcomes m → (outcomes m).IsSuccess → m < n →
    ¬ CallMade settings outcomes n
  fewerAfterSuccess : ∀ n, CallMade settings outcomes n → ¬ CallMade settings outcomes (n + 1) →
    (n + 1 : ℚ) < settings.tries → (outcomes n).IsSuccess

/-- The first success comes within the budget, and what follows it does not throw. -/
def SucceedsInTime (settings : NodeSettings) (outcomes : ℕ → Outcome) : Prop :=
  ∃ n : ℕ, (n + 1 : ℚ) ≤ settings.tries ∧ (∀ m < n, ¬ (outcomes m).IsSuccess) ∧
    outcomes n = .returns false

/-- No call that throws comes right after one that returned an error, within the budget, which
is a whole number; and only the last call of the budget may be a success. -/
def FailsSeparately (settings : NodeSettings) (outcomes : ℕ → Outcome) : Prop :=
  ∃ budget : ℕ, settings.tries = budget ∧ ∀ n, n + 1 < budget → ¬ (outcomes n).IsSuccess ∧
    ¬ ((outcomes n).IsError ∧ outcomes (n + 1) = .throws)

/-! ### Counting the calls -/

section
variable {settings : NodeSettings} {outcomes : ℕ → Outcome} {n : ℕ}

theorem one_le_tries (settings : NodeSettings) : 1 ≤ settings.tries := by
  rw [NodeSettings.tries]
  split_ifs
  · exact le_min (by norm_num) (le_max_of_le_left (by norm_num))
  · exact le_rfl

theorem after_finished_mono {m : ℕ} (h : after settings outcomes m = .finished) (hle : m ≤ n) :
    after settings outcomes n = .finished := by
  induction n, hle using Nat.le_induction with
  | base => exact h
  | succ n _ ih => rw [after, ih, next]

theorem CallMade.of_le {m : ℕ} (h : CallMade settings outcomes n) (hle : m ≤ n) :
    CallMade settings outcomes m := fun hm => h (after_finished_mono hm hle)

theorem enterTry_of_lt {maxTries : ℚ} {tryIndex : ℕ} (h : (tryIndex : ℚ) < maxTries) :
    enterTry maxTries tryIndex = .outer tryIndex := if_pos h

theorem enterTry_eq_finished {maxTries : ℚ} {tryIndex : ℕ} :
    enterTry maxTries tryIndex = .finished ↔ maxTries ≤ tryIndex := by
  rw [enterTry]
  split_ifs with h
  · exact iff_of_false nofun (not_le.mpr h)
  · exact iff_of_true rfl (not_lt.mp h)

/-- No call of the inner loop throws among the first `n` calls. -/
def Separate (outcomes : ℕ → Outcome) (n : ℕ) : Prop :=
  ∀ m, m + 1 < n → ¬ ((outcomes m).IsError ∧ outcomes (m + 1) = .throws)

def EndsInError (outcomes : ℕ → Outcome) (n : ℕ) : Prop :=
  ∃ m, n = m + 1 ∧ (outcomes m).IsError

theorem endsInError_succ : EndsInError outcomes (n + 1) ↔ (outcomes n).IsError := by
  constructor
  · rintro ⟨m, hm, herror⟩
    obtain rfl := Nat.succ.inj hm
    exact herror
  · exact fun herror => ⟨n, rfl, herror⟩

theorem separate_succ : Separate outcomes (n + 1) ↔
    Separate outcomes n ∧ ¬ (EndsInError outcomes n ∧ outcomes n = .throws) := by
  constructor
  · refine fun h => ⟨fun m hm => h m (by omega), ?_⟩
    rintro ⟨⟨m, rfl, herror⟩, hthrows⟩
    exact h m (by omega) ⟨herror, hthrows⟩
  · rintro ⟨h, hlast⟩ m hm ⟨herror, hthrows⟩
    by_cases hn : m + 1 = n
    · subst hn
      exact hlast ⟨⟨m, rfl, herror⟩, hthrows⟩
    · exact h m (by omega) ⟨herror, hthrows⟩

/-- How far `tryIndex` has got after `n` calls that failed: it has counted all of them when
none of the inner loop threw. -/
inductive Paced (outcomes : ℕ → Outcome) (n : ℕ) : Position → Prop
  | outer (tryIndex : ℕ) (hle : tryIndex ≤ n) (hall : tryIndex = n ↔ Separate outcomes n)
      (hend : ¬ EndsInError outcomes n) : Paced outcomes n (.outer tryIndex)
  | inner (tryIndex : ℕ) (hle : tryIndex + 1 ≤ n) (hall : tryIndex + 1 = n ↔ Separate outcomes n)
      (hend : EndsInError outcomes n) : Paced outcomes n (.inner tryIndex)

theorem Paced.next {maxTries : ℚ} {position : Position} (h : Paced outcomes n position)
    (hbudget : (n + 2 : ℚ) ≤ maxTries) (hfail : ¬ (outcomes n).IsSuccess) :
    Paced outcomes (n + 1) (next maxTries position (outcomes n)) := by
  have henter : ∀ i : ℕ, i ≤ n → enterTry maxTries (i + 1) = .outer (i + 1) := by
    intro i hi
    have hi : (i : ℚ) ≤ n := Nat.cast_le.mpr hi
    exact enterTry_of_lt (by push_cast; linarith)
  have hinner : ∀ i : ℕ, i ≤ n → (i : ℚ) ≠ maxTries - 1 := by
    intro i hi heq
    have hi : (i : ℚ) ≤ n := Nat.cast_le.mpr hi
    linarith
  cases hout : outcomes n with
  | returns restThrows => exact absurd (hout ▸ trivial) hfail
  | throws =>
    have hend : ¬ EndsInError outcomes (n + 1) := fun herror => by
      rw [endsInError_succ, hout] at herror
      exact herror
    cases h with
    | outer i hle hall hno =>
      rw [RetryOnFail.next, continueOnFail, henter i hle]
      refine .outer _ (by omega) ?_ hend
      rw [separate_succ, ← hall]
      exact ⟨fun heq => ⟨by omega, fun hbad => hno hbad.1⟩, fun heq => by omega⟩
    | inner i hle hall herror =>
      rw [RetryOnFail.next, henter i (by omega)]
      refine .outer _ (by omega) ?_ hend
      rw [separate_succ]
      exact ⟨fun heq => by omega, fun hsep => absurd ⟨herror, hout⟩ hsep.2⟩
  | returnsError restThrows =>
    have hend : EndsInError outcomes (n + 1) := endsInError_succ.mpr (hout ▸ trivial)
    have hkeep : Separate outcomes (n + 1) ↔ Separate outcomes n := by
      rw [separate_succ, hout]
      exact and_iff_left nofun
    cases h with
    | outer i hle hall hno =>
      rw [RetryOnFail.next, continueOnFail, if_pos (hinner i hle)]
      refine .inner _ (by omega) ?_ hend
      rw [hkeep, ← hall]
      omega
    | inner i hle hall herror =>
      rw [RetryOnFail.next, continueOnFail, if_pos (hinner (i + 1) hle)]
      · refine .inner _ (by omega) ?_ hend
        rw [hkeep, ← hall]
        omega
      · exact nofun

theorem paced (hpinned : settings.pinned = false) (hbudget : (n + 1 : ℚ) ≤ settings.tries)
    (hfail : ∀ m < n, ¬ (outcomes m).IsSuccess) :
    Paced outcomes n (after settings outcomes n) := by
  induction n with
  | zero =>
    have hstart : enterTry settings.tries 0 = .outer 0 :=
      enterTry_of_lt (by push_cast at hbudget ⊢; linarith)
    rw [after, hpinned, if_neg Bool.false_ne_true, hstart]
    exact .outer 0 le_rfl (iff_of_true rfl fun m hm => absurd hm (by omega)) nofun
  | succ n ih =>
    push_cast at hbudget
    exact (ih (by linarith) fun m hm => hfail m (by omega)).next (by linarith)
      (hfail n (Nat.lt_succ_self n))

theorem Paced.ne_finished {position : Position} (h : Paced outcomes n position) :
    position ≠ .finished := by
  cases h <;> exact nofun

theorem rest_eq_finished {maxTries : ℚ} {tryIndex : ℕ} {restThrows : Bool} :
    rest maxTries tryIndex restThrows = .finished ↔
      restThrows = false ∨ maxTries ≤ (tryIndex + 1 : ℕ) := by
  cases restThrows with
  | false => exact iff_of_true rfl (Or.inl rfl)
  | true => exact enterTry_eq_finished.trans (by simp)

theorem continueOnFail_error_eq_finished {maxTries : ℚ} {tryIndex : ℕ} {restThrows : Bool} :
    continueOnFail maxTries tryIndex (.returnsError restThrows) = .finished ↔
      (tryIndex : ℚ) = maxTries - 1 := by
  rw [continueOnFail]
  split_ifs with h
  · exact iff_of_false nofun h
  · have h := not_not.mp h
    exact iff_of_true (rest_eq_finished.mpr (Or.inr (by push_cast; linarith))) h

/-- Where the call is the last of the budget, the loop is left when all calls were counted. -/
theorem Paced.next_eq_finished {position : Position} (h : Paced outcomes n position) :
    RetryOnFail.next (n + 1) position (outcomes n) = .finished ↔
      Separate outcomes (n + 1) ∨ outcomes n = .returns false := by
  have hindex : ∀ i : ℕ, i ≤ n → ((n + 1 : ℚ) ≤ (i + 1 : ℕ) ↔ i = n) := by
    intro i hi
    rw [← Nat.cast_succ, Nat.cast_le]
    omega
  have hequal : ∀ i : ℕ, (i : ℚ) = (n + 1 : ℚ) - 1 ↔ i = n := fun i => by
    rw [add_sub_cancel_right, Nat.cast_inj]
  have hkeep : outcomes n ≠ .throws → (Separate outcomes (n + 1) ↔ Separate outcomes n) := by
    intro hne
    rw [separate_succ]
    exact and_iff_left fun hbad => hne hbad.2
  cases hout : outcomes n with
  | throws =>
    rw [or_iff_left nofun, separate_succ]
    cases h with
    | outer i hle hall hno =>
      rw [RetryOnFail.next, continueOnFail, enterTry_eq_finished, hindex i hle, hall]
      exact ⟨fun hsep => ⟨hsep, fun hbad => hno hbad.1⟩, And.left⟩
    | inner i hle hall herror =>
      rw [RetryOnFail.next, enterTry_eq_finished, hindex i (by omega)]
      exact iff_of_false (by omega) fun hsep => hsep.2 ⟨herror, hout⟩
  | returnsError restThrows =>
    rw [or_iff_left nofun, hkeep (hout ▸ nofun)]
    cases h with
    | outer i hle hall hno =>
      rw [RetryOnFail.next, continueOnFail_error_eq_finished, hequal, hall]
    | inner i hle hall herror =>
      rw [RetryOnFail.next, continueOnFail_error_eq_finished, hequal, hall]
      exact nofun
  | returns restThrows =>
    rw [hkeep (hout ▸ nofun), Outcome.returns.injEq, or_comm]
    cases h with
    | outer i hle hall hno =>
      rw [RetryOnFail.next, continueOnFail, rest_eq_finished, hindex i hle, hall]
    | inner i hle hall herror =>
      rw [RetryOnFail.next, continueOnFail, rest_eq_finished, hindex (i + 1) hle, hall]
      exact nofun

/-- After a success the loop goes on only where the rest throws and tries are left. -/
theorem Paced.next_returns {maxTries : ℚ} {position : Position} (h : Paced outcomes n position)
    {restThrows : Bool} (hfinished : RetryOnFail.next maxTries position (.returns restThrows) =
      .finished) : restThrows = false ∨ maxTries ≤ n + 1 := by
  cases h with
  | outer i hle hall hno =>
    rw [RetryOnFail.next, continueOnFail, rest_eq_finished] at hfinished
    refine hfinished.imp_right fun hi => hi.trans ?_
    exact_mod_cast Nat.succ_le_succ hle
  | inner i hle hall herror =>
    rw [RetryOnFail.next, continueOnFail, rest_eq_finished] at hfinished
    · refine hfinished.imp_right fun hi => hi.trans ?_
      exact_mod_cast Nat.succ_le_succ hle
    · exact nofun

theorem Paced.next_returns_false {maxTries : ℚ} {position : Position}
    (h : Paced outcomes n position) :
    RetryOnFail.next maxTries position (.returns false) = .finished := by
  cases h <;> rfl

/-- The budget is respected when the last call comes within it. -/
theorem respectsBudget_of_last (hmade : CallMade settings outcomes n)
    (hlast : after settings outcomes (n + 1) = .finished) (hbudget : (n + 1 : ℚ) ≤ settings.tries)
    (hfail : ∀ m < n, ¬ (outcomes m).IsSuccess)
    (hfewer : (n + 1 : ℚ) < settings.tries → (outcomes n).IsSuccess) :
    RespectsBudget settings outcomes := by
  have hle : ∀ m, CallMade settings outcomes m → m ≤ n := fun m hm =>
    Nat.le_of_not_lt fun hlt => hm (after_finished_mono hlast hlt)
  refine ⟨fun m hm => le_trans ?_ hbudget, fun m k _ hsuccess hlt hk => ?_,
    fun m hm hnext hlt => ?_⟩
  · exact_mod_cast Nat.succ_le_succ (hle m hm)
  · exact hfail m (lt_of_lt_of_le hlt (hle k hk)) hsuccess
  · obtain rfl : m = n := by
      refine le_antisymm (hle m hm) (Nat.le_of_not_lt fun hlt => hnext (hmade.of_le hlt))
    exact hfewer hlt

theorem SucceedsInTime.respectsBudget (hpinned : settings.pinned = false)
    (h : SucceedsInTime settings outcomes) : RespectsBudget settings outcomes := by
  obtain ⟨n, hbudget, hfail, hsuccess⟩ := h
  have hpaced := paced hpinned hbudget hfail
  refine respectsBudget_of_last hpaced.ne_finished ?_ hbudget hfail fun _ => hsuccess ▸ trivial
  rw [after, hsuccess]
  exact hpaced.next_returns_false

theorem FailsSeparately.respectsBudget (hpinned : settings.pinned = false)
    (h : FailsSeparately settings outcomes) : RespectsBudget settings outcomes := by
  obtain ⟨budget, hbudget, hseparate⟩ := h
  have hpos : 0 < budget := by
    have := one_le_tries settings
    rw [hbudget] at this
    exact_mod_cast this
  obtain ⟨n, rfl⟩ := Nat.exists_eq_succ_of_ne_zero hpos.ne'
  rw [Nat.succ_eq_add_one, Nat.cast_succ] at hbudget
  have hfail : ∀ m < n, ¬ (outcomes m).IsSuccess := fun m hm =>
    (hseparate m (Nat.succ_lt_succ hm)).1
  have hpaced := paced hpinned hbudget.ge hfail
  refine respectsBudget_of_last hpaced.ne_finished ?_ hbudget.ge hfail
    fun hlt => absurd hlt hbudget.not_gt
  rw [after, hbudget]
  exact hpaced.next_eq_finished.mpr (Or.inl fun m hm => (hseparate m hm).2)

/-- After as many calls without success as the budget says, the node is through, and each call
failed separately. -/
theorem failsSeparately_of_tries_eq (hpinned : settings.pinned = false) {n : ℕ}
    (hbudget : settings.tries = n + 1) (hfail : ∀ m < n, ¬ (outcomes m).IsSuccess)
    (hlast : ¬ CallMade settings outcomes (n + 1))
    (htime : ¬ SucceedsInTime settings outcomes) : FailsSeparately settings outcomes := by
  have hfinished := not_not.mp hlast
  rw [after, hbudget, (paced hpinned hbudget.ge hfail).next_eq_finished] at hfinished
  have hseparate := hfinished.resolve_right fun hout => htime ⟨n, hbudget.ge, hfail, hout⟩
  refine ⟨n + 1, by rw [hbudget, Nat.cast_succ], fun m hm => ⟨hfail m (by omega), ?_⟩⟩
  exact hseparate m hm

/-- The calls that fit into the budget. -/
theorem exists_le_tries_lt (settings : NodeSettings) :
    ∃ k : ℕ, (k + 1 : ℚ) ≤ settings.tries ∧ settings.tries < k + 2 := by
  obtain ⟨k, hk⟩ : ∃ k, ⌊settings.tries⌋₊ = k + 1 :=
    Nat.exists_eq_succ_of_ne_zero (Nat.floor_pos.mpr (one_le_tries settings)).ne'
  have hle := Nat.floor_le (zero_le_one.trans (one_le_tries settings))
  have hlt := Nat.lt_floor_add_one settings.tries
  rw [hk] at hle hlt
  push_cast at hle hlt
  exact ⟨k, hle, by linarith⟩

/-- A node whose budget is respected and which does not succeed in time uses all of it. -/
theorem RespectsBudget.failsSeparately (hpinned : settings.pinned = false)
    (h : RespectsBudget settings outcomes) (htime : ¬ SucceedsInTime settings outcomes) :
    FailsSeparately settings outcomes := by
  obtain ⟨k, hle, hgt⟩ := exists_le_tries_lt settings
  by_cases hsuccess : ∃ n ≤ k, (outcomes n).IsSuccess
  · classical
    have hfind := Nat.find_spec hsuccess
    have hfirst : ∀ m < Nat.find hsuccess, ¬ (outcomes m).IsSuccess := fun m hm hout =>
      Nat.find_min hsuccess hm ⟨hm.le.trans hfind.1, hout⟩
    generalize Nat.find hsuccess = n at hfind hfirst
    obtain ⟨hnk, hout⟩ := hfind
    have hn : (n : ℚ) ≤ k := Nat.cast_le.mpr hnk
    have hbudget : (n + 1 : ℚ) ≤ settings.tries := by linarith
    have hpaced := paced hpinned hbudget hfirst
    have hlast := h.notAfterSuccess n (n + 1) hpaced.ne_finished hout (Nat.lt_succ_self n)
    cases hcase : outcomes n with
    | throws =>
      rw [hcase] at hout
      exact False.elim hout
    | returnsError restThrows =>
      rw [hcase] at hout
      exact False.elim hout
    | returns restThrows =>
      have hfinished := not_not.mp hlast
      rw [after, hcase] at hfinished
      rcases hpaced.next_returns hfinished with rfl | hge
      · exact absurd ⟨n, hbudget, hfirst, hcase⟩ htime
      · exact failsSeparately_of_tries_eq hpinned (le_antisymm hge hbudget) hfirst hlast htime
  · have hfail : ∀ m ≤ k, ¬ (outcomes m).IsSuccess := fun m hm hout => hsuccess ⟨m, hm, hout⟩
    have hpaced := paced hpinned hle fun m hm => hfail m hm.le
    have hlast : ¬ CallMade settings outcomes (k + 1) := by
      intro hmade
      have := h.atMost (k + 1) hmade
      push_cast at this
      linarith
    have hlast' : settings.tries ≤ k + 1 := by
      by_contra hlt
      exact hfail k le_rfl (h.fewerAfterSuccess k hpaced.ne_finished hlast (not_le.mp hlt))
    exact failsSeparately_of_tries_eq hpinned (le_antisymm hlast' hle)
      (fun m hm => hfail m hm.le) hlast htime

/-- The budget is respected exactly when the node is not run at all, succeeds in time, or fails
as often as the budget says with no call that throws right after a returned error. -/
theorem respectsBudget_iff (settings : NodeSettings) (outcomes : ℕ → Outcome) :
    RespectsBudget settings outcomes ↔ settings.pinned = true ∨
      SucceedsInTime settings outcomes ∨ FailsSeparately settings outcomes := by
  cases hpinned : settings.pinned with
  | true =>
    have hnone : ∀ n, ¬ CallMade settings outcomes n := fun n hmade =>
      hmade.of_le (Nat.zero_le n) (by rw [after, hpinned, if_pos rfl])
    exact iff_of_true ⟨fun n h => absurd h (hnone n), fun m n h => absurd h (hnone m),
      fun n h => absurd h (hnone n)⟩ (Or.inl rfl)
  | false =>
    rw [or_iff_right Bool.false_ne_true]
    constructor
    · exact fun h => or_iff_not_imp_left.mpr (h.failsSeparately hpinned)
    · rintro (h | h)
      · exact h.respectsBudget hpinned
      · exact h.respectsBudget hpinned

end

section Example

/-- An error is returned, the retry of it throws, and the same again. -/
def alternating (n : ℕ) : Outcome := if n % 2 = 0 then .returnsError false else .throws

/-- With three tries the node is run four times. -/
theorem alternating_not_respectsBudget :
    ¬ RespectsBudget ⟨true, some 3, false⟩ alternating := by
  intro h
  have hmade : CallMade ⟨true, some 3, false⟩ alternating 3 := by
    rw [CallMade]
    decide +kernel
  have := h.atMost 3 hmade
  norm_num [NodeSettings.tries, orThree] at this

end Example
end N8n.RetryOnFail
