import Mathlib.Logic.Basic
import Mathlib.Data.List.Basic

/-!
# Runs of a labelled transition relation

A run is the list of its events, each with the state it leads to. The rules
below carry an invariant along a run, and turn "the property holds in every
state" into "every step meets the side condition" when a step that misses the
condition breaks the property at once.
-/

namespace N8n.Runs

variable {σ ε : Type*}

inductive Run (step : σ → ε → σ → Prop) : σ → List (ε × σ) → Prop
  | nil (s : σ) : Run step s []
  | cons {s s' : σ} {e : ε} {tr : List (ε × σ)} :
      step s e s' → Run step s' tr → Run step s ((e, s') :: tr)

def Always (P : σ → Prop) (s : σ) (tr : List (ε × σ)) : Prop :=
  P s ∧ ∀ p ∈ tr, P p.2

def EveryStep (C : σ → ε → Prop) : σ → List (ε × σ) → Prop
  | _, [] => True
  | s, (e, s') :: tr => C s e ∧ EveryStep C s' tr

def EveryTransition (R : σ → ε → σ → Prop) : σ → List (ε × σ) → Prop
  | _, [] => True
  | s, (e, s') :: tr => R s e s' ∧ EveryTransition R s' tr

def finalState (s : σ) : List (ε × σ) → σ
  | [] => s
  | (_, s') :: tr => finalState s' tr

theorem always_nil {P : σ → Prop} {s : σ} : Always (ε := ε) P s [] ↔ P s := by
  simp [Always]

theorem always_cons {P : σ → Prop} {s s' : σ} {e : ε} {tr : List (ε × σ)} :
    Always P s ((e, s') :: tr) ↔ P s ∧ Always P s' tr := by
  simp [Always]

theorem everyStep_cons {C : σ → ε → Prop} {s s' : σ} {e : ε} {tr : List (ε × σ)} :
    EveryStep C s ((e, s') :: tr) ↔ C s e ∧ EveryStep C s' tr := Iff.rfl

theorem EveryStep.of_forall {C : σ → ε → Prop} (h : ∀ s e, C s e) (s : σ) (tr : List (ε × σ)) :
    EveryStep C s tr := by
  induction tr generalizing s with
  | nil => trivial
  | cons p tr ih => exact ⟨h s p.1, ih p.2⟩

theorem EveryStep.and_of_forall {C : σ → ε → Prop} {D : ε → Prop} {s : σ} {tr : List (ε × σ)}
    (h : EveryStep C s tr) (hD : ∀ p ∈ tr, D p.1) : EveryStep (fun s e => D e ∧ C s e) s tr := by
  induction tr generalizing s with
  | nil => trivial
  | cons p tr ih =>
    exact ⟨⟨hD p List.mem_cons_self, h.1⟩, ih h.2 fun q hq => hD q (List.mem_cons_of_mem p hq)⟩

theorem Always.head {P : σ → Prop} {s : σ} {tr : List (ε × σ)} (h : Always P s tr) : P s := h.1

theorem Always.mono {P Q : σ → Prop} {s : σ} {tr : List (ε × σ)} (h : Always P s tr)
    (hPQ : ∀ s, P s → Q s) : Always Q s tr :=
  ⟨hPQ s h.1, fun p hp => hPQ p.2 (h.2 p hp)⟩

theorem Always.final {P : σ → Prop} {s : σ} {tr : List (ε × σ)} (h : Always P s tr) :
    P (finalState s tr) := by
  induction tr generalizing s with
  | nil => exact h.head
  | cons p tr ih => exact ih (always_cons.mp h).2

instance decidableEveryStep (C : σ → ε → Prop) [∀ s e, Decidable (C s e)] (s : σ)
    (tr : List (ε × σ)) : Decidable (EveryStep C s tr) :=
  match tr with
  | [] => isTrue trivial
  | (e, s') :: tr => @instDecidableAnd (C s e) (EveryStep C s' tr) _ (decidableEveryStep C s' tr)

instance decidableEveryTransition (R : σ → ε → σ → Prop) [∀ s e s', Decidable (R s e s')] (s : σ)
    (tr : List (ε × σ)) : Decidable (EveryTransition R s tr) :=
  match tr with
  | [] => isTrue trivial
  | (e, s') :: tr => @instDecidableAnd (R s e s') (EveryTransition R s' tr) _
      (decidableEveryTransition R s' tr)

instance decidableAlways (P : σ → Prop) [DecidablePred P] (s : σ) (tr : List (ε × σ)) :
    Decidable (Always P s tr) :=
  inferInstanceAs (Decidable (P s ∧ ∀ p ∈ tr, P p.2))

def trace (next : σ → ε → σ) : σ → List ε → List (ε × σ)
  | _, [] => []
  | s, e :: es => (e, next s e) :: trace next (next s e) es

theorem run_trace {step : σ → ε → σ → Prop} {next : σ → ε → σ} {E : σ → ε → Prop}
    (hnext : ∀ s e, E s e → step s e (next s e)) {s : σ} {es : List ε}
    (hE : EveryStep E s (trace next s es)) : Run step s (trace next s es) := by
  induction es generalizing s with
  | nil => exact .nil s
  | cons e es ih => exact .cons (hnext s e hE.1) (ih hE.2)

theorem run_trace_of_total {step : σ → ε → σ → Prop} {next : σ → ε → σ}
    (hnext : ∀ s e, step s e (next s e)) (s : σ) (es : List ε) : Run step s (trace next s es) := by
  induction es generalizing s with
  | nil => exact .nil s
  | cons e es ih => exact .cons (hnext s e) (ih _)

theorem Run.transitions {step R : σ → ε → σ → Prop} {s : σ} {tr : List (ε × σ)}
    (hr : Run step s tr) (h : ∀ s e s', step s e s' → R s e s') : EveryTransition R s tr := by
  induction hr with
  | nil s => trivial
  | cons hs _ ih => exact ⟨h _ _ _ hs, ih⟩

/-! ### Runs in two parts -/

section Append
variable {s : σ} {tr₁ tr₂ : List (ε × σ)}

theorem run_append {step : σ → ε → σ → Prop} :
    Run step s (tr₁ ++ tr₂) ↔ Run step s tr₁ ∧ Run step (finalState s tr₁) tr₂ := by
  constructor
  · intro h
    induction tr₁ generalizing s with
    | nil => exact ⟨.nil s, h⟩
    | cons p tr₁ ih =>
      cases h with
      | cons hs hr => exact ⟨.cons hs (ih hr).1, (ih hr).2⟩
  · rintro ⟨h, h'⟩
    induction h with
    | nil s => exact h'
    | cons hs _ ih => exact .cons hs (ih h')

theorem trace_append (next : σ → ε → σ) (es₁ es₂ : List ε) : trace next s (es₁ ++ es₂) =
    trace next s es₁ ++ trace next (finalState s (trace next s es₁)) es₂ := by
  induction es₁ generalizing s with
  | nil => rfl
  | cons e es₁ ih => exact congrArg ((e, next s e) :: ·) ih

theorem everyStep_append {C : σ → ε → Prop} :
    EveryStep C s (tr₁ ++ tr₂) ↔ EveryStep C s tr₁ ∧ EveryStep C (finalState s tr₁) tr₂ := by
  induction tr₁ generalizing s with
  | nil => simp [EveryStep, finalState]
  | cons p tr₁ ih => exact (and_congr_right fun _ => ih).trans and_assoc.symm

end Append

/-- What holds at the end and not at the start has come about in a step. -/
theorem exists_first_step {P : σ → Prop} {s : σ} {tr : List (ε × σ)} (h0 : ¬ P s)
    (h : P (finalState s tr)) : ∃ before e s' after, tr = before ++ (e, s') :: after ∧
      ¬ P (finalState s before) ∧ P s' := by
  induction tr generalizing s with
  | nil => exact absurd h h0
  | cons p tr ih =>
    obtain ⟨e, s'⟩ := p
    by_cases hs : P s'
    · exact ⟨[], e, s', tr, rfl, h0, hs⟩
    · obtain ⟨before, e', s'', after, rfl, hno, hyes⟩ := ih hs h
      exact ⟨(e, s') :: before, e', s'', after, rfl, hno, hyes⟩

theorem EveryStep.and {C D : σ → ε → Prop} {s : σ} {tr : List (ε × σ)} (h : EveryStep C s tr)
    (h' : EveryStep D s tr) : EveryStep (fun s e => C s e ∧ D s e) s tr := by
  induction tr generalizing s with
  | nil => trivial
  | cons p tr ih => exact ⟨⟨h.1, h'.1⟩, ih h.2 h'.2⟩

section Invariant
variable {step : σ → ε → σ → Prop} {Inv P : σ → Prop} {C : σ → ε → Prop}

theorem Run.always {s : σ} {tr : List (ε × σ)} (hr : Run step s tr) (h0 : Inv s)
    (hstep : ∀ s e s', Inv s → C s e → step s e s' → Inv s') (hC : EveryStep C s tr) :
    Always Inv s tr := by
  induction hr with
  | nil s => exact always_nil.mpr h0
  | cons hs _ ih =>
    obtain ⟨hc, hrest⟩ := hC
    exact always_cons.mpr ⟨h0, ih (hstep _ _ _ h0 hc hs) hrest⟩

theorem Run.everyTransition {R : σ → ε → σ → Prop} {s : σ} {tr : List (ε × σ)} (hr : Run step s tr)
    (h0 : Inv s) (hstep : ∀ s e s', Inv s → C s e → step s e s' → Inv s' ∧ R s e s')
    (hC : EveryStep C s tr) : EveryTransition R s tr := by
  induction hr with
  | nil s => trivial
  | cons hs _ ih =>
    obtain ⟨hc, hrest⟩ := hC
    obtain ⟨hinv, hR⟩ := hstep _ _ _ h0 hc hs
    exact ⟨hR, ih hinv hrest⟩

theorem Run.invariant {s : σ} {tr : List (ε × σ)} (hr : Run step s tr) (h0 : Inv s)
    (hstep : ∀ s e s', Inv s → step s e s' → Inv s') : Always Inv s tr := by
  induction hr with
  | nil s => exact always_nil.mpr h0
  | cons hs _ ih => exact always_cons.mpr ⟨h0, ih (hstep _ _ _ h0 hs)⟩

/-- When steps that meet `C` keep the invariant, and a step that misses `C` leaves a
state without `P`, the runs that stay in `P` are exactly those that meet `C` throughout. -/
theorem Run.always_iff_everyStep {s : σ} {tr : List (ε × σ)} (hr : Run step s tr) (h0 : Inv s)
    (hP : ∀ s, Inv s → P s) (hstep : ∀ s e s', Inv s → C s e → step s e s' → Inv s')
    (hbreak : ∀ s e s', Inv s → ¬ C s e → step s e s' → ¬ P s') :
    Always P s tr ↔ EveryStep C s tr := by
  refine ⟨fun h => ?_, fun h => (hr.always h0 hstep h).mono hP⟩
  induction hr with
  | nil s => trivial
  | @cons s s' e tr hs _ ih =>
    obtain ⟨_, hrest⟩ := always_cons.mp h
    have hc : C s e := by
      by_contra hc
      exact hbreak _ _ _ h0 hc hs hrest.head
    exact ⟨hc, ih (hstep _ _ _ h0 hc hs) hrest⟩

/-- When the invariant decides of every step whether `R` holds of it, it does so of runs. -/
theorem Run.everyTransition_iff {R : σ → ε → σ → Prop} {s : σ} {tr : List (ε × σ)}
    (hr : Run step s tr) (h0 : Inv s) (hInv : ∀ s e s', Inv s → step s e s' → Inv s')
    (hiff : ∀ s e s', Inv s → step s e s' → (R s e s' ↔ C s e)) :
    EveryTransition R s tr ↔ EveryStep C s tr := by
  induction hr with
  | nil s => exact Iff.rfl
  | cons hs _ ih => exact and_congr (hiff _ _ _ h0 hs) (ih (hInv _ _ _ h0 hs))

theorem Run.everyTransition_iff_of_step {R : σ → ε → σ → Prop} {s : σ} {tr : List (ε × σ)}
    (hr : Run step s tr) (hiff : ∀ s e s', step s e s' → (R s e s' ↔ C s e)) :
    EveryTransition R s tr ↔ EveryStep C s tr := by
  induction hr with
  | nil s => exact Iff.rfl
  | cons hs _ ih => exact and_congr (hiff _ _ _ hs) ih

end Invariant

/-! ### Endless sequences of steps -/

section Endless
variable {τ : Type*} {R : σ → σ → Prop} {S : τ → τ → Prop} {P : σ → Prop} {s : σ} {t : τ}

def Endless (R : σ → σ → Prop) (s : σ) : Prop :=
  ∃ f : ℕ → σ, f 0 = s ∧ ∀ n, R (f n) (f (n + 1))

theorem Endless.step (h : Endless R s) : ∃ s', R s s' ∧ Endless R s' := by
  obtain ⟨f, rfl, hf⟩ := h
  exact ⟨f 1, hf 0, fun n => f (n + 1), rfl, fun n => hf (n + 1)⟩

/-- From states that have a next state of their kind the steps go on for ever. -/
theorem endless_of_step (hP : P s) (hstep : ∀ s, P s → ∃ s', R s s' ∧ P s') : Endless R s := by
  choose next hnext using fun s : { s // P s } => hstep s.1 s.2
  let f : ℕ → { s // P s } :=
    fun n => Nat.rec ⟨s, hP⟩ (fun _ s => ⟨next s, (hnext s).2⟩) n
  exact ⟨fun n => (f n).1, rfl, fun n => (hnext (f n)).1⟩

/-- A relation that carries every step over carries endless sequences over. -/
theorem Endless.simulated (B : σ → τ → Prop) (h : Endless R s) (hB : B s t)
    (hstep : ∀ s t s', B s t → R s s' → ∃ t', S t t' ∧ B s' t') : Endless S t := by
  refine @endless_of_step τ S (fun t => ∃ s, Endless R s ∧ B s t) t ⟨s, h, hB⟩ ?_
  rintro t ⟨s, hs, hst⟩
  obtain ⟨s', hR, hs'⟩ := hs.step
  obtain ⟨t', hS, hB'⟩ := hstep s t s' hst hR
  exact ⟨t', hS, s', hs', hB'⟩

end Endless

end N8n.Runs
