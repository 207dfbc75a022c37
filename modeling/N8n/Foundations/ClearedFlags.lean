import N8n.Foundations.Runs

/-!
# Flags that steps set and clear

A property of states that some steps of a run establish and others destroy. At the end of the run
it holds exactly when every step that destroys it is followed by one that establishes it.
-/

namespace N8n.Runs
variable {σ ε : Type*}

def SomeStep (C : σ → ε → Prop) : σ → List (ε × σ) → Prop
  | _, [] => False
  | s, (e, s') :: tr => C s e ∨ SomeStep C s' tr

/-- Every step that meets `A` has a later one that meets `B`. -/
def EachFollowed (A B : σ → ε → Prop) : σ → List (ε × σ) → Prop
  | _, [] => True
  | s, (e, s') :: tr => (A s e → SomeStep B s' tr) ∧ EachFollowed A B s' tr

section Decidable
variable (A B : σ → ε → Prop) [∀ s e, Decidable (A s e)] [∀ s e, Decidable (B s e)]

instance decidableSomeStep (s : σ) (tr : List (ε × σ)) : Decidable (SomeStep B s tr) :=
  match tr with
  | [] => isFalse id
  | (e, s') :: tr => @instDecidableOr (B s e) (SomeStep B s' tr) _ (decidableSomeStep s' tr)

instance decidableEachFollowed (s : σ) (tr : List (ε × σ)) : Decidable (EachFollowed A B s tr) :=
  match tr with
  | [] => isTrue trivial
  | (e, s') :: tr =>
    @instDecidableAnd (A s e → SomeStep B s' tr) (EachFollowed A B s' tr) inferInstance
      (decidableEachFollowed s' tr)

end Decidable

theorem EachFollowed.of_never {A B : σ → ε → Prop} {s : σ} {tr : List (ε × σ)}
    (h : ∀ s, ∀ p ∈ tr, ¬ A s p.1) : EachFollowed A B s tr := by
  induction tr generalizing s with
  | nil => trivial
  | cons p tr ih =>
    have hrest : EachFollowed A B p.2 tr := ih fun s q hq => h s q (List.mem_cons_of_mem p hq)
    exact ⟨fun hA => absurd hA (h s p List.mem_cons_self), hrest⟩

theorem finalState_append (s : σ) (tr₁ tr₂ : List (ε × σ)) :
    finalState s (tr₁ ++ tr₂) = finalState (finalState s tr₁) tr₂ := by
  induction tr₁ generalizing s with
  | nil => rfl
  | cons p tr₁ ih => exact ih p.2

/-- What the steps of a relation do to the property `P`, from states with `Inv`. -/
structure Toggled (step : σ → ε → σ → Prop) (Inv P : σ → Prop) (sets clears : σ → ε → Prop) :
    Prop where
  inv : ∀ s e s', Inv s → step s e s' → Inv s'
  cleared : ∀ s e s', Inv s → step s e s' → clears s e → P s'
  set : ∀ s e s', Inv s → step s e s' → sets s e → ¬ P s'
  kept : ∀ s e s', Inv s → step s e s' → ¬ clears s e → ¬ sets s e → (P s' ↔ P s)

variable {step : σ → ε → σ → Prop} {Inv P : σ → Prop} {sets clears : σ → ε → Prop}

theorem Toggled.final_iff (h : Toggled step Inv P sets clears) {s : σ} {tr : List (ε × σ)}
    (hr : Run step s tr) (h0 : Inv s) :
    P (finalState s tr) ↔ (P s ∨ SomeStep clears s tr) ∧ EachFollowed sets clears s tr := by
  induction hr with
  | nil s => simp [finalState, SomeStep, EachFollowed]
  | @cons s s' e tr hs _ ih =>
    have hrest := ih (h.inv s e s' h0 hs)
    rw [finalState, hrest, SomeStep, EachFollowed]
    by_cases hclear : clears s e
    · have hP : P s' := h.cleared s e s' h0 hs hclear
      have hset : ¬ sets s e := fun hset => h.set s e s' h0 hs hset hP
      simp only [hP, hclear, hset, true_or, or_true, true_and, false_implies]
    · by_cases hset : sets s e
      · have hP : ¬ P s' := h.set s e s' h0 hs hset
        simp only [hP, hclear, hset, false_or, true_implies]
        -- the step is followed by one that establishes `P`, whatever held before it
        exact ⟨fun hlater => ⟨.inr hlater.1, hlater⟩, And.right⟩
      · have hP : P s' ↔ P s := h.kept s e s' h0 hs hclear hset
        simp only [hP, hclear, hset, false_or, false_implies, true_and]

end N8n.Runs
