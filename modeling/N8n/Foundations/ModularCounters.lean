import Mathlib.Data.Int.GCD
import Mathlib.Data.Nat.ModEq
import Mathlib.Data.List.Count
import Mathlib.Tactic.Ring

/-!
# Counters that wait for a value modulo a period

A counter answers the first value it is shown, and from then on only the value `n` beyond the
last one it answered, modulo `P`. Shown the multiples of `n` in turn it answers all of them
exactly when one of `n` and `P` divides the other. Shown positive values only it stops for
good as soon as it waits for zero.
-/

namespace N8n.ModularCounters

def due (P n : ℕ) : Option ℕ → ℕ → Bool
  | none, _ => true
  | some last, now => now == (n + last) % P

def answers (P n : ℕ) : Option ℕ → List ℕ → List Bool
  | _, [] => []
  | last, now :: rest =>
    due P n last now :: answers P n (if due P n last now then some now else last) rest

variable {P n : ℕ}

theorem answers_due {last : Option ℕ} {now : ℕ} {rest : List ℕ} (h : due P n last now) :
    answers P n last (now :: rest) = true :: answers P n (some now) rest := by
  simp [answers, h]

theorem answers_not_due {last : Option ℕ} {now : ℕ} {rest : List ℕ}
    (h : due P n last now = false) :
    answers P n last (now :: rest) = false :: answers P n last rest := by
  simp [answers, h]

theorem due_some {last now : ℕ} : due P n (some last) now = true ↔ now = (n + last) % P := by
  simp [due]

/-! ### Multiples in turn -/

/-- How many multiples of `n` there are below `P`. -/
def perPeriod (P n : ℕ) : ℕ := (P + n - 1) / n

/-- `k` multiples of `n` below `P`, one after the other all around, from the one at `s`. -/
def multiples (P n : ℕ) : ℕ → ℕ → List ℕ
  | _, 0 => []
  | s, k + 1 => s % perPeriod P n * n :: multiples P n (s + 1) k

theorem lt_perPeriod (hn : 0 < n) {a : ℕ} : a < perPeriod P n ↔ a * n < P := by
  rw [perPeriod, Nat.lt_div_iff_mul_lt hn]
  omega

theorem perPeriod_pos (hP : 0 < P) (hn : 0 < n) : 0 < perPeriod P n := by
  rw [lt_perPeriod hn]
  omega

theorem perPeriod_mul (hn : 0 < n) (h : n ∣ P) : perPeriod P n * n = P := by
  obtain ⟨c, rfl⟩ := h
  have hc : perPeriod (n * c) n = c := by
    apply le_antisymm
    · by_contra hlt
      have hmul := (lt_perPeriod (P := n * c) hn).mp (not_le.mp hlt)
      rw [Nat.mul_comm] at hmul
      exact lt_irrefl _ hmul
    · by_contra hlt
      have hmul := (lt_perPeriod (P := n * c) (a := perPeriod (n * c) n) hn).not.mp (lt_irrefl _)
      have hlt' : perPeriod (n * c) n * n < c * n := Nat.mul_lt_mul_of_pos_right (not_le.mp hlt) hn
      rw [Nat.mul_comm c n] at hlt'
      exact hmul hlt'
  rw [hc, Nat.mul_comm]

/-- All around, each multiple is the one the counter waits for. -/
theorem next_multiple (hP : 0 < P) (hn : 0 < n) (h : n ∣ P ∨ P ∣ n) (a : ℕ) :
    (a + 1) % perPeriod P n * n = (n + a % perPeriod P n * n) % P := by
  rcases h with h | h
  · calc (a + 1) % perPeriod P n * n
        = (a % perPeriod P n + 1) % perPeriod P n * n := by rw [Nat.mod_add_mod]
      _ = ((a % perPeriod P n + 1) * n) % (perPeriod P n * n) := (Nat.mul_mod_mul_right _ _ _).symm
      _ = (n + a % perPeriod P n * n) % P := by
        rw [perPeriod_mul hn h, Nat.add_mul, Nat.one_mul, Nat.add_comm]
  · have hone : perPeriod P n = 1 := by
      apply le_antisymm
      · by_contra hlt
        have hmul := (lt_perPeriod hn).mp (not_le.mp hlt)
        have := Nat.le_of_dvd hn h
        omega
      · exact perPeriod_pos hP hn
    rw [hone, Nat.mod_one, Nat.mod_one, Nat.zero_mul, Nat.add_zero]
    exact (Nat.mod_eq_zero_of_dvd h).symm

theorem next_multiple_of_lt (hn : 0 < n) {a : ℕ} (ha : a + 1 < perPeriod P n) :
    (a + 1) % perPeriod P n * n = (n + a % perPeriod P n * n) % P := by
  have hmul := (lt_perPeriod hn).mp ha
  rw [Nat.mod_eq_of_lt ha, Nat.mod_eq_of_lt (Nat.lt_of_succ_lt ha), Nat.mod_eq_of_lt]
  · ring
  · calc n + a * n = (a + 1) * n := by ring
      _ < P := hmul

/-- Past the last multiple below `P` the counter waits for a value between two multiples. -/
theorem not_multiple_after_last (hP : 0 < P) (hn : 0 < n) (h₁ : ¬ n ∣ P) (h₂ : ¬ P ∣ n) {a b : ℕ}
    (ha : a + 1 = perPeriod P n) : b * n ≠ (n + a * n) % P := by
  have hover : P ≤ (a + 1) * n := by
    have := (lt_perPeriod (P := P) (a := a + 1) hn).not.mp (by omega)
    omega
  have hlast : a * n < P := (lt_perPeriod hn).mp (by omega)
  have hsum : n + a * n = (a + 1) * n := by ring
  intro heq
  have hmod : (n + a * n) % P < n := by
    rcases Nat.lt_or_ge n P with hnP | hnP
    · rw [Nat.mod_eq_sub_mod (by omega)]
      calc (n + a * n - P) % P ≤ n + a * n - P := Nat.mod_le _ _
        _ < n := by omega
    · exact (Nat.mod_lt _ hP).trans_le hnP
  have hb : b = 0 := by
    by_contra hb
    have := Nat.le_mul_of_pos_left n (Nat.pos_of_ne_zero hb)
    omega
  rw [hb, Nat.zero_mul] at heq
  have hdvd : P ∣ (a + 1) * n := hsum ▸ Nat.dvd_of_mod_eq_zero heq.symm
  rcases Nat.eq_zero_or_pos a with rfl | hapos
  · exact h₂ (by simpa using hdvd)
  · -- `P ≤ (a + 1) * n < 2 * P`, so that the multiple is `P` itself
    have hnlt : n < P := (Nat.le_mul_of_pos_left n hapos).trans_lt hlast
    obtain ⟨c, hc⟩ := hdvd
    have hc1 : c = 1 := by
      apply le_antisymm
      · by_contra hgt
        have := Nat.mul_le_mul_left P (not_le.mp hgt)
        omega
      · by_contra hlt
        have : c = 0 := by omega
        rw [this, Nat.mul_zero] at hc
        omega
    rw [hc1, Nat.mul_one] at hc
    exact h₁ ⟨a + 1, by rw [← hc, Nat.mul_comm]⟩

theorem answers_multiples_stuck (hP : 0 < P) (hn : 0 < n) (h₁ : ¬ n ∣ P) (h₂ : ¬ P ∣ n) {a : ℕ}
    (ha : a + 1 = perPeriod P n) (s k : ℕ) :
    answers P n (some (a * n)) (multiples P n s k) = List.replicate k false := by
  induction k generalizing s with
  | zero => rfl
  | succ k ih =>
    have hnot : due P n (some (a * n)) (s % perPeriod P n * n) = false := by
      simpa [due] using not_multiple_after_last hP hn h₁ h₂ ha
    rw [multiples, answers_not_due hnot, ih, List.replicate_succ]

theorem answers_multiples_some (hP : 0 < P) (hn : 0 < n) (k : ℕ) {a : ℕ}
    (ha : n ∣ P ∨ P ∣ n ∨ a < perPeriod P n) :
    answers P n (some (a % perPeriod P n * n)) (multiples P n (a + 1) k) =
      (List.range k).map fun i => decide (n ∣ P ∨ P ∣ n ∨ a + 1 + i < perPeriod P n) := by
  induction k generalizing a with
  | zero => rfl
  | succ k ih =>
    have hshift : (fun i => decide (n ∣ P ∨ P ∣ n ∨ a + 1 + i < perPeriod P n)) ∘ Nat.succ =
        fun i => decide (n ∣ P ∨ P ∣ n ∨ a + 1 + 1 + i < perPeriod P n) := by
      funext i
      simp only [Function.comp_apply, Nat.succ_eq_add_one, Nat.add_assoc, Nat.add_comm 1 i]
    rw [List.range_succ_eq_map, List.map_cons, List.map_map, hshift, multiples]
    by_cases hnext : n ∣ P ∨ P ∣ n ∨ a + 1 < perPeriod P n
    · have hdue : due P n (some (a % perPeriod P n * n)) ((a + 1) % perPeriod P n * n) := by
        rw [due_some]
        rcases hnext with h | h | h
        · exact next_multiple hP hn (Or.inl h) a
        · exact next_multiple hP hn (Or.inr h) a
        · exact next_multiple_of_lt hn h
      rw [answers_due hdue, ih hnext, Nat.add_zero, decide_eq_true hnext]
    · -- the counter waits for a value between two multiples from here on
      simp only [not_or] at hnext
      obtain ⟨h₁, h₂, hlt⟩ := hnext
      have halt : a < perPeriod P n := by
        rcases ha with h | h | h
        · exact absurd h h₁
        · exact absurd h h₂
        · exact h
      have hlast : a + 1 = perPeriod P n := by omega
      have hstuck := answers_multiples_stuck hP hn h₁ h₂ hlast (a + 1) (k + 1)
      rw [multiples, List.replicate_succ] at hstuck
      rw [Nat.mod_eq_of_lt halt, hstuck]
      congr 1
      · symm
        simp [h₁, h₂, hlt]
      · symm
        rw [List.eq_replicate_iff]
        refine ⟨by simp, ?_⟩
        intro b hb
        obtain ⟨i, -, rfl⟩ := List.mem_map.mp hb
        simp only [h₁, h₂, false_or, decide_eq_false_iff_not]
        omega

/-- The counter answers all multiples exactly when `n` divides `P` or `P` divides `n`;
else only those before the first turn. -/
theorem answers_multiples (hP : 0 < P) (hn : 0 < n) {s : ℕ} (hs : s < perPeriod P n) (k : ℕ) :
    answers P n none (multiples P n s k) =
      (List.range k).map fun i => decide (n ∣ P ∨ P ∣ n ∨ s + i < perPeriod P n) := by
  cases k with
  | zero => rfl
  | succ k =>
    have hshift : (fun i => decide (n ∣ P ∨ P ∣ n ∨ s + i < perPeriod P n)) ∘ Nat.succ =
        fun i => decide (n ∣ P ∨ P ∣ n ∨ s + 1 + i < perPeriod P n) := by
      funext i
      simp only [Function.comp_apply, Nat.succ_eq_add_one, Nat.add_assoc, Nat.add_comm 1 i]
    rw [multiples, answers_due rfl, answers_multiples_some hP hn k (Or.inr (Or.inr hs)),
      List.range_succ_eq_map, List.map_cons, List.map_map, hshift, Nat.add_zero]
    congr 1
    simp [hs]

/-! ### Positive values -/

/-- A counter that is `t` answers before zero gives fewer than `t`. -/
theorem count_answers_lt {l t : ℕ} (ht : 0 < t) (hzero : P ∣ l + t * n) {values : List ℕ}
    (hpos : ∀ v ∈ values, 0 < v) : (answers P n (some l) values).count true < t := by
  induction values generalizing l t with
  | nil => simpa [answers] using ht
  | cons now rest ih =>
    have hrest : ∀ v ∈ rest, 0 < v := fun v hv => hpos v (List.mem_cons_of_mem now hv)
    by_cases hdue : due P n (some l) now
    · have hnow : now = (n + l) % P := due_some.mp hdue
      have hnowpos : 0 < now := hpos now List.mem_cons_self
      have hne : t ≠ 1 := by
        rintro rfl
        have := Nat.mod_eq_zero_of_dvd hzero
        rw [Nat.one_mul, Nat.add_comm] at this
        omega
      obtain ⟨t, rfl⟩ : ∃ u, t = u + 1 := ⟨t - 1, by omega⟩
      have hmod : now + t * n ≡ l + (t + 1) * n [MOD P] :=
        calc now + t * n ≡ (n + l) + t * n [MOD P] := by
              rw [hnow]
              exact (Nat.mod_modEq _ _).add_right _
          _ = l + (t + 1) * n := by ring
      have hzero' : P ∣ now + t * n := (hmod.dvd_iff dvd_rfl).mpr hzero
      have hlt := ih (by omega) hzero' hrest
      rw [answers_due hdue, List.count_cons_self]
      omega
    · rw [answers_not_due (by simpa using hdue), List.count_cons_of_ne (by simp)]
      exact ih ht hzero hrest

theorem exists_mul_modEq_gcd (hP : 0 < P) : ∃ u, n * u ≡ n.gcd P [MOD P] := by
  rcases (Nat.gcd_le_right n hP).lt_or_eq with hlt | heq
  · obtain ⟨u, -, hu⟩ := Nat.exists_mul_mod_eq_gcd hlt
    exact ⟨u, by rw [Nat.ModEq, hu, Nat.mod_eq_of_lt hlt]⟩
  · exact ⟨0, by rw [heq, Nat.mul_zero, Nat.ModEq, Nat.zero_mod, Nat.mod_self]⟩

theorem exists_zero_of_gcd_dvd (hP : 0 < P) {l : ℕ} (h : n.gcd P ∣ l) :
    ∃ t, 0 < t ∧ t ≤ P ∧ P ∣ l + t * n := by
  obtain ⟨c, hc⟩ := h
  obtain ⟨u, hu⟩ := exists_mul_modEq_gcd (n := n) hP
  have hzero : P ∣ l + ((P - 1) * c * u) * n := by
    have hmod : l + ((P - 1) * c * u) * n ≡ P * l [MOD P] :=
      calc l + ((P - 1) * c * u) * n = l + ((P - 1) * c) * (n * u) := by ring
        _ ≡ l + ((P - 1) * c) * n.gcd P [MOD P] := (hu.mul_left _).add_left l
        _ = (P - 1 + 1) * l := by rw [hc]; ring
        _ = P * l := by rw [Nat.sub_add_cancel hP]
    exact (hmod.dvd_iff dvd_rfl).mpr (Nat.dvd_mul_right P l)
  -- the number of answers is taken modulo `P`, in `1 .. P`
  rcases Nat.eq_zero_or_pos (((P - 1) * c * u) % P) with hmod | hmod
  · refine ⟨P, hP, le_rfl, ?_⟩
    have hdvd : P ∣ ((P - 1) * c * u) * n := (Nat.dvd_of_mod_eq_zero hmod).mul_right n
    exact (Nat.dvd_add_left (Nat.dvd_mul_right P n)).mpr ((Nat.dvd_add_left hdvd).mp hzero)
  · refine ⟨((P - 1) * c * u) % P, hmod, (Nat.mod_lt _ hP).le, ?_⟩
    have hsame : l + (((P - 1) * c * u) % P) * n ≡ l + ((P - 1) * c * u) * n [MOD P] :=
      ((Nat.mod_modEq _ P).mul_right n).add_left l
    exact (hsame.dvd_iff dvd_rfl).mpr hzero

/-- Values that the counter answers one after the other. -/
def orbit (P n : ℕ) : ℕ → ℕ → List ℕ
  | _, 0 => []
  | l, k + 1 => (n + l) % P :: orbit P n ((n + l) % P) k

theorem answers_orbit (l k : ℕ) : answers P n (some l) (orbit P n l k) = List.replicate k true := by
  induction k generalizing l with
  | zero => rfl
  | succ k ih => rw [orbit, answers_due (due_some.mpr rfl), ih, List.replicate_succ]

theorem orbit_pos {l : ℕ} (h : ¬ n.gcd P ∣ l) (k : ℕ) : ∀ v ∈ orbit P n l k, 0 < v := by
  induction k generalizing l with
  | zero => simp [orbit]
  | succ k ih =>
    have hstep : ¬ n.gcd P ∣ (n + l) % P := by
      rw [Nat.dvd_mod_iff (Nat.gcd_dvd_right n P)]
      exact fun hdvd => h ((Nat.dvd_add_right (Nat.gcd_dvd_left n P)).mp hdvd)
    intro v hv
    rcases List.mem_cons.mp hv with rfl | hv
    · exact Nat.pos_of_ne_zero fun hzero => hstep (hzero ▸ dvd_zero _)
    · exact ih hstep v hv

theorem orbit_lt (hP : 0 < P) (l k : ℕ) : ∀ v ∈ orbit P n l k, v < P := by
  induction k generalizing l with
  | zero => simp [orbit]
  | succ k ih =>
    intro v hv
    rcases List.mem_cons.mp hv with rfl | hv
    · exact Nat.mod_lt _ hP
    · exact ih _ v hv

end N8n.ModularCounters
