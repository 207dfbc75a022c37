import N8n.Foundations.DynamicValues
import Mathlib.Algebra.Order.Archimedean.Basic
import Mathlib.Algebra.Order.Round
import Mathlib.Data.Int.Log
import Mathlib.Data.Rat.Floor
import Mathlib.Tactic.Linarith
import Mathlib.Tactic.NormNum
import Mathlib.Tactic.Positivity

/-!
# Binary floating point numbers

The numbers of a format are the multiples `m * 2 ^ e` of the powers of two from a least one on whose
factor has at most `precision` digits. A sum is rounded to the nearest of them, ties to even.
-/

namespace N8n.BinaryFloats
open DynamicValues (Number)

structure Format where
  precision : ℕ
  minExponent : ℤ
  /-- All numbers of the format are below this power of two. -/
  maxExponent : ℤ
  two_le_precision : 2 ≤ precision

/-- The nearest integer, of two the even one. -/
def roundEven (q : ℚ) : ℤ := if 2 * Int.fract q = 1 ∧ Even ⌊q⌋ then ⌊q⌋ else round q

namespace Format
variable (f : Format)

/-- The exponent of the last digit. -/
def lastExponent (q : ℚ) : ℤ := max (Int.log 2 |q| + 1 - f.precision) f.minExponent

def nearest (q : ℚ) : ℚ := roundEven (q / 2 ^ f.lastExponent q) * 2 ^ f.lastExponent q

def ofRat (q : ℚ) : Number :=
  if |f.nearest q| < 2 ^ f.maxExponent then .finite (f.nearest q)
  else if f.nearest q < 0 then .negInfinity
  else .infinity

def add : Number → Number → Number
  | .nan, _ | _, .nan | .infinity, .negInfinity | .negInfinity, .infinity => .nan
  | .finite x, .finite y => f.ofRat (x + y)
  | .infinity, _ | _, .infinity => .infinity
  | .negInfinity, _ | _, .negInfinity => .negInfinity

def Representable (q : ℚ) : Prop :=
  ∃ m e : ℤ, |m| < 2 ^ f.precision ∧ f.minExponent ≤ e ∧ q = m * 2 ^ e

/-- The finite numbers of a format are among those that it can represent. -/
def Holds : Number → Prop
  | .finite q => f.Representable q ∧ |q| < 2 ^ f.maxExponent
  | .nan | .negInfinity | .infinity => True

/-- A number that is added to zero again and again. -/
def sums (c : Number) : ℕ → Number
  | 0 => .finite 0
  | n + 1 => f.add (sums c n) c

/-- What the sums of a number do not stay below. A finite number is lost in a sum from the power of
two on of which it is not more than half a unit. -/
def Reaches (b : ℚ) : Number → Prop
  | .nan | .infinity => True
  | .negInfinity => False
  | .finite q => 0 < q ∧ b ≤ 2 ^ (Int.clog 2 q + f.precision)

end Format

def lessThan (x y : Number) : Bool := x.compare y = some .lt

@[simp] theorem lessThan_finite {x y : ℚ} : lessThan (.finite x) (.finite y) = true ↔ x < y := by
  simp [lessThan, Number.compare]

/-! ### Rounding to an integer -/

theorem abs_sub_roundEven_le (q : ℚ) (z : ℤ) : |q - roundEven q| ≤ |q - z| := by
  by_cases htie : 2 * Int.fract q = 1 ∧ Even ⌊q⌋
  · have hhalf : |q - (⌊q⌋ : ℤ)| = |q - (round q : ℤ)| := by
      rw [abs_sub_round_eq_min, Int.self_sub_floor, Int.abs_fract, min_eq_left]
      linarith [htie.1]
    rw [roundEven, if_pos htie, hhalf]
    exact round_le q z
  · rw [roundEven, if_neg htie]
    exact round_le q z

theorem roundEven_add_half {m : ℤ} (hm : Even m) : roundEven (m + 1 / 2) = m := by
  have hfloor : ⌊(m + 1 / 2 : ℚ)⌋ = m := by
    rw [Int.floor_intCast_add]
    norm_num
  have hfract : 2 * Int.fract (m + 1 / 2 : ℚ) = 1 := by
    rw [Int.fract, hfloor]
    ring
  rw [roundEven, if_pos ⟨hfract, by rwa [hfloor]⟩, hfloor]

/-- An integer bound of the absolute value is kept. -/
theorem abs_roundEven_le {q : ℚ} {b : ℤ} (h : |q| ≤ b) : |roundEven q| ≤ b := by
  obtain ⟨hlower, hupper⟩ := abs_le.mp h
  have hb := abs_sub_roundEven_le q b
  have hneg := abs_sub_roundEven_le q (-b)
  push_cast at hneg
  rw [abs_of_nonpos (by linarith : q - b ≤ 0)] at hb
  rw [abs_of_nonneg (by linarith : 0 ≤ q - -(b : ℚ))] at hneg
  obtain ⟨hb, -⟩ := abs_le.mp hb
  obtain ⟨-, hneg⟩ := abs_le.mp hneg
  have hupper : roundEven q ≤ (b : ℚ) := by linarith
  have hlower : -(b : ℚ) ≤ roundEven q := by linarith
  exact abs_le.mpr ⟨by exact_mod_cast hlower, by exact_mod_cast hupper⟩

/-! ### Rounding to a format -/

/-- What is not nearer to the lower of two numbers is not below the middle. -/
theorem add_le_two_mul {q x y : ℚ} (h : |q - x| ≤ |q - y|) (hlt : y < x) : x + y ≤ 2 * q := by
  have hx : x - q ≤ |q - x| := by
    rw [abs_sub_comm]
    exact le_abs_self _
  rcases abs_cases (q - y) with ⟨hy, -⟩ | ⟨hy, -⟩ <;> linarith

theorem two_mul_le_add {q x y : ℚ} (h : |q - x| ≤ |q - y|) (hlt : x < y) : 2 * q ≤ x + y := by
  have hx : q - x ≤ |q - x| := le_abs_self _
  rcases abs_cases (q - y) with ⟨hy, -⟩ | ⟨hy, -⟩ <;> linarith

theorem exists_eq_mul_pow {e g : ℤ} (h : g ≤ e) (m : ℤ) :
    ∃ n : ℤ, (m * 2 ^ e : ℚ) = n * 2 ^ g := by
  obtain ⟨k, rfl⟩ := Int.le.dest h
  refine ⟨m * 2 ^ k, ?_⟩
  push_cast
  rw [zpow_add₀ two_ne_zero, zpow_natCast]
  ring

namespace Format
variable {f : Format} {q r x y c : ℚ}

theorem representable_of_abs_le {m e : ℤ} (hm : |m| ≤ 2 ^ f.precision) (he : f.minExponent ≤ e) :
    f.Representable (m * 2 ^ e) := by
  rcases hm.lt_or_eq with hlt | heq
  · exact ⟨m, e, hlt, he, rfl⟩
  · -- a power of two has one digit
    refine ⟨m.sign, e + f.precision, ?_, by omega, ?_⟩
    · have hone : |m.sign| ≤ 1 := by
        rw [abs_le]
        rcases Int.sign_trichotomy m with h | h | h <;> omega
      have hpow : (1 : ℤ) < 2 ^ f.precision :=
        one_lt_pow₀ one_lt_two (by have := f.two_le_precision; omega)
      omega
    · have hm : (m : ℚ) = m.sign * 2 ^ f.precision := by
        have hsign := Int.sign_mul_abs m
        rw [heq] at hsign
        exact_mod_cast hsign.symm
      rw [zpow_add₀ two_ne_zero, zpow_natCast, hm]
      ring

theorem representable_zero : f.Representable 0 :=
  ⟨0, f.minExponent, by simp, le_rfl, by simp⟩

theorem abs_sub_nearest_le_grid (q : ℚ) (m : ℤ) :
    |q - f.nearest q| ≤ |q - m * 2 ^ f.lastExponent q| := by
  have hpos : (0 : ℚ) < 2 ^ f.lastExponent q := zpow_pos two_pos _
  have hscale (z : ℤ) : |q - z * 2 ^ f.lastExponent q| =
      |q / 2 ^ f.lastExponent q - z| * 2 ^ f.lastExponent q := by
    nth_rewrite 3 [← abs_of_pos hpos]
    rw [← abs_mul, sub_mul, div_mul_cancel₀ _ hpos.ne']
  rw [nearest, hscale, hscale]
  exact mul_le_mul_of_nonneg_right (abs_sub_roundEven_le _ _) hpos.le

/-- No number of the format is nearer. -/
theorem abs_sub_nearest_le (hy : f.Representable y) (q : ℚ) : |q - f.nearest q| ≤ |q - y| := by
  by_cases hq : q = 0
  · simp [hq, nearest, roundEven]
  obtain ⟨m, e, hm, he, rfl⟩ := hy
  rcases le_or_gt (f.lastExponent q) e with hlast | hlast
  · obtain ⟨n, hn⟩ := exists_eq_mul_pow hlast m
    rw [hn]
    exact abs_sub_nearest_le_grid q n
  · -- then `q` is beyond a power of two on its grid that `y` does not pass
    have hp := f.two_le_precision
    have hexponent : f.lastExponent q = Int.log 2 |q| + 1 - f.precision := by
      rw [lastExponent] at hlast ⊢
      omega
    have hpow : (2 : ℚ) ^ Int.log 2 |q| ≤ |q| :=
      Int.zpow_log_le_self one_lt_two (abs_pos.mpr hq)
    have hy : |(m * 2 ^ e : ℚ)| ≤ 2 ^ Int.log 2 |q| := by
      have hpower : (0 : ℚ) < 2 ^ e := zpow_pos two_pos e
      have hm : |(m : ℚ)| ≤ 2 ^ (f.precision : ℤ) := by
        rw [zpow_natCast]
        exact_mod_cast hm.le
      calc |(m * 2 ^ e : ℚ)| = |(m : ℚ)| * 2 ^ e := by rw [abs_mul, abs_of_pos hpower]
        _ ≤ 2 ^ (f.precision : ℤ) * 2 ^ e :=
            mul_le_mul_of_nonneg_right hm hpower.le
        _ = 2 ^ (f.precision + e) := (zpow_add₀ two_ne_zero _ _).symm
        _ ≤ 2 ^ Int.log 2 |q| := zpow_le_zpow_right₀ one_le_two (by omega)
    obtain ⟨n, hn⟩ := exists_eq_mul_pow (show f.lastExponent q ≤ Int.log 2 |q| by omega) 1
    rw [Int.cast_one, one_mul] at hn
    rw [hn] at hpow hy
    have hgrid : ∃ z : ℤ, |q - z * 2 ^ f.lastExponent q| = |q| - n * 2 ^ f.lastExponent q := by
      rcases le_total 0 q with hsign | hsign
      · rw [abs_of_nonneg hsign] at hpow
        exact ⟨n, by rw [abs_of_nonneg hsign, abs_of_nonneg (by linarith)]⟩
      · rw [abs_of_nonpos hsign] at hpow
        refine ⟨-n, ?_⟩
        rw [Int.cast_neg, neg_mul, abs_of_nonpos hsign, abs_of_nonpos (by linarith)]
        ring
    obtain ⟨z, hz⟩ := hgrid
    calc |q - f.nearest q| ≤ |q - z * 2 ^ f.lastExponent q| := abs_sub_nearest_le_grid q z
      _ = |q| - n * 2 ^ f.lastExponent q := hz
      _ ≤ |q| - |(m * 2 ^ e : ℚ)| := by linarith
      _ ≤ |q - m * 2 ^ e| := abs_sub_abs_le_abs_sub _ _

theorem representable_nearest (f : Format) (q : ℚ) : f.Representable (f.nearest q) := by
  refine representable_of_abs_le (abs_roundEven_le ?_) (le_max_right _ _)
  have hpos : (0 : ℚ) < 2 ^ f.lastExponent q := zpow_pos two_pos _
  have hexponent : Int.log 2 |q| + 1 ≤ f.precision + f.lastExponent q := by
    rw [lastExponent]
    omega
  rw [abs_div, abs_of_pos hpos, div_le_iff₀ hpos, Int.cast_pow, Int.cast_ofNat, ← zpow_natCast,
    ← zpow_add₀ two_ne_zero]
  exact (Int.lt_zpow_succ_log_self one_lt_two |q|).le.trans
    (zpow_le_zpow_right₀ one_le_two hexponent)

theorem nearest_of_representable (hy : f.Representable y) : f.nearest y = y := by
  have h := abs_sub_nearest_le hy y
  rw [sub_self, abs_zero] at h
  exact (sub_eq_zero.mp (abs_nonpos_iff.mp h)).symm

theorem nearest_mono (h : q ≤ r) : f.nearest q ≤ f.nearest r := by
  by_contra hlt
  rw [not_le] at hlt
  have hq := add_le_two_mul (abs_sub_nearest_le (f.representable_nearest r) q) hlt
  have hr := two_mul_le_add (abs_sub_nearest_le (f.representable_nearest q) r) hlt
  have heq : q = r := by linarith
  rw [heq] at hlt
  exact lt_irrefl _ hlt

/-- Half a unit more than a power of two is a tie, and the power of two is the even one. -/
theorem nearest_tie {k : ℤ} (hk : f.minExponent ≤ k) :
    f.nearest (2 ^ (k + f.precision) + 2 ^ k) = 2 ^ (k + f.precision) := by
  obtain ⟨n, hn⟩ := Nat.exists_eq_add_of_le f.two_le_precision
  have hpos : (0 : ℚ) < 2 ^ k := zpow_pos two_pos k
  have hsum : (2 : ℚ) ^ (k + f.precision) + 2 ^ k = (2 ^ (n + 2) + 1) * 2 ^ k := by
    rw [zpow_add₀ two_ne_zero, zpow_natCast, hn, add_comm 2 n]
    ring
  have hlog : Int.log 2 |(2 : ℚ) ^ (k + f.precision) + 2 ^ k| = k + f.precision := by
    have hnonneg : (0 : ℚ) < 2 ^ (k + f.precision) + 2 ^ k :=
      add_pos (zpow_pos two_pos _) hpos
    rw [abs_of_pos hnonneg]
    apply le_antisymm
    · rw [← Int.lt_add_one_iff, ← Int.lt_zpow_iff_log_lt one_lt_two hnonneg, Nat.cast_ofNat,
        zpow_add_one₀ two_ne_zero]
      have hlt : (2 : ℚ) ^ k < 2 ^ (k + f.precision) :=
        zpow_lt_zpow_right₀ one_lt_two (by omega)
      linarith
    · rw [← Int.zpow_le_iff_le_log one_lt_two hnonneg, Nat.cast_ofNat]
      linarith
  have hexponent : f.lastExponent (2 ^ (k + f.precision) + 2 ^ k) = k + 1 := by
    rw [lastExponent, hlog]
    omega
  have hquotient : ((2 : ℚ) ^ (k + f.precision) + 2 ^ k) / 2 ^ (k + 1) =
      ((2 ^ (n + 1) : ℤ) : ℚ) + 1 / 2 := by
    rw [hsum, zpow_add_one₀ two_ne_zero]
    push_cast
    field_simp
    ring
  have heven : Even (2 ^ (n + 1) : ℤ) := (even_two).pow_of_ne_zero n.succ_ne_zero
  rw [nearest, hexponent, hquotient, roundEven_add_half heven, hn]
  push_cast
  rw [← zpow_natCast, ← zpow_add₀ two_ne_zero]
  congr 1
  push_cast
  ring

/-! ### One sum -/

theorem exists_grid (hy : f.Representable y) : ∃ t : ℤ, y = t * 2 ^ f.minExponent := by
  obtain ⟨m, e, -, he, rfl⟩ := hy
  exact exists_eq_mul_pow he m

/-- Two numbers of the format are at least its least power of two apart. -/
theorem add_pow_le (hx : f.Representable x) (hy : f.Representable y) (h : x < y) :
    x + 2 ^ f.minExponent ≤ y := by
  obtain ⟨s, rfl⟩ := exists_grid hx
  obtain ⟨t, rfl⟩ := exists_grid hy
  have hpos : (0 : ℚ) < 2 ^ f.minExponent := zpow_pos two_pos _
  have hlt : (s : ℚ) < t := lt_of_mul_lt_mul_right h hpos.le
  have hstep : (s : ℚ) + 1 ≤ t := by exact_mod_cast hlt
  calc (s : ℚ) * 2 ^ f.minExponent + 2 ^ f.minExponent = (s + 1) * 2 ^ f.minExponent := by ring
    _ ≤ t * 2 ^ f.minExponent := mul_le_mul_of_nonneg_right hstep hpos.le

theorem le_clog (hy : f.Representable y) (hpos : 0 < y) : f.minExponent ≤ Int.clog 2 y := by
  have hleast := add_pow_le representable_zero hy hpos
  have hclog : y ≤ (2 : ℚ) ^ Int.clog 2 y := Int.self_le_zpow_clog one_lt_two y
  rw [zero_add] at hleast
  exact (zpow_le_zpow_iff_right₀ one_lt_two).mp (hleast.trans hclog)

/-- Below a power of two, there is a number that is no more than its last digit ahead. -/
theorem exists_representable_add {k : ℤ} (hk : f.minExponent ≤ k) (hx : f.Representable x)
    (hnonneg : 0 ≤ x) (hlt : x < 2 ^ (k + f.precision)) :
    ∃ u : ℚ, 0 < u ∧ u ≤ 2 ^ k ∧ f.Representable (x + u) := by
  obtain ⟨m, e, hm, he, rfl⟩ := hx
  rcases le_or_gt e k with hexponent | hexponent
  · refine ⟨2 ^ e, zpow_pos two_pos e, zpow_le_zpow_right₀ one_le_two hexponent, ?_⟩
    have hnext : |m + 1| ≤ 2 ^ f.precision := by
      obtain ⟨hlower, hupper⟩ := abs_lt.mp hm
      exact abs_le.mpr ⟨by omega, by omega⟩
    have hsum : (m * 2 ^ e + 2 ^ e : ℚ) = (m + 1 : ℤ) * 2 ^ e := by
      push_cast
      ring
    rw [hsum]
    exact representable_of_abs_le hnext he
  · obtain ⟨n, hn⟩ := exists_eq_mul_pow hexponent.le m
    rw [hn] at hnonneg hlt ⊢
    have hpos : (0 : ℚ) < 2 ^ k := zpow_pos two_pos k
    refine ⟨2 ^ k, hpos, le_rfl, ?_⟩
    have hnext : |n + 1| ≤ 2 ^ f.precision := by
      have hlower : (0 : ℚ) ≤ n := nonneg_of_mul_nonneg_left hnonneg hpos
      rw [add_comm, zpow_add₀ two_ne_zero, zpow_natCast] at hlt
      have hupper : (n : ℚ) < 2 ^ f.precision := lt_of_mul_lt_mul_right hlt hpos.le
      have hlower : 0 ≤ n := by exact_mod_cast hlower
      have hupper : n < 2 ^ f.precision := by exact_mod_cast hupper
      rw [abs_of_nonneg (by omega)]
      omega
    have hsum : (n * 2 ^ k + 2 ^ k : ℚ) = (n + 1 : ℤ) * 2 ^ k := by
      push_cast
      ring
    rw [hsum]
    exact representable_of_abs_le hnext hk

/-- More than half of the last digit is not lost. -/
theorem lt_nearest_add {k : ℤ} (hk : f.minExponent ≤ k) (hx : f.Representable x) (hnonneg : 0 ≤ x)
    (hlt : x < 2 ^ (k + f.precision)) (hc : 2 ^ (k - 1) < c) : x < f.nearest (x + c) := by
  obtain ⟨u, hu, huk, hrepresentable⟩ := exists_representable_add hk hx hnonneg hlt
  rcases le_or_gt u c with hle | hgt
  · calc x < x + u := by linarith
      _ = f.nearest (x + u) := (nearest_of_representable hrepresentable).symm
      _ ≤ f.nearest (x + c) := nearest_mono (by linarith)
  · have hhalf : (2 : ℚ) ^ k = 2 * 2 ^ (k - 1) := by
      rw [← zpow_one_add₀ two_ne_zero]
      congr 1
      ring
    have hnear := abs_sub_nearest_le hrepresentable (x + c)
    have hdistance : |x + c - (x + u)| = u - c := by
      rw [abs_of_neg (by linarith)]
      ring
    rw [hdistance] at hnear
    obtain ⟨-, hupper⟩ := abs_le.mp hnear
    linarith

theorem nearest_add_le {k : ℤ} (hk : f.minExponent ≤ k) (hc : c ≤ 2 ^ k) :
    f.nearest (2 ^ (k + f.precision) + c) ≤ 2 ^ (k + f.precision) :=
  calc f.nearest (2 ^ (k + f.precision) + c)
      ≤ f.nearest (2 ^ (k + f.precision) + 2 ^ k) := nearest_mono (by linarith)
    _ = 2 ^ (k + f.precision) := nearest_tie hk

theorem add_of_representable (h : f.Representable (x + y)) (hlt : |x + y| < 2 ^ f.maxExponent) :
    f.add (.finite x) (.finite y) = .finite (x + y) := by
  rw [add, ofRat, nearest_of_representable h, if_pos hlt]

theorem holds_natCast {n : ℕ} (hn : n ≤ 2 ^ f.precision) (hmin : f.minExponent ≤ 0)
    (hmax : f.precision < f.maxExponent) : f.Holds (.finite n) := by
  constructor
  · have hinteger : (n : ℚ) = (n : ℤ) * 2 ^ (0 : ℤ) := by simp
    rw [hinteger]
    exact representable_of_abs_le (by rw [Nat.abs_cast]; exact_mod_cast hn) hmin
  · rw [abs_of_nonneg n.cast_nonneg]
    calc (n : ℚ) ≤ 2 ^ (f.precision : ℤ) := by
          rw [zpow_natCast]
          exact_mod_cast hn
      _ < 2 ^ f.maxExponent := zpow_lt_zpow_right₀ one_lt_two hmax

/-! ### Repeated sums -/

/-- A number that a bound is not below. -/
def AtMost (b : ℚ) : Number → Prop
  | .finite x => x ≤ b
  | .negInfinity => True
  | .nan | .infinity => False

theorem lessThan_of_atMost {a b : ℚ} (hab : a < b) :
    ∀ {i : Number}, AtMost a i → lessThan i (.finite b) = true
  | .finite _, h => lessThan_finite.mpr (lt_of_le_of_lt h hab)
  | .negInfinity, _ => rfl

variable {b : ℚ}

theorem atMost_add (hmax : b < 2 ^ f.maxExponent) (hq : f.nearest (b + q) ≤ b) :
    ∀ {i : Number}, AtMost b i → AtMost b (f.add i (.finite q))
  | .negInfinity, _ => trivial
  | .finite x, (h : x ≤ b) => by
    have hle : f.nearest (x + q) ≤ b := (nearest_mono (by linarith)).trans hq
    rw [add, ofRat]
    split_ifs with hlt hneg
    · exact hle
    · trivial
    · rw [not_lt] at hlt hneg
      rw [abs_of_nonneg hneg] at hlt
      exact absurd (hlt.trans hle) (not_le.mpr hmax)

theorem atMost_sums (hb : 0 ≤ b) (hmax : b < 2 ^ f.maxExponent) (hq : f.nearest (b + q) ≤ b) :
    ∀ n, AtMost b (f.sums (.finite q) n)
  | 0 => hb
  | n + 1 => atMost_add hmax hq (atMost_sums hb hmax hq n)

theorem atMost_sums_negInfinity (f : Format) (n : ℕ) : AtMost 0 (f.sums .negInfinity n) := by
  induction n with
  | zero => exact le_rfl
  | succ n ih =>
    rw [sums]
    cases hi : f.sums .negInfinity n with
    | nan => simp [hi, AtMost] at ih
    | infinity => simp [hi, AtMost] at ih
    | negInfinity => trivial
    | finite x => trivial

/-- Sums of a number that is more than half of the last digit of each of them grow. -/
theorem exists_not_lessThan (hrepresentable : f.Representable q) (hq : 0 < q)
    (hle : b ≤ 2 ^ (Int.clog 2 q + f.precision)) :
    ∃ n, lessThan (f.sums (.finite q) n) (.finite b) = false := by
  have hexponent := le_clog hrepresentable hq
  by_contra hall
  have hless (n : ℕ) : lessThan (f.sums (.finite q) n) (.finite b) = true := by
    cases h : lessThan (f.sums (.finite q) n) (.finite b) with
    | true => rfl
    | false => exact absurd ⟨n, h⟩ hall
  have hgrow (n : ℕ) : ∃ x, f.sums (.finite q) n = .finite x ∧ f.Representable x ∧
      n * 2 ^ f.minExponent ≤ x := by
    induction n with
    | zero => exact ⟨0, rfl, representable_zero, by simp⟩
    | succ n ih =>
      obtain ⟨x, hx, hxr, hn⟩ := ih
      have hpos : (0 : ℚ) < 2 ^ f.minExponent := zpow_pos two_pos _
      have hnonneg : 0 ≤ x := (mul_nonneg n.cast_nonneg hpos.le).trans hn
      have hxb : x < b := lessThan_finite.mp (hx ▸ hless n)
      have hlt : x < f.nearest (x + q) := lt_nearest_add hexponent hxr hnonneg (hxb.trans_le hle)
        (Int.zpow_pred_clog_lt_self one_lt_two hq)
      have hnext := hless (n + 1)
      rw [sums, hx, add, ofRat] at hnext ⊢
      split_ifs at hnext ⊢ with hmax hneg
      · refine ⟨_, rfl, f.representable_nearest _, ?_⟩
        have hstep := add_pow_le hxr (f.representable_nearest _) hlt
        push_cast
        linarith
      · exact absurd hneg (not_lt.mpr (hnonneg.trans hlt.le))
      · simp [lessThan, Number.compare] at hnext
  obtain ⟨n, hn⟩ := exists_nat_gt (b / 2 ^ f.minExponent)
  rw [div_lt_iff₀ (zpow_pos two_pos _)] at hn
  obtain ⟨x, hx, -, hge⟩ := hgrow n
  have hxb : x < b := lessThan_finite.mp (hx ▸ hless n)
  linarith

theorem exists_not_lessThan_iff {c : Number} (hc : f.Holds c) (hb : 0 < b)
    (hmax : b < 2 ^ f.maxExponent) :
    (∃ n, lessThan (f.sums c n) (.finite b) = false) ↔ f.Reaches b c := by
  cases c with
  | nan => exact iff_of_true ⟨1, rfl⟩ trivial
  | infinity => exact iff_of_true ⟨1, rfl⟩ trivial
  | negInfinity =>
    refine iff_of_false ?_ id
    rintro ⟨n, hn⟩
    rw [lessThan_of_atMost hb (f.atMost_sums_negInfinity n)] at hn
    contradiction
  | finite q =>
    constructor
    · rintro ⟨n, hn⟩
      by_contra hreaches
      have hbounded : ∃ a, a < b ∧ AtMost a (f.sums (.finite q) n) := by
        rcases le_or_gt q 0 with hq | hq
        · refine ⟨0, hb, atMost_sums le_rfl (hb.trans hmax) ?_ n⟩
          calc f.nearest (0 + q) ≤ f.nearest 0 := nearest_mono (by linarith)
            _ = 0 := nearest_of_representable representable_zero
        · have hgt : 2 ^ (Int.clog 2 q + f.precision) < b := by
            rw [← not_le]
            exact fun hle => hreaches ⟨hq, hle⟩
          refine ⟨_, hgt, atMost_sums (zpow_pos two_pos _).le (hgt.trans hmax) ?_ n⟩
          exact nearest_add_le (le_clog hc.1 hq) (Int.self_le_zpow_clog one_lt_two q)
      obtain ⟨a, hab, ha⟩ := hbounded
      rw [lessThan_of_atMost hab ha] at hn
      contradiction
    · rintro ⟨hq, hle⟩
      exact exists_not_lessThan hc.1 hq hle

end Format

end N8n.BinaryFloats
