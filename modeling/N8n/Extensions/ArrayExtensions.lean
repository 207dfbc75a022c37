import N8n.Foundations.BinaryFloats

/-!
# Array extensions

`chunk` splits an array. Its loop counts with a number of the language, and a slice reads its
bounds as indices.
-/

namespace N8n.ArrayExtensions
open DynamicValues (Number Value)
open BinaryFloats (Format lessThan)
variable {α : Type*}

/-- The numbers of the language. -/
def double : Format where
  precision := 53
  minExponent := -1074
  maxExponent := 1024
  two_le_precision := by decide

structure Double where
  toNumber : Number
  holds : double.Holds toNumber

structure JSArray (α : Type*) where
  items : List α
  length_lt : items.length < 2 ^ 32

structure ExpressionExtensionError where
  message : String
  deriving DecidableEq, Repr

/-- A number without its fraction. -/
def truncate (q : ℚ) : ℤ := if q < 0 then ⌈q⌉ else ⌊q⌋

/-- A negative index counts from the end. -/
def relativeIndex (length : ℕ) : Number → ℕ
  | .nan | .negInfinity => 0
  | .infinity => length
  | .finite q =>
    if truncate q < 0 then (length + truncate q).toNat else min (truncate q).toNat length

def slice (value : List α) (start stop : Number) : List α :=
  (value.take (relativeIndex value.length stop)).drop (relativeIndex value.length start)

def chunkLoop (value : List α) (chunkSize : Number) :
    ℕ → Number → List (List α) → Option (List (List α))
  | 0, _, _ => none
  | fuel + 1, i, chunks =>
    if lessThan i (.ofNat value.length) then
      chunkLoop value chunkSize fuel (double.add i chunkSize)
        (chunks ++ [slice value i (double.add i chunkSize)])
    else some chunks

def chunkError : ExpressionExtensionError where
  message := "chunk(): expected non-zero numeric arg, e.g. .chunk(5)"

def chunk (fuel : ℕ) (value : JSArray α) (extraArgs : List Value) :
    Option (Except ExpressionExtensionError (List (List α))) :=
  match extraArgs.head?.getD .undefined with
  | .number chunkSize =>
    if chunkSize = .finite 0 then some (.error chunkError)
    else (chunkLoop value.items chunkSize fuel (.finite 0) []).map .ok
  | _ => some (.error chunkError)

/-! ### The loop ends -/

section Ends
variable {value : List α} {chunkSize : Number}

theorem chunkLoop_eq_none
    (h : ∀ n, lessThan (double.sums chunkSize n) (.ofNat value.length) = true) (fuel n : ℕ)
    (chunks : List (List α)) :
    chunkLoop value chunkSize fuel (double.sums chunkSize n) chunks = none := by
  induction fuel generalizing n chunks with
  | zero => rfl
  | succ fuel ih =>
    rw [chunkLoop, if_pos (h n)]
    exact ih (n + 1) _

theorem exists_chunkLoop (n : ℕ) {m : ℕ} (chunks : List (List α))
    (h : lessThan (double.sums chunkSize (m + n)) (.ofNat value.length) = false) :
    ∃ result, chunkLoop value chunkSize (n + 1) (double.sums chunkSize m) chunks = some result := by
  induction n generalizing m chunks with
  | zero =>
    rw [Nat.add_zero] at h
    exact ⟨chunks, by simp [chunkLoop, h]⟩
  | succ n ih =>
    rw [chunkLoop]
    split_ifs with hless
    · have hnext : m + (n + 1) = m + 1 + n := by omega
      rw [hnext] at h
      exact ih _ h
    · exact ⟨chunks, rfl⟩

theorem exists_chunkLoop_iff :
    (∃ fuel result, chunkLoop value chunkSize fuel (.finite 0) [] = some result) ↔
      ∃ n, lessThan (double.sums chunkSize n) (.ofNat value.length) = false := by
  constructor
  · rintro ⟨fuel, result, hresult⟩
    by_contra hall
    have hless (n : ℕ) : lessThan (double.sums chunkSize n) (.ofNat value.length) = true := by
      cases h : lessThan (double.sums chunkSize n) (.ofNat value.length) with
      | true => rfl
      | false => exact absurd ⟨n, h⟩ hall
    have hnone : chunkLoop value chunkSize fuel (.finite 0) [] = none :=
      chunkLoop_eq_none hless fuel 0 []
    rw [hresult] at hnone
    contradiction
  · rintro ⟨n, hn⟩
    have hend : lessThan (double.sums chunkSize (0 + n)) (.ofNat value.length) = false := by
      rwa [Nat.zero_add]
    obtain ⟨result, hresult⟩ := exists_chunkLoop n [] hend
    exact ⟨n + 1, result, hresult⟩

end Ends

theorem ends_iff (value : JSArray α) (chunkSize : Double) :
    (∃ fuel result, chunkLoop value.items chunkSize.toNumber fuel (.finite 0) [] = some result) ↔
      value.items = [] ∨ double.Reaches value.items.length chunkSize.toNumber := by
  rw [exists_chunkLoop_iff]
  rcases Nat.eq_zero_or_pos value.items.length with hzero | hpos
  · refine iff_of_true ⟨0, ?_⟩ (Or.inl (List.length_eq_zero_iff.mp hzero))
    rw [hzero]
    rfl
  · have hlength : (value.items.length : ℚ) < 2 ^ double.maxExponent :=
      calc (value.items.length : ℚ) < 2 ^ (32 : ℤ) := by exact_mod_cast value.length_lt
        _ ≤ 2 ^ double.maxExponent := zpow_le_zpow_right₀ one_le_two (by decide)
    rw [or_iff_right (List.ne_nil_of_length_pos hpos), Number.ofNat]
    exact Format.exists_not_lessThan_iff chunkSize.holds (Nat.cast_pos.mpr hpos) hlength

/-! ### Chunks of one length -/

section Lengths
variable {value : List α} {n : ℕ}

def LosesNothing (value : List α) (n : ℕ) (chunks : List (List α)) : Prop :=
  chunks.flatten = value ∧ ∀ c ∈ chunks.dropLast, c.length = n

/-- What the loop has split when it is at `i`. -/
structure SplitUpTo (value : List α) (n i : ℕ) (chunks : List (List α)) : Prop where
  flatten : chunks.flatten = value.take i
  init : ∀ c ∈ chunks.dropLast, c.length = n
  whole : i < value.length → ∀ c ∈ chunks, c.length = n

theorem relativeIndex_natCast (length i : ℕ) :
    relativeIndex length (.finite i) = min i length := by
  have htruncate : truncate i = i := by simp [truncate]
  simp [relativeIndex, htruncate]

theorem slice_natCast {i : ℕ} (hi : i < value.length) :
    slice value (.finite i) (.finite (i + n : ℕ)) = (value.drop i).take n := by
  rw [slice, relativeIndex_natCast, relativeIndex_natCast, min_eq_left hi.le, List.drop_take]
  rcases le_total (i + n) value.length with hle | hle
  · rw [min_eq_left hle, Nat.add_sub_cancel_left]
  · rw [min_eq_right hle, List.take_of_length_le (by simp), List.take_of_length_le]
    simp
    omega

theorem SplitUpTo.step {i : ℕ} {chunks : List (List α)} (h : SplitUpTo value n i chunks)
    (hi : i < value.length) :
    SplitUpTo value n (i + n) (chunks ++ [slice value (.finite i) (.finite (i + n : ℕ))]) := by
  rw [slice_natCast hi]
  constructor
  · rw [List.flatten_append, h.flatten, List.take_add]
    simp
  · rw [List.dropLast_concat]
    exact h.whole hi
  · intro hnext c hc
    rcases List.mem_append.mp hc with hc | hc
    · exact h.whole hi c hc
    · rw [List.mem_singleton.mp hc, List.length_take, List.length_drop]
      omega

/-- An index that is zero or not less than what is added to it is counted on exactly. -/
theorem add_natCast {i : ℕ} (hn : double.Holds (.finite n)) (hi : i = 0 ∨ n ≤ i)
    (hlength : i < 2 ^ 32) : double.add (.finite i) (.finite n) = .finite (i + n : ℕ) := by
  have hsum : double.Holds (.finite (i + n : ℕ)) := by
    rcases hi with rfl | hle
    · rwa [Nat.zero_add]
    · have hprecise : i + n ≤ 2 ^ double.precision :=
        calc i + n ≤ 2 ^ 33 := by omega
          _ ≤ 2 ^ double.precision := Nat.pow_le_pow_right two_pos (by decide)
      exact Format.holds_natCast hprecise (by decide) (by decide)
  rw [Nat.cast_add] at hsum ⊢
  exact Format.add_of_representable hsum.1 hsum.2

theorem chunkLoop_losesNothing (hlength : value.length < 2 ^ 32) (hn : double.Holds (.finite n))
    (fuel : ℕ) {i : ℕ} {chunks result : List (List α)} (hi : i = 0 ∨ n ≤ i)
    (hchunks : SplitUpTo value n i chunks)
    (hresult : chunkLoop value (.finite n) fuel (.finite i) chunks = some result) :
    LosesNothing value n result := by
  induction fuel generalizing i chunks with
  | zero => contradiction
  | succ fuel ih =>
    rw [chunkLoop] at hresult
    split_ifs at hresult with hless
    · have hlt : i < value.length := by
        rw [Number.ofNat, BinaryFloats.lessThan_finite] at hless
        exact_mod_cast hless
      rw [add_natCast hn hi (hlt.trans hlength)] at hresult
      exact ih (Or.inr (Nat.le_add_left n i)) (hchunks.step hlt) hresult
    · have hle : value.length ≤ i := by
        rw [Number.ofNat, BinaryFloats.lessThan_finite, not_lt] at hless
        exact_mod_cast hless
      rw [← Option.some_inj.mp hresult]
      exact ⟨by rw [hchunks.flatten, List.take_of_length_le hle], hchunks.init⟩

end Lengths

/-! ### What is promised of chunks -/

/-- The call returns, and chunks of a positive integer length make up the array. -/
def EndsAndLosesNothing (value : JSArray α) (chunkSize : Double) (rest : List Value) : Prop :=
  ∃ fuel chunks,
    chunk fuel value (.number chunkSize.toNumber :: rest) = some (.ok chunks) ∧
      ∀ n : ℕ, 0 < n → chunkSize.toNumber = .finite n → LosesNothing value.items n chunks

theorem chunk_eq_ok_iff {fuel : ℕ} {value : JSArray α} {chunkSize : Number} {rest : List Value}
    {chunks : List (List α)} (haccepted : chunkSize ≠ .finite 0) :
    chunk fuel value (.number chunkSize :: rest) = some (.ok chunks) ↔
      chunkLoop value.items chunkSize fuel (.finite 0) [] = some chunks := by
  simp [chunk, haccepted]

/-- A negative number, or one so small that it gets lost in a sum, is counted on for ever. -/
theorem endsAndLosesNothing_iff (value : JSArray α) (chunkSize : Double) (rest : List Value)
    (haccepted : chunkSize.toNumber ≠ .finite 0) :
    EndsAndLosesNothing value chunkSize rest ↔
      value.items = [] ∨ double.Reaches value.items.length chunkSize.toNumber := by
  rw [← ends_iff]
  constructor
  · rintro ⟨fuel, chunks, hchunks, -⟩
    exact ⟨fuel, chunks, (chunk_eq_ok_iff haccepted).mp hchunks⟩
  · rintro ⟨fuel, chunks, hchunks⟩
    refine ⟨fuel, chunks, (chunk_eq_ok_iff haccepted).mpr hchunks, fun n hpos hn => ?_⟩
    have hholds := chunkSize.holds
    rw [hn] at hchunks hholds
    exact chunkLoop_losesNothing value.length_lt hholds fuel (Or.inl rfl)
      ⟨rfl, by simp, by simp⟩ hchunks

def two : Double where
  toNumber := .finite (2 : ℕ)
  holds := Format.holds_natCast (by decide) (by decide) (by decide)

theorem pairs_endsAndLosesNothing :
    two.toNumber ≠ .finite 0 ∧ EndsAndLosesNothing ⟨[1, 2, 3], by decide⟩ two [] :=
  have hlength : ((3 : ℕ) : ℚ) ≤ 2 ^ (Int.clog 2 ((2 : ℕ) : ℚ) + 53) := by decide +kernel
  ⟨by decide, (endsAndLosesNothing_iff _ two [] (by decide)).mpr
    (Or.inr ⟨Nat.cast_pos.mpr two_pos, hlength⟩)⟩

def minusOne : Double where
  toNumber := .finite (-1)
  holds := by
    have hinteger : (-1 : ℚ) = (-1 : ℤ) * 2 ^ (0 : ℤ) := by norm_num
    constructor
    · rw [hinteger]
      exact Format.representable_of_abs_le (by decide) (by decide)
    · rw [abs_neg, abs_one]
      exact one_lt_zpow₀ one_lt_two (by decide)

theorem minusOne_not_endsAndLosesNothing :
    minusOne.toNumber ≠ .finite 0 ∧ ¬ EndsAndLosesNothing ⟨[1], by decide⟩ minusOne [] := by
  refine ⟨by decide, ?_⟩
  rintro ⟨fuel, chunks, hchunks, -⟩
  rw [chunk_eq_ok_iff (by decide)] at hchunks
  rcases (ends_iff ⟨[1], by decide⟩ minusOne).mp ⟨fuel, chunks, hchunks⟩ with h | ⟨h, -⟩
  · contradiction
  · exact absurd h (by decide)

end N8n.ArrayExtensions
