import Mathlib.Data.Nat.Log
import Mathlib.Data.List.Basic
import Mathlib.Tactic.NormNum

/-! # Binary floating point

`Format.round` rounds a fraction to a binary format: to nearest, ties to even, with gradual underflow. `roundNat` is the
conversion of an integer, so an integer is a float64 if it is a fixed point; it is the rounding of the format
(`round_nat`).

`shortest` is the integer a float64 is printed as: the fewest digits that still round to it, padded with zeros, so from
`2^53` on it may differ from the float64. It rounds back (`roundNat_shortest`), and below `2^53` it is the float64
itself (`shortest_of_lt`). -/

namespace CoreC.Lib.Float64

/-- A binary format: the bits of the significand, the exponent of the least positive number, and the
exponent that is too large. -/
structure Format where
  bits : ℕ
  minExp : ℤ
  maxExp : ℕ

def float32 : Format := ⟨24, -149, 128⟩

def float64 : Format := ⟨53, -1074, 1024⟩

def divRound (n d : ℕ) : ℕ :=
  if 2 * (n % d) < d ∨ 2 * (n % d) = d ∧ n / d % 2 = 0 then n / d else n / d + 1

/-- The exponent of the last bit of the significand of `n / d`. -/
def Format.exponent (f : Format) (n d : ℕ) : ℤ :=
  let k : ℤ := (n.log2 : ℤ) - d.log2
  let below := if 0 ≤ k then n < d * 2 ^ k.toNat else n * 2 ^ (-k).toNat < d
  max f.minExp ((if below then k - 1 else k) - (f.bits - 1))

/-- The nearest number of the format to `n / d`, with no bound on the exponent. -/
def Format.nearest (f : Format) (n d : ℕ) : ℚ :=
  let e := f.exponent n d
  if 0 ≤ e then divRound n (d * 2 ^ e.toNat) * 2 ^ e.toNat
  else divRound (n * 2 ^ (-e).toNat) d / 2 ^ (-e).toNat

/-- The nearest number of the format to `n / d`; `none` if that is too large. -/
def Format.round (f : Format) (n d : ℕ) : Option ℚ :=
  if f.nearest n d < 2 ^ f.maxExp then some (f.nearest n d) else none

def roundNat (n : ℕ) : ℕ :=
  let u := 2 ^ (n.log2 - 52)
  if 2 * (n % u) < u ∨ 2 * (n % u) = u ∧ n / u % 2 = 0 then n / u * u else (n / u + 1) * u

def roundInt (v : ℤ) : ℤ := v.sign * (roundNat v.natAbs : ℤ)

/-- The two multiples of `10 ^ k` around `v`, the closer one first. -/
def neighbours (v k : ℕ) : List ℕ :=
  let lo := v / 10 ^ k * 10 ^ k
  let hi := lo + 10 ^ k
  if v - lo ≤ hi - v then [lo, hi] else [hi, lo]

/-- Search for the shortest digits with at most `k` trailing zeros. -/
def shortestFrom (v : ℕ) : ℕ → ℕ
  | 0 => v
  | k + 1 =>
    match (neighbours v (k + 1)).find? fun c => roundNat c = v with
    | some c => c
    | none => shortestFrom v k

/-- The integer a float64 below `10 ^ 21` is printed as. -/
def shortest (v : ℕ) : ℕ := shortestFrom v 21

def shortestInt (v : ℤ) : ℤ := v.sign * (shortest v.natAbs : ℤ)

variable {n : ℕ} {v : ℤ}

theorem roundNat_of_lt (h : n < 2 ^ 53) : roundNat n = n := by
  have hlog : n.log2 - 52 = 0 := by
    rcases Nat.eq_zero_or_pos n with rfl | hn
    · rfl
    · have := (Nat.log2_lt (by omega)).mpr h
      omega
  simp [roundNat, hlog, Nat.mod_one]

theorem roundInt_of_neg (h : v < 0) : roundInt v = -(roundNat v.natAbs : ℤ) := by
  rw [roundInt, Int.sign_eq_neg_one_of_neg h, neg_one_mul]

theorem roundInt_of_nonneg (h : ¬v < 0) : roundInt v = roundNat v.natAbs := by
  rcases eq_or_lt_of_not_gt h with rfl | hpos
  · rfl
  · rw [roundInt, Int.sign_eq_one_of_pos hpos, one_mul]

theorem le_roundNat (h : 2 ^ 53 ≤ n) : 2 ^ 53 ≤ roundNat n := by
  have h0 : n ≠ 0 := by omega
  have hlog : 53 ≤ n.log2 := (Nat.le_log2 h0).mpr h
  have hself : 2 ^ n.log2 ≤ n := Nat.log2_self_le h0
  have hu : 2 ^ 53 ≤ n / 2 ^ (n.log2 - 52) * 2 ^ (n.log2 - 52) := by
    have hq : 2 ^ 52 ≤ n / 2 ^ (n.log2 - 52) := by
      rw [Nat.le_div_iff_mul_le (Nat.pow_pos (by norm_num)), ← pow_add]
      rwa [show 52 + (n.log2 - 52) = n.log2 by omega]
    calc 2 ^ 53 = 2 ^ 52 * 2 := by norm_num
      _ ≤ n / 2 ^ (n.log2 - 52) * 2 ^ (n.log2 - 52) := by
        refine Nat.mul_le_mul hq ?_
        calc 2 = 2 ^ 1 := rfl
          _ ≤ 2 ^ (n.log2 - 52) := Nat.pow_le_pow_right (by norm_num) (by omega)
  unfold roundNat
  dsimp only
  split_ifs
  · exact hu
  · refine hu.trans (Nat.mul_le_mul_right _ (Nat.le_succ _))

theorem roundNat_eq_of_lt {c v : ℕ} (hv : v < 2 ^ 53) (h : roundNat c = v) : c = v := by
  rcases Nat.lt_or_ge c (2 ^ 53) with hc | hc
  · rw [← h, roundNat_of_lt hc]
  · have := le_roundNat hc
    omega

theorem roundNat_eq_divRound (n : ℕ) : roundNat n = divRound n (2 ^ (n.log2 - 52)) * 2 ^ (n.log2 - 52) := by
  unfold roundNat divRound
  dsimp only
  split_ifs <;> rfl

theorem roundNat_le (n : ℕ) : roundNat n ≤ 2 * n := by
  rcases Nat.eq_zero_or_pos n with rfl | hn
  · decide
  · have hu : 2 ^ (n.log2 - 52) ≤ n :=
      (Nat.pow_le_pow_right (by norm_num) (Nat.sub_le _ _)).trans (Nat.log2_self_le (by omega))
    have hq : n / 2 ^ (n.log2 - 52) * 2 ^ (n.log2 - 52) ≤ n := Nat.div_mul_le_self _ _
    unfold roundNat
    dsimp only
    split_ifs
    · omega
    · rw [Nat.add_mul]
      omega

theorem le_two_mul_roundNat (n : ℕ) : n ≤ 2 * roundNat n := by
  rcases Nat.eq_zero_or_pos n with rfl | hn
  · omega
  · have hu : 2 ^ (n.log2 - 52) ≤ n :=
      (Nat.pow_le_pow_right (by norm_num) (Nat.sub_le _ _)).trans (Nat.log2_self_le (by omega))
    have hdiv := Nat.div_add_mod' n (2 ^ (n.log2 - 52))
    unfold roundNat
    dsimp only
    split_ifs
    · omega
    · rw [Nat.add_mul]
      omega

theorem exponent_nat (hn : n ≠ 0) : float64.exponent n 1 = (n.log2 : ℤ) - 52 := by
  have hone : Nat.log2 1 = 0 := by decide
  have hle : 2 ^ n.log2 ≤ n := Nat.log2_self_le hn
  unfold Format.exponent float64
  simp only [hone, Nat.cast_zero, sub_zero, Nat.cast_nonneg, if_true, Int.toNat_natCast, one_mul,
    if_neg (Nat.not_lt.mpr hle)]
  omega

theorem divRound_one (n : ℕ) : divRound n 1 = n := by
  simp [divRound, Nat.mod_one]

theorem nearest_nat (n : ℕ) : float64.nearest n 1 = roundNat n := by
  have hneg : ∀ k, n < 2 ^ 53 → ((divRound (n * 2 ^ k) 1 : ℕ) : ℚ) / 2 ^ k = roundNat n := by
    intro k hn
    rw [divRound_one, roundNat_of_lt hn]
    push_cast
    exact mul_div_cancel_right₀ _ (by positivity)
  unfold Format.nearest
  dsimp only
  rcases Nat.eq_zero_or_pos n with rfl | hn
  · exact hneg 53 (by norm_num)
  · rw [exponent_nat (by omega)]
    split_ifs with he
    · have hto : ((n.log2 : ℤ) - 52).toNat = n.log2 - 52 := by omega
      rw [hto, one_mul, roundNat_eq_divRound]
      push_cast
      rfl
    · refine hneg _ ?_
      rw [← Nat.log2_lt (by omega)]
      omega

/-- **An integer is rounded to double precision as `roundNat` does.** -/
theorem round_nat (h : n < 2 ^ 200) : float64.round n 1 = some (roundNat n : ℚ) := by
  have hlt : roundNat n < 2 ^ float64.maxExp :=
    calc roundNat n ≤ 2 * n := roundNat_le n
      _ < 2 ^ 201 := by omega
      _ ≤ 2 ^ float64.maxExp := Nat.pow_le_pow_right (by norm_num) (by decide)
  have hq : (roundNat n : ℚ) < 2 ^ float64.maxExp := by
    have := (Nat.cast_lt (α := ℚ)).mpr hlt
    rwa [Nat.cast_pow, Nat.cast_ofNat] at this
  unfold Format.round
  rw [nearest_nat, if_pos hq]

theorem roundNat_shortestFrom {v : ℕ} (h : roundNat v = v) : ∀ k, roundNat (shortestFrom v k) = v
  | 0 => h
  | k + 1 => by
    unfold shortestFrom
    split
    · next c hc => simpa using List.find?_some hc
    · exact roundNat_shortestFrom h k

/-- **The printed digits denote the float64 again when they are read back as one.** -/
theorem roundNat_shortest {v : ℕ} (h : roundNat v = v) : roundNat (shortest v) = v :=
  roundNat_shortestFrom h 21

/-- **Below `2^53` the printed digits are the float64 itself.** -/
theorem shortest_of_lt {v : ℕ} (h : v < 2 ^ 53) : shortest v = v :=
  roundNat_eq_of_lt h (roundNat_shortest (roundNat_of_lt h))

theorem shortestInt_of_lt (h : v.natAbs < 2 ^ 53) : shortestInt v = v := by
  rw [shortestInt, shortest_of_lt h, Int.sign_mul_natAbs]

theorem roundNat_natAbs (h : roundInt v = v) : roundNat v.natAbs = v.natAbs := by
  by_cases hv : v < 0
  · rw [roundInt_of_neg hv] at h
    omega
  · rw [roundInt_of_nonneg hv] at h
    omega

theorem natAbs_shortestInt_le (h : roundInt v = v) : (shortestInt v).natAbs ≤ 2 * v.natAbs := by
  have hs : shortest v.natAbs ≤ 2 * v.natAbs := by
    have := le_two_mul_roundNat (shortest v.natAbs)
    rwa [roundNat_shortest (roundNat_natAbs h)] at this
  have hsign : v.sign.natAbs ≤ 1 := by
    rcases lt_trichotomy v 0 with hv | rfl | hv
    · simp [Int.sign_eq_neg_one_of_neg hv]
    · simp
    · simp [Int.sign_eq_one_of_pos hv]
  calc (shortestInt v).natAbs = v.sign.natAbs * shortest v.natAbs := by
        rw [shortestInt, Int.natAbs_mul, Int.natAbs_natCast]
    _ ≤ 1 * shortest v.natAbs := Nat.mul_le_mul_right _ hsign
    _ ≤ 2 * v.natAbs := by rwa [one_mul]

end CoreC.Lib.Float64
