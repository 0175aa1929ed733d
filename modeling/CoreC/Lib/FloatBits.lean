import CoreC.Lib.Float64

/-! # The bit pattern of a floating-point number

A number of a binary format is `m * 2 ^ e`, where `e` is the exponent of the last bit of its significand; its pattern is
`m` above `e - minExp` steps of one binade each, because the leading bit of the significand of a normal number is not
stored and adds to the exponent instead. The sign is in the bit above. A significand that is rounded up to the next power
of two carries into the exponent, so one formula covers it. -/

namespace CoreC.Lib.Float64

def Format.pattern (f : Format) (q : ℚ) : ℕ :=
  if q = 0 then 0
  else
    let e := f.exponent q.num.toNat q.den
    let m := if 0 ≤ e then q.num.toNat / (q.den * 2 ^ e.toNat)
      else q.num.toNat * 2 ^ (-e).toNat / q.den
    (e - f.minExp).toNat * 2 ^ (f.bits - 1) + m

def Format.infinity (f : Format) : ℕ :=
  (f.maxExp - f.bits - f.minExp).toNat * 2 ^ (f.bits - 1) + 2 ^ f.bits

/-- `math.Float32bits`, for a sign and a magnitude (`none` for the infinity). -/
def float32bits (neg : Bool) (mag : Option ℚ) : ℕ :=
  (if neg then 2 ^ 31 else 0) +
    match mag with
    | some q => float32.pattern q
    | none => float32.infinity

variable {n : ℕ}

theorem Format.exponent_nat (f : Format) (hn : n ≠ 0) :
    f.exponent n 1 = max f.minExp ((n.log2 : ℤ) - (f.bits - 1)) := by
  have hone : Nat.log2 1 = 0 := by decide
  have hle : 2 ^ n.log2 ≤ n := Nat.log2_self_le hn
  unfold Format.exponent
  simp [hone, if_neg (Nat.not_lt.mpr hle)]

theorem exponent_nat32 (hn : n ≠ 0) : float32.exponent n 1 = (n.log2 : ℤ) - 23 := by
  rw [Format.exponent_nat _ hn]
  show max (-149 : ℤ) ((n.log2 : ℤ) - ((24 : ℕ) - 1)) = (n.log2 : ℤ) - 23
  omega

theorem pattern_nat (hn : n ≠ 0) : float32.pattern n = (n.log2 + 126) * 2 ^ 23 +
      if 23 ≤ n.log2 then n / 2 ^ (n.log2 - 23) else n * 2 ^ (23 - n.log2) := by
  have hq : (n : ℚ) ≠ 0 := by exact_mod_cast hn
  have hstep : ((n.log2 : ℤ) - 23 - float32.minExp).toNat = n.log2 + 126 := by
    show ((n.log2 : ℤ) - 23 - (-149)).toNat = n.log2 + 126
    omega
  unfold Format.pattern
  rw [if_neg hq]
  simp only [Rat.num_natCast, Rat.den_natCast, Int.toNat_natCast, exponent_nat32 hn, hstep, Nat.one_mul, Nat.div_one]
  by_cases h : 23 ≤ n.log2
  · rw [if_pos h, if_pos (by omega), show ((n.log2 : ℤ) - 23).toNat = n.log2 - 23 by omega]
    rfl
  · rw [if_neg h, if_neg (by omega), show (-((n.log2 : ℤ) - 23)).toNat = 23 - n.log2 by omega]
    rfl

/-- The integer single precision rounds `n` to. -/
def roundNat32 (n : ℕ) : ℕ :=
  if 23 ≤ n.log2 then divRound n (2 ^ (n.log2 - 23)) * 2 ^ (n.log2 - 23) else n

theorem nearest_nat32 (hn : n ≠ 0) : float32.nearest n 1 = roundNat32 n := by
  unfold Format.nearest roundNat32
  rw [exponent_nat32 hn]
  by_cases h : 23 ≤ n.log2
  · rw [if_pos h, if_pos (by omega), show ((n.log2 : ℤ) - 23).toNat = n.log2 - 23 by omega, one_mul]
    push_cast
    rfl
  · rw [if_neg h, if_neg (by omega), divRound_one]
    push_cast
    exact mul_div_cancel_right₀ _ (by positivity)

theorem divRound_bounds (hn : n ≠ 0) (h : 23 ≤ n.log2) :
    2 ^ 23 ≤ divRound n (2 ^ (n.log2 - 23)) ∧ divRound n (2 ^ (n.log2 - 23)) ≤ 2 ^ 24 := by
  have hu : 0 < 2 ^ (n.log2 - 23) := by positivity
  have hlow : 2 ^ 23 ≤ n / 2 ^ (n.log2 - 23) := by
    rw [Nat.le_div_iff_mul_le hu, ← pow_add, show 23 + (n.log2 - 23) = n.log2 by omega]
    exact Nat.log2_self_le hn
  have hhigh : n / 2 ^ (n.log2 - 23) < 2 ^ 24 := by
    rw [Nat.div_lt_iff_lt_mul hu, ← pow_add, show 24 + (n.log2 - 23) = n.log2 + 1 by omega]
    exact Nat.lt_log2_self
  unfold divRound
  split_ifs <;> omega

theorem roundNat32_pos (hn : n ≠ 0) : 0 < roundNat32 n := by
  unfold roundNat32
  split_ifs with h
  · have := (divRound_bounds hn h).1
    positivity
  · omega

/-- **An integer is rounded to single precision as `roundNat32` does.** -/
theorem round_nat32 (h : n < 2 ^ 100) : float32.round n 1 = some (roundNat32 n : ℚ) := by
  rcases Nat.eq_zero_or_pos n with rfl | hpos
  · decide +kernel
  have hn : n ≠ 0 := by omega
  have hlog : n.log2 < 100 := (Nat.log2_lt hn).mpr h
  have hle : roundNat32 n ≤ 2 ^ 101 := by
    unfold roundNat32
    split_ifs with hL
    · have hm := (divRound_bounds hn hL).2
      calc divRound n (2 ^ (n.log2 - 23)) * 2 ^ (n.log2 - 23) ≤ 2 ^ 24 * 2 ^ (n.log2 - 23) := Nat.mul_le_mul_right _ hm
        _ = 2 ^ (24 + (n.log2 - 23)) := (pow_add _ _ _).symm
        _ ≤ 2 ^ 101 := Nat.pow_le_pow_right (by norm_num) (by omega)
    · exact h.le.trans (Nat.pow_le_pow_right (by norm_num) (by omega))
  have hlt : roundNat32 n < 2 ^ float32.maxExp :=
    hle.trans_lt (Nat.pow_lt_pow_right (by norm_num) (by decide))
  have hq : (roundNat32 n : ℚ) < 2 ^ float32.maxExp := by exact_mod_cast hlt
  unfold Format.round
  rw [nearest_nat32 hn, if_pos hq]

/-- **The pattern of an integer rounded to single precision.** -/
theorem pattern_roundNat32 (hn : n ≠ 0) : float32.pattern (roundNat32 n) = (n.log2 + 126) * 2 ^ 23 +
      if 23 ≤ n.log2 then divRound n (2 ^ (n.log2 - 23)) else n * 2 ^ (23 - n.log2) := by
  unfold roundNat32
  by_cases h : 23 ≤ n.log2
  · obtain ⟨hlow, hhigh⟩ := divRound_bounds hn h
    rw [if_pos h, if_pos h]
    set m := divRound n (2 ^ (n.log2 - 23)) with hm
    set k := n.log2 - 23 with hk
    have hpos : 0 < 2 ^ k := by positivity
    have hne : m * 2 ^ k ≠ 0 := Nat.mul_ne_zero (by omega) (by omega)
    rw [pattern_nat hne]
    rcases Nat.lt_or_eq_of_le hhigh with hlt | heq
    · have hlog : (m * 2 ^ k).log2 = k + 23 := by
        rw [Nat.log2_eq_iff hne]
        refine ⟨?_, ?_⟩
        · rw [pow_add, Nat.mul_comm]
          exact Nat.mul_le_mul_right _ hlow
        · rw [show k + 23 + 1 = 24 + k by omega, pow_add]
          exact Nat.mul_lt_mul_of_pos_right hlt hpos
      rw [hlog, if_pos (by omega), Nat.add_sub_cancel, Nat.mul_div_cancel _ hpos]
      omega
    · have hlog : (m * 2 ^ k).log2 = k + 24 := by
        rw [heq, ← pow_add, Nat.log2_two_pow]
        omega
      have hdiv : m * 2 ^ k / 2 ^ (k + 24 - 23) = 2 ^ 23 := by
        rw [heq, show k + 24 - 23 = 1 + k by omega, pow_add 2 1 k, Nat.mul_div_mul_right _ _ hpos]
        norm_num
      rw [hlog, if_pos (by omega)]
      omega
  · rw [if_neg h, if_neg h, pattern_nat hn, if_neg h]

end CoreC.Lib.Float64
