import Mathlib.Data.Int.ConditionallyCompleteOrder
import Mathlib.Tactic.Positivity
import CoreC.Lib.GoInt

/-! # The reconnect loop

`ReconnectLoopWithBreakerCounted` (`common/util/util.go`) waits, tries to connect, and after a failure doubles the wait
up to a maximum; after `maxFailures` failures the circuit breaker sets it to five minutes for good. The first wait, the
maximum and the breaker are independent of each other, and the doubling is that of a 64-bit integer. -/

namespace CoreC.Common.Reconnect

open Lib.GoInt

/-- A second in nanoseconds. -/
def second : ℤ := 1000000000

/-- The first wait if none is given. -/
def defaultBackoffFallback : ℤ := 2 * second

/-- The maximum if none is given. -/
def defaultMaxBackoffFallback : ℤ := 30 * second

/-- The wait from the moment the breaker trips. -/
def circuitBreakerBackoff : ℤ := 300 * second

/-- The variables of the loop; `backoff` is without jitter. -/
structure Loop where
  backoff : ℤ
  failures : ℕ := 0
  breakerTripped : Bool := false

variable (initialBackoff maxBackoff maxFailures : ℤ)

/-- The first wait, after its default. -/
def firstBackoff : ℤ := if initialBackoff ≤ 0 then defaultBackoffFallback else initialBackoff

/-- The maximum, after its default. -/
def cap : ℤ := if maxBackoff ≤ 0 then defaultMaxBackoffFallback else maxBackoff

/-- The branch of a failed attempt; a successful one ends the loop. -/
def connectFailed (s : Loop) : Loop :=
  let failures := s.failures + 1
  if 0 < maxFailures ∧ maxFailures ≤ failures ∧ s.breakerTripped = false then
    ⟨circuitBreakerBackoff, failures, true⟩
  else if s.breakerTripped = false then
    ⟨min (IntType.int64.wrap (s.backoff * 2)) (cap maxBackoff), failures, false⟩
  else ⟨s.backoff, failures, true⟩

/-- The base backoff after `n` failures in a row. -/
def backoffAfter (n : ℕ) : ℤ :=
  ((connectFailed maxBackoff maxFailures)^[n] ⟨firstBackoff initialBackoff, 0, false⟩).backoff

/-- The backoff after `n` failures without the breaker, from `b` up to `m`. -/
def doubled (b m : ℤ) : ℕ → ℤ
  | 0 => b
  | n + 1 => min (IntType.int64.wrap (doubled b m n * 2)) m

variable {initialBackoff maxBackoff maxFailures}

/-- **The wait before every attempt.** -/
theorem backoffAfter_eq (n : ℕ) : backoffAfter initialBackoff maxBackoff maxFailures n =
    if 0 < maxFailures ∧ maxFailures ≤ n then circuitBreakerBackoff
    else doubled (firstBackoff initialBackoff) (cap maxBackoff) n := by
  have hstate : (connectFailed maxBackoff maxFailures)^[n] ⟨firstBackoff initialBackoff, 0, false⟩ =
      if 0 < maxFailures ∧ maxFailures ≤ n then ⟨circuitBreakerBackoff, n, true⟩
      else ⟨doubled (firstBackoff initialBackoff) (cap maxBackoff) n, n, false⟩ := by
    induction n with
    | zero => rw [if_neg (by omega)]; rfl
    | succ n ih =>
      rw [Function.iterate_succ_apply', ih]
      by_cases hn : 0 < maxFailures ∧ maxFailures ≤ n
      · rw [if_pos hn, if_pos (by omega)]
        simp [connectFailed]
      · by_cases hnext : 0 < maxFailures ∧ maxFailures ≤ (n + 1 : ℕ)
        · simp only [connectFailed, if_neg hn, if_pos hnext, and_true]
        · simp only [connectFailed, if_neg hn, if_neg hnext, and_true, if_true]
          rfl
  rw [backoffAfter, hstate]
  split_ifs <;> rfl

section

variable {b m : ℤ} {n : ℕ}

/-- A backoff below 2 ^ 62 is doubled. -/
theorem doubled_succ (hpos : 0 < doubled b m n) (hlt : doubled b m n < 2 ^ 62) :
    doubled b m (n + 1) = min (doubled b m n * 2) m := by
  rw [doubled, IntType.wrap_eq_self (IntType.inRange_int64.mpr (by omega))]

theorem doubled_eq (hb : 0 < b) (hle : b ≤ m) (hlt : ∀ k < n, min (b * 2 ^ k) m < 2 ^ 62) :
    doubled b m n = min (b * 2 ^ n) m := by
  induction n with
  | zero => rw [pow_zero, mul_one, min_eq_left hle, doubled]
  | succ n ih =>
    have hn := hlt n n.lt_succ_self
    have hpow : 0 < b * 2 ^ n := by positivity
    have heq := ih fun k hk => hlt k (Nat.lt_succ_of_lt hk)
    rw [doubled_succ (by omega) (by omega), heq, pow_succ, ← mul_assoc]
    omega

theorem doubled_le_succ (hb : 0 < b) (hle : b ≤ m) (hlt : ∀ k ≤ n, min (b * 2 ^ k) m < 2 ^ 62) :
    doubled b m n ≤ doubled b m (n + 1) := by
  have hpow : 0 < b * 2 ^ n := by positivity
  rw [doubled_eq hb hle fun k hk => hlt k hk.le, doubled_eq hb hle fun k hk => hlt k (Nat.le_of_lt_succ hk), pow_succ,
    ← mul_assoc]
  omega

theorem doubled_monotone_iff (hb : 0 < b) (hm : IntType.int64.InRange m) :
    Monotone (doubled b m) ↔ b ≤ m ∧ m < 2 ^ 62 := by
  constructor
  · intro h
    refine ⟨(h (Nat.zero_le 1)).trans (min_le_right _ _), ?_⟩
    by_contra hcap
    -- the backoff grows until twice it is no duration any more
    have hgrow : ∀ n, 2 ^ 62 ≤ doubled b m n ∨ 2 ^ n ≤ doubled b m n := by
      intro n
      induction n with
      | zero => exact .inr hb
      | succ n ih =>
        by_cases hn : 2 ^ 62 ≤ doubled b m n
        · exact .inl (hn.trans (h n.le_succ))
        · have hpow := ih.resolve_left hn
          have hpos : (0 : ℤ) < 2 ^ n := by positivity
          rw [doubled_succ (by omega) (by omega), pow_succ]
          omega
    have hlow : 2 ^ 62 ≤ doubled b m 62 := (hgrow 62).elim id id
    have hhigh : doubled b m 62 ≤ m := min_le_right _ _
    have hmono : doubled b m 62 ≤ IntType.int64.wrap (doubled b m 62 * 2) := (h (Nat.le_succ 62)).trans (min_le_left _ _)
    rw [IntType.inRange_int64] at hm
    rw [IntType.wrap_int64] at hmono
    omega
  · rintro ⟨hle, hcap⟩
    exact monotone_nat_of_le_succ fun n => doubled_le_succ hb hle fun k _ => (min_le_right _ _).trans_lt hcap

/-- With a breaker at the failure after the `n + 1`st: the last wait before it is the longest. -/
theorem doubled_before_iff (hb : 0 < b) {c : ℤ} (hc : c < 2 ^ 62) :
    ((∀ k < n + 1, doubled b m k ≤ doubled b m (k + 1)) ∧ doubled b m (n + 1) ≤ c) ↔
      b ≤ m ∧ min (b * 2 ^ (n + 1)) m ≤ c := by
  constructor
  · rintro ⟨hstep, hlast⟩
    have hle : b ≤ m := (hstep 0 n.succ_pos).trans (min_le_right _ _)
    have hdoubled : ∀ k ≤ n + 1, doubled b m k ≤ c := fun k hk =>
      Nat.decreasingInduction (fun j hj h => (hstep j hj).trans h) hlast hk
    have hmin : ∀ k ≤ n + 1, min (b * 2 ^ k) m ≤ c := by
      intro k hk
      induction k using Nat.strongRecOn with
      | ind k ih =>
        rw [← doubled_eq hb hle fun j hj => (ih j hj (by omega)).trans_lt hc]
        exact hdoubled k hk
    exact ⟨hle, hmin (n + 1) le_rfl⟩
  · rintro ⟨hle, hlast⟩
    have hmin : ∀ k ≤ n + 1, min (b * 2 ^ k) m < 2 ^ 62 := by
      intro k hk
      have hpow : (2 : ℤ) ^ k ≤ 2 ^ (n + 1) := pow_le_pow_right₀ (by norm_num) hk
      exact ((min_le_min_right m (mul_le_mul_of_nonneg_left hpow hb.le)).trans hlast).trans_lt hc
    refine ⟨fun k hk => doubled_le_succ hb hle fun j hj => hmin j (by omega), ?_⟩
    rw [doubled_eq hb hle fun j hj => hmin j hj.le]
    exact hlast

end

/-- **What the settings have to satisfy**: the breaker does not shorten the last wait before it, the maximum does not
shorten the first wait, and without a breaker twice the maximum is still a duration. -/
def Ordered (initialBackoff maxBackoff maxFailures : ℤ) : Prop :=
  if maxFailures = 1 then firstBackoff initialBackoff ≤ circuitBreakerBackoff
  else firstBackoff initialBackoff ≤ cap maxBackoff ∧
    if maxFailures ≤ 0 then cap maxBackoff < 2 ^ 62
    else min (firstBackoff initialBackoff * 2 ^ (maxFailures - 1).toNat) (cap maxBackoff) ≤ circuitBreakerBackoff

/-- **When the waits never get shorter**, before the breaker trips and from then on. -/
theorem backoff_monotone_iff (initialBackoff maxBackoff maxFailures : ℤ) (hmax : IntType.int64.InRange maxBackoff) :
    Monotone (backoffAfter initialBackoff maxBackoff maxFailures) ↔ Ordered initialBackoff maxBackoff maxFailures := by
  have hb : 0 < firstBackoff initialBackoff := by
    unfold firstBackoff defaultBackoffFallback second
    split_ifs <;> omega
  unfold Ordered
  rcases le_or_gt maxFailures 0 with hnone | hpos
  · have heq : backoffAfter initialBackoff maxBackoff maxFailures =
        doubled (firstBackoff initialBackoff) (cap maxBackoff) := by
      funext n
      rw [backoffAfter_eq, if_neg (by omega)]
    have hcap : IntType.int64.InRange (cap maxBackoff) := by
      unfold cap
      split_ifs
      · decide
      · exact hmax
    rw [heq, if_neg (by omega), if_pos hnone, doubled_monotone_iff hb hcap]
  obtain ⟨k, rfl⟩ : ∃ k : ℕ, maxFailures = k + 1 := ⟨(maxFailures - 1).toNat, by omega⟩
  have hmono : Monotone (backoffAfter initialBackoff maxBackoff (k + 1)) ↔
      (∀ n < k, doubled (firstBackoff initialBackoff) (cap maxBackoff) n ≤ doubled (firstBackoff initialBackoff)
        (cap maxBackoff) (n + 1)) ∧ doubled (firstBackoff initialBackoff) (cap maxBackoff) k ≤ circuitBreakerBackoff := by
    have hsucc : ∀ f : ℕ → ℤ, Monotone f ↔ ∀ n, f n ≤ f (n + 1) := fun f =>
      ⟨fun h n => h n.le_succ, monotone_nat_of_le_succ⟩
    rw [hsucc]
    simp only [backoffAfter_eq]
    constructor
    · intro h
      refine ⟨fun n hn => ?_, ?_⟩
      · have := h n
        rwa [if_neg (by omega), if_neg (by omega)] at this
      · have := h k
        rwa [if_neg (by omega), if_pos (by omega)] at this
    · rintro ⟨hstep, hlast⟩ n
      rcases lt_trichotomy n k with hn | rfl | hn
      · rw [if_neg (by omega), if_neg (by omega)]
        exact hstep n hn
      · rw [if_neg (by omega), if_pos (by omega)]
        exact hlast
      · rw [if_pos (by omega), if_pos (by omega)]
  rw [hmono]
  cases k with
  | zero => simp [doubled]
  | succ k =>
    rw [if_neg (by omega), if_neg (by omega), show ((k + 1 : ℕ) + 1 - 1 : ℤ).toNat = k + 1 by omega]
    exact doubled_before_iff hb (by decide)

/-- A second, thirty at most, five failures. -/
theorem backoff_monotone_iff_default : Monotone (backoffAfter second (30 * second) 5) :=
  (backoff_monotone_iff _ _ _ (by decide)).mpr (by unfold Ordered; decide)

/-- **The breaker shortens the wait**: of up to an hour, from 512 s to 300 s with the tenth failure. -/
theorem breaker_speeds_up : ¬ Monotone (backoffAfter second (3600 * second) 10) :=
  fun h => absurd (h (Nat.le_succ 9)) (by decide)

end CoreC.Common.Reconnect
