import Mathlib.Algebra.BigOperators.Group.Finset.Piecewise
import Mathlib.Algebra.Order.BigOperators.Group.Finset
import Mathlib.Data.Nat.Bitwise

/-! # The rate window

`RateWindow` (`common/metrics/rate.go`) counts points in sixty words, one for each second modulo 60. A word holds the
second it was last used for and the count of that second; another second starts it again.

* `unpack_pack`: a word gives back its second and its count. -/

namespace CoreC.Common.RateWindow

open List Function

def rateCountMax : ℕ := 2 ^ 24 - 1

def pack (sec count : ℕ) : ℕ := sec <<< 24 % 2 ^ 64 ||| min count rateCountMax

def unpack (w : ℕ) : ℕ × ℕ := (w >>> 24, w &&& rateCountMax)

/-- `Unix` of an instant in nanoseconds. -/
def unix (t : ℕ) : ℕ := t / 1000000000

def newWord (old sec n : ℕ) : ℕ :=
  if (unpack old).1 ≠ sec then pack sec n else pack sec (((unpack old).2 + n) % 2 ^ 64)

/-- `Observe` of points at an instant. -/
def observe (buckets : ℕ → ℕ) (call : ℕ × ℕ) : ℕ → ℕ :=
  if call.2 = 0 then buckets
  else
    let slot := unix call.1 % 60
    update buckets slot (newWord (buckets slot) (unix call.1) call.2)

/-- What `Sum` adds for a word. -/
def counted (w now : ℕ) : ℕ :=
  if (unpack w).1 ≤ unix now ∧ unix now - (unpack w).1 < 60 then (unpack w).2 else 0

def sum (buckets : ℕ → ℕ) (now : ℕ) : ℕ := (∑ i ∈ Finset.range 60, counted (buckets i) now) % 2 ^ 64

def run (calls : List (ℕ × ℕ)) : ℕ → ℕ := calls.foldl observe fun _ => 0

/-- The points of the calls whose second passes a test. -/
def points (p : ℕ → Bool) (calls : List (ℕ × ℕ)) : ℕ := ((calls.filter fun c => p (unix c.1)).map Prod.snd).sum

variable {calls : List (ℕ × ℕ)} {sec count i : ℕ}

theorem unpack_pack (hsec : sec < 2 ^ 40) (hcount : count < 2 ^ 24) : unpack (pack sec count) = (sec, count) := by
  have hword : pack sec count = sec * 2 ^ 24 + count := by
    rw [pack, rateCountMax, min_eq_left (by omega), Nat.shiftLeft_eq, Nat.mod_eq_of_lt (by omega), ← Nat.shiftLeft_eq,
      Nat.shiftLeft_add_eq_or_of_lt hcount]
  rw [unpack, rateCountMax, hword, Nat.shiftRight_eq_div_pow, Nat.and_two_pow_sub_one_eq_mod]
  exact Prod.ext (by dsimp only; omega) (by dsimp only; omega)

theorem points_concat (p : ℕ → Bool) (calls : List (ℕ × ℕ)) (c : ℕ × ℕ) :
    points p (calls ++ [c]) = points p calls + if p (unix c.1) then c.2 else 0 := by
  unfold points
  rw [filter_append, map_append, sum_append, filter_cons, filter_nil]
  split_ifs <;> rfl

/-- The seconds of a slot that lie in the window. -/
def ofSlot (now i s : ℕ) : Bool := s % 60 = i ∧ unix now < s + 60

/-- **What a slot holds**, as seen after the calls: one of its seconds, and the points of those in the window. -/
def Slot (calls : List (ℕ × ℕ)) (i w : ℕ) : Prop :=
  ∀ now, (∀ c ∈ calls, c.1 ≤ now) → ((unpack w).2 = 0 ∨ (unpack w).1 % 60 = i ∧ (unpack w).1 ≤ unix now) ∧
    counted w now = points (ofSlot now i) calls

theorem slot_observe {c : ℕ × ℕ} {buckets : ℕ → ℕ} (hle : ∀ c' ∈ calls, c'.1 ≤ c.1) (hsec : unix c.1 < 2 ^ 40)
    (hcount : points (· = unix c.1) (calls ++ [c]) < 2 ^ 24) (h : Slot calls i (buckets i)) :
    Slot (calls ++ [c]) i (observe buckets c i) := by
  intro now hnow
  have hlast : unix c.1 ≤ unix now := Nat.div_le_div_right (hnow c (by simp))
  obtain ⟨hsecond, hcounted⟩ := h now fun c' hc' => hnow c' (mem_append_left _ hc')
  rw [points_concat, ← hcounted]
  by_cases hother : c.2 = 0 ∨ i ≠ unix c.1 % 60
  · have hsame : observe buckets c i = buckets i := by
      unfold observe
      split_ifs with hzero
      · rfl
      · exact update_of_ne (hother.resolve_left hzero) _ _
    rw [hsame]
    refine ⟨hsecond, ?_⟩
    rcases hother with hzero | hi
    · rw [hzero, ite_self, Nat.add_zero]
    · rw [if_neg (by simp [ofSlot, hi.symm]), Nat.add_zero]
  obtain ⟨hzero, rfl⟩ : c.2 ≠ 0 ∧ i = unix c.1 % 60 := by omega
  rw [points_concat, if_pos (by simp)] at hcount
  obtain ⟨hs, hn⟩ := h c.1 hle
  generalize hw : buckets (unix c.1 % 60) = w at *
  -- the count of the second of the call, so far
  have hsofar : (unpack w).1 = unix c.1 → (unpack w).2 = points (· = unix c.1) calls := by
    intro heq
    rw [counted, heq, if_pos ⟨le_rfl, by omega⟩] at hn
    rw [hn, points, points, filter_congr fun c' hc' => ?_]
    have hunix : unix c'.1 ≤ unix c.1 := Nat.div_le_div_right (hle c' hc')
    simp only [ofSlot, decide_eq_decide]
    omega
  have hnew : unpack (observe buckets c (unix c.1 % 60)) =
      (unix c.1, if (unpack w).1 = unix c.1 then (unpack w).2 + c.2 else c.2) := by
    rw [observe, if_neg hzero]
    simp only [update_self, hw, newWord]
    by_cases heq : (unpack w).1 = unix c.1
    · have := hsofar heq
      rw [if_neg (not_not.mpr heq), if_pos heq, Nat.mod_eq_of_lt (by omega), unpack_pack hsec (by omega)]
    · rw [if_pos heq, if_neg heq, unpack_pack hsec (by omega)]
  rw [counted, counted, hnew]
  refine ⟨.inr ⟨rfl, hlast⟩, ?_⟩
  simp only [ofSlot, decide_eq_true_eq, true_and]
  split_ifs <;> omega

theorem slot_run (hsorted : calls.Pairwise fun a b => a.1 ≤ b.1) (hsec : ∀ c ∈ calls, unix c.1 < 2 ^ 40)
    (hcount : ∀ s, points (· = s) calls < 2 ^ 24) (i : ℕ) : Slot calls i (run calls i) := by
  induction calls using List.reverseRecOn with
  | nil => exact fun now _ => by simp [counted, unpack, run, points]
  | append_singleton calls c ih =>
    obtain ⟨hbefore, -, hle⟩ := pairwise_append.mp hsorted
    have hslot := ih hbefore (fun c' hc' => hsec c' (mem_append_left _ hc')) fun s =>
      lt_of_le_of_lt (by rw [points_concat]; exact Nat.le_add_right _ _) (hcount s)
    rw [show run (calls ++ [c]) = observe (run calls) c by simp [run]]
    exact slot_observe (fun c' hc' => hle c' hc' c (by simp)) (hsec c (by simp)) (hcount _) hslot

theorem sum_slots (now : ℕ) (calls : List (ℕ × ℕ)) :
    ∑ i ∈ Finset.range 60, points (ofSlot now i) calls = points (fun s => unix now < s + 60) calls := by
  induction calls using List.reverseRecOn with
  | nil => simp [points]
  | append_singleton calls c ih =>
    simp [points_concat, Finset.sum_add_distrib, ih, ofSlot, ite_and, Nat.mod_lt _ (show 0 < 60 by decide)]

/-- **The window counts exactly the last minute**: calls in the order of time, fewer than 2 ^ 24 points a second, and a
sum not before the last call. -/
theorem sum_eq (calls : List (ℕ × ℕ)) (now : ℕ) (hsorted : calls.Pairwise fun a b => a.1 ≤ b.1)
    (hnow : ∀ c ∈ calls, c.1 ≤ now) (hsec : ∀ c ∈ calls, unix c.1 < 2 ^ 40)
    (hcount : ∀ s, points (· = s) calls < 2 ^ 24) :
    sum (run calls) now = points (fun s => unix now < s + 60) calls := by
  have hslot := slot_run hsorted hsec hcount
  have hle : ∑ i ∈ Finset.range 60, counted (run calls i) now ≤ 60 * 2 ^ 24 := by
    refine (Finset.sum_le_card_nsmul _ _ (2 ^ 24) fun i _ => ?_).trans (by simp)
    unfold counted
    split_ifs
    · exact (Nat.and_lt_two_pow _ (by decide)).le
    · decide
  rw [sum, Nat.mod_eq_of_lt (by omega), ← sum_slots]
  exact Finset.sum_congr rfl fun i _ => (hslot i now hnow).2

/-- Five points, then seven a minute later: the five are gone. -/
theorem sum_eq_minute : sum (run [(0, 5), (60000000000, 7)]) 60000000000 = 7 := by
  refine sum_eq _ _ (by decide) (by decide) (by decide) fun s => ?_
  simp only [points, filter_cons, filter_nil]
  split_ifs <;> decide

end CoreC.Common.RateWindow
