import CoreC.Lib.GoInt

/-! # Publishing a batch with retries

`publishWithRetryAndBuffer` (`engine/batcher_retry.go`) as one call: the batch is handed to the transport
until it takes it, with a growing delay between the attempts, and to the offline buffer if it never does.
The transport, the buffer and the clock are the surroundings (`RetryEnv`), in a state of any type. -/

namespace CoreC.Engine.Retry

open Lib.GoInt

/-- The surroundings of a batcher, in a state `σ`: `PublishBatch` (`true` if it returns no error), waiting
for a delay (`true` if the context ends meanwhile), and what becomes of a batch that is given up. -/
structure RetryEnv (σ α : Type) where
  publishBatch : List α → σ → Bool × σ
  wait : ℤ → σ → Bool × σ
  giveUp : List α → σ → σ

def millisecond : ℤ := 1000000

def retryDelay (attempt : ℕ) : ℤ :=
  min (IntType.int64.wrap (100 * millisecond * IntType.int64.wrap (2 ^ attempt))) (5000 * millisecond)

def maxAttempts (retryCount : ℤ) : ℕ := (IntType.int64.wrap (retryCount + 1)).toNat

section

variable {σ α : Type} (env : RetryEnv σ α) (batch : List α)

def retryLoop : ℕ → ℕ → σ → Bool × σ
  | _, 0, s => (false, env.giveUp batch s)
  | attempt, left + 1, s =>
    match env.publishBatch batch s with
    | (true, s) => (true, s)
    | (false, s) =>
      if left = 0 then (false, env.giveUp batch s)
      else
        match env.wait (retryDelay attempt) s with
        -- a shutdown ends the retries
        | (true, s) => (false, env.giveUp batch s)
        | (false, s) => retryLoop (attempt + 1) left s

/-- `publishWithRetryAndBuffer`; `true` if the batch was published. -/
def publishWithRetryAndBuffer (retryCount : ℤ) (s : σ) : Bool × σ :=
  retryLoop env batch 0 (maxAttempts retryCount) s

/-- From one state to another through attempts that failed, each with the wait after it. -/
inductive Retried : σ → σ → Prop
  | refl (s : σ) : Retried s s
  | step {s s₁ s₂ s₃ : σ} {d : ℤ} (hfail : env.publishBatch batch s = (false, s₁))
      (hwait : env.wait d s₁ = (false, s₂)) (hrest : Retried s₂ s₃) : Retried s s₃

end

variable {σ α : Type} {env : RetryEnv σ α} {batch : List α} {s s' : σ}

/-- **What failed attempts keep**, an attempt and a wait keeping it. -/
theorem Retried.invariant {I : σ → Prop} (hpublish : ∀ s s', I s → env.publishBatch batch s = (false, s') → I s')
    (hwait : ∀ d s s', I s → env.wait d s = (false, s') → I s') (h : Retried env batch s s') :
    I s → I s' := by
  induction h with
  | refl s => exact id
  | step hfail hw _ ih => exact fun hI => ih (hwait _ _ _ (hpublish _ _ hI hfail) hw)

/-- The attempts and the waits so far. -/
structure Trace where
  attempts : ℕ
  waits : List ℤ

/-- The `n`th attempt succeeds if `ok n`, and the context lives on. -/
def traceEnv (ok : ℕ → Bool) : RetryEnv Trace α where
  publishBatch _ s := (ok s.attempts, { s with attempts := s.attempts + 1 })
  wait d s := (false, { s with waits := s.waits ++ [d] })
  giveUp _ s := s

theorem trace_loop (ok : ℕ → Bool) (batch : List α) (left attempt : ℕ) (waits : List ℤ) : ∃ m ≤ left,
    (∀ i < m, ok (attempt + i) = false) ∧ (ok (attempt + m) = true ∨ m = left) ∧
      (retryLoop (traceEnv ok) batch attempt (left + 1) ⟨attempt, waits⟩).2 =
        ⟨attempt + m + 1, waits ++ (List.range m).map fun i => retryDelay (attempt + i)⟩ := by
  have hpub : ∀ waits, (traceEnv ok).publishBatch batch ⟨attempt, waits⟩ = (ok attempt, ⟨attempt + 1, waits⟩) :=
    fun _ => rfl
  induction left generalizing attempt waits with
  | zero =>
    refine ⟨0, le_rfl, nofun, .inr rfl, ?_⟩
    rw [retryLoop, hpub]
    cases ok attempt <;> simp [traceEnv]
  | succ left ih =>
    rw [retryLoop, hpub]
    cases hok : ok attempt with
    | true => exact ⟨0, Nat.zero_le _, nofun, .inl hok, by simp⟩
    | false =>
      obtain ⟨m, hm, hfail, hend, hres⟩ := ih (attempt + 1) (waits ++ [retryDelay attempt]) fun _ => rfl
      have hshift : ∀ i, attempt + 1 + i = attempt + (i + 1) := by omega
      simp only [hshift] at hfail hend hres
      refine ⟨m + 1, Nat.succ_le_succ hm, fun i hi => ?_, hend.imp_right (congrArg _), ?_⟩
      · cases i with
        | zero => exact hok
        | succ i => exact hfail i (Nat.lt_of_succ_lt_succ hi)
      · have hwait : (traceEnv ok : RetryEnv Trace α).wait (retryDelay attempt) ⟨attempt + 1, waits⟩ =
            (false, ⟨attempt + 1, waits ++ [retryDelay attempt]⟩) := rfl
        simp only [hwait, Nat.add_eq_zero_iff, one_ne_zero, and_false, if_false, hres]
        simp [List.range_succ_eq_map, Function.comp_def]

/-- **A sane number of attempts**: at least one, at most one more than the retries, none after a success; the waits do
not decrease, and are between 100 ms and 5 s. -/
structure Sane (ok : ℕ → Bool) (retryCount : ℤ) (r : Trace) : Prop where
  pos : 1 ≤ r.attempts
  le : r.attempts ≤ max 0 retryCount + 1
  stops : ∀ i, i + 1 < r.attempts → ok i = false
  sorted : r.waits.Pairwise (· ≤ ·)
  bounds : ∀ d ∈ r.waits, 100 * millisecond ≤ d ∧ d ≤ 5000 * millisecond

/-- **When a call makes a sane number of attempts**, whichever of them fail: with 0 to 37 retries. -/
theorem attempts_sane_iff (batch : List α) (retryCount : ℤ) (hint : IntType.int64.InRange retryCount) :
    (∀ ok, Sane ok retryCount (publishWithRetryAndBuffer (traceEnv ok) batch retryCount ⟨0, []⟩).2) ↔
      0 ≤ retryCount ∧ retryCount ≤ 37 := by
  rw [IntType.inRange_int64] at hint
  constructor
  · intro h
    by_contra hnot
    have hsane := h fun _ => false
    cases hmax : maxAttempts retryCount with
    | zero =>
      have hpos := hsane.pos
      rw [publishWithRetryAndBuffer, hmax] at hpos
      cases hpos
    | succ left =>
      obtain ⟨m, -, -, hend, hres⟩ := trace_loop (fun _ => false) batch left 0 []
      obtain rfl := hend.resolve_left nofun
      have hleft : 37 < m := by
        rw [maxAttempts, IntType.wrap_int64] at hmax
        omega
      rw [publishWithRetryAndBuffer, hmax, hres] at hsane
      have hbounds := hsane.bounds (retryDelay 37) (by simpa using ⟨37, hleft, rfl⟩)
      exact absurd hbounds.1 (by decide)
  · rintro ⟨hlow, hhigh⟩ ok
    have hmax : maxAttempts retryCount = retryCount.toNat + 1 := by
      rw [maxAttempts, IntType.wrap_eq_self (IntType.inRange_int64.mpr (by omega))]
      omega
    have hdelay : ∀ i < 37, 100 * millisecond ≤ retryDelay i ∧ retryDelay i ≤ 5000 * millisecond ∧
        ∀ j < 37, i ≤ j → retryDelay i ≤ retryDelay j := by decide
    obtain ⟨m, hm, hfail, -, hres⟩ := trace_loop ok batch retryCount.toNat 0 []
    rw [publishWithRetryAndBuffer, hmax, hres]
    simp only [zero_add] at hfail ⊢
    refine ⟨Nat.succ_pos m, by dsimp only; omega, fun i hi => hfail i (Nat.lt_of_succ_lt_succ hi), ?_, fun d hd => ?_⟩
    · refine List.pairwise_map.mpr (List.pairwise_lt_range.imp_of_mem fun {i j} _ hj hlt => ?_)
      have hj := List.mem_range.mp hj
      exact (hdelay i (by omega)).2.2 j (by omega) hlt.le
    · obtain ⟨i, hi, rfl⟩ := List.mem_map.mp hd
      have hi := List.mem_range.mp hi
      exact ⟨(hdelay i (by omega)).1, (hdelay i (by omega)).2.1⟩

/-- The third attempt succeeds. -/
theorem attempts_sane_iff_three : Sane (· == 2) 3 (publishWithRetryAndBuffer (traceEnv (· == 2)) [()] 3 ⟨0, []⟩).2 :=
  (attempts_sane_iff [()] 3 (by decide)).mpr (by decide) _

/-- **A negative retry count** leaves no attempt at all. -/
theorem never_attempted : (publishWithRetryAndBuffer (traceEnv fun _ => true) [()] (-1) ⟨0, []⟩).2.attempts = 0 := by
  decide

end CoreC.Engine.Retry
