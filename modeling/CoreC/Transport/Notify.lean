import Mathlib.Data.List.Pairwise
import CoreC.Core.Types
import CoreC.Engine.Retry

/-! # The notification transport

`NotifyTransport` sends each point of a batch on its own, unless a point with the same rule key was sent
less than the cooldown window ago (`cooldownTracker.allow`). The tracker is updated before the sender
answers, so a send that failed suppresses the retry of the same point, and the retry then counts as a
success. -/

namespace CoreC.Transport.Notify

open Core.Types Engine.Retry List

/-- The surroundings, in a state `δ`: a clock that does not go back, the sender (`true` if it accepts the
point), waiting and the offline buffer. -/
structure Env (δ : Type) where
  now : δ → ℤ
  send : DataPoint → δ → Bool × δ
  wait : ℤ → δ → Bool × δ
  push : List DataPoint → δ → δ
  send_later : ∀ p w, now w ≤ now (send p w).2
  wait_later : ∀ d w, now w ≤ now (wait d w).2
  push_later : ∀ batch w, now w ≤ now (push batch w)

inductive Outcome where
  | suppressed | accepted | failed
  deriving DecidableEq, Repr

/-- A point of an attempt: its index in the batch, its key, the time of the check, the entry the tracker had
for the key, and the outcome. -/
structure Check where
  index : ℕ
  key : String
  time : ℤ
  entry : Option ℤ
  outcome : Outcome
  deriving DecidableEq, Repr

def Check.sent (c : Check) : Prop := c.outcome ≠ .suppressed

/-- The surroundings, the tracker, and the log of its checks. -/
structure NotifyState (δ : Type) where
  world : δ
  lastSent : String → Option ℤ := fun _ => none
  checks : List Check := []

section

variable {δ : Type} (env : Env δ) (window : ℤ)

def ruleKey (p : DataPoint) : String :=
  let rule := (p.metadata.lookup "rule").getD ""
  if rule = "" then p.tag else rule

/-- `cooldownTracker.allow`: whether the key may send, for the entry of the key. -/
def allow (now : ℤ) (entry : Option ℤ) : Bool :=
  window ≤ 0 ||
    match entry with
    | none => true
    | some last => ¬ now - last < window

/-- `Publish`; `true` if it returns no error. -/
def publish (index : ℕ) (p : DataPoint) (s : NotifyState δ) : Bool × NotifyState δ :=
  let key := ruleKey p
  let now := env.now s.world
  if allow window now (s.lastSent key) then
    -- the entry is set before the sender answers
    let lastSent := if window ≤ 0 then s.lastSent else Function.update s.lastSent key (some now)
    match env.send p s.world with
    | (true, world) => (true, ⟨world, lastSent, s.checks ++ [⟨index, key, now, s.lastSent key, .accepted⟩]⟩)
    | (false, world) => (false, ⟨world, lastSent, s.checks ++ [⟨index, key, now, s.lastSent key, .failed⟩]⟩)
  else (true, { s with checks := s.checks ++ [⟨index, key, now, s.lastSent key, .suppressed⟩] })

/-- `PublishBatch`, from an index on: a failure does not end it. -/
def publishBatch : ℕ → List DataPoint → NotifyState δ → Bool × NotifyState δ
  | _, [], s => (true, s)
  | i, p :: ps, s =>
    let (ok, s) := publish env window i p s
    let (ok', s) := publishBatch (i + 1) ps s
    (ok && ok', s)

def notifyEnv : RetryEnv (NotifyState δ) DataPoint where
  publishBatch := publishBatch env window 0
  wait d s := ((env.wait d s.world).1, { s with world := (env.wait d s.world).2 })
  giveUp batch s := { s with world := env.push batch s.world }

/-- What the transport was used for before: a batch of the batcher, or one replayed from the offline
buffer. -/
inductive Call where
  | publish (batch : List DataPoint)
  | replay (batch : List DataPoint)

/-- One call of the batcher or of the replay. -/
def call (retryCount : ℤ) (s : NotifyState δ) : Call → NotifyState δ
  | .publish batch => (publishWithRetryAndBuffer (notifyEnv env window) batch retryCount s).2
  | .replay batch => (publishBatch env window 0 batch s).2

end

/-! ### What the tracker says -/

/-- **The tracker and the history**: the checks are in the order of time; an entry is the time of the latest send; two
sends of a key are a window apart; and what is suppressed is so by a send less than a window ago. -/
structure Inv {δ : Type} (env : Env δ) (window : ℤ) (s : NotifyState δ) : Prop where
  past : ∀ c ∈ s.checks, c.time ≤ env.now s.world
  sorted : s.checks.Pairwise fun a b => a.time ≤ b.time
  entry : ∀ key t, s.lastSent key = some t → ∃ c ∈ s.checks, c.key = key ∧ c.sent ∧ c.time = t
  latest : 0 < window → ∀ c ∈ s.checks, c.sent → ∃ t, s.lastSent c.key = some t ∧ c.time ≤ t
  spaced : s.checks.Pairwise fun a b => a.key = b.key → a.sent → b.sent → window ≤ b.time - a.time
  suppressed : ∀ c ∈ s.checks, c.outcome = .suppressed → ∃ t, c.entry = some t ∧ c.time - t < window ∧
    ∃ a ∈ s.checks, a.key = c.key ∧ a.sent ∧ a.time = t ∧ a.time ≤ c.time

variable {δ : Type} {env : Env δ} {window : ℤ} {s s' : NotifyState δ} {s₁ : NotifyState δ} {i : ℕ}

theorem inv_start (w : δ) : Inv env window { world := w } := by
  constructor <;> simp

theorem Inv.world {w : δ} (h : Inv env window s) (hw : env.now s.world ≤ env.now w) :
    Inv env window { s with world := w } :=
  { h with past := fun c hc => (h.past c hc).trans hw }

theorem Inv.send {p : DataPoint} {w : δ} {o : Outcome} (h : Inv env window s) (hw : env.now s.world ≤ env.now w)
    (ho : o ≠ .suppressed) (hallow : allow window (env.now s.world) (s.lastSent (ruleKey p)) = true) :
    Inv env window ⟨w, if window ≤ 0 then s.lastSent else
        Function.update s.lastSent (ruleKey p) (some (env.now s.world)),
      s.checks ++ [⟨i, ruleKey p, env.now s.world, s.lastSent (ruleKey p), o⟩]⟩ := by
  have hpast : ∀ c ∈ s.checks ++ [⟨i, ruleKey p, env.now s.world, s.lastSent (ruleKey p), o⟩],
      c.time ≤ env.now s.world := by
    simp only [forall_mem_append, forall_mem_singleton]
    exact ⟨h.past, le_rfl⟩
  constructor
  · exact fun c hc => (hpast c hc).trans hw
  · refine pairwise_append.mpr ⟨h.sorted, pairwise_singleton _ _, fun a ha b hb => ?_⟩
    exact mem_singleton.mp hb ▸ h.past a ha
  · intro key t ht
    dsimp only at ht
    split_ifs at ht with hwin
    · obtain ⟨c, hc, hrest⟩ := h.entry key t ht
      exact ⟨c, mem_append_left _ hc, hrest⟩
    · rw [Function.update_apply] at ht
      split_ifs at ht with hkey
      · refine ⟨_, mem_append_right _ (mem_singleton_self _), hkey.symm, ho, ?_⟩
        exact Option.some.inj ht
      · obtain ⟨c, hc, hrest⟩ := h.entry key t ht
        exact ⟨c, mem_append_left _ hc, hrest⟩
  · intro hpos c hc hsent
    have hwin : ¬ window ≤ 0 := by omega
    dsimp only
    rw [if_neg hwin, Function.update_apply]
    split_ifs with hkey
    · exact ⟨_, rfl, hpast c hc⟩
    · rcases mem_append.mp hc with hc | hc
      · exact h.latest hpos c hc hsent
      · rw [mem_singleton.mp hc] at hkey
        exact absurd rfl hkey
  · refine pairwise_append.mpr ⟨h.spaced, pairwise_singleton _ _, fun a ha b hb => ?_⟩
    rw [mem_singleton.mp hb]
    intro hkey hsent _
    show window ≤ env.now s.world - a.time
    have ha' := h.past a ha
    -- the entry of the key is not older than `a`, and the window since the entry is over
    by_cases hpos : 0 < window
    · obtain ⟨t, ht, hle⟩ := h.latest hpos a ha hsent
      dsimp only at hkey
      rw [← hkey, ht] at hallow
      simp only [allow, Bool.or_eq_true, decide_eq_true_eq] at hallow
      omega
    · omega
  · intro c hc hsup
    rcases mem_append.mp hc with hc | hc
    · obtain ⟨t, ht, hlt, a, ha, hrest⟩ := h.suppressed c hc hsup
      exact ⟨t, ht, hlt, a, mem_append_left _ ha, hrest⟩
    · rw [mem_singleton.mp hc] at hsup
      exact absurd hsup ho

/-- How a call looked at a point last. -/
def lastCheck (cs : List Check) (i : ℕ) : Option Check := (cs.filter (·.index = i)).getLast?

/-- The checks of a call. -/
def newChecks (s s' : NotifyState δ) : List Check := s'.checks.drop s.checks.length

/-- The tracker holds a send of the key that the sender has refused. -/
def Refused (s : NotifyState δ) (key : String) (t : ℤ) : Prop :=
  s.lastSent key = some t ∧ ∀ a ∈ s.checks, a.key = key → a.time = t → a.outcome ≠ .accepted

/-- **What the sender refused is a window old** when the call looks at a point of the key for the last time, be it an
entry from before the call or a send of it; or the sender has taken that point. -/
def Settled (window : ℤ) (s s' : NotifyState δ) (n : ℕ) : Prop :=
  ∀ i < n, ∀ c, lastCheck (newChecks s s') i = some c →
    (∃ t, Refused s c.key t ∧ c.time - t < window) ∨
        (∃ e ∈ newChecks s s', e.key = c.key ∧ e.outcome = .failed ∧ c.time - e.time < window) →
      ∃ d ∈ newChecks s s', d.index = i ∧ d.outcome = .accepted

end CoreC.Transport.Notify
