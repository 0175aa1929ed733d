import CoreC.Core.Types
import CoreC.Engine.Retry

/-! # The batcher of a transport

`transportBatcher` (`engine/batcher.go`, `engine/batcher_retry.go`) as threads that share a partial buffer and a bounded
queue of full batches: any number of `publish` calls, the `flushLoop`, and one `stop` call. A step is one critical
section of the mutex or one operation on a channel. The context of the batcher is a child of the one given to `start`,
which may be cancelled at any time. The replay of the offline buffer touches neither buffer nor queue and is left out.

* `Flight`, `Flight.ends_publish`: one call of `publishWithRetryAndBuffer`;
* `Trans`, `trans_of_step`: everything a step can do. -/

namespace CoreC.Engine.Batcher

open Core.Types Lib.GoInt List

/-! ### Settings -/

/-- What `newTransportBatcher` keeps of the settings; the interval is in nanoseconds. -/
structure Settings where
  batchSize : ℤ
  flushInterval : ℤ
  retryCount : ℤ
  offline : Bool
  deriving DecidableEq, Repr

def defaultBatchSize : ℤ := 100

def defaultFlushInterval : ℤ := 5000000000

def defaultFlushBatchQueueSize : ℕ := 64

def newTransportBatcher (parseDuration : String → Option ℤ) (cfg : TransportConfig) (offline : Bool) :
    Option Settings :=
  if cfg.batchSize ≤ 0 ∧ cfg.flushInterval = "" ∧ cfg.retryCount ≤ 0 ∧ ¬ offline then none
  else
    let configured := if cfg.flushInterval = "" then 0 else max 0 ((parseDuration cfg.flushInterval).getD 0)
    some {
      batchSize := if cfg.batchSize ≤ 0 then defaultBatchSize else cfg.batchSize
      flushInterval := if offline ∧ configured ≤ 0 then defaultFlushInterval else configured
      retryCount := cfg.retryCount
      offline := offline }

variable (c : Settings)

def Settings.maxAttempts : ℤ := IntType.int64.wrap (c.retryCount + 1)

/-! ### Points and batches -/

/-- A point, with the number of the `publish` call that brought it. -/
structure Entry (α : Type) where
  call : ℕ
  point : α
  deriving DecidableEq, Repr

abbrev Batch (α : Type) := List (Entry α)

variable {α : Type}

/-! ### One call of `publishWithRetryAndBuffer` -/

/-- Where the call is: before an attempt, in the wait after a failed one, or at the label `exhausted`. -/
inductive Phase where
  | attempt | wait | exhausted
  deriving DecidableEq, Repr

structure Flight (α : Type) where
  batch : Batch α
  attempt : ℤ
  phase : Phase
  deriving DecidableEq, Repr

/-- How a call ends: the transport took the batch, the offline buffer did, or the loss was logged. -/
inductive Outcome where
  | published | pushed | failed
  deriving DecidableEq, Repr

/-- What can happen to a call: an answer of `PublishBatch`, the end of a wait, the end of the context
during a wait, an answer of `Push`. -/
inductive FlightAct where
  | publish (ok : Bool) | elapsed | cancelled | push (ok : Bool)
  deriving DecidableEq, Repr

def Flight.start (batch : Batch α) : Flight α :=
  ⟨batch, 0, if 0 < c.maxAttempts then .attempt else .exhausted⟩

/-- One step of a call; `done` tells that its context has ended. Without an offline buffer the batch is
not pushed. -/
def Flight.step (done : Bool) (f : Flight α) : FlightAct → Option (Flight α ⊕ Outcome)
  | .publish ok =>
    if f.phase = .attempt then
      if ok then some (.inr .published)
      else if f.attempt < c.maxAttempts - 1 then some (.inl { f with phase := .wait })
      else some (.inl { f with phase := .exhausted })
    else none
  | .elapsed =>
    if f.phase = .wait then some (.inl { f with attempt := f.attempt + 1, phase := .attempt }) else none
  | .cancelled =>
    if f.phase = .wait ∧ done then some (.inl { f with phase := .exhausted }) else none
  | .push ok =>
    if f.phase = .exhausted ∧ (ok → c.offline) then some (.inr (if ok then .pushed else .failed))
    else none

@[simp] theorem Flight.batch_start (batch : Batch α) :
    (Flight.start c batch).batch = batch := rfl

theorem Flight.batch_step {c : Settings} {done : Bool} {f f' : Flight α} {a : FlightAct}
    (h : f.step c done a = some (.inl f')) : f'.batch = f.batch := by
  cases a with
  | publish ok =>
    simp only [Flight.step] at h
    split_ifs at h <;> simp only [Option.some.injEq, Sum.inl.injEq, reduceCtorEq] at h <;> rw [← h]
  | push ok =>
    simp only [Flight.step] at h
    split_ifs at h <;> simp at h
  | elapsed | cancelled =>
    simp only [Flight.step] at h
    split_ifs at h
    simp only [Option.some.injEq, Sum.inl.injEq] at h
    rw [← h]

/-- A call of which the steps follow one another. -/
inductive Flight.Ends (c : Settings) : Flight α → List FlightAct → Outcome → Prop
  | settle {f : Flight α} {a : FlightAct} {o : Outcome} (h : f.step c true a = some (.inr o)) : Ends c f [a] o
  | step {f f' : Flight α} {a : FlightAct} {as : List FlightAct} {o : Outcome}
      (h : f.step c true a = some (.inl f')) (hrest : Ends c f' as o) : Ends c f (a :: as) o

/-- How a call ends, by what the loop returns and by the answer of `Push`. -/
def Outcome.of (published kept : Bool) : Outcome :=
  if published then .published else if kept then .pushed else .failed

section

variable {c} {σ : Type} (env : Retry.RetryEnv σ (Entry α)) (batch : Batch α) {kept : Bool}

theorem Flight.ends_retryLoop (hkept : kept = true → c.offline = true) : ∀ (left attempt : ℕ) (s : σ),
    (0 < left → attempt + left = c.maxAttempts) →
      ∃ as, Flight.Ends c ⟨batch, attempt, if 0 < left then .attempt else .exhausted⟩ as
        (.of (Retry.retryLoop env batch attempt left s).1 kept)
  | 0, attempt, s, _ => ⟨[.push kept], .settle (if_pos ⟨rfl, hkept⟩)⟩
  | left + 1, attempt, s, hleft => by
    have hmax := hleft (Nat.succ_pos left)
    have hexhausted : Flight.Ends c ⟨batch, attempt, .exhausted⟩ [.push kept] (.of false kept) :=
      .settle (if_pos ⟨rfl, hkept⟩)
    rw [if_pos (Nat.succ_pos left), Retry.retryLoop]
    rcases env.publishBatch batch s with ⟨_ | _, s₁⟩
    · by_cases hlast : left = 0
      · have hfail : Flight.step c true ⟨batch, attempt, .attempt⟩ (.publish false) =
            some (.inl ⟨batch, attempt, .exhausted⟩) := by
          have hlt : ¬ (attempt : ℤ) < c.maxAttempts - 1 := by omega
          simp [Flight.step, hlt]
        simp only [if_pos hlast]
        exact ⟨_, .step hfail hexhausted⟩
      · have hfail : Flight.step c true ⟨batch, attempt, .attempt⟩ (.publish false) =
            some (.inl ⟨batch, attempt, .wait⟩) := by
          have hlt : (attempt : ℤ) < c.maxAttempts - 1 := by omega
          simp [Flight.step, hlt]
        simp only [if_neg hlast]
        rcases env.wait (Retry.retryDelay attempt) s₁ with ⟨_ | _, s₂⟩
        · obtain ⟨as, hends⟩ := Flight.ends_retryLoop hkept left (attempt + 1) s₂ fun _ => by push_cast; omega
          rw [if_pos (Nat.pos_of_ne_zero hlast), Nat.cast_succ] at hends
          exact ⟨_, .step hfail (.step (a := .elapsed) rfl hends)⟩
        · exact ⟨_, .step hfail (.step (a := .cancelled) rfl hexhausted)⟩
    · exact ⟨[.publish true], .settle rfl⟩

/-- **The steps of a call are those of `publishWithRetryAndBuffer`**, whatever it meets. -/
theorem Flight.ends_publish (hkept : kept = true → c.offline = true) (s : σ) :
    ∃ as, Flight.Ends c (Flight.start c batch) as
      (.of (Retry.publishWithRetryAndBuffer env batch c.retryCount s).1 kept) := by
  have hpos : 0 < Retry.maxAttempts c.retryCount ↔ 0 < c.maxAttempts := Int.lt_toNat
  have hends := Flight.ends_retryLoop env batch hkept (Retry.maxAttempts c.retryCount) 0 s fun h =>
    (zero_add _).trans (Int.toNat_of_nonneg (hpos.mp h).le)
  simp only [hpos] at hends
  exact hends

end

/-! ### The threads -/

/-- The `publish` call that holds the mutex, with its own point and its full batch. -/
inductive Publisher (α : Type) where
  | idle
  | send (e : Entry α) (batch : Batch α)
  | evict (e : Entry α) (batch : Batch α)
  | resend (e : Entry α) (batch : Batch α)
  deriving DecidableEq, Repr

inductive After where
  | select | drain (exit : Bool)
  deriving DecidableEq, Repr

/-- The flush loop: at its `select`, inside `drainFlushBatches` (on the way out or before a periodic
flush), before the critical section of `flush`, with a batch, or gone. -/
inductive Loop (α : Type) where
  | select
  | drain (exit : Bool)
  | flush
  | publish (f : Flight α) (after : After)
  | exited
  deriving DecidableEq, Repr

def After.loop : After → Loop α
  | .select => .select
  | .drain exit => .drain exit

/-- The `stop` call: the flag is set, the context is cancelled, the loops have returned, the final flush
is under way, or it has returned. -/
inductive Stop (α : Type) where
  | idle | begun | cancelled | joined
  | publish (f : Flight α)
  | returned
  deriving DecidableEq, Repr

/-- What the threads share, where each of them is, and the past. -/
structure State (α : Type) where
  buffer : Batch α := []
  flushBatches : List (Batch α) := []
  stopped : Bool := false
  done : Bool := false
  publisher : Publisher α := .idle
  loop : Loop α := .select
  stop : Stop α := .idle
  flushBatchesDropped : ℕ := 0
  publishRejected : ℕ := 0
  calls : ℕ := 0
  accepted : List (Entry α) := []
  refused : List (Entry α) := []
  published : List (Batch α) := []
  pushed : List (Batch α) := []
  failed : List (Batch α) := []
  evicted : List (Batch α) := []
  deriving DecidableEq, Repr

/-- The batcher after `start`. -/
def State.started : State α := {}

/-- A call of `publishWithRetryAndBuffer` ends. -/
def State.settle (s : State α) (batch : Batch α) : Outcome → State α
  | .published => { s with published := s.published ++ [batch] }
  | .pushed => { s with pushed := s.pushed ++ [batch] }
  | .failed => { s with failed := s.failed ++ [batch] }

/-! ### Steps -/

/-- The steps of a `publish` call. -/
inductive PublishAct (α : Type) where
  | enter (p : α) | send | evict | resend
  deriving DecidableEq, Repr

inductive LoopAct where
  | receive | tick | done | drained | flush
  | flight (a : FlightAct)
  deriving DecidableEq, Repr

/-- The steps of the `stop` call; `expired` tells that the shutdown budget has run out. -/
inductive StopAct where
  | begin | cancel | join | flush
  | flight (expired : Bool) (a : FlightAct)
  deriving DecidableEq, Repr

/-- A step of one of the threads. -/
inductive Act (α : Type) where
  | publish (a : PublishAct α)
  | loop (a : LoopAct)
  | stop (a : StopAct)
  | cancelParent
  deriving DecidableEq, Repr

/-- `publish`: the check of the flag and the append, then the three channel operations. -/
def publishStep (s : State α) : PublishAct α → Option (State α)
  | .enter p =>
    let e : Entry α := ⟨s.calls, p⟩
    match s.publisher with
    | .idle =>
      if s.stopped then
        some { s with calls := s.calls + 1, publishRejected := s.publishRejected + 1,
                      refused := s.refused ++ [e] }
      else if ((s.buffer ++ [e]).length : ℤ) < c.batchSize then
        some { s with calls := s.calls + 1, buffer := s.buffer ++ [e], accepted := s.accepted ++ [e] }
      else some { s with calls := s.calls + 1, buffer := [], publisher := .send e (s.buffer ++ [e]) }
    | _ => none
  | .send =>
    match s.publisher with
    | .send e batch =>
      if s.flushBatches.length < defaultFlushBatchQueueSize then
        some { s with flushBatches := s.flushBatches ++ [batch], publisher := .idle,
                      accepted := s.accepted ++ [e] }
      else some { s with publisher := .evict e batch }
    | _ => none
  | .evict =>
    match s.publisher with
    | .evict e batch =>
      match s.flushBatches with
      | [] => some { s with publisher := .resend e batch }
      | oldest :: rest =>
        some { s with flushBatches := rest, evicted := s.evicted ++ [oldest],
                      flushBatchesDropped := s.flushBatchesDropped + 1, publisher := .resend e batch }
    | _ => none
  | .resend =>
    match s.publisher with
    | .resend e batch =>
      if s.flushBatches.length < defaultFlushBatchQueueSize then
        some { s with flushBatches := s.flushBatches ++ [batch], publisher := .idle,
                      accepted := s.accepted ++ [e] }
      else
        some { s with evicted := s.evicted ++ [batch], publisher := .idle,
                      flushBatchesDropped := s.flushBatchesDropped + 1, refused := s.refused ++ [e] }
    | _ => none

/-- `flushLoop`, with `drainFlushBatches` and `flush`. -/
def loopStep (s : State α) : LoopAct → Option (State α)
  | .receive =>
    match s.loop, s.flushBatches with
    | .select, batch :: rest =>
      some { s with flushBatches := rest, loop := .publish (.start c batch) .select }
    | .drain exit, batch :: rest =>
      some { s with flushBatches := rest, loop := .publish (.start c batch) (.drain exit) }
    | _, _ => none
  | .tick =>
    match s.loop with
    | .select => if 0 < c.flushInterval then some { s with loop := .drain false } else none
    | _ => none
  | .done =>
    match s.loop with
    | .select => if s.done then some { s with loop := .drain true } else none
    | _ => none
  | .drained =>
    match s.loop, s.flushBatches with
    | .drain true, [] => some { s with loop := .exited }
    | .drain false, [] => some { s with loop := .flush }
    | _, _ => none
  | .flush =>
    match s.loop, s.publisher with
    | .flush, .idle =>
      if s.buffer.length = 0 ∨ 0 < s.flushBatches.length then some { s with loop := .select }
      else some { s with buffer := [], loop := .publish (.start c s.buffer) .select }
    | _, _ => none
  | .flight a =>
    match s.loop with
    | .publish f after =>
      match f.step c s.done a with
      | some (.inl f') => some { s with loop := .publish f' after }
      | some (.inr o) => some (State.settle { s with loop := after.loop } f.batch o)
      | none => none
    | _ => none

/-- `stop`, with `flushFinal`. -/
def stopStep (s : State α) : StopAct → Option (State α)
  | .begin =>
    match s.stop, s.publisher with
    | .idle, .idle => some { s with stopped := true, stop := .begun }
    | _, _ => none
  | .cancel =>
    match s.stop with
    | .begun => some { s with done := true, stop := .cancelled }
    | _ => none
  | .join =>
    match s.stop, s.loop with
    | .cancelled, .exited => some { s with stop := .joined }
    | _, _ => none
  | .flush =>
    match s.stop, s.publisher with
    | .joined, .idle =>
      if s.buffer.length = 0 then some { s with stop := .returned }
      else some { s with buffer := [], stop := .publish (.start c s.buffer) }
    | _, _ => none
  | .flight expired a =>
    match s.stop with
    | .publish f =>
      match f.step c expired a with
      | some (.inl f') => some { s with stop := .publish f' }
      | some (.inr o) => some (State.settle { s with stop := .returned } f.batch o)
      | none => none
    | _ => none

def step (s : State α) : Act α → Option (State α)
  | .publish a => publishStep c s a
  | .loop a => loopStep c s a
  | .stop a => stopStep c s a
  | .cancelParent => some { s with done := true }

/-! ### Everything a step can do -/

inductive Trans (c : Settings) (s : State α) : Act α → State α → Prop
  | reject (p : α) (hp : s.publisher = .idle) (hs : s.stopped = true) :
      Trans c s (.publish (.enter p))
        { s with calls := s.calls + 1, publishRejected := s.publishRejected + 1,
                 refused := s.refused ++ [⟨s.calls, p⟩] }
  | append (p : α) (hp : s.publisher = .idle) (hs : s.stopped = false)
      (hlen : ((s.buffer ++ [(⟨s.calls, p⟩ : Entry α)]).length : ℤ) < c.batchSize) :
      Trans c s (.publish (.enter p))
        { s with calls := s.calls + 1, buffer := s.buffer ++ [⟨s.calls, p⟩],
                 accepted := s.accepted ++ [⟨s.calls, p⟩] }
  | fill (p : α) (hp : s.publisher = .idle) (hs : s.stopped = false)
      (hlen : ¬ ((s.buffer ++ [(⟨s.calls, p⟩ : Entry α)]).length : ℤ) < c.batchSize) :
      Trans c s (.publish (.enter p))
        { s with calls := s.calls + 1, buffer := [],
                 publisher := .send ⟨s.calls, p⟩ (s.buffer ++ [⟨s.calls, p⟩]) }
  | send {e : Entry α} {batch : Batch α} {a : PublishAct α}
      (hp : s.publisher = .send e batch ∧ a = .send ∨ s.publisher = .resend e batch ∧ a = .resend)
      (hroom : s.flushBatches.length < defaultFlushBatchQueueSize) :
      Trans c s (.publish a)
        { s with flushBatches := s.flushBatches ++ [batch], publisher := .idle,
                 accepted := s.accepted ++ [e] }
  | full {e : Entry α} {batch : Batch α} (hp : s.publisher = .send e batch)
      (hroom : ¬ s.flushBatches.length < defaultFlushBatchQueueSize) :
      Trans c s (.publish .send) { s with publisher := .evict e batch }
  | spared {e : Entry α} {batch : Batch α} (hp : s.publisher = .evict e batch)
      (hq : s.flushBatches = []) :
      Trans c s (.publish .evict) { s with publisher := .resend e batch }
  | evict {e : Entry α} {batch oldest : Batch α} {rest : List (Batch α)}
      (hp : s.publisher = .evict e batch) (hq : s.flushBatches = oldest :: rest) :
      Trans c s (.publish .evict)
        { s with flushBatches := rest, evicted := s.evicted ++ [oldest],
                 flushBatchesDropped := s.flushBatchesDropped + 1, publisher := .resend e batch }
  | drop {e : Entry α} {batch : Batch α} (hp : s.publisher = .resend e batch)
      (hroom : ¬ s.flushBatches.length < defaultFlushBatchQueueSize) :
      Trans c s (.publish .resend)
        { s with evicted := s.evicted ++ [batch], publisher := .idle,
                 flushBatchesDropped := s.flushBatchesDropped + 1, refused := s.refused ++ [e] }
  | receive {after : After} {batch : Batch α} {rest : List (Batch α)} (hl : s.loop = after.loop)
      (hq : s.flushBatches = batch :: rest) :
      Trans c s (.loop .receive)
        { s with flushBatches := rest, loop := .publish (.start c batch) after }
  | tick (hl : s.loop = .select) (hi : 0 < c.flushInterval) :
      Trans c s (.loop .tick) { s with loop := .drain false }
  | done (hl : s.loop = .select) (hd : s.done = true) :
      Trans c s (.loop .done) { s with loop := .drain true }
  | exit (hl : s.loop = .drain true) (hq : s.flushBatches = []) :
      Trans c s (.loop .drained) { s with loop := .exited }
  | drained (hl : s.loop = .drain false) (hq : s.flushBatches = []) :
      Trans c s (.loop .drained) { s with loop := .flush }
  | defer (hl : s.loop = .flush) (hp : s.publisher = .idle)
      (hb : s.buffer = [] ∨ s.flushBatches ≠ []) :
      Trans c s (.loop .flush) { s with loop := .select }
  | flush (hl : s.loop = .flush) (hp : s.publisher = .idle) (hb : s.buffer ≠ [])
      (hq : s.flushBatches = []) :
      Trans c s (.loop .flush)
        { s with buffer := [], loop := .publish (.start c s.buffer) .select }
  | flight {f f' : Flight α} {after : After} {a : FlightAct} (hl : s.loop = .publish f after)
      (hf : f.step c s.done a = some (.inl f')) :
      Trans c s (.loop (.flight a)) { s with loop := .publish f' after }
  | settle {f : Flight α} {after : After} {a : FlightAct} {o : Outcome}
      (hl : s.loop = .publish f after) (hf : f.step c s.done a = some (.inr o)) :
      Trans c s (.loop (.flight a)) (State.settle { s with loop := after.loop } f.batch o)
  | begin (ht : s.stop = .idle) (hp : s.publisher = .idle) :
      Trans c s (.stop .begin) { s with stopped := true, stop := .begun }
  | cancel (ht : s.stop = .begun) :
      Trans c s (.stop .cancel) { s with done := true, stop := .cancelled }
  | join (ht : s.stop = .cancelled) (hl : s.loop = .exited) :
      Trans c s (.stop .join) { s with stop := .joined }
  | finalEmpty (ht : s.stop = .joined) (hp : s.publisher = .idle) (hb : s.buffer = []) :
      Trans c s (.stop .flush) { s with stop := .returned }
  | finalFlush (ht : s.stop = .joined) (hp : s.publisher = .idle) (hb : s.buffer ≠ []) :
      Trans c s (.stop .flush) { s with buffer := [], stop := .publish (.start c s.buffer) }
  | finalFlight {f f' : Flight α} {expired : Bool} {a : FlightAct} (ht : s.stop = .publish f)
      (hf : f.step c expired a = some (.inl f')) :
      Trans c s (.stop (.flight expired a)) { s with stop := .publish f' }
  | finalSettle {f : Flight α} {expired : Bool} {a : FlightAct} {o : Outcome}
      (ht : s.stop = .publish f) (hf : f.step c expired a = some (.inr o)) :
      Trans c s (.stop (.flight expired a)) (State.settle { s with stop := .returned } f.batch o)
  | cancelParent : Trans c s .cancelParent { s with done := true }

section

variable {c : Settings} {s s' : State α}

theorem trans_of_publishStep {a : PublishAct α} (h : publishStep c s a = some s') :
    Trans c s (.publish a) s' := by
  cases a with
  | enter p =>
    simp only [publishStep] at h
    split at h
    · next hp =>
      split_ifs at h with hs hlen <;> cases h
      · exact .reject p hp hs
      · exact .append p hp (Bool.eq_false_iff.mpr hs) hlen
      · exact .fill p hp (Bool.eq_false_iff.mpr hs) hlen
    · cases h
  | send =>
    simp only [publishStep] at h
    split at h
    · next hp =>
      split_ifs at h with hroom <;> cases h
      · exact .send (.inl ⟨hp, rfl⟩) hroom
      · exact .full hp hroom
    · cases h
  | evict =>
    simp only [publishStep] at h
    split at h
    · next hp =>
      split at h
      · next hq =>
        cases h
        exact .spared hp hq
      · next hq =>
        cases h
        exact .evict hp hq
    · cases h
  | resend =>
    simp only [publishStep] at h
    split at h
    · next hp =>
      split_ifs at h with hroom <;> cases h
      · exact .send (.inr ⟨hp, rfl⟩) hroom
      · exact .drop hp hroom
    · cases h

theorem trans_of_loopStep {a : LoopAct} (h : loopStep c s a = some s') : Trans c s (.loop a) s' := by
  cases a with
  | receive =>
    simp only [loopStep] at h
    split at h
    · next hl hq =>
      cases h
      exact .receive (show s.loop = After.select.loop from hl) hq
    · next exit batch rest hl hq =>
      cases h
      exact .receive (show s.loop = (After.drain exit).loop from hl) hq
    · cases h
  | tick =>
    simp only [loopStep] at h
    split at h
    · next hl =>
      split_ifs at h with hi
      cases h
      exact .tick hl hi
    · cases h
  | done =>
    simp only [loopStep] at h
    split at h
    · next hl =>
      split_ifs at h with hd
      cases h
      exact .done hl hd
    · cases h
  | drained =>
    simp only [loopStep] at h
    split at h
    · next hl hq =>
      cases h
      exact .exit hl hq
    · next hl hq =>
      cases h
      exact .drained hl hq
    · cases h
  | flush =>
    simp only [loopStep] at h
    split at h
    · next hl hp =>
      split_ifs at h with hb <;> cases h
      · exact .defer hl hp (hb.imp length_eq_zero_iff.mp length_pos_iff.mp)
      · have hbuffer : s.buffer.length ≠ 0 := by omega
        have hq : s.flushBatches.length = 0 := by omega
        exact .flush hl hp (fun h => hbuffer (length_eq_zero_iff.mpr h))
          (length_eq_zero_iff.mp hq)
    · cases h
  | flight a =>
    simp only [loopStep] at h
    split at h
    · next hl =>
      split at h
      · next hf =>
        cases h
        exact .flight hl hf
      · next hf =>
        cases h
        exact .settle hl hf
      · cases h
    · cases h

theorem trans_of_stopStep {a : StopAct} (h : stopStep c s a = some s') : Trans c s (.stop a) s' := by
  cases a with
  | begin =>
    simp only [stopStep] at h
    split at h
    · next ht hp =>
      cases h
      exact .begin ht hp
    · cases h
  | cancel =>
    simp only [stopStep] at h
    split at h
    · next ht =>
      cases h
      exact .cancel ht
    · cases h
  | join =>
    simp only [stopStep] at h
    split at h
    · next ht hl =>
      cases h
      exact .join ht hl
    · cases h
  | flush =>
    simp only [stopStep] at h
    split at h
    · next ht hp =>
      split_ifs at h with hb <;> cases h
      · exact .finalEmpty ht hp (length_eq_zero_iff.mp hb)
      · exact .finalFlush ht hp fun h => hb (length_eq_zero_iff.mpr h)
    · cases h
  | flight expired a =>
    simp only [stopStep] at h
    split at h
    · next ht =>
      split at h
      · next hf =>
        cases h
        exact .finalFlight ht hf
      · next hf =>
        cases h
        exact .finalSettle ht hf
      · cases h
    · cases h

theorem trans_of_step {a : Act α} (h : step c s a = some s') : Trans c s a s' := by
  cases a with
  | publish a => exact trans_of_publishStep h
  | loop a => exact trans_of_loopStep h
  | stop a => exact trans_of_stopStep h
  | cancelParent =>
    cases h
    exact .cancelParent

end

end CoreC.Engine.Batcher
