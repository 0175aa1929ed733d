import CoreC.Engine.Batcher
import CoreC.Lib.Runs

/-! # What becomes of the points of a batcher

`balance_step`: no step loses or duplicates a point. A point that `publish` accepted is in the buffer, in the queue, in
the hands of one of the threads, or in a batch that was published, pushed, given up or evicted.

What is enqueued after the flush loop has returned is left over. `stop` sets its flag before it cancels the context, so
this takes a parent context that is cancelled while points are still published (`onTime_of_parent`). -/

namespace CoreC.Engine.Accounting

open Engine.Batcher Lib.Runs List

variable {α : Type}

/-! ### Where a point can be -/

/-- The full batch of the `publish` call that holds the mutex. -/
def Publisher.held : Publisher α → Batch α
  | .idle => []
  | .send _ batch | .evict _ batch | .resend _ batch => batch

/-- The point of that call: it is neither accepted nor refused yet. -/
def Publisher.caller : Publisher α → List (Entry α)
  | .idle => []
  | .send e _ | .evict e _ | .resend e _ => [e]

def Loop.held : Loop α → Batch α
  | .publish f _ => f.batch
  | _ => []

/-- The batch of the `stop` call. -/
def Stop.held : Stop α → Batch α
  | .publish f => f.batch
  | _ => []

@[simp] theorem held_after (after : After) : Loop.held (after.loop : Loop α) = [] := by
  cases after <;> rfl

section

variable [DecidableEq α]

def inside (s : State α) (e : Entry α) : ℕ :=
  s.buffer.count e + s.flushBatches.flatten.count e + (Publisher.held s.publisher).count e +
    (Loop.held s.loop).count e + (Stop.held s.stop).count e

/-- How often a point is in a batch that was published, pushed, given up (with a log entry) or evicted. -/
def outcomes (s : State α) (e : Entry α) : ℕ :=
  s.published.flatten.count e + s.pushed.flatten.count e + s.failed.flatten.count e + s.evicted.flatten.count e

/-- **Every accepted point has exactly one end**, the evictions are counted, and nothing is left. -/
structure Settled (s : State α) : Prop where
  once : ∀ e ∈ s.accepted, outcomes s e = 1
  counted : s.evicted.length = s.flushBatchesDropped
  buffer : s.buffer = []
  queue : s.flushBatches = []

end

/-! ### The threads -/

def Stop.joinedYet : Stop α → Bool
  | .joined | .publish _ | .returned => true
  | _ => false

def Stop.flushedYet : Stop α → Bool
  | .publish _ | .returned => true
  | _ => false

structure Control (s : State α) : Prop where
  capacity : s.flushBatches.length ≤ defaultFlushBatchQueueSize
  room : ∀ e batch, s.publisher = .resend e batch → s.flushBatches.length < defaultFlushBatchQueueSize
  counted : s.evicted.length = s.flushBatchesDropped
  stopped : s.stopped = true ↔ s.stop ≠ .idle
  quiet : s.stopped = true → s.publisher = .idle
  refused : s.refused ≠ [] → s.stopped = true
  joined : Stop.joinedYet s.stop = true → s.loop = .exited
  flushed : Stop.flushedYet s.stop = true → s.buffer = []

variable {c : Settings} {s s' : State α} {a : Act α}

theorem control_started : Control (State.started : State α) := by
  constructor <;> simp [State.started, Stop.joinedYet]

theorem control_settle {batch : Batch α} {o : Outcome} (h : Control s) : Control (s.settle batch o) := by
  obtain ⟨h1, h2, h3, h4, h5, h6, h7, h8⟩ := h
  cases o <;> exact ⟨h1, h2, h3, h4, h5, h6, h7, h8⟩

theorem loop_ne_exited (after : After) : (after.loop : Loop α) ≠ .exited := by
  cases after <;> simp [After.loop]

theorem control_step (hstep : step c s a = some s') (h : Control s) : Control s' := by
  have hstop : s.stopped = false → s.stop = .idle := by
    intro hs
    by_contra hne
    rw [h.stopped.mpr hne] at hs
    cases hs
  cases trans_of_step hstep with
  | reject p hp hs => exact { h with refused := fun _ => hs }
  | append p hp hs hlen =>
    exact { h with flushed := fun hf => by rw [hstop hs] at hf; cases hf }
  | fill p hp hs hlen =>
    refine { h with room := ?_, quiet := ?_, flushed := fun _ => rfl }
    · intro e batch heq
      cases heq
    · intro hs'
      rw [hs] at hs'
      cases hs'
  | send hp hroom =>
    refine { h with capacity := ?_, room := ?_, quiet := fun _ => rfl }
    · rw [length_append]
      exact hroom
    · intro e batch heq
      cases heq
  | full hp hroom =>
    refine { h with room := ?_, quiet := ?_ }
    · intro e batch heq
      cases heq
    · intro hs
      rw [h.quiet hs] at hp
      cases hp
  | spared hp hq =>
    refine { h with room := ?_, quiet := ?_ }
    · intro e batch _
      rw [hq]
      exact Nat.zero_lt_succ _
    · intro hs
      rw [h.quiet hs] at hp
      cases hp
  | evict hp hq =>
    have hcap := h.capacity
    rw [hq, length_cons] at hcap
    refine { h with capacity := by dsimp only; omega, room := fun _ _ _ => by dsimp only; omega,
                    counted := ?_, quiet := ?_ }
    · simp [h.counted]
    · intro hs
      rw [h.quiet hs] at hp
      cases hp
  | drop hp hroom => exact absurd (h.room _ _ hp) hroom
  | receive hl hq =>
    have hcap := h.capacity
    rw [hq, length_cons] at hcap
    exact { h with capacity := by dsimp only; omega, room := fun _ _ _ => by dsimp only; omega,
                   joined := fun hj => absurd (h.joined hj) (hl ▸ loop_ne_exited _) }
  | exit hl hq => exact { h with joined := fun _ => rfl }
  | tick hl _ | done hl _ | drained hl _ | defer hl _ _ | flight hl _ =>
    exact { h with joined := fun hj => absurd (h.joined hj) (by simp [hl]) }
  | flush hl hp hb hq =>
    exact { h with joined := fun hj => absurd (h.joined hj) (by simp [hl]), flushed := fun _ => rfl }
  | settle hl hf =>
    exact control_settle { h with joined := fun hj => absurd (h.joined hj) (by simp [hl]) }
  | begin ht hp =>
    exact { h with stopped := by simp, quiet := fun _ => hp, refused := fun _ => rfl,
                   joined := (nomatch ·), flushed := (nomatch ·) }
  | cancel ht =>
    exact { h with stopped := by simp [h.stopped, ht], joined := (nomatch ·),
                   flushed := (nomatch ·) }
  | join ht hl =>
    exact { h with stopped := by simp [h.stopped, ht], joined := fun _ => hl,
                   flushed := (nomatch ·) }
  | finalEmpty ht hp hb =>
    exact { h with stopped := by simp [h.stopped, ht], joined := fun _ => h.joined (by rw [ht]; rfl),
                   flushed := fun _ => hb }
  | finalFlush ht hp hb =>
    exact { h with stopped := by simp [h.stopped, ht], joined := fun _ => h.joined (by rw [ht]; rfl),
                   flushed := fun _ => rfl }
  | finalFlight ht hf =>
    exact { h with stopped := by simp [h.stopped, ht], joined := fun _ => h.joined (by rw [ht]; rfl),
                   flushed := fun _ => h.flushed (by rw [ht]; rfl) }
  | finalSettle ht hf =>
    exact control_settle { h with
      stopped := by simp [h.stopped, ht]
      joined := fun _ => h.joined (by rw [ht]; rfl)
      flushed := fun _ => h.flushed (by rw [ht]; rfl) }
  | cancelParent => exact { h with }

/-! ### No point is lost or duplicated -/

section

variable [DecidableEq α]

/-- Every point inside or with an end was accepted once, or belongs to the call that holds the mutex. -/
def Balance (s : State α) : Prop :=
  ∀ e, inside s e + outcomes s e = (s.accepted ++ Publisher.caller s.publisher).count e

theorem inside_settle (s : State α) (batch : Batch α) (o : Outcome) (e : Entry α) :
    inside (s.settle batch o) e = inside s e := by
  cases o <;> rfl

theorem outcomes_settle (s : State α) (batch : Batch α) (o : Outcome) (e : Entry α) :
    outcomes (s.settle batch o) e = outcomes s e + batch.count e := by
  cases o <;> simp [outcomes, State.settle] <;> omega

theorem balance_settle {batch : Batch α} {o : Outcome} (h : ∀ e, inside s e + outcomes s e + batch.count e =
      (s.accepted ++ Publisher.caller s.publisher).count e) : Balance (s.settle batch o) := by
  intro e
  rw [inside_settle, outcomes_settle, ← Nat.add_assoc, h e]
  cases o <;> rfl

theorem balance_step (hstep : step c s a = some s') (hc : Control s) (h : Balance s) : Balance s' := by
  unfold Balance inside outcomes at h
  intro e
  have he := h e
  cases trans_of_step hstep with
  | reject p hp hs => exact he
  | append p hp hs hlen =>
    simp only [hp, Publisher.caller, Publisher.held, append_nil, count_nil] at he
    simp only [inside, outcomes, hp, Publisher.caller, Publisher.held, append_nil, count_nil, count_append]
    omega
  | fill p hp hs hlen =>
    simp only [hp, Publisher.caller, Publisher.held, append_nil, count_nil] at he
    simp only [inside, outcomes, Publisher.caller, Publisher.held, count_nil, count_append]
    omega
  | send hp hroom =>
    rcases hp with ⟨hp, -⟩ | ⟨hp, -⟩
    all_goals
      simp only [hp, Publisher.caller, Publisher.held, count_append] at he
      simp only [inside, outcomes, Publisher.caller, Publisher.held, append_nil, count_nil,
        count_append, flatten_append, flatten_singleton]
      omega
  | full hp _ | spared hp _ =>
    rw [hp] at he
    exact he
  | evict hp hq =>
    simp only [hp, hq, Publisher.caller, Publisher.held, flatten_cons, count_append] at he
    simp only [inside, outcomes, Publisher.caller, Publisher.held, count_append, flatten_append, flatten_singleton]
    omega
  | drop hp hroom => exact absurd (hc.room _ _ hp) hroom
  | receive hl hq =>
    simp only [hl, hq, held_after, flatten_cons, count_append, count_nil] at he
    simp only [inside, outcomes, Loop.held, Flight.batch_start, count_append]
    omega
  | tick hl _ | done hl _ | exit hl _ | drained hl _ | defer hl _ _ =>
    rw [hl] at he
    exact he
  | flush hl hp hb hq =>
    simp only [hl, Loop.held, count_nil] at he
    simp only [inside, outcomes, Loop.held, Flight.batch_start, count_nil]
    omega
  | flight hl hf =>
    simp only [hl] at he
    simp only [inside, Loop.held, Flight.batch_step hf]
    exact he
  | settle hl hf =>
    refine balance_settle (fun e => ?_) e
    have he := h e
    simp only [hl, Loop.held] at he
    simp only [inside, outcomes, held_after, count_nil]
    omega
  | begin ht _ | cancel ht | join ht _ | finalEmpty ht _ _ =>
    rw [ht] at he
    exact he
  | finalFlush ht hp hb =>
    simp only [ht, Stop.held, count_nil] at he
    simp only [inside, outcomes, Stop.held, Flight.batch_start, count_nil]
    omega
  | finalFlight ht hf =>
    simp only [ht] at he
    simp only [inside, Stop.held, Flight.batch_step hf]
    exact he
  | finalSettle ht hf =>
    refine balance_settle (fun e => ?_) e
    have he := h e
    simp only [ht, Stop.held] at he
    simp only [inside, outcomes, Stop.held, count_nil]
    omega
  | cancelParent => exact he

end

/-! ### The calls are told apart -/

structure Fresh (s : State α) : Prop where
  nodup : (s.accepted ++ Publisher.caller s.publisher).Nodup
  lt : ∀ e ∈ s.accepted ++ Publisher.caller s.publisher, e.call < s.calls

theorem fresh_started : Fresh (State.started : State α) := by
  constructor <;> simp [State.started, Publisher.caller]

theorem Fresh.of_eq (h : Fresh s)
    (heq : s'.accepted ++ Publisher.caller s'.publisher = s.accepted ++ Publisher.caller s.publisher)
    (hcalls : s.calls ≤ s'.calls) : Fresh s' := by
  constructor
  · rw [heq]
    exact h.nodup
  · rw [heq]
    exact fun e he => (h.lt e he).trans_le hcalls

theorem Fresh.of_append (h : Fresh s) (p : α) (heq : s'.accepted ++ Publisher.caller s'.publisher =
      s.accepted ++ Publisher.caller s.publisher ++ [⟨s.calls, p⟩])
    (hcalls : s'.calls = s.calls + 1) : Fresh s' := by
  constructor
  · rw [heq]
    refine nodup_append.mpr ⟨h.nodup, by simp, ?_⟩
    rintro e he e' hnew rfl
    rw [mem_singleton.mp hnew] at he
    exact absurd (h.lt _ he) (lt_irrefl _)
  · rw [heq, hcalls]
    intro e he
    rcases mem_append.mp he with he | he
    · exact Nat.lt_succ_of_lt (h.lt e he)
    · rw [mem_singleton.mp he]
      exact Nat.lt_succ_self _

theorem fresh_step (hstep : step c s a = some s') (hc : Control s) (h : Fresh s) : Fresh s' := by
  cases trans_of_step hstep with
  | reject p hp hs => exact h.of_eq rfl (Nat.le_succ _)
  | append p hp _ _ | fill p hp _ _ => exact h.of_append p (by simp [hp, Publisher.caller]) rfl
  | send hp hroom =>
    rcases hp with ⟨hp, -⟩ | ⟨hp, -⟩ <;> exact h.of_eq (by simp [hp, Publisher.caller]) le_rfl
  | full hp _ | spared hp _ | evict hp _ => exact h.of_eq (by simp [hp, Publisher.caller]) le_rfl
  | drop hp hroom => exact absurd (hc.room _ _ hp) hroom
  | @settle _ _ _ o | @finalSettle _ _ _ o => cases o <;> exact h.of_eq rfl le_rfl
  | receive | tick | done | exit | drained | defer | flush | flight | begin | cancel | join
  | finalEmpty | finalFlush | finalFlight | cancelParent => exact h.of_eq rfl le_rfl

/-! ### Batches after the end of the flush loop -/

/-- No batch is enqueued, and none is tried to be, after the flush loop has returned. -/
def OnTime (s : State α) (a : Act α) : Prop :=
  s.loop = .exited → a ≠ .publish .send ∧ a ≠ .publish .resend

theorem exited_step (hstep : step c s a = some s') (ha : OnTime s a)
    (h : s.loop = .exited → s.flushBatches = []) : s'.loop = .exited → s'.flushBatches = [] := by
  intro hl'
  cases trans_of_step hstep with
  | send hp hroom =>
    obtain ⟨h1, h2⟩ := ha hl'
    rcases hp with ⟨-, rfl⟩ | ⟨-, rfl⟩
    · exact absurd rfl h1
    · exact absurd rfl h2
  | evict hp hq =>
    rw [h hl'] at hq
    cases hq
  | exit hl hq => exact hq
  | @settle f after _ o hl hf =>
    have hloop : (after.loop : Loop α) = .exited := by cases o <;> exact hl'
    exact absurd hloop (loop_ne_exited after)
  | @finalSettle f _ _ o ht hf => cases o <;> exact h hl'
  | receive | tick | done | drained | defer | flush | flight => cases hl'
  | reject | append | fill | full | spared | drop | begin | cancel | join | finalEmpty | finalFlush
  | finalFlight | cancelParent => exact h hl'

/-- A batch is stranded: the loop has returned and the queue is not empty, and an eviction will not
empty it. -/
def Stranded (s : State α) : Prop :=
  s.loop = .exited ∧ s.flushBatches ≠ [] ∧ ∀ e batch, s.publisher = .evict e batch → 2 ≤ s.flushBatches.length

theorem stranded_step (hstep : step c s a = some s') (h : Stranded s) : Stranded s' := by
  obtain ⟨hl, hq, he⟩ := h
  cases trans_of_step hstep with
  | fill p hp hs hlen => exact ⟨hl, hq, fun e batch heq => by cases heq⟩
  | send hp hroom => exact ⟨hl, by simp, fun e batch heq => by cases heq⟩
  | full hp hroom =>
    refine ⟨hl, hq, fun e batch _ => ?_⟩
    have hcap : 2 ≤ defaultFlushBatchQueueSize := by decide
    show 2 ≤ s.flushBatches.length
    omega
  | spared hp hq' => exact absurd hq' hq
  | @evict _ _ _ rest hp hq' =>
    have hlen := he _ _ hp
    rw [hq', length_cons] at hlen
    have hrest : 0 < rest.length := by omega
    exact ⟨hl, length_pos_iff.mp hrest, fun e batch heq => by cases heq⟩
  | drop hp hroom => exact ⟨hl, hq, fun e batch heq => by cases heq⟩
  | @receive after _ _ hl' hq' => exact absurd (hl'.symm.trans hl) (loop_ne_exited after)
  | tick hl' _ | done hl' _ | exit hl' _ | drained hl' _ | defer hl' _ _ | flush hl' _ _ _
  | flight hl' _ | settle hl' _ =>
    rw [hl] at hl'
    cases hl'
  | @finalSettle f _ _ o ht hf => cases o <;> exact ⟨hl, hq, he⟩
  | reject | append | begin | cancel | join | finalEmpty | finalFlush | finalFlight | cancelParent =>
    exact ⟨hl, hq, he⟩

theorem stranded_of_late (hstep : step c s a = some s') (hc : Control s) (ha : ¬ OnTime s a) : Stranded s' := by
  unfold OnTime at ha
  rw [Classical.not_imp] at ha
  obtain ⟨hl, hsend⟩ := ha
  have ha : a = .publish .send ∨ a = .publish .resend := by
    by_contra hne
    exact hsend (not_or.mp hne)
  have htrans := trans_of_step hstep
  rcases ha with rfl | rfl
  · cases htrans with
    | send hp hroom => exact ⟨hl, by simp, fun e batch heq => by cases heq⟩
    | full hp hroom =>
      have hcap : 2 ≤ defaultFlushBatchQueueSize := by decide
      have hlen : 2 ≤ s.flushBatches.length := by omega
      exact ⟨hl, length_pos_iff.mp (show 0 < s.flushBatches.length by omega), fun _ _ _ => hlen⟩
  · cases htrans with
    | send hp hroom => exact ⟨hl, by simp, fun e batch heq => by cases heq⟩
    | drop hp hroom => exact absurd (hc.room _ _ hp) hroom

/-! ### The end of a run -/

section

variable {as : List (Act α)} {P : State α → Act α → Prop}

def Any (_ : State α) (_ : Act α) : Prop := True

theorem control_run (hrun : Run (step c) P State.started as s) : Control s :=
  hrun.invariant (fun _ _ _ _ hstep h => control_step hstep h) control_started

theorem fresh_run (hrun : Run (step c) P State.started as s) : Fresh s :=
  (hrun.invariant (I := fun s => Control s ∧ Fresh s)
    (fun _ _ _ _ hstep h => ⟨control_step hstep h.1, fresh_step hstep h.1 h.2⟩)
    ⟨control_started, fresh_started⟩).2

variable [DecidableEq α]

theorem balance_run (hrun : Run (step c) P State.started as s) :
    Balance s := by
  have hstarted : Balance (State.started : State α) := by
    intro e
    rfl
  exact (hrun.invariant (I := fun s => Control s ∧ Balance s)
    (fun _ _ _ _ hstep h => ⟨control_step hstep h.1, balance_step hstep h.1 h.2⟩)
    ⟨control_started, hstarted⟩).2

theorem settled_of_queue (hrun : Run (step c) P State.started as s) (hreturned : s.stop = .returned)
    (hqueue : s.flushBatches = []) : Settled s := by
  have hc := control_run hrun
  have hstopped : s.stopped = true := hc.stopped.mpr (by simp [hreturned])
  have hidle := hc.quiet hstopped
  have hexited := hc.joined (by rw [hreturned]; rfl)
  have hbuffer := hc.flushed (by rw [hreturned]; rfl)
  refine ⟨fun e he => ?_, hc.counted, hbuffer, hqueue⟩
  have hbalance := balance_run hrun e
  have hnodup := (fresh_run hrun).nodup
  simp only [inside, hidle, hexited, hbuffer, hqueue, hreturned, Publisher.held, Publisher.caller,
    Loop.held, Stop.held, flatten_nil, count_nil, append_nil] at hbalance hnodup
  have hone := count_eq_one_of_mem hnodup he
  omega

/-- **Publishing fails only after `stop` has begun. When `stop` has returned, every accepted point has
exactly one end and nothing is left, if and only if** no batch was enqueued after the flush loop had
returned. -/
theorem accounted_iff (hrun : Run (step c) Any State.started as s) : (s.refused ≠ [] → s.stop ≠ .idle) ∧
      (s.stop = .returned → (Settled s ↔ Run (step c) OnTime State.started as s)) := by
  have hc := control_run hrun
  refine ⟨fun h => hc.stopped.mp (hc.refused h), fun hreturned => ⟨fun hsettled => ?_, fun hontime => ?_⟩⟩
  · rcases hrun.all_or_exists OnTime with hall | ⟨as₁, as₂, s₁, s₂, a, hpre, hlate, hstep, hpost⟩
    · exact hall
    · have hstranded := stranded_of_late hstep (control_run hpre) hlate
      have hfinal := hpost.invariant (fun _ _ _ _ hstep h => stranded_step hstep h) hstranded
      exact absurd hsettled.queue hfinal.2.1
  · have hempty := hontime.invariant (I := fun s => s.loop = .exited → s.flushBatches = [])
      (fun _ _ _ ha hstep h => exited_step hstep ha h) fun _ => rfl
    exact settled_of_queue hrun hreturned (hempty (hc.joined (by rw [hreturned]; rfl)))

/-! ### The parent context -/

def After.leaving : After → Bool
  | .select => false
  | .drain exit => exit

def Loop.leaving : Loop α → Bool
  | .select | .flush => false
  | .drain exit => exit
  | .publish _ after => After.leaving after
  | .exited => true

omit [DecidableEq α] in
theorem leaving_after (after : After) : Loop.leaving (after.loop : Loop α) = After.leaving after := by
  cases after <;> rfl

/-- The context is cancelled by `stop` only, and the loop leaves only then. -/
structure Guarded (s : State α) : Prop where
  done : s.done = true → s.stopped = true
  leaving : Loop.leaving s.loop = true → s.done = true

omit [DecidableEq α] in
theorem guarded_step (hstep : step c s a = some s') (hc : Control s) (ha : a ≠ .cancelParent)
    (h : Guarded s) : Guarded s' := by
  cases trans_of_step hstep with
  | @receive after _ _ hl hq =>
    refine ⟨h.done, fun hleaving => h.leaving ?_⟩
    rw [hl, leaving_after]
    exact hleaving
  | done hl hd => exact ⟨h.done, fun _ => hd⟩
  | exit hl hq => exact ⟨h.done, fun _ => h.leaving (by rw [hl]; rfl)⟩
  | flight hl hf =>
    refine ⟨h.done, fun hleaving => h.leaving ?_⟩
    rw [hl]
    exact hleaving
  | @settle f after _ o hl hf =>
    have hleaving : Loop.leaving (after.loop : Loop α) = true → s.done = true := by
      intro hleaving
      refine h.leaving ?_
      rw [leaving_after] at hleaving
      rw [hl]
      exact hleaving
    cases o <;> exact ⟨h.done, hleaving⟩
  | begin ht hp => exact ⟨fun _ => rfl, h.leaving⟩
  | cancel ht => exact ⟨fun _ => hc.stopped.mpr (by simp [ht]), fun _ => rfl⟩
  | @finalSettle f _ _ o ht hf => cases o <;> exact ⟨h.done, h.leaving⟩
  | cancelParent => exact absurd rfl ha
  | tick | drained | defer | flush => exact ⟨h.done, (nomatch ·)⟩
  | reject | append | fill | send | full | spared | evict | drop | join | finalEmpty | finalFlush
  | finalFlight => exact ⟨h.done, h.leaving⟩

omit [DecidableEq α] in
/-- **While the parent context lives no batch is too late.** -/
theorem onTime_of_parent (hrun : Run (step c) (fun _ a => a ≠ .cancelParent) State.started as s) :
    Run (step c) OnTime State.started as s := by
  have hstarted : Guarded (State.started : State α) := ⟨(nomatch ·), (nomatch ·)⟩
  refine hrun.strengthen (I := fun s => Control s ∧ Guarded s) (fun s a s' ha hstep h => ?_) ⟨control_started, hstarted⟩
  refine ⟨⟨control_step hstep h.1, guarded_step hstep h.1 ha h.2⟩, fun hexited => ?_⟩
  have hstopped := h.2.done (h.2.leaving (by rw [hexited]; rfl))
  have hidle := h.1.quiet hstopped
  constructor <;> rintro rfl <;> simp [step, publishStep, hidle] at hstep

end

def oneByOne : Settings := ⟨1, 0, 0, false⟩

/-- A point is published, and `stop` is called. -/
def stopActs : List (Act String) :=
  [.publish (.enter "p"), .publish .send, .loop .receive, .loop (.flight (.publish true)), .stop .begin,
    .stop .cancel, .loop .done, .loop .drained, .stop .join, .stop .flush]

def stoppedState : State String :=
  { stopped := true, done := true, loop := .exited, stop := .returned, calls := 1,
    accepted := [⟨0, "p"⟩], published := [[⟨0, "p"⟩]] }

theorem accounted_published : Run (step oneByOne) Any State.started stopActs stoppedState ∧ Settled stoppedState := by
  have hrun : ∀ {P : State String → Act String → Prop}, (∀ s a, a ≠ .cancelParent → P s a) →
      Run (step oneByOne) P State.started stopActs stoppedState := by
    intro P hP
    repeat refine .cons (hP _ _ (by simp)) rfl ?_
    exact .nil _
  refine ⟨hrun fun _ _ _ => trivial, ?_⟩
  exact ((accounted_iff (hrun fun _ _ _ => trivial)).2 rfl).mpr (onTime_of_parent (hrun fun _ _ h => h))

/-- The parent context is cancelled, the flush loop returns, and a point is published before `stop`. -/
def cancelActs : List (Act String) :=
  [.cancelParent, .loop .done, .loop .drained, .publish (.enter "p"), .publish .send, .stop .begin,
    .stop .cancel, .stop .join, .stop .flush]

def strandedState : State String :=
  { stopped := true, done := true, loop := .exited, stop := .returned, calls := 1,
    accepted := [⟨0, "p"⟩], flushBatches := [[⟨0, "p"⟩]] }

/-- **The batch of the point stays in the queue.** -/
theorem stranded_batch :
    newTransportBatcher (fun _ => none) { name := "broker", type := "mqtt", batchSize := 1 } false = some oneByOne ∧
      Run (step oneByOne) Any State.started cancelActs strandedState ∧
      ¬ Settled strandedState := by
  refine ⟨by decide, ?_, fun h => absurd h.queue (by decide)⟩
  repeat refine .cons trivial rfl ?_
  exact .nil _

end CoreC.Engine.Accounting
