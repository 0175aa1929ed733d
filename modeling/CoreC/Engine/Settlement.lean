import Mathlib.Data.List.Perm.Basic
import CoreC.Engine.Commands

/-! # How commands end

Every command that a transport puts into its channel is written, forwarded or becomes a dead letter, with two
exceptions: a wait between two attempts that the end of the engine's context cuts short is only logged, and a
command that arrives after its listener has returned stays in the channel.

* `Moves`, `moves_of_step`: where a step moves a command. -/

namespace CoreC.Engine.Commands

open Core.Types Engine.Write Lib.Runs List Option

section

variable {δ : Type} {env : Env δ} {commandSem : ℕ} {s s' : State δ} {act : Act δ} {a : ExecAct} {e : Execution}
  {next : Next} {m' : WriteManager δ} {i : ℕ}

/-- `Stop`, or `RemoveTransport` and the executions, have finished: the listener has returned and no
goroutine is left. -/
structure Finished (s : State δ) : Prop where
  listener : s.listener = .exited
  running : s.running = []

/-- The ends of the command number `i`. -/
def ends (s : State δ) (i : ℕ) : List End := (s.ended.filter fun e => e.1 = i).map Prod.snd

/-- Every command sent has one end, and is in the log if that is a dead letter. -/
def Settled (s : State δ) : Prop :=
  ∀ i cmd, s.sent[i]? = some cmd → ∃ how, ends s i = [how] ∧
    ∀ entry, how = .deadLettered entry → entry.command = stamp cmd ∧ entry ∈ s.engine.deadLetterLog

/-- Nothing is sent after the listener has ended, and no write is abandoned. -/
def OnTime (s : State δ) : Act δ → Prop
  | .send _ => s.listener ≠ .exited
  | .execute _ .shutdown => False
  | _ => True

/-! ### Where the commands are -/

theorem Received.stamp_cmd (r : Received) : stamp r.cmd = r.cmd := by
  obtain ⟨⟨id, cmd⟩, h⟩ := r
  cases cmd
  cases h
  rfl

def Arrival.key (a : Arrival) : ℕ × WriteCommand := (a.id, stamp a.cmd)

theorem Arrival.key_receive (a : Arrival) : a.receive.key = a.key := rfl

def Listener.held : Listener → List Arrival
  | .holding r => [r.toArrival]
  | .stranding a => [a]
  | _ => []

def flights (s : State δ) : List (ℕ × WriteCommand) :=
  (s.listener.held ++ s.running.map (·.call.toArrival) ++ s.ch).map Arrival.key

def End.letters : End → List DeadLetterEntry
  | .deadLettered entry => [entry]
  | _ => []

/-- Where a step moves a command: nowhere, into the channel, to its end, or out of the books. -/
inductive Moves (s s' : State δ) : Prop
  | same (sent : s'.sent = s.sent) (ended : s'.ended = s.ended) (abandoned : s'.abandoned = s.abandoned)
      (flights : (flights s).Perm (flights s')) (log : s.engine.deadLetterLog <+: s'.engine.deadLetterLog)
  | arrive (cmd : WriteCommand) (sent : s'.sent = s.sent ++ [cmd]) (ended : s'.ended = s.ended)
      (abandoned : s'.abandoned = s.abandoned) (flights : flights s' = flights s ++ [(s.sent.length, stamp cmd)])
      (log : s.engine.deadLetterLog <+: s'.engine.deadLetterLog)
  | finish (k : ℕ × WriteCommand) (how : End) (sent : s'.sent = s.sent)
      (ended : s'.ended = s.ended ++ [(k.1, how)]) (abandoned : s'.abandoned = s.abandoned)
      (flights : (flights s).Perm (k :: flights s'))
      (log : s'.engine.deadLetterLog = s.engine.deadLetterLog ++ how.letters)
      (letters : ∀ entry ∈ how.letters, entry.command = k.2)
  | abandon (k : ℕ × WriteCommand) (sent : s'.sent = s.sent) (ended : s'.ended = s.ended)
      (abandoned : s'.abandoned = s.abandoned ++ [k.1]) (flights : (flights s).Perm (k :: flights s'))
      (log : s.engine.deadLetterLog <+: s'.engine.deadLetterLog)

theorem moves_listen {a : ListenAct} (h : listen env commandSem s a = some s') : Moves s s' := by
  unfold listen at h
  split at h
  · next hl =>
    split at h
    · next b rest hch =>
      cases h
      refine .same rfl rfl rfl ?_ prefix_rfl
      simp only [flights, hl, hch, Listener.held, map_append, map_cons, map_nil, nil_append,
        append_assoc, Arrival.key_receive]
      exact perm_middle
    · split_ifs at h
      cases h
      refine .same rfl rfl rfl ?_ prefix_rfl
      simp [flights, hl, Listener.held]
  · next hl =>
    split_ifs at h
    cases h
    refine .same rfl rfl rfl ?_ prefix_rfl
    simp [flights, hl, Listener.held]
  · next r hl =>
    split_ifs at h
    cases h
    refine .same rfl rfl rfl ?_ prefix_rfl
    simp only [flights, hl, Listener.held, map_append, map_cons, map_nil, nil_append, append_assoc, cons_append]
    exact perm_middle.symm
  · next r hl =>
    split_ifs at h
    cases h
    refine .same rfl rfl rfl ?_ prefix_rfl
    simp [flights, hl, Listener.held]
  · next b hl =>
    cases h
    refine .finish b.key _ rfl rfl rfl ?_ (addDeadLetter_deadLetterLog _ _) ?_
    · simp [flights, hl, Listener.held]
    · intro entry hentry
      cases mem_singleton.mp hentry
      rfl
  · next hl =>
    split at h
    · next b rest hch =>
      cases h
      refine .same rfl rfl rfl ?_ prefix_rfl
      simp only [flights, hl, hch, Listener.held, map_append, map_cons]
      exact perm_middle
    · cases h
      refine .same rfl rfl rfl ?_ prefix_rfl
      simp [flights, hl, Listener.held]
  · cases h

theorem flights_set (he : s.running[i]? = some e) (p : Phase) :
    (s.running.set i { e with phase := p }).map (·.call.toArrival) = s.running.map (·.call.toArrival) := by
  obtain ⟨hi, rfl⟩ := List.getElem?_eq_some_iff.mp he
  rw [map_set]
  refine ext_getElem (by simp) fun j hj _ => ?_
  rw [getElem_set]
  split_ifs with hij
  · subst hij
    rw [getElem_map]
  · rfl

theorem flights_eraseIdx (he : s.running[i]? = some e) :
    (flights s).Perm (e.call.key :: flights { s with running := s.running.eraseIdx i }) := by
  obtain ⟨hi, rfl⟩ := List.getElem?_eq_some_iff.mp he
  have hperm := ((getElem_cons_eraseIdx_perm hi).map (·.call.toArrival)).symm
  have hrun := (hperm.append_left s.listener.held).trans perm_middle
  exact ((hrun.append_right s.ch).map Arrival.key)

theorem log_execution {stopped : Bool} {m : WriteManager δ} (h : e.step env stopped a m = some (next, m')) :
    (∀ how, next = .ended how → m'.deadLetterLog = m.deadLetterLog ++ how.letters ∧
      ∀ entry ∈ how.letters, entry.command = e.call.cmd) ∧
    m.deadLetterLog <+: m'.deadLetterLog := by
  unfold Execution.step at h
  split at h
  · cases h
    exact ⟨fun _ hhow => Next.noConfusion hhow, prefix_rfl⟩
  · cases h
    refine ⟨fun how hhow => ?_, prefix_rfl⟩
    split_ifs at hhow
    cases hhow
    exact ⟨(append_nil _).symm, forall_mem_nil _⟩
  · next attempt _ =>
    cases h
    obtain ⟨-, -, -, hlog⟩ := writeTag_recorded env e.call.cmd m
    rw [hlog]
    refine ⟨fun how hhow => ?_, prefix_rfl⟩
    unfold afterAttempt at hhow
    split at hhow
    · cases hhow
      exact ⟨(append_nil _).symm, forall_mem_nil _⟩
    · split_ifs at hhow
  · cases h
    exact ⟨fun _ hhow => Next.noConfusion hhow, prefix_rfl⟩
  · split_ifs at h
    cases h
    exact ⟨fun _ hhow => Next.noConfusion hhow, prefix_rfl⟩
  · cases h
    refine ⟨fun how hhow => ?_, by rw [addDeadLetter_deadLetterLog]; exact prefix_append _ _⟩
    cases hhow
    refine ⟨addDeadLetter_deadLetterLog _ _, fun entry hentry => ?_⟩
    cases mem_singleton.mp hentry
    rfl
  · cases h

theorem moves_settle (he : s.running[i]? = some e) (h : e.step env s.stopped a s.engine = some (next, m')) :
    Moves s (settle s i e m' next) := by
  obtain ⟨hend, hlog⟩ := log_execution h
  cases next with
  | phase p =>
    refine .same rfl rfl rfl ?_ hlog
    simp [flights, settle, flights_set he]
  | ended how =>
    obtain ⟨hhow, hcmd⟩ := hend how rfl
    refine .finish e.call.key how rfl rfl rfl (flights_eraseIdx he) hhow fun entry hentry => ?_
    rw [hcmd entry hentry]
    exact (Received.stamp_cmd _).symm
  | abandoned => exact .abandon e.call.key rfl rfl rfl (flights_eraseIdx he) hlog

theorem log_other (s : State δ) (o : Other δ) : s.engine.deadLetterLog <+: (other env s o).engine.deadLetterLog := by
  cases o with
  | write cmd =>
    obtain ⟨-, -, -, hlog⟩ := writeTag_recorded env cmd s.engine
    simp [other, hlog]
  | letter entry =>
    exact prefix_append _ _
  | _ => exact prefix_rfl

theorem other_frame {e : Env δ} (s : State δ) (o : Other δ) :
    (other e s o).sent = s.sent ∧ (other e s o).ended = s.ended ∧ (other e s o).abandoned = s.abandoned ∧
      flights (other e s o) = flights s ∧ (other e s o).listener = s.listener ∧ (other e s o).ch = s.ch := by
  cases o <;> simp [other, flights]

theorem moves_of_step (h : step env commandSem s act = some s') : Moves s s' := by
  cases act with
  | send cmd =>
    rw [step] at h
    split_ifs at h
    cases h
    refine .arrive cmd rfl rfl rfl ?_ prefix_rfl
    simp [flights, Arrival.key]
  | close | remove | stop =>
    cases h
    exact .same rfl rfl rfl (Perm.refl _) prefix_rfl
  | listen a => exact moves_listen h
  | execute i a =>
    rw [step] at h
    split at h
    · cases h
    · next e he =>
      obtain ⟨⟨next, m'⟩, hstep, rfl⟩ := map_eq_some_iff.mp h
      exact moves_settle he hstep
  | other o =>
    cases h
    obtain ⟨hsent, hended, habandoned, hflights, -⟩ := other_frame (e := env) s o
    exact .same hsent hended habandoned (hflights ▸ Perm.refl _) (log_other s o)

/-! ### The books -/

def State.started (engine : WriteManager δ) : State δ := { engine := engine }

/-- No command is out of the books: none is abandoned, and none is in a channel that nobody reads. -/
structure Clean (s : State δ) : Prop where
  abandoned : s.abandoned = []
  ch : s.listener = .exited → s.ch = []

/-- What is looked at in the last state of a run: whether the listener and the goroutines are gone, and how many
commands were sent and have ended. -/
def summary (s : State Bool) : Bool × Bool × ℕ × ℕ :=
  (match s.listener with | .exited => true | _ => false, s.running.isEmpty, s.sent.length, s.ended.length)

end

end CoreC.Engine.Commands
