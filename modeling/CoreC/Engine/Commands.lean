import CoreC.Engine.Write

/-! # The commands of a transport

`startCommandListener`, `deadLetterStrandedCommands` and `executeWriteWithRetry` (`engine/write_manager.go`) as threads:
a transport that puts commands into its channel, the listener that takes them out and waits for a slot, and one goroutine
for each command that got one. `RemoveTransport` ends the context of the listener; `Stop` ends that of the engine. A step
is one operation on a channel, one write attempt, one forward or one dead letter; in between the rest of the engine
writes, forwards and stores as it likes.

* `execute_alone`: a command whose goroutine alone takes steps is executed as `executeWriteWithRetry` says. -/

namespace CoreC.Engine.Commands

open Core.Types Engine.Write

/-! ### One command -/

structure Arrival where
  id : ℕ
  cmd : WriteCommand

structure Received extends Arrival where
  stamped : cmd.source = "command"

def Arrival.receive (a : Arrival) : Received := ⟨⟨a.id, stamp a.cmd⟩, rfl⟩

inductive End where
  | written | forwarded | deadLettered (entry : DeadLetterEntry)

/-- Where `executeWriteWithRetry` is: at the look at the registry, at the forwarders, before an attempt, in the
wait after one, before `addDeadLetter`. -/
inductive Phase where
  | dispatched | forwarding
  | attempting (attempt : ℕ)
  | waiting (attempt : ℕ)
  | failing (err : String) (attempts : ℕ)

/-- A goroutine of `executeWriteWithRetry`. -/
structure Execution where
  call : Received
  phase : Phase

/-- What a goroutine does; `shutdown` is the case of the wait that the engine's context ends. -/
inductive ExecAct where
  | check | forward | write | elapsed | shutdown | letter
  deriving DecidableEq, Repr

/-- Where a step takes a goroutine: it goes on, the command has ended, or it returns without an end. -/
inductive Next where
  | phase (p : Phase) | ended (how : End) | abandoned

section

variable {δ : Type} (env : Env δ)

def afterAttempt (attempt : ℕ) (res : Except String WriteResult) (s : WriteManager δ) : Next :=
  match failure res with
  | none => .ended .written
  | some lastErr =>
    if isPermanentWriteError lastErr then .phase (.failing lastErr (attempt + 1))
    else if attempt < s.writeRetryCount then .phase (.waiting attempt)
    else .phase (.failing lastErr (s.writeRetryCount + 1))

/-- One step of `executeWriteWithRetry`; `stopped` tells that the engine's context has ended. -/
def Execution.step (stopped : Bool) (e : Execution) (act : ExecAct) (s : WriteManager δ) :
    Option (Next × WriteManager δ) :=
  match e.phase, act with
  | .dispatched, .check =>
    some (.phase (if e.call.cmd.driver ∉ s.drivers then .forwarding else .attempting 0), s)
  | .forwarding, .forward =>
    some (if forwardCommand env e.call.cmd s then .ended .forwarded
      else .phase (.failing ("driver not found: " ++ e.call.cmd.driver ++ " (no forwarder configured)") 1), s)
  | .attempting attempt, .write =>
    some (afterAttempt attempt (writeTag env e.call.cmd s).1 s, (writeTag env e.call.cmd s).2)
  | .waiting attempt, .elapsed => some (.phase (.attempting (attempt + 1)), s)
  | .waiting _, .shutdown => if stopped then some (.abandoned, s) else none
  | .failing err attempts, .letter =>
    let entry : DeadLetterEntry := ⟨e.call.cmd, err, env.now s.world, attempts, ""⟩
    some (.ended (.deadLettered entry), addDeadLetter entry s)
  | _, _ => none

/-- A goroutine that nobody disturbs, from a phase to its return: its steps, and in a wait what `executeWriteWithRetry`
says of the surroundings. -/
inductive Alone (call : Received) (stopped : Bool) : Phase → WriteManager δ → WriteManager δ → Prop
  | phase {p p' : Phase} {act : ExecAct} {s s' t : WriteManager δ}
      (h : (Execution.mk call p).step env stopped act s = some (.phase p', s')) (hact : act ≠ .elapsed)
      (hrest : Alone call stopped p' s' t) : Alone call stopped p s t
  | ended {p : Phase} {act : ExecAct} {how : End} {s t : WriteManager δ}
      (h : (Execution.mk call p).step env stopped act s = some (.ended how, t)) : Alone call stopped p s t
  | elapsed {attempt : ℕ} {p : Phase} {w : δ} {s s' t : WriteManager δ}
      (hwait : env.wait (retryDelay attempt) s.world = (false, w))
      (h : (Execution.mk call (.waiting attempt)).step env stopped .elapsed
        { s with world := w, pacer := env.others w s.pacer } = some (.phase p, s'))
      (hrest : Alone call stopped p s' t) : Alone call stopped (.waiting attempt) s t
  | abandoned {attempt : ℕ} {w : δ} {s t : WriteManager δ} (hwait : env.wait (retryDelay attempt) s.world = (true, w))
      (h : (Execution.mk call (.waiting attempt)).step env stopped .shutdown { s with world := w } =
        some (.abandoned, t)) : Alone call stopped (.waiting attempt) s t

variable {env} {call : Received} {stopped : Bool}

theorem alone_failing (err : String) (attempts : ℕ) (s : WriteManager δ) : Alone env call stopped
    (.failing err attempts) s (addDeadLetter ⟨call.cmd, err, env.now s.world, attempts, ""⟩ s) :=
  .ended (show (Execution.mk call (.failing err attempts)).step env stopped .letter s = _ from rfl)

/-- The loop, with `left` attempts after the next one. -/
theorem alone_retry (hwait : ∀ d w, (env.wait d w).1 = true → stopped = true) {n : ℕ} : ∀ left err s,
    s.writeRetryCount = n → left ≤ n →
      Alone env call stopped (.attempting (n - left)) s (retry env call.cmd (n + 1) (left + 1) err s)
  | left, err, s, hn, hle => by
    have hattempt : n + 1 - (left + 1) = n - left := Nat.add_sub_add_right n 1 left
    have hstep : (Execution.mk call (.attempting (n - left))).step env stopped .write s =
      some (afterAttempt (n - left) (writeTag env call.cmd s).1 s, (writeTag env call.cmd s).2) := rfl
    rw [retry, hattempt]
    dsimp only
    unfold afterAttempt at hstep
    cases hfail : failure (writeTag env call.cmd s).1 with
    | none =>
      rw [hfail] at hstep
      exact .ended hstep
    | some lastErr =>
      rw [hfail] at hstep
      dsimp only at hstep ⊢
      by_cases hperm : isPermanentWriteError lastErr = true
      · rw [if_pos hperm] at hstep ⊢
        exact .phase hstep nofun (by simpa using alone_failing lastErr (n - left + 1) (writeTag env call.cmd s).2)
      · rw [if_neg hperm] at hstep ⊢
        cases left with
        | zero =>
          rw [if_neg (by omega), hn] at hstep
          exact .phase hstep nofun (alone_failing _ _ _)
        | succ left =>
          rw [if_pos (by omega)] at hstep
          rw [if_neg (Nat.succ_ne_zero left)]
          refine .phase hstep nofun ?_
          cases hw : env.wait (retryDelay (n - (left + 1))) (writeTag env call.cmd s).2.world with
          | mk ended w =>
            cases ended with
            | true =>
              obtain rfl := hwait _ _ (congrArg Prod.fst hw)
              exact .abandoned hw rfl
            | false =>
              refine .elapsed hw rfl ?_
              rw [show n - (left + 1) + 1 = n - left by omega]
              obtain ⟨_, _, _, haudited⟩ := writeTag_audited env call.cmd s
              exact alone_retry hwait left lastErr _ (haudited.writeRetryCount.trans hn) (Nat.le_of_succ_le hle)

/-- **A goroutine that nobody disturbs computes `executeWriteWithRetry`**, if a wait is cut short only when the
engine's context has ended. -/
theorem execute_alone (hwait : ∀ d w, (env.wait d w).1 = true → stopped = true) (s : WriteManager δ) :
    Alone env call stopped .dispatched s (executeWriteWithRetry env call.cmd s) := by
  have hcheck : (Execution.mk call .dispatched).step env stopped .check s =
      some (.phase (if call.cmd.driver ∉ s.drivers then .forwarding else .attempting 0), s) := rfl
  have hforward : (Execution.mk call .forwarding).step env stopped .forward s =
      some (if forwardCommand env call.cmd s then .ended .forwarded
        else .phase (.failing ("driver not found: " ++ call.cmd.driver ++ " (no forwarder configured)") 1), s) := rfl
  rw [executeWriteWithRetry]
  by_cases hdriver : call.cmd.driver ∉ s.drivers
  · rw [if_pos hdriver] at hcheck ⊢
    refine .phase hcheck (by decide) ?_
    split_ifs at hforward ⊢
    · exact .ended hforward
    · exact .phase hforward (by decide) (alone_failing _ 1 s)
  · rw [if_neg hdriver] at hcheck ⊢
    refine .phase hcheck (by decide) ?_
    have hloop : Alone env call stopped _ s _ := alone_retry hwait s.writeRetryCount "" s rfl le_rfl
    rwa [Nat.sub_self] at hloop

variable (env)

/-! ### The threads -/

/-- Where the listener is: in its select, with a command that has no slot yet, in
`deadLetterStrandedCommands` with a command, in the loop there, or gone. -/
inductive Listener where
  | selecting
  | holding (r : Received)
  | stranding (a : Arrival)
  | draining
  | exited

/-- What the listener does: it receives, sees the end of its context, gets a slot, or goes on in
`deadLetterStrandedCommands`. -/
inductive ListenAct where
  | receive | done | acquire | drain
  deriving DecidableEq, Repr

/-- The command channel, the threads and the engine. `sent` has every command that was put into the channel,
`ended` the ends in their order, `abandoned` the commands whose goroutine returned without one. -/
structure State (δ : Type) where
  engine : WriteManager δ
  ch : List Arrival := []
  closed : Bool := false
  listener : Listener := .selecting
  running : List Execution := []
  otherSlots : ℕ := 0
  removed : Bool := false
  stopped : Bool := false
  sent : List WriteCommand := []
  ended : List (ℕ × End) := []
  abandoned : List ℕ := []

/-- What the rest of the engine does: the slots of other commands, the devices and the clock, the registries, a write
and a dead letter from elsewhere. -/
inductive Other (δ : Type) where
  | slots (n : ℕ)
  | world (w : δ)
  | registries (drivers : List String) (configs : List DriverConfig) (transports : List Transport)
  | write (cmd : WriteCommand)
  | letter (entry : DeadLetterEntry)

/-- The steps: a command arrives, the transport closes its channel, the contexts of the transport and of the
engine end, a step of the listener, of the goroutine number `i`, or of somebody else. -/
inductive Act (δ : Type) where
  | send (cmd : WriteCommand)
  | close
  | remove
  | stop
  | listen (a : ListenAct)
  | execute (i : ℕ) (a : ExecAct)
  | other (o : Other δ)

/-- A step of the listener; `commandSem` is the number of slots. -/
def listen (commandSem : ℕ) (s : State δ) (act : ListenAct) : Option (State δ) :=
  match s.listener, act with
  | .selecting, .receive =>
    match s.ch with
    | a :: rest => some { s with ch := rest, listener := .holding a.receive }
    | [] => if s.closed then some { s with listener := .exited } else none
  | .selecting, .done => if s.removed then some { s with listener := .draining } else none
  | .holding r, .acquire =>
    if s.running.length + s.otherSlots < commandSem then
      some { s with listener := .selecting, running := s.running ++ [⟨r, .dispatched⟩] }
    else none
  | .holding r, .done => if s.removed then some { s with listener := .stranding r.toArrival } else none
  | .stranding a, .drain =>
    let entry : DeadLetterEntry :=
      ⟨stamp a.cmd, "transport removed before dispatch", env.now s.engine.world, 0, ""⟩
    some { s with
      engine := addDeadLetter entry s.engine
      listener := .draining
      ended := s.ended ++ [(a.id, .deadLettered entry)] }
  | .draining, .drain =>
    match s.ch with
    | a :: rest => some { s with ch := rest, listener := .stranding a }
    | [] => some { s with listener := .exited }
  | _, _ => none

/-- The goroutine number `i` goes where its step takes it; one that returns gives its slot back. -/
def settle (s : State δ) (i : ℕ) (e : Execution) (engine : WriteManager δ) : Next → State δ
  | .phase p => { s with engine := engine, running := s.running.set i { e with phase := p } }
  | .ended how =>
    { s with engine := engine, running := s.running.eraseIdx i, ended := s.ended ++ [(e.call.id, how)] }
  | .abandoned =>
    { s with engine := engine, running := s.running.eraseIdx i, abandoned := s.abandoned ++ [e.call.id] }

def other (s : State δ) : Other δ → State δ
  | .slots n => { s with otherSlots := n }
  | .world w => { s with engine := { s.engine with world := w } }
  | .registries drivers configs transports =>
    { s with engine := { s.engine with
        drivers := drivers, driverConfigs := configs, transports := transports } }
  | .write cmd => { s with engine := (writeTag env cmd s.engine).2 }
  | .letter entry => { s with engine := addDeadLetter entry s.engine }

/-- One step; `none` if the thread is not there. -/
def step (commandSem : ℕ) (s : State δ) : Act δ → Option (State δ)
  | .send cmd =>
    if s.closed then none
    else some { s with ch := s.ch ++ [⟨s.sent.length, cmd⟩], sent := s.sent ++ [cmd] }
  | .close => some { s with closed := true }
  | .remove => some { s with removed := true }
  | .stop => some { s with stopped := true }
  | .listen a => listen env commandSem s a
  | .execute i a =>
    match s.running[i]? with
    | none => none
    | some e => (e.step env s.stopped a s.engine).map fun next => settle s i e next.2 next.1
  | .other o => some (other env s o)

end

end CoreC.Engine.Commands
