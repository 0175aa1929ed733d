import CoreC.Core.Types
import CoreC.Lib.Runs

/-! # Writing tags

`engine/write_manager.go`, with the pacing and the protection check: a write is checked, handed to the driver and
recorded in the audit history; a command from a transport is stamped, forwarded if no driver of this node has its name,
retried, and put in the dead-letter queue if it fails for good. Commands that are still in the channel when the transport
is removed become dead letters too.

* `retry_recorded`: what the attempts leave, on every path. -/

namespace CoreC.Engine.Write

open Core.Types Lib.GoInt

/-- `writePacer`. -/
structure WritePacer where
  last : String → Option ℤ := fun _ => none
  interval : ℤ := 0

/-- The surroundings of the engine, in a state `δ`: the clock, the devices, the nodes downstream, waiting for a delay
(`true` if the engine is stopped meanwhile), what the other writers make of the pacer then, and two formats. -/
structure Env (δ : Type) where
  now : δ → ℤ
  write : String → WriteCommand → δ → Except String (List WriteResult) × δ
  forwardCommand : String → WriteCommand → δ → Option String
  wait : ℤ → δ → Bool × δ
  others : δ → WritePacer → WritePacer := fun _ pacer => pacer
  quoted : String → String
  duration : ℤ → String

/-- A registered transport; `forwarder` if it is a `core.CommandForwarder`. -/
structure Transport where
  name : String
  forwarder : Bool

theorem three_lt : 3 < 2 ^ 63 - 1 := by decide

/-- `writeManager`, with the parts of the engine it reads. The logs have every entry that is appended to the stores on
disk, the history and the queue the latest ones. The number of attempts fits an `int`. -/
structure WriteManager (δ : Type) where
  world : δ
  drivers : List String := []
  driverConfigs : List DriverConfig := []
  transports : List Transport := []
  writeRetryCount : ℕ := 3
  retryCount_lt : writeRetryCount < 2 ^ 63 - 1 := by exact three_lt
  pacer : WritePacer := {}
  writeAudits : List WriteAuditEntry := []
  auditLog : List WriteAuditEntry := []
  deadLetters : List DeadLetterEntry := []
  deadLetterLog : List DeadLetterEntry := []
  pushed : ℕ := 0

/-- How many entries the audit history keeps. -/
def writeAuditCapacity : ℕ := 1000

/-- `core.DefaultDeadLetterMaxLen`. -/
def deadLetterMaxLen : ℕ := 1000

/-- The latest `n` entries. -/
def latest {α : Type} (n : ℕ) (l : List α) : List α := l.drop (l.length - n)

/-! ### The checks before a write -/

/-- `tagWriteProtectionReason`; `none` for the empty text. -/
def tagWriteProtectionReason (quoted : String → String) (tags : List TagConfig) (tagName : String) :
    Option String :=
  match tags.find? fun t => t.name = tagName with
  | some t =>
    if t.protect = "read-only" then
      some ("tag " ++ quoted tagName ++ " is read-only (protect: read-only)")
    else none
  | none => none

def millisecond : ℤ := 1000000

/-- `Duration.Round(time.Millisecond)` of a positive duration. -/
def roundMilli (d : ℤ) : ℤ := (d + millisecond / 2) / millisecond * millisecond

section

variable {δ : Type} (env : Env δ)

/-- `check`: the refusal of a write. -/
def WritePacer.check (p : WritePacer) (driver : String) (now : ℤ) : Option String :=
  if p.interval ≤ 0 then none
  else
    match p.last driver with
    | none => none
    | some prev =>
      if now - prev < p.interval then
        some ("write paced: driver " ++ env.quoted driver ++ " accepts a write every " ++
          env.duration p.interval ++ " (retry in " ++
          env.duration (roundMilli (p.interval - (now - prev))) ++ ")")
      else none

/-- `record`: an accepted write. -/
def WritePacer.record (p : WritePacer) (driver : String) (now : ℤ) : WritePacer :=
  if p.interval ≤ 0 then p else { p with last := Function.update p.last driver (some now) }

/-! ### A write -/

variable (cmd : WriteCommand)

/-- `recordWriteAudit`. -/
def recordWriteAudit (success : Bool) (errMsg : String) (s : WriteManager δ) :
    WriteManager δ :=
  let entry : WriteAuditEntry :=
    { timestamp := env.now s.world, driver := cmd.driver, device := cmd.device, tag := cmd.tag,
      value := cmd.value, type := cmd.type, success := success, error := errMsg,
      source := cmd.source, remote := cmd.remote, raw := cmd.raw }
  { s with
    writeAudits := latest writeAuditCapacity (s.writeAudits ++ [entry])
    auditLog := s.auditLog ++ [entry] }

/-- A write that fails is recorded. -/
def refuse (err : String) (s : WriteManager δ) : Except String WriteResult × WriteManager δ :=
  (.error err, recordWriteAudit env cmd false err s)

/-- The protection of the tag, by the configuration of its driver. -/
def protection (s : WriteManager δ) : Option String :=
  (s.driverConfigs.find? fun dc => dc.name = cmd.driver).bind fun dc =>
    tagWriteProtectionReason env.quoted dc.tags cmd.tag

/-- `WriteTag`. -/
def writeTag (s : WriteManager δ) : Except String WriteResult × WriteManager δ :=
  if cmd.driver ∉ s.drivers then refuse env cmd ("driver not found: " ++ cmd.driver) s
  else
    match protection env cmd s with
    | some reason => refuse env cmd reason s
    | none =>
      match s.pacer.check env cmd.driver (env.now s.world) with
      | some err => refuse env cmd err s
      | none =>
        match env.write cmd.driver cmd s.world with
        | (.error err, w) => refuse env cmd err { s with world := w }
        | (.ok [], w) => refuse env cmd "no result returned" { s with world := w }
        | (.ok (res :: _), w) =>
          let s := recordWriteAudit env cmd res.success res.error { s with world := w }
          (.ok res,
            if res.success then { s with pacer := s.pacer.record cmd.driver (env.now s.world) } else s)

/-! ### Executing a command -/

/-- `addDeadLetter`. -/
def addDeadLetter (entry : DeadLetterEntry) (s : WriteManager δ) : WriteManager δ :=
  { s with
    deadLetters := latest deadLetterMaxLen (s.deadLetters ++ [entry])
    deadLetterLog := s.deadLetterLog ++ [entry]
    pushed := s.pushed + 1 }

/-- `forwardCommand`: the forwarders are tried in the order of their names. -/
def forwardCommand (s : WriteManager δ) : Bool :=
  (s.transports.insertionSort fun a b => a.name ≤ b.name).any fun t =>
    t.forwarder && (env.forwardCommand t.name cmd s.world).isNone

/-- The errors that a retry does not mend. -/
def permanentWriteErrPatterns : List String :=
  ["tag not found", "read-only area", "protect: read-only", "is not supported on",
    "expected bool value", "unsupported write type", "failed to create variant", "s7 encode"]

def isPermanentWriteError (err : String) : Bool :=
  permanentWriteErrPatterns.any fun p => err.toList.tails.any p.toList.isPrefixOf

/-- The error of a write; `none` if it succeeded. -/
def failure : Except String WriteResult → Option String
  | .error err => some err
  | .ok res => if res.success then none else some res.error

/-- The wait after an attempt. -/
def retryDelay (attempt : ℕ) : ℤ :=
  min (IntType.int64.wrap (100 * millisecond * IntType.int64.wrap (2 ^ attempt))) (2000 * millisecond)

/-- The loop of `executeWriteWithRetry`, with the number of attempts left. -/
def retry (cmd : WriteCommand) (maxAttempts : ℕ) : ℕ → String → WriteManager δ → WriteManager δ
  | 0, lastErr, s =>
    addDeadLetter ⟨cmd, lastErr, env.now s.world, maxAttempts, ""⟩ s
  | left + 1, _, s =>
    let attempt := maxAttempts - (left + 1)
    let (res, s) := writeTag env cmd s
    match failure res with
    | none => s
    | some lastErr =>
      if isPermanentWriteError lastErr then
        addDeadLetter ⟨cmd, lastErr, env.now s.world, attempt + 1, ""⟩ s
      else if left = 0 then retry cmd maxAttempts left lastErr s
      else
        -- a wait that the shutdown ends is only logged
        match env.wait (retryDelay attempt) s.world with
        | (true, w) => { s with world := w }
        | (false, w) => retry cmd maxAttempts left lastErr { s with world := w, pacer := env.others w s.pacer }

/-- `executeWriteWithRetry`. -/
def executeWriteWithRetry (s : WriteManager δ) : WriteManager δ :=
  if cmd.driver ∉ s.drivers then
    if forwardCommand env cmd s then s
    else
      addDeadLetter ⟨cmd, "driver not found: " ++ cmd.driver ++ " (no forwarder configured)", env.now s.world, 1, ""⟩ s
  else retry env cmd (s.writeRetryCount + 1) (s.writeRetryCount + 1) "" s

/-! ### The listener -/

def stamp : WriteCommand := { cmd with source := "command" }

/-- `deadLetterStrandedCommands`: the command the listener holds, and what is in the channel. -/
def deadLetterStrandedCommands (ch : List WriteCommand) (held : Option WriteCommand) (s : WriteManager δ) :
    WriteManager δ :=
  (held.toList ++ ch).foldl (fun s cmd =>
    addDeadLetter ⟨stamp cmd, "transport removed before dispatch", env.now s.world, 0, ""⟩ s) s

end

/-! ### What is recorded -/

section

variable {δ : Type} {env : Env δ} {cmd : WriteCommand} {s s' s'' : WriteManager δ}

structure OfCommand (cmd : WriteCommand) (e : WriteAuditEntry) : Prop where
  driver : e.driver = cmd.driver
  device : e.device = cmd.device
  tag : e.tag = cmd.tag
  value : e.value = cmd.value
  type : e.type = cmd.type
  source : e.source = cmd.source
  remote : e.remote = cmd.remote
  raw : e.raw = cmd.raw

/-- From `s` to `s'` only entries of the command are recorded. -/
structure Recorded (cmd : WriteCommand) (s s' : WriteManager δ) : Prop where
  audits : ∃ new, s'.auditLog = s.auditLog ++ new ∧ ∀ e ∈ new, OfCommand cmd e
  deadLetters : ∃ new, s'.deadLetterLog = s.deadLetterLog ++ new ∧ ∀ d ∈ new, d.command = cmd

theorem Recorded.of_eq (ha : s'.auditLog = s.auditLog) (hd : s'.deadLetterLog = s.deadLetterLog) : Recorded cmd s s' :=
  ⟨⟨[], by simp [ha], by simp⟩, ⟨[], by simp [hd], by simp⟩⟩

theorem Recorded.trans (h : Recorded cmd s s') (h' : Recorded cmd s' s'') : Recorded cmd s s'' := by
  obtain ⟨⟨a, ha, ha'⟩, d, hd, hd'⟩ := h
  obtain ⟨⟨b, hb, hb'⟩, e, he, he'⟩ := h'
  refine ⟨⟨a ++ b, by rw [hb, ha, List.append_assoc], ?_⟩, d ++ e, by rw [he, hd, List.append_assoc], ?_⟩
  · exact List.forall_mem_append.mpr ⟨ha', hb'⟩
  · exact List.forall_mem_append.mpr ⟨hd', he'⟩

@[simp] theorem addDeadLetter_auditLog (entry : DeadLetterEntry) (s : WriteManager δ) :
    (addDeadLetter entry s).auditLog = s.auditLog := by
  simp [addDeadLetter]

@[simp] theorem addDeadLetter_deadLetterLog (entry : DeadLetterEntry) (s : WriteManager δ) :
    (addDeadLetter entry s).deadLetterLog = s.deadLetterLog ++ [entry] := by
  simp [addDeadLetter]

theorem addDeadLetter_recorded {entry : DeadLetterEntry} (h : entry.command = cmd) :
    Recorded cmd s (addDeadLetter entry s) :=
  ⟨⟨[], by simp, by simp⟩, ⟨[entry], by simp, by simpa using h⟩⟩

def auditEntry (env : Env δ) (cmd : WriteCommand) (success : Bool) (errMsg : String) (w : δ) : WriteAuditEntry :=
  { timestamp := env.now w, driver := cmd.driver, device := cmd.device, tag := cmd.tag, value := cmd.value,
    type := cmd.type, success := success, error := errMsg, source := cmd.source, remote := cmd.remote, raw := cmd.raw }

structure Audited (s s' : WriteManager δ) (e : WriteAuditEntry) : Prop where
  auditLog : s'.auditLog = s.auditLog ++ [e]
  writeAudits : s'.writeAudits = latest writeAuditCapacity (s.writeAudits ++ [e])
  deadLetterLog : s'.deadLetterLog = s.deadLetterLog
  writeRetryCount : s'.writeRetryCount = s.writeRetryCount

theorem audited_record {t : WriteManager δ} (success : Bool) (err : String) (ha : t.auditLog = s.auditLog)
    (hw : t.writeAudits = s.writeAudits) (hd : t.deadLetterLog = s.deadLetterLog)
    (hr : t.writeRetryCount = s.writeRetryCount) :
    Audited s (recordWriteAudit env cmd success err t) (auditEntry env cmd success err t.world) where
  auditLog := by simp [recordWriteAudit, auditEntry, ha]
  writeAudits := by simp [recordWriteAudit, auditEntry, hw]
  deadLetterLog := by simp [recordWriteAudit, hd]
  writeRetryCount := by simp [recordWriteAudit, hr]

theorem Audited.pacer {e : WriteAuditEntry} (h : Audited s s' e) (p : WritePacer) :
    Audited s { s' with pacer := p } e := ⟨h.auditLog, h.writeAudits, h.deadLetterLog, h.writeRetryCount⟩

theorem writeTag_audited (env : Env δ) (cmd : WriteCommand) (s : WriteManager δ) :
    ∃ success err w, Audited s (writeTag env cmd s).2 (auditEntry env cmd success err w) := by
  unfold writeTag refuse
  split
  · exact ⟨_, _, _, audited_record _ _ rfl rfl rfl rfl⟩
  · split
    · exact ⟨_, _, _, audited_record _ _ rfl rfl rfl rfl⟩
    · split
      · exact ⟨_, _, _, audited_record _ _ rfl rfl rfl rfl⟩
      · split
        · exact ⟨_, _, _, audited_record _ _ rfl rfl rfl rfl⟩
        · exact ⟨_, _, _, audited_record _ _ rfl rfl rfl rfl⟩
        · next res _ w _ =>
          have hrecord : Audited s (recordWriteAudit env cmd res.success res.error { s with world := w }) _ :=
            audited_record _ _ rfl rfl rfl rfl
          split_ifs
          · exact ⟨_, _, _, hrecord.pacer _⟩
          · exact ⟨_, _, _, hrecord⟩

theorem ofCommand_auditEntry (env : Env δ) (cmd : WriteCommand) (success : Bool) (err : String) (w : δ) :
    OfCommand cmd (auditEntry env cmd success err w) := ⟨rfl, rfl, rfl, rfl, rfl, rfl, rfl, rfl⟩

/-- **Every write attempt leaves one audit entry, of its command**, and no dead letter. -/
theorem writeTag_recorded (env : Env δ) (cmd : WriteCommand) (s : WriteManager δ) : ∃ e, OfCommand cmd e ∧
    (writeTag env cmd s).2.auditLog = s.auditLog ++ [e] ∧ (writeTag env cmd s).2.deadLetterLog = s.deadLetterLog := by
  obtain ⟨success, err, w, h⟩ := writeTag_audited env cmd s
  exact ⟨_, ofCommand_auditEntry env cmd success err w, h.auditLog, h.deadLetterLog⟩

theorem retry_recorded (env : Env δ) (cmd : WriteCommand) (maxAttempts : ℕ) :
    ∀ left err s,
    Recorded cmd s (retry env cmd maxAttempts left err s) ∧
      (left ≠ 0 → (retry env cmd maxAttempts left err s).auditLog ≠ s.auditLog)
  | 0, err, s => ⟨addDeadLetter_recorded rfl, fun h => absurd rfl h⟩
  | left + 1, err, s => by
    obtain ⟨e, he, hlog, hdead⟩ := writeTag_recorded env cmd s
    have hwrite : Recorded cmd s (writeTag env cmd s).2 :=
      ⟨⟨[e], hlog, by simpa using he⟩, ⟨[], by simp [hdead], by simp⟩⟩
    -- whatever follows the write keeps its audit entry
    have hrest : ∀ {s'}, Recorded cmd (writeTag env cmd s).2 s' →
        Recorded cmd s s' ∧ (left + 1 ≠ 0 → s'.auditLog ≠ s.auditLog) := by
      intro s' h
      refine ⟨hwrite.trans h, fun _ heq => ?_⟩
      obtain ⟨new, hnew, -⟩ := h.audits
      rw [hlog, heq] at hnew
      simpa using congrArg List.length hnew
    unfold retry
    dsimp only
    split
    · exact hrest (.of_eq rfl rfl)
    · split_ifs
      · exact hrest (addDeadLetter_recorded rfl)
      · exact hrest (retry_recorded env cmd maxAttempts left _ _).1
      · split
        · exact hrest (.of_eq rfl rfl)
        · next w _ =>
          have hwait : Recorded cmd (writeTag env cmd s).2 { (writeTag env cmd s).2 with
              world := w, pacer := env.others w (writeTag env cmd s).2.pacer } := .of_eq rfl rfl
          exact hrest (hwait.trans (retry_recorded env cmd maxAttempts left _ _).1)

theorem execute_local (env : Env δ) (h : cmd.driver ∈ s.drivers) : Recorded cmd s (executeWriteWithRetry env cmd s) ∧
      (executeWriteWithRetry env cmd s).auditLog ≠ s.auditLog := by
  rw [executeWriteWithRetry, if_neg (not_not_intro h)]
  obtain ⟨hrec, hne⟩ := retry_recorded env cmd (s.writeRetryCount + 1) (s.writeRetryCount + 1) "" s
  exact ⟨hrec, hne (Nat.succ_ne_zero _)⟩

theorem execute_forwarded (h : cmd.driver ∉ s.drivers) (hf : forwardCommand env cmd s = true) :
    executeWriteWithRetry env cmd s = s := by
  rw [executeWriteWithRetry, if_pos h, if_pos hf]

theorem execute_nowhere (h : cmd.driver ∉ s.drivers) (hf : forwardCommand env cmd s = false) :
    ∃ entry, entry.command = cmd ∧ executeWriteWithRetry env cmd s = addDeadLetter entry s := by
  rw [executeWriteWithRetry, if_pos h, if_neg (by simp [hf])]
  exact ⟨_, rfl, rfl⟩

theorem stranded_log (ch : List WriteCommand) (held : Option WriteCommand) (s : WriteManager δ) :
    (deadLetterStrandedCommands env ch held s).auditLog = s.auditLog ∧
      (deadLetterStrandedCommands env ch held s).deadLetterLog.map DeadLetterEntry.command =
        s.deadLetterLog.map DeadLetterEntry.command ++ (held.toList ++ ch).map stamp := by
  unfold deadLetterStrandedCommands
  induction held.toList ++ ch generalizing s with
  | nil => simp
  | cons cmd l ih =>
    obtain ⟨h1, h2⟩ := ih (addDeadLetter ⟨stamp cmd, "transport removed before dispatch", env.now s.world, 0, ""⟩ s)
    rw [List.foldl_cons, h1, h2]
    simp

end

end CoreC.Engine.Write
