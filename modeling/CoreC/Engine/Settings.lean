import CoreC.Config.Sections

/-! # The settings of the engine across a reload

`Start` applies the `global` section of a configuration to the roles of the engine (`applyEngineConfig` and the
`applyConfig` of each role), and every role applies only the values that are present. `Reload` is `Stop` and `Start` of
the same engine, so what a value of the first configuration has set stays in place where the second has none. -/

namespace CoreC.Engine.Settings

open Core.Types Config.Sections

/-! ### The settings -/

inductive BadQualityPolicy where
  | publish
  | drop
  | markAndPublish
  | alert
  deriving DecidableEq, Repr

/-- A JSON Lines store that a role holds, and whether its file is open. -/
structure StoreRef where
  path : String
  isOpen : Bool := true
  deriving DecidableEq, Repr

structure BufferRef where
  dir : String
  maxEntries : ℤ
  deriving DecidableEq, Repr

/-- The settings that the roles of the engine hold; durations are in nanoseconds. -/
structure EngineSettings where
  dataBusSize : ℤ
  numWorkers : ℤ
  numHighPriorityWorkers : ℤ
  alertActiveWindow : ℤ
  errorThrottleWin : ℤ
  defaultTagInterval : ℤ
  staleThreshold : ℤ
  badQualityPolicy : BadQualityPolicy
  shutdownTimeout : ℤ
  writeRetryCount : ℤ
  commandConcurrency : ℤ
  writeMinInterval : ℤ
  deadLetterStore : Option StoreRef
  auditStore : Option StoreRef
  offlineBuffer : Option BufferRef
  deriving DecidableEq, Repr

/-- What the settings depend on besides the configuration: the number of processors, `time.ParseDuration`, and
whether a store or the directory of the buffer can be opened. -/
structure Env where
  numCPU : ℤ
  parseDuration : String → Option ℤ
  opens : String → Bool
  bufferOpens : String → Bool

/-- Why `applyEngineConfig` fails. -/
inductive StartError where
  | onBadQuality (name : String)
  | writeMinInterval (text : String)
  | negativeWriteMinInterval (text : String)
  | deadLetterStore (path : String)
  | writeAuditStore (path : String)
  deriving DecidableEq, Repr

def defaultCommandConcurrency : ℤ := 16

def defaultOfflineBufferMaxEntries : ℤ := 10000

def second : ℤ := 1000000000

/-- The settings of `New`. -/
def new (env : Env) : EngineSettings where
  dataBusSize := 8192
  numWorkers := env.numCPU
  numHighPriorityWorkers := 2
  alertActiveWindow := 15 * 60 * second
  errorThrottleWin := 10 * second
  defaultTagInterval := second
  staleThreshold := 0
  badQualityPolicy := .publish
  shutdownTimeout := 30 * second
  writeRetryCount := 3
  commandConcurrency := defaultCommandConcurrency
  writeMinInterval := 0
  deadLetterStore := none
  auditStore := none
  offlineBuffer := none

/-! ### Applying a configuration -/

def positive (value old : ℤ) : ℤ := if 0 < value then value else old

/-- `if d, err := time.ParseDuration(text); err == nil && d > 0`. -/
def duration (env : Env) (text : String) (old : ℤ) : ℤ :=
  match env.parseDuration text with
  | some d => positive d old
  | none => old

abbrev Outcome : Type := EngineSettings × Option StartError

def Outcome.andThen (r : Outcome) (next : EngineSettings → Outcome) : Outcome :=
  match r.2 with
  | some _ => r
  | none => next r.1

/-- `applyConfig` of the processing role. -/
def applyProcessing (env : Env) (cfg : EngineConfig) (s : EngineSettings) : EngineSettings :=
  { s with
    dataBusSize := positive cfg.dataBusSize s.dataBusSize
    numWorkers := positive cfg.workers s.numWorkers
    numHighPriorityWorkers := positive cfg.highPriorityWorkers s.numHighPriorityWorkers
    alertActiveWindow := duration env cfg.alertActiveWindow s.alertActiveWindow }

/-- `applyConfig` of the lifecycle role. -/
def applyLifecycle (env : Env) (cfg : EngineConfig) (s : EngineSettings) : EngineSettings :=
  { s with
    errorThrottleWin := duration env cfg.errorThrottleWindow s.errorThrottleWin
    defaultTagInterval := duration env cfg.defaultTagInterval s.defaultTagInterval }

/-- `applyConfig` of the read accessor. -/
def applyReads (env : Env) (cfg : EngineConfig) (s : EngineSettings) : EngineSettings :=
  { s with staleThreshold := duration env cfg.staleThreshold s.staleThreshold }

def parseBadQualityPolicy (name : String) : Except StartError BadQualityPolicy :=
  let lower := toLower name
  if lower = "" ∨ lower = "publish" then .ok .publish
  else if lower = "drop" then .ok .drop
  else if lower = "mark-and-publish" then .ok .markAndPublish
  else if lower = "alert" then .ok .alert
  else .error (.onBadQuality name)

/-- `applyBadQualityPolicy`, for a policy that is given. -/
def applyBadQualityPolicy (cfg : EngineConfig) (s : EngineSettings) : Outcome :=
  if cfg.onBadQuality = "" then (s, none)
  else
    match parseBadQualityPolicy cfg.onBadQuality with
    | .error err => (s, some err)
    | .ok policy => ({ s with badQualityPolicy := policy }, none)

/-- The part of `applyConfig` of the write manager about the pacing interval. -/
def applyPacing (env : Env) (cfg : EngineConfig) (s : EngineSettings) : Outcome :=
  if cfg.writeMinInterval = "" then (s, none)
  else
    match env.parseDuration cfg.writeMinInterval with
    | none => (s, some (.writeMinInterval cfg.writeMinInterval))
    | some interval =>
      if interval < 0 then (s, some (.negativeWriteMinInterval cfg.writeMinInterval))
      else ({ s with writeMinInterval := interval }, none)

/-- The part about the dead letters, with `openDeadLetterStore`. -/
def applyDeadLetters (env : Env) (cfg : EngineConfig) (s : EngineSettings) : Outcome :=
  if cfg.deadLetterPath = "" then (s, none)
  else if env.opens cfg.deadLetterPath then ({ s with deadLetterStore := some { path := cfg.deadLetterPath } }, none)
  else (s, some (.deadLetterStore cfg.deadLetterPath))

/-- `configure` of the audit trail: the store is dropped first. -/
def configureAudits (env : Env) (cfg : EngineConfig) (s : EngineSettings) : Outcome :=
  let s := { s with auditStore := none }
  if cfg.writeAuditPath = "" then (s, none)
  else if env.opens cfg.writeAuditPath then ({ s with auditStore := some { path := cfg.writeAuditPath } }, none)
  else (s, some (.writeAuditStore cfg.writeAuditPath))

/-- `applyConfig` of the write manager. -/
def applyWrites (env : Env) (cfg : EngineConfig) (s : EngineSettings) : Outcome :=
  let s := { s with
    writeRetryCount := positive cfg.writeRetryCount s.writeRetryCount
    commandConcurrency := positive cfg.commandConcurrency s.commandConcurrency }
  ((applyPacing env cfg s).andThen (applyDeadLetters env cfg)).andThen (configureAudits env cfg)

def applyEngineConfig (env : Env) (cfg : EngineConfig) (s : EngineSettings) : Outcome :=
  (applyBadQualityPolicy cfg (applyReads env cfg (applyLifecycle env cfg (applyProcessing env cfg s)))).andThen
    fun s => applyWrites env cfg { s with shutdownTimeout := duration env cfg.shutdownTimeout s.shutdownTimeout }

/-- The part of `Start` about the offline buffer; a buffer that cannot be opened is only logged. -/
def applyBuffer (env : Env) (buffer : BufferConfig) (s : EngineSettings) : EngineSettings :=
  if buffer.enabled ∧ buffer.path ≠ "" ∧ env.bufferOpens buffer.path then
    { s with
      offlineBuffer := some
        { dir := buffer.path, maxEntries := positive buffer.maxSize defaultOfflineBufferMaxEntries } }
  else s

/-- The number of commands in parallel that `Start` makes the semaphore for. -/
def commandSlots (n : ℤ) : ℤ := if n ≤ 0 then defaultCommandConcurrency else n

/-- The part of `Start` that sets the settings. -/
def start (env : Env) (cfg : GlobalConfig) (s : EngineSettings) : Outcome :=
  (applyEngineConfig env cfg.engine s).andThen fun s =>
    (applyBuffer env cfg.buffer { s with commandConcurrency := commandSlots s.commandConcurrency }, none)

/-- `close` of a store. -/
def StoreRef.close (store : StoreRef) : StoreRef := { store with isOpen := false }

/-- The part of `Stop` about the settings: the stores are closed. -/
def stop (s : EngineSettings) : EngineSettings :=
  { s with deadLetterStore := s.deadLetterStore.map .close, auditStore := s.auditStore.map .close }

def reload (env : Env) (cfg : GlobalConfig) (s : EngineSettings) : Outcome := start env cfg (stop s)

/-! ### The settings after a start -/

section

variable {env : Env} {cfg : GlobalConfig}

/-- The policy that a name sets; `old` where there is none. -/
def policyOf (name : String) (old : BadQualityPolicy) : BadQualityPolicy :=
  if name = "" then old
  else
    match parseBadQualityPolicy name with
    | .ok policy => policy
    | .error _ => old

/-- The settings after a start on `s` that succeeds. -/
def applied (env : Env) (cfg : GlobalConfig) (s : EngineSettings) : EngineSettings where
  dataBusSize := positive cfg.engine.dataBusSize s.dataBusSize
  numWorkers := positive cfg.engine.workers s.numWorkers
  numHighPriorityWorkers := positive cfg.engine.highPriorityWorkers s.numHighPriorityWorkers
  alertActiveWindow := duration env cfg.engine.alertActiveWindow s.alertActiveWindow
  errorThrottleWin := duration env cfg.engine.errorThrottleWindow s.errorThrottleWin
  defaultTagInterval := duration env cfg.engine.defaultTagInterval s.defaultTagInterval
  staleThreshold := duration env cfg.engine.staleThreshold s.staleThreshold
  badQualityPolicy := policyOf cfg.engine.onBadQuality s.badQualityPolicy
  shutdownTimeout := duration env cfg.engine.shutdownTimeout s.shutdownTimeout
  writeRetryCount := positive cfg.engine.writeRetryCount s.writeRetryCount
  commandConcurrency := positive cfg.engine.commandConcurrency s.commandConcurrency
  writeMinInterval :=
    if cfg.engine.writeMinInterval = "" then s.writeMinInterval
    else (env.parseDuration cfg.engine.writeMinInterval).getD s.writeMinInterval
  deadLetterStore :=
    if cfg.engine.deadLetterPath = "" then s.deadLetterStore else some { path := cfg.engine.deadLetterPath }
  auditStore := if cfg.engine.writeAuditPath = "" then none else some { path := cfg.engine.writeAuditPath }
  offlineBuffer := (applyBuffer env cfg.buffer s).offlineBuffer

theorem positive_pos {value old : ℤ} (h : 0 < old) : 0 < positive value old := by
  unfold positive
  split_ifs <;> assumption

theorem Outcome.andThen_ok (s : EngineSettings) (next : EngineSettings → Outcome) :
    Outcome.andThen (s, none) next = next s := rfl

theorem Outcome.of_andThen_none {r : Outcome} {next : EngineSettings → Outcome} (h : (r.andThen next).2 = none) :
    r.2 = none ∧ (next r.1).2 = none := by
  unfold Outcome.andThen at h
  cases hr : r.2 with
  | some err => simp only [hr] at h; exact absurd h nofun
  | none => simp only [hr] at h; exact ⟨rfl, h⟩

variable {s : EngineSettings}

/-! Whether a step fails depends on the configuration alone. -/

theorem applyBadQualityPolicy_eq {cfg : EngineConfig} (h : (applyBadQualityPolicy cfg s).2 = none)
    (s' : EngineSettings) :
    applyBadQualityPolicy cfg s' =
      ({ s' with badQualityPolicy := policyOf cfg.onBadQuality s'.badQualityPolicy }, none) := by
  unfold applyBadQualityPolicy policyOf at *
  split_ifs at h ⊢
  · rfl
  · cases hparse : parseBadQualityPolicy cfg.onBadQuality with
    | error err => simp only [hparse] at h; exact absurd h nofun
    | ok policy => rfl

theorem applyPacing_eq {cfg : EngineConfig} (h : (applyPacing env cfg s).2 = none) (s' : EngineSettings) :
    applyPacing env cfg s' =
      ({ s' with
          writeMinInterval :=
            if cfg.writeMinInterval = "" then s'.writeMinInterval
            else (env.parseDuration cfg.writeMinInterval).getD s'.writeMinInterval }, none) := by
  unfold applyPacing at *
  split_ifs at h ⊢
  · rfl
  · cases hparse : env.parseDuration cfg.writeMinInterval with
    | none => simp only [hparse] at h; exact absurd h nofun
    | some interval =>
      simp only [hparse] at h ⊢
      split_ifs at h ⊢
      rfl

theorem applyDeadLetters_eq {cfg : EngineConfig} (h : (applyDeadLetters env cfg s).2 = none) (s' : EngineSettings) :
    applyDeadLetters env cfg s' =
      ({ s' with
          deadLetterStore :=
            if cfg.deadLetterPath = "" then s'.deadLetterStore else some { path := cfg.deadLetterPath } }, none) := by
  unfold applyDeadLetters at *
  split_ifs at h ⊢
  · rfl
  · rfl

theorem configureAudits_eq {cfg : EngineConfig} (h : (configureAudits env cfg s).2 = none) (s' : EngineSettings) :
    configureAudits env cfg s' =
      ({ s' with
          auditStore := if cfg.writeAuditPath = "" then none else some { path := cfg.writeAuditPath } }, none) := by
  unfold configureAudits at *
  split_ifs at h ⊢
  · rfl
  · rfl

theorem applyWrites_eq {cfg : EngineConfig} (h : (applyWrites env cfg s).2 = none) (s' : EngineSettings) :
    applyWrites env cfg s' =
      ({ s' with
          writeRetryCount := positive cfg.writeRetryCount s'.writeRetryCount
          commandConcurrency := positive cfg.commandConcurrency s'.commandConcurrency
          writeMinInterval :=
            if cfg.writeMinInterval = "" then s'.writeMinInterval
            else (env.parseDuration cfg.writeMinInterval).getD s'.writeMinInterval
          deadLetterStore :=
            if cfg.deadLetterPath = "" then s'.deadLetterStore else some { path := cfg.deadLetterPath }
          auditStore := if cfg.writeAuditPath = "" then none else some { path := cfg.writeAuditPath } }, none) := by
  obtain ⟨hstores, haudits⟩ := Outcome.of_andThen_none h
  obtain ⟨hpacing, hletters⟩ := Outcome.of_andThen_none hstores
  unfold applyWrites
  dsimp only
  rw [applyPacing_eq hpacing, Outcome.andThen_ok, applyDeadLetters_eq hletters, Outcome.andThen_ok,
    configureAudits_eq haudits]

/-- **A configuration that starts on some settings starts on all of them**, and sets what it has. -/
theorem start_eq (h : (start env cfg s).2 = none) {s' : EngineSettings} (hs' : 0 < s'.commandConcurrency) :
    start env cfg s' = (applied env cfg s', none) := by
  obtain ⟨happly, -⟩ := Outcome.of_andThen_none h
  obtain ⟨hpolicy, hwrites⟩ := Outcome.of_andThen_none happly
  have hslots : commandSlots (positive cfg.engine.commandConcurrency s'.commandConcurrency) =
      positive cfg.engine.commandConcurrency s'.commandConcurrency := if_neg (not_le.mpr (positive_pos hs'))
  unfold start applyEngineConfig
  rw [applyBadQualityPolicy_eq hpolicy, Outcome.andThen_ok, applyWrites_eq hwrites, Outcome.andThen_ok]
  simp only [applyProcessing, applyLifecycle, applyReads, hslots]
  unfold applied applyBuffer
  split_ifs <;> rfl

end

/-! ### A reload -/

/-- The number is set again, or was the default. -/
def NumberReset (default value₁ value₂ : ℤ) : Prop := 0 < value₂ ∨ value₁ ≤ 0 ∨ value₁ = default

/-- The duration is set again, or was the default. -/
def DurationReset (env : Env) (default : ℤ) (text₁ text₂ : String) : Prop :=
  (∃ d, env.parseDuration text₂ = some d ∧ 0 < d) ∨ ∀ d, env.parseDuration text₁ = some d → 0 < d → d = default

/-- The buffer is wanted. -/
def On (buffer : BufferConfig) : Prop := buffer.enabled = true ∧ buffer.path ≠ ""

/-- Every value that the first configuration sets to something else than the default is in the second. -/
@[mk_iff]
structure Reset (env : Env) (c₁ c₂ : GlobalConfig) : Prop where
  dataBusSize : NumberReset 8192 c₁.engine.dataBusSize c₂.engine.dataBusSize
  workers : NumberReset env.numCPU c₁.engine.workers c₂.engine.workers
  highPriorityWorkers : NumberReset 2 c₁.engine.highPriorityWorkers c₂.engine.highPriorityWorkers
  alertActiveWindow : DurationReset env (15 * 60 * second) c₁.engine.alertActiveWindow c₂.engine.alertActiveWindow
  errorThrottleWindow : DurationReset env (10 * second) c₁.engine.errorThrottleWindow c₂.engine.errorThrottleWindow
  defaultTagInterval : DurationReset env second c₁.engine.defaultTagInterval c₂.engine.defaultTagInterval
  staleThreshold : DurationReset env 0 c₁.engine.staleThreshold c₂.engine.staleThreshold
  onBadQuality : c₂.engine.onBadQuality ≠ "" ∨ toLower c₁.engine.onBadQuality = "" ∨
    toLower c₁.engine.onBadQuality = "publish"
  shutdownTimeout : DurationReset env (30 * second) c₁.engine.shutdownTimeout c₂.engine.shutdownTimeout
  writeRetryCount : NumberReset 3 c₁.engine.writeRetryCount c₂.engine.writeRetryCount
  commandConcurrency : NumberReset 16 c₁.engine.commandConcurrency c₂.engine.commandConcurrency
  writeMinInterval : c₂.engine.writeMinInterval ≠ "" ∨ c₁.engine.writeMinInterval = "" ∨
    env.parseDuration c₁.engine.writeMinInterval = some 0
  deadLetterPath : c₂.engine.deadLetterPath ≠ "" ∨ c₁.engine.deadLetterPath = ""
  buffer : On c₂.buffer ∨ ¬ On c₁.buffer

section

variable {env : Env}

theorem positive_reset_iff {default value₁ value₂ : ℤ} :
    positive value₂ (positive value₁ default) = positive value₂ default ↔ NumberReset default value₁ value₂ := by
  unfold positive NumberReset
  split_ifs <;> omega

theorem duration_reset_iff {default : ℤ} {text₁ text₂ : String} :
    duration env text₂ (duration env text₁ default) = duration env text₂ default ↔
      DurationReset env default text₁ text₂ := by
  have hfirst : duration env text₁ default = default ↔
      ∀ d, env.parseDuration text₁ = some d → 0 < d → d = default := by
    unfold duration positive
    cases env.parseDuration text₁ with
    | none => simp
    | some d =>
      by_cases hd : 0 < d
      · simp
      · simp
  unfold DurationReset
  rw [← hfirst]
  unfold duration positive
  cases env.parseDuration text₂ with
  | none => simp
  | some d =>
    by_cases hd : 0 < d
    · simp [hd]
    · simp [hd]

theorem policyOf_publish_iff {name : String} (h : name = "" ∨ ∃ policy, parseBadQualityPolicy name = .ok policy) :
    policyOf name .publish = .publish ↔ toLower name = "" ∨ toLower name = "publish" := by
  by_cases hname : name = ""
  · subst hname
    exact ⟨fun _ => .inl (by decide), fun _ => rfl⟩
  · obtain ⟨policy, hpolicy⟩ := h.resolve_left hname
    have hof : policyOf name .publish = policy := by
      rw [policyOf, if_neg hname, hpolicy]
    rw [hof]
    unfold parseBadQualityPolicy at hpolicy
    dsimp only at hpolicy
    by_cases hpublish : toLower name = "" ∨ toLower name = "publish"
    · rw [if_pos hpublish] at hpolicy
      cases hpolicy
      exact ⟨fun _ => hpublish, fun _ => rfl⟩
    · refine ⟨fun h => ?_, fun h => absurd h hpublish⟩
      subst h
      split_ifs at hpolicy <;> cases hpolicy

theorem policy_reset_iff {name₁ name₂ : String}
    (h₁ : name₁ = "" ∨ ∃ policy, parseBadQualityPolicy name₁ = .ok policy)
    (h₂ : name₂ = "" ∨ ∃ policy, parseBadQualityPolicy name₂ = .ok policy) :
    policyOf name₂ (policyOf name₁ .publish) = policyOf name₂ .publish ↔
      name₂ ≠ "" ∨ toLower name₁ = "" ∨ toLower name₁ = "publish" := by
  by_cases hname : name₂ = ""
  · subst hname
    simpa [policyOf] using policyOf_publish_iff h₁
  · obtain ⟨policy, hpolicy⟩ := h₂.resolve_left hname
    have hof : ∀ old, policyOf name₂ old = policy := fun old => by
      rw [policyOf, if_neg hname, hpolicy]
    rw [hof, hof]
    exact ⟨fun _ => .inl hname, fun _ => rfl⟩

theorem pacing_reset_iff {text₁ text₂ : String} (h₁ : text₁ = "" ∨ ∃ d, env.parseDuration text₁ = some d)
    (h₂ : text₂ = "" ∨ ∃ d, env.parseDuration text₂ = some d) :
    ((if text₂ = "" then if text₁ = "" then 0 else (env.parseDuration text₁).getD 0
        else (env.parseDuration text₂).getD (if text₁ = "" then 0 else (env.parseDuration text₁).getD 0)) =
      if text₂ = "" then (0 : ℤ) else (env.parseDuration text₂).getD 0) ↔
      text₂ ≠ "" ∨ text₁ = "" ∨ env.parseDuration text₁ = some 0 := by
  by_cases htext₂ : text₂ = ""
  · by_cases htext₁ : text₁ = ""
    · simp [htext₁]
    · obtain ⟨d, hd⟩ := h₁.resolve_left htext₁
      simp [htext₁, htext₂, hd]
  · obtain ⟨d, hd⟩ := h₂.resolve_left htext₂
    simp [htext₂, hd]

theorem letters_reset_iff {path₁ path₂ : String} :
    ((if path₂ = "" then (if path₁ = "" then none else some ({ path := path₁ } : StoreRef)).map StoreRef.close
        else some { path := path₂ }) =
      if path₂ = "" then none else some { path := path₂ }) ↔ path₂ ≠ "" ∨ path₁ = "" := by
  by_cases hpath₂ : path₂ = ""
  · by_cases hpath₁ : path₁ = ""
    · simp [hpath₂]
    · simp [hpath₂]
  · simp [hpath₂]

theorem applyBuffer_on {b : BufferConfig} {s : EngineSettings} (hon : On b) (hopens : env.bufferOpens b.path = true) :
    (applyBuffer env b s).offlineBuffer =
      some { dir := b.path, maxEntries := positive b.maxSize defaultOfflineBufferMaxEntries } := by
  rw [applyBuffer, if_pos ⟨hon.1, hon.2, hopens⟩]

theorem applyBuffer_off {b : BufferConfig} {s : EngineSettings} (hoff : ¬ On b) :
    (applyBuffer env b s).offlineBuffer = s.offlineBuffer := by
  rw [applyBuffer, if_neg fun h => hoff ⟨h.1, h.2.1⟩]

theorem buffer_reset_iff {b₁ b₂ : BufferConfig} (h₁ : On b₁ → env.bufferOpens b₁.path = true)
    (h₂ : On b₂ → env.bufferOpens b₂.path = true) {s s' : EngineSettings} (hs : s.offlineBuffer = none)
    (hs' : s'.offlineBuffer = (applyBuffer env b₁ s).offlineBuffer) :
    (applyBuffer env b₂ s').offlineBuffer = (applyBuffer env b₂ s).offlineBuffer ↔ On b₂ ∨ ¬ On b₁ := by
  by_cases hon₂ : On b₂
  · rw [applyBuffer_on hon₂ (h₂ hon₂), applyBuffer_on hon₂ (h₂ hon₂)]
    exact ⟨fun _ => .inl hon₂, fun _ => rfl⟩
  · rw [applyBuffer_off hon₂, applyBuffer_off hon₂, hs, hs']
    by_cases hon₁ : On b₁
    · rw [applyBuffer_on hon₁ (h₁ hon₁)]
      simp [hon₁, hon₂]
    · rw [applyBuffer_off hon₁, hs]
      exact ⟨fun _ => .inr hon₁, fun _ => rfl⟩

theorem accepted_of_start {cfg : GlobalConfig} {s : EngineSettings} (h : (start env cfg s).2 = none) :
    (cfg.engine.onBadQuality = "" ∨ ∃ policy, parseBadQualityPolicy cfg.engine.onBadQuality = .ok policy) ∧
      (cfg.engine.writeMinInterval = "" ∨ ∃ d, env.parseDuration cfg.engine.writeMinInterval = some d) := by
  obtain ⟨happly, -⟩ := Outcome.of_andThen_none h
  obtain ⟨hpolicy, hwrites⟩ := Outcome.of_andThen_none happly
  obtain ⟨hstores, -⟩ := Outcome.of_andThen_none hwrites
  obtain ⟨hpacing, -⟩ := Outcome.of_andThen_none hstores
  constructor
  · by_contra hnone
    rw [not_or] at hnone
    unfold applyBadQualityPolicy at hpolicy
    rw [if_neg hnone.1] at hpolicy
    cases hparse : parseBadQualityPolicy cfg.engine.onBadQuality with
    | error err => simp only [hparse] at hpolicy; exact absurd hpolicy nofun
    | ok policy => exact hnone.2 ⟨policy, hparse⟩
  · by_contra hnone
    rw [not_or] at hnone
    unfold applyPacing at hpacing
    rw [if_neg hnone.1] at hpacing
    cases hparse : env.parseDuration cfg.engine.writeMinInterval with
    | none => simp only [hparse] at hpacing; exact absurd hpacing nofun
    | some d => exact hnone.2 ⟨d, hparse⟩

end

/-- **A reload has the settings of a fresh start exactly if every value that the first configuration sets to something
else than the default is in the second one.** Both configurations start, and their offline buffers open. -/
theorem reload_fresh_iff (env : Env) (c₁ c₂ : GlobalConfig) (h₁ : (start env c₁ (new env)).2 = none)
    (h₂ : (start env c₂ (new env)).2 = none) (hb₁ : On c₁.buffer → env.bufferOpens c₁.buffer.path = true)
    (hb₂ : On c₂.buffer → env.bufferOpens c₂.buffer.path = true) :
    reload env c₂ (start env c₁ (new env)).1 = start env c₂ (new env) ↔ Reset env c₁ c₂ := by
  have hnew : 0 < (new env).commandConcurrency := show (0 : ℤ) < 16 by decide
  have hstop : 0 < (stop (applied env c₁ (new env))).commandConcurrency := positive_pos hnew
  obtain ⟨hpolicy₁, hpacing₁⟩ := accepted_of_start h₁
  obtain ⟨hpolicy₂, hpacing₂⟩ := accepted_of_start h₂
  have hbuffer := @buffer_reset_iff env c₁.buffer c₂.buffer hb₁ hb₂ (new env) (stop (applied env c₁ (new env))) rfl rfl
  rw [reload, start_eq h₁ hnew, start_eq h₂ hstop, start_eq h₂ hnew, Prod.mk.injEq, and_iff_left rfl, applied, applied,
    EngineSettings.mk.injEq, reset_iff]
  -- setting by setting; the audit trail is set by every start
  exact and_congr positive_reset_iff (and_congr positive_reset_iff (and_congr positive_reset_iff
    (and_congr duration_reset_iff (and_congr duration_reset_iff (and_congr duration_reset_iff
    (and_congr duration_reset_iff (and_congr (policy_reset_iff hpolicy₁ hpolicy₂) (and_congr duration_reset_iff
    (and_congr positive_reset_iff (and_congr positive_reset_iff (and_congr (pacing_reset_iff hpacing₁ hpacing₂)
    (and_congr letters_reset_iff ((and_iff_right rfl).trans hbuffer)))))))))))))

/-- Durations in whole seconds, such as `5s`; every store opens. -/
def siteEnv : Env where
  numCPU := 4
  parseDuration text := if text = "5s" then some (5 * second) else none
  opens _ := true
  bufferOpens _ := true

/-- The second configuration changes what the first one sets. -/
theorem reload_fresh_iff_changed :
    reload siteEnv { engine := { workers := 2 } } (start siteEnv { engine := { workers := 8 } } (new siteEnv)).1 =
      start siteEnv { engine := { workers := 2 } } (new siteEnv) := by
  refine (reload_fresh_iff siteEnv { engine := { workers := 8 } } { engine := { workers := 2 } } rfl rfl nofun
    nofun).mpr ?_
  have hunset : ∀ default, DurationReset siteEnv default "" "" := fun default => .inr fun d hd => by
    simp [siteEnv] at hd
  exact
    { dataBusSize := .inr (.inl le_rfl)
      workers := .inl (by decide)
      highPriorityWorkers := .inr (.inl le_rfl)
      alertActiveWindow := hunset _
      errorThrottleWindow := hunset _
      defaultTagInterval := hunset _
      staleThreshold := hunset _
      onBadQuality := .inr (.inl (by decide))
      shutdownTimeout := hunset _
      writeRetryCount := .inr (.inl le_rfl)
      commandConcurrency := .inr (.inl le_rfl)
      writeMinInterval := .inr (.inl rfl)
      deadLetterPath := .inr rfl
      buffer := .inr fun h => absurd h.1 nofun }

/-- **A pacing interval that the second configuration leaves out stays in force.** -/
theorem pacing_survives_reload :
    (reload siteEnv {} (start siteEnv { engine := { writeMinInterval := "5s" } } (new siteEnv)).1).1.writeMinInterval =
        5 * second ∧
      (start siteEnv {} (new siteEnv)).1.writeMinInterval = 0 := by
  decide

end CoreC.Engine.Settings
