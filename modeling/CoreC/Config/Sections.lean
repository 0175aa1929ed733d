import CoreC.Config.Validate
import CoreC.Lib.GoText

/-! # Validating the whole configuration

`validate` with the sections in the order of the source. The loops over drivers, transports, rules and
derived tags are one loop (`validateEach`) that hands the names seen so far from entry to entry. -/

namespace CoreC.Config.Sections

open Core.Types Config.Validate Lib.GoText Lib.Yaml

/-- The errors of `validate`. -/
inductive ConfigError where
  | bufferPath
  | bufferMaxSize (maxSize : ℤ)
  | invalidDuration (field value : String)
  | notPositive (field value : String)
  | onBadQuality (value : String)
  | driver (e : DriverError)
  | secretRequired
  | secretTooShort (length : ℕ)
  | transportNameEmpty
  | duplicateTransport (transport : String)
  | transportTypeEmpty (transport : String)
  | unknownTransportType (transport type : String) (registered : List String)
  | misplacedField (transport field : String)
  | driverSettings (driver : String)
  | transportSettings (transport : String)
  | ruleNameEmpty
  | duplicateRule (rule : String)
  | actionEmpty (rule : String)
  | unknownAction (rule action : String)
  | matchEmpty (rule : String)
  | dropContinue (rule : String)
  | targetNotFound (rule target : String)
  | derivedNameEmpty
  | duplicateDerived (tag : String)
  | derivedExprEmpty (tag : String)
  | derivedIntervalEmpty (tag : String)
  deriving DecidableEq, Repr

/-- The registered types of drivers and transports, and what the `ValidateSettings` of a type accepts
(everything, for a type without one). -/
structure Registry where
  drivers : List String
  transports : List String
  driverSettings : String → GoMap → Bool
  transportSettings : String → GoMap → Bool

/-- `strings.ToLower`, for comparison with an ASCII text. -/
def toLower (s : String) : String := String.ofList (s.toList.map lowerRune)

def validateEach {ε α : Type} (f : List String → α → Except ε (List String)) :
    List String → List α → Except ε (List String)
  | names, [] => .ok names
  | names, x :: xs => do
    let names ← f names x
    validateEach f names xs

section

variable (parseDuration : String → Option ℤ) (reg : Registry)

def validateBuffer (b : BufferConfig) : Except ConfigError Unit :=
  if b.enabled then do
    check (b.path ≠ "") .bufferPath
    check (¬ (0 < b.maxSize ∧ b.maxSize < 10)) (.bufferMaxSize b.maxSize)
  else .ok ()

def engineDurations (e : EngineConfig) : List (String × String) :=
  [("engine.default-tag-interval", e.defaultTagInterval), ("engine.shutdown-timeout", e.shutdownTimeout),
    ("engine.error-throttle-window", e.errorThrottleWindow),
    ("engine.stale-threshold", e.staleThreshold),
    ("engine.write-min-interval", e.writeMinInterval),
    ("engine.alert-active-window", e.alertActiveWindow)]

def validateDuration (field value : String) : Except ConfigError Unit :=
  if value = "" then .ok ()
  else
    match parseDuration value with
    | none => .error (.invalidDuration field value)
    | some d => check (0 < d) (.notPositive field value)

def validateDurations : List (String × String) → Except ConfigError Unit
  | [] => .ok ()
  | (field, value) :: fields => do
    validateDuration parseDuration field value
    validateDurations fields

def validateEngine (e : EngineConfig) : Except ConfigError Unit := do
  validateDurations parseDuration (engineDurations e)
  check (toLower e.onBadQuality ∈ ["", "publish", "drop", "mark-and-publish", "alert"]) (.onBadQuality e.onBadQuality)

def validateDrivers (drivers : List DriverConfig) : Except ConfigError (List String) :=
  validateEach (fun names d => (validateDriver parseDuration names reg.drivers d).mapError .driver) [] drivers

def validateAPI (api : APIConfig) : Except ConfigError Unit :=
  if api.listen = "" then .ok ()
  else do
    check (api.secret ≠ "") .secretRequired
    check (8 ≤ api.secret.utf8ByteSize) (.secretTooShort api.secret.utf8ByteSize)

/-- The keys that belong beside `settings`. -/
def misplacedKeys : List String :=
  ["batch-size", "batch_size", "flush-interval", "flush_interval", "retry-count", "retry_count",
    "buffer-size", "buffer_size", "fallback"]

/-- The body of the loop of `validateTransports`. -/
def validateTransport (names : List String) (t : TransportConfig) :
    Except ConfigError (List String) := do
  check (t.name ≠ "") .transportNameEmpty
  check (t.name ∉ names) (.duplicateTransport t.name)
  check (t.type ≠ "") (.transportTypeEmpty t.name)
  check (reg.transports = [] ∨ t.type ∈ reg.transports) (.unknownTransportType t.name t.type reg.transports)
  match misplacedKeys.find? fun key => (t.settings.lookup key).isSome with
  | some key => .error (.misplacedField t.name key)
  | none => return t.name :: names

def validateTransports (transports : List TransportConfig) : Except ConfigError (List String) :=
  validateEach (validateTransport reg) [] transports

/-- `validateDriverSettings`; no validator can tell one NaN from another. -/
def validateDriverSettings : List DriverConfig → Except ConfigError Unit
  | [] => .ok ()
  | d :: ds => do
    check (reg.driverSettings d.type (d.settings.restamp 0)) (.driverSettings d.name)
    validateDriverSettings ds

def validateTransportSettings : List TransportConfig → Except ConfigError Unit
  | [] => .ok ()
  | t :: ts => do
    check (reg.transportSettings t.type (t.settings.restamp 0)) (.transportSettings t.name)
    validateTransportSettings ts

def checkedTargets (r : RuleConfig) : List String :=
  (if r.target = "" then [] else [r.target]) ++ r.targets

/-- The body of the loop of `validateRules`. -/
def validateRule (transportNames names : List String) (r : RuleConfig) :
    Except ConfigError (List String) := do
  check (r.name ≠ "") .ruleNameEmpty
  check (r.name ∉ names) (.duplicateRule r.name)
  check (r.action ≠ "") (.actionEmpty r.name)
  check (toLower r.action ∈ ["forward", "drop", "alert", "transform", "mirror"]) (.unknownAction r.name r.action)
  check (r.match_ ≠ "") (.matchEmpty r.name)
  check (¬ (equalFold r.action.toList "drop".toList ∧ r.continue_)) (.dropContinue r.name)
  match (checkedTargets r).find? fun t => t ∉ transportNames with
  | some t => .error (.targetNotFound r.name t)
  | none => return r.name :: names

def validateRules (transportNames : List String) (rules : List RuleConfig) :
    Except ConfigError (List String) :=
  validateEach (validateRule transportNames) [] rules

/-- The body of the loop of `validateDerivedTags`. -/
def validateDerivedTag (names : List String) (t : DerivedTagConfig) :
    Except ConfigError (List String) := do
  check (trimSpace t.name.toList ≠ []) .derivedNameEmpty
  check (t.name ∉ names) (.duplicateDerived t.name)
  check (trimSpace t.expr.toList ≠ []) (.derivedExprEmpty t.name)
  check (trimSpace t.interval.toList ≠ []) (.derivedIntervalEmpty t.name)
  return t.name :: names

def validateDerivedTags (tags : List DerivedTagConfig) : Except ConfigError (List String) :=
  validateEach validateDerivedTag [] tags

def validate (cfg : FullConfig) : Except ConfigError Unit := do
  validateBuffer cfg.global.buffer
  validateEngine parseDuration cfg.global.engine
  -- `validateDataSources` accepts everything
  let _ ← validateDrivers parseDuration reg cfg.drivers
  validateAPI cfg.global.api
  let transportNames ← validateTransports reg cfg.transports
  validateDriverSettings reg cfg.drivers
  validateTransportSettings reg cfg.transports
  let _ ← validateRules transportNames cfg.rules
  let _ ← validateDerivedTags cfg.derivedTags
  return ()

end

/-! ### What is accepted -/

variable {parseDuration : String → Option ℤ} {reg : Registry} {names r : List String} {α ε : Type}
  {f : List String → α → Except ε (List String)}

structure Accepted (parseDuration : String → Option ℤ) (reg : Registry) (cfg : FullConfig) : Prop where
  buffer : validateBuffer cfg.global.buffer = .ok ()
  engine : validateEngine parseDuration cfg.global.engine = .ok ()
  drivers : ∃ r, validateDrivers parseDuration reg cfg.drivers = .ok r
  api : validateAPI cfg.global.api = .ok ()
  driverSettings : validateDriverSettings reg cfg.drivers = .ok ()
  transportSettings : validateTransportSettings reg cfg.transports = .ok ()
  rules : ∃ names r, validateTransports reg cfg.transports = .ok names ∧ validateRules names cfg.rules = .ok r
  derivedTags : ∃ r, validateDerivedTags cfg.derivedTags = .ok r

/-- **A configuration is accepted if and only if every section is.** -/
theorem validate_ok_iff {cfg : FullConfig} :
    validate parseDuration reg cfg = .ok () ↔ Accepted parseDuration reg cfg := by
  unfold validate
  simp only [bind_ok]
  constructor
  · rintro ⟨⟨⟩, h1, ⟨⟩, h2, r3, h3, ⟨⟩, h4, names, h5, ⟨⟩, h6, ⟨⟩, h7, r8, h8, r9, h9, -⟩
    exact ⟨h1, h2, ⟨r3, h3⟩, h4, h6, h7, ⟨names, r8, h5, h8⟩, ⟨r9, h9⟩⟩
  · rintro ⟨h1, h2, ⟨r3, h3⟩, h4, h6, h7, ⟨names, r8, h5, h8⟩, ⟨r9, h9⟩⟩
    exact ⟨_, h1, _, h2, r3, h3, _, h4, names, h5, _, h6, _, h7, r8, h8, r9, h9, rfl⟩

theorem validateEach_names {nameOf : α → String}
    (hf : ∀ names x r, f names x = .ok r → nameOf x ∉ names ∧ r = nameOf x :: names) :
    ∀ {xs : List α} {names r : List String}, names.Nodup → validateEach f names xs = .ok r →
      r = (xs.map nameOf).reverse ++ names ∧ r.Nodup
  | [], names, r, hnd, h => by
    cases h
    exact ⟨by simp, hnd⟩
  | x :: xs, names, r, hnd, h => by
    unfold validateEach at h
    obtain ⟨names', hx, hxs⟩ := bind_ok.mp h
    obtain ⟨hnew, rfl⟩ := hf names x names' hx
    obtain ⟨hr, hrnd⟩ := validateEach_names hf (List.nodup_cons.mpr ⟨hnew, hnd⟩) hxs
    exact ⟨by simp [hr], hrnd⟩

theorem nodup_of_validateEach {nameOf : α → String}
    (hf : ∀ names x r, f names x = .ok r → nameOf x ∉ names ∧ r = nameOf x :: names) {xs : List α}
    (h : validateEach f [] xs = .ok r) : (xs.map nameOf).Nodup := by
  obtain ⟨rfl, hnd⟩ := validateEach_names hf List.nodup_nil h
  simpa using hnd

theorem validateDriver_name {registered : List String} {d : DriverConfig}
    (h : validateDriver parseDuration names registered d = .ok r) :
    d.name ∉ names ∧ r = d.name :: names := by
  unfold validateDriver at h
  simp only [check_bind_ok, decide_eq_true_eq] at h
  obtain ⟨-, hnew, -, -, -, h⟩ := h
  obtain ⟨tagNames, -, h⟩ := bind_ok.mp h
  obtain ⟨⟨⟩, -, h⟩ := bind_ok.mp h
  cases h
  exact ⟨hnew, rfl⟩

theorem mapError_ok {ε' : Type} {g : ε → ε'} {x : Except ε α} {a : α} : x.mapError g = .ok a ↔ x = .ok a := by
  cases x <;> simp [Except.mapError]

theorem forall_of_validateEach :
    ∀ {xs : List α} {names r : List String}, validateEach f names xs = .ok r → ∀ x ∈ xs, ∃ names r, f names x = .ok r
  | [], _, _, _ => nofun
  | x :: xs, names, r, h => by
    unfold validateEach at h
    obtain ⟨names', hx, hxs⟩ := bind_ok.mp h
    exact List.forall_mem_cons.mpr ⟨⟨names, names', hx⟩, forall_of_validateEach hxs⟩

theorem validateTransport_name {t : TransportConfig}
    (h : validateTransport reg names t = .ok r) : t.name ∉ names ∧ r = t.name :: names := by
  unfold validateTransport at h
  simp only [check_bind_ok, decide_eq_true_eq] at h
  obtain ⟨-, hnew, -, -, h⟩ := h
  split at h
  · cases h
  · cases h
    exact ⟨hnew, rfl⟩

theorem validateRule_name {transportNames : List String} {rule : RuleConfig}
    (h : validateRule transportNames names rule = .ok r) :
    rule.name ∉ names ∧ r = rule.name :: names := by
  unfold validateRule at h
  simp only [check_bind_ok, decide_eq_true_eq] at h
  obtain ⟨-, hnew, -, -, -, -, h⟩ := h
  split at h
  · cases h
  · cases h
    exact ⟨hnew, rfl⟩

theorem validateDerivedTag_name {t : DerivedTagConfig}
    (h : validateDerivedTag names t = .ok r) : t.name ∉ names ∧ r = t.name :: names := by
  unfold validateDerivedTag at h
  simp only [check_bind_ok, decide_eq_true_eq] at h
  obtain ⟨-, hnew, -, -, h⟩ := h
  cases h
  exact ⟨hnew, rfl⟩

/-- **The names of an accepted configuration are distinct.** -/
theorem validate_names {cfg : FullConfig} (h : Accepted parseDuration reg cfg) :
    (cfg.drivers.map DriverConfig.name).Nodup ∧ (cfg.transports.map TransportConfig.name).Nodup ∧
      (cfg.rules.map RuleConfig.name).Nodup := by
  obtain ⟨r, hd⟩ := h.drivers
  obtain ⟨names, r', ht, hr⟩ := h.rules
  refine ⟨?_, ?_, ?_⟩
  · exact nodup_of_validateEach (fun _ _ _ h => validateDriver_name (mapError_ok.mp h)) hd
  · exact nodup_of_validateEach (fun _ _ _ h => validateTransport_name h) ht
  · exact nodup_of_validateEach (fun _ _ _ h => validateRule_name h) hr

end CoreC.Config.Sections
