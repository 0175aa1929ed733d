import CoreC.Config.Export
import CoreC.Executor.Remove
import CoreC.Executor.Startup
import CoreC.Lib.Runs

/-! # The active configuration

Three kinds of calls write `currentCfg` (`hub/executor/executor.go`): a reload replaces it by a configuration
that was validated, a patch writes single values into it, and the removal of a resource cuts an entry out of a copy
that shares its lists and reloads the result. -/

namespace CoreC.Executor.Active

open Core.Types Lib.Yaml Lib.Yaml.Decode Lib.GoSlice Lib.Runs Config.Validate Option
  Config.Parse Config.Sections Config.Export Executor.Apply Rules.Build
open Executor.Diff (registryOf configMap)
open Executor.Remove (Hub SliceConfig Memory ConfigAuditEntry Origin RemoveError configAuditCap recordConfigAudit
  removalEntry reloadPayload removeNamed removeNamedDriver removeNamedTransport removeNamedRule parse_read
  reloadPayload_cases cut_cases valid_removeNamed)
open Executor.Startup (restamp)

/-! ### The state -/

structure Rest where
  node : NodeConfig := {}
  global : GlobalConfig := {}
  ruleProviders : List RuleProviderConfig := []
  ruleGroups : Dict (List RuleConfig) := ∅

def Rest.full (r : Rest) (cfg : Config) : FullConfig :=
  { toConfig := cfg, node := r.node, global := r.global, ruleProviders := r.ruleProviders, ruleGroups := r.ruleGroups }

def restOf (cfg : FullConfig) : Rest := ⟨cfg.node, cfg.global, cfg.ruleProviders, cfg.ruleGroups⟩

/-- The level and the format of the package `log`. -/
structure Logger where
  level : ℤ := 0
  format : String := "text"

/-- The executor with its engine: the lists of `currentCfg`, its other sections, the number of parses so far, the
stale threshold of the engine, and the logger. -/
structure ActiveState where
  hub : Hub
  rest : Rest
  parses : ℕ := 0
  staleThreshold : ℤ := 0
  logger : Logger := {}

def ActiveState.currentCfg (x : ActiveState) : Option FullConfig :=
  x.hub.currentCfg.map fun c => x.rest.full (c.read x.hub.mem)

inductive CallError where
  | unreadable
  | parse (e : ParseError)
  | resource (e : RemoveError)
  | unknownKeys (keys : List String)
  | notString (key : String)
  | invalidLogFormat (format : String)
  | emptyThreshold
  | invalidThreshold (text : String)
  | invalidLogLevel (level : String)
  deriving DecidableEq

/-! ### Patching -/

/-- The body of a `PATCH` request: the values of the supported keys, and the other keys. -/
structure PatchBody where
  logFormat : Option GoValue := none
  staleThreshold : Option GoValue := none
  logLevel : Option GoValue := none
  unknownKeys : List String := []

/-- A value is written into `currentCfg`, if there is one. -/
def setGlobal (f : GlobalConfig → GlobalConfig) (x : ActiveState) : ActiveState :=
  if x.hub.currentCfg.isSome then { x with rest := { x.rest with global := f x.rest.global } } else x

def auditPatch (key : String) (origin : Origin) (x : ActiveState) : ActiveState :=
  { x with hub := { x.hub with
      audit := recordConfigAudit x.hub.audit ⟨origin.clock [key], "patch", origin.remote, [key], ""⟩ } }

def applyPatchLogFormat (origin : Origin) (raw : GoValue) (x : ActiveState) : ActiveState × Option CallError :=
  match raw with
  | .string format =>
    if format ∉ ["", "text", "json"] then (x, some (.invalidLogFormat format))
    else if format = "" then (x, none)
    else
      (auditPatch "log-format" origin (setGlobal (fun g => { g with logFormat := format })
        { x with logger := { x.logger with format } }), none)
  | _ => (x, some (.notString "log-format"))

/-- `log.ParseLevel`, the levels of `log/slog` as numbers. -/
def parseLevel : String → Option ℤ
  | "debug" => some (-4)
  | "info" => some 0
  | "warn" | "warning" => some 4
  | "error" => some 8
  | "silent" => some 18
  | _ => none

def applyPatchLogLevel (origin : Origin) (raw : GoValue) (x : ActiveState) : ActiveState × Option CallError :=
  match raw with
  | .string level =>
    if level = "" then (x, none)
    else
      match parseLevel level with
      | none => (x, some (.invalidLogLevel level))
      | some l =>
        (auditPatch "log-level" origin (setGlobal (fun g => { g with logLevel := level })
          { x with logger := { x.logger with level := l } }), none)
  | _ => (x, some (.notString "log-level"))

def patchKey (f : GoValue → ActiveState → ActiveState × Option CallError) (raw : Option GoValue) (x : ActiveState) :
    ActiveState × Option CallError :=
  match raw with
  | none => (x, none)
  | some raw => f raw x

section

variable (parseDuration : String → Option ℤ)

/-- `applyPatchStaleThreshold`; `CoreCEngine` is a `core.StaleThresholdPatcher`, so the error for other engines is left
out. -/
def applyPatchStaleThreshold (origin : Origin) (raw : GoValue) (x : ActiveState) : ActiveState × Option CallError :=
  match raw with
  | .string text =>
    if text = "" then (x, some .emptyThreshold)
    else
      match parseDuration text with
      | none => (x, some (.invalidThreshold text))
      | some d =>
        (auditPatch "stale-threshold" origin
          (setGlobal (fun g => { g with engine := { g.engine with staleThreshold := text } })
            { x with staleThreshold := max 0 d }), none)
  | _ => (x, some (.notString "stale-threshold"))

/-- `PatchWithOrigin`: what was written before an error stays. -/
def patchWithOrigin (p : PatchBody) (origin : Origin) (x : ActiveState) : ActiveState × Option CallError :=
  if p.unknownKeys ≠ [] then (x, some (.unknownKeys p.unknownKeys))
  else
    match patchKey (applyPatchLogFormat origin) p.logFormat x with
    | (x, some e) => (x, some e)
    | (x, none) =>
      match patchKey (applyPatchStaleThreshold parseDuration origin) p.staleThreshold x with
      | (x, some e) => (x, some e)
      | (x, none) => patchKey (applyPatchLogLevel origin) p.logLevel x

end

/-! ### Reloading and removing -/

/-- What a call meets: the files and the environment, the answers of the engine, the orders of its maps. -/
structure Surroundings (T : Type) where
  world : World T
  fails : Op → Bool := fun _ => false
  rollbackFails : Op → Bool := fun _ => false
  ord : Orders

section

variable {T : Type} (env : BuildEnv) (c : Conv) (lib : YamlText T) (parseDuration : String → Option ℤ)
  (reg : Registry) (around : Surroundings T)

def accepts (cfg : FullConfig) : Bool :=
  match validate parseDuration reg cfg with
  | .ok () => true
  | .error _ => false

/-- `ReloadWithOrigin`, from the text of the payload or the file; `none` if the path is refused or the file cannot be
read. `keys` are those of the audit entry. -/
def reloadWithOrigin (text : Option T) (keys : List String) (origin : Origin) (x : ActiveState) :
    ActiveState × Option CallError :=
  match text with
  | none => (x, some .unreadable)
  | some text =>
    match parseNoValidate around.world c lib text with
    | .error e => (x, some (.parse e))
    | .ok parsed =>
      let cfg := restamp x.parses parsed
      match reloadPayload env around.fails around.rollbackFails (fun _ => accepts parseDuration reg cfg) around.ord
          cfg.toConfig origin x.hub with
      | (hub, some e) => ({ x with hub := hub, parses := x.parses + 1 }, some (.resource e))
      | (hub, none) =>
        ({ x with
            hub := { hub with
              audit := recordConfigAudit x.hub.audit ⟨origin.clock keys, "reload", origin.remote, keys, ""⟩ }
            rest := restOf cfg
            parses := x.parses + 1 }, none)

variable (x : ActiveState)

def snapshotText (mem : Memory) (clone : SliceConfig) : T :=
  rawConfigYAML c lib (x.rest.full (clone.read mem))

/-- `removeResource`: the copy is cut, written out and reloaded. -/
def removeResource (kind name : String) (origin : Origin) (drop : Memory → SliceConfig → Option (Memory × SliceConfig))
    (x : ActiveState) : ActiveState × Option CallError :=
  match x.hub.currentCfg with
  | none => (x, some (.resource .noActiveConfig))
  | some sc =>
    match drop x.hub.mem sc with
    | none => (x, some (.resource .notFound))
    | some (mem, clone) =>
      match reloadWithOrigin env c lib parseDuration reg around (some (snapshotText c lib x mem clone)) ["payload"]
          origin { x with hub := { x.hub with mem } } with
      | (x, some e) => (x, some e)
      | (x, none) =>
        ({ x with hub := { x.hub with
            audit := recordConfigAudit x.hub.audit (removalEntry kind name origin) } }, none)

/-- A kind of resource with a `DELETE` endpoint. -/
inductive Kind where
  | driver | transport | rule
  deriving DecidableEq, Repr

def Kind.word : Kind → String
  | .driver => "driver"
  | .transport => "transport"
  | .rule => "rule"

def Kind.names : Kind → Config → List String
  | .driver, cfg => cfg.drivers.map DriverConfig.name
  | .transport, cfg => cfg.transports.map TransportConfig.name
  | .rule, cfg => cfg.rules.map RuleConfig.name

/-- `removeNamedDriver`, `removeNamedTransport`, `removeNamedRule`. -/
def Kind.drop : Kind → String → Memory → SliceConfig → Option (Memory × SliceConfig)
  | .driver => removeNamedDriver
  | .transport => removeNamedTransport
  | .rule => removeNamedRule

/-- The requests; `remove` is `RemoveDriverByName`, `RemoveTransportByName` or `RemoveRuleByName`. -/
inductive Request (T : Type) where
  | reload (text : Option T) (keys : List String) (origin : Origin)
  | patch (body : PatchBody) (origin : Origin)
  | remove (kind : Kind) (name : String) (origin : Origin)

def call (request : Request T) (x : ActiveState) : ActiveState × Option CallError :=
  match request with
  | .reload text keys origin => reloadWithOrigin env c lib parseDuration reg around text keys origin x
  | .patch body origin => patchWithOrigin parseDuration body origin x
  | .remove kind name origin =>
    removeResource env c lib parseDuration reg around kind.word name origin (kind.drop name) x

def step (a : Surroundings T × Request T) : Option ActiveState :=
  some (call env c lib parseDuration reg a.1 a.2 x).1

/-- `currentCfg` passes `config.Validate`. -/
def Valid : Prop := ∀ cfg, x.currentCfg = some cfg → validate parseDuration reg cfg = .ok ()

def Reloads (text : T) (x : ActiveState) : Prop :=
  ∃ parsed, parseNoValidate around.world c lib text = .ok parsed ∧
    validate parseDuration reg (restamp x.parses parsed) = .ok () ∧
    (applyConfig env around.fails around.rollbackFails around.ord (restamp x.parses parsed).toConfig false
      x.hub.state).2 = none

def formatAccepted : Option GoValue → Bool
  | none => true
  | some (.string format) => format ∈ ["", "text", "json"]
  | some _ => false

def thresholdText : Option GoValue → Option String
  | some (.string text) => if text ≠ "" ∧ (parseDuration text).isSome then some text else none
  | _ => none

/-- The stale threshold that a patch stores. -/
def storedThreshold (p : PatchBody) : Option String :=
  if p.unknownKeys = [] ∧ formatAccepted p.logFormat then thresholdText parseDuration p.staleThreshold else none

/-- The calls that keep the active configuration valid: a reload; a patch whose stale threshold is positive; the
removal of a resource that is not there, is the last of its list, or is reloaded successfully. -/
def KeepsValid (a : Surroundings T × Request T) : Prop :=
  match a.2 with
  | .reload _ _ _ => True
  | .patch body _ => ∀ text d, storedThreshold parseDuration body = some text → parseDuration text = some d → 0 < d
  | .remove kind name _ => ∀ sc, x.hub.currentCfg = some sc → ∀ mem clone,
    kind.drop name x.hub.mem sc = some (mem, clone) → (kind.names (sc.read x.hub.mem)).getLast? = some name ∨
        Reloads env c lib parseDuration reg a.1 (snapshotText c lib x mem clone) { x with hub := { x.hub with mem } }

end

/-! ### What is validated -/

section

variable {T : Type} {env : BuildEnv} {c : Conv} {lib : YamlText T} {parseDuration : String → Option ℤ}
  {reg : Registry} {around : Surroundings T} {x x' x'' : ActiveState} {mem : Memory} {sc : SliceConfig}

variable {cfg : FullConfig}

theorem accepts_iff :
    accepts parseDuration reg cfg = true ↔ validate parseDuration reg cfg = .ok () := by
  unfold accepts
  split
  · next h => exact ⟨fun _ => h, fun _ => rfl⟩
  · next h => exact ⟨nofun, fun hok => by rw [hok] at h; cases h⟩

structure SlicesOk (m : Memory) (sc : SliceConfig) : Prop extends sc.Valid m where
  rules : sc.rules.Valid m.rules

/-- There is a configuration, in valid slices. -/
def Held (x : ActiveState) : Prop := ∃ sc, x.hub.currentCfg = some sc ∧ SlicesOk x.hub.mem sc

theorem valid_iff (hsc : x.hub.currentCfg = some sc) :
    Valid parseDuration reg x ↔ validate parseDuration reg (x.rest.full (sc.read x.hub.mem)) = .ok () := by
  have hcfg : x.currentCfg = some (x.rest.full (sc.read x.hub.mem)) := by
    rw [ActiveState.currentCfg, hsc, map_some]
  constructor
  · exact fun h => h _ hcfg
  · intro h cfg hcfg'
    rw [hcfg] at hcfg'
    cases hcfg'
    exact h

/-- The lists and everything else of `currentCfg` are as before. -/
structure Same (x x' : ActiveState) : Prop where
  mem : x'.hub.mem = x.hub.mem
  currentCfg : x'.hub.currentCfg = x.hub.currentCfg
  rest : x'.rest = x.rest

/-! ### Reloading -/

/-- **A reload succeeds and the new configuration is valid, or it leaves `currentCfg` alone.** -/
theorem reload_spec (text : Option T) (keys : List String) (origin : Origin) (x : ActiveState) :
    (∃ x', reloadWithOrigin env c lib parseDuration reg around text keys origin x = (x', none) ∧
      (∃ t, text = some t ∧ Reloads env c lib parseDuration reg around t x) ∧ Valid parseDuration reg x' ∧ Held x') ∨
    ∃ x' e, reloadWithOrigin env c lib parseDuration reg around text keys origin x = (x', some e) ∧
      (∀ t, text = some t → ¬ Reloads env c lib parseDuration reg around t x) ∧ Same x x' := by
  unfold reloadWithOrigin
  cases text with
  | none => exact .inr ⟨_, _, rfl, nofun, rfl, rfl, rfl⟩
  | some t =>
    cases hparse : parseNoValidate around.world c lib t with
    | error e =>
      simp only [hparse]
      refine .inr ⟨_, _, rfl, ?_, rfl, rfl, rfl⟩
      rintro _ ht ⟨parsed, hparsed, -⟩
      cases ht
      rw [hparse] at hparsed
      cases hparsed
    | ok parsed =>
      rcases reloadPayload_cases env around.fails around.rollbackFails
        (fun _ => accepts parseDuration reg (restamp x.parses parsed)) around.ord (restamp x.parses parsed).toConfig
        origin x.hub with ⟨hub, hres, ⟨haccept, happly⟩, hmem, hcur⟩ | ⟨hub, e, hres, hnot, hmem, hcur⟩
      · have hvalid := accepts_iff.mp haccept
        simp only [hparse, hres]
        refine .inl ⟨_, rfl, ⟨t, rfl, parsed, hparse, hvalid, happly⟩, ?_, ?_⟩
        · rw [valid_iff hcur, hmem, parse_read]
          exact hvalid
        · refine ⟨_, hcur, ?_⟩
          rw [hmem]
          exact ⟨⟨valid_alloc _ _, valid_alloc _ _⟩, valid_alloc _ _⟩
      · simp only [hparse, hres]
        refine .inr ⟨_, _, rfl, ?_, hmem, hcur, rfl⟩
        rintro _ ht ⟨parsed', hparsed', hvalid, happly⟩
        cases ht
        rw [hparse] at hparsed'
        cases hparsed'
        exact hnot ⟨accepts_iff.mpr hvalid, happly⟩

/-! ### Patching -/

/-- What `Validate` reads of `currentCfg` is as before. -/
structure SameChecked (x x' : ActiveState) : Prop where
  mem : x'.hub.mem = x.hub.mem
  currentCfg : x'.hub.currentCfg = x.hub.currentCfg
  buffer : x'.rest.global.buffer = x.rest.global.buffer
  engine : x'.rest.global.engine = x.rest.global.engine
  api : x'.rest.global.api = x.rest.global.api

theorem SameChecked.refl (x : ActiveState) : SameChecked x x := ⟨rfl, rfl, rfl, rfl, rfl⟩

theorem SameChecked.trans (h : SameChecked x x') (h' : SameChecked x' x'') : SameChecked x x'' :=
  ⟨h'.mem.trans h.mem, h'.currentCfg.trans h.currentCfg, h'.buffer.trans h.buffer, h'.engine.trans h.engine,
    h'.api.trans h.api⟩

theorem SameChecked.valid_iff (h : SameChecked x x') : Valid parseDuration reg x' ↔ Valid parseDuration reg x := by
  cases hsc : x.hub.currentCfg with
  | none =>
    have hnone : x'.currentCfg = none ∧ x.currentCfg = none := by
      rw [ActiveState.currentCfg, ActiveState.currentCfg, h.currentCfg, hsc]
      exact ⟨rfl, rfl⟩
    rw [Valid, Valid, hnone.1, hnone.2]
  | some sc =>
    rw [Active.valid_iff hsc, Active.valid_iff (h.currentCfg.trans hsc), h.mem]
    simp [validate, Rest.full, h.buffer, h.engine, h.api]

theorem SameChecked.held (h : SameChecked x x') (hx : Held x) : Held x' := by
  obtain ⟨sc, hsc, hok⟩ := hx
  exact ⟨sc, h.currentCfg.trans hsc, h.mem ▸ hok⟩

theorem Same.checked (h : Same x x') : SameChecked x x' :=
  ⟨h.mem, h.currentCfg, by rw [h.rest], by rw [h.rest], by rw [h.rest]⟩

theorem sameChecked_setGlobal {f : GlobalConfig → GlobalConfig} {key : String} {origin : Origin} (x : ActiveState)
    (logger : Logger) (hf : ∀ g, (f g).buffer = g.buffer ∧ (f g).engine = g.engine ∧ (f g).api = g.api) :
    SameChecked x (auditPatch key origin (setGlobal f { x with logger })) := by
  unfold auditPatch setGlobal
  split_ifs
  · obtain ⟨h1, h2, h3⟩ := hf x.rest.global
    exact ⟨rfl, rfl, h1, h2, h3⟩
  · exact ⟨rfl, rfl, rfl, rfl, rfl⟩

variable (origin : Origin)

theorem sameChecked_logFormat (raw : Option GoValue) (x : ActiveState) :
    SameChecked x (patchKey (applyPatchLogFormat origin) raw x).1 := by
  unfold patchKey applyPatchLogFormat
  repeat' split
  all_goals first | exact .refl x | exact sameChecked_setGlobal x _ fun _ => ⟨rfl, rfl, rfl⟩

theorem sameChecked_logLevel (raw : Option GoValue) (x : ActiveState) :
    SameChecked x (patchKey (applyPatchLogLevel origin) raw x).1 := by
  unfold patchKey applyPatchLogLevel
  repeat' split
  all_goals first | exact .refl x | exact sameChecked_setGlobal x _ fun _ => ⟨rfl, rfl, rfl⟩

theorem logFormat_accepted (raw : Option GoValue) (x : ActiveState) :
    (patchKey (applyPatchLogFormat origin) raw x).2 = none ↔ formatAccepted raw = true := by
  unfold patchKey applyPatchLogFormat formatAccepted
  rcases raw with _ | raw
  · simp
  · cases raw with
    | string format => by_cases hformat : format ∈ ["", "text", "json"] <;> by_cases hempty : format = "" <;> simp_all
    | _ => simp

/-- The stale threshold of `currentCfg` is replaced. -/
def withThreshold (text : String) (x : ActiveState) : ActiveState :=
  { x with rest := { x.rest with global := { x.rest.global with
      engine := { x.rest.global.engine with staleThreshold := text } } } }

theorem SameChecked.withThreshold (h : SameChecked x x') (text : String) :
    SameChecked (withThreshold text x) (withThreshold text x') := by
  refine ⟨h.mem, h.currentCfg, h.buffer, ?_, h.api⟩
  change { x'.rest.global.engine with staleThreshold := text } = { x.rest.global.engine with staleThreshold := text }
  rw [h.engine]

/-- **What a patch of the stale threshold does**: nothing, or it stores the text of a duration. -/
theorem threshold_cases (parseDuration : String → Option ℤ) (origin : Origin) (raw : Option GoValue) (x : ActiveState) :
    (thresholdText parseDuration raw = none ∧ (patchKey (applyPatchStaleThreshold parseDuration origin) raw x).1 = x) ∨
    ∃ text d, thresholdText parseDuration raw = some text ∧ text ≠ "" ∧ parseDuration text = some d ∧
      patchKey (applyPatchStaleThreshold parseDuration origin) raw x = (auditPatch "stale-threshold" origin
        (setGlobal (fun g => { g with engine := { g.engine with staleThreshold := text } })
          { x with staleThreshold := max 0 d }), none) := by
  unfold patchKey applyPatchStaleThreshold thresholdText
  rcases raw with _ | raw
  · exact .inl ⟨rfl, rfl⟩
  · cases raw with
    | string text =>
      by_cases htext : text = ""
      · exact .inl ⟨if_neg (fun h => h.1 htext), by simp [htext]⟩
      · cases hd : parseDuration text with
        | none => exact .inl ⟨if_neg (fun h => by simp [hd] at h), by simp [htext, hd]⟩
        | some d => exact .inr ⟨text, d, if_pos ⟨htext, by rw [hd]; rfl⟩, htext, hd, by simp [htext, hd]⟩
    | _ => exact .inl ⟨rfl, rfl⟩

theorem sameChecked_threshold {d : ℤ} {text key : String} (hx : Held x) : SameChecked (withThreshold text x)
    (auditPatch key origin (setGlobal (fun g => { g with engine := { g.engine with staleThreshold := text } })
      { x with staleThreshold := d })) := by
  obtain ⟨sc, hsc, -⟩ := hx
  simp only [auditPatch, setGlobal, hsc, isSome_some, if_true]
  exact ⟨rfl, hsc.symm, rfl, rfl, rfl⟩

theorem patch_cases (parseDuration : String → Option ℤ) (body : PatchBody) (origin : Origin) (hx : Held x) :
    (storedThreshold parseDuration body = none ∧ SameChecked x (patchWithOrigin parseDuration body origin x).1) ∨
    ∃ text d, storedThreshold parseDuration body = some text ∧ text ≠ "" ∧ parseDuration text = some d ∧
      SameChecked (withThreshold text x) (patchWithOrigin parseDuration body origin x).1 := by
  unfold patchWithOrigin storedThreshold
  by_cases hkeys : body.unknownKeys = []
  · have hformat := sameChecked_logFormat origin body.logFormat x
    have haccepted := logFormat_accepted origin body.logFormat x
    rw [if_neg (not_not.mpr hkeys)]
    cases hfirst : patchKey (applyPatchLogFormat origin) body.logFormat x with
    | mk y e =>
      rw [hfirst] at hformat haccepted
      cases e with
      | some e =>
        have hrefused : ¬ formatAccepted body.logFormat = true := fun h => nomatch haccepted.mpr h
        exact .inl ⟨if_neg fun h => hrefused h.2, hformat⟩
      | none =>
        rw [if_pos ⟨hkeys, haccepted.mp rfl⟩]
        have hlevel := sameChecked_logLevel origin body.logLevel
        rcases threshold_cases parseDuration origin body.staleThreshold y with
          ⟨hnone, hkept⟩ | ⟨text, d, htext, hne, hd, hstored⟩
        · refine .inl ⟨hnone, ?_⟩
          dsimp only
          split
          · next hsecond => exact (congrArg Prod.fst hsecond).symm.trans hkept ▸ hformat
          · next z hsecond => exact ((congrArg Prod.fst hsecond).symm.trans hkept ▸ hformat).trans (hlevel z)
        · simp only [hstored]
          exact .inr ⟨text, d, htext, hne, hd,
            ((hformat.withThreshold text).trans (sameChecked_threshold origin (hformat.held hx))).trans (hlevel _)⟩
  · rw [if_pos hkeys]
    exact .inl ⟨if_neg fun h => hkeys h.1, .refl x⟩

theorem validateEngine_threshold {e : EngineConfig} {text : String} {d : ℤ}
    (h : validateEngine parseDuration e = .ok ()) (htext : text ≠ "") (hd : parseDuration text = some d) :
    validateEngine parseDuration { e with staleThreshold := text } = .ok () ↔ 0 < d := by
  unfold validateEngine at h ⊢
  simp only [bind_ok, engineDurations, validateDurations] at h ⊢
  obtain ⟨⟨⟩, ⟨⟨⟩, h1, ⟨⟩, h2, ⟨⟩, h3, ⟨⟩, -, hrest⟩, hquality⟩ := h
  have hthreshold : validateDuration parseDuration "engine.stale-threshold" text = .ok () ↔ 0 < d := by
    by_cases hpos : 0 < d
    · simp [validateDuration, hd, check, hpos]
    · simp [validateDuration, htext, hd, check]
  rw [← hthreshold]
  constructor
  · rintro ⟨⟨⟩, ⟨⟨⟩, -, ⟨⟩, -, ⟨⟩, -, ⟨⟩, h4, -⟩, -⟩
    exact h4
  · intro h4
    exact ⟨(), ⟨(), h1, (), h2, (), h3, (), h4, hrest⟩, hquality⟩

theorem valid_withThreshold {text : String} {d : ℤ} (hvalid : Valid parseDuration reg x) (hx : Held x)
    (htext : text ≠ "") (hd : parseDuration text = some d) :
    Valid parseDuration reg (withThreshold text x) ↔ 0 < d := by
  obtain ⟨sc, hsc, -⟩ := hx
  have hsc' : (withThreshold text x).hub.currentCfg = some sc := hsc
  have hok := validate_ok_iff.mp ((valid_iff hsc).mp hvalid)
  rw [valid_iff hsc', validate_ok_iff, ← validateEngine_threshold hok.engine htext hd]
  constructor
  · exact fun h => h.engine
  · exact fun h => ⟨hok.buffer, h, hok.drivers, hok.api, hok.driverSettings, hok.transportSettings, hok.rules,
      hok.derivedTags⟩

/-- **A patch keeps `currentCfg` valid exactly if the stale threshold that it stores is positive.** -/
theorem patch_valid_iff (body : PatchBody) (origin : Origin) (hvalid : Valid parseDuration reg x) (hx : Held x) :
    Valid parseDuration reg (patchWithOrigin parseDuration body origin x).1 ↔
      ∀ text d, storedThreshold parseDuration body = some text → parseDuration text = some d → 0 < d := by
  rcases patch_cases parseDuration body origin hx with ⟨hnone, hsame⟩ | ⟨text, d, hstored, htext, hd, hsame⟩
  · rw [hsame.valid_iff, hnone]
    exact ⟨fun _ _ _ => nofun, fun _ => hvalid⟩
  · rw [hsame.valid_iff, valid_withThreshold hvalid hx htext hd, hstored]
    constructor
    · intro hpos text' d' htext' hd'
      cases htext'
      rw [hd] at hd'
      cases hd'
      exact hpos
    · exact fun h => h text d rfl hd

theorem patch_held (body : PatchBody) (origin : Origin) (hx : Held x) :
    Held (patchWithOrigin parseDuration body origin x).1 := by
  rcases patch_cases parseDuration body origin hx with ⟨-, hsame⟩ | ⟨text, d, -, -, -, hsame⟩
  · exact hsame.held hx
  · exact hsame.held hx

/-! ### A patch that fails -/

/-- The log format is switched: it is valid and not the empty text, which keeps the current one. -/
def appliesFormat : Option GoValue → Bool
  | some (.string format) => format = "text" ∨ format = "json"
  | _ => false

/-- What a trail of `n` entries is after a call has recorded something. -/
structure Noted (origin : Origin) (n : ℕ) (trail : List ConfigAuditEntry) : Prop where
  length : trail.length = configAuditCap ∨ n < trail.length
  entry : ∃ a ∈ trail, ∃ keys, a.time = origin.clock keys

/-- A full trail has entries of other times only. Other trails grow, so that nothing is asked of them. -/
def Fresh (origin : Origin) (x : ActiveState) : Prop :=
  x.hub.audit.length = configAuditCap → ∀ a ∈ x.hub.audit, ∀ keys, a.time ≠ origin.clock keys

theorem Noted.ne {origin : Origin} (h : Noted origin x.hub.audit.length x'.hub.audit) (hfresh : Fresh origin x) :
    x' ≠ x := by
  rintro rfl
  obtain ⟨a, ha, keys, htime⟩ := h.entry
  have hfull : x'.hub.audit.length = configAuditCap := h.length.resolve_right (lt_irrefl _)
  exact hfresh hfull a ha keys htime

theorem noted_auditPatch {n : ℕ} (key : String) (origin : Origin) (y : ActiveState)
    (hn : y.hub.audit.length = configAuditCap ∨ n ≤ y.hub.audit.length) :
    Noted origin n (auditPatch key origin y).hub.audit := by
  have hcap : 0 < configAuditCap := by decide
  constructor
  · simp only [auditPatch, recordConfigAudit, List.length_drop, List.length_append, List.length_singleton]
    omega
  · refine ⟨⟨origin.clock [key], "patch", origin.remote, [key], ""⟩, ?_, [key], rfl⟩
    simp only [auditPatch, recordConfigAudit, List.length_append, List.length_singleton]
    rw [List.drop_append_of_le_length (by omega)]
    exact List.mem_append_right _ (List.mem_singleton_self _)

theorem audit_setGlobal (f : GlobalConfig → GlobalConfig) (y : ActiveState) :
    (setGlobal f y).hub.audit = y.hub.audit := by
  unfold setGlobal
  split <;> rfl

/-- A part of a patch keeps the state under a condition, and otherwise it records something. -/
def Part (origin : Origin) (n : ℕ) (A : Prop) (x y : ActiveState) : Prop :=
  A ∧ y = x ∨ ¬ A ∧ Noted origin n y.hub.audit

variable {origin} {A B : Prop}

theorem Part.and (h : Part origin x.hub.audit.length A x x')
    (h' : ∀ {n}, x'.hub.audit.length = configAuditCap ∨ n ≤ x'.hub.audit.length → Part origin n B x' x'') :
    Part origin x.hub.audit.length (A ∧ B) x x'' := by
  rcases h with ⟨hA, rfl⟩ | ⟨hA, hnoted⟩
  · rcases h' (.inr le_rfl) with ⟨hB, rfl⟩ | ⟨hB, hnoted⟩
    · exact .inl ⟨⟨hA, hB⟩, rfl⟩
    · exact .inr ⟨fun h => hB h.2, hnoted⟩
  · refine .inr ⟨fun h => hA h.1, ?_⟩
    rcases h' (hnoted.length.imp_right le_of_lt) with ⟨-, rfl⟩ | ⟨-, hnoted'⟩
    · exact hnoted
    · exact hnoted'

theorem Part.eq_iff (h : Part origin x.hub.audit.length A x x') (hfresh : Fresh origin x) : x' = x ↔ A := by
  rcases h with ⟨hA, heq⟩ | ⟨hA, hnoted⟩
  · exact iff_of_true heq hA
  · exact iff_of_false (hnoted.ne hfresh) hA

variable (origin) {raw : Option GoValue}

theorem part_logFormat (raw : Option GoValue) (x : ActiveState) : Part origin x.hub.audit.length
    (appliesFormat raw = false) x (patchKey (applyPatchLogFormat origin) raw x).1 := by
  rcases raw with _ | raw
  · exact .inl ⟨rfl, rfl⟩
  · cases raw with
    | string format =>
      by_cases hformat : format = "text" ∨ format = "json"
      · have happlied : format ∈ ["", "text", "json"] ∧ format ≠ "" := by
          rcases hformat with rfl | rfl <;> decide
        refine .inr ⟨by simp [appliesFormat, hformat], ?_⟩
        simp only [patchKey, applyPatchLogFormat, if_neg (not_not.mpr happlied.1), if_neg happlied.2]
        exact noted_auditPatch _ origin _ (.inr (by rw [audit_setGlobal]))
      · refine .inl ⟨decide_eq_false hformat, ?_⟩
        by_cases hempty : format = ""
        · simp [patchKey, applyPatchLogFormat, hempty]
        · have hinvalid : format ∉ ["", "text", "json"] := by simpa [hempty] using hformat
          simp only [patchKey, applyPatchLogFormat, if_pos hinvalid]
    | _ => exact .inl ⟨rfl, rfl⟩

theorem part_threshold (parseDuration : String → Option ℤ) {n : ℕ} (raw : Option GoValue) (y : ActiveState)
    (hn : y.hub.audit.length = configAuditCap ∨ n ≤ y.hub.audit.length) : Part origin n
      (thresholdText parseDuration raw = none) y (patchKey (applyPatchStaleThreshold parseDuration origin) raw y).1 := by
  rcases threshold_cases parseDuration origin raw y with hkept | ⟨text, d, htext, -, -, hstored⟩
  · exact .inl hkept
  · rw [hstored, htext]
    exact .inr ⟨nofun, noted_auditPatch _ origin _ (by rwa [audit_setGlobal])⟩

theorem logLevel_same (x : ActiveState) {e : CallError} (h : (patchKey (applyPatchLogLevel origin) raw x).2 = some e) :
    (patchKey (applyPatchLogLevel origin) raw x).1 = x := by
  unfold patchKey applyPatchLogLevel at h ⊢
  repeat' split at h
  all_goals simp_all

/-- **A patch that fails changes nothing if and only if** it has other keys, or neither a log format nor a stale
threshold is applied before the failure. -/
theorem patch_failed_same_iff {body : PatchBody} {origin : Origin} {e : CallError}
    (h : (patchWithOrigin parseDuration body origin x).2 = some e) (hfresh : Fresh origin x) :
    (patchWithOrigin parseDuration body origin x).1 = x ↔
      (body.unknownKeys = [] → appliesFormat body.logFormat = false) ∧ storedThreshold parseDuration body = none := by
  unfold patchWithOrigin at h ⊢
  unfold storedThreshold
  by_cases hkeys : body.unknownKeys = []
  · rw [if_neg (not_not.mpr hkeys)] at h ⊢
    rw [imp_iff_right hkeys]
    have haccepted := logFormat_accepted origin body.logFormat x
    have hformat := part_logFormat origin body.logFormat x
    generalize patchKey (applyPatchLogFormat origin) body.logFormat x = first at h haccepted hformat ⊢
    rcases first with ⟨y, _ | e'⟩
    · rw [if_pos ⟨hkeys, haccepted.mp rfl⟩]
      have hboth := hformat.and (part_threshold origin parseDuration body.staleThreshold y)
      dsimp only at h ⊢
      generalize patchKey (applyPatchStaleThreshold parseDuration origin) body.staleThreshold y = second at h hboth ⊢
      rw [← hboth.eq_iff hfresh]
      rcases second with ⟨z, _ | e'⟩
      · rw [logLevel_same origin z h]
      · rfl
    · have hrefused : ¬ formatAccepted body.logFormat = true := fun hok => nomatch haccepted.mpr hok
      rw [if_neg fun hcond => hrefused hcond.2, hformat.eq_iff hfresh]
      exact (and_iff_left rfl).symm
  · rw [if_pos hkeys]
    exact iff_of_true rfl ⟨fun h => absurd h hkeys, if_neg fun hcond => hkeys hcond.1⟩

/-! ### Removing -/

theorem Kind.names_nodup (h : validate parseDuration reg cfg = .ok ()) (kind : Kind) :
    (kind.names cfg.toConfig).Nodup := by
  obtain ⟨hdrivers, htransports, hrules⟩ := validate_names (validate_ok_iff.mp h)
  cases kind with
  | driver => exact hdrivers
  | transport => exact htransports
  | rule => exact hrules

/-- Writing to the arrays keeps `currentCfg` valid if it shows the same lists, and not if a name is repeated. -/
theorem valid_written (hsc : x.hub.currentCfg = some sc) (hvalid : Valid parseDuration reg x) (kind : Kind) {P : Prop}
    (h : P ∧ sc.read mem = sc.read x.hub.mem ∨ ¬ P ∧ ¬ (kind.names (sc.read mem)).Nodup) :
    Valid parseDuration reg { x with hub := { x.hub with mem } } ↔ P := by
  have hsc' : ({ x with hub := { x.hub with mem } } : ActiveState).hub.currentCfg = some sc := hsc
  rw [valid_iff hsc']
  rcases h with ⟨hP, hread⟩ | ⟨hP, hrepeated⟩
  · refine ⟨fun _ => hP, fun _ => ?_⟩
    rw [hread]
    exact (valid_iff hsc).mp hvalid
  · exact ⟨fun hok => absurd (Kind.names_nodup hok kind) hrepeated, fun h => absurd h hP⟩

variable {clone : SliceConfig}

theorem slicesOk_drop {kind : Kind} {name : String} {m : Memory} (hok : SlicesOk m sc)
    (hdrop : kind.drop name m sc = some (mem, clone)) : SlicesOk mem sc := by
  cases kind with
  | driver =>
    obtain ⟨⟨h, s⟩, hcut, hmem⟩ := map_eq_some_iff.mp hdrop
    cases hmem
    exact ⟨⟨valid_removeNamed hok.drivers hcut, hok.transports⟩, hok.rules⟩
  | transport =>
    obtain ⟨⟨h, s⟩, hcut, hmem⟩ := map_eq_some_iff.mp hdrop
    cases hmem
    exact ⟨⟨hok.drivers, valid_removeNamed hok.transports hcut⟩, hok.rules⟩
  | rule =>
    obtain ⟨⟨h, s⟩, hcut, hmem⟩ := map_eq_some_iff.mp hdrop
    cases hmem
    exact ⟨⟨hok.drivers, hok.transports⟩, valid_removeNamed hok.rules hcut⟩

/-- **A cut leaves a valid configuration exactly if the entry is the last one of its list.** -/
theorem written_of_cut {C : Type} {nameOf : C → String} {h : Heap C} {s : Slice} {kind : Kind} {name : String}
    {put : Heap C × Slice → Memory × SliceConfig} (hsc : x.hub.currentCfg = some sc) (hvalid : Valid parseDuration reg x)
    (hs : s.Valid h) (hdrop : kind.drop name x.hub.mem sc = (removeNamed nameOf h s name).map put)
    (hold : kind.names (sc.read x.hub.mem) = (read h s).map nameOf)
    (hnames : ∀ r, kind.names (sc.read (put r).1) = (read r.1 s).map nameOf)
    (hread : ∀ r, read r.1 s = read h s → sc.read (put r).1 = sc.read x.hub.mem) :
    kind.drop name x.hub.mem sc = none ∨ ∃ mem clone, kind.drop name x.hub.mem sc = some (mem, clone) ∧
      (Valid parseDuration reg { x with hub := { x.hub with mem } } ↔
        (kind.names (sc.read x.hub.mem)).getLast? = some name) := by
  have hnodup := Kind.names_nodup ((valid_iff hsc).mp hvalid) kind
  rw [Rest.full, hold] at hnodup
  rw [hdrop, hold]
  rcases cut_cases hs hnodup name with hnone | ⟨h', s', hcut, hcase⟩
  · exact .inl (by rw [hnone, map_none])
  · refine .inr ⟨_, _, by rw [hcut, map_some], valid_written hsc hvalid kind (hcase.imp (And.imp_right (hread (h', s')))
      (And.imp_right fun hrepeated => ?_))⟩
    rwa [hnames]

theorem drop_cases (kind : Kind) (name : String) (hsc : x.hub.currentCfg = some sc) (hok : SlicesOk x.hub.mem sc)
    (hvalid : Valid parseDuration reg x) :
    kind.drop name x.hub.mem sc = none ∨ ∃ mem clone, kind.drop name x.hub.mem sc = some (mem, clone) ∧
      (Valid parseDuration reg { x with hub := { x.hub with mem } } ↔
        (kind.names (sc.read x.hub.mem)).getLast? = some name) := by
  cases kind with
  | driver => exact written_of_cut hsc hvalid hok.drivers rfl rfl (fun _ => rfl) fun r h => by simp [SliceConfig.read, h]
  | transport =>
    exact written_of_cut hsc hvalid hok.transports rfl rfl (fun _ => rfl) fun r h => by simp [SliceConfig.read, h]
  | rule => exact written_of_cut hsc hvalid hok.rules rfl rfl (fun _ => rfl) fun r h => by simp [SliceConfig.read, h]

variable {drop : Memory → SliceConfig → Option (Memory × SliceConfig)}

theorem removeResource_absent {kind name : String} {origin : Origin}
    (hsc : x.hub.currentCfg = some sc) (hdrop : drop x.hub.mem sc = none) :
    (removeResource env c lib parseDuration reg around kind name origin drop x).1 = x := by
  simp [removeResource, hsc, hdrop]

theorem removeResource_cases (kind name : String) (origin : Origin)
    (hsc : x.hub.currentCfg = some sc) (hdrop : drop x.hub.mem sc = some (mem, clone)) :
    let x₁ : ActiveState := { x with hub := { x.hub with mem } }
    let x₂ := (removeResource env c lib parseDuration reg around kind name origin drop x).1
    Reloads env c lib parseDuration reg around (snapshotText c lib x mem clone) x₁ ∧
        Valid parseDuration reg x₂ ∧ Held x₂ ∨
      ¬ Reloads env c lib parseDuration reg around (snapshotText c lib x mem clone) x₁ ∧ SameChecked x₁ x₂ := by
  intro x₁ x₂
  have hsame : Same (reloadWithOrigin env c lib parseDuration reg around (some (snapshotText c lib x mem clone))
      ["payload"] origin x₁).1 x₂ := by
    simp only [x₂, x₁, removeResource, hsc, hdrop]
    split <;> next hres => rw [hres]; exact ⟨rfl, rfl, rfl⟩
  rcases reload_spec (some (snapshotText c lib x mem clone)) ["payload"] origin x₁ with
    ⟨y, hres, ⟨t, ht, hreloads⟩, hvalid', hheld'⟩ | ⟨y, e, hres, hnot, hsame'⟩
  · rw [hres] at hsame
    cases ht
    exact .inl ⟨hreloads, hsame.checked.valid_iff.mpr hvalid', hsame.checked.held hheld'⟩
  · rw [hres] at hsame
    exact .inr ⟨hnot _ rfl, hsame'.checked.trans hsame.checked⟩

/-! ### Whole runs -/

/-- **One call keeps a valid active configuration valid exactly if it meets the condition.** -/
theorem call_valid_iff (a : Surroundings T × Request T) (hvalid : Valid parseDuration reg x) (hx : Held x) :
    Valid parseDuration reg (call env c lib parseDuration reg a.1 a.2 x).1 ↔
      KeepsValid env c lib parseDuration reg x a := by
  obtain ⟨around, request⟩ := a
  cases request with
  | reload text keys origin =>
    refine ⟨fun _ => trivial, fun _ => ?_⟩
    rw [call]
    rcases reload_spec text keys origin x with ⟨x', hres, -, hvalid', -⟩ | ⟨x', e, hres, -, hsame⟩
    · rw [hres]
      exact hvalid'
    · rw [hres]
      exact hsame.checked.valid_iff.mpr hvalid
  | patch body origin => exact patch_valid_iff body origin hvalid hx
  | remove kind name origin =>
    obtain ⟨sc, hsc, hok⟩ := hx
    rw [call]
    rcases drop_cases kind name hsc hok hvalid with hnone | ⟨mem, clone, hdrop, hiff⟩
    · rw [removeResource_absent hsc hnone]
      refine ⟨fun _ sc' hsc' mem clone hdrop => ?_, fun _ => hvalid⟩
      cases hsc.symm.trans hsc'
      cases hnone.symm.trans hdrop
    · refine ⟨fun hafter sc' hsc' mem' clone' hdrop' => ?_, fun hkeeps => ?_⟩
      · cases hsc.symm.trans hsc'
        cases hdrop.symm.trans hdrop'
        rcases removeResource_cases kind.word name origin hsc hdrop with ⟨hreloads, -⟩ | ⟨-, hsame⟩
        · exact .inr hreloads
        · exact .inl (hiff.mp (hsame.valid_iff.mp hafter))
      · rcases removeResource_cases kind.word name origin hsc hdrop with ⟨-, hvalid', -⟩ | ⟨hnot, hsame⟩
        · exact hvalid'
        · exact hsame.valid_iff.mpr (hiff.mpr ((hkeeps sc hsc mem clone hdrop).resolve_right hnot))

theorem call_held (a : Surroundings T × Request T) (hx : Held x) :
    Held (call env c lib parseDuration reg a.1 a.2 x).1 := by
  obtain ⟨around, request⟩ := a
  cases request with
  | reload text keys origin =>
    rw [call]
    rcases reload_spec text keys origin x with ⟨x', hres, -, -, hheld'⟩ | ⟨x', e, hres, -, hsame⟩
    · rw [hres]
      exact hheld'
    · rw [hres]
      exact hsame.checked.held hx
  | patch body origin => exact patch_held body origin hx
  | remove kind name origin =>
    rw [call]
    obtain ⟨sc, hsc, hok⟩ := hx
    cases hdrop : kind.drop name x.hub.mem sc with
    | none =>
      rw [removeResource_absent hsc hdrop]
      exact ⟨sc, hsc, hok⟩
    | some r =>
      rcases removeResource_cases kind.word name origin hsc hdrop with ⟨-, -, hheld'⟩ | ⟨-, hsame⟩
      · exact hheld'
      · exact hsame.held ⟨sc, hsc, slicesOk_drop hok hdrop⟩

/-- **The active configuration passes validation after every call of a run exactly if every call meets the
condition.** -/
theorem stays_valid_iff {x₀ : ActiveState} {calls : List (Surroundings T × Request T)}
    (hvalid : Valid parseDuration reg x₀) (hx : Held x₀)
    (hrun : Run (step env c lib parseDuration reg) (fun _ _ => True) x₀ calls x) :
    Run (step env c lib parseDuration reg) (fun y a => ∀ y', step env c lib parseDuration reg y a = some y' →
        Valid parseDuration reg y') x₀ calls x ↔
      Run (step env c lib parseDuration reg) (KeepsValid env c lib parseDuration reg) x₀ calls x := by
  refine Run.iff_of_step (J := Held) ?_ ?_ hrun hvalid hx
  · rintro y a y' hstep hheld
    cases hstep
    exact call_held a hheld
  · rintro y a y' hstep hI hJ
    cases hstep
    exact call_valid_iff a hI hJ

end

/-! ### Two transports -/

/-- The transports `cloud` and `backup`. -/
def twoTransports : List TransportConfig := [{ name := "cloud", type := "mqtt" }, { name := "backup", type := "mqtt" }]

/-- They are active, with a rule that forwards to `cloud`. -/
def forwarding : ActiveState where
  hub :=
    { mem := ⟨[[]], [twoTransports], [[Startup.forwardRule]]⟩
      currentCfg := some ⟨⟨0, 0, 0, 0⟩, ⟨0, 0, 2, 2⟩, ⟨0, 0, 1, 1⟩, []⟩
      drivers := fun _ => none
      transports := registryOf (configMap TransportConfig.name twoTransports)
      rules := Startup.emptyRules
      derivedTags := []
      audit := [] }
  rest := {}

theorem forwarding_held : Held forwarding := by
  refine ⟨_, rfl, ⟨⟨?_, ?_⟩, ?_⟩⟩ <;> constructor <;> decide

def durations : String → Option ℤ
  | "0s" => some 0
  | "30s" => some 30000000000
  | _ => none

theorem forwarding_valid : Valid durations plantRegistry forwarding :=
  (valid_iff rfl).mpr (accepts_iff.mp (by decide +kernel))

def siteCall (request : Request Tree) : ActiveState × Option CallError :=
  call plantEnv exactConv treeText durations plantRegistry
    { world := Startup.siteWorld, ord := ⟨[], [], ["cloud", "backup"], ["cloud", "backup"]⟩ } request forwarding

theorem not_valid_of_refused {x : ActiveState} {cfg : FullConfig} (hcfg : x.currentCfg = some cfg)
    (hrefused : accepts durations plantRegistry cfg = false) : ¬ Valid durations plantRegistry x := by
  intro hvalid
  rw [accepts_iff.mpr (hvalid cfg hcfg)] at hrefused
  cases hrefused

/-- **Two calls after which `currentCfg` is refused**: a patch that switches the stale threshold off is accepted,
and the removal of `cloud`, which is refused because a rule needs it, leaves `backup` twice. -/
theorem active_config_refused : Valid durations plantRegistry forwarding ∧ Held forwarding ∧
    ((siteCall (.patch { staleThreshold := some (.string "0s") } {})).2 = none ∧
      ¬ Valid durations plantRegistry (siteCall (.patch { staleThreshold := some (.string "0s") } {})).1) ∧
    (siteCall (.remove .transport "cloud" {})).2 = some (.resource .invalid) ∧
      (siteCall (.remove .transport "cloud" {})).1.currentCfg.map (fun cfg => cfg.transports.map (·.name)) =
        some ["backup", "backup"] ∧
      ¬ Valid durations plantRegistry (siteCall (.remove .transport "cloud" {})).1 := by
  refine ⟨forwarding_valid, forwarding_held, ⟨by decide +kernel, not_valid_of_refused rfl (by decide +kernel)⟩,
    by decide +kernel, by decide +kernel, not_valid_of_refused rfl (by decide +kernel)⟩

theorem patch_failed_same_iff_level :
    (siteCall (.patch { logLevel := some (.string "loud") } {})).2 = some (.invalidLogLevel "loud") ∧
      (siteCall (.patch { logLevel := some (.string "loud") } {})).1 = forwarding :=
  ⟨rfl, (patch_failed_same_iff (show (patchWithOrigin durations { logLevel := some (.string "loud") } {} forwarding).2 =
    some (.invalidLogLevel "loud") from rfl) nofun).mpr ⟨fun _ => rfl, rfl⟩⟩

/-- The log level is refused after the log format was changed. -/
theorem patch_half_applied :
    (siteCall (.patch { logFormat := some (.string "json"), logLevel := some (.string "loud") } {})).2 =
      some (.invalidLogLevel "loud") ∧ forwarding.logger.format = "text" ∧
    (siteCall (.patch { logFormat := some (.string "json"), logLevel := some (.string "loud") } {})).1.logger.format =
      "json" ∧ forwarding.hub.audit = [] ∧
    (siteCall (.patch { logFormat := some (.string "json"), logLevel := some (.string "loud") } {})).1.hub.audit =
      [⟨0, "patch", "", ["log-format"], ""⟩] :=
  ⟨rfl, rfl, rfl, rfl, rfl⟩

/-- A threshold is patched, and `backup`, the last transport, is removed. -/
def goodCalls : List (Surroundings Tree × Request Tree) :=
  [({ world := Startup.siteWorld, ord := ⟨[], [], [], []⟩ }, .patch { staleThreshold := some (.string "30s") } {}),
    ({ world := Startup.siteWorld, ord := ⟨[], [], ["cloud", "backup"], ["cloud"]⟩ }, .remove .transport "backup" {})]

/-- After both calls the configuration is valid, and only `cloud` is left. -/
theorem stays_valid_iff_removal : ∃ x, Run (step plantEnv exactConv treeText durations plantRegistry)
      (fun y a => ∀ y', step plantEnv exactConv treeText durations plantRegistry y a = some y' →
        Valid durations plantRegistry y') forwarding goodCalls x ∧
      x.currentCfg.map (fun cfg => cfg.transports.map (·.name)) = some ["cloud"] := by
  have hrun : ∃ x, Run (step plantEnv exactConv treeText durations plantRegistry)
      (KeepsValid plantEnv exactConv treeText durations plantRegistry) forwarding goodCalls x ∧
        x.currentCfg.map (fun cfg => cfg.transports.map (·.name)) = some ["cloud"] := by
    refine ⟨_, .cons ?_ rfl (.cons ?_ rfl (.nil _)), by decide +kernel⟩
    · intro text d htext hd
      have htext' : text = "30s" := by
        have : storedThreshold durations { staleThreshold := some (.string "30s") } = some "30s" := by decide +kernel
        exact (some.inj (this.symm.trans htext)).symm
      subst htext'
      cases hd
      decide
    · intro sc hsc mem clone hdrop
      cases hsc
      exact .inl (by decide +kernel)
  obtain ⟨x, hgood, hnames⟩ := hrun
  have hall := hgood.strengthen (I := fun _ => True) (Q := fun _ _ => True)
    (fun _ _ _ _ _ _ => ⟨trivial, trivial⟩) trivial
  exact ⟨x, (stays_valid_iff forwarding_valid forwarding_held hall).mpr hgood, hnames⟩

end CoreC.Executor.Active
