import CoreC.Executor.Diff
import CoreC.Rules.Build

/-! # Applying a configuration to the running engine

`ApplyConfig` reconciles drivers, then transports, then installs the rules, then the derived tags. The
first call of the engine that fails makes it roll back what its log recorded and return the error. -/

namespace CoreC.Executor.Apply

open Core.Types Lib.RangeLoop Executor.Diff Rules.Build

/-- A call of the engine. -/
inductive Op where
  | driver (op : CompOp DriverConfig)
  | transport (op : CompOp TransportConfig)
  | setRules (rules : List RuleConfig)
  | applyDerivedTags (tags : List DerivedTagConfig)
  deriving DecidableEq

/-- `RemoveDriver` or `RemoveTransport`. -/
def Op.isRemoval : Op → Bool
  | .driver (.remove _) => true
  | .transport (.remove _) => true
  | _ => false

/-- The running engine and the executor's `currentCfg`. -/
structure State where
  drivers : String → Option DriverConfig
  transports : String → Option TransportConfig
  rules : Engine
  derivedTags : List DerivedTagConfig
  currentCfg : Option Config

def State.oldCfg (s : State) : Config := s.currentCfg.getD {}

/-- The orders in which the maps are visited. -/
structure Orders where
  oldDrivers : List String
  newDrivers : List String
  oldTransports : List String
  newTransports : List String

/-- The engine in the middle of a reload, with `diffActions`. -/
structure Reload where
  drivers : DiffState DriverConfig
  transports : DiffState TransportConfig
  rules : Engine
  rulesApplied : Bool

section

variable (env : BuildEnv) (fails : Op → Bool)

/-- `SetRules` of the engine; on an error the old rules stay. -/
def engineSetRules (e : Engine) (rules : List RuleConfig) : Engine × Bool :=
  if fails (.setRules rules) then (e, false)
  else
    match setRules env e.group rules with
    | .error _ => (e, false)
    | .ok e' => (e', true)

def applyRules (old cfg : Config) (force : Bool) (r : Reload) : Reload × Option Op :=
  if force || old.rules ≠ cfg.rules then
    match engineSetRules env fails r.rules cfg.rules with
    | (e, true) => ({ r with rules := e, rulesApplied := true }, none)
    | (e, false) => ({ r with rules := e }, some (.setRules cfg.rules))
  else (r, none)

/-- `rollback`; every failure is logged and the rest goes on. -/
def rollback (old : Config) (r : Reload) (s : State) : State :=
  { s with
    transports :=
      rollbackComponents TransportConfig.name (fun op => fails (.transport op)) r.transports
    drivers := rollbackComponents DriverConfig.name (fun op => fails (.driver op)) r.drivers
    rules := if r.rulesApplied then (engineSetRules env fails r.rules old.rules).1 else r.rules }

def applyDiffs (ord : Orders) (cfg : Config) (force : Bool) (s : State) : Reload × Option Op :=
  let old := s.oldCfg
  let t0 : DiffState TransportConfig := ⟨s.transports, [], []⟩
  match diffDrivers (fun op => fails (.driver op)) old.drivers cfg.drivers force ord.oldDrivers
      ord.newDrivers ⟨s.drivers, [], []⟩ with
  | (d, some e) => (⟨d, t0, s.rules, false⟩, some (.driver e))
  | (d, none) =>
    match diffTransports (fun op => fails (.transport op)) old.transports cfg.transports force
        ord.oldTransports ord.newTransports t0 with
    | (t, some e) => (⟨d, t, s.rules, false⟩, some (.transport e))
    | (t, none) => applyRules env fails old cfg force ⟨d, t, s.rules, false⟩

/-- `ApplyConfig`; `rollbackFails` says which calls fail while rolling back. -/
def applyConfig (rollbackFails : Op → Bool) (ord : Orders) (cfg : Config) (force : Bool) (s : State) :
    State × Option Op :=
  match applyDiffs env fails ord cfg force s with
  | (r, some e) => (rollback env rollbackFails s.oldCfg r s, some e)
  | (r, none) =>
    -- `ApplyDerivedTags` compiles the new set first, so a failure keeps the old one
    if (force || s.oldCfg.derivedTags ≠ cfg.derivedTags) && fails (.applyDerivedTags cfg.derivedTags) then
      (rollback env rollbackFails s.oldCfg r s, some (.applyDerivedTags cfg.derivedTags))
    else
      ({ drivers := r.drivers.reg, transports := r.transports.reg, rules := r.rules,
         derivedTags := if force || s.oldCfg.derivedTags ≠ cfg.derivedTags then cfg.derivedTags
           else s.derivedTags,
         currentCfg := some cfg }, none)

end

/-! ### What a failed reload leaves -/

/-- The engine runs what `currentCfg` lists: its drivers, its transports, and its rules, each of them
enabled or not. -/
structure State.Running (env : BuildEnv) (s : State) : Prop where
  drivers : s.drivers = registryOf (configMap DriverConfig.name s.oldCfg.drivers)
  transports : s.transports = registryOf (configMap TransportConfig.name s.oldCfg.transports)
  rules : ∃ e, setRules env s.rules.group s.oldCfg.rules = .ok e ∧ e.rules = s.rules.rules

/-- Nothing a reload touches differs: the components with their configurations, the rules and which of
them are disabled, and `currentCfg`. -/
structure State.Same (s' s : State) : Prop where
  drivers : s'.drivers = s.drivers
  transports : s'.transports = s.transports
  rules : s'.rules.rules = s.rules.rules
  disabled : ∀ i < s.rules.rules.length, s'.rules.disabled i = s.rules.disabled i
  currentCfg : s'.currentCfg = s.currentCfg

structure Orders.Valid (ord : Orders) (old cfg : Config) : Prop where
  oldDrivers : ord.oldDrivers.Perm (configMap DriverConfig.name old.drivers).keys
  newDrivers : ord.newDrivers.Perm (configMap DriverConfig.name cfg.drivers).keys
  oldTransports : ord.oldTransports.Perm (configMap TransportConfig.name old.transports).keys
  newTransports : ord.newTransports.Perm (configMap TransportConfig.name cfg.transports).keys

variable {env : BuildEnv} {fails rollbackFails : Op → Bool} {s : State} {r : Reload}

theorem rollback_rules (hok : ∀ op, rollbackFails op = false) (hrun : s.Running env)
    (hgroup : r.rules.group = s.rules.group) :
    (engineSetRules env rollbackFails r.rules s.oldCfg.rules).1.rules = s.rules.rules ∧
      ∀ i, (engineSetRules env rollbackFails r.rules s.oldCfg.rules).1.disabled i = false := by
  obtain ⟨e, he, hr⟩ := hrun.rules
  unfold engineSetRules
  rw [hok, hgroup, he]
  exact ⟨hr, (setRules_enabled he).2⟩

theorem rollback_same_iff (hok : ∀ op, rollbackFails op = false) (hrun : s.Running env)
    (hgroup : r.rules.group = s.rules.group) (hkept : r.rulesApplied = false → r.rules = s.rules) :
    (rollback env rollbackFails s.oldCfg r s).Same s ↔
      rollbackComponents DriverConfig.name (fun op => rollbackFails (.driver op)) r.drivers = s.drivers ∧
        rollbackComponents TransportConfig.name (fun op => rollbackFails (.transport op)) r.transports = s.transports ∧
        (r.rulesApplied = true → ∀ i < s.rules.rules.length, s.rules.disabled i = false) := by
  obtain ⟨hr, hd⟩ := rollback_rules hok hrun hgroup
  cases happ : r.rulesApplied with
  | false =>
    have hrules : (rollback env rollbackFails s.oldCfg r s).rules = s.rules := by
      simp [rollback, happ, hkept happ]
    refine ⟨fun h => ⟨h.drivers, h.transports, by simp⟩, fun ⟨h1, h2, _⟩ => ?_⟩
    exact ⟨h1, h2, by rw [hrules], by simp [hrules], rfl⟩
  | true =>
    have hrules : (rollback env rollbackFails s.oldCfg r s).rules =
        (engineSetRules env rollbackFails r.rules s.oldCfg.rules).1 := by
      simp [rollback, happ]
    refine ⟨fun h => ⟨h.drivers, h.transports, fun _ i hi => ?_⟩, fun ⟨h1, h2, h3⟩ => ?_⟩
    · rw [← h.disabled i hi, hrules, hd]
    · exact ⟨h1, h2, by rw [hrules, hr], fun i hi => by rw [hrules, hd, h3 rfl i hi], rfl⟩

def Reload.Restores (rollbackFails : Op → Bool) (s : State) (r : Reload) : Prop :=
  rollbackComponents DriverConfig.name (fun op => rollbackFails (.driver op)) r.drivers = s.drivers ∧
    rollbackComponents TransportConfig.name (fun op => rollbackFails (.transport op)) r.transports = s.transports

/-- The rules have been replaced if `applied`, and are those of before otherwise. -/
def Reload.RulesAre (s : State) (r : Reload) (applied : Bool) : Prop :=
  r.rulesApplied = applied ∧ r.rules.group = s.rules.group ∧ (applied = false → r.rules = s.rules)

theorem applyRules_outcome {cfg : Config} {force : Bool} (hr : r.RulesAre s false)
    (hset : fails (.setRules cfg.rules) = true ∨ ∃ e, setRules env s.rules.group cfg.rules = .ok e) :
    Outcome (fun r' => r'.drivers = r.drivers ∧ r'.transports = r.transports ∧
        r'.RulesAre s (force || s.oldCfg.rules ≠ cfg.rules))
      (fun e r' => e = .setRules cfg.rules ∧ fails e = true ∧ r' = r)
      (applyRules env fails s.oldCfg cfg force r) := by
  unfold applyRules
  split_ifs with hch
  · rw [hch]
    unfold engineSetRules
    cases hf : fails (.setRules cfg.rules) with
    | true => exact ⟨rfl, hf, rfl⟩
    | false =>
      obtain ⟨e, he⟩ := hset.resolve_left (by simp [hf])
      rw [hr.2.1, he]
      exact ⟨rfl, rfl, rfl, (setRules_enabled he).1, by simp⟩
  · rw [Bool.not_eq_true] at hch
    rw [hch]
    exact ⟨rfl, rfl, hr⟩

/-- Drivers, transports and rules: after success the log restores the components; after a failure it
does unless the failing call is a removal, and the rules have not been touched. -/
theorem applyDiffs_outcome (hok : ∀ op, rollbackFails op = false) (hrun : s.Running env)
    {ord : Orders} {cfg : Config} {force : Bool} (hord : ord.Valid s.oldCfg cfg)
    (hset : fails (.setRules cfg.rules) = true ∨ ∃ e, setRules env s.rules.group cfg.rules = .ok e) :
    Outcome (fun r => r.Restores rollbackFails s ∧ r.RulesAre s (force || s.oldCfg.rules ≠ cfg.rules))
      (fun e r => fails e = true ∧ (∀ tags, e ≠ .applyDerivedTags tags) ∧ r.RulesAre s false ∧
        (r.Restores rollbackFails s ↔ e.isRemoval = false))
      (applyDiffs env fails ord cfg force s) := by
  have hd := diffComponents_rollback (fun op => fails (.driver op))
    (fun op => hok (.driver op)) hrun.drivers force hord.oldDrivers hord.newDrivers
  have ht := diffComponents_rollback (fun op => fails (.transport op))
    (fun op => hok (.transport op)) hrun.transports force hord.oldTransports hord.newTransports
  have h0 : ∀ d t, (⟨d, t, s.rules, false⟩ : Reload).RulesAre s false :=
    fun _ _ => ⟨rfl, rfl, fun _ => rfl⟩
  unfold applyDiffs diffDrivers diffTransports Reload.Restores
  dsimp only
  revert hd
  rcases diffComponents DriverConfig.name _ _ _ _ _ _ _ with ⟨d, _ | e⟩
  · intro hd
    revert ht
    rcases diffComponents TransportConfig.name _ _ _ _ _ _ _ with ⟨t, _ | e⟩
    · intro ht
      have hr := @applyRules_outcome env fails s _ cfg force (h0 d t) hset
      dsimp only
      revert hr
      rcases applyRules env fails s.oldCfg cfg force _ with ⟨r', _ | e⟩
      · rintro ⟨h1, h2, h3⟩
        exact ⟨by rw [h1, h2]; exact ⟨hd, ht⟩, h3⟩
      · rintro ⟨rfl, hf, rfl⟩
        exact ⟨hf, by simp, h0 d t, fun _ => rfl, fun _ => ⟨hd, ht⟩⟩
    · rintro ⟨hf, hiff⟩
      rw [outcome_ok] at hd
      refine ⟨hf, by simp, h0 d t, ?_⟩
      rw [hiff]
      cases e <;> simp [Op.isRemoval, hd]
  · rintro ⟨hf, hiff⟩
    refine ⟨hf, by simp, h0 d _, ?_⟩
    rw [hiff]
    cases e <;> simp [Op.isRemoval, rollbackComponents]

/-- **What remains after a failed reload**, by the call that failed. -/
theorem applyConfig_outcome (hok : ∀ op, rollbackFails op = false) (hrun : s.Running env)
    {ord : Orders} {cfg : Config} {force : Bool} (hord : ord.Valid s.oldCfg cfg)
    (hset : fails (.setRules cfg.rules) = true ∨ ∃ e, setRules env s.rules.group cfg.rules = .ok e) :
    Outcome (fun s' => s'.currentCfg = some cfg) (fun e s' => fails e = true ∧ (s'.Same s ↔ e.isRemoval = false ∧
        ∀ tags, e = .applyDerivedTags tags → (force = true ∨ s.oldCfg.rules ≠ cfg.rules) →
          ∀ i < s.rules.rules.length, s.rules.disabled i = false))
      (applyConfig env fails rollbackFails ord cfg force s) := by
  have hdiff := @applyDiffs_outcome env fails rollbackFails s hok hrun ord cfg force hord hset
  unfold applyConfig
  revert hdiff
  rcases applyDiffs env fails ord cfg force s with ⟨r, _ | e⟩
  · rintro ⟨hres, happ, hgroup, hkept⟩
    dsimp only
    split
    · next hf =>
      rw [Bool.and_eq_true] at hf
      refine ⟨hf.2, ?_⟩
      rw [rollback_same_iff hok hrun hgroup (happ ▸ hkept), happ]
      have hch : (force || decide (s.oldCfg.rules ≠ cfg.rules)) = true ↔
          force = true ∨ s.oldCfg.rules ≠ cfg.rules := by simp
      rw [hch]
      constructor
      · exact fun h => ⟨rfl, fun _ _ => h.2.2⟩
      · exact fun h => ⟨hres.1, hres.2, h.2 _ rfl⟩
    · rfl
  · rintro ⟨hf, htags, ⟨happ, hgroup, hkept⟩, hiff⟩
    refine ⟨hf, ?_⟩
    rw [rollback_same_iff hok hrun hgroup (happ ▸ hkept), happ, ← hiff]
    constructor
    · exact fun h => ⟨⟨h.1, h.2.1⟩, fun tags he => absurd he (htags tags)⟩
    · exact fun h => ⟨h.1.1, h.1.2, by simp⟩

/-- **A reload in which the call `chosen` fails changes nothing if and only if** `chosen` is not a
removal and, in case the derived tags fail after the rules were replaced, no rule is disabled. -/
theorem applyConfig_failed_iff (env : BuildEnv) (ord : Orders) (cfg : Config) (force : Bool)
    (s s' : State) (chosen e : Op) (hrun : s.Running env) (hord : ord.Valid s.oldCfg cfg)
    (hset : chosen = .setRules cfg.rules ∨ ∃ e, setRules env s.rules.group cfg.rules = .ok e)
    (herr : applyConfig env (fun op => op = chosen) (fun _ => false) ord cfg force s = (s', some e)) :
    s'.Same s ↔ chosen.isRemoval = false ∧
      ∀ tags, chosen = .applyDerivedTags tags → (force = true ∨ s.oldCfg.rules ≠ cfg.rules) →
        ∀ i < s.rules.rules.length, s.rules.disabled i = false := by
  have h := @applyConfig_outcome env (fun op => op = chosen) (fun _ => false) s (fun _ => rfl) hrun ord
    cfg force hord (hset.imp (fun h => by simp [h]) id)
  rw [herr] at h
  obtain ⟨hf, hiff⟩ := h
  obtain rfl : e = chosen := by simpa using hf
  exact hiff

/-! ### A reload that issues no call -/

structure Unchanged (old cfg : Config) : Prop where
  drivers : ∀ n, (configMap DriverConfig.name old.drivers).lookup n = (configMap DriverConfig.name cfg.drivers).lookup n
  transports : ∀ n, (configMap TransportConfig.name old.transports).lookup n =
    (configMap TransportConfig.name cfg.transports).lookup n
  rules : old.rules = cfg.rules
  derivedTags : old.derivedTags = cfg.derivedTags

/-- **A reload that finds nothing to do succeeds, whatever the calls of the engine would answer.** -/
theorem applyConfig_unchanged {ord : Orders} {cfg : Config} (h : Unchanged s.oldCfg cfg) :
    applyConfig env fails rollbackFails ord cfg false s = ({ s with currentCfg := some cfg }, none) := by
  have hrules : (false || decide (s.oldCfg.rules ≠ cfg.rules)) = false := by simp [h.rules]
  have hderived : (false || decide (s.oldCfg.derivedTags ≠ cfg.derivedTags)) = false := by simp [h.derivedTags]
  have hdiffs : applyDiffs env fails ord cfg false s =
      (⟨⟨s.drivers, [], []⟩, ⟨s.transports, [], []⟩, s.rules, false⟩, none) := by
    simp only [applyDiffs, diffDrivers, diffTransports, diffComponents_same h.drivers,
      diffComponents_same h.transports, applyRules, hrules, Bool.false_eq_true, if_false]
  rw [applyConfig, hdiffs]
  simp only [hderived, Bool.false_and, Bool.false_eq_true, if_false]

/-- **A reload that succeeds although every call would fail has found nothing to do.** -/
theorem unchanged_of_applyConfig {ord : Orders} {cfg : Config} (hord : ord.Valid s.oldCfg cfg)
    (h : (applyConfig env (fun _ => true) rollbackFails ord cfg false s).2 = none) : Unchanged s.oldCfg cfg := by
  have hd := same_of_diffComponents hord.oldDrivers hord.newDrivers ⟨s.drivers, [], []⟩
  have ht := same_of_diffComponents hord.oldTransports hord.newTransports ⟨s.transports, [], []⟩
  rw [applyConfig, applyDiffs, diffDrivers, diffTransports] at h
  revert hd ht h
  rcases diffComponents DriverConfig.name (fun _ => true) s.oldCfg.drivers cfg.drivers false ord.oldDrivers
    ord.newDrivers ⟨s.drivers, [], []⟩ with ⟨d, _ | e⟩
  · rcases diffComponents TransportConfig.name (fun _ => true) s.oldCfg.transports cfg.transports false
      ord.oldTransports ord.newTransports ⟨s.transports, [], []⟩ with ⟨t, _ | e⟩
    · intro h hd ht
      by_cases hrules : s.oldCfg.rules = cfg.rules
      · by_cases hderived : s.oldCfg.derivedTags = cfg.derivedTags
        · exact ⟨hd rfl, ht rfl, hrules, hderived⟩
        · simp [applyRules, hrules, hderived] at h
      · simp [applyRules, hrules, engineSetRules] at h
    · intro h
      cases h
  · intro h
    cases h

/-! ### The two ways a failed reload changes the engine -/

def plantEnv : BuildEnv := ⟨fun _ => none, fun _ => none, fun _ => none⟩

def plantCfg : Config where
  drivers := [{ name := "plc", type := "modbus" }]
  transports := [{ name := "cloud", type := "mqtt" }]
  rules := [{ name := "all", match_ := "ALL", action := "forward", target := "cloud" }]

/-- The engine that runs `plantCfg`, with its rule disabled. -/
def plant : State where
  drivers := registryOf (configMap DriverConfig.name plantCfg.drivers)
  transports := registryOf (configMap TransportConfig.name plantCfg.transports)
  rules :=
    match setRules plantEnv none plantCfg.rules with
    | .ok e => { e with disabled := fun i => i = 0 }
    | .error _ => ⟨none, [], ∅, [], fun _ => false⟩
  derivedTags := []
  currentCfg := some plantCfg

/-- `plantCfg` without its driver. -/
def plantWithoutDriver : Config := { plantCfg with drivers := [] }

/-- `plantCfg` without its rule and with a derived tag. -/
def plantWithDerived : Config :=
  { plantCfg with
    rules := []
    derivedTags := [{ name := "sum", expr := "a +", type := 10, interval := "1s" }] }

theorem plant_running : plant.Running plantEnv := ⟨rfl, rfl, _, rfl, rfl⟩

/-- **A driver whose `Stop` fails while it is removed is gone after the rollback; a disabled rule is
enabled by a reload that fails in the derived tags.** -/
theorem applyConfig_failed_changes_plant : plant.Running plantEnv ∧
    (∃ s', applyConfig plantEnv (fun op => op = .driver (.remove "plc")) (fun _ => false)
        ⟨["plc"], [], ["cloud"], ["cloud"]⟩ plantWithoutDriver false plant =
          (s', some (.driver (.remove "plc"))) ∧ ¬ s'.Same plant) ∧
      ∃ s', applyConfig plantEnv (fun op => op = .applyDerivedTags plantWithDerived.derivedTags)
        (fun _ => false) ⟨["plc"], ["plc"], ["cloud"], ["cloud"]⟩ plantWithDerived false plant =
          (s', some (.applyDerivedTags plantWithDerived.derivedTags)) ∧ ¬ s'.Same plant := by
  refine ⟨plant_running, ⟨_, rfl, fun h => ?_⟩, ⟨_, rfl, fun h => ?_⟩⟩
  · have := congrFun h.drivers "plc"
    exact absurd this (by decide)
  · exact absurd (h.disabled 0 (by decide)) (by decide)

def plantWithSecond : Config :=
  { plantCfg with
    drivers := [{ name := "plc", type := "opcua" }, { name := "rtu", type := "modbus" }] }

/-- The second driver fails to start after the first has been restarted: nothing changes. -/
theorem applyConfig_failed_iff_plant :
    ∃ s', applyConfig plantEnv (fun op => op = .driver (.add { name := "rtu", type := "modbus" }))
        (fun _ => false) ⟨["plc"], ["plc", "rtu"], ["cloud"], ["cloud"]⟩ plantWithSecond false plant =
          (s', some (.driver (.add { name := "rtu", type := "modbus" }))) ∧ s'.Same plant := by
  have hord : Orders.Valid ⟨["plc"], ["plc", "rtu"], ["cloud"], ["cloud"]⟩ plant.oldCfg
      plantWithSecond := by
    constructor <;> decide
  refine ⟨_, rfl, (applyConfig_failed_iff plantEnv ⟨["plc"], ["plc", "rtu"], ["cloud"], ["cloud"]⟩
    plantWithSecond false plant _ (.driver (.add { name := "rtu", type := "modbus" })) _ plant_running
    hord (.inr ⟨_, rfl⟩) rfl).mpr ⟨rfl, ?_⟩⟩
  intro tags h
  cases h

end CoreC.Executor.Apply
