import CoreC.Config.Parse
import CoreC.Executor.Apply

/-! # Starting, and reloading the same file

At the start `autoFillNodeConfig` (`engine/runtime.go`) writes node-derived settings and a forward rule into
the configuration it is given, and `executor.Init` keeps that same object as `currentCfg`. A reload of the
unchanged file parses it again and compares the two: what was filled in is missing on the new side, and a NaN
of the first parse is not equal to the one of the second. -/

namespace CoreC.Executor.Startup

open Core.Types Lib.Yaml Lib.Yaml.Decode Config.Parse Config.Sections List
  Executor.Diff Executor.Apply Rules.Build

/-! ### The numbers of one parse -/

variable (n : ℕ)

/-- A tag as the `n`-th parse makes it. -/
def restampTag (t : TagConfig) : TagConfig :=
  { t with scale := t.scale.restamp n, offset := t.offset.restamp n, deadBand := t.deadBand.restamp n }

/-- A driver as the `n`-th parse makes it. -/
def restampDriver (d : DriverConfig) : DriverConfig :=
  { d with settings := d.settings.restamp n, tags := d.tags.map (restampTag n) }

/-- A transport as the `n`-th parse makes it. -/
def restampTransport (t : TransportConfig) : TransportConfig :=
  { t with settings := t.settings.restamp n }

variable (cfg : FullConfig)

/-- A configuration as the `n`-th parse makes it. -/
def restamp : FullConfig :=
  { cfg with
    drivers := cfg.drivers.map (restampDriver n)
    transports := cfg.transports.map (restampTransport n) }

structure TagNoNaN (t : TagConfig) : Prop where
  scale : t.scale.isNaN = false
  offset : t.offset.isNaN = false
  deadBand : t.deadBand.isNaN = false

structure DriverNoNaN (d : DriverConfig) : Prop where
  settings : d.settings.NoNaN
  tags : ∀ t ∈ d.tags, TagNoNaN t

/-- No number of a driver or a transport is a NaN. -/
structure NoNaN (cfg : FullConfig) : Prop where
  drivers : ∀ d ∈ cfg.drivers, DriverNoNaN d
  transports : ∀ t ∈ cfg.transports, t.settings.NoNaN

theorem restampTag_eq_iff {m n : ℕ} (h : m ≠ n) (t : TagConfig) : restampTag m t = restampTag n t ↔ TagNoNaN t := by
  obtain ⟨name, address, type, group, interval, scale, offset, deadBand, enforce, timeout, protect, tgroup, triggers⟩ := t
  simp only [restampTag, TagConfig.mk.injEq, true_and, and_true, GoFloat.restamp_eq_iff h]
  exact ⟨fun ⟨h1, h2, h3⟩ => ⟨h1, h2, h3⟩, fun ⟨h1, h2, h3⟩ => ⟨h1, h2, h3⟩⟩

theorem restampDriver_eq_iff {m n : ℕ} (h : m ≠ n) (d : DriverConfig) :
    restampDriver m d = restampDriver n d ↔ DriverNoNaN d := by
  obtain ⟨name, type, settings, tags, tagsFile, tagsInterval⟩ := d
  simp only [restampDriver, DriverConfig.mk.injEq, true_and, and_true, GoMap.restamp_eq_iff h, map_inj_left,
    restampTag_eq_iff h]
  exact ⟨fun ⟨h1, h2⟩ => ⟨h1, h2⟩, fun ⟨h1, h2⟩ => ⟨h1, h2⟩⟩

/-! ### Filling in -/

/-- `if _, ok := tc.Settings[key]; !ok` set it. -/
def fillSetting (key : String) (value : Tree) (m : GoMap) : GoMap :=
  if (m.lookup key).isSome then m else m.set key value

/-- The settings of an `mqtt` transport; braces are written as escapes. -/
def fillSettings (topicPrefix id : String) (m : GoMap) : GoMap :=
  let m := fillSetting "topic-template"
    (text (topicPrefix ++ "/" ++ id ++ "/data/\x7b\x7b.Driver\x7d\x7d/\x7b\x7b.Tag\x7d\x7d")) m
  let m := fillSetting "command-topic" (text (topicPrefix ++ "/" ++ id ++ "/cmd/#")) m
  if (m.lookup "data-topic").isSome then fillSetting "parser" (.map [("type", text "default")]) m else m

variable (node : NodeConfig)

def nodePrefix : String := if node.topicPrefix = "" then "topo" else node.topicPrefix

def fillTransport (t : TransportConfig) : TransportConfig :=
  if t.type ≠ "mqtt" then t
  else { t with settings := fillSettings (nodePrefix node) node.id t.settings }

def autoForward (target : String) : RuleConfig :=
  { name := "topo-auto-forward", match_ := "ALL", action := "forward", target := target }

def fillRules (rules : List RuleConfig) (transports : List TransportConfig) : List RuleConfig :=
  match rules, transports with
  | [], t :: _ => [autoForward t.name]
  | rules, _ => rules

def autoFillNodeConfig : FullConfig :=
  if cfg.node.id = "" then cfg
  else
    { cfg with
      transports := cfg.transports.map (fillTransport cfg.node)
      rules := fillRules cfg.rules (cfg.transports.map (fillTransport cfg.node)) }

structure Filled (m : GoMap) : Prop where
  topicTemplate : (m.lookup "topic-template").isSome = true
  commandTopic : (m.lookup "command-topic").isSome = true
  parser : (m.lookup "data-topic").isSome = true → (m.lookup "parser").isSome = true

/-- `autoFillNodeConfig` changes nothing. -/
def NothingToFill : Prop :=
  cfg.node.id = "" ∨
    (∀ t ∈ cfg.transports, t.type = "mqtt" → Filled t.settings) ∧ (cfg.rules ≠ [] ∨ cfg.transports = [])

theorem fillSetting_of_has {key : String} {value : Tree} {m : GoMap} (h : (m.lookup key).isSome = true) :
    fillSetting key value m = m := if_pos h

theorem lookup_fillSetting (key k : String) (value : Tree) (m : GoMap) :
    ((fillSetting key value m).lookup k).isSome = true ↔ k = key ∨ (m.lookup k).isSome = true := by
  unfold fillSetting
  split_ifs with h
  · constructor
    · exact .inr
    · rintro (rfl | hk)
      · exact h
      · exact hk
  · exact GoMap.lookup_set_isSome m key k value

theorem filled_fillSettings (topicPrefix id : String) (m : GoMap) : Filled (fillSettings topicPrefix id m) := by
  unfold fillSettings
  dsimp only
  split_ifs with hdata
  · exact ⟨by simp [lookup_fillSetting], by simp [lookup_fillSetting], fun _ => by simp [lookup_fillSetting]⟩
  · refine ⟨by simp [lookup_fillSetting], by simp [lookup_fillSetting], fun h => absurd h hdata⟩

theorem fillSettings_of_filled (topicPrefix id : String) {m : GoMap} (h : Filled m) :
    fillSettings topicPrefix id m = m := by
  unfold fillSettings
  dsimp only
  rw [fillSetting_of_has h.topicTemplate, fillSetting_of_has h.commandTopic]
  split_ifs with hdata
  · exact fillSetting_of_has (h.parser hdata)
  · rfl

theorem filled_restamp (m : GoMap) : Filled (m.restamp n) ↔ Filled m := by
  constructor
  · rintro ⟨h1, h2, h3⟩
    simp only [GoMap.lookup_restamp_isSome] at h1 h2 h3
    exact ⟨h1, h2, h3⟩
  · rintro ⟨h1, h2, h3⟩
    exact ⟨by simpa using h1, by simpa using h2, by simpa using h3⟩

/-- **Filled-in settings equal those of another parse if and only if** there was nothing to fill in and no
number is a NaN. -/
theorem fillSettings_restamp_iff (topicPrefix id : String) {m n : ℕ} (h : m ≠ n) (settings : GoMap) :
    fillSettings topicPrefix id (settings.restamp m) = settings.restamp n ↔ Filled settings ∧ settings.NoNaN := by
  constructor
  · intro heq
    have hfilled : Filled settings := by
      rw [← filled_restamp n, ← heq]
      exact filled_fillSettings topicPrefix id _
    rw [fillSettings_of_filled topicPrefix id ((filled_restamp m settings).mpr hfilled)] at heq
    exact ⟨hfilled, (GoMap.restamp_eq_iff h settings).mp heq⟩
  · rintro ⟨hfilled, hnan⟩
    rw [fillSettings_of_filled topicPrefix id ((filled_restamp m settings).mpr hfilled)]
    exact (GoMap.restamp_eq_iff h settings).mpr hnan

theorem restampTransport_eq_iff {m n : ℕ} (h : m ≠ n) (t : TransportConfig) :
    restampTransport m t = restampTransport n t ↔ t.settings.NoNaN := by
  obtain ⟨name, type, settings, batch, flush, retry, buffer, fallback⟩ := t
  simp [restampTransport, GoMap.restamp_eq_iff h]

theorem fillTransport_restamp_iff {m n : ℕ} (h : m ≠ n) (t : TransportConfig) :
    fillTransport node (restampTransport m t) = restampTransport n t ↔
      (t.type = "mqtt" → Filled t.settings) ∧ t.settings.NoNaN := by
  by_cases htype : t.type = "mqtt"
  · have hsame : fillTransport node (restampTransport m t) =
        { t with settings := fillSettings (nodePrefix node) node.id (t.settings.restamp m) } :=
      if_neg (not_not.mpr htype)
    rw [hsame]
    obtain ⟨name, type, settings, batch, flush, retry, buffer, fallback⟩ := t
    simp only [restampTransport, TransportConfig.mk.injEq, true_and, and_true, fillSettings_restamp_iff _ _ h]
    exact and_congr_left fun _ => ⟨fun hf _ => hf, fun hf => hf htype⟩
  · have hsame : fillTransport node (restampTransport m t) = restampTransport m t := if_pos htype
    rw [hsame, restampTransport_eq_iff h]
    exact ⟨fun hnan => ⟨fun ht => absurd ht htype, hnan⟩, And.right⟩

theorem fillRules_eq_iff (rules : List RuleConfig) (transports : List TransportConfig) :
    fillRules rules transports = rules ↔ rules ≠ [] ∨ transports = [] := by
  cases rules with
  | nil =>
    cases transports with
    | nil => exact ⟨fun _ => .inr rfl, fun _ => rfl⟩
    | cons t ts => exact ⟨nofun, fun h => h.elim (fun h => absurd rfl h) nofun⟩
  | cons r rs => exact ⟨fun _ => .inl nofun, fun _ => rfl⟩

/-- **The filled-in configuration shows a reload nothing to do, compared with another parse, if and only if**
there was nothing to fill in and no number is a NaN. -/
theorem autoFill_unchanged_iff {cfg : FullConfig} (hdrivers : (cfg.drivers.map DriverConfig.name).Nodup)
    (htransports : (cfg.transports.map TransportConfig.name).Nodup) {m n : ℕ} (h : m ≠ n) :
    Unchanged (autoFillNodeConfig (restamp m cfg)).toConfig (restamp n cfg).toConfig ↔
      NothingToFill cfg ∧ NoNaN cfg := by
  have hd : (∀ name, (configMap DriverConfig.name (cfg.drivers.map (restampDriver m))).lookup name =
      (configMap DriverConfig.name (cfg.drivers.map (restampDriver n))).lookup name) ↔
        ∀ d ∈ cfg.drivers, DriverNoNaN d := by
    rw [lookup_map_iff (f := restampDriver m) (g := restampDriver n) (fun _ => rfl) (fun _ => rfl) hdrivers]
    exact forall₂_congr fun d _ => restampDriver_eq_iff h d
  by_cases hid : cfg.node.id = ""
  · have hsame : autoFillNodeConfig (restamp m cfg) = restamp m cfg := if_pos hid
    have ht : (∀ name, (configMap TransportConfig.name (cfg.transports.map (restampTransport m))).lookup name =
        (configMap TransportConfig.name (cfg.transports.map (restampTransport n))).lookup name) ↔
          ∀ t ∈ cfg.transports, t.settings.NoNaN := by
      rw [lookup_map_iff (f := restampTransport m) (g := restampTransport n) (fun _ => rfl) (fun _ => rfl) htransports]
      exact forall₂_congr fun t _ => restampTransport_eq_iff h t
    rw [hsame]
    constructor
    · exact fun hu => ⟨.inl hid, hd.mp hu.drivers, ht.mp hu.transports⟩
    · exact fun ⟨_, hnan⟩ => ⟨hd.mpr hnan.drivers, ht.mpr hnan.transports, rfl, rfl⟩
  · have hfill : autoFillNodeConfig (restamp m cfg) = { restamp m cfg with
        transports := cfg.transports.map fun t => fillTransport cfg.node (restampTransport m t)
        rules := fillRules cfg.rules (cfg.transports.map fun t => fillTransport cfg.node (restampTransport m t)) } := by
      have hid' : ¬ (restamp m cfg).node.id = "" := hid
      rw [autoFillNodeConfig, if_neg hid']
      simp only [restamp, map_map]
      rfl
    have hname : ∀ t, (fillTransport cfg.node (restampTransport m t)).name = t.name := by
      intro t
      unfold fillTransport
      split_ifs
      · rfl
      · rfl
    have ht : (∀ name, (configMap TransportConfig.name
        (cfg.transports.map fun t => fillTransport cfg.node (restampTransport m t))).lookup name =
        (configMap TransportConfig.name (cfg.transports.map (restampTransport n))).lookup name) ↔
          ∀ t ∈ cfg.transports, (t.type = "mqtt" → Filled t.settings) ∧ t.settings.NoNaN := by
      rw [lookup_map_iff (g := restampTransport n) hname (fun _ => rfl) htransports]
      exact forall₂_congr fun t _ => fillTransport_restamp_iff cfg.node h t
    have hr := fillRules_eq_iff cfg.rules (cfg.transports.map fun t => fillTransport cfg.node (restampTransport m t))
    rw [map_eq_nil_iff] at hr
    rw [hfill]
    constructor
    · intro hu
      have htransport := ht.mp hu.transports
      exact ⟨.inr ⟨fun t hmem => (htransport t hmem).1, hr.mp hu.rules⟩, hd.mp hu.drivers,
        fun t hmem => (htransport t hmem).2⟩
    · rintro ⟨hnothing, hnan⟩
      obtain ⟨hfilled, hrules⟩ := hnothing.resolve_left hid
      exact ⟨hd.mpr hnan.drivers, ht.mpr fun t hmem => ⟨hfilled t hmem, hnan.transports t hmem⟩, hr.mpr hrules, rfl⟩

/-! ### The start -/

section

variable (env : BuildEnv) (fails rollbackFails : Op → Bool)

/-- `startTransports`, `startDrivers`: one component after the other, up to the first that fails. -/
def addAll {C : Type} (nameOf : C → String) (fails : CompOp C → Bool) :
    List C → (String → Option C) → Option (String → Option C)
  | [], reg => some reg
  | cfg :: cfgs, reg =>
    match addComp nameOf fails reg cfg with
    | (reg, true) => addAll nameOf fails cfgs reg
    | (_, false) => none

/-- `Start`, then `executor.Init` with the same configuration; `none` if the start fails. `ruleEngine` has the
providers and groups already. -/
def start (ruleEngine : Engine) (cfg : FullConfig) : Option State :=
  let cfg := autoFillNodeConfig cfg
  match addAll TransportConfig.name (fun op => fails (.transport op)) cfg.transports fun _ => none with
  | none => none
  | some transports =>
    match engineSetRules env fails ruleEngine cfg.rules with
    | (_, false) => none
    | (rules, true) =>
      match addAll DriverConfig.name (fun op => fails (.driver op)) cfg.drivers fun _ => none with
      | none => none
      | some drivers =>
        if cfg.derivedTags ≠ [] ∧ fails (.applyDerivedTags cfg.derivedTags) then none
        else some { drivers, transports, rules, derivedTags := cfg.derivedTags, currentCfg := some cfg.toConfig }

inductive ReloadError where
  | config
  | apply (op : Op)
  deriving DecidableEq

variable {T : Type} (w : World T) (c : Conv) (lib : YamlText T) (parseDuration : String → Option ℤ) (reg : Registry)

/-- `ReloadWithOrigin` with an empty path and payload: the `n`-th parse of the file is applied. -/
def reload (ord : Orders) (n : ℕ) (file : T) (s : State) : State × Option ReloadError :=
  match load w c lib parseDuration reg file with
  | none => (s, some .config)
  | some cfg =>
    match applyConfig env fails rollbackFails ord (restamp n cfg).toConfig false s with
    | (s, some e) => (s, some (.apply e))
    | (s, none) => (s, none)

/-- The reload succeeds without a call of the engine: whatever the calls would answer, it returns no error and
leaves the components, the rules and the derived tags alone. -/
def Silent (ord : Orders) (n : ℕ) (file : T) (s : State) : Prop :=
  ∀ fails rollbackFails, ∃ s', reload env fails rollbackFails w c lib parseDuration reg ord n file s = (s', none) ∧
    s'.drivers = s.drivers ∧ s'.transports = s.transports ∧ s'.rules = s.rules ∧ s'.derivedTags = s.derivedTags

end

section

variable {env : BuildEnv} {fails : Op → Bool} {ruleEngine : Engine} {cfg : FullConfig} {s : State} {T : Type}
  {w : World T} {c : Conv} {lib : YamlText T} {parseDuration : String → Option ℤ} {reg : Registry} {ord : Orders}
  {file : T} {n : ℕ}

theorem addAll_eq {C : Type} {nameOf : C → String} {fails : CompOp C → Bool} : ∀ {cfgs : List C} done
    {reg : String → Option C}, addAll nameOf fails cfgs (registryOf (configMap nameOf done)) = some reg →
      reg = registryOf (configMap nameOf (done ++ cfgs))
  | [], done, reg, h => by
    cases h
    rw [append_nil]
  | cfg :: cfgs, done, reg, h => by
    rw [addAll, addComp] at h
    have hreg : Function.update (registryOf (configMap nameOf done)) (nameOf cfg) (some cfg) =
        registryOf (configMap nameOf (done ++ [cfg])) := by
      funext name
      rw [configMap_append]
      by_cases hname : name = nameOf cfg
      · subst hname
        rw [Function.update_self, registryOf, AList.lookup_insert]
      · rw [Function.update_of_ne hname, registryOf, registryOf, AList.lookup_insert_ne hname]
    by_cases hfail : fails (.add cfg) = true
    · rw [if_pos hfail] at h
      cases h
    · rw [if_neg hfail, hreg] at h
      rw [append_cons]
      exact addAll_eq _ h

/-- **A started engine runs the filled-in configuration**, which is the executor's. -/
theorem start_running (h : start env fails ruleEngine cfg = some s) :
    s.currentCfg = some (autoFillNodeConfig cfg).toConfig ∧ s.Running env := by
  rw [start] at h
  split at h
  · cases h
  · next transports ht =>
    split at h
    · cases h
    · next rules hr =>
      split at h
      · cases h
      · next drivers hd =>
        split_ifs at h
        cases h
        refine ⟨rfl, addAll_eq [] hd, addAll_eq [] ht, ?_⟩
        unfold engineSetRules at hr
        split at hr
        · cases hr
        · split at hr
          · cases hr
          · next e he =>
            cases hr
            obtain ⟨hgroup, -⟩ := setRules_enabled he
            exact ⟨rules, by rw [hgroup]; exact he, rfl⟩

theorem silent_iff (hload : load w c lib parseDuration reg file = some cfg)
    (hord : ord.Valid s.oldCfg (restamp n cfg).toConfig) :
    Silent env w c lib parseDuration reg ord n file s ↔ Unchanged s.oldCfg (restamp n cfg).toConfig := by
  constructor
  · intro h
    obtain ⟨s', hs', -⟩ := h (fun _ => true) fun _ => true
    simp only [reload, hload] at hs'
    split at hs'
    · cases hs'
    · next heq => exact unchanged_of_applyConfig hord (congrArg Prod.snd heq)
  · intro h fails rollbackFails
    refine ⟨{ s with currentCfg := some (restamp n cfg).toConfig }, ?_, rfl, rfl, rfl, rfl⟩
    simp [reload, hload, applyConfig_unchanged h]

/-- **When reloading an unchanged file is a no-op**: for every file that `Load` accepts and every engine started with
it, the reload issues no call and succeeds if and only if nothing was filled in at the start and no number is a NaN.
-/
theorem reload_silent_iff (env : BuildEnv) (w : World T) (c : Conv) (lib : YamlText T)
    (parseDuration : String → Option ℤ) (reg : Registry) (file : T) (cfg : FullConfig)
    (hload : load w c lib parseDuration reg file = some cfg) (fails : Op → Bool) (ruleEngine : Engine) (s : State)
    (hstart : start env fails ruleEngine (restamp 0 cfg) = some s) (ord : Orders)
    (hord : ord.Valid s.oldCfg (restamp 1 cfg).toConfig) :
    Silent env w c lib parseDuration reg ord 1 file s ↔ NothingToFill cfg ∧ NoNaN cfg := by
  obtain ⟨hcurrent, -⟩ := start_running hstart
  have hold : s.oldCfg = (autoFillNodeConfig (restamp 0 cfg)).toConfig := by rw [State.oldCfg, hcurrent]; rfl
  obtain ⟨-, hvalid⟩ := load_eq_some.mp hload
  obtain ⟨hdrivers, htransports, -⟩ := validate_names (validate_ok_iff.mp hvalid)
  rw [silent_iff hload hord, hold]
  exact autoFill_unchanged_iff hdrivers htransports (by decide)

end

/-! ### A node with one transport -/

def siteWorld : World Tree where
  lookupEnv _ := none
  readFile _ := none
  parseFloat _ := none

/-- A file with a node, an `mqtt` transport and rules. -/
def siteDoc (id : String) (settings : List (String × Tree)) (rules : List Tree) : Tree :=
  .map [("node", .map [("id", text id)]),
    ("transports", .seq [.map [("name", text "cloud"), ("type", text "mqtt"), ("settings", .map settings)]]),
    ("rules", .seq rules)]

def siteConfig (id : String) (settings : List (String × Tree)) (rules : List RuleConfig) : FullConfig where
  node := { id := id }
  transports := [{ name := "cloud", type := "mqtt", settings := GoMap.ofEntries settings }]
  rules := rules

def emptyRules : Engine := ⟨none, [], ∅, [], fun _ => false⟩

def siteStart : Option State := start plantEnv (fun _ => false) emptyRules (restamp 0 cfg)

def siteOrders : Orders := ⟨[], [], ["cloud"], ["cloud"]⟩

theorem exists_siteStart {file : Tree} {cfg : FullConfig}
    (hload : load siteWorld exactConv treeText (fun _ => none) plantRegistry file = some cfg)
    (hstart : (siteStart cfg).isSome = true)
    (hord : siteOrders.Valid (autoFillNodeConfig (restamp 0 cfg)).toConfig (restamp 1 cfg).toConfig) :
    ∃ s, siteStart cfg = some s ∧ siteOrders.Valid s.oldCfg (restamp 1 cfg).toConfig ∧
      (Silent plantEnv siteWorld exactConv treeText (fun _ => none) plantRegistry siteOrders 1 file s →
        Unchanged (autoFillNodeConfig (restamp 0 cfg)).toConfig (restamp 1 cfg).toConfig) := by
  obtain ⟨s, hs⟩ := Option.isSome_iff_exists.mp hstart
  have hold : s.oldCfg = (autoFillNodeConfig (restamp 0 cfg)).toConfig := by
    rw [State.oldCfg, (start_running hs).1]
    rfl
  refine ⟨s, hs, hold ▸ hord, fun h => ?_⟩
  rw [← hold]
  exact (silent_iff hload (hold ▸ hord)).mp h

def brokerOnly : List (String × Tree) := [("broker", text "tcp")]

def nanSetting : List (String × Tree) := [("qos", .scalar (.float (.nan 0)))]

/-- **A reload that is not a no-op**: the settings and the rule that were filled in are missing in the file; and a
NaN is not equal to that of another parse. -/
theorem reload_not_silent :
    (load siteWorld exactConv treeText (fun _ => none) plantRegistry (siteDoc "n1" brokerOnly []) =
        some (siteConfig "n1" brokerOnly []) ∧
      ∃ s, siteStart (siteConfig "n1" brokerOnly []) = some s ∧
        siteOrders.Valid s.oldCfg (restamp 1 (siteConfig "n1" brokerOnly [])).toConfig ∧
        ¬ Silent plantEnv siteWorld exactConv treeText (fun _ => none) plantRegistry siteOrders 1
          (siteDoc "n1" brokerOnly []) s) ∧
    load siteWorld exactConv treeText (fun _ => none) plantRegistry (siteDoc "" nanSetting []) =
        some (siteConfig "" nanSetting []) ∧
      ∃ s, siteStart (siteConfig "" nanSetting []) = some s ∧
        siteOrders.Valid s.oldCfg (restamp 1 (siteConfig "" nanSetting [])).toConfig ∧
        ¬ Silent plantEnv siteWorld exactConv treeText (fun _ => none) plantRegistry siteOrders 1
          (siteDoc "" nanSetting []) s := by
  have hload : load siteWorld exactConv treeText (fun _ => none) plantRegistry (siteDoc "n1" brokerOnly []) =
      some (siteConfig "n1" brokerOnly []) := by decide +kernel
  have hload' : load siteWorld exactConv treeText (fun _ => none) plantRegistry (siteDoc "" nanSetting []) =
      some (siteConfig "" nanSetting []) := by decide +kernel
  obtain ⟨s, hs, hord, himp⟩ := exists_siteStart hload (by decide +kernel) (by constructor <;> decide +kernel)
  obtain ⟨s', hs', hord', himp'⟩ := exists_siteStart hload' (by decide +kernel) (by constructor <;> decide +kernel)
  refine ⟨⟨hload, s, hs, hord, fun h => ?_⟩, hload', s', hs', hord', fun h => ?_⟩
  · exact absurd (himp h).rules (by decide +kernel)
  · exact absurd ((himp' h).transports "cloud") (by decide +kernel)

def fullSettings : List (String × Tree) :=
  [("broker", text "tcp"), ("command-topic", text "site/cmd"), ("topic-template", text "site/data")]

def forwardDoc : Tree :=
  .map [("name", text "all"), ("match", text "ALL"), ("action", text "forward"), ("target", text "cloud")]

def forwardRule : RuleConfig := { name := "all", match_ := "ALL", action := "forward", target := "cloud" }

/-- A file in which everything is given is reloaded without a call. -/
theorem reload_silent_iff_full : ∃ s, siteStart (siteConfig "n1" fullSettings [forwardRule]) = some s ∧
    Silent plantEnv siteWorld exactConv treeText (fun _ => none) plantRegistry siteOrders 1
      (siteDoc "n1" fullSettings [forwardDoc]) s := by
  have hload : load siteWorld exactConv treeText (fun _ => none) plantRegistry
      (siteDoc "n1" fullSettings [forwardDoc]) =
      some (siteConfig "n1" fullSettings [forwardRule]) := by decide +kernel
  obtain ⟨s, hs, hord, -⟩ := exists_siteStart hload (by decide +kernel) (by constructor <;> decide +kernel)
  refine ⟨s, hs, (reload_silent_iff plantEnv siteWorld exactConv treeText (fun _ => none) plantRegistry _ _ hload
    (fun _ => false) emptyRules s hs siteOrders hord).mpr ⟨.inr ⟨?_, .inl nofun⟩, nofun, ?_⟩⟩
  · intro t ht _
    obtain rfl := mem_singleton.mp ht
    exact ⟨by decide +kernel, by decide +kernel, by decide +kernel⟩
  · intro t ht
    obtain rfl := mem_singleton.mp ht
    unfold GoMap.NoNaN
    decide +kernel

end CoreC.Executor.Startup
