import CoreC.Engine.Derived
import CoreC.Executor.Active

/-! # The dry run

`executor.Validate` parses and validates a payload without applying it, as a prediction of what a reload of it does.
The reload makes the same two checks and then applies the configuration, and there rules are built and derived tags
are compiled, which validation does not try. -/

namespace CoreC.Executor.DryRun

open Core.Types Lib.Yaml Lib.Yaml.Decode Lib.GoText Config.Validate Config.Parse
  Config.Sections Executor.Apply Executor.Diff Executor.Active Rules.Build
  Engine.Derived
open Executor.Startup (restamp)
open Executor.Remove (Origin)

/-! ### The model -/

inductive DryRunError where
  | emptyPayload
  | parse (e : ParseError)
  | invalid (e : ConfigError)
  deriving DecidableEq

section

variable {T P : Type} (env : BuildEnv) (c : Conv) (lib : YamlText T) (parseDuration : String → Option ℤ)
  (reg : Registry) (compile : String → Option P)

/-- `Validate`, with the configuration whose warnings it returns; `none` is the empty payload. -/
def validatePayload (w : World T) (parses : ℕ) (payload : Option T) : Except DryRunError FullConfig :=
  match payload with
  | none => .error .emptyPayload
  | some text =>
    match parseNoValidate w c lib text with
    | .error e => .error (.parse e)
    | .ok parsed =>
      let cfg := restamp parses parsed
      match validate parseDuration reg cfg with
      | .error e => .error (.invalid e)
      | .ok () => .ok cfg

/-- Which calls of the components fail. -/
structure Answers where
  driver : CompOp DriverConfig → Bool := fun _ => false
  transport : CompOp TransportConfig → Bool := fun _ => false

/-- The calls of the engine that fail: those of its components, and `ApplyDerivedTags` where it returns an error.
`SetRules` has no reason to fail besides those of `setRules`. -/
def engineFails (started : Bool) (answers : Answers) : Op → Bool
  | .driver op => answers.driver op
  | .transport op => answers.transport op
  | .setRules _ => false
  | .applyDerivedTags tags =>
    match applyDerivedTags parseDuration compile started tags with
    | .ok _ => false
    | .error _ => true

end

def OfComponent : Op → Prop
  | .driver _ => True
  | .transport _ => True
  | _ => False

/-- Only a call of a component fails. -/
def OnlyComponents (result : ActiveState × Option CallError) : Prop :=
  ∀ e, result.2 = some e → ∃ op, e = .resource (.apply op) ∧ OfComponent op

/-- No call of a component fails. -/
def ComponentsPass (fails : Op → Bool) (ord : Orders) (old cfg : Config) (s : State) : Prop :=
  (diffDrivers (fun op => fails (.driver op)) old.drivers cfg.drivers false ord.oldDrivers ord.newDrivers
      ⟨s.drivers, [], []⟩).2 = none ∧
    (diffTransports (fun op => fails (.transport op)) old.transports cfg.transports false ord.oldTransports
      ord.newTransports ⟨s.transports, [], []⟩).2 = none

/-- What the rule builder finds for the match of a rule: a provider, a group, `ALL`, or an expression. -/
def MatchResolves (env : BuildEnv) (r : RuleConfig) : Prop :=
  let text := trimSpace r.match_.toList
  if hasUpperPrefix "RULE-SET:".toList text then (env.providers (String.ofList (dropBytes 9 text))).isSome = true
  else if hasUpperPrefix "SUB-RULE:".toList text then (env.subEngines (String.ofList (dropBytes 9 text))).isSome = true
  else equalFold r.match_.toList "ALL".toList = true ∨ (env.compileExpr r.match_).isSome = true

/-! ### The rules -/

section

variable {env : BuildEnv}

theorem parseAction_isSome {s : String} :
    (parseAction s).isSome ↔ toLower s ∈ ["forward", "drop", "alert", "transform", "mirror"] := by
  unfold parseAction toLower
  split <;> simp_all

variable {rules : List RuleConfig} {r : RuleConfig}

theorem newDelegateRule_ok_iff {eval : DataPoint → Bool × List StatEvent} :
    (∃ rule, newDelegateRule r eval = .ok rule) ↔ (parseAction r.action).isSome := by
  unfold newDelegateRule
  cases parseAction r.action <;> simp

theorem newSimpleRule_ok_iff : (∃ rule, newSimpleRule env r = .ok rule) ↔ (parseAction r.action).isSome ∧
      (equalFold r.match_.toList "ALL".toList ∨ (env.compileExpr r.match_).isSome) := by
  unfold newSimpleRule
  cases parseAction r.action with
  | none => simp
  | some action =>
    split_ifs with hall
    · exact ⟨fun _ => ⟨rfl, .inl hall⟩, fun _ => ⟨_, rfl⟩⟩
    · cases env.compileExpr r.match_ with
      | none => exact ⟨nofun, fun h => absurd (h.2.resolve_left hall) nofun⟩
      | some eval => exact ⟨fun _ => ⟨rfl, .inr rfl⟩, fun _ => ⟨_, rfl⟩⟩

/-- **A rule is built if and only if its action is known and its match resolves.** -/
theorem newRule_ok_iff : (∃ rule, newRule env r = .ok rule) ↔ (parseAction r.action).isSome ∧ MatchResolves env r := by
  unfold newRule MatchResolves newRuleSetRule newSubRuleRef
  simp only
  split_ifs with hset hsub
  · cases env.providers (String.ofList (dropBytes 9 (trimSpace r.match_.toList))) with
    | none => simp
    | some p => simpa using newDelegateRule_ok_iff
  · cases env.subEngines (String.ofList (dropBytes 9 (trimSpace r.match_.toList))) with
    | none => simp
    | some sub => simpa using newDelegateRule_ok_iff
  · exact newSimpleRule_ok_iff

theorem buildRules_ok_iff :
    (∃ built, buildRules env rules = .ok built) ↔ ∀ r ∈ rules, ∃ rule, newRule env r = .ok rule := by
  induction rules with
  | nil => simp [buildRules]
  | cons r rules ih =>
    rw [List.forall_mem_cons, ← ih, buildRules]
    cases newRule env r with
    | error e => simp
    | ok rule => cases buildRules env rules <;> simp

theorem setRules_ok_iff {group : Option String} :
    (∃ e, setRules env group rules = .ok e) ↔ ∀ r ∈ rules, ∃ rule, newRule env r = .ok rule := by
  rw [← buildRules_ok_iff, setRules]
  cases buildRules env rules <;> simp

theorem parseAction_of_validateRules {transportNames r : List String}
    (h : validateRules transportNames rules = .ok r) : ∀ rule ∈ rules, (parseAction rule.action).isSome := by
  intro rule hrule
  obtain ⟨names, r', hok⟩ := forall_of_validateEach h rule hrule
  unfold validateRule at hok
  simp only [check_bind_ok, decide_eq_true_eq] at hok
  exact parseAction_isSome.mpr hok.2.2.2.1

/-- **Rules that are validated are installed if and only if every match resolves.** -/
theorem setRules_resolves_iff {transportNames r : List String} (h : validateRules transportNames rules = .ok r)
    (group : Option String) :
    (∃ e, setRules env group rules = .ok e) ↔ ∀ rule ∈ rules, MatchResolves env rule := by
  rw [setRules_ok_iff]
  refine forall₂_congr fun rule hrule => ?_
  rw [newRule_ok_iff]
  exact and_iff_right (parseAction_of_validateRules h rule hrule)

/-! ### Applying the configuration -/

variable {fails rollbackFails : Op → Bool} {ord : Orders} {cfg : Config} {s : State}

theorem applyRules_error {old : Config} {r : Reload} (hset : fails (.setRules cfg.rules) = false) :
    (applyRules env fails old cfg false r).2 = none ∧
        (old.rules = cfg.rules ∨ ∃ e, setRules env r.rules.group cfg.rules = .ok e) ∨
      (applyRules env fails old cfg false r).2 = some (.setRules cfg.rules) ∧
        ¬ (old.rules = cfg.rules ∨ ∃ e, setRules env r.rules.group cfg.rules = .ok e) := by
  by_cases hsame : old.rules = cfg.rules
  · exact .inl ⟨by simp [applyRules, hsame], .inl hsame⟩
  · cases hrules : setRules env r.rules.group cfg.rules with
    | ok e => exact .inl ⟨by simp [applyRules, hsame, engineSetRules, hset, hrules], .inr ⟨e, rfl⟩⟩
    | error e => exact .inr ⟨by simp [applyRules, hsame, engineSetRules, hrules], by simp [hsame]⟩

/-- **Only a driver or a transport makes the application fail if and only if one of them fails, or the rules and the
derived tags can be installed as far as they changed.** -/
theorem applyConfig_components_iff (hset : fails (.setRules cfg.rules) = false) :
    (∀ op, (applyConfig env fails rollbackFails ord cfg false s).2 = some op → OfComponent op) ↔
      (ComponentsPass fails ord s.oldCfg cfg s →
        (s.oldCfg.rules = cfg.rules ∨ ∃ e, setRules env s.rules.group cfg.rules = .ok e) ∧
          (s.oldCfg.derivedTags = cfg.derivedTags ∨ fails (.applyDerivedTags cfg.derivedTags) = false)) := by
  unfold applyConfig applyDiffs ComponentsPass
  dsimp only
  rcases diffDrivers (fun op => fails (.driver op)) s.oldCfg.drivers cfg.drivers false ord.oldDrivers ord.newDrivers
    ⟨s.drivers, [], []⟩ with ⟨d, _ | e⟩
  · rcases diffTransports (fun op => fails (.transport op)) s.oldCfg.transports cfg.transports false
      ord.oldTransports ord.newTransports ⟨s.transports, [], []⟩ with ⟨t, _ | e⟩
    · dsimp only
      have hrules := @applyRules_error env fails cfg s.oldCfg ⟨d, t, s.rules, false⟩ hset
      revert hrules
      rcases applyRules env fails s.oldCfg cfg false ⟨d, t, s.rules, false⟩ with ⟨r, _ | e⟩
      · rintro (⟨-, hok⟩ | ⟨⟨⟩, -⟩)
        split_ifs with hderived
        · rw [Bool.and_eq_true, Bool.false_or, decide_eq_true_eq] at hderived
          refine ⟨fun h => absurd (h _ rfl) id, fun h => ?_⟩
          rcases (h ⟨rfl, rfl⟩).2 with hsame | hno
          · exact absurd hsame hderived.1
          · exact absurd hderived.2 (by simp [hno])
        · refine ⟨fun _ _ => ⟨hok, ?_⟩, fun _ => nofun⟩
          by_contra hbad
          rw [not_or] at hbad
          exact hderived (by simp [hbad.1, hbad.2])
      · rintro (⟨⟨⟩, -⟩ | ⟨he, hbad⟩)
        cases he
        exact ⟨fun h => absurd (h _ rfl) id, fun h => absurd (h ⟨rfl, rfl⟩).1 hbad⟩
    · refine ⟨fun _ h => absurd h.2 nofun, fun _ op hop => ?_⟩
      cases hop
      trivial
  · refine ⟨fun _ h => absurd h.1 nofun, fun _ op hop => ?_⟩
    cases hop
    trivial

/-! ### The prediction -/

section

variable {T P : Type} {c : Conv} {lib : YamlText T} {parseDuration : String → Option ℤ} {reg : Registry}
  {compile : String → Option P} {w : World T}

theorem validatePayload_eq_ok {parses : ℕ} {payload : Option T} {cfg : FullConfig} :
    validatePayload c lib parseDuration reg w parses payload = .ok cfg ↔
      ∃ text parsed, payload = some text ∧ parseNoValidate w c lib text = .ok parsed ∧ cfg = restamp parses parsed ∧
        validate parseDuration reg cfg = .ok () := by
  unfold validatePayload
  constructor
  · intro h
    cases payload with
    | none => cases h
    | some text =>
      cases hparse : parseNoValidate w c lib text with
      | error e =>
        simp only [hparse] at h
        cases h
      | ok parsed =>
        cases hvalid : validate parseDuration reg (restamp parses parsed) with
        | error e =>
          simp only [hparse, hvalid] at h
          cases h
        | ok u =>
          simp only [hparse, hvalid] at h
          cases h
          exact ⟨text, parsed, rfl, hparse, rfl, hvalid⟩
  · rintro ⟨text, parsed, rfl, hparse, rfl, hvalid⟩
    simp [hparse, hvalid]

theorem engineFails_derived {tags : List DerivedTagConfig} (h : ∃ r, validateDerivedTags tags = .ok r) (started : Bool)
    (answers : Answers) :
    engineFails parseDuration compile started answers (.applyDerivedTags tags) = false ↔
      started = true ∧ (∀ t ∈ tags, Compiles parseDuration compile t) ∧
        ∀ name, ¬ Relation.TransGen (Reads tags) name name := by
  rw [← applyDerivedTags_ok_iff h started, engineFails]
  cases applyDerivedTags parseDuration compile started tags <;> simp

theorem reload_error_iff {around : Surroundings T} {x : ActiveState} {payload : Option T} {keys : List String}
    {origin : Origin} {cfg : FullConfig} {e : CallError}
    (hdry : validatePayload c lib parseDuration reg around.world x.parses payload = .ok cfg) :
    (reloadWithOrigin env c lib parseDuration reg around payload keys origin x).2 = some e ↔
      ∃ op, e = .resource (.apply op) ∧
        (applyConfig env around.fails around.rollbackFails around.ord cfg.toConfig false x.hub.state).2 = some op := by
  obtain ⟨text, parsed, rfl, hparse, rfl, hvalid⟩ := validatePayload_eq_ok.mp hdry
  have haccepts : accepts parseDuration reg (restamp x.parses parsed) = true := accepts_iff.mpr hvalid
  simp only [reloadWithOrigin, hparse, Remove.reloadPayload, haccepts]
  rcases applyConfig env around.fails around.rollbackFails around.ord (restamp x.parses parsed).toConfig false
    x.hub.state with ⟨s, _ | op⟩
  · simp
  · simp [eq_comm]

/-- **After a successful dry run, only a driver or a transport makes the reload fail if and only if one of them
fails, or every match of the rules resolves and the derived tags compile and do not read themselves, where they
changed.** -/
theorem reload_predicted_iff (env : BuildEnv) (c : Conv) (lib : YamlText T) (parseDuration : String → Option ℤ)
    (reg : Registry) (compile : String → Option P) (started : Bool) (answers : Answers) (around : Surroundings T)
    (x : ActiveState) (payload : Option T) (keys : List String) (origin : Origin) (cfg : FullConfig)
    (hdry : validatePayload c lib parseDuration reg around.world x.parses payload = .ok cfg)
    (hengine : around.fails = engineFails parseDuration compile started answers) :
    OnlyComponents (reloadWithOrigin env c lib parseDuration reg around payload keys origin x) ↔
      (ComponentsPass around.fails around.ord x.hub.state.oldCfg cfg.toConfig x.hub.state →
        (x.hub.state.oldCfg.rules = cfg.rules ∨ ∀ r ∈ cfg.rules, MatchResolves env r) ∧
          (x.hub.state.oldCfg.derivedTags = cfg.derivedTags ∨
            started = true ∧ (∀ t ∈ cfg.derivedTags, Compiles parseDuration compile t) ∧
              ∀ name, ¬ Relation.TransGen (Reads cfg.derivedTags) name name)) := by
  obtain ⟨text, parsed, -, -, -, hvalid⟩ := validatePayload_eq_ok.mp hdry
  have haccepted := validate_ok_iff.mp hvalid
  obtain ⟨transportNames, ruleNames, -, hrules⟩ := haccepted.rules
  have hset : around.fails (.setRules cfg.rules) = false := by
    rw [hengine, engineFails]
  have hcomponents := @applyConfig_components_iff env around.fails around.rollbackFails around.ord cfg.toConfig
    x.hub.state hset
  have hderived : around.fails (.applyDerivedTags cfg.derivedTags) = false ↔
      started = true ∧ (∀ t ∈ cfg.derivedTags, Compiles parseDuration compile t) ∧
        ∀ name, ¬ Relation.TransGen (Reads cfg.derivedTags) name name := by
    rw [hengine]
    exact engineFails_derived haccepted.derivedTags started answers
  have honly : OnlyComponents (reloadWithOrigin env c lib parseDuration reg around payload keys origin x) ↔
      ∀ op, (applyConfig env around.fails around.rollbackFails around.ord cfg.toConfig false x.hub.state).2 = some op →
        OfComponent op := by
    constructor
    · intro h op hop
      obtain ⟨op', he, hof⟩ := h _ ((reload_error_iff hdry).mpr ⟨op, rfl, hop⟩)
      cases he
      exact hof
    · intro h e he
      obtain ⟨op, rfl, hop⟩ := (reload_error_iff hdry).mp he
      exact ⟨op, rfl, h op hop⟩
  rw [honly, hcomponents, setRules_resolves_iff hrules, hderived]

end

end

/-! ### A node that runs nothing -/

theorem not_onlyComponents {result : ActiveState × Option CallError} {op : Op}
    (h : result.2 = some (.resource (.apply op))) (hop : ¬ OfComponent op) : ¬ OnlyComponents result := by
  intro honly
  obtain ⟨op', he, hof⟩ := honly _ h
  cases he
  exact hop hof

def idle : ActiveState where
  hub :=
    { mem := ⟨[], [], []⟩
      currentCfg := none
      drivers := fun _ => none
      transports := fun _ => none
      rules := Startup.emptyRules
      derivedTags := []
      audit := [] }
  rest := {}

/-- A compiler that refuses `value >`. -/
def siteEnv : BuildEnv where
  providers _ := none
  subEngines _ := none
  compileExpr expr := if expr = "value >" then none else some fun _ => true

/-- One of derived tags that refuses `1 +`. -/
def siteCompile (expr : String) : Option Unit := if expr = "1 +" then none else some ()

def payloadDoc (matchText expr interval : String) : Tree :=
  .map [("transports", .seq [.map [("name", text "cloud"), ("type", text "mqtt")]]),
    ("rules", .seq [.map [("name", text "hot"), ("match", text matchText), ("action", text "forward"),
      ("target", text "cloud")]]),
    ("derived-tags", .seq [.map [("name", text "double"), ("expr", text expr), ("interval", text interval)]])]

def calm : Surroundings Tree where
  world := Startup.siteWorld
  fails := engineFails durations siteCompile true {}
  ord := ⟨[], [], [], ["cloud"]⟩

def siteDryRun (doc : Tree) : Except DryRunError FullConfig :=
  validatePayload exactConv treeText durations plantRegistry Startup.siteWorld 0 (some doc)

def siteReload (doc : Tree) : ActiveState × Option CallError :=
  reloadWithOrigin siteEnv exactConv treeText durations plantRegistry calm (some doc) ["payload"] {} idle

def payloadConfig (matchText expr interval : String) : FullConfig where
  transports := [{ name := "cloud", type := "mqtt" }]
  rules := [{ name := "hot", match_ := matchText, action := "forward", target := "cloud" }]
  derivedTags := [{ name := "double", expr := expr, type := 0, interval := interval }]

/-- **Payloads that pass the dry run and that the reload refuses**: a match with a syntax error, a derived tag with
one, and a derived tag that reads itself. -/
theorem dry_run_misses :
    (siteDryRun (payloadDoc "value >" "speed * 2" "30s") = .ok (payloadConfig "value >" "speed * 2" "30s") ∧
      ¬ OnlyComponents (siteReload (payloadDoc "value >" "speed * 2" "30s"))) ∧
    (siteDryRun (payloadDoc "value > 1" "1 +" "30s") = .ok (payloadConfig "value > 1" "1 +" "30s") ∧
      ¬ OnlyComponents (siteReload (payloadDoc "value > 1" "1 +" "30s"))) ∧
    siteDryRun (payloadDoc "value > 1" "double + 1" "30s") = .ok (payloadConfig "value > 1" "double + 1" "30s") ∧
      ¬ OnlyComponents (siteReload (payloadDoc "value > 1" "double + 1" "30s")) := by
  refine ⟨⟨by decide +kernel, ?_⟩, ⟨by decide +kernel, ?_⟩, by decide +kernel, ?_⟩
  · have herror : (siteReload (payloadDoc "value >" "speed * 2" "30s")).2 =
        some (.resource (.apply (.setRules (payloadConfig "value >" "speed * 2" "30s").rules))) := by decide +kernel
    exact not_onlyComponents herror id
  · have herror : (siteReload (payloadDoc "value > 1" "1 +" "30s")).2 =
        some (.resource (.apply (.applyDerivedTags (payloadConfig "value > 1" "1 +" "30s").derivedTags))) := by
      decide +kernel
    exact not_onlyComponents herror id
  · have herror : (siteReload (payloadDoc "value > 1" "double + 1" "30s")).2 =
        some (.resource (.apply (.applyDerivedTags (payloadConfig "value > 1" "double + 1" "30s").derivedTags))) := by
      decide +kernel
    exact not_onlyComponents herror id

/-- A payload with a rule and a derived tag that are fine. -/
theorem reload_predicted_iff_fine :
    siteDryRun (payloadDoc "value > 1" "speed * 2" "30s") = .ok (payloadConfig "value > 1" "speed * 2" "30s") ∧
      OnlyComponents (siteReload (payloadDoc "value > 1" "speed * 2" "30s")) := by
  have hdry : siteDryRun (payloadDoc "value > 1" "speed * 2" "30s") =
      .ok (payloadConfig "value > 1" "speed * 2" "30s") := by decide +kernel
  refine ⟨hdry, (reload_predicted_iff siteEnv exactConv treeText durations plantRegistry siteCompile true {} calm idle
    _ ["payload"] {} _ hdry rfl).mpr fun _ => ⟨.inr ?_, .inr ⟨rfl, ?_, ?_⟩⟩⟩
  · intro r hr
    obtain rfl := List.mem_singleton.mp hr
    unfold MatchResolves
    decide +kernel
  · intro t ht
    obtain rfl := List.mem_singleton.mp ht
    exact ⟨⟨_, rfl, by decide⟩, .inl rfl, by decide, by decide⟩
  · -- the derived tag reads `speed` only
    intro name hcycle
    obtain ⟨name', ⟨t, ht, -, hread, hmem⟩, -⟩ := Relation.TransGen.head'_iff.mp hcycle
    obtain rfl := List.mem_singleton.mp ht
    have hspeed : referencesOf "speed * 2" = ["speed"] := by decide +kernel
    obtain rfl := List.mem_singleton.mp (hspeed ▸ hread)
    exact absurd hmem (by decide)

end CoreC.Executor.DryRun
