import CoreC.Core.Types
import CoreC.Lib.Buckets
import CoreC.Lib.GoText

/-! # Building the rule list

`newRule` turns a rule configuration into a rule: a reference to a provider (`RULE-SET:name`), to a sub-rule group
(`SUB-RULE:name`), or a match expression. `setRules` builds all rules, sorts them stably by priority, numbers them by
position and distributes them over an index by driver and the rest.

A sub-rule group counts hits and misses of its own, so evaluating a rule yields its verdict and the counter increments
inside it (`StatEvent`). The expression compiler is a parameter. -/

namespace CoreC.Rules.Build

open Core.Types Lib.Buckets Lib.GoText List

inductive Action where
  | forward | drop | alert | transform | mirror
  deriving DecidableEq, Repr

def parseAction (s : String) : Option Action :=
  match String.ofList (s.toList.map lowerRune) with
  | "forward" => some .forward
  | "drop" => some .drop
  | "alert" => some .alert
  | "transform" => some .transform
  | "mirror" => some .mirror
  | _ => none

/-- A rule wrapper: the sub-rule group it belongs to (`none` for the main list) and its position. -/
structure RuleId where
  group : Option String
  seq : ℕ
  deriving DecidableEq, Repr

/-- An increment of a wrapper's hit or miss counter. -/
inductive StatEvent where
  | hit (id : RuleId)
  | miss (id : RuleId)
  deriving DecidableEq, Repr

/-- A built rule (`core.Rule`). `driverFilter` is empty for the rules that declare none. -/
structure Rule where
  name : String
  action : Action
  target : String
  targets : List String
  priority : ℤ
  transform : Option TransformConfig
  continue_ : Bool
  driverFilter : String
  eval : DataPoint → Bool × List StatEvent

/-- What the rule builder refers to: the registered providers, the sub-rule groups (the verdict and
the increments of the group's own `Match`), and the expression compiler. -/
structure BuildEnv where
  providers : String → Option (DataPoint → Bool)
  subEngines : String → Option (DataPoint → Bool × List StatEvent)
  compileExpr : String → Option (DataPoint → Bool)

/-- The errors of `newRule`. -/
inductive BuildError where
  | unknownAction (action : String)
  | providerNotFound (name : String)
  | subRuleNotFound (name : String)
  | invalidMatch (expr : String)
  deriving DecidableEq, Repr

/-! ### The driver filter of a match expression -/

def expect : List Char → List Char → Option (List Char)
  | [], s => some s
  | c :: p, d :: s => if c = d then expect p s else none
  | _ :: _, [] => none

/-- A quote character of `['"]`. -/
def isQuote (c : Char) : Bool := c = '\'' || c = '"'

/-- `driverFilterRe`, that is `(?i)^\s*driver\s*==\s*['"]([^'"]+)['"]\s*(?:&&|$)`: the opening quote,
the captured name, the closing quote, and whether the match ends with `&&` or with the text. -/
def driverFilterRe (s : List Char) : Option (Char × List Char × Char) := do
  let s := s.dropWhile isBlank
  guard (equalFold (s.take 6) "driver".toList)
  let s ← expect "==".toList ((s.drop 6).dropWhile isBlank)
  match s.dropWhile isBlank with
  | q :: s =>
    guard (isQuote q)
    let name := s.takeWhile fun c => !isQuote c
    guard (name ≠ [])
    match s.drop name.length with
    | q' :: s =>
      let s := s.dropWhile isBlank
      guard (s = [] ∨ (expect "&&".toList s).isSome)
      return (q, name, q')
    | [] => none
  | [] => none

def extractDriverFilter (matchExpr : String) : String :=
  if equalFold matchExpr.toList "ALL".toList then ""
  else
    match driverFilterRe matchExpr.toList with
    | some (_, name, _) => String.ofList name
    | none => ""

/-! ### Rules from configurations -/

variable (cfg : RuleConfig)

def ruleTargets : List String :=
  if cfg.targets = [] ∧ cfg.target ≠ "" then [cfg.target] else cfg.targets

/-- A rule that delegates its match, as `newRuleSetRule` and `newSubRuleRef` build it: no transform
and no driver filter. -/
def newDelegateRule (eval : DataPoint → Bool × List StatEvent) :
    Except BuildError Rule :=
  match parseAction cfg.action with
  | none => .error (.unknownAction cfg.action)
  | some action => .ok
    { name := cfg.name, action, target := cfg.target, targets := ruleTargets cfg,
      priority := cfg.priority, transform := none, continue_ := cfg.continue_,
      driverFilter := "", eval }

def newRuleSetRule (p : DataPoint → Bool) : Except BuildError Rule :=
  newDelegateRule cfg fun point => (p point, [])

def newSubRuleRef (sub : DataPoint → Bool × List StatEvent) :
    Except BuildError Rule :=
  newDelegateRule cfg sub

/-- `newSimpleRule` with the match of `simpleRule.Match`. -/
def newSimpleRule (env : BuildEnv) (cfg : RuleConfig) : Except BuildError Rule :=
  match parseAction cfg.action with
  | none => .error (.unknownAction cfg.action)
  | some action =>
    let rule (eval : DataPoint → Bool) : Rule :=
      { name := cfg.name, action, target := cfg.target, targets := ruleTargets cfg,
        priority := cfg.priority, transform := cfg.transform, continue_ := cfg.continue_,
        driverFilter := extractDriverFilter cfg.match_, eval := fun point => (eval point, []) }
    if equalFold cfg.match_.toList "ALL".toList then .ok (rule fun _ => true)
    else
      match env.compileExpr cfg.match_ with
      | none => .error (.invalidMatch cfg.match_)
      | some eval => .ok (rule eval)

/-- `newRule`: dispatch on the match text. -/
def newRule (env : BuildEnv) (cfg : RuleConfig) : Except BuildError Rule :=
  let text := trimSpace cfg.match_.toList
  if hasUpperPrefix "RULE-SET:".toList text then
    let name := String.ofList (dropBytes 9 text)
    match env.providers name with
    | none => .error (.providerNotFound name)
    | some p => newRuleSetRule cfg p
  else if hasUpperPrefix "SUB-RULE:".toList text then
    let name := String.ofList (dropBytes 9 text)
    match env.subEngines name with
    | none => .error (.subRuleNotFound name)
    | some sub => newSubRuleRef cfg sub
  else newSimpleRule env cfg

/-! ### The rule list and its index -/

/-- A rule with its position in the sorted list (`ruleWrapper`; the disabled flag and the counters
live outside). -/
structure RuleWrapper where
  rule : Rule
  seq : ℕ

def RuleWrapper.key (w : RuleWrapper) : Option String :=
  if w.rule.driverFilter = "" then none else some w.rule.driverFilter

/-- `rule.Engine`: the sorted rules, their index, and which of them are disabled. -/
structure Engine where
  group : Option String
  rules : List RuleWrapper
  driverIndex : AList fun _ : String => List RuleWrapper
  universalRules : List RuleWrapper
  disabled : ℕ → Bool

def buildRules (env : BuildEnv) : List RuleConfig → Except BuildError (List Rule)
  | [] => .ok []
  | cfg :: cfgs =>
    match newRule env cfg with
    | .error e => .error e
    | .ok r =>
      match buildRules env cfgs with
      | .error e => .error e
      | .ok rs => .ok (r :: rs)

def wrapRules (rules : List Rule) : List RuleWrapper :=
  ((rules.insertionSort fun r r' => r.priority ≤ r'.priority).zipIdx).map fun x => ⟨x.1, x.2⟩

/-- `SetRules` on an engine of the given group: the new rules are all enabled. -/
def setRules (env : BuildEnv) (group : Option String) (configs : List RuleConfig) :
    Except BuildError Engine :=
  match buildRules env configs with
  | .error e => .error e
  | .ok rules =>
    let wrapped := wrapRules rules
    .ok { group, rules := wrapped, driverIndex := buckets RuleWrapper.key wrapped,
          universalRules := wrapped.filter fun w => w.key = none, disabled := fun _ => false }

/-- `SetRuleDisabled`: out of range is an error. -/
def setRuleDisabled (e : Engine) (index : ℕ) (disabled : Bool) : Option Engine :=
  if index < e.rules.length then
    some { e with disabled := Function.update e.disabled index disabled }
  else none

/-! ### What building guarantees -/

def Rule.Plain (r : Rule) : Prop := r.driverFilter ≠ "" → ∀ p, (r.eval p).2 = []

variable {env : BuildEnv} {e : Engine} {r : Rule} {cfg : RuleConfig}

theorem newDelegateRule_filter {eval : DataPoint → Bool × List StatEvent}
    (h : newDelegateRule cfg eval = .ok r) : r.driverFilter = "" := by
  unfold newDelegateRule at h
  split at h
  · cases h
  · cases h; rfl

theorem newSimpleRule_plain (h : newSimpleRule env cfg = .ok r) : r.Plain := by
  unfold newSimpleRule at h
  split at h
  · cases h
  · split_ifs at h
    · cases h; exact fun _ _ => rfl
    · split at h
      · cases h
      · cases h; exact fun _ _ => rfl

theorem newRule_plain (h : newRule env cfg = .ok r) : r.Plain := by
  unfold newRule at h
  dsimp only at h
  split_ifs at h
  · split at h
    · cases h
    · exact fun hf => absurd (newDelegateRule_filter h) hf
  · split at h
    · cases h
    · exact fun hf => absurd (newDelegateRule_filter h) hf
  · exact newSimpleRule_plain h

theorem buildRules_plain : ∀ {cfgs : List RuleConfig} {rs : List Rule}, buildRules env cfgs = .ok rs → ∀ r ∈ rs, r.Plain
  | [], rs, h => by cases h; simp
  | cfg :: cfgs, rs, h => by
    unfold buildRules at h
    split at h
    · cases h
    · next r hr =>
      split at h
      · cases h
      · next rs' hrs =>
        cases h
        intro x hx
        rcases mem_cons.mp hx with rfl | hx
        · exact newRule_plain hr
        · exact buildRules_plain hrs x hx

def Before (w w' : RuleWrapper) : Prop :=
  w.rule.priority ≤ w'.rule.priority ∧ w.seq < w'.seq

theorem pairwise_zipIdx {l : List Rule} (h : l.Pairwise fun r r' => r.priority ≤ r'.priority) :
    ∀ n, ((l.zipIdx n).map fun x => (⟨x.1, x.2⟩ : RuleWrapper)).Pairwise Before := by
  induction l with
  | nil => simp
  | cons r l ih =>
    intro n
    rw [pairwise_cons] at h
    rw [zipIdx_cons, map_cons, pairwise_cons]
    refine ⟨fun w hw => ?_, ih h.2 (n + 1)⟩
    obtain ⟨⟨r', i⟩, hx, rfl⟩ := mem_map.mp hw
    obtain ⟨h1, -, h2⟩ := mem_zipIdx hx
    exact ⟨h.1 r' (by rw [h2]; exact getElem_mem _), by simp at h1 ⊢; omega⟩

theorem wrapRules_pairwise (rules : List Rule) : (wrapRules rules).Pairwise Before := by
  have hs : (rules.insertionSort fun r r' => r.priority ≤ r'.priority).Pairwise
      fun r r' => r.priority ≤ r'.priority := by
    exact pairwise_insertionSort _ _
  exact pairwise_zipIdx hs 0

theorem wrapRules_plain {rules : List Rule} (h : ∀ r ∈ rules, r.Plain) : ∀ w ∈ wrapRules rules, w.rule.Plain := by
  intro w hw
  obtain ⟨⟨r, i⟩, hx, rfl⟩ := mem_map.mp hw
  obtain ⟨-, -, h2⟩ := mem_zipIdx hx
  refine h _ ?_
  have hmem : r ∈ rules.insertionSort fun r r' => r.priority ≤ r'.priority := by
    rw [h2]; exact getElem_mem _
  exact (perm_insertionSort _ _).mem_iff.mp hmem

/-- The engine after `SetRules` and any sequence of enabling and disabling: the rules stand in the
order of evaluation, and the index is what `SetRules` computes from them. -/
structure Engine.Installed (e : Engine) : Prop where
  sorted : e.rules.Pairwise Before
  plain : ∀ w ∈ e.rules, w.rule.Plain
  index : e.driverIndex = buckets RuleWrapper.key e.rules
  universal : e.universalRules = e.rules.filter fun w => w.key = none

variable {g : Option String} {cfgs : List RuleConfig}

theorem setRules_installed
    (h : setRules env g cfgs = .ok e) : e.Installed := by
  unfold setRules at h
  split at h
  · cases h
  · next rules hb =>
    cases h
    exact ⟨wrapRules_pairwise rules, wrapRules_plain (buildRules_plain hb), rfl, rfl⟩

theorem setRules_enabled
    (h : setRules env g cfgs = .ok e) : e.group = g ∧ ∀ i, e.disabled i = false := by
  unfold setRules at h
  split at h
  · cases h
  · cases h
    exact ⟨rfl, fun _ => rfl⟩

theorem Engine.Installed.withDisabled (h : e.Installed) (d : ℕ → Bool) :
    ({ e with disabled := d } : Engine).Installed :=
  ⟨h.sorted, h.plain, h.index, h.universal⟩

end CoreC.Rules.Build
