import CoreC.Config.Sections
import CoreC.Lib.Cycles

/-! # Derived tags

`engine/derived.go`: a derived tag is an expression over other tags, which are found in its text: `driver.tag`
(`extractQualifiedRefs`) and, in what remains, plain names (`extractVars`). `newDerivedTagEvaluator` compiles the tags
and then looks for a cycle in the references between them; `applyDerivedTags` does this for a reload. The compiler of
expressions and `time.ParseDuration` are parameters. -/

namespace CoreC.Engine.Derived

open Core.Types Lib.Cycles Config.Validate Config.Sections List

/-! ### The references of an expression -/

/-- `[a-zA-Z_]`. -/
def isIdentStart (c : Char) : Bool := c.isAlpha || c = '_'

/-- `\w`. -/
def isWord (c : Char) : Bool := c.isAlphanum || c = '_'

/-- A `driver.tag` reference. -/
structure QualifiedRef where
  driver : String
  tag : String
  deriving DecidableEq, Repr

/-- `identRe`, that is `[a-zA-Z_]\w*`, at the beginning of a text: the identifier and its length. -/
def identRe : List Char → Option (String × ℕ)
  | [] => none
  | c :: s =>
    if isIdentStart c then
      let word := c :: s.takeWhile isWord
      some (String.ofList word, word.length)
    else none

/-- `qualifiedRefRe`, that is `([a-zA-Z_]\w*)\.([a-zA-Z_]\w*)`, at the beginning of a text. -/
def qualifiedRefRe (s : List Char) : Option (QualifiedRef × ℕ) :=
  match identRe s with
  | none => none
  | some (driver, n) =>
    match s.drop n with
    | '.' :: t =>
      match identRe t with
      | none => none
      | some (tag, m) => some (⟨driver, tag⟩, n + 1 + m)
    | _ => none

def scan {M : Type} (re : List Char → Option (M × ℕ)) : ℕ → List Char → List (Char ⊕ M)
  | _, [] => []
  | k + 1, _ :: s => scan re k s
  | 0, c :: s =>
    match re (c :: s) with
    | some (m, len) => .inr m :: scan re (len - 1) s
    | none => .inl c :: scan re 0 s

def findAll {M : Type} (re : List Char → Option (M × ℕ)) (s : List Char) : List M :=
  (scan re 0 s).filterMap Sum.getRight?

/-- `ReplaceAllString`. -/
def replaceAll {M : Type} (re : List Char → Option (M × ℕ)) (by_ : List Char) (s : List Char) : List Char :=
  (scan re 0 s).flatMap (Sum.elim (fun c => [c]) fun _ => by_)

def exprBuiltins : List String :=
  ["true", "false", "nil", "in", "not", "and", "or", "if", "else", "len", "abs", "ceil", "floor", "round", "int",
    "float", "string", "toString", "format", "trim", "trimPrefix", "trimSuffix", "upper", "lower", "split", "join",
    "repeat", "replace", "contains", "startsWith", "endsWith", "matches", "find", "type", "kind", "isNil"]

def extractVars (expr : String) : List String :=
  let blanked := replaceAll qualifiedRefRe "‗‗‗‗".toList expr.toList
  ((findAll identRe blanked).filter (· ∉ exprBuiltins)).eraseDups

def extractQualifiedRefs (expr : String) : List QualifiedRef := (findAll qualifiedRefRe expr.toList).eraseDups

example : extractQualifiedRefs "plc1.temp * 2 + plc1.temp - derived.a" = [⟨"plc1", "temp"⟩, ⟨"derived", "a"⟩] ∧
    extractVars "abs(plc1.temp) * 2x + y + x" = ["x", "y"] := by decide +kernel

/-! ### Compiling -/

inductive OnMissingPolicy where
  | skip | badQuality | zero
  deriving DecidableEq, Repr

structure CompiledDerivedTag (P : Type) where
  config : DerivedTagConfig
  program : P
  vars : List String
  qualified : List QualifiedRef
  interval : ℤ
  staleGuard : ℤ
  onMissing : OnMissingPolicy

/-- The errors of `compileDerivedTag`. -/
inductive CompileError where
  | interval (text : String)
  | intervalTooShort (d : ℤ)
  | staleGuard (text : String)
  | onMissing (text : String)
  | expr (text : String)
  deriving DecidableEq, Repr

/-- The errors of `applyDerivedTags`. -/
inductive DerivedError where
  | notStarted
  | config (e : ConfigError)
  | tag (name : String) (e : CompileError)
  | cycle (path : List String)
  deriving DecidableEq

/-- `time.Second`, in nanoseconds. -/
def second : ℤ := 1000000000

def derivedDriverName : String := "derived"

def onMissingPolicy : String → Option OnMissingPolicy
  | "" => some .skip
  | "skip" => some .skip
  | "bad-quality" => some .badQuality
  | "zero" => some .zero
  | _ => none

section

variable {P : Type} (parseDuration : String → Option ℤ) (compile : String → Option P)

def parseStaleGuard (text : String) : Except CompileError ℤ :=
  if text = "" then .ok 0
  else
    match parseDuration text with
    | none => .error (.staleGuard text)
    | some d => .ok d

def compileDerivedTag (cfg : DerivedTagConfig) : Except CompileError (CompiledDerivedTag P) :=
  match parseDuration cfg.interval with
  | none => .error (.interval cfg.interval)
  | some interval =>
    if interval < second then .error (.intervalTooShort interval)
    else
      match parseStaleGuard parseDuration cfg.staleGuard with
      | .error e => .error e
      | .ok staleGuard =>
        match onMissingPolicy cfg.onMissing with
        | none => .error (.onMissing cfg.onMissing)
        | some onMissing =>
          match compile cfg.expr with
          | none => .error (.expr cfg.expr)
          | some program => .ok
            { config := cfg, program, vars := extractVars cfg.expr, qualified := extractQualifiedRefs cfg.expr,
              interval, staleGuard, onMissing }

/-- All tags, up to the first that fails. -/
def compileAll : List DerivedTagConfig → Except DerivedError (List (CompiledDerivedTag P))
  | [] => .ok []
  | cfg :: cfgs =>
    match compileDerivedTag parseDuration compile cfg with
    | .error e => .error (.tag cfg.name e)
    | .ok t =>
      match compileAll cfgs with
      | .error e => .error e
      | .ok ts => .ok (t :: ts)

variable (tags : List (CompiledDerivedTag P))

/-- The map `byName`; a later tag replaces an earlier one of the same name. -/
def byName (name : String) : Option (CompiledDerivedTag P) :=
  tags.reverse.find? fun t => t.config.name = name

def CompiledDerivedTag.references (t : CompiledDerivedTag P) : List String :=
  (t.qualified.filter (·.driver = derivedDriverName)).map (·.tag) ++ t.vars

def referenceGraph : Graph (CompiledDerivedTag P) where
  nodes := tags
  succ t := t.references.filterMap (byName tags)
  closed t t' h := by
    obtain ⟨name, -, hfind⟩ := mem_filterMap.mp h
    exact mem_reverse.mp (mem_of_find?_eq_some hfind)

def detectDerivedCycles : Except DerivedError Unit :=
  (visitAll (referenceGraph tags) (·.config.name)).mapError .cycle

/-- `newDerivedTagEvaluator`: the tags of the evaluator. -/
def newDerivedTagEvaluator (configs : List DerivedTagConfig) : Except DerivedError (List (CompiledDerivedTag P)) :=
  if configs = [] then .ok []
  else do
    let tags ← compileAll parseDuration compile configs
    detectDerivedCycles tags
    return tags

/-- `applyDerivedTags`; its `validateDerivedTags` makes the checks of the one in `config`. -/
def applyDerivedTags (started : Bool) (configs : List DerivedTagConfig) :
    Except DerivedError (List (CompiledDerivedTag P)) :=
  if started then do
    let _ ← (validateDerivedTags configs).mapError .config
    newDerivedTagEvaluator parseDuration compile configs
  else .error .notStarted

end

/-! ### When the tags are accepted -/

section

variable {P : Type} {parseDuration : String → Option ℤ} {compile : String → Option P}
  {tags : List (CompiledDerivedTag P)} {cfgs : List DerivedTagConfig}

/-- What `compileDerivedTag` asks of a tag. -/
structure Compiles (parseDuration : String → Option ℤ) (compile : String → Option P) (cfg : DerivedTagConfig) :
    Prop where
  interval : ∃ d, parseDuration cfg.interval = some d ∧ second ≤ d
  staleGuard : cfg.staleGuard = "" ∨ (parseDuration cfg.staleGuard).isSome
  onMissing : cfg.onMissing ∈ ["", "skip", "bad-quality", "zero"]
  expr : (compile cfg.expr).isSome

theorem onMissingPolicy_isSome {text : String} :
    (onMissingPolicy text).isSome ↔ text ∈ ["", "skip", "bad-quality", "zero"] := by
  unfold onMissingPolicy
  split <;> simp_all

theorem parseStaleGuard_ok {text : String} :
    (∃ d, parseStaleGuard parseDuration text = .ok d) ↔ text = "" ∨ (parseDuration text).isSome := by
  unfold parseStaleGuard
  by_cases htext : text = ""
  · simp [htext]
  · cases hd : parseDuration text <;> simp [htext]

variable {cfg : DerivedTagConfig} {t : CompiledDerivedTag P}

theorem compileDerivedTag_eq_ok :
    compileDerivedTag parseDuration compile cfg = .ok t ↔
      ∃ interval staleGuard onMissing program, parseDuration cfg.interval = some interval ∧ second ≤ interval ∧
        parseStaleGuard parseDuration cfg.staleGuard = .ok staleGuard ∧
        onMissingPolicy cfg.onMissing = some onMissing ∧ compile cfg.expr = some program ∧
        t = ⟨cfg, program, extractVars cfg.expr, extractQualifiedRefs cfg.expr, interval, staleGuard, onMissing⟩ := by
  unfold compileDerivedTag
  constructor
  · intro h
    split at h
    · cases h
    · next interval hinterval =>
      split at h
      · cases h
      · next hlong =>
        split at h
        · cases h
        · next staleGuard hguard =>
          split at h
          · cases h
          · next onMissing hmissing =>
            split at h
            · cases h
            · next program hprogram =>
              cases h
              exact ⟨interval, staleGuard, onMissing, program, hinterval, by omega, hguard, hmissing, hprogram, rfl⟩
  · rintro ⟨interval, staleGuard, onMissing, program, hinterval, hlong, hguard, hmissing, hprogram, rfl⟩
    simp [hinterval, if_neg (not_lt.mpr hlong), hguard, hmissing, hprogram]

theorem compileDerivedTag_ok_iff :
    (∃ t, compileDerivedTag parseDuration compile cfg = .ok t) ↔ Compiles parseDuration compile cfg := by
  simp only [compileDerivedTag_eq_ok]
  constructor
  · rintro ⟨t, interval, staleGuard, onMissing, program, hinterval, hlong, hguard, hmissing, hprogram, -⟩
    exact ⟨⟨interval, hinterval, hlong⟩, parseStaleGuard_ok.mp ⟨staleGuard, hguard⟩,
      onMissingPolicy_isSome.mp (hmissing ▸ rfl), hprogram ▸ rfl⟩
  · rintro ⟨⟨interval, hinterval, hlong⟩, hguard, hmissing, hexpr⟩
    obtain ⟨staleGuard, hguard'⟩ := parseStaleGuard_ok.mpr hguard
    obtain ⟨onMissing, hmissing'⟩ := Option.isSome_iff_exists.mp (onMissingPolicy_isSome.mpr hmissing)
    obtain ⟨program, hprogram⟩ := Option.isSome_iff_exists.mp hexpr
    exact ⟨_, interval, staleGuard, onMissing, program, hinterval, hlong, hguard', hmissing', hprogram, rfl⟩

theorem compileAll_eq_ok : ∀ {cfgs : List DerivedTagConfig} {tags : List (CompiledDerivedTag P)},
    compileAll parseDuration compile cfgs = .ok tags ↔
      List.Forall₂ (fun cfg t => compileDerivedTag parseDuration compile cfg = .ok t) cfgs tags
  | [], tags => by
    rw [compileAll, forall₂_nil_left_iff]
    exact ⟨fun h => (Except.ok.inj h).symm, fun h => h ▸ rfl⟩
  | cfg :: cfgs, tags => by
    rw [compileAll, forall₂_cons_left_iff]
    cases hcfg : compileDerivedTag parseDuration compile cfg with
    | error e => simp
    | ok t =>
      cases hrest : compileAll parseDuration compile cfgs with
      | error e => 
        simp only [reduceCtorEq, false_iff]
        rintro ⟨t', ts, -, htail, -⟩
        rw [← compileAll_eq_ok, hrest] at htail
        cases htail
      | ok ts =>
        constructor
        · rintro h
          cases h
          exact ⟨t, ts, rfl, compileAll_eq_ok.mp hrest, rfl⟩
        · rintro ⟨t', ts', ht, htail, rfl⟩
          rw [← compileAll_eq_ok, hrest] at htail
          cases ht
          cases htail
          rfl

theorem compileAll_ok_iff :
    (∃ tags, compileAll parseDuration compile cfgs = .ok tags) ↔ ∀ cfg ∈ cfgs, Compiles parseDuration compile cfg := by
  simp only [compileAll_eq_ok, ← compileDerivedTag_ok_iff]
  induction cfgs with
  | nil => simp
  | cons cfg cfgs ih =>
    rw [forall_mem_cons, ← ih]
    constructor
    · rintro ⟨tags, h⟩
      cases h with
      | cons hcfg hrest => exact ⟨⟨_, hcfg⟩, _, hrest⟩
    · rintro ⟨⟨t, ht⟩, ts, hts⟩
      exact ⟨t :: ts, .cons ht hts⟩

/-! ### Reference cycles -/

def referencesOf (expr : String) : List String :=
  ((extractQualifiedRefs expr).filter (·.driver = derivedDriverName)).map (·.tag) ++ extractVars expr

/-- A tag whose expression refers to another. -/
def Reads (cfgs : List DerivedTagConfig) (name name' : String) : Prop :=
  ∃ cfg ∈ cfgs, cfg.name = name ∧ name' ∈ referencesOf cfg.expr ∧ name' ∈ cfgs.map (·.name)

theorem byName_some {name : String}
    (h : byName tags name = some t) : t.config.name = name := by
  simpa using List.find?_some h

theorem byName_isSome {name : String} : (∃ t, byName tags name = some t) ↔ name ∈ tags.map (·.config.name) := by
  rw [← Option.isSome_iff_exists, byName]
  simp

section

variable (h : List.Forall₂ (fun cfg t => compileDerivedTag parseDuration compile cfg = .ok t) cfgs tags)
include h

theorem compiled_keeps :
    tags.map (·.config) = cfgs ∧ ∀ t ∈ tags, t.references = referencesOf t.config.expr := by
  induction h with
  | nil => exact ⟨rfl, nofun⟩
  | cons ht _ ih =>
    obtain ⟨interval, staleGuard, onMissing, program, -, -, -, -, -, rfl⟩ := compileDerivedTag_eq_ok.mp ht
    exact ⟨by rw [map_cons, ih.1], forall_mem_cons.mpr ⟨rfl, ih.2⟩⟩

/-- **The edges of the graph are the references between the configurations.** -/
theorem keyEdge_iff
    (name name' : String) :
    KeyEdge (referenceGraph tags) (·.config.name) name name' ↔ Reads cfgs name name' := by
  obtain ⟨rfl, hrefs⟩ := compiled_keeps h
  have hsucc : ∀ t ∈ tags, (∃ t' ∈ (referenceGraph tags).succ t, t'.config.name = name') ↔
      name' ∈ referencesOf t.config.expr ∧ name' ∈ tags.map (·.config.name) := by
    intro t ht
    rw [← hrefs t ht, ← byName_isSome]
    constructor
    · rintro ⟨t', ht', rfl⟩
      obtain ⟨n, hn, hfind⟩ := mem_filterMap.mp ht'
      obtain rfl := byName_some hfind
      exact ⟨hn, t', hfind⟩
    · rintro ⟨hn, t', hfind⟩
      exact ⟨t', mem_filterMap.mpr ⟨name', hn, hfind⟩, byName_some hfind⟩
  constructor
  · rintro ⟨t, ht, hname, hedge⟩
    obtain ⟨hread, hmem⟩ := (hsucc t ht).mp hedge
    exact ⟨t.config, mem_map_of_mem ht, hname, hread, by rwa [map_map]⟩
  · rintro ⟨cfg, hcfg, hname, hread, hmem⟩
    obtain ⟨t, ht, rfl⟩ := mem_map.mp hcfg
    rw [map_map] at hmem
    exact ⟨t, ht, hname, (hsucc t ht).mpr ⟨hread, hmem⟩⟩

theorem detectDerivedCycles_ok_iff
    (hnames : (cfgs.map (·.name)).Nodup) :
    detectDerivedCycles tags = .ok () ↔ ∀ name, ¬ Relation.TransGen (Reads cfgs) name name := by
  have hkey : ∀ t ∈ tags, ∀ t' ∈ tags, t.config.name = t'.config.name → t = t' := by
    rw [← (compiled_keeps h).1, map_map] at hnames
    exact fun t ht t' ht' heq => inj_on_of_nodup_map hnames ht ht' heq
  have hedges : KeyEdge (referenceGraph tags) (·.config.name) = Reads cfgs := by
    funext name name'
    exact propext (keyEdge_iff h name name')
  rw [← hedges, ← visitAll_ok_iff hkey]
  exact mapError_ok

end

/-- **Cycles are found exactly**: on tags that compile, with pairwise distinct names, the walk fails if and only if
some tag reads itself, directly or through others. -/
theorem cycle_found_iff {P : Type} (parseDuration : String → Option ℤ) (compile : String → Option P)
    (cfgs : List DerivedTagConfig) (tags : List (CompiledDerivedTag P))
    (htags : compileAll parseDuration compile cfgs = .ok tags) (hnames : (cfgs.map (·.name)).Nodup) :
    (∃ e, detectDerivedCycles tags = .error e) ↔ ∃ name, Relation.TransGen (Reads cfgs) name name := by
  have hok := detectDerivedCycles_ok_iff (compileAll_eq_ok.mp htags) hnames
  cases hresult : detectDerivedCycles tags with
  | error e =>
    refine iff_of_true ⟨e, rfl⟩ ?_
    by_contra hnot
    rw [hok.mpr fun name hcycle => hnot ⟨name, hcycle⟩] at hresult
    cases hresult
  | ok =>
    refine iff_of_false nofun ?_
    rintro ⟨name, hcycle⟩
    exact hok.mp hresult name hcycle

def mutualTags : List DerivedTagConfig :=
  [{ name := "a", expr := "b + 1", type := 0, interval := "1s" },
    { name := "b", expr := "2 * derived.a", type := 0, interval := "1s" }]

theorem cycle_found_iff_mutual : ∃ tags, compileAll (fun _ => some second) some mutualTags = .ok tags ∧
    ∃ e, detectDerivedCycles tags = .error e := by
  refine ⟨_, rfl, (cycle_found_iff (fun _ => some second) some mutualTags _ rfl (by decide)).mpr ⟨"a", ?_⟩⟩
  have hab : Reads mutualTags "a" "b" := ⟨_, mem_cons_self, rfl, by decide +kernel, by decide⟩
  have hba : Reads mutualTags "b" "a" := ⟨_, mem_cons_of_mem _ mem_cons_self, rfl, by decide +kernel, by decide⟩
  exact .tail (.single hab) hba

theorem newDerivedTagEvaluator_ok_iff (hnames : (cfgs.map (·.name)).Nodup) :
    (∃ tags, newDerivedTagEvaluator parseDuration compile cfgs = .ok tags) ↔
      (∀ cfg ∈ cfgs, Compiles parseDuration compile cfg) ∧ ∀ name, ¬ Relation.TransGen (Reads cfgs) name name := by
  unfold newDerivedTagEvaluator
  split_ifs with hempty
  · -- nothing is compiled, and there is nothing to read
    subst hempty
    refine ⟨fun _ => ⟨nofun, fun name hcycle => ?_⟩, fun _ => ⟨[], rfl⟩⟩
    obtain ⟨_, ⟨cfg, hcfg, -⟩, -⟩ := Relation.TransGen.head'_iff.mp hcycle
    cases hcfg
  · simp only [bind_ok, ← compileAll_ok_iff]
    constructor
    · rintro ⟨_, tags, htags, ⟨⟩, hcycles, -⟩
      exact ⟨⟨tags, htags⟩, (detectDerivedCycles_ok_iff (compileAll_eq_ok.mp htags) hnames).mp hcycles⟩
    · rintro ⟨⟨tags, htags⟩, hcycles⟩
      exact ⟨tags, tags, htags, (), (detectDerivedCycles_ok_iff (compileAll_eq_ok.mp htags) hnames).mpr hcycles, rfl⟩

/-- **The tags are accepted if and only if the engine runs, every tag compiles, and no tag reads itself.** -/
theorem applyDerivedTags_ok_iff (hvalid : ∃ r, validateDerivedTags cfgs = .ok r) (started : Bool) :
    (∃ tags, applyDerivedTags parseDuration compile started cfgs = .ok tags) ↔
      started = true ∧ (∀ cfg ∈ cfgs, Compiles parseDuration compile cfg) ∧
        ∀ name, ¬ Relation.TransGen (Reads cfgs) name name := by
  obtain ⟨names, hnames⟩ := hvalid
  have hnodup : (cfgs.map (·.name)).Nodup := by
    exact nodup_of_validateEach (fun _ _ _ h => validateDerivedTag_name h) hnames
  rw [← newDerivedTagEvaluator_ok_iff hnodup]
  cases started with
  | false => simp [applyDerivedTags]
  | true => simp [applyDerivedTags, hnames, Except.mapError, bind, Except.bind]

end

end CoreC.Engine.Derived
