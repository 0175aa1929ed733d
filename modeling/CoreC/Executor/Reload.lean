import CoreC.Executor.DryRun
import CoreC.Lib.UnixPath

/-! # Reloading from a path

`ReloadWithOrigin` (`hub/executor/executor.go`) takes a payload, a path from the client or the active path. A path from
the client is resolved against the directory of the active one (`resolveConfigPath`), and it becomes the active path as
soon as its file could be parsed. The files that are opened stay in the directory of the initial path or below it
(`contained_step`), because a directory is no file: if it could be read, a request for `.` would make its parent the next
directory. -/

namespace CoreC.Executor.Reload

open Lib.Runs Lib.UnixPath Lib.Yaml Lib.Yaml.Decode List
  Config.Parse Config.Export Executor.Active Rules.Build
open Config.Sections (Registry)
open Executor.Startup (restamp)
open Executor.Remove (Origin)

/-! ### Paths from clients -/

/-- Why `resolveConfigPath` refuses a path. -/
inductive PathError where
  | noBase
  | workingDirectory
  | absolute
  | escapes (requested : Path)
  deriving DecidableEq, Repr

/-- `filepath.Abs`; it fails if it needs the working directory and there is none. -/
def absPath (getwd : Bool) (wd p : Path) : Option Path := if isAbs p || getwd then some (abs wd p) else none

def resolveConfigPath (getwd : Bool) (wd base requested : Path) : Except PathError Path :=
  if base = [] then .error .noBase
  else
    match absPath getwd wd (dir (clean base)) with
    | none => .error .workingDirectory
    | some absBaseDir =>
      if isAbs requested then .error .absolute
      else
        let cleaned := clean requested
        if dotdot.isPrefixOf cleaned ∨ cleaned = dotdot ∨ isAbs cleaned then .error (.escapes requested)
        else
          match absPath getwd wd (join absBaseDir cleaned) with
          | none => .error .workingDirectory
          | some absFull =>
            if dotdot.isPrefixOf (rel absBaseDir absFull) then .error (.escapes requested) else .ok absFull

/-! ### The call -/

/-- What a call meets: also whether the working directory is known. -/
structure Around (T : Type) extends Surroundings T where
  getwd : Bool := true

/-- The active configuration and its path. -/
structure ExecutorState where
  active : ActiveState
  configPath : Path
  engine : Bool := true

inductive ReloadError where
  | path (e : PathError)
  | noPath
  | noEngine
  | call (e : CallError)
  deriving DecidableEq

/-- What a call leaves: the variables, its error, and the main configuration files it opened. -/
structure Reloaded where
  state : ExecutorState
  error : Option ReloadError
  opened : List Path

def reloadChangeKeys {T : Type} (path : Path) (payload : Option T) : List String :=
  if payload.isSome then ["payload"]
  else if path ≠ [] then ["path:" ++ String.ofList path]
  else ["active-file"]

section

variable {T : Type} (env : BuildEnv) (c : Conv) (lib : YamlText T) (parseDuration : String → Option ℤ)
  (reg : Registry) (wd : Path) (around : Around T)

/-- The file that is opened. -/
def targetPath (path : Path) (x : ExecutorState) : Except ReloadError Path :=
  match if path = [] then .ok x.configPath else resolveConfigPath around.getwd wd x.configPath path with
  | .error e => .error (.path e)
  | .ok [] => .error .noPath
  | .ok target => .ok target

def applyText (text : T) (keys : List String) (origin : Origin) (x : ExecutorState) :
    ExecutorState × Option ReloadError :=
  if x.engine then
    let (active, error) :=
      reloadWithOrigin env c lib parseDuration reg around.toSurroundings (some text) keys origin x.active
    ({ x with active }, error.map .call)
  else
    match parseNoValidate around.world c lib text with
    | .error e => (x, some (.call (.parse e)))
    | .ok parsed =>
      let x' := { x with active := { x.active with parses := x.active.parses + 1 } }
      if accepts parseDuration reg (restamp x.active.parses parsed) then (x', some .noEngine)
      else (x', some (.call (.resource .invalid)))

def parses (text : T) : Bool :=
  match parseNoValidate around.world c lib text with
  | .ok _ => true
  | .error _ => false

/-- `ReloadWithOrigin`; the payload is `none` if it is empty. A payload that was applied is written to the active path. -/
def reload (path : Path) (payload : Option T) (origin : Origin) (x : ExecutorState) : Reloaded :=
  let keys := reloadChangeKeys path payload
  match payload with
  | some text =>
    let (x, error) := applyText env c lib parseDuration reg around text keys origin x
    ⟨x, error, if error.isNone ∧ x.configPath ≠ [] then [x.configPath] else []⟩
  | none =>
    match targetPath wd around path x with
    | .error e => ⟨x, some e, []⟩
    | .ok target =>
      match around.world.readFile (String.ofList target) with
      | none => ⟨x, some (.call .unreadable), [target]⟩
      | some text =>
        -- the path is taken over before the configuration is validated and applied
        let x := if path ≠ [] ∧ parses c lib around text then { x with configPath := target } else x
        let (x, error) := applyText env c lib parseDuration reg around text keys origin x
        ⟨x, error, [target]⟩

end

/-! ### A reload that fails -/

section

variable {T : Type} {env : BuildEnv} {c : Conv} {lib : YamlText T} {parseDuration : String → Option ℤ}
  {reg : Registry} {wd : Path} {around : Around T}

theorem configPath_applyText (text : T) (keys : List String) (origin : Origin) (x : ExecutorState) :
    (applyText env c lib parseDuration reg around text keys origin x).1.configPath = x.configPath := by
  unfold applyText
  cases hengine : x.engine with
  | true => rfl
  | false =>
    rw [if_neg nofun]
    cases parseNoValidate around.world c lib text with
    | error e => rfl
    | ok parsed =>
      dsimp only
      split <;> rfl

theorem currentCfg_applyText {text : T} {keys : List String} {origin : Origin} {x : ExecutorState}
    (herror : (applyText env c lib parseDuration reg around text keys origin x).2 ≠ none) :
    (applyText env c lib parseDuration reg around text keys origin x).1.active.currentCfg = x.active.currentCfg := by
  unfold applyText at herror ⊢
  cases hengine : x.engine with
  | true =>
    simp only [hengine, if_true] at herror ⊢
    rcases @reload_spec T env c lib parseDuration reg around.toSurroundings (some text) keys origin x.active with
      ⟨x', hres, -⟩ | ⟨x', e, hres, -, hsame⟩
    · rw [hres] at herror
      exact absurd rfl herror
    · rw [hres]
      simp [ActiveState.currentCfg, hsame.mem, hsame.currentCfg, hsame.rest]
  | false =>
    rw [if_neg Bool.false_ne_true]
    cases parseNoValidate around.world c lib text with
    | error e => rfl
    | ok parsed =>
      dsimp only
      split <;> rfl

/-- **A reload that fails leaves the active path and the configuration alone exactly if it was not one of another file
that could be parsed.** -/
theorem refused_iff (path : Path) (payload : Option T) (origin : Origin) (x : ExecutorState)
    (herror : (reload env c lib parseDuration reg wd around path payload origin x).error ≠ none) :
    ((reload env c lib parseDuration reg wd around path payload origin x).state.configPath = x.configPath ∧
      (reload env c lib parseDuration reg wd around path payload origin x).state.active.currentCfg =
        x.active.currentCfg) ↔
      (payload = none → path ≠ [] → ∀ target text, targetPath wd around path x = .ok target →
        around.world.readFile (String.ofList target) = some text → parses c lib around text = true →
        target = x.configPath) := by
  unfold reload at herror ⊢
  cases payload with
  | some text =>
    refine iff_of_true ⟨configPath_applyText .., currentCfg_applyText herror⟩ nofun
  | none =>
    cases htarget : targetPath wd around path x with
    | error e => exact iff_of_true ⟨rfl, rfl⟩ nofun
    | ok target =>
      dsimp only
      cases hread : around.world.readFile (String.ofList target) with
      | none =>
        refine iff_of_true ⟨rfl, rfl⟩ fun _ _ target' text htarget' hread' => ?_
        cases htarget'
        rw [hread] at hread'
        cases hread'
      | some text =>
        simp only [htarget, hread] at herror ⊢
        rw [configPath_applyText, currentCfg_applyText herror]
        by_cases htaken : path ≠ [] ∧ parses c lib around text = true
        · rw [if_pos htaken]
          constructor
          · rintro ⟨hpath, -⟩ _ _ target' text' htarget' _ _
            cases htarget'
            exact hpath
          · exact fun h => ⟨h trivial htaken.1 target text rfl hread htaken.2, rfl⟩
        · rw [if_neg htaken]
          refine iff_of_true ⟨rfl, rfl⟩ fun _ hpath target' text' htarget' hread' hparses => ?_
          cases htarget'
          rw [hread] at hread'
          cases hread'
          exact absurd ⟨hpath, hparses⟩ htaken

end

def oneFile (path : String) (doc : Tree) : Around Tree where
  toSurroundings := { DryRun.calm with
    world := { Startup.siteWorld with readFile := fun p => if p = path then some doc else none } }

def fresh (path : String) : ExecutorState := ⟨DryRun.idle, path.toList, true⟩

def brokenDoc : Tree := DryRun.payloadDoc "value >" "speed * 2" "30s"

def siteReload (path : String) (payload : Option Tree) : Reloaded :=
  reload DryRun.siteEnv exactConv treeText durations plantRegistry ['/'] (oneFile "/etc/corec/draft.yaml" brokenDoc)
    path.toList payload {} (fresh "/etc/corec/config.yaml")

/-- A payload that is refused changes nothing. -/
theorem refused_payload : (siteReload "" (some brokenDoc)).error ≠ none ∧
    (siteReload "" (some brokenDoc)).state.configPath = "/etc/corec/config.yaml".toList ∧
    (siteReload "" (some brokenDoc)).state.active.currentCfg = DryRun.idle.currentCfg := by
  have herror : (siteReload "" (some brokenDoc)).error ≠ none := by decide +kernel
  exact ⟨herror, (refused_iff "".toList (some brokenDoc) {} (fresh "/etc/corec/config.yaml") herror).mpr nofun⟩

/-- **A file that is refused becomes the active one.** -/
theorem refused_file_taken_over : (siteReload "draft.yaml" none).error ≠ none ∧
    (siteReload "draft.yaml" none).state.configPath = "/etc/corec/draft.yaml".toList := by
  decide +kernel

/-! ### The files that are opened -/

structure Request (T : Type) where
  path : Path
  payload : Option T
  origin : Origin := {}

/-- The executor after some reloads, with the files they opened. -/
structure History where
  state : ExecutorState
  opened : List Path := []

section

variable {T : Type} (env : BuildEnv) (c : Conv) (lib : YamlText T) (parseDuration : String → Option ℤ)
  (reg : Registry) (wd : Path)

def step (s : History) (a : Around T × Request T) : Option History :=
  let r := reload env c lib parseDuration reg wd a.1 a.2.path a.2.payload a.2.origin s.state
  some ⟨r.state, s.opened ++ r.opened⟩

/-- The directory of the active path cannot be read as a file. It is one when the path becomes active, since a file in
it has been read; the hypothesis is that it stays one. -/
def DirectoryUnreadable (s : History) (a : Around T × Request T) : Prop :=
  a.1.world.readFile (String.ofList (abs wd (dir (clean s.state.configPath)))) = none

end

section

variable {T : Type} {env : BuildEnv} {c : Conv} {lib : YamlText T} {parseDuration : String → Option ℤ}
  {reg : Registry} {wd : Path}

theorem absPath_eq {getwd : Bool} {p q : Path} (h : absPath getwd wd p = some q) : q = abs wd p := by
  unfold absPath at h
  split at h
  · exact (Option.some.inj h).symm
  · cases h

/-- **A resolved path has the elements of the directory of the active path and those of the request.** -/
theorem elems_resolveConfigPath (hwd : isAbs wd = true) {getwd : Bool} {base requested target : Path}
    (h : resolveConfigPath getwd wd base requested = .ok target) :
    isAbs requested = false ∧ render true (elems target) = target ∧ elems (abs wd target) = elems target ∧
      elems target = elems (abs wd (dir (clean base))) ++ elems (clean requested) := by
  unfold resolveConfigPath at h
  split at h
  · cases h
  cases hbase : absPath getwd wd (dir (clean base)) with
  | none => simp [hbase] at h
  | some absBaseDir =>
    obtain rfl := absPath_eq hbase
    simp only [hbase] at h
    split at h
    · cases h
    rename_i hrel
    rw [Bool.not_eq_true] at hrel
    split at h
    · cases h
    rename_i hclean
    rw [not_or, isPrefixOf_iff_prefix] at hclean
    cases hfull : absPath getwd wd (join (abs wd (dir (clean base))) (clean requested)) with
    | none => simp [hfull] at h
    | some absFull =>
      obtain rfl := absPath_eq hfull
      simp only [hfull] at h
      split at h
      · cases h
      obtain rfl := Except.ok.inj h
      have hdir : isAbs (abs wd (dir (clean base))) = true := isAbs_abs hwd _
      have hdirNames : dotdot ∉ elems (abs wd (dir (clean base))) := by
        rw [elems_abs hwd]
        exact dotdot_notMem_normal _
      have hnames := dotdot_notMem_clean hrel hclean.1
      have hjoin := elems_join_of_names hdir hdirNames hnames
      have hjoined : dotdot ∉ elems (join (abs wd (dir (clean base))) (clean requested)) := by
        rw [hjoin, mem_append, not_or]
        exact ⟨hdirNames, hnames⟩
      have helems := elems_abs_of_isAbs wd (isAbs_join hdir (clean requested)) hjoined
      exact ⟨hrel, render_elems_abs hwd _, elems_abs_of_isAbs wd (isAbs_abs hwd _) (helems ▸ hjoined),
        helems.trans hjoin⟩

theorem targetPath_cases {around : Around T} {path target : Path} {x : ExecutorState}
    (h : targetPath wd around path x = .ok target) :
    path = [] ∧ target = x.configPath ∨
      path ≠ [] ∧ resolveConfigPath around.getwd wd x.configPath path = .ok target := by
  unfold targetPath at h
  by_cases hpath : path = []
  · rw [if_pos hpath] at h
    refine .inl ⟨hpath, ?_⟩
    cases hactive : x.configPath with
    | nil => simp [hactive] at h
    | cons c p =>
      rw [hactive] at h
      exact (Except.ok.inj h).symm
  · rw [if_neg hpath] at h
    refine .inr ⟨hpath, ?_⟩
    cases hresolve : resolveConfigPath around.getwd wd x.configPath path with
    | error e => simp [hresolve] at h
    | ok p =>
      cases p with
      | nil => simp [hresolve] at h
      | cons c p =>
        rw [hresolve] at h
        exact congrArg Except.ok (Except.ok.inj h)

/-- What keeps the files together: the active path lies below the directory, and so does its own directory. -/
structure Contained (wd : Path) (root : List Path) (s : History) : Prop where
  active : root <+: elems (abs wd s.state.configPath)
  directory : root <+: elems (abs wd (dir (clean s.state.configPath)))
  opened : ∀ f ∈ s.opened, root <+: elems (abs wd f)

variable {root : List Path} {s : History}

theorem Contained.target (hwd : isAbs wd = true) (h : Contained wd root s) {around : Around T} {path target : Path}
    (htarget : targetPath wd around path s.state = .ok target) : root <+: elems (abs wd target) := by
  rcases targetPath_cases htarget with ⟨-, rfl⟩ | ⟨-, hresolve⟩
  · exact h.active
  · obtain ⟨-, -, habs, helems⟩ := elems_resolveConfigPath hwd hresolve
    rw [habs, helems]
    exact h.directory.trans (prefix_append _ _)

variable {a : Around T × Request T}

/-- The directory of a path that is taken over lies below the root too. -/
theorem Contained.directory_target (hwd : isAbs wd = true) (h : Contained wd root s)
    (hdirectory : DirectoryUnreadable wd s a) {target : Path} {text : T} (hpath : a.2.path ≠ [])
    (htarget : targetPath wd a.1 a.2.path s.state = .ok target)
    (hread : a.1.world.readFile (String.ofList target) = some text) :
    root <+: elems (abs wd (dir (clean target))) := by
  rcases targetPath_cases htarget with ⟨hnil, -⟩ | ⟨-, hresolve⟩
  · exact absurd hnil hpath
  obtain ⟨hrel, hrender, habs, helems⟩ := elems_resolveConfigPath hwd hresolve
  have hbelow := dropLast_elems_abs hwd target
  rw [habs, helems] at hbelow
  by_cases hdot : elems (clean a.2.path) = []
  · -- the request is for the directory itself, which is no file
    have htext : target = abs wd (dir (clean s.state.configPath)) := by
      rw [← hrender, helems, hdot, append_nil, render_elems_abs hwd]
    rw [htext, hdirectory] at hread
    cases hread
  · rw [dropLast_append_of_ne_nil hdot] at hbelow
    exact (h.directory.trans (prefix_append _ _)).trans hbelow

theorem contained_step (hwd : isAbs wd = true) (h : Contained wd root s)
    (hdirectory : DirectoryUnreadable wd s a) {s' : History} (hstep : step env c lib parseDuration reg wd s a = some s') :
    Contained wd root s' := by
  obtain rfl := Option.some.inj hstep
  -- what a reload leaves: the active path is the old one or the one that was read
  suffices hreload : ∀ r, reload env c lib parseDuration reg wd a.1 a.2.path a.2.payload a.2.origin s.state = r →
      root <+: elems (abs wd r.state.configPath) ∧ root <+: elems (abs wd (dir (clean r.state.configPath))) ∧
        ∀ f ∈ r.opened, root <+: elems (abs wd f) by
    obtain ⟨hactive, hdirectory, hopened⟩ := hreload _ rfl
    refine ⟨hactive, hdirectory, fun f hf => ?_⟩
    rcases mem_append.mp hf with hf | hf
    · exact h.opened f hf
    · exact hopened f hf
  rintro r rfl
  unfold reload
  cases hpayload : a.2.payload with
  | some text =>
    dsimp only
    rw [configPath_applyText]
    refine ⟨h.active, h.directory, fun f hf => ?_⟩
    split at hf
    · rw [mem_singleton.mp hf]
      exact h.active
    · cases hf
  | none =>
    cases htarget : targetPath wd a.1 a.2.path s.state with
    | error e => exact ⟨h.active, h.directory, nofun⟩
    | ok target =>
      have hopened : ∀ f ∈ [target], root <+: elems (abs wd f) := fun f hf => by
        rw [mem_singleton.mp hf]
        exact h.target hwd htarget
      dsimp only
      cases hread : a.1.world.readFile (String.ofList target) with
      | none => exact ⟨h.active, h.directory, hopened⟩
      | some text =>
        rw [configPath_applyText]
        by_cases htaken : a.2.path ≠ [] ∧ parses c lib a.1 text = true
        · rw [if_pos htaken]
          exact ⟨h.target hwd htarget, h.directory_target hwd hdirectory htaken.1 htarget hread, hopened⟩
        · rw [if_neg htaken]
          exact ⟨h.active, h.directory, hopened⟩

/-- **Every file that is opened lies in the directory of the initial path or below it**, after any calls with any
paths. -/
theorem opened_below (hwd : isAbs wd = true) {x : ExecutorState} {calls : List (Around T × Request T)} {s : History}
    (hrun : Run (step env c lib parseDuration reg wd) (DirectoryUnreadable wd) ⟨x, []⟩ calls s) :
    ∀ f ∈ s.opened, Below (dir (abs wd x.configPath)) (abs wd f) := by
  have hinit : Contained wd (elems (dir (abs wd x.configPath))) ⟨x, []⟩ := by
    rw [elems_dir_abs hwd]
    exact ⟨ dropLast_prefix _, dropLast_elems_abs hwd _, nofun⟩
  have hcontained := hrun.invariant (I := Contained wd (elems (dir (abs wd x.configPath))))
    (fun s a s' hdirectory hstep h => contained_step hwd h hdirectory hstep) hinit
  exact hcontained.opened

end

def fineDoc : Tree := DryRun.payloadDoc "value > 1" "speed * 2" "30s"

def siteCalls (file : String) (paths : List String) : List (Around Tree × Request Tree) :=
  paths.map fun path => (oneFile file fineDoc, ⟨path.toList, none, {}⟩)

def siteStep : History → Around Tree × Request Tree → Option History :=
  step DryRun.siteEnv exactConv treeText durations plantRegistry ['/']

/-- A file below the directory is taken over, and the next request is for a file beside it, the third one for the
directory itself. -/
theorem opened_below_site : ∃ s, Run siteStep (DirectoryUnreadable ['/']) ⟨fresh "/etc/corec/config.yaml", []⟩
    (siteCalls "/etc/corec/sites/a.yaml" ["sites/a.yaml", "b.yaml", "."]) s ∧
    "/etc/corec/sites/b.yaml".toList ∈ s.opened ∧
    ∀ f ∈ s.opened, Below (dir (abs ['/'] "/etc/corec/config.yaml".toList)) (abs ['/'] f) := by
  refine Run.exists_of_forall (fun _ hrun => opened_below rfl hrun)
    ⟨_, .cons ?_ rfl (.cons ?_ rfl (.cons ?_ rfl (.nil _))), fun hbelow => ⟨by decide +kernel, hbelow⟩⟩
  all_goals
    unfold DirectoryUnreadable
    decide +kernel

end CoreC.Executor.Reload
