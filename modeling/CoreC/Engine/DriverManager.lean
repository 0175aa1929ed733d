import CoreC.Engine.Tasks
import CoreC.Lib.Slots

/-! # Adding and replacing a driver

`AddDriver` (`engine/driver_manager.go`) with everything it changes: the running instances, the tag groups, the stored
configuration, the tasks and the paused drivers of the scheduler, and the watchers of the tags files. The instance that
is replaced is stopped, but its tasks are only paused, and its watcher is only written over.

* `lookup_liveTasks_iff`: the tasks after `AddDriver`. -/

namespace CoreC.Engine.DriverManager

open Core.Types Engine.Schedule Engine.Tasks Lib.GoDuration Lib.Slots List

/-! ### The model -/

inductive Phase where
  | create
  | init
  | start
  deriving DecidableEq, Repr

/-- What a driver does when it is added, `time.ParseDuration`, the default interval of the engine, the order in which
the interval groups are visited, and whether a tags file can be loaded. -/
structure DriverEnv where
  fails : DriverConfig → Option Phase
  limiter : DriverConfig → Option ℤ
  parseDuration : String → Option ℤ
  defaultTagInterval : ℤ
  order : DriverConfig → List ℤ
  loads : String → Bool

/-- `driverRegistry` and the scheduler. -/
structure DriverState where
  drivers : Table String := {}
  tagGroups : String → Option (AList fun _ : String => String) := fun _ => none
  driverConfigs : String → Option DriverConfig := fun _ => none
  tasks : AList fun _ : String => ScheduleTask := ∅
  paused : List String := []
  watchers : Table String := {}

/-- The surroundings of `scheduleDriverTags` for a driver that is registered. -/
def DriverEnv.schedule (env : DriverEnv) (config : DriverConfig) : ScheduleEnv where
  parseDuration := env.parseDuration
  durationString := durationString
  defaultTagInterval := env.defaultTagInterval
  minInterval := driverMinInterval (env.limiter config)

def tagGroupsOf (tags : List TagConfig) : AList fun _ : String => String :=
  tags.foldl (fun groups t => if t.group = "" then groups else groups.insert t.name t.group) ∅

/-- `startTagFileWatcher` starts a watcher, which `newTagFileWatcher` can refuse. -/
def DriverEnv.watches (env : DriverEnv) (config : DriverConfig) : Bool :=
  config.tagsFile ≠ "" && config.tagsInterval ≠ "" && ((env.parseDuration config.tagsInterval).any (0 < ·)) &&
    env.loads config.tagsFile

/-- A driver is in the map under the name. -/
def Registered (drivers : Table String) (name : String) : Prop := ∃ x ∈ drivers.map, x.1 = name

instance (drivers : Table String) (name : String) : Decidable (Registered drivers name) :=
  inferInstanceAs (Decidable (∃ x ∈ _, _))

def pauseDriver (name : String) (paused : List String) : List String := if name ∈ paused then paused else name :: paused

def addDriver (env : DriverEnv) (s : DriverState) (config : DriverConfig) : Except (Phase × String) DriverState :=
  match env.fails config with
  | some phase => .error (phase, config.name)
  | none =>
    .ok
      { drivers := swap s.drivers config.name
        tagGroups := Function.update s.tagGroups config.name (some (tagGroupsOf config.tags))
        driverConfigs := Function.update s.driverConfigs config.name (some config)
        -- the tasks of an instance that is replaced are paused, and not removed
        paused := if Registered s.drivers config.name then pauseDriver config.name s.paused else s.paused
        tasks := liveTasks (env.schedule config) config (env.order config) s.tasks
        watchers := if env.watches config then install s.watchers config.name true else s.watchers }

/-! ### A replacement -/

/-- The watchers of the driver that run. -/
def watcherCount (s : DriverState) (name : String) : ℕ := s.watchers.live.countP fun x => x.1 = name

/-- What replacing a driver should leave: the tasks, groups and configuration of the new one, at most one watcher, and
no driver paused that was not. -/
structure Replaced (env : DriverEnv) (s : DriverState) (config : DriverConfig) (s' : DriverState) : Prop where
  tasks : ∀ id task, task.driver = config.name → (s'.tasks.lookup id = some task ↔
    (liveTasks (env.schedule config) config (env.order config) ∅).lookup id = some task)
  paused : config.name ∈ s'.paused → config.name ∈ s.paused
  tagGroups : s'.tagGroups config.name = some (tagGroupsOf config.tags)
  driverConfigs : s'.driverConfigs config.name = some config
  watchers : watcherCount s' config.name ≤ 1

/-- The tasks of the driver are those of the configuration. -/
def NoTaskLeft (env : DriverEnv) (s : DriverState) (config : DriverConfig) : Prop :=
  ∀ id task, s.tasks.lookup id = some task → task.driver = config.name →
    ∃ t ∈ scheduleDriverTags (env.schedule config) config (env.order config), t.id = id

section

variable {env : DriverEnv} {s s' : DriverState} {config : DriverConfig}

theorem mem_pauseDriver (name : String) (paused : List String) : name ∈ pauseDriver name paused := by
  unfold pauseDriver
  split_ifs with h
  · exact h
  · exact mem_cons_self

theorem lookup_liveTasks_iff {tasks : AList fun _ : String => ScheduleTask} {senv : ScheduleEnv} {order : List ℤ}
    {id : String} {task : ScheduleTask} :
    (liveTasks senv config order tasks).lookup id = some task ↔
      (liveTasks senv config order ∅).lookup id = some task ∨
        (∀ t ∈ scheduleDriverTags senv config order, t.id ≠ id) ∧ tasks.lookup id = some task := by
  rw [lookup_liveTasks, lookup_liveTasks, AList.lookup_empty]
  cases hlast : ((scheduleDriverTags senv config order).filter fun t => t.id = id).getLast? with
  | none =>
    have hnone : ∀ t ∈ scheduleDriverTags senv config order, t.id ≠ id := by
      simpa using List.getLast?_eq_none_iff.mp hlast
    simp only [Option.none_or, reduceCtorEq, false_or]
    exact ⟨fun h => ⟨hnone, h⟩, And.right⟩
  | some last =>
    have hlast' := mem_filter.mp (mem_of_getLast? hlast)
    have hnew : ¬ ∀ t ∈ scheduleDriverTags senv config order, t.id ≠ id :=
      fun h => h last hlast'.1 (by simpa using hlast'.2)
    simp [hnew]

theorem watcherCount_addDriver (hadd : addDriver env s config = .ok s') :
    watcherCount s' config.name = watcherCount s config.name + if env.watches config then 1 else 0 := by
  unfold addDriver at hadd
  cases hfails : env.fails config with
  | some phase => rw [hfails] at hadd; cases hadd
  | none =>
    rw [hfails] at hadd
    cases hadd
    unfold watcherCount
    dsimp only
    split_ifs
    · simp [install]
    · rfl

end

/-- **When a replacement is one.** The driver was paused before, every task of the old configuration has the id of one
of the new configuration, and the two configurations have at most one watcher together. -/
theorem replaced_iff (env : DriverEnv) (s s' : DriverState) (config : DriverConfig)
    (hrunning : Registered s.drivers config.name) (hadd : addDriver env s config = .ok s') :
    Replaced env s config s' ↔ config.name ∈ s.paused ∧ NoTaskLeft env s config ∧
      (watcherCount s config.name + if env.watches config then 1 else 0) ≤ 1 := by
  have hwatchers := watcherCount_addDriver hadd
  unfold addDriver at hadd
  cases hfails : env.fails config with
  | some phase => rw [hfails] at hadd; cases hadd
  | none =>
    rw [hfails] at hadd
    cases hadd
    constructor
    · intro h
      refine ⟨h.paused ?_, fun id task hlookup hdriver => ?_, hwatchers ▸ h.watchers⟩
      · rw [if_pos hrunning]
        exact mem_pauseDriver _ _
      · -- an id that no new task has would still be there
        by_contra hnone
        push Not at hnone
        have hlive := (h.tasks id task hdriver).mp (lookup_liveTasks_iff.mpr (.inr ⟨hnone, hlookup⟩))
        rw [lookup_liveTasks, AList.lookup_empty, Option.or_none] at hlive
        have hmem := mem_filter.mp (mem_of_getLast? hlive)
        exact hnone task hmem.1 (by simpa using hmem.2)
    · rintro ⟨hpaused, htasks, hcount⟩
      refine ⟨fun id task hdriver => ?_, fun _ => hpaused, Function.update_self .., Function.update_self .., ?_⟩
      · refine lookup_liveTasks_iff.trans ⟨?_, .inl⟩
        rintro (hnew | ⟨hnone, hold⟩)
        · exact hnew
        · obtain ⟨t, ht, hid⟩ := htasks id task hold hdriver
          exact absurd hid (hnone t ht)
      · rw [hwatchers]
        exact hcount

/-! ### A press with one tag -/

def pressConfig (interval : String) : DriverConfig where
  name := "press"
  type := "modbus"
  tags := [{ name := "speed", address := "1", type := "int16", interval := interval }]

def pressEnv : DriverEnv where
  fails _ := none
  limiter _ := none
  parseDuration := milliseconds
  defaultTagInterval := 1000000000
  order config := config.tags.filterMap fun t => milliseconds t.interval
  loads _ := true

/-- The driver is added, paused and replaced by one with the same interval. -/
theorem replaced_iff_paused : ∃ s s', addDriver pressEnv {} (pressConfig "10ms") = .ok s ∧
    addDriver pressEnv { s with paused := ["press"] } (pressConfig "10ms") = .ok s' ∧
    Replaced pressEnv { s with paused := ["press"] } (pressConfig "10ms") s' := by
  refine ⟨_, _, rfl, rfl, (replaced_iff pressEnv _ _ (pressConfig "10ms") (by decide) rfl).mpr
    ⟨mem_cons_self, fun id task hlookup _ => ?_, by decide⟩⟩
  -- the only task before has the id of the new one
  have hmem : id ∈ (liveTasks (pressEnv.schedule (pressConfig "10ms")) (pressConfig "10ms") [10000000] ∅).keys := by
    rw [← AList.mem_keys, ← AList.lookup_isSome]
    exact Option.isSome_iff_exists.mpr ⟨task, hlookup⟩
  have hid : id = "press_10ms" := by
    have hkeys : (liveTasks (pressEnv.schedule (pressConfig "10ms")) (pressConfig "10ms") [10000000] ∅).keys =
        ["press_10ms"] := by decide +kernel
    rwa [hkeys, mem_singleton] at hmem
  exact ⟨_, mem_cons_self, by rw [hid]; decide +kernel⟩

/-- **A driver that was not paused is, and its old task is still there.** -/
theorem replacement_pauses : ∃ s s', addDriver pressEnv {} (pressConfig "10ms") = .ok s ∧
    addDriver pressEnv s (pressConfig "20ms") = .ok s' ∧ "press" ∉ s.paused ∧ "press" ∈ s'.paused ∧
      s'.tasks.keys = ["press_20ms", "press_10ms"] :=
  ⟨_, _, rfl, rfl, by decide, by decide, by decide +kernel⟩

end CoreC.Engine.DriverManager
