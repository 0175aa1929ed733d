import CoreC.Config.Validate
import CoreC.Engine.Schedule
import CoreC.Lib.GoDuration

/-! # The live tasks of a driver

`scheduleDriverTags` hands one task for every interval group to the scheduler, which keeps its tasks by their id. The id
is made of the driver name and of the interval after it has been raised to the floor of the driver. Two groups below the
floor are raised to the same interval and get the same id: the tags of the one that comes first are not collected. -/

namespace CoreC.Engine.Tasks

open Core.Types Lib.Buckets Lib.GoDuration Config.Validate List Option
open Engine.Schedule

/-- `core.DefaultTagInterval`, one second. -/
def coreDefaultTagInterval : ℤ := 1000000000

/-- `driverMinInterval`: the floor a driver declares through `core.IntervalLimiter`, or `0`. -/
def driverMinInterval (limiter : Option ℤ) : ℤ :=
  match limiter with
  | none => 0
  | some floor => if 0 < floor then floor else 0

/-- `applyConfig` of the lifecycle role: the default interval of the configuration, if it is positive. -/
def defaultTagInterval (parseDuration : String → Option ℤ) (text : String) : ℤ :=
  match parseDuration text with
  | some d => if 0 < d then d else coreDefaultTagInterval
  | none => coreDefaultTagInterval

def engineEnv (parseDuration : String → Option ℤ) (text : String) (limiter : Option ℤ) :
    ScheduleEnv where
  parseDuration := parseDuration
  durationString := durationString
  defaultTagInterval := defaultTagInterval parseDuration text
  minInterval := driverMinInterval limiter

/-- `AddTask`, on the map of the live tasks; a task with the same id is cancelled. -/
def addTask (tasks : AList fun _ : String => ScheduleTask) (task : ScheduleTask) :
    AList fun _ : String => ScheduleTask :=
  tasks.insert task.id task

/-- The live tasks after `scheduleDriverTags`. -/
def liveTasks (env : ScheduleEnv) (d : DriverConfig) (order : List ℤ)
    (tasks : AList fun _ : String => ScheduleTask) : AList fun _ : String => ScheduleTask :=
  (scheduleDriverTags env d order).foldl addTask tasks

/-- The task of the driver `d` is live and reads the tag. -/
def Reads (tasks : AList fun _ : String => ScheduleTask) (d : DriverConfig) (tag : String)
    (task : ScheduleTask) : Prop :=
  tasks.lookup task.id = some task ∧ task.driver = d.name ∧ tag ∈ task.tags

/-- A tag that is not write-only is read by one live task of the driver, at the larger of its interval
and the floor; a write-only tag is read by none. -/
def Scheduled (env : ScheduleEnv) (tasks : AList fun _ : String => ScheduleTask) (d : DriverConfig)
    (t : TagConfig) : Prop :=
  if t.protect = "write-only" then ∀ task, ¬ Reads tasks d t.name task
  else ∃ task, Reads tasks d t.name task ∧ task.interval = max (env.interval t) env.minInterval ∧
    ∀ other, Reads tasks d t.name other → other = task

section

variable {parseDuration : String → Option ℤ} {text : String} {limiter : Option ℤ}

theorem interval_pos (t : TagConfig) : 0 < (engineEnv parseDuration text limiter).interval t := by
  have hdefault : 0 < defaultTagInterval parseDuration text := by
    unfold defaultTagInterval coreDefaultTagInterval
    split
    · split <;> omega
    · omega
  unfold ScheduleEnv.interval ScheduleEnv.duration
  split
  · exact hdefault
  · cases h : (parseDuration t.interval).filter fun d => 0 < d with
    | none => simpa [engineEnv, h] using hdefault
    | some d =>
      have := (filter_eq_some_iff.mp h).2
      simpa [engineEnv, h] using this

theorem groupTask_interval (d : DriverConfig) (p : TagPlan) {i : ℤ} (hi : 0 < i) :
    (groupTask (engineEnv parseDuration text limiter) d p i).interval =
      max i (engineEnv parseDuration text limiter).minInterval := by
  unfold groupTask
  dsimp only
  split <;> omega

theorem groupTask_id_iff (d : DriverConfig) (p : TagPlan) {i j : ℤ} (hi : 0 < i) (hj : 0 < j) :
    (groupTask (engineEnv parseDuration text limiter) d p i).id =
        (groupTask (engineEnv parseDuration text limiter) d p j).id ↔
      max i (driverMinInterval limiter) = max j (driverMinInterval limiter) := by
  have hid : ∀ k, (groupTask (engineEnv parseDuration text limiter) d p k).id = d.name ++ "_" ++
      durationString (groupTask (engineEnv parseDuration text limiter) d p k).interval :=
    fun _ => rfl
  rw [hid, hid, String.append_right_inj, durationString_injective.eq_iff, groupTask_interval d p hi,
    groupTask_interval d p hj]
  rfl

end

section

variable {env : ScheduleEnv} {d : DriverConfig} {order : List ℤ}
  {tasks : AList fun _ : String => ScheduleTask}

/-- **The live tasks of the driver** are the tasks of its groups that no later task replaced. -/
theorem lookup_liveTasks (id : String) : (liveTasks env d order tasks).lookup id =
      (((scheduleDriverTags env d order).filter fun t => t.id = id).getLast?).or (tasks.lookup id) := by
  unfold liveTasks addTask
  rw [lookup_foldl_insert ScheduleTask.id (fun t => t) id, Option.map_id']

theorem interval_of_mem_groupTask (hacc : TagsAccepted d.tags) {t : TagConfig} (ht : t ∈ d.tags) {i : ℤ}
    (h : t.name ∈ (groupTask env d (tagPlan env d.tags) i).tags) :
    collected t = true ∧ env.interval t = i := by
  change t.name ∈ get (tagPlan env d.tags).intervalGroups i at h
  rw [get_intervalGroups] at h
  obtain ⟨t', ht', hname⟩ := mem_map.mp h
  rw [mem_filter] at ht'
  have heq : t' = t := inj_on_of_nodup_map hacc.nodup ht'.1 ht hname
  subst heq
  simpa using ht'.2

theorem reads_eq (hacc : TagsAccepted d.tags)
    (hnew : ∀ id task, tasks.lookup id = some task → task.driver ≠ d.name) {t : TagConfig}
    (ht : t ∈ d.tags) {task : ScheduleTask} (h : Reads (liveTasks env d order tasks) d t.name task) :
    collected t = true ∧ task = groupTask env d (tagPlan env d.tags) (env.interval t) := by
  obtain ⟨hlive, hdriver, htag⟩ := h
  rw [lookup_liveTasks] at hlive
  have hmem : task ∈ scheduleDriverTags env d order := by
    cases hlast : ((scheduleDriverTags env d order).filter fun t => t.id = task.id).getLast? with
    | none =>
      rw [hlast] at hlive
      exact absurd hdriver (hnew _ task hlive)
    | some x =>
      rw [hlast] at hlive
      obtain rfl := some.inj hlive
      exact (mem_filter.mp (mem_of_getLast? hlast)).1
  obtain ⟨i, -, rfl⟩ := mem_map.mp hmem
  obtain ⟨hcol, rfl⟩ := interval_of_mem_groupTask hacc ht htag
  exact ⟨hcol, rfl⟩

theorem mem_groupTask {t : TagConfig} (ht : t ∈ d.tags) (hcol : collected t = true) :
    t.name ∈ (groupTask env d (tagPlan env d.tags) (env.interval t)).tags := by
  show t.name ∈ get (tagPlan env d.tags).intervalGroups (env.interval t)
  rw [get_intervalGroups]
  refine mem_map_of_mem (mem_filter.mpr ⟨ht, ?_⟩)
  simp [hcol]

theorem live_of_unique {i : ℤ} (hi : i ∈ order) (huniq : ∀ j ∈ order, (groupTask env d (tagPlan env d.tags) j).id =
      (groupTask env d (tagPlan env d.tags) i).id → j = i) :
    (liveTasks env d order tasks).lookup (groupTask env d (tagPlan env d.tags) i).id =
      some (groupTask env d (tagPlan env d.tags) i) := by
  set task := groupTask env d (tagPlan env d.tags) i with htask
  have hall : ∀ x ∈ (scheduleDriverTags env d order).filter fun t => t.id = task.id, x = task := by
    intro x hx
    obtain ⟨hx, hid⟩ := mem_filter.mp hx
    obtain ⟨j, hj, rfl⟩ := mem_map.mp hx
    rw [huniq j hj (by simpa using hid)]
  have hmem : task ∈ (scheduleDriverTags env d order).filter fun t => t.id = task.id :=
    mem_filter.mpr ⟨mem_map_of_mem hi, by simp⟩
  rw [lookup_liveTasks]
  cases hlast : ((scheduleDriverTags env d order).filter fun t => t.id = task.id).getLast? with
  | none =>
    rw [List.getLast?_eq_none_iff] at hlast
    rw [hlast] at hmem
    cases hmem
  | some x => rw [hall x (mem_of_getLast? hlast), some_or]

end

/-- **Every tag of an accepted driver is collected if and only if** the tags that are not write-only and
whose intervals are at or below the floor of the driver all have the same interval. -/
theorem collected_iff {parseDuration : String → Option ℤ} {text : String} {limiter : Option ℤ}
    {driverNames registered r : List String} {d : DriverConfig} {order : List ℤ}
    {tasks : AList fun _ : String => ScheduleTask}
    (hvalid : validateDriver parseDuration driverNames registered d = .ok r)
    (horder : order.Perm (tagPlan (engineEnv parseDuration text limiter) d.tags).intervalGroups.keys)
    (hnew : ∀ id task, tasks.lookup id = some task → task.driver ≠ d.name) :
    (∀ t ∈ d.tags, Scheduled (engineEnv parseDuration text limiter)
        (liveTasks (engineEnv parseDuration text limiter) d order tasks) d t) ↔
      ∀ t ∈ d.tags, ∀ t' ∈ d.tags, t.protect ≠ "write-only" → t'.protect ≠ "write-only" →
        (engineEnv parseDuration text limiter).interval t ≤ driverMinInterval limiter →
        (engineEnv parseDuration text limiter).interval t' ≤ driverMinInterval limiter →
        (engineEnv parseDuration text limiter).interval t = (engineEnv parseDuration text limiter).interval t' := by
  have hacc := validateDriver_accepted hvalid
  set env := engineEnv parseDuration text limiter with henv
  have hpos : ∀ t, 0 < env.interval t := interval_pos
  have hid : ∀ t t', (groupTask env d (tagPlan env d.tags) (env.interval t)).id =
        (groupTask env d (tagPlan env d.tags) (env.interval t')).id ↔
      max (env.interval t) (driverMinInterval limiter) = max (env.interval t') (driverMinInterval limiter) :=
    fun t t' => groupTask_id_iff d _ (hpos t) (hpos t')
  constructor
  · intro h t ht t' ht' hp hp' hle hle'
    have hs := h t ht
    have hs' := h t' ht'
    rw [Scheduled, if_neg hp] at hs
    rw [Scheduled, if_neg hp'] at hs'
    obtain ⟨task, hread, -⟩ := hs
    obtain ⟨task', hread', -⟩ := hs'
    obtain ⟨-, rfl⟩ := reads_eq hacc hnew ht hread
    obtain ⟨-, rfl⟩ := reads_eq hacc hnew ht' hread'
    -- both groups are raised to the floor, so they have one id, and one live task
    have hsame := (hid t t').mpr (by omega)
    have hlive := hread.1
    rw [hsame, hread'.1] at hlive
    have htag := hread.2.2
    rw [← some.inj hlive] at htag
    exact (interval_of_mem_groupTask hacc ht htag).2
  · intro h t ht
    unfold Scheduled
    split
    · next hp =>
      intro task hread
      have hcol := (reads_eq hacc hnew ht hread).1
      simp [collected, hp] at hcol
    · next hp =>
      have hcol : collected t = true := by simpa [collected] using hp
      have hin : ∀ {j}, j ∈ order ↔ ∃ t ∈ d.tags, collected t = true ∧ env.interval t = j := by
        intro j
        rw [horder.mem_iff, ← AList.mem_keys, mem_intervalGroups]
      refine ⟨groupTask env d (tagPlan env d.tags) (env.interval t),
        ⟨live_of_unique (hin.mpr ⟨t, ht, hcol, rfl⟩) ?_, rfl, mem_groupTask ht hcol⟩,
        groupTask_interval d _ (hpos t), fun other hread => (reads_eq hacc hnew ht hread).2⟩
      intro j hj hjid
      obtain ⟨t', ht', hcol', rfl⟩ := hin.mp hj
      have hp' : t'.protect ≠ "write-only" := by simpa [collected] using hcol'
      have hmax := (hid t' t).mp hjid
      -- the raised intervals are equal: above the floor nothing was raised
      by_cases hle : env.interval t' ≤ driverMinInterval limiter ∧ env.interval t ≤ driverMinInterval limiter
      · exact h t' ht' t ht hp' hp hle.1 hle.2
      · omega

/-! ### A fast and a faster tag -/

def milliseconds (s : String) : Option ℤ :=
  if s = "10ms" then some 10000000 else if s = "20ms" then some 20000000 else none

def pressDriver : DriverConfig where
  name := "press"
  type := "modbus"
  tags := [{ name := "speed", address := "1", type := "int16", interval := "10ms" },
    { name := "force", address := "2", type := "int16", interval := "20ms" }]

theorem not_reads_of_single {tasks : AList fun _ : String => ScheduleTask} {d : DriverConfig}
    {tag : String} (id : String) (tags : List String) (hkeys : tasks.keys = [id])
    (htags : (tasks.lookup id).map ScheduleTask.tags = some tags) (hnot : tag ∉ tags)
    (task : ScheduleTask) : ¬ Reads tasks d tag task := by
  rintro ⟨hlive, -, htag⟩
  have hmem : task.id ∈ tasks.keys := by
    rw [← AList.mem_keys, ← AList.lookup_isSome, hlive]
    rfl
  rw [hkeys, mem_singleton] at hmem
  rw [hmem] at hlive
  rw [hlive] at htags
  exact hnot (some.inj htags ▸ htag)

/-- **The task of one of the two tags replaces that of the other**, whichever comes first. -/
theorem press_tag_lost : validateDriver milliseconds [] [] pressDriver = .ok ["press"] ∧
      (tagPlan (engineEnv milliseconds "" (some 50000000)) pressDriver.tags).intervalGroups.keys.Perm
        [10000000, 20000000] ∧
      (∀ task, ¬ Reads (liveTasks (engineEnv milliseconds "" (some 50000000)) pressDriver
        [10000000, 20000000] ∅) pressDriver "speed" task) ∧
      ∀ task, ¬ Reads (liveTasks (engineEnv milliseconds "" (some 50000000)) pressDriver
        [20000000, 10000000] ∅) pressDriver "force" task := by
  refine ⟨rfl, by decide, not_reads_of_single "press_50ms" ["force"] ?_ ?_ ?_,
    not_reads_of_single "press_50ms" ["speed"] ?_ ?_ ?_⟩ <;> decide

/-- With a floor of 10 ms both are collected. -/
theorem press_collected : validateDriver milliseconds [] [] pressDriver = .ok ["press"] ∧
    ∀ t ∈ pressDriver.tags, Scheduled (engineEnv milliseconds "" (some 10000000))
      (liveTasks (engineEnv milliseconds "" (some 10000000)) pressDriver [10000000, 20000000] ∅)
        pressDriver t := by
  have hvalid : validateDriver milliseconds [] [] pressDriver = .ok ["press"] := rfl
  refine ⟨hvalid, (collected_iff hvalid (by decide) (by simp)).mpr ?_⟩
  decide

end CoreC.Engine.Tasks
