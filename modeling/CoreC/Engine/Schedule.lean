import Mathlib.Data.List.Induction
import CoreC.Core.Types
import CoreC.Lib.Buckets

/-! # Collection tasks of a driver

`scheduleDriverTags` groups the readable tags of a driver by their interval and makes a task of every group. All tasks
of the driver share the maps of the trigger groups. The loop over the tags is one step on a record of accumulators
(`collectTag`); what each map holds after the loop is stated as a filter of the tag list. -/

namespace CoreC.Engine.Schedule

open Core.Types Lib.Buckets Lib.Yaml List

/-- `core.ScheduleTask`. Durations are in nanoseconds. -/
structure ScheduleTask where
  id : String
  driver : String
  tags : List String
  interval : ℤ
  priority : ℕ
  deadBands : AList fun _ : String => GoFloat
  enforceIntervals : AList fun _ : String => ℤ
  groupTrigger : AList fun _ : String => String
  groupGated : AList fun _ : String => List String
  readTimeout : ℤ

/-- What scheduling takes from its surroundings: `time.ParseDuration`, `Duration.String`, the engine's
default interval and the driver's floor (`0` for none). -/
structure ScheduleEnv where
  parseDuration : String → Option ℤ
  durationString : ℤ → String
  defaultTagInterval : ℤ
  minInterval : ℤ

structure TagPlan where
  intervalGroups : AList fun _ : ℤ => List String
  deadBands : AList fun _ : String => GoFloat
  enforceIntervals : AList fun _ : String => ℤ
  groupTrigger : AList fun _ : String => String
  gatedTags : AList fun _ : String => List String
  readTimeouts : AList fun _ : ℤ => ℤ

variable (env : ScheduleEnv)

def ScheduleEnv.duration (text : String) : Option ℤ :=
  if text = "" then none else (env.parseDuration text).filter fun d => 0 < d

def ScheduleEnv.interval (tag : TagConfig) : ℤ :=
  (env.duration tag.interval).getD env.defaultTagInterval

def collected (tag : TagConfig) : Bool := tag.protect ≠ "write-only"

def collectTriggerTag (tag : TagConfig) (p : TagPlan) : TagPlan :=
  { p with
    groupTrigger :=
      if tag.triggerGroup = "" then p.groupTrigger else p.groupTrigger.insert tag.triggerGroup tag.name
    gatedTags := if tag.triggers = "" then p.gatedTags else bucket p.gatedTags tag.triggers tag.name }

def collectTag (p : TagPlan) (tag : TagConfig) : TagPlan :=
  if collected tag then
    let interval := env.interval tag
    let p := collectTriggerTag tag p
    { p with
      intervalGroups := bucket p.intervalGroups interval tag.name
      deadBands := if tag.deadBand.isPos then p.deadBands.insert tag.name tag.deadBand else p.deadBands
      enforceIntervals :=
        match env.duration tag.enforceInterval with
        | some d => p.enforceIntervals.insert tag.name d
        | none => p.enforceIntervals
      readTimeouts :=
        match env.duration tag.readTimeout with
        | some d =>
          if (p.readTimeouts.lookup interval).getD 0 < d then p.readTimeouts.insert interval d
          else p.readTimeouts
        | none => p.readTimeouts }
  else p

def tagPlan (tags : List TagConfig) : TagPlan :=
  tags.foldl (collectTag env) ⟨∅, ∅, ∅, ∅, ∅, ∅⟩

/-- `core.DefaultHighPriorityInterval`, one second. -/
def defaultHighPriorityInterval : ℤ := 1000000000

def groupTask (d : DriverConfig) (p : TagPlan) (interval : ℤ) : ScheduleTask :=
  let effective := if 0 < env.minInterval ∧ interval < env.minInterval then env.minInterval else interval
  { id := d.name ++ "_" ++ env.durationString effective
    driver := d.name
    tags := get p.intervalGroups interval
    interval := effective
    priority := if 0 < effective ∧ effective ≤ defaultHighPriorityInterval then 1 else 0
    deadBands := p.deadBands
    enforceIntervals := p.enforceIntervals
    groupTrigger := p.groupTrigger
    groupGated := p.gatedTags
    readTimeout := (p.readTimeouts.lookup interval).getD 0 }

/-- `scheduleDriverTags`: the tasks in the order of `AddTask`, when the interval groups are visited in
the given order. -/
def scheduleDriverTags (d : DriverConfig) (order : List ℤ) : List ScheduleTask :=
  order.map (groupTask env d (tagPlan env d.tags))

/-! ### What the maps hold -/

def conditionOf (tags : List TagConfig) (group : String) : Option String :=
  ((tags.filter fun t => collected t ∧ t.triggerGroup ≠ "" ∧ t.triggerGroup = group).getLast?).map TagConfig.name

variable (env : ScheduleEnv) (tags : List TagConfig)

theorem conditionOf_append (t : TagConfig) (g : String) : conditionOf (tags ++ [t]) g =
      if collected t ∧ t.triggerGroup ≠ "" ∧ t.triggerGroup = g then some t.name
      else conditionOf tags g := by
  unfold conditionOf
  rw [filter_append]
  split_ifs with h
  · obtain ⟨hc, hg, rfl⟩ := h
    simp [hc, hg]
  · rw [filter_cons_of_neg (by simpa using h)]
    simp

theorem tagPlan_append (t : TagConfig) : tagPlan env (tags ++ [t]) = collectTag env (tagPlan env tags) t := by
  simp [tagPlan]

/-- **`groupTrigger` holds the condition tag of every group.** -/
theorem lookup_groupTrigger (g : String) : (tagPlan env tags).groupTrigger.lookup g = conditionOf tags g := by
  induction tags using List.reverseRecOn with
  | nil => rfl
  | append_singleton tags t ih =>
    rw [tagPlan_append, conditionOf_append, ← ih]
    unfold collectTag collectTriggerTag
    by_cases hc : collected t
    · by_cases hg : t.triggerGroup = ""
      · simp [hc, hg]
      · by_cases heq : t.triggerGroup = g
        · subst heq
          simp [hc, hg]
        · simp [hc, hg, heq, AList.lookup_insert_ne (Ne.symm heq)]
    · simp [hc]

/-- **`groupGated` holds the collected tags a condition gates.** -/
theorem get_gatedTags (c : String) : get (tagPlan env tags).gatedTags c =
      (tags.filter fun t => collected t ∧ t.triggers ≠ "" ∧ t.triggers = c).map TagConfig.name := by
  induction tags using List.reverseRecOn with
  | nil => rfl
  | append_singleton tags t ih =>
    rw [tagPlan_append, filter_append, map_append, ← ih]
    unfold collectTag collectTriggerTag
    by_cases hc : collected t
    · by_cases hg : t.triggers = ""
      · simp [hc, hg]
      · by_cases heq : t.triggers = c
        · subst heq
          simp [hc, hg, get_bucket]
        · simp [hc, hg, heq, get_bucket, Ne.symm heq]
    · simp [hc]

/-- **Every interval group holds the collected tags of its interval.** -/
theorem get_intervalGroups (i : ℤ) : get (tagPlan env tags).intervalGroups i =
      (tags.filter fun t => collected t ∧ env.interval t = i).map TagConfig.name := by
  induction tags using List.reverseRecOn with
  | nil => rfl
  | append_singleton tags t ih =>
    rw [tagPlan_append, filter_append, map_append, ← ih]
    unfold collectTag collectTriggerTag
    by_cases hc : collected t
    · by_cases heq : env.interval t = i
      · simp [hc, heq, get_bucket]
      · simp [hc, heq, get_bucket, Ne.symm heq]
    · simp [hc]

theorem mem_gatedTags (c : String) : c ∈ (tagPlan env tags).gatedTags ↔
      ∃ t ∈ tags, collected t = true ∧ t.triggers ≠ "" ∧ t.triggers = c := by
  induction tags using List.reverseRecOn with
  | nil => simp [tagPlan]
  | append_singleton tags t ih =>
    rw [tagPlan_append]
    simp only [mem_append, mem_singleton, or_and_right, exists_or, exists_eq_left, ← ih]
    unfold collectTag collectTriggerTag
    by_cases hc : collected t
    · by_cases hg : t.triggers = ""
      · simp [hc, hg]
      · simp only [hc, hg, if_true, if_false, mem_bucket, ne_eq, not_false_eq_true, true_and]
        rw [or_comm, @eq_comm _ c]
    · simp [hc]

theorem mem_intervalGroups (i : ℤ) :
    i ∈ (tagPlan env tags).intervalGroups ↔ ∃ t ∈ tags, collected t = true ∧ env.interval t = i := by
  induction tags using List.reverseRecOn with
  | nil => simp [tagPlan]
  | append_singleton tags t ih =>
    rw [tagPlan_append]
    simp only [mem_append, mem_singleton, or_and_right, exists_or, exists_eq_left, ← ih]
    unfold collectTag collectTriggerTag
    by_cases hc : collected t
    · simp only [hc, if_true, mem_bucket, true_and]
      rw [or_comm, @eq_comm _ i]
    · simp [hc]

theorem collected_of_mem_task {env : ScheduleEnv} {d : DriverConfig} {order : List ℤ}
    {task : ScheduleTask} (h : task ∈ scheduleDriverTags env d order) {n : String}
    (hn : n ∈ task.tags) : ∃ t ∈ d.tags, collected t ∧ t.name = n := by
  obtain ⟨i, -, rfl⟩ := mem_map.mp h
  change n ∈ get (tagPlan env d.tags).intervalGroups i at hn
  rw [get_intervalGroups] at hn
  obtain ⟨t, ht, rfl⟩ := mem_map.mp hn
  rw [mem_filter] at ht
  exact ⟨t, ht.1, (by simpa using ht.2 : collected t = true ∧ _).1, rfl⟩

end CoreC.Engine.Schedule
