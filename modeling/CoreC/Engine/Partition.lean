import CoreC.Engine.Trigger

/-! # The tags of a gated cycle

A tick of a task without gated tags reads all its tags. A tick of a task whose driver has gated tags reads the conditions
of the driver, then the gated tags of the task whose condition fired; the other gated tags are suppressed. The loop of
`gateTriggerTags` skips every tag that is not gated: one that is no condition either is in none of the three sets. -/

namespace CoreC.Engine.Partition

open Core.Types Config.Validate Engine.Schedule Engine.Trigger List

/-- A read gives a value for each tag it is asked for. -/
def ReadsAll (read : List String → Option (List TagValue)) : Prop :=
  ∀ tags, ∃ values, read tags = some values ∧ ∀ n, n ∈ values.map TagValue.tag ↔ n ∈ tags

def InConditions (c : Cycle) (tag : String) : Prop := tag ∈ c.conditionValues.map TagValue.tag

instance (c : Cycle) (tag : String) : Decidable (InConditions c tag) :=
  inferInstanceAs (Decidable (_ ∈ _))

def places (c : Cycle) (tag : String) : ℕ :=
  (if InConditions c tag then 1 else 0) + (if tag ∈ c.detailTags then 1 else 0) +
    if tag ∈ c.suppressed then 1 else 0

/-- The cycle accounts for a tag: it is in exactly one of the sets, and it is read unless it is gated. -/
def Accounted (c : Cycle) (t : TagConfig) : Prop :=
  places c t.name = 1 ∧ (t.triggers = "" → t.name ∉ c.suppressed ∧ (InConditions c t.name ∨ t.name ∈ c.detailTags))

section

variable {env : ScheduleEnv} {d : DriverConfig} {order : List ℤ} {task : ScheduleTask}
  {t : TagConfig} {ord : GateOrders} {readConditions readDetails : List String → Option (List TagValue)}

variable (tags : List TagConfig)

/-- A collected tag has a condition. -/
def Gates : Prop := ∃ t ∈ tags, collected t = true ∧ t.triggers ≠ ""

/-- A collected tag is a condition. -/
def Conditions : Prop := ∃ t ∈ tags, collected t = true ∧ t.triggerGroup ≠ ""

theorem groupGated_eq_nil (htask : task ∈ scheduleDriverTags env d order) :
    task.groupGated.keys = [] ↔ ¬ Gates d.tags := by
  rw [(task_maps htask).2, eq_nil_iff_forall_not_mem]
  simp only [← AList.mem_keys, mem_gatedTags]
  constructor
  · rintro h ⟨t, ht, hcol, hne⟩
    exact h t.triggers ⟨t, ht, hcol, hne, rfl⟩
  · rintro h c ⟨t, ht, hcol, hne, -⟩
    exact h ⟨t, ht, hcol, hne⟩

theorem groupTrigger_eq_nil_iff (htask : task ∈ scheduleDriverTags env d order) :
    task.groupTrigger.keys = [] ↔ ¬ Conditions d.tags := by
  rw [groupTrigger_eq_nil htask]
  constructor
  · rintro h ⟨t, ht, hcol, hne⟩
    have hmem : t ∈ d.tags.filter fun k =>
        collected k ∧ k.triggerGroup ≠ "" ∧ k.triggerGroup = t.triggerGroup := by
      simp [ht, hcol, hne]
    have hnone := h t.triggerGroup
    unfold conditionOf at hnone
    rw [Option.map_eq_none_iff, List.getLast?_eq_none_iff] at hnone
    rw [hnone] at hmem
    cases hmem
  · intro h g
    by_contra hne
    obtain ⟨n, hn⟩ := Option.ne_none_iff_exists'.mp hne
    obtain ⟨k, hk, -⟩ := Option.map_eq_some_iff.mp hn
    have hk' := mem_filter.mp (mem_of_getLast? hk)
    have hp : collected k = true ∧ k.triggerGroup ≠ "" ∧ k.triggerGroup = g := by simpa using hk'.2
    exact h ⟨k, hk'.1, hp.1, hp.2.1⟩

/-! ### The three sets of a cycle -/

variable (ord readConditions readDetails)

theorem cycle_plain (h : task.groupGated.keys = [] ∨ task.groupTrigger.keys = []) :
    (cycle task ord readConditions readDetails).conditionValues = [] ∧
      (cycle task ord readConditions readDetails).detailTags = task.tags ∧
      (cycle task ord readConditions readDetails).suppressed = [] := by
  unfold cycle gateTriggerTags
  by_cases hgated : task.groupGated.keys = []
  · simp [hgated, Cycle.conditionValues, Cycle.detailTags, Cycle.suppressed]
  · have htrig := h.resolve_left hgated
    simp [hgated, htrig, Cycle.conditionValues, Cycle.detailTags, Cycle.suppressed]

theorem cycle_gated {values : List TagValue} (hgated : task.groupGated.keys ≠ []) (htrig : task.groupTrigger.keys ≠ [])
    (hread : readConditions (conditionTags task ord) = some values) :
    (cycle task ord readConditions readDetails).conditionValues = values ∧
      (cycle task ord readConditions readDetails).detailTags =
        (task.tags.filter fun tag => gateOf task ord (firedMap values) tag = some true) ∧
      (cycle task ord readConditions readDetails).suppressed =
        task.tags.filter fun tag => gateOf task ord (firedMap values) tag = some false := by
  unfold cycle gateTriggerTags
  simp [hgated, htrig, hread, Cycle.conditionValues, Cycle.detailTags, Cycle.suppressed]

theorem gateOf_ungated (hacc : TagsAccepted d.tags) (htask : task ∈ scheduleDriverTags env d order)
    (ht : t ∈ d.tags) (hc : t.triggers = "") (fired : AList fun _ : String => Bool) :
    gateOf task ord fired t.name = none := by
  have hnone : gatedOf task.groupGated (ord.gated t.name) t.name = none := by
    refine List.find?_eq_none.mpr fun g _ hg => ?_
    rw [decide_eq_true_eq, (task_maps htask).2, get_gatedTags] at hg
    obtain ⟨t', ht', hname⟩ := mem_map.mp hg
    rw [mem_filter] at ht'
    have heq := eq_of_name hacc ht ht'.1 hname
    subst heq
    have hp : collected t' = true ∧ t'.triggers ≠ "" ∧ t'.triggers = g := by simpa using ht'.2
    exact hp.2.1 hc
  simp [gateOf, hnone]

theorem gateOf_gated (hacc : TagsAccepted d.tags) (htask : task ∈ scheduleDriverTags env d order)
    (ht : t ∈ d.tags) (hc : t.triggers ≠ "") (hin : t.name ∈ task.tags) (hord : ord.Valid task)
    (fired : AList fun _ : String => Bool) : ∃ b, gateOf task ord fired t.name = some b := by
  unfold gateOf
  rw [gatedOf_eq hacc htask ht hc hin hord]
  exact ⟨_, rfl⟩

/-- The tag is the condition of its group: no later collected tag declares the same one. -/
def IsCondition (t : TagConfig) : Prop :=
  conditionOf tags t.triggerGroup = some t.name

theorem mem_conditionTags_iff (hacc : TagsAccepted d.tags)
    (htask : task ∈ scheduleDriverTags env d order) (ht : t ∈ d.tags) (hord : ord.Valid task) :
    t.name ∈ conditionTags task ord ↔ IsCondition d.tags t := by
  rw [mem_conditionTags htask hord]
  constructor
  · rintro ⟨g, hg⟩
    obtain ⟨k, hk, hname, hkg, -⟩ := conditionOf_mem hg
    rw [eq_of_name hacc ht hk hname] at hkg
    rw [← hkg] at hg
    exact hg
  · exact fun h => ⟨_, h⟩

theorem places_of_gated (hacc : TagsAccepted d.tags) (htask : task ∈ scheduleDriverTags env d order)
    (ht : t ∈ d.tags) (hc : t.triggers ≠ "") (hin : t.name ∈ task.tags) (hord : ord.Valid task)
    (hread : ReadsAll readConditions) (htrig : task.groupTrigger.keys ≠ []) :
    places (cycle task ord readConditions readDetails) t.name = 1 := by
  have hgated : task.groupGated.keys ≠ [] :=
    ne_nil_of_mem (triggers_mem_keys hacc htask ht hc hin)
  obtain ⟨values, hvalues, hmem⟩ := hread (conditionTags task ord)
  obtain ⟨h1, h2, h3⟩ := cycle_gated ord readConditions readDetails hgated htrig hvalues
  obtain ⟨b, hb⟩ := gateOf_gated ord hacc htask ht hc hin hord (firedMap values)
  -- a gated tag declares no group, so it is not among the conditions
  have hnot : ¬ InConditions (cycle task ord readConditions readDetails) t.name := by
    unfold InConditions
    rw [h1, hmem, mem_conditionTags_iff ord hacc htask ht hord]
    intro hcond
    obtain ⟨k, hk, hname, hkg, hne⟩ := conditionOf_mem hcond
    exact hne ((hacc.exclusive t ht).resolve_right hc)
  unfold places
  rw [if_neg hnot, h2, h3]
  cases b <;> simp [hin, hb]

/-- **A tag that is not gated is in the conditions, or in none of the sets.** -/
theorem sets_of_ungated (hacc : TagsAccepted d.tags) (htask : task ∈ scheduleDriverTags env d order)
    (ht : t ∈ d.tags) (hc : t.triggers = "") (hord : ord.Valid task) (hread : ReadsAll readConditions)
    (hgated : task.groupGated.keys ≠ []) (htrig : task.groupTrigger.keys ≠ []) :
    (InConditions (cycle task ord readConditions readDetails) t.name ↔ IsCondition d.tags t) ∧
      t.name ∉ (cycle task ord readConditions readDetails).detailTags ∧
      t.name ∉ (cycle task ord readConditions readDetails).suppressed := by
  obtain ⟨values, hvalues, hmem⟩ := hread (conditionTags task ord)
  obtain ⟨h1, h2, h3⟩ := cycle_gated ord readConditions readDetails hgated htrig hvalues
  have hgate := gateOf_ungated ord hacc htask ht hc (firedMap values)
  refine ⟨?_, ?_, ?_⟩
  · unfold InConditions
    rw [h1, hmem, mem_conditionTags_iff ord hacc htask ht hord]
  · rw [h2, mem_filter, hgate]
    simp
  · rw [h3, mem_filter, hgate]
    simp

end

/-- **A cycle accounts for every tag of its task if and only if** no tag of the driver is gated, or no
condition is collected, or every tag of the task is gated or is the condition of its group. -/
theorem partition_iff {parseDuration : String → Option ℤ} {driverNames registered r : List String}
    {env : ScheduleEnv} {d : DriverConfig} {order : List ℤ} {task : ScheduleTask} {ord : GateOrders}
    {readConditions readDetails : List String → Option (List TagValue)}
    (hvalid : validateDriver parseDuration driverNames registered d = .ok r)
    (htask : task ∈ scheduleDriverTags env d order) (hord : ord.Valid task)
    (hread : ReadsAll readConditions) :
    (∀ t ∈ d.tags, t.name ∈ task.tags → Accounted (cycle task ord readConditions readDetails) t) ↔
      ¬ Gates d.tags ∨ ¬ Conditions d.tags ∨
        ∀ t ∈ d.tags, t.name ∈ task.tags → t.triggers = "" → IsCondition d.tags t := by
  have hacc := validateDriver_accepted hvalid
  rw [← groupGated_eq_nil htask, ← groupTrigger_eq_nil_iff htask]
  by_cases hplain : task.groupGated.keys = [] ∨ task.groupTrigger.keys = []
  · obtain ⟨h1, h2, h3⟩ := cycle_plain ord readConditions readDetails hplain
    refine iff_of_true (fun t _ hin => ⟨?_, fun _ => ⟨?_, .inr ?_⟩⟩) (by tauto)
    · simp [places, InConditions, h1, h2, h3, hin]
    · simp [h3]
    · rwa [h2]
  · obtain ⟨hgated, htrig⟩ := not_or.mp hplain
    simp only [hgated, htrig, false_or]
    refine ⟨fun h t ht hin hc => ?_, fun h t ht hin => ?_⟩
    · obtain ⟨hcond, hdetail, -⟩ := sets_of_ungated ord readConditions readDetails hacc htask ht hc
        hord hread hgated htrig
      exact hcond.mp (((h t ht hin).2 hc).2.resolve_right hdetail)
    · by_cases hc : t.triggers = ""
      · obtain ⟨hcond, hdetail, hsup⟩ := sets_of_ungated ord readConditions readDetails hacc htask
          ht hc hord hread hgated htrig
        have hin' := hcond.mpr (h t ht hin hc)
        exact ⟨by simp [places, hin', hdetail, hsup], fun _ => ⟨hsup, .inl hin'⟩⟩
      · exact ⟨places_of_gated ord readConditions readDetails hacc htask ht hc hin hord hread htrig,
          fun h => absurd h hc⟩

/-! ### A temperature next to an alarm -/

/-- The flag of a group named like it, its detail tag, and an ordinary tag. -/
def boilerDriver : DriverConfig :=
  { alarmDriver "alarm_flag" with
    tags := (alarmDriver "alarm_flag").tags ++ [{ name := "temperature", address := "3", type := "int16" }] }

def boilerTask : ScheduleTask :=
  groupTask alarmEnv boilerDriver (tagPlan alarmEnv boilerDriver.tags) 1000000000

def readsTrue (tags : List String) : Option (List TagValue) :=
  some (tags.map fun tag => ⟨tag, .bool true, .bool, .good⟩)

theorem readsTrue_all : ReadsAll readsTrue := by
  intro tags
  refine ⟨_, rfl, fun n => ?_⟩
  simp

/-- **The temperature is in none of the sets: it is never read.** -/
theorem temperature_lost : validateDriver (fun _ => none) [] [] boilerDriver = .ok ["plc"] ∧
      boilerTask ∈ scheduleDriverTags alarmEnv boilerDriver [1000000000] ∧
      "temperature" ∈ boilerTask.tags ∧
      GateOrders.Valid ⟨["alarm_flag"], fun _ => ["alarm_flag"]⟩ boilerTask ∧ ReadsAll readsTrue ∧
      places (cycle boilerTask ⟨["alarm_flag"], fun _ => ["alarm_flag"]⟩ readsTrue readsTrue) "temperature" = 0 :=
  ⟨rfl, mem_singleton.mpr rfl, by decide, ⟨Perm.refl _, fun _ => Perm.refl _⟩, readsTrue_all, by decide⟩

/-- Without the ordinary tag every cycle accounts for both. -/
theorem partition_alarm_flag : validateDriver (fun _ => none) [] [] (alarmDriver "alarm_flag") = .ok ["plc"] ∧
    ∀ t ∈ (alarmDriver "alarm_flag").tags, t.name ∈ (alarmTask "alarm_flag").tags →
      Accounted (cycle (alarmTask "alarm_flag") ⟨["alarm_flag"], fun _ => ["alarm_flag"]⟩ readsTrue readsTrue) t := by
  have hvalid : validateDriver (fun _ => none) [] [] (alarmDriver "alarm_flag") = .ok ["plc"] := rfl
  refine ⟨hvalid, (partition_iff hvalid (alarmTask_mem "alarm_flag")
    ⟨Perm.refl _, fun _ => Perm.refl _⟩ readsTrue_all).mpr ?_⟩
  refine .inr (.inr fun t ht _ hc => ?_)
  simp only [alarmDriver, mem_cons, not_mem_nil, or_false] at ht
  rcases ht with rfl | rfl
  · unfold IsCondition
    decide
  · exact absurd hc (by decide)

end CoreC.Engine.Partition
