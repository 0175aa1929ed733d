import CoreC.Config.Validate
import CoreC.Engine.Schedule

/-! # Trigger groups

A condition tag declares a group (`trigger-group: g`), and a detail tag names its condition (`triggers: c`). In a cycle
of a task the conditions are read first, and a detail tag is read only if its condition fired. The gate joins two maps:
`gatedOf` gives the key `c` of a detail tag, and `groupTrigger` the condition tag of the key. But `groupTrigger` is keyed
by group names, so the join finds the condition only where the group is named like its condition tag. -/

namespace CoreC.Engine.Trigger

open Core.Types Lib.Buckets Config.Validate Engine.Schedule List

/-- `triggerFired`: good quality, and true or a non-zero number. -/
def triggerFired (v : TagValue) : Bool :=
  if v.quality = .good then
    match v.value with
    | .bool b => b
    | x =>
      match toFloat64OK x with
      | some f => f ≠ 0
      | none => false
  else false

structure TriggerPlan where
  read : List String
  conditions : List TagValue
  suppressed : List String

/-- The orders in which a cycle visits the maps: the groups once, and the gated tags once for every
lookup of a tag. -/
structure GateOrders where
  groups : List String
  gated : String → List String

/-- `gatedOf`: the first key under which the tag is listed. -/
def gatedOf (gated : AList fun _ : String => List String) (order : List String) (tag : String) :
    Option String :=
  order.find? fun group => tag ∈ get gated group

variable (values : List TagValue)

/-- The map `fired`; a later value of a tag wins. -/
def firedMap : AList fun _ : String => Bool :=
  values.foldl (fun m v => m.insert v.tag (triggerFired v)) ∅

variable (task : ScheduleTask)

def conditionTags (ord : GateOrders) : List String :=
  ord.groups.filterMap fun g => task.groupTrigger.lookup g

/-- What the gate says about a tag: `none` if it is not gated. -/
def gateOf (ord : GateOrders) (fired : AList fun _ : String => Bool)
    (tag : String) : Option Bool :=
  (gatedOf task.groupGated (ord.gated tag) tag).map fun group =>
    (fired.lookup ((task.groupTrigger.lookup group).getD "")).getD false

/-- `gateTriggerTags`, with whether the cycle counts as skipped. -/
def gateTriggerTags (ord : GateOrders)
    (read : List String → Option (List TagValue)) : TriggerPlan × Bool :=
  if task.groupTrigger.keys = [] then (⟨task.tags, [], []⟩, false)
  else
    match read (conditionTags task ord) with
    | none => (⟨[], [], task.tags⟩, true)
    | some values =>
      let gate := gateOf task ord (firedMap values)
      let suppressed := task.tags.filter fun tag => gate tag = some false
      (⟨task.tags.filter fun tag => gate tag = some true, values, suppressed⟩, suppressed ≠ [])

/-- One tick of `runTask`: the tags requested from the device, the plan, and the values (`none` if
reading the details failed). -/
structure Cycle where
  requested : List String
  plan : Option TriggerPlan
  values : Option (List TagValue)

def cycle (ord : GateOrders) (readConditions readDetails :
    List String → Option (List TagValue)) : Cycle :=
  let details (tags : List String) := if tags = [] then some [] else readDetails tags
  if task.groupGated.keys = [] then ⟨task.tags, none, details task.tags⟩
  else
    let plan := (gateTriggerTags task ord readConditions).1
    { requested := (if task.groupTrigger.keys = [] then [] else conditionTags task ord) ++ plan.read
      plan := some plan
      values := (details plan.read).map (plan.conditions ++ ·) }

def Cycle.conditionValues (c : Cycle) : List TagValue :=
  match c.plan with
  | some p => p.conditions
  | none => []

def Cycle.detailTags (c : Cycle) : List String :=
  match c.plan with
  | some p => p.read
  | none => c.requested

def Cycle.suppressed (c : Cycle) : List String :=
  match c.plan with
  | some p => p.suppressed
  | none => []

def ReadFired (tag : String) : Prop :=
  ∃ v, (values.filter fun v => v.tag = tag).getLast? = some v ∧ triggerFired v = true

structure GateOrders.Valid (ord : GateOrders) (task : ScheduleTask) : Prop where
  groups : ord.groups.Perm task.groupTrigger.keys
  gated : ∀ tag, (ord.gated tag).Perm task.groupGated.keys

/-! ### The gate of a tag -/

theorem lookup_firedMap (tag : String) : (firedMap values).lookup tag =
      ((values.filter fun v => v.tag = tag).getLast?).map triggerFired := by
  rw [firedMap, lookup_foldl_insert TagValue.tag triggerFired tag, AList.lookup_empty, Option.or_none]

theorem readFired_iff {values : List TagValue} {tag : String} :
    ReadFired values tag ↔ ((firedMap values).lookup tag).getD false = true := by
  rw [lookup_firedMap]
  unfold ReadFired
  cases (values.filter fun v => v.tag = tag).getLast? <;> simp

theorem not_readFired {values : List TagValue} {tag : String} (h : ∀ v ∈ values, v.tag ≠ tag) :
    ¬ ReadFired values tag := by
  rintro ⟨v, hv, -⟩
  have := mem_of_getLast? hv
  rw [mem_filter] at this
  exact h v this.1 (by simpa using this.2)

theorem find?_eq_of_unique {α : Type} {p : α → Bool} {l : List α} {a : α} (ha : a ∈ l)
    (hp : p a = true) (huniq : ∀ b ∈ l, p b = true → b = a) : l.find? p = some a := by
  cases h : l.find? p with
  | none => exact absurd hp (List.find?_eq_none.mp h a ha)
  | some b => rw [huniq b (mem_of_find?_eq_some h) (List.find?_some h)]

section

variable {env : ScheduleEnv} {d : DriverConfig} {order : List ℤ} {task : ScheduleTask}
  {t : TagConfig} {ord : GateOrders}

theorem task_maps (htask : task ∈ scheduleDriverTags env d order) :
    task.groupTrigger = (tagPlan env d.tags).groupTrigger ∧ task.groupGated = (tagPlan env d.tags).gatedTags := by
  obtain ⟨i, -, rfl⟩ := mem_map.mp htask
  exact ⟨rfl, rfl⟩

theorem eq_of_name (hacc : TagsAccepted d.tags) {t' : TagConfig} (ht : t ∈ d.tags)
    (ht' : t' ∈ d.tags) (h : t'.name = t.name) : t' = t :=
  inj_on_of_nodup_map hacc.nodup ht' ht h

theorem conditionOf_mem {g n : String} (h : conditionOf d.tags g = some n) :
    ∃ k ∈ d.tags, k.name = n ∧ k.triggerGroup = g ∧ g ≠ "" := by
  obtain ⟨k, hk, rfl⟩ := Option.map_eq_some_iff.mp h
  have := mem_of_getLast? hk
  rw [mem_filter] at this
  obtain ⟨hmem, hp⟩ := this
  obtain ⟨-, h1, h2⟩ : collected k = true ∧ k.triggerGroup ≠ "" ∧ k.triggerGroup = g := by
    simpa using hp
  exact ⟨k, hmem, rfl, h2, h2 ▸ h1⟩

variable (hacc : TagsAccepted d.tags) (htask : task ∈ scheduleDriverTags env d order)
  (ht : t ∈ d.tags) (hc : t.triggers ≠ "") (hin : t.name ∈ task.tags)

include hacc htask ht hin in
theorem collected_of_mem : collected t = true := by
  obtain ⟨t', ht', hcol, hname⟩ := collected_of_mem_task htask hin
  rwa [eq_of_name hacc ht ht' hname] at hcol

include hacc htask ht hc hin in
theorem mem_gated_iff (g : String) : t.name ∈ get task.groupGated g ↔ g = t.triggers := by
  rw [(task_maps htask).2, get_gatedTags]
  constructor
  · intro hmem
    obtain ⟨t', ht', hname⟩ := mem_map.mp hmem
    rw [mem_filter] at ht'
    have heq := eq_of_name hacc ht ht'.1 hname
    subst heq
    exact (by simpa using ht'.2 : _ ∧ _ ∧ t'.triggers = g).2.2.symm
  · rintro rfl
    refine mem_map.mpr ⟨t, mem_filter.mpr ⟨ht, ?_⟩, rfl⟩
    simpa [hc] using collected_of_mem hacc htask ht hin

include hacc htask ht hc hin in
theorem triggers_mem_keys : t.triggers ∈ task.groupGated.keys := by
  by_contra hn
  have hnone : task.groupGated.lookup t.triggers = none :=
    AList.lookup_eq_none.mpr fun h => hn (AList.mem_keys.mp h)
  have := (mem_gated_iff hacc htask ht hc hin t.triggers).mpr rfl
  simp [Lib.Buckets.get, hnone] at this

include hacc htask ht hc hin in
theorem gatedOf_eq (hord : ord.Valid task) : gatedOf task.groupGated (ord.gated t.name) t.name = some t.triggers := by
  refine find?_eq_of_unique ?_ ?_ ?_
  · exact (hord.gated t.name).mem_iff.mpr (triggers_mem_keys hacc htask ht hc hin)
  · simpa using (mem_gated_iff hacc htask ht hc hin t.triggers).mpr rfl
  · intro g _ hg
    exact (mem_gated_iff hacc htask ht hc hin g).mp (by simpa using hg)

include htask in
theorem mem_conditionTags (hord : ord.Valid task) {n : String} :
    n ∈ conditionTags task ord ↔ ∃ g, conditionOf d.tags g = some n := by
  unfold conditionTags
  simp only [mem_filterMap, (task_maps htask).1, lookup_groupTrigger]
  refine ⟨fun ⟨g, _, hg⟩ => ⟨g, hg⟩, fun ⟨g, hg⟩ => ⟨g, ?_, hg⟩⟩
  rw [hord.groups.mem_iff, (task_maps htask).1, ← AList.mem_keys, ← AList.lookup_isSome, lookup_groupTrigger, hg]
  rfl

include htask in
theorem groupTrigger_eq_nil : task.groupTrigger.keys = [] ↔ ∀ g, conditionOf d.tags g = none := by
  rw [(task_maps htask).1]
  constructor
  · intro h g
    rw [← lookup_groupTrigger env]
    exact AList.lookup_eq_none.mpr fun hg => by simpa [h] using AList.mem_keys.mp hg
  · intro h
    refine eq_nil_iff_forall_not_mem.mpr fun g hg => ?_
    have := AList.lookup_isSome.mpr (AList.mem_keys.mpr hg)
    rw [lookup_groupTrigger, h g] at this
    cases this

/-! ### Which tags a cycle requests -/

variable {readConditions readDetails : List String → Option (List TagValue)}

def ReadsConditions (read : List String → Option (List TagValue)) : Prop :=
  ∀ tags, ∃ values, read tags = some values ∧ ∀ v ∈ values, v.tag ∈ tags

include hacc htask ht hc hin in
/-- **A gated tag is requested if there are no groups, or if the condition tag of the group named by
its `triggers` fired.** -/
theorem mem_requested_iff (hord : ord.Valid task) (hread : ReadsConditions readConditions) :
    t.name ∈ (cycle task ord readConditions readDetails).requested ↔ (∀ g, conditionOf d.tags g = none) ∨
        ∃ k, conditionOf d.tags t.triggers = some k ∧
          ReadFired (cycle task ord readConditions readDetails).conditionValues k := by
  have hkeys : task.groupGated.keys ≠ [] :=
    ne_nil_of_mem (triggers_mem_keys hacc htask ht hc hin)
  rw [← groupTrigger_eq_nil htask]
  unfold cycle gateTriggerTags
  by_cases hnil : task.groupTrigger.keys = []
  · simp [hkeys, hnil, hin]
  · obtain ⟨values, hvalues, htags⟩ := hread (conditionTags task ord)
    have hnc : t.name ∉ conditionTags task ord := by
      intro hmem
      obtain ⟨g, hg⟩ := (mem_conditionTags htask hord).mp hmem
      obtain ⟨k, hk, hname, hkg, hg0⟩ := conditionOf_mem hg
      rw [eq_of_name hacc ht hk hname] at hkg
      rcases hacc.exclusive t ht with h | h
      · exact hg0 (hkg ▸ h)
      · exact hc h
    have hgate : gateOf task ord (firedMap values) t.name =
        some (((firedMap values).lookup ((conditionOf d.tags t.triggers).getD "")).getD false) := by
      unfold gateOf
      rw [gatedOf_eq hacc htask ht hc hin hord, (task_maps htask).1, Option.map_some, lookup_groupTrigger]
    simp only [hkeys, hnil, if_false, hvalues, mem_append, hnc, false_or, mem_filter, hin,
      true_and, hgate, Cycle.conditionValues, decide_eq_true_eq, Option.some.injEq]
    cases hk : conditionOf d.tags t.triggers with
    | none =>
      -- the missing key reads as the empty name, which no tag has
      have hempty : ¬ ReadFired values "" := by
        refine not_readFired fun v hv h => ?_
        obtain ⟨g, hg⟩ := (mem_conditionTags htask hord).mp (htags v hv)
        obtain ⟨k, hkm, hname, -⟩ := conditionOf_mem hg
        exact hacc.nonempty k hkm (hname.trans h)
      simpa [readFired_iff] using hempty
    | some k => simp [readFired_iff]

theorem conditionValues_eq (hgated : task.groupGated.keys ≠ []) (hread : ReadsConditions readConditions) :
    (cycle task ord readConditions readDetails).conditionValues =
      if task.groupTrigger.keys = [] then []
      else (readConditions (conditionTags task ord)).getD [] := by
  obtain ⟨values, hvalues, -⟩ := hread (conditionTags task ord)
  unfold cycle gateTriggerTags Cycle.conditionValues
  by_cases hnil : task.groupTrigger.keys = []
  · simp [hgated, hnil]
  · simp [hgated, hnil, hvalues]

/-- A device on which only the tag `k` fires. -/
def readsOnly (k : String) (tags : List String) : Option (List TagValue) :=
  some (if k ∈ tags then [⟨k, .bool true, .bool, .good⟩] else [])

theorem readsOnly_conditions (k : String) : ReadsConditions (readsOnly k) := by
  intro tags
  refine ⟨_, rfl, fun v hv => ?_⟩
  split_ifs at hv with hk
  · obtain rfl := mem_singleton.mp hv
    exact hk
  · cases hv

include htask in
theorem readFired_readsOnly (hgated : task.groupGated.keys ≠ []) (hord : ord.Valid task)
    {g k : String} (hk : conditionOf d.tags g = some k) (n : String) :
    ReadFired (cycle task ord (readsOnly k) readDetails).conditionValues n ↔ n = k := by
  have hnil : task.groupTrigger.keys ≠ [] := by
    rw [Ne, groupTrigger_eq_nil htask]
    intro h
    simp [h g] at hk
  rw [conditionValues_eq hgated (readsOnly_conditions k), if_neg hnil]
  unfold readsOnly
  rw [if_pos ((mem_conditionTags htask hord).mpr ⟨g, hk⟩)]
  constructor
  · intro h
    by_contra hn
    exact not_readFired (by simpa using Ne.symm hn) h
  · rintro rfl
    exact ⟨_, by simp; rfl, rfl⟩

end

/-- The gate follows the condition in every cycle whose conditions are read without error: the tag is
requested if and only if its condition was read as fired. -/
def GatingObeyed (tag condition : String) : Prop :=
  ∀ (ord : GateOrders) (readConditions readDetails : List String → Option (List TagValue)),
    ord.Valid task → ReadsConditions readConditions → (tag ∈ (cycle task ord readConditions readDetails).requested ↔
        ReadFired (cycle task ord readConditions readDetails).conditionValues condition)

/-- The group named like the condition has it as its condition tag; or there are groups, none of that
name, and the condition is not read for any of them. -/
def GroupSound (tags : List TagConfig) (c : String) : Prop :=
  conditionOf tags c = some c ∨
    (∃ g, conditionOf tags g ≠ none) ∧ conditionOf tags c = none ∧ ∀ g, conditionOf tags g ≠ some c

/-- **The gate of an accepted driver obeys its configuration if and only if the group is sound.** -/
theorem gating_obeyed_iff {parseDuration : String → Option ℤ} {driverNames registered r : List String}
    {env : ScheduleEnv} {d : DriverConfig} {order : List ℤ} {task : ScheduleTask} {t : TagConfig}
    (hvalid : validateDriver parseDuration driverNames registered d = .ok r)
    (htask : task ∈ scheduleDriverTags env d order) (ht : t ∈ d.tags) (hc : t.triggers ≠ "")
    (hin : t.name ∈ task.tags) :
    GatingObeyed task t.name t.triggers ↔ GroupSound d.tags t.triggers := by
  have hacc := validateDriver_accepted hvalid
  have hgated : task.groupGated.keys ≠ [] :=
    ne_nil_of_mem (triggers_mem_keys hacc htask ht hc hin)
  constructor
  · intro hobeyed
    have hord : (⟨task.groupTrigger.keys, fun _ => task.groupGated.keys⟩ : GateOrders).Valid task :=
      ⟨Perm.refl _, fun _ => Perm.refl _⟩
    -- what the configuration demands of the device on which only `k` fires
    have hon : ∀ k, ReadFired (cycle task _ (readsOnly k) (readsOnly k)).conditionValues t.triggers ↔
        t.name ∈ (cycle task _ (readsOnly k) (readsOnly k)).requested :=
      fun k => (hobeyed _ _ (readsOnly k) hord (readsOnly_conditions k)).symm
    simp only [mem_requested_iff hacc htask ht hc hin hord (readsOnly_conditions _)] at hon
    by_cases hnone : ∀ g, conditionOf d.tags g = none
    · have hfired := (hon "").mpr (.inl hnone)
      rw [conditionValues_eq hgated (readsOnly_conditions _), if_pos ((groupTrigger_eq_nil htask).mpr hnone)] at hfired
      exact absurd hfired (not_readFired (by simp))
    · cases hk : conditionOf d.tags t.triggers with
      | none =>
        refine .inr ⟨not_forall.mp hnone, hk, fun g hg => ?_⟩
        have hfired := (hon t.triggers).mp ((readFired_readsOnly htask hgated hord hg _).mpr rfl)
        simp [hnone, hk] at hfired
      | some k =>
        refine .inl ?_
        have hfired := (hon k).mpr (.inr ⟨k, hk, (readFired_readsOnly htask hgated hord hk _).mpr rfl⟩)
        rw [hk, (readFired_readsOnly htask hgated hord hk _).mp hfired]
  · intro hsound ord readConditions readDetails hord hread
    rw [mem_requested_iff hacc htask ht hc hin hord hread]
    rcases hsound with hk | ⟨⟨g, hg⟩, hk, hnot⟩
    · have hnone : ¬ ∀ g, conditionOf d.tags g = none := fun h => by simp [h] at hk
      simp [hnone, hk]
    · have hnone : ¬ ∀ g, conditionOf d.tags g = none := fun h => hg (h g)
      have hunread : ¬ ReadFired (cycle task ord readConditions readDetails).conditionValues t.triggers := by
        refine not_readFired fun v hv heq => ?_
        obtain ⟨values, hvalues, htags⟩ := hread (conditionTags task ord)
        rw [conditionValues_eq hgated hread, if_neg (by rwa [groupTrigger_eq_nil htask]), hvalues] at hv
        obtain ⟨g, hg⟩ := (mem_conditionTags htask hord).mp (htags v hv)
        exact hnot g (heq ▸ hg)
      simp [hnone, hk, hunread]

/-! ### An alarm flag and its code -/

def alarmCode : TagConfig where
  name := "alarm_code"
  address := "2"
  type := "uint16"
  triggers := "alarm_flag"

def alarmDriver (group : String) : DriverConfig where
  name := "plc"
  type := "modbus"
  tags := [{ name := "alarm_flag", address := "1", type := "bool", triggerGroup := group }, alarmCode]

def alarmEnv : ScheduleEnv := ⟨fun _ => none, fun _ => "1s", 1000000000, 0⟩

def alarmTask (group : String) : ScheduleTask :=
  groupTask alarmEnv (alarmDriver group) (tagPlan alarmEnv (alarmDriver group).tags) 1000000000

theorem alarmTask_mem (group : String) :
    alarmTask group ∈ scheduleDriverTags alarmEnv (alarmDriver group) [1000000000] :=
  mem_singleton.mpr rfl

/-- With the group named like the flag, the gate obeys the configuration. -/
theorem gating_obeyed_alarm_flag : GatingObeyed (alarmTask "alarm_flag") "alarm_code" "alarm_flag" :=
  (gating_obeyed_iff (t := alarmCode)
    (show validateDriver (fun _ => none) [] [] (alarmDriver "alarm_flag") = .ok ["plc"] from rfl)
    (alarmTask_mem "alarm_flag") (by simp [alarmDriver]) (by decide) (by decide)).mpr (.inl (by decide))

/-- **With any other name the accepted driver does not collect the code when the flag is set.** -/
theorem alarm_group_not_obeyed : validateDriver (fun _ => none) [] [] (alarmDriver "alarm-group") = .ok ["plc"] ∧
      alarmTask "alarm-group" ∈ scheduleDriverTags alarmEnv (alarmDriver "alarm-group") [1000000000] ∧
      "alarm_code" ∈ (alarmTask "alarm-group").tags ∧
      ¬ GatingObeyed (alarmTask "alarm-group") "alarm_code" "alarm_flag" := by
  refine ⟨rfl, alarmTask_mem _, by decide, fun h => ?_⟩
  have hcycle := h ⟨["alarm-group"], fun _ => ["alarm_flag"]⟩ (readsOnly "alarm_flag")
    (readsOnly "alarm_flag") ⟨Perm.refl _, fun _ => Perm.refl _⟩ (readsOnly_conditions _)
  refine absurd (hcycle.mpr ?_) (by decide)
  exact ⟨⟨"alarm_flag", .bool true, .bool, .good⟩, rfl, rfl⟩

end CoreC.Engine.Trigger
