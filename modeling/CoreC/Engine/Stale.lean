import CoreC.Engine.Cache
import CoreC.Engine.Partition
import CoreC.Engine.Settings

/-! # Stale values of gated tags

A detail tag that a cycle leaves out is published all the same: the callback of the scheduler (`onDriverData`,
`engine/lifecycle_support.go`) pushes its last value from the cache with the quality uncertain. But the callback is not
called if nothing is left to publish (`runTask`, `engine/scheduler.go`). And the cache holds what was published last,
which may be a bad sample, and is not the last good one if the deadband has swallowed that.

Between two cycles the workers handle all points (`processPoint`, `engine/processing.go`); no other task has the tag. -/

namespace CoreC.Engine.Stale

open Core.Types Config.Validate Engine.Cache Engine.Partition Engine.Schedule Function List Option
open Engine.Settings Engine.Trigger Lib.Float64 Lib.Yaml

/-! ### The deadband -/

/-- `math.Abs(a - b)`. -/
def distance (a b : ℚ) : GoFloat :=
  match float64.round |a - b|.num.natAbs |a - b|.den with
  | some q => .finite q
  | none => .inf false

/-- `x >= y`. -/
def atLeast : GoFloat → GoFloat → Bool
  | .finite x, .finite y => y ≤ x
  | .finite _, .inf negative => negative
  | .inf negative, .finite _ => !negative
  | .inf negative, .inf negative' => !negative || negative'
  | _, _ => false

/-- The maps of `taskRunner` that the deadband uses. -/
structure Runner where
  lastValues : String → Option ℚ := fun _ => none
  lastSent : String → Option ℤ := fun _ => none

/-- The body of the loop of `applyDeadbandFilter`, with whether the value passes. -/
def filterValue (task : ScheduleTask) (now : ℤ) (r : Runner) (v : TagValue) : Runner × Bool :=
  match task.deadBands.lookup v.tag with
  | none => (r, true)
  | some threshold =>
    if threshold.isNonPos then (r, true)
    else if v.quality ≠ .good then (r, true)
    else
      match toFloat64OK v.value with
      | none => (r, true)
      | some numVal =>
        if (r.lastValues v.tag).all fun lastVal => atLeast (distance numVal lastVal) threshold then
          (⟨update r.lastValues v.tag (some numVal), update r.lastSent v.tag (some now)⟩, true)
        else
          match task.enforceIntervals.lookup v.tag with
          | none => (r, false)
          | some heartbeat =>
            if 0 < heartbeat ∧ (r.lastSent v.tag).all fun last => heartbeat ≤ now - last then
              ({ r with lastSent := update r.lastSent v.tag (some now) }, true)
            else (r, false)

/-- The loop of `applyDeadbandFilter`, with the times of its rounds. -/
def filterLoop (task : ScheduleTask) (clock : ℕ → ℤ) : Runner → List (TagValue × ℕ) → Runner × List TagValue
  | r, [] => (r, [])
  | r, (v, i) :: rest =>
    let (r', passes) := filterValue task (clock i) r v
    let (r'', filtered) := filterLoop task clock r' rest
    (r'', if passes then v :: filtered else filtered)

def applyDeadbandFilter (task : ScheduleTask) (clock : ℕ → ℤ) (r : Runner) (values : List TagValue) :
    Runner × List TagValue :=
  if task.deadBands.keys = [] then (r, values) else filterLoop task clock r values.zipIdx

/-! ### The callback and the workers -/

/-- What the engine is configured with: the policy for bad values, and the groups of the driver's tags. -/
structure Pipeline where
  policy : BadQualityPolicy
  groups : String → String

def pointOf (cfg : Pipeline) (driver : String) (stamp : String → ℤ) (v : TagValue) : DataPoint :=
  { driver := driver, device := "", group := cfg.groups v.tag, tag := v.tag, value := v.value, type := v.type
    quality := v.quality, timestamp := stamp v.tag, metadata := [], isStale := false }

/-- The points of the suppressed tags, in `onDriverData`. -/
def republish (cfg : Pipeline) (driver : String) (stamp : String → ℤ) (cache : Values) (suppressed : List String) :
    List DataPoint :=
  suppressed.filterMap fun tag =>
    (cache tag).map fun last => pointOf cfg driver stamp ⟨tag, last.value, last.type, .uncertain⟩

variable (policy : BadQualityPolicy)

/-- `processPoint`, up to the update of the cache. -/
def processPoint (cache : Values) (point : DataPoint) : Values :=
  if point.quality = .bad then
    match policy with
    | .drop => cache
    | .markAndPublish => update cache point.tag (some { point with value := .nil })
    | .publish | .alert => update cache point.tag (some point)
  else update cache point.tag (some point)

/-! ### Cycles -/

/-- What a cycle meets: the orders of the maps, the answers of the device, the times of the rounds of the deadband, and
the timestamps of the points. -/
structure Tick where
  ord : GateOrders
  readConditions : List String → Option (List TagValue)
  readDetails : List String → Option (List TagValue)
  clock : ℕ → ℤ := fun _ => 0
  stamp : String → ℤ := fun _ => 0

/-- The runner of the task, and the cache. -/
structure State where
  runner : Runner := {}
  cache : Values := fun _ => none

/-- What a cycle does: the values that it collects, those that reach the callback, and the points that the callback
pushes for the suppressed tags and for the values. -/
structure Outcome where
  collected : List TagValue := []
  kept : List TagValue := []
  republished : List DataPoint := []
  points : List DataPoint := []

def Outcome.pushed (o : Outcome) : List DataPoint := o.republished ++ o.points

section

variable (task : ScheduleTask) (cfg : Pipeline)

def Tick.cycle (k : Tick) : Cycle := Trigger.cycle task k.ord k.readConditions k.readDetails

/-- A cycle of `runTask`, after which the workers handle the points. -/
def runTick (s : State) (k : Tick) : State × Outcome :=
  match (k.cycle task).values with
  | none => (s, {})
  | some values =>
    if values = [] then (s, {})
    else
      let (runner, filtered) := applyDeadbandFilter task k.clock s.runner values
      if filtered = [] then ({ s with runner := runner }, { collected := values })
      else
        let republished := republish cfg task.driver k.stamp s.cache (k.cycle task).suppressed
        let points := filtered.map (pointOf cfg task.driver k.stamp)
        ({ runner := runner, cache := (republished ++ points).foldl (processPoint cfg.policy) s.cache },
          { collected := values, kept := filtered, republished := republished, points := points })

/-- The cycles, and what each of them does. -/
def run (ticks : List Tick) : State × List Outcome :=
  ticks.foldl (fun (s, outcomes) k => ((runTick task cfg s k).1, outcomes ++ [(runTick task cfg s k).2])) ({}, [])

/-- The callback is called in the cycle. -/
def Called (s : State) (k : Tick) : Prop :=
  ∃ values, (k.cycle task).values = some values ∧ (applyDeadbandFilter task k.clock s.runner values).2 ≠ []

end

/-- The last good value collected. -/
def lastGood (outcomes : List Outcome) (tag : String) : Option TagValue :=
  ((outcomes.flatMap Outcome.collected).filter fun v => v.tag = tag ∧ v.quality = .good).getLast?

def cachedValue (quality : Quality) (value : GoValue) : Option GoValue :=
  if quality = .bad then
    match policy with
    | .drop => none
    | .markAndPublish => some .nil
    | .publish | .alert => some value
  else some value

/-- The last value published into the cache. -/
def lastCached (outcomes : List Outcome) (tag : String) : Option GoValue :=
  (((outcomes.flatMap Outcome.kept).filter fun v => v.tag = tag).filterMap fun v =>
    cachedValue policy v.quality v.value).getLast?

/-! ### The cache -/

section

variable {task : ScheduleTask} {cfg : Pipeline} {tag : String} {d : DriverConfig} {order : List ℤ} {env : ScheduleEnv}
  {s : State} {k : Tick}

theorem value_processPoint (policy : BadQualityPolicy) (cache : Values) (point : DataPoint) (tag : String) :
    (processPoint policy cache point tag).map DataPoint.value =
      (if point.tag = tag then cachedValue policy point.quality point.value else none).or
        ((cache tag).map DataPoint.value) := by
  unfold processPoint cachedValue
  by_cases htag : point.tag = tag
  · subst htag
    by_cases hbad : point.quality = .bad
    · cases policy <;> simp [hbad]
    · simp [hbad]
  · have hne : tag ≠ point.tag := Ne.symm htag
    by_cases hbad : point.quality = .bad
    · cases policy <;> simp [hbad, htag, hne]
    · simp [hbad, htag, hne]

theorem value_foldl_processPoint (policy : BadQualityPolicy) (tag : String) :
    ∀ (points : List DataPoint) (cache : Values), (points.foldl (processPoint policy) cache tag).map DataPoint.value =
        (((points.filter fun p => p.tag = tag).filterMap fun p => cachedValue policy p.quality p.value).getLast?).or
          ((cache tag).map DataPoint.value)
  | [], cache => rfl
  | point :: points, cache => by
    rw [foldl_cons, value_foldl_processPoint policy tag points, value_processPoint]
    by_cases htag : point.tag = tag
    · rw [if_pos htag, filter_cons_of_pos (by simpa using htag)]
      cases hvalue : cachedValue policy point.quality point.value with
      | none =>
        rw [filterMap_cons]
        simp [hvalue]
      | some value =>
        rw [filterMap_cons]
        simp only [hvalue, List.getLast?_cons]
        cases ((points.filter fun p => p.tag = tag).filterMap fun p =>
          cachedValue policy p.quality p.value).getLast? <;> rfl
    · rw [if_neg htag, filter_cons_of_neg (by simpa using htag), none_or]

variable {stamp : String → ℤ} {suppressed : List String}

theorem value_of_republished (policy : BadQualityPolicy) {driver : String} {cache : Values}
    {value : GoValue}
    (h : value ∈ ((republish cfg driver stamp cache suppressed).filter fun p => p.tag = tag).filterMap fun p =>
      cachedValue policy p.quality p.value) : (cache tag).map DataPoint.value = some value := by
  obtain ⟨point, hpoint, hvalue⟩ := mem_filterMap.mp h
  obtain ⟨hmem, htag⟩ := mem_filter.mp hpoint
  obtain ⟨tag', -, heq⟩ := mem_filterMap.mp hmem
  obtain ⟨last, hlast, rfl⟩ := map_eq_some_iff.mp heq
  obtain rfl : tag' = tag := of_decide_eq_true htag
  rw [hlast]
  exact hvalue

theorem getLast?_or_of_forall {α : Type} {l : List α} {o : Option α} (h : ∀ a ∈ l, o = some a) : l.getLast?.or o = o := by
  cases hlast : l.getLast? with
  | none => rfl
  | some a => exact (h a (mem_of_getLast? hlast)).symm

/-- **What a cycle leaves in the cache**: the last value of the tag that it publishes, or the one from before. -/
theorem value_cache_runTick (s : State) (k : Tick) : ((runTick task cfg s k).1.cache tag).map DataPoint.value =
      ((((runTick task cfg s k).2.kept.filter fun v => v.tag = tag).filterMap fun v =>
        cachedValue cfg.policy v.quality v.value).getLast?).or ((s.cache tag).map DataPoint.value) := by
  unfold runTick
  cases (k.cycle task).values with
  | none => rfl
  | some values =>
    dsimp only
    split_ifs with hnil hfiltered
    · rfl
    · rfl
    · rw [foldl_append, value_foldl_processPoint, value_foldl_processPoint,
        getLast?_or_of_forall fun value hvalue => value_of_republished cfg.policy hvalue,
        List.filter_map, List.filterMap_map]
      rfl

theorem run_concat (ticks : List Tick) (k : Tick) : run task cfg (ticks ++ [k]) =
    ((runTick task cfg (run task cfg ticks).1 k).1,
      (run task cfg ticks).2 ++ [(runTick task cfg (run task cfg ticks).1 k).2]) := by
  unfold run
  rw [foldl_append]
  rfl

/-- **The cache holds the last sample that was published and not dropped.** -/
theorem value_cache_run (ticks : List Tick) (tag : String) :
    ((run task cfg ticks).1.cache tag).map DataPoint.value = lastCached cfg.policy (run task cfg ticks).2 tag := by
  induction ticks using List.reverseRecOn with
  | nil => rfl
  | append_singleton ticks k ih =>
    rw [run_concat, value_cache_runTick, ih]
    unfold lastCached
    rw [flatMap_append, filter_append, filterMap_append, List.getLast?_append, flatMap_singleton]

/-! ### What a cycle reads and leaves out -/

/-- A driver answers only for tags it was asked for; it may leave some out, or repeat them. -/
def Answers (read : List String → Option (List TagValue)) : Prop :=
  ∀ tags values, read tags = some values → ∀ v ∈ values, v.tag ∈ tags

/-- The reads of a cycle: nothing is gated and all tags are read, or the conditions cannot be read and nothing is, or the
gate divides the tags. -/
theorem cycle_cases (k : Tick) : ((k.cycle task).requested = task.tags ∧ (k.cycle task).suppressed = []) ∨
      (k.cycle task).values = some [] ∨
      ∃ conditions, k.readConditions (conditionTags task k.ord) = some conditions ∧
        (k.cycle task).requested = conditionTags task k.ord ++
          task.tags.filter (fun tag => gateOf task k.ord (firedMap conditions) tag = some true) ∧
        (k.cycle task).suppressed =
          task.tags.filter fun tag => gateOf task k.ord (firedMap conditions) tag = some false := by
  unfold Tick.cycle Trigger.cycle gateTriggerTags
  by_cases hgated : task.groupGated.keys = []
  · simp [hgated, Cycle.suppressed]
  · by_cases htrig : task.groupTrigger.keys = []
    · simp [hgated, htrig, Cycle.suppressed]
    · cases hread : k.readConditions (conditionTags task k.ord) with
      | none => simp [hgated, htrig]
      | some conditions =>
        refine .inr (.inr ⟨conditions, rfl, ?_⟩)
        simp [hgated, htrig, Cycle.suppressed]

theorem tag_mem_requested (hconditions : Answers k.readConditions) (hdetails : Answers k.readDetails)
    {values : List TagValue} (hvalues : (k.cycle task).values = some values) {v : TagValue} (hv : v ∈ values) :
    v.tag ∈ (k.cycle task).requested := by
  -- the second read, of some tags or of none
  have hsecond : ∀ {tags vs}, (if tags = [] then some [] else k.readDetails tags) = some vs → v ∈ vs → v.tag ∈ tags := by
    intro tags vs hvs hv
    split_ifs at hvs with hnil
    · cases hvs
      exact absurd hv not_mem_nil
    · exact hdetails tags vs hvs v hv
  unfold Tick.cycle Trigger.cycle at hvalues ⊢
  by_cases hgated : task.groupGated.keys = []
  · simp only [hgated] at hvalues ⊢
    exact hsecond hvalues hv
  · simp only [hgated] at hvalues ⊢
    obtain ⟨details, hvs, rfl⟩ := map_eq_some_iff.mp hvalues
    rcases mem_append.mp hv with hv | hv
    · refine mem_append_left _ ?_
      unfold gateTriggerTags at hv
      split_ifs at hv ⊢
      · exact absurd hv not_mem_nil
      · cases hread : k.readConditions (conditionTags task k.ord) with
        | none =>
          rw [hread] at hv
          exact absurd hv not_mem_nil
        | some conditions =>
          rw [hread] at hv
          exact hconditions _ _ hread v hv
    · exact mem_append_right _ (hsecond hvs hv)

theorem filterLoop_sublist (task : ScheduleTask) (clock : ℕ → ℤ) : ∀ values r,
    (filterLoop task clock r values).2.Sublist (values.map Prod.fst)
  | [], r => Sublist.refl _
  | (v, i) :: rest, r => by
    have ih := filterLoop_sublist task clock rest (filterValue task (clock i) r v).1
    unfold filterLoop
    dsimp only
    split_ifs
    · exact ih.cons_cons v
    · exact ih.cons v

theorem applyDeadbandFilter_sublist (task : ScheduleTask) (clock : ℕ → ℤ) (r : Runner) (values : List TagValue) :
    (applyDeadbandFilter task clock r values).2.Sublist values := by
  unfold applyDeadbandFilter
  split_ifs
  · exact Sublist.refl _
  · have hsub := filterLoop_sublist task clock values.zipIdx r
    rwa [zipIdx_map_fst] at hsub

theorem outcome_of_not_called (cfg : Pipeline) (h : ¬ Called task s k) :
    (runTick task cfg s k).2.republished = [] ∧ (runTick task cfg s k).2.points = [] := by
  unfold runTick
  cases hvalues : (k.cycle task).values with
  | none => exact ⟨rfl, rfl⟩
  | some values =>
    have hnil : (applyDeadbandFilter task k.clock s.runner values).2 = [] := by
      by_contra hne
      exact h ⟨values, hvalues, hne⟩
    dsimp only
    split_ifs
    · exact ⟨rfl, rfl⟩
    · exact ⟨rfl, rfl⟩

/-- With a call the suppressed tags are republished from the cache, and the values that are left are published. -/
theorem outcome_of_called (cfg : Pipeline) (h : Called task s k) :
    ∃ values filtered : List TagValue, (k.cycle task).values = some values ∧ filtered.Sublist values ∧
      (runTick task cfg s k).2.republished = republish cfg task.driver k.stamp s.cache (k.cycle task).suppressed ∧
      (runTick task cfg s k).2.points = filtered.map (pointOf cfg task.driver k.stamp) := by
  obtain ⟨values, hvalues, hfiltered⟩ := h
  have hsub := applyDeadbandFilter_sublist task k.clock s.runner values
  have hne : values ≠ [] := by
    rintro rfl
    exact hfiltered (sublist_nil.mp hsub)
  refine ⟨values, _, hvalues, hsub, ?_⟩
  unfold runTick
  simp [hvalues, hne, hfiltered]

theorem values_of_called (h : Called task s k) : (k.cycle task).values ≠ some [] := by
  obtain ⟨values, hvalues, hfiltered⟩ := h
  rw [hvalues]
  rintro ⟨⟩
  exact hfiltered (sublist_nil.mp (applyDeadbandFilter_sublist task k.clock s.runner []))

/-! ### Stale points -/

theorem tag_mem_of_republish {driver : String} {cache : Values}
    {p : DataPoint} (hp : p ∈ republish cfg driver stamp cache suppressed) : p.tag ∈ suppressed := by
  obtain ⟨tag, htag, hpoint⟩ := mem_filterMap.mp hp
  obtain ⟨last, -, rfl⟩ := map_eq_some_iff.mp hpoint
  exact htag

theorem republish_filter (cfg : Pipeline) (driver : String) (stamp : String → ℤ) (cache : Values) (tag : String) :
    ∀ suppressed, suppressed.Nodup → tag ∈ suppressed →
      (republish cfg driver stamp cache suppressed).filter (fun p => p.tag = tag) =
        ((cache tag).map fun last => pointOf cfg driver stamp ⟨tag, last.value, last.type, .uncertain⟩).toList
  | [], _, hmem => absurd hmem not_mem_nil
  | tag' :: suppressed, hnodup, hmem => by
    obtain ⟨hnot, hnodup⟩ := nodup_cons.mp hnodup
    have hcons : republish cfg driver stamp cache (tag' :: suppressed) =
        ((cache tag').map fun last => pointOf cfg driver stamp ⟨tag', last.value, last.type, .uncertain⟩).toList ++
          republish cfg driver stamp cache suppressed := by
      unfold republish
      rw [filterMap_cons]
      cases cache tag' <;> rfl
    rw [hcons, filter_append]
    by_cases htag : tag' = tag
    · subst htag
      have hnone : (republish cfg driver stamp cache suppressed).filter (fun p => p.tag = tag') = [] := by
        refine filter_eq_nil_iff.mpr fun p hp heq => ?_
        exact hnot (of_decide_eq_true heq ▸ tag_mem_of_republish hp)
      rw [hnone, append_nil]
      cases cache tag' with
      | none => rfl
      | some last => exact filter_cons_of_pos (decide_eq_true rfl)
    · have hmem' := (mem_cons.mp hmem).resolve_left (Ne.symm htag)
      rw [republish_filter cfg driver stamp cache tag suppressed hnodup hmem']
      cases cache tag' with
      | none => rfl
      | some last =>
        rw [map_some, toList_some, filter_cons_of_neg (by exact fun heq => htag (of_decide_eq_true heq))]
        rfl

variable (hacc : TagsAccepted d.tags) (htask : task ∈ scheduleDriverTags env d order)
include hacc htask

theorem nodup_tags : task.tags.Nodup := by
  obtain ⟨i, -, rfl⟩ := mem_map.mp htask
  show (CoreC.Lib.Buckets.get (tagPlan env d.tags).intervalGroups i).Nodup
  rw [get_intervalGroups]
  exact hacc.nodup.sublist (filter_sublist.map _)

theorem gateOf_condition {ord : GateOrders}
    (hord : ord.Valid task) (hmem : tag ∈ conditionTags task ord)
    (fired : AList fun _ : String => Bool) : gateOf task ord fired tag = none := by
  obtain ⟨g, hg⟩ := (mem_conditionTags htask hord).mp hmem
  obtain ⟨c, hc, rfl, hcg, hne⟩ := conditionOf_mem hg
  have htriggers : c.triggers = "" := (hacc.exclusive c hc).resolve_left (hcg ▸ hne)
  exact gateOf_ungated ord hacc htask hc htriggers fired

/-- **What was read in a cycle is not republished.** -/
theorem republished_disjoint (s : State)
    (hord : k.ord.Valid task)
    (hmem : tag ∈ (k.cycle task).requested) : ∀ p ∈ (runTick task cfg s k).2.republished, p.tag ≠ tag := by
  rintro p hp rfl
  by_cases hcalled : Called task s k
  · obtain ⟨-, -, -, -, hrepublished, -⟩ := outcome_of_called cfg hcalled
    rw [hrepublished] at hp
    have hsuppressed := tag_mem_of_republish hp
    rcases cycle_cases k with ⟨-, hnil⟩ | hnil | ⟨conditions, -, hrequested, hsplit⟩
    · rw [hnil] at hsuppressed
      exact absurd hsuppressed not_mem_nil
    · exact values_of_called hcalled hnil
    · rw [hsplit, mem_filter, decide_eq_true_eq] at hsuppressed
      rw [hrequested, mem_append] at hmem
      rcases hmem with hmem | hmem
      · rw [gateOf_condition hacc htask hord hmem] at hsuppressed
        exact nomatch hsuppressed.2
      · have hfired := of_decide_eq_true (mem_filter.mp hmem).2
        exact nomatch hsuppressed.2.symm.trans hfired
  · rw [(outcome_of_not_called cfg hcalled).1] at hp
    exact absurd hp not_mem_nil

/-- The points of a gated tag that is not asked for: that of its cached value, if the callback is called. -/
theorem pushed_of_suppressed
    (cfg : Pipeline) (hord : k.ord.Valid task) (hconditions : Answers k.readConditions)
    (hdetails : Answers k.readDetails) {t : TagConfig} (ht : t ∈ d.tags) (htriggers : t.triggers ≠ "")
    (hin : t.name ∈ task.tags) (hnot : t.name ∉ (k.cycle task).requested) (hcalled : Called task s k) :
    (runTick task cfg s k).2.pushed.filter (fun p => p.tag = t.name) = ((s.cache t.name).map fun last =>
        pointOf cfg task.driver k.stamp ⟨t.name, last.value, last.type, .uncertain⟩).toList := by
  obtain ⟨values, filtered, hvalues, hsub, hrepublished, hpoints⟩ := outcome_of_called cfg hcalled
  have hsuppressed : t.name ∈ (k.cycle task).suppressed ∧ (k.cycle task).suppressed.Nodup := by
    rcases cycle_cases k with ⟨hall, -⟩ | hnil | ⟨conditions, -, hrequested, hsplit⟩
    · exact absurd (hall ▸ hin) hnot
    · exact absurd hnil (values_of_called hcalled)
    · obtain ⟨b, hb⟩ := gateOf_gated k.ord hacc htask ht htriggers hin hord (firedMap conditions)
      have hfalse : b = false := by
        by_contra htrue
        rw [Bool.not_eq_false] at htrue
        refine hnot (hrequested ▸ mem_append_right _ (mem_filter.mpr ⟨hin, decide_eq_true ?_⟩))
        rw [hb, htrue]
      rw [hsplit]
      exact ⟨mem_filter.mpr ⟨hin, decide_eq_true (hb.trans (congrArg some hfalse))⟩, (nodup_tags hacc htask).filter _⟩
  have hnone : (filtered.map (pointOf cfg task.driver k.stamp)).filter (fun p => p.tag = t.name) = [] := by
    refine filter_eq_nil_iff.mpr fun p hp heq => hnot ?_
    obtain ⟨v, hv, rfl⟩ := mem_map.mp hp
    rw [← show v.tag = t.name from of_decide_eq_true heq]
    exact tag_mem_requested hconditions hdetails hvalues (hsub.subset hv)
  unfold Outcome.pushed
  rw [filter_append, hrepublished, hpoints, hnone, append_nil]
  exact republish_filter cfg task.driver k.stamp s.cache t.name _ hsuppressed.2 hsuppressed.1

end

/-- **Stale values**: in every run of a task, a tag that is read in a cycle is not republished in it; of a gated tag
that is not read but was good before, exactly one point is pushed, uncertain and with the last good value, exactly if
the callback is called and the last sample that was published has that value. -/
theorem stale_iff {parseDuration : String → Option ℤ} {driverNames registered r : List String} {env : ScheduleEnv}
    {d : DriverConfig} {order : List ℤ} {task : ScheduleTask} (cfg : Pipeline) (past : List Tick) (k : Tick)
    (hvalid : validateDriver parseDuration driverNames registered d = .ok r)
    (htask : task ∈ scheduleDriverTags env d order) (hord : k.ord.Valid task) (hconditions : Answers k.readConditions)
    (hdetails : Answers k.readDetails) :
    (∀ tag ∈ (k.cycle task).requested, ∀ p ∈ (runTick task cfg (run task cfg past).1 k).2.republished, p.tag ≠ tag) ∧
    ∀ t ∈ d.tags, t.triggers ≠ "" → t.name ∈ task.tags → t.name ∉ (k.cycle task).requested →
      ∀ v, lastGood (run task cfg past).2 t.name = some v →
        (((runTick task cfg (run task cfg past).1 k).2.pushed.filter fun p => p.tag = t.name).map
            (fun p => (p.quality, p.value)) = [(.uncertain, v.value)] ↔
          Called task (run task cfg past).1 k ∧ lastCached cfg.policy (run task cfg past).2 t.name = some v.value) := by
  have hacc := validateDriver_accepted hvalid
  refine ⟨fun tag htag => republished_disjoint hacc htask _ hord htag, fun t ht htriggers hin hnot v _ => ?_⟩
  rw [← value_cache_run]
  by_cases hcalled : Called task (run task cfg past).1 k
  · rw [pushed_of_suppressed hacc htask cfg hord hconditions hdetails ht htriggers hin hnot hcalled]
    cases (run task cfg past).1.cache t.name with
    | none => simp
    | some last => simp [hcalled, pointOf]
  · obtain ⟨hrepublished, hpoints⟩ := outcome_of_not_called cfg hcalled
    simp [Outcome.pushed, hrepublished, hpoints, hcalled]

/-! ### The alarm code -/

def readsAs (value : GoValue) (type : DataType) (quality : Quality) (tags : List String) : Option (List TagValue) :=
  some (tags.map fun tag => ⟨tag, value, type, quality⟩)

theorem answers_readsAs (value : GoValue) (type : DataType) (quality : Quality) :
    Answers (readsAs value type quality) := by
  intro tags values hvalues v hv
  cases hvalues
  obtain ⟨tag, htag, rfl⟩ := mem_map.mp hv
  exact htag

def alarmTick (flag : Bool) (code : GoValue) (quality : Quality) : Tick where
  ord := ⟨["alarm_flag"], fun _ => ["alarm_flag"]⟩
  readConditions := readsAs (.bool flag) .bool .good
  readDetails := readsAs code .uint16 quality

def alarmPipeline : Pipeline := ⟨.publish, fun _ => ""⟩

/-- The code of the last alarm, after the flag is down. -/
theorem code_is_stale : validateDriver (fun _ => none) [] [] (alarmDriver "alarm_flag") = .ok ["plc"] ∧
    ((runTick (alarmTask "alarm_flag") alarmPipeline
        (run (alarmTask "alarm_flag") alarmPipeline [alarmTick true (.int .uint16 5) .good]).1
        (alarmTick false .nil .good)).2.pushed.filter fun p => p.tag = "alarm_code").map (fun p => (p.quality, p.value)) =
      [(.uncertain, .int .uint16 5)] :=
  ⟨rfl, ((stale_iff alarmPipeline [alarmTick true (.int .uint16 5) .good] (alarmTick false .nil .good)
      (show validateDriver (fun _ => none) [] [] (alarmDriver "alarm_flag") = .ok ["plc"] from rfl)
      (alarmTask_mem "alarm_flag") ⟨Perm.refl _, fun _ => Perm.refl _⟩ (answers_readsAs _ _ _)
      (answers_readsAs _ _ _)).2 alarmCode (by simp [alarmDriver]) (by decide) (by decide) (by decide)
      ⟨"alarm_code", .int .uint16 5, .uint16, .good⟩ rfl).mpr ⟨⟨_, rfl, nofun⟩, rfl⟩⟩

/-- After a bad sample the code is republished without its last good value; and if the flag cannot be read, it is not
republished at all. -/
theorem code_is_lost : validateDriver (fun _ => none) [] [] (alarmDriver "alarm_flag") = .ok ["plc"] ∧
    (∃ v, lastGood (run (alarmTask "alarm_flag") alarmPipeline
        [alarmTick true (.int .uint16 5) .good, alarmTick true .nil .bad]).2 "alarm_code" = some v ∧
      v.value = .int .uint16 5) ∧
    ((runTick (alarmTask "alarm_flag") alarmPipeline (run (alarmTask "alarm_flag") alarmPipeline
          [alarmTick true (.int .uint16 5) .good, alarmTick true .nil .bad]).1
        (alarmTick false .nil .good)).2.pushed.filter fun p => p.tag = "alarm_code").map (fun p => (p.quality, p.value)) =
      [(.uncertain, .nil)] ∧
    (runTick (alarmTask "alarm_flag") alarmPipeline
        (run (alarmTask "alarm_flag") alarmPipeline [alarmTick true (.int .uint16 5) .good]).1
        { alarmTick false .nil .good with readConditions := fun _ => none }).2.pushed = [] :=
  ⟨rfl, ⟨_, rfl, rfl⟩, rfl, rfl⟩

end CoreC.Engine.Stale
