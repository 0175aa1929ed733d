import Mathlib.Tactic.Linarith
import CoreC.Engine.Stale

/-! # What the deadband lets through

The samples of a task pass through `applyDeadbandFilter` (`engine/scheduler.go`). A number outside the deadband is let
through and becomes the baseline; a number inside is let through as a heartbeat, which moves the clock of the tag but not
the baseline; and what is bad, uncertain or not a number is let through and moves neither. -/

namespace CoreC.Engine.Deadband

open Core.Types Engine.Schedule Engine.Stale Function List Lib.Yaml

/-- A value and the time it was read. -/
abbrev Sample := TagValue × ℤ

variable (task : ScheduleTask)

/-- One sample, with the samples that have passed so far. -/
def feed (s : Runner × List Sample) (x : Sample) : Runner × List Sample :=
  let (r, passes) := filterValue task x.2 s.1 x.1
  (r, if passes then s.2 ++ [x] else s.2)

def feedAll (samples : List Sample) : Runner × List Sample := samples.foldl (feed task) ({}, [])

variable (tag : String)

/-- The number of a good value of the tag. -/
def numberOf (v : TagValue) : Option ℚ :=
  if v.tag = tag ∧ v.quality = .good then toFloat64OK v.value else none

/-- The good numbers of the tag, with their times. -/
def numbers (log : List Sample) : List (ℚ × ℤ) :=
  log.filterMap fun x => (numberOf tag x.1).map fun q => (q, x.2)

/-- When the log has the tag last. -/
def lastTime (log : List Sample) : Option ℤ := (log.filter fun x => x.1.tag = tag).getLast?.map Prod.snd

/-- The differences of the numbers are exact. -/
def Exact (samples : List Sample) : Prop :=
  ∀ p ∈ numbers tag samples, ∀ q ∈ numbers tag samples, distance p.1 q.1 = .finite |p.1 - q.1|

instance (tag : String) (samples : List Sample) : Decidable (Exact tag samples) := by
  unfold Exact
  infer_instance

section

variable {task : ScheduleTask} {tag : String} {threshold : GoFloat} {s : Runner × List Sample} {v : TagValue} {q : ℚ}

theorem filterLoop_eq (clock : ℕ → ℤ) : ∀ values s,
    ∃ kept : List Sample, (values.map fun x => (x.1, clock x.2)).foldl (feed task) s =
        ((filterLoop task clock s.1 values).1, s.2 ++ kept) ∧ kept.map Prod.fst = (filterLoop task clock s.1 values).2
  | [], s => ⟨[], by rw [append_nil]; rfl, rfl⟩
  | (v, i) :: values, s => by
    obtain ⟨kept, hkept, hfst⟩ := filterLoop_eq clock values (feed task s (v, clock i))
    rw [map_cons, foldl_cons, hkept, filterLoop]
    unfold feed at hfst ⊢
    dsimp only at hfst ⊢
    split_ifs
    · exact ⟨(v, clock i) :: kept, by rw [append_assoc, singleton_append], by rw [map_cons, hfst]⟩
    · exact ⟨kept, rfl, hfst⟩

theorem filterLoop_of_empty (hkeys : task.deadBands.keys = []) (clock : ℕ → ℤ) : ∀ r values,
    filterLoop task clock r values = (r, values.map Prod.fst)
  | r, [] => rfl
  | r, (v, i) :: values => by
    have hnone : task.deadBands.lookup v.tag = none :=
      AList.lookup_eq_none.mpr fun hmem => by simp [AList.mem_keys, hkeys] at hmem
    simp [filterLoop, filterValue, hnone, filterLoop_of_empty hkeys]

/-- The samples of calls of the filter, each with the times of its rounds. -/
def samplesOf (calls : List ((ℕ → ℤ) × List TagValue)) : List Sample :=
  calls.flatMap fun c => c.2.zipIdx.map fun x => (x.1, c.1 x.2)

/-- **The calls of the filter**, one for every cycle of the task, let through what their samples let through one after
another, however the samples are distributed over the calls. -/
theorem applyDeadbandFilter_calls (task : ScheduleTask) (calls : List ((ℕ → ℤ) × List TagValue)) :
    (calls.foldl (fun s c =>
        ((applyDeadbandFilter task c.1 s.1 c.2).1, s.2 ++ (applyDeadbandFilter task c.1 s.1 c.2).2)) ({}, [])) =
      ((feedAll task (samplesOf calls)).1, (feedAll task (samplesOf calls)).2.map Prod.fst) := by
  induction calls using List.reverseRecOn with
  | nil => rfl
  | append_singleton calls c ih =>
    have hloop : applyDeadbandFilter task c.1 (feedAll task (samplesOf calls)).1 c.2 =
        filterLoop task c.1 (feedAll task (samplesOf calls)).1 c.2.zipIdx := by
      unfold applyDeadbandFilter
      split_ifs with hkeys
      · rw [filterLoop_of_empty hkeys, zipIdx_map_fst]
      · rfl
    obtain ⟨kept, hkept, hfst⟩ := filterLoop_eq c.1 c.2.zipIdx (feedAll task (samplesOf calls))
    have hfeed : feedAll task (samplesOf (calls ++ [c])) =
        ((filterLoop task c.1 (feedAll task (samplesOf calls)).1 c.2.zipIdx).1,
          (feedAll task (samplesOf calls)).2 ++ kept) := by
      rw [← hkept, feedAll, samplesOf, flatMap_append, flatMap_singleton, foldl_append]
      rfl
    rw [foldl_append, ih, foldl_cons, foldl_nil, hloop, hfeed, map_append, hfst]

/-! ### One sample -/

theorem numbers_concat (tag : String) (log : List Sample) (v : TagValue) (now : ℤ) :
    numbers tag (log ++ [(v, now)]) = numbers tag log ++ ((numberOf tag v).map fun q => (q, now)).toList := by
  unfold numbers
  cases h : numberOf tag v <;> simp [h]

theorem filterValue_other (task : ScheduleTask) (r : Runner) (now : ℤ) (h : numberOf tag v = none) :
    (filterValue task now r v).1.lastValues tag = r.lastValues tag ∧
      (filterValue task now r v).1.lastSent tag = r.lastSent tag := by
  unfold filterValue
  by_cases htag : v.tag = tag
  · have hnone : v.quality = .good → toFloat64OK v.value = none := fun hgood => by
      rwa [numberOf, if_pos ⟨htag, hgood⟩] at h
    split
    · exact ⟨rfl, rfl⟩
    · split_ifs with hpos hgood
      · exact ⟨rfl, rfl⟩
      · exact ⟨rfl, rfl⟩
      · rw [hnone (not_not.mp hgood)]
        exact ⟨rfl, rfl⟩
  · repeat' split
    all_goals simp [update_of_ne (Ne.symm htag)]

def due (task : ScheduleTask) (tag : String) (r : Runner) (now : ℤ) : Bool :=
  (task.enforceIntervals.lookup tag).any fun heartbeat =>
    decide (0 < heartbeat ∧ (r.lastSent tag).all fun last => heartbeat ≤ now - last)

variable (hthreshold : task.deadBands.lookup tag = some threshold) (hpos : threshold.isNonPos = false)
include hthreshold hpos

/-- What becomes of a good number: it is outside of the deadband, a heartbeat, or swallowed. -/
theorem filterValue_number (r : Runner) (now : ℤ) (h : numberOf tag v = some q) : filterValue task now r v =
      if (r.lastValues tag).all fun b => atLeast (distance q b) threshold then
        (⟨update r.lastValues tag (some q), update r.lastSent tag (some now)⟩, true)
      else if due task tag r now then ({ r with lastSent := update r.lastSent tag (some now) }, true)
      else (r, false) := by
  obtain ⟨⟨rfl, hgood⟩, hq⟩ := Option.ite_none_right_eq_some.mp h
  simp only [filterValue, hthreshold, hpos, hgood, hq, ne_eq, not_true_eq_false, if_false, Bool.false_eq_true]
  congr 1
  split
  · next hnone => rw [if_neg (by simp [due, hnone])]
  · next hsome => exact if_congr (by simp [due, hsome]) rfl rfl

/-! ### All samples -/

/-- The clock of a tag shows its last number that was let through, and the baseline is a number that was let through:
the last one, or one to which the last one, a heartbeat, was close. -/
structure Tracked (task : ScheduleTask) (tag : String) (threshold : GoFloat) (s : Runner × List Sample) : Prop where
  sent : s.1.lastSent tag = (numbers tag s.2).getLast?.map Prod.snd
  base : ∀ b, s.1.lastValues tag = some b → ∃ y, (numbers tag s.2).getLast? = some y ∧
    (∃ p ∈ numbers tag s.2, p.1 = b) ∧
    (y.1 = b ∨ (∃ h ∈ task.enforceIntervals.lookup tag, 0 < h) ∧ atLeast (distance y.1 b) threshold = false)

theorem tracked_feed (h : Tracked task tag threshold s) (x : Sample) : Tracked task tag threshold (feed task s x) := by
  obtain ⟨v, now⟩ := x
  unfold feed
  cases hnumber : numberOf tag v with
  | none =>
    obtain ⟨hvalues, hsent⟩ := filterValue_other task s.1 now hnumber
    have hsame : numbers tag (if (filterValue task now s.1 v).2 then s.2 ++ [(v, now)] else s.2) = numbers tag s.2 := by
      split_ifs
      · rw [numbers_concat, hnumber, Option.map_none, Option.toList_none, append_nil]
      · rfl
    exact ⟨by rw [hsame, hsent]; exact h.sent, by rw [hsame, hvalues]; exact h.base⟩
  | some q =>
    have hconcat : numbers tag (s.2 ++ [(v, now)]) = numbers tag s.2 ++ [(q, now)] := by
      rw [numbers_concat, hnumber]
      rfl
    rw [filterValue_number hthreshold hpos s.1 now hnumber]
    split_ifs with hfar hdue
    · refine ⟨by simp [hconcat], fun b hb => ?_⟩
      cases (update_self tag (some q) s.1.lastValues).symm.trans hb
      exact ⟨(q, now), by simp [hconcat], ⟨(q, now), by simp [hconcat], rfl⟩, .inl rfl⟩
    · refine ⟨by simp [hconcat], fun b hb => ?_⟩
      obtain ⟨-, -, ⟨p, hp, hpb⟩, -⟩ := h.base b hb
      obtain ⟨heartbeat, hlookup, hheart⟩ := (Option.any_eq_true _ _).mp hdue
      refine ⟨(q, now), by simp [hconcat], ⟨p, by simp [hconcat, hp], hpb⟩,
        .inr ⟨⟨heartbeat, hlookup, (of_decide_eq_true hheart).1⟩, ?_⟩⟩
      have hb : s.1.lastValues tag = some b := hb
      simpa [hb] using hfar
    · exact h

theorem tracked_feedAll (samples : List Sample) : Tracked task tag threshold (feedAll task samples) := by
  induction samples using List.reverseRecOn with
  | nil => exact ⟨rfl, nofun⟩
  | append_singleton samples x ih =>
    rw [feedAll, foldl_append]
    exact tracked_feed hthreshold hpos ih x

end

theorem log_concat (samples : List Sample) (x : Sample) : (feedAll task (samples ++ [x])).2 =
    if (filterValue task x.2 (feedAll task samples).1 x.1).2 then (feedAll task samples).2 ++ [x]
    else (feedAll task samples).2 := by
  rw [feedAll, foldl_append]
  rfl

theorem feedAll_sublist (samples : List Sample) : (feedAll task samples).2.Sublist samples := by
  induction samples using List.reverseRecOn with
  | nil => exact Sublist.refl _
  | append_singleton samples x ih =>
    rw [log_concat]
    split_ifs
    · exact ih.append (Sublist.refl _)
    · exact ih.trans (sublist_append_left _ _)

theorem lt_of_near {tag : String} {samples : List Sample} {p q : ℚ × ℤ} {d : ℚ} (hexact : Exact tag samples)
    (hp : p ∈ numbers tag samples) (hq : q ∈ numbers tag samples)
    (h : atLeast (distance p.1 q.1) (.finite d) = false) : |p.1 - q.1| < d := by
  rw [hexact p hp q hq] at h
  exact not_le.mp (of_decide_eq_false h)

/-- **What the consumer holds.** After a good number the last good number that was let through differs from it by less
than twice the deadband, and by less than the deadband if the tag has no heartbeat. -/
theorem held_within {task : ScheduleTask} {tag : String} {d : ℚ} (hd : 0 < d)
    (hthreshold : task.deadBands.lookup tag = some (.finite d)) (samples : List Sample) {v : TagValue} {x : ℚ} (now : ℤ)
    (hx : numberOf tag v = some x) (hexact : Exact tag (samples ++ [(v, now)])) :
    ∃ y, (numbers tag (feedAll task (samples ++ [(v, now)])).2).getLast? = some y ∧ |x - y.1| < 2 * d ∧
      ((∀ heartbeat, task.enforceIntervals.lookup tag = some heartbeat → heartbeat ≤ 0) → |x - y.1| < d) := by
  have hpos : GoFloat.isNonPos (.finite d) = false := decide_eq_false (not_le.mpr hd)
  rw [log_concat]
  have hlast : (x, now) ∈ numbers tag (samples ++ [(v, now)]) := by simp [numbers_concat, hx]
  have hmem : ∀ {p}, p ∈ numbers tag (feedAll task samples).2 → p ∈ numbers tag (samples ++ [(v, now)]) := fun hp =>
    numbers_concat tag .. ▸ mem_append_left _ (((feedAll_sublist task samples).filterMap _).subset hp)
  cases hpasses : (filterValue task now (feedAll task samples).1 v).2 with
  | true =>
    refine ⟨(x, now), by simp [numbers_concat, hx], ?_⟩
    rw [sub_self, abs_zero]
    exact ⟨by linarith, fun _ => hd⟩
  | false =>
    rw [filterValue_number hthreshold hpos _ now hx] at hpasses
    split_ifs at hpasses with hfar
    obtain ⟨b, hb, hnear⟩ : ∃ b, (feedAll task samples).1.lastValues tag = some b ∧
        atLeast (distance x b) (.finite d) = false := by
      simpa only [Option.all_eq_true, not_forall, exists_prop, Bool.not_eq_true] using hfar
    obtain ⟨y, hy, ⟨p, hp, rfl⟩, hclose⟩ := (tracked_feedAll hthreshold hpos samples).base b hb
    have hxp : |x - p.1| < d := lt_of_near (p := (x, now)) hexact hlast (hmem hp) hnear
    refine ⟨y, hy, ?_⟩
    rcases hclose with hyp | ⟨⟨heartbeat, hlookup, hheart⟩, hfar⟩
    · rw [hyp]
      exact ⟨by linarith, fun _ => hxp⟩
    · have hyp : |y.1 - p.1| < d := lt_of_near hexact (hmem (mem_of_getLast? hy)) (hmem hp) hfar
      have htriangle := abs_sub_le x p.1 y.1
      rw [abs_sub_comm p.1 y.1] at htriangle
      exact ⟨by linarith, fun hnone => absurd (hnone heartbeat hlookup) (not_le.mpr hheart)⟩

/-- The last sample is not older than the last number. -/
theorem exists_lastTime {tag : String} {log : List Sample} (htimes : log.Pairwise fun p q => p.2 ≤ q.2) {y : ℚ × ℤ}
    (hy : y ∈ numbers tag log) : ∃ last, lastTime tag log = some last ∧ y.2 ≤ last := by
  obtain ⟨z, hz, hzy⟩ := mem_filterMap.mp hy
  obtain ⟨q, hq, rfl⟩ := Option.map_eq_some_iff.mp hzy
  have hmem : z ∈ log.filter fun x => x.1.tag = tag :=
    mem_filter.mpr ⟨hz, decide_eq_true (Option.ite_none_right_eq_some.mp hq).1.1⟩
  have hsorted := htimes.sublist (filter_sublist (p := fun x => x.1.tag = tag))
  obtain ⟨init, w, hw⟩ := (eq_nil_or_concat' _).resolve_left (ne_nil_of_mem hmem)
  rw [hw] at hmem hsorted
  refine ⟨w.2, by rw [lastTime, hw, getLast?_concat]; rfl, ?_⟩
  rcases mem_append.mp hmem with hinit | hlast
  · exact (pairwise_append.mp hsorted).2.2 z hinit w (mem_singleton.mpr rfl)
  · rw [mem_singleton.mp hlast]

/-- **When heartbeats are let through.** A good number inside the deadband is let through exactly if the last good
number was let through at least the heartbeat ago. So was the last sample of any kind, unless one that is no good
number has come since. -/
theorem heartbeat_iff {task : ScheduleTask} {tag : String} {threshold : GoFloat} {heartbeat : ℤ}
    (hthreshold : task.deadBands.lookup tag = some threshold) (hpos : threshold.isNonPos = false)
    (henforce : task.enforceIntervals.lookup tag = some heartbeat) (hheart : 0 < heartbeat) {samples : List Sample}
    {v : TagValue} {x b : ℚ} (now : ℤ) (htimes : samples.Pairwise fun p q => p.2 ≤ q.2) (hx : numberOf tag v = some x)
    (hb : (feedAll task samples).1.lastValues tag = some b) (hnear : atLeast (distance x b) threshold = false) :
    ∃ y last, (numbers tag (feedAll task samples).2).getLast? = some y ∧
      lastTime tag (feedAll task samples).2 = some last ∧
      ((filterValue task now (feedAll task samples).1 v).2 = true ↔ heartbeat ≤ now - y.2) ∧
      (((filterValue task now (feedAll task samples).1 v).2 = true ↔ heartbeat ≤ now - last) ↔
        (heartbeat ≤ now - y.2 → heartbeat ≤ now - last)) := by
  have htracked := tracked_feedAll hthreshold hpos samples
  obtain ⟨y, hy, -⟩ := htracked.base b hb
  obtain ⟨last, hlast, hle⟩ := exists_lastTime (htimes.sublist (feedAll_sublist task samples)) (mem_of_getLast? hy)
  have hreleased : (filterValue task now (feedAll task samples).1 v).2 = true ↔ heartbeat ≤ now - y.2 := by
    have hdue : due task tag (feedAll task samples).1 now = true ↔ heartbeat ≤ now - y.2 := by
      simp [due, henforce, htracked.sent, hy, hheart]
    rw [filterValue_number hthreshold hpos _ now hx, if_neg (by simp [hb, hnear]), ← hdue]
    split_ifs with h
    · exact iff_of_true rfl h
    · exact iff_of_false nofun h
  refine ⟨y, last, hy, hlast, hreleased, ?_⟩
  rw [hreleased]
  exact ⟨fun h => h.mp, fun h => ⟨h, fun h' => by omega⟩⟩

/-! ### A level with a heartbeat -/

def levelTask (heartbeat : ℤ) : ScheduleTask where
  id := "level"
  driver := "plc"
  tags := ["level"]
  interval := 1
  priority := 0
  deadBands := (∅ : AList fun _ : String => GoFloat).insert "level" (.finite 1)
  enforceIntervals := (∅ : AList fun _ : String => ℤ).insert "level" heartbeat
  groupTrigger := ∅
  groupGated := ∅
  readTimeout := 0

def level (q : ℚ) (quality : Quality) : TagValue := ⟨"level", .float64 q, .float64, quality⟩

theorem held_within_level : ∃ y,
    (numbers "level" (feedAll (levelTask 0) ([(level 0 .good, 0)] ++ [(level (3 / 4) .good, 1)])).2).getLast? = some y ∧
      |(3 / 4 : ℚ) - y.1| < 1 := by
  have hthreshold : (levelTask 0).deadBands.lookup "level" = some (.finite 1) := rfl
  obtain ⟨y, hy, -, hlt⟩ := held_within one_pos hthreshold [(level 0 .good, 0)] 1
    (show numberOf "level" (level (3 / 4) .good) = some (3 / 4) from rfl) (by decide +kernel)
  refine ⟨y, hy, hlt fun heartbeat h => ?_⟩
  cases h
  exact le_refl _

/-- The consumer gets 3/4 as a heartbeat, and -3/4 is inside the deadband of the baseline 0. -/
theorem heartbeat_held : (numbers "level" (feedAll (levelTask 10)
      [(level 0 .good, 0), (level (3 / 4) .good, 10), (level (-3 / 4) .good, 11)]).2).getLast? = some (3 / 4, 10) ∧
    Exact "level" [(level 0 .good, 0), (level (3 / 4) .good, 10), (level (-3 / 4) .good, 11)] ∧
    ¬ |(-3 / 4 : ℚ) - 3 / 4| < 1 := by
  decide +kernel

theorem heartbeat_iff_level :
    (filterValue (levelTask 10) 10 (feedAll (levelTask 10) [(level 0 .good, 0)]).1 (level (1 / 2) .good)).2 = true := by
  have hthreshold : (levelTask 10).deadBands.lookup "level" = some (.finite 1) := rfl
  have hb : (feedAll (levelTask 10) [(level 0 .good, 0)]).1.lastValues "level" = some 0 := rfl
  obtain ⟨y, last, hy, -, hiff, -⟩ := heartbeat_iff hthreshold rfl rfl (by decide) 10 (pairwise_singleton _ _)
    (show numberOf "level" (level (1 / 2) .good) = some (1 / 2) from rfl) hb (by decide +kernel)
  cases hy
  exact hiff.mpr (by decide)

/-- A bad sample is let through at 9, and the number at 10 all the same. -/
theorem heartbeat_after_bad :
    lastTime "level" (feedAll (levelTask 10) [(level 0 .good, 0), (level 0 .bad, 9)]).2 = some 9 ∧
    (filterValue (levelTask 10) 10 (feedAll (levelTask 10) [(level 0 .good, 0), (level 0 .bad, 9)]).1
      (level (1 / 2) .good)).2 = true ∧ ¬ (10 : ℤ) ≤ 10 - 9 := by
  decide +kernel

end CoreC.Engine.Deadband
