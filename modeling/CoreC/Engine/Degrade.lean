import CoreC.Engine.Stale

/-! # Slowing down after errors

A task whose reads fail in `degradeAfterErrors` cycles in a row is collected at a longer interval, until a cycle
succeeds (`handleReadError` and `handleRecovery`, `engine/scheduler.go`). But the loop only sees the error of its own
read: if `gateTriggerTags` (`engine/trigger.go`) cannot read the conditions of a gated task it reports no error, and the
cycle counts as a success. -/

namespace CoreC.Engine.Degrade

open Engine.Schedule Engine.Stale Engine.Trigger Lib.GoInt List

/-- The fields of `taskRunner` that the errors change, and the interval of the ticker; what is kept for the log is left
out. -/
structure Health where
  inError : Bool := false
  consecutiveErrors : ℕ := 0
  degraded : Bool := false
  ticker : ℤ

/-- The `interval` of `runTask`, with `core.DefaultTagInterval`. -/
def taskInterval (task : ScheduleTask) : ℤ := if task.interval ≤ 0 then 1000000000 else task.interval

/-- The `degradedInterval` of `runTask`: ten times the interval, in 64 bits, and at least ten seconds. -/
def degradedInterval (task : ScheduleTask) : ℤ :=
  let degradedInterval := IntType.int64.wrap (taskInterval task * 10)
  if degradedInterval < 10000000000 then 10000000000 else degradedInterval

section

variable (task : ScheduleTask) (degradeAfterErrors : ℕ)

def handleReadError (s : Health) : Health :=
  let s' := { s with inError := true, consecutiveErrors := s.consecutiveErrors + 1 }
  if s'.consecutiveErrors ≥ degradeAfterErrors ∧ !s.degraded then
    { s' with degraded := true, ticker := degradedInterval task }
  else s'

def handleRecovery (s : Health) : Health :=
  let s' := { s with inError := false, consecutiveErrors := 0 }
  if s.degraded then { s' with degraded := false, ticker := taskInterval task } else s'

/-- What a cycle of `runTask` does about errors. -/
def observe (s : Health) (k : Tick) : Health :=
  if (k.cycle task).values = none then handleReadError task degradeAfterErrors s
  else if s.inError then handleRecovery task s
  else s

/-- The runner after these cycles. -/
def healthAfter (cycles : List Tick) : Health :=
  cycles.foldl (observe task degradeAfterErrors) { ticker := taskInterval task }

/-- The conditions are asked for and cannot be read. -/
def ConditionsFail (k : Tick) : Prop :=
  task.groupGated.keys ≠ [] ∧ task.groupTrigger.keys ≠ [] ∧ k.readConditions (conditionTags task k.ord) = none

/-- A call of `readFunc` fails in the cycle. -/
def ReadFails (k : Tick) : Prop := ConditionsFail task k ∨ (k.cycle task).values = none

/-- `handleRecovery` is called in the cycle. -/
def Recovers (s : Health) (k : Tick) : Prop := (k.cycle task).values ≠ none ∧ s.inError = true

/-- The task runs at its degraded interval. -/
def AtDegraded (s : Health) : Prop := s.degraded = true ∧ s.ticker = degradedInterval task

/-- Each of the last `n` cycles has the property. -/
def InLast (n : ℕ) (cycles : List Tick) (P : Tick → Prop) : Prop :=
  ∃ ks, ks <:+ cycles ∧ ks.length = n ∧ ∀ k ∈ ks, P k

/-- Degradation follows the errors after these cycles: the degraded interval is used if each of the last cycles had a
failed call, and the last cycle, if it had one, was no recovery. -/
structure Follows (cycles : List Tick) : Prop where
  degraded : AtDegraded task (healthAfter task degradeAfterErrors cycles) ↔
    InLast degradeAfterErrors cycles (ReadFails task)
  recovery : ∀ past k, cycles = past ++ [k] → ReadFails task k →
    ¬ Recovers task (healthAfter task degradeAfterErrors past) k

/-- What the reads may do: in `degradeAfterErrors` cycles in a row only those of the details fail; and the conditions
can be read in the cycle after one whose details could not. -/
structure Reported (cycles : List Tick) : Prop where
  row : ∀ ks, ks <:+: cycles → ks.length = degradeAfterErrors → (∀ k ∈ ks, ReadFails task k) →
    ∀ k ∈ ks, (k.cycle task).values = none
  next : ∀ k k', [k, k'] <:+: cycles → (k.cycle task).values = none → ¬ ConditionsFail task k'

end

variable {task : ScheduleTask} {degradeAfterErrors : ℕ}

/-- The runner after so many errors in a row. -/
def healthOf (task : ScheduleTask) (degradeAfterErrors errors : ℕ) : Health where
  inError := 0 < errors
  consecutiveErrors := errors
  degraded := degradeAfterErrors ≤ errors
  ticker := if degradeAfterErrors ≤ errors then degradedInterval task else taskInterval task

theorem observe_healthOf (hn : 0 < degradeAfterErrors) (errors : ℕ) (k : Tick) :
    observe task degradeAfterErrors (healthOf task degradeAfterErrors errors) k =
      healthOf task degradeAfterErrors (if (k.cycle task).values = none then errors + 1 else 0) := by
  have hzero : ¬ degradeAfterErrors ≤ 0 := by omega
  unfold observe
  by_cases hfails : (k.cycle task).values = none
  · by_cases hold : degradeAfterErrors ≤ errors
    · have hnow : degradeAfterErrors ≤ errors + 1 := by omega
      simp [hfails, healthOf, handleReadError, hold, hnow]
    · by_cases hnow : degradeAfterErrors ≤ errors + 1 <;> simp [hfails, healthOf, handleReadError, hold, hnow]
  · by_cases herrors : 0 < errors
    · by_cases hold : degradeAfterErrors ≤ errors <;> simp [hfails, healthOf, handleRecovery, herrors, hold, hzero]
    · obtain rfl : errors = 0 := by omega
      simp [hfails, healthOf]

theorem inLast_succ {n : ℕ} {cycles : List Tick} {k : Tick} {P : Tick → Prop} :
    InLast (n + 1) (cycles ++ [k]) P ↔ P k ∧ InLast n cycles P := by
  constructor
  · rintro ⟨ks, hsuffix, hlength, hall⟩
    rcases suffix_concat_iff.mp hsuffix with rfl | ⟨ks', rfl, hsuffix'⟩
    · cases hlength
    · simp only [length_append, length_singleton, Nat.add_right_cancel_iff] at hlength
      exact ⟨hall k (by simp), ks', hsuffix', hlength, fun k' hk' => hall k' (mem_append_left _ hk')⟩
  · rintro ⟨hk, ks, hsuffix, hlength, hall⟩
    refine ⟨ks ++ [k], suffix_concat_iff.mpr (.inr ⟨ks, rfl, hsuffix⟩), by simp [hlength], fun k' hk' => ?_⟩
    rcases mem_append.mp hk' with hk' | hk'
    · exact hall k' hk'
    · exact mem_singleton.mp hk' ▸ hk

/-- **The errors that are counted are those of the last cycles.** -/
theorem count_iff (task : ScheduleTask) (hn : 0 < degradeAfterErrors) (cycles : List Tick) :
    ∃ errors, healthAfter task degradeAfterErrors cycles = healthOf task degradeAfterErrors errors ∧
      ∀ m, m ≤ errors ↔ InLast m cycles fun k => (k.cycle task).values = none := by
  have hzero (ks : List Tick) (P : Tick → Prop) : InLast 0 ks P := ⟨[], nil_suffix, rfl, nofun⟩
  unfold healthAfter
  induction cycles using List.reverseRecOn with
  | nil =>
    have hlow : ¬ degradeAfterErrors ≤ 0 := by omega
    refine ⟨0, by simp [healthOf, hlow], fun m => ?_⟩
    cases m with
    | zero => exact iff_of_true le_rfl (hzero _ _)
    | succ m =>
      refine iff_of_false (by omega) ?_
      rintro ⟨ks, hsuffix, hlength, -⟩
      rw [suffix_nil.mp hsuffix] at hlength
      cases hlength
  | append_singleton cycles k ih =>
    obtain ⟨errors, heq, hcount⟩ := ih
    refine ⟨_, by rw [foldl_append, heq]; exact observe_healthOf hn errors k, fun m => ?_⟩
    cases m with
    | zero => exact iff_of_true (Nat.zero_le _) (hzero _ _)
    | succ m =>
      rw [inLast_succ]
      split_ifs with hfails
      · rw [Nat.add_le_add_iff_right, hcount]
        exact (and_iff_right hfails).symm
      · exact iff_of_false (by omega) fun h => hfails h.1

theorem inError_iff (task : ScheduleTask) (hn : 0 < degradeAfterErrors) (cycles : List Tick) :
    (healthAfter task degradeAfterErrors cycles).inError = true ↔
      InLast 1 cycles fun k => (k.cycle task).values = none := by
  obtain ⟨errors, heq, hcount⟩ := count_iff task hn cycles
  rw [heq, ← hcount, healthOf, decide_eq_true_eq, Nat.succ_le_iff]

/-- The degraded interval is used exactly if the details could not be read in each of the last cycles. -/
theorem atDegraded_iff (task : ScheduleTask) (hn : 0 < degradeAfterErrors) (cycles : List Tick) :
    AtDegraded task (healthAfter task degradeAfterErrors cycles) ↔
      InLast degradeAfterErrors cycles fun k => (k.cycle task).values = none := by
  obtain ⟨errors, heq, hcount⟩ := count_iff task hn cycles
  rw [heq, ← hcount, AtDegraded, healthOf, decide_eq_true_eq]
  exact ⟨fun h => h.1, fun h => ⟨h, if_pos h⟩⟩

/-- The error of the conditions does not reach the loop. -/
theorem values_of_conditionsFail {k : Tick} (h : ConditionsFail task k) : (k.cycle task).values ≠ none := by
  obtain ⟨hgated, htrigger, hread⟩ := h
  have hplan : (gateTriggerTags task k.ord k.readConditions).1.read = [] := by
    simp [gateTriggerTags, htrigger, hread]
  simp [Tick.cycle, cycle, hgated, hplan]

/-- **Degradation follows the read errors in every cycle of a run if and only if** the errors of the conditions are not
among those that count. -/
theorem follows_iff (task : ScheduleTask) (hn : 0 < degradeAfterErrors) (cycles : List Tick) :
    (∀ past, past <+: cycles → Follows task degradeAfterErrors past) ↔ Reported task degradeAfterErrors cycles := by
  constructor
  · intro h
    constructor
    · rintro ks ⟨before, after, rfl⟩ hlength hfails k hk
      have hfollows := h (before ++ ks) (prefix_append _ _)
      have hlast : InLast degradeAfterErrors (before ++ ks) (ReadFails task) := ⟨ks, suffix_append _ _, hlength, hfails⟩
      obtain ⟨ks', hsuffix, hlength', hall⟩ := (atDegraded_iff task hn _).mp (hfollows.degraded.mpr hlast)
      have heq : ks' = ks :=
        (suffix_of_suffix_length_le hsuffix (suffix_append _ _) (hlength'.trans hlength.symm).le).eq_of_length
          (hlength'.trans hlength.symm)
      exact hall k (heq ▸ hk)
    · rintro k k' ⟨before, after, rfl⟩ hdetails hconditions
      have hpast : before ++ [k, k'] = (before ++ [k]) ++ [k'] := by simp
      have hfollows := h (before ++ [k, k']) (prefix_append _ _)
      refine hfollows.recovery (before ++ [k]) k' hpast (.inl hconditions) ⟨values_of_conditionsFail hconditions, ?_⟩
      exact (inError_iff task hn _).mpr ⟨[k], suffix_append _ _, rfl, by simpa using hdetails⟩
  · intro h past hpast
    constructor
    · rw [atDegraded_iff task hn]
      constructor
      · rintro ⟨ks, hsuffix, hlength, hall⟩
        exact ⟨ks, hsuffix, hlength, fun k hk => .inr (hall k hk)⟩
      · rintro ⟨ks, hsuffix, hlength, hall⟩
        exact ⟨ks, hsuffix, hlength, h.row ks (hsuffix.isInfix.trans hpast.isInfix) hlength hall⟩
    · rintro earlier k rfl hfails ⟨hvalues, herror⟩
      have hconditions := hfails.resolve_right hvalues
      obtain ⟨ks, hsuffix, hlength, hall⟩ := (inError_iff task hn earlier).mp herror
      obtain ⟨k', rfl⟩ := length_eq_one_iff.mp hlength
      obtain ⟨before, rfl⟩ := hsuffix
      have hin : [k', k] <:+: before ++ [k'] ++ [k] := ⟨before, [], by simp⟩
      exact h.next k' k (hin.trans hpast.isInfix) (hall k' (mem_singleton_self _)) hconditions

/-! ### The alarm flag -/

/-- The flag is up, and the code cannot be read. -/
def codeFails : Tick := { alarmTick true .nil .good with readDetails := fun _ => none }

/-- The flag cannot be read. -/
def flagFails : Tick := { alarmTick true .nil .good with readConditions := fun _ => none }

/-- The code cannot be read in two cycles, and then the task is degraded. -/
theorem follows_iff_alarm : Follows (alarmTask "alarm_flag") 2 [codeFails, codeFails] ∧
    AtDegraded (alarmTask "alarm_flag") (healthAfter (alarmTask "alarm_flag") 2 [codeFails, codeFails]) := by
  have hfails : (codeFails.cycle (alarmTask "alarm_flag")).values = none := by decide
  have hall (ks : List Tick) (h : ks <:+: [codeFails, codeFails]) :
      ∀ k ∈ ks, (k.cycle (alarmTask "alarm_flag")).values = none := by
    intro k hk
    have hmem : k ∈ [codeFails, codeFails] := h.subset hk
    obtain rfl : k = codeFails := by simpa using hmem
    exact hfails
  have hreported : Reported (alarmTask "alarm_flag") 2 [codeFails, codeFails] := by
    refine ⟨fun ks h _ _ => hall ks h, fun k k' h _ hconditions => ?_⟩
    exact values_of_conditionsFail hconditions (hall _ h k' (by simp))
  have hfollows := (follows_iff (alarmTask "alarm_flag") (by decide) _).mpr hreported _ prefix_rfl
  exact ⟨hfollows, hfollows.degraded.mpr ⟨_, suffix_rfl, rfl, fun k hk => .inr (hall _ infix_rfl k hk)⟩⟩

/-- The flag cannot be read in five cycles, the task is not degraded; and after an error of the details the failed read of
the flag is a recovery. -/
theorem flag_never_degrades :
    (∀ k ∈ replicate 5 flagFails, ReadFails (alarmTask "alarm_flag") k) ∧
      (healthAfter (alarmTask "alarm_flag") 5 (replicate 5 flagFails)).ticker ≠
        degradedInterval (alarmTask "alarm_flag") ∧
      ReadFails (alarmTask "alarm_flag") flagFails ∧
      Recovers (alarmTask "alarm_flag") (healthAfter (alarmTask "alarm_flag") 5 [codeFails]) flagFails := by
  have hconditions : ConditionsFail (alarmTask "alarm_flag") flagFails := ⟨by decide, by decide, rfl⟩
  refine ⟨fun k hk => ?_, by decide, .inl hconditions, values_of_conditionsFail hconditions, by decide⟩
  rw [eq_of_mem_replicate hk]
  exact .inl hconditions

end CoreC.Engine.Degrade
