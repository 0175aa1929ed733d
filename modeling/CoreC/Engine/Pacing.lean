import CoreC.Engine.Write
import CoreC.Lib.GoDuration
import CoreC.Lib.GoText

/-! # Paced commands

A write to a driver that was written less than `write-min-interval` ago is refused (`writePacer.check`).
The documentation sends such a command to the dead-letter queue at once. The loop of
`executeWriteWithRetry` knows only the texts of `permanentWriteErrPatterns`, and the text of a refusal has
none of them, unless the name of the driver brings one along; so the command is tried again. -/

namespace CoreC.Engine.Pacing

open Core.Types Lib.GoDuration Lib.GoText Engine.Write List

variable {δ : Type} {env : Env δ} {cmd : WriteCommand} {s : WriteManager δ} {err : String} {left maxAttempts : ℕ}

/-! ### Refusals -/

/-- The refusal of the pacer, if the command comes to it. -/
def paced (env : Env δ) (cmd : WriteCommand) (s : WriteManager δ) : Option String :=
  if cmd.driver ∈ s.drivers ∧ protection env cmd s = none then
    s.pacer.check env cmd.driver (env.now s.world)
  else none

theorem writeTag_paced (h : paced env cmd s = some err) : writeTag env cmd s = refuse env cmd err s := by
  unfold paced at h
  split_ifs at h with hcond
  unfold writeTag
  rw [if_neg (not_not_intro hcond.1)]
  simp [hcond.2, h]

/-- The texts of `fmt`: durations as `time.Duration` writes them, and names between quotes. -/
structure Formats (env : Env δ) : Prop where
  duration : env.duration = durationString
  quoted : ∀ s, ∃ inner, (env.quoted s).toList = '"' :: (inner ++ ['"'])

theorem isPermanentWriteError_iff : isPermanentWriteError err = true ↔
    ∃ p ∈ permanentWriteErrPatterns, p.toList <:+: err.toList := by
  simp only [isPermanentWriteError, any_eq_true]
  exact exists_congr fun p => and_congr_right fun _ => any_eq_true.symm.trans tails_any_isPrefixOf

def isRare (c : Char) : Bool := c == 'o' || c == 'x' || c == 'u' || c == 'f' || c == 'g'

theorem pattern_rare : ∀ p ∈ permanentWriteErrPatterns, ∃ c ∈ p.toList, isRare c = true := by
  have h : ∀ p ∈ permanentWriteErrPatterns, p.toList.any isRare = true := by decide
  exact fun p hp => any_eq_true.mp (h p hp)

theorem pattern_quote : ∀ p ∈ permanentWriteErrPatterns, '"' ∉ p.toList := by
  decide

theorem not_isRare_duration {d : ℤ} {c : Char} (h : c ∈ (durationString d).toList) : isRare c = false := by
  have hc := isDurationChar_durationString h
  by_contra hrare
  simp only [isRare, Bool.not_eq_false, Bool.or_eq_true, beq_iff_eq] at hrare
  rcases hrare with (((rfl | rfl) | rfl) | rfl) | rfl <;> exact absurd hc (by decide)

theorem not_infix_of_not_isRare {p : String} (hp : p ∈ permanentWriteErrPatterns) {l : List Char}
    (h : ∀ c ∈ l, isRare c = false) : ¬ p.toList <:+: l := by
  intro hpart
  obtain ⟨c, hc, hrare⟩ := pattern_rare p hp
  rw [h c (hpart.subset hc)] at hrare
  cases hrare

/-- **The text of a refusal counts as permanent if and only if** a pattern is in the quoted name of the
driver. -/
theorem isPermanent_paced (hf : Formats env) {p : WritePacer} {driver : String} {now : ℤ}
    (h : p.check env driver now = some err) : isPermanentWriteError err = true ↔
      ∃ p ∈ permanentWriteErrPatterns, p.toList <:+: (env.quoted driver).toList := by
  rw [isPermanentWriteError_iff]
  refine exists_congr fun pattern => and_congr_right fun hp => ?_
  unfold WritePacer.check at h
  split_ifs at h
  split at h
  · cases h
  · split_ifs at h
    obtain ⟨inner, hinner⟩ := hf.quoted driver
    have hquote := pattern_quote pattern hp
    -- what stands before and behind the name has no pattern
    have hbefore : ¬ pattern.toList <:+: "write paced: driver ".toList :=
      not_infix_of_not_isRare hp (by simp [isRare])
    have hbehind : ∀ d e, ¬ pattern.toList <:+: " accepts a write every ".toList ++
        ((durationString d).toList ++ (" (retry in ".toList ++ ((durationString e).toList ++ ")".toList))) := by
      intro d e
      refine not_infix_of_not_isRare hp ?_
      simp only [forall_mem_append]
      exact ⟨by simp [isRare], fun _ => not_isRare_duration, by simp [isRare], fun _ => not_isRare_duration,
        by simp [isRare]⟩
    have hname : pattern.toList <:+: (env.quoted driver).toList ↔ pattern.toList <:+: inner := by
      have hnil : ¬ pattern.toList <:+: [] := not_infix_of_not_isRare hp (by simp)
      rw [hinner, show '"' :: (inner ++ ['"']) = [] ++ '"' :: (inner ++ '"' :: []) from rfl,
        infix_append_cons hquote, infix_append_cons hquote]
      simp [hnil]
    cases h
    rw [hname]
    simp only [String.toList_append, hf.duration, hinner, append_assoc, cons_append,
      nil_append, infix_append_cons hquote, hbefore, hbehind, false_or, or_false]

/-! ### The attempts of an execution -/

/-- The error of an attempt and the state of the next one, `none` if the loop ends here. -/
def next (env : Env δ) (cmd : WriteCommand) (maxAttempts left : ℕ) (s : WriteManager δ) :
    Option (String × WriteManager δ) :=
  match Write.failure (writeTag env cmd s).1 with
  | none => none
  | some lastErr =>
    if isPermanentWriteError lastErr ∨ left = 0 then none
    else
      match env.wait (retryDelay (maxAttempts - (left + 1))) (writeTag env cmd s).2.world with
      | (true, _) => none
      | (false, w) => some (lastErr, { (writeTag env cmd s).2 with
          world := w, pacer := env.others w (writeTag env cmd s).2.pacer })

/-- The attempts, each with its number and the state before it. -/
def attempts (env : Env δ) (cmd : WriteCommand) (maxAttempts : ℕ) :
    ℕ → WriteManager δ → List (ℕ × WriteManager δ)
  | 0, _ => []
  | left + 1, s =>
    (maxAttempts - (left + 1), s) ::
      match next env cmd maxAttempts left s with
      | none => []
      | some (_, s) => attempts env cmd maxAttempts left s

theorem retry_next {err' : String} {s' : WriteManager δ} (err : String)
    (h : next env cmd maxAttempts left s = some (err', s')) :
    left ≠ 0 ∧ s'.auditLog = (writeTag env cmd s).2.auditLog ∧
      retry env cmd maxAttempts (left + 1) err s = retry env cmd maxAttempts left err' s' := by
  unfold next at h
  split at h
  · cases h
  · next lastErr hfail =>
    split_ifs at h with hend
    obtain ⟨hperm, hleft⟩ := not_or.mp hend
    split at h
    · cases h
    · next w hwait =>
      cases h
      refine ⟨hleft, rfl, ?_⟩
      rw [retry]
      simp [hfail, hperm, hleft, hwait]

/-- The attempt is the last one, and the command a dead letter. -/
def EndsIt (env : Env δ) (cmd : WriteCommand) (all : List (ℕ × WriteManager δ)) (final : WriteManager δ)
    (attempt : ℕ × WriteManager δ) (err : String) : Prop :=
  all.getLast? = some attempt ∧ final = addDeadLetter ⟨cmd, err, env.now attempt.2.world, attempt.1 + 1, ""⟩
      (recordWriteAudit env cmd false err attempt.2)

@[simp] theorem recordWriteAudit_world (success : Bool) (err : String) (s : WriteManager δ) :
    (recordWriteAudit env cmd success err s).world = s.world := by
  simp [recordWriteAudit]

@[simp] theorem recordWriteAudit_deadLetterLog (success : Bool) (err : String) (s : WriteManager δ) :
    (recordWriteAudit env cmd success err s).deadLetterLog = s.deadLetterLog := by
  simp [recordWriteAudit]

/-- **A refusal whose text is permanent, or that is the last attempt, ends the loop.** -/
theorem paced_ends (lastErr : String) (hpaced : paced env cmd s = some err) (hle : left + 1 ≤ maxAttempts)
    (hend : isPermanentWriteError err = true ∨ left = 0) :
    next env cmd maxAttempts left s = none ∧ retry env cmd maxAttempts (left + 1) lastErr s =
      addDeadLetter ⟨cmd, err, env.now s.world, (maxAttempts - (left + 1) : ℕ) + 1, ""⟩
        (recordWriteAudit env cmd false err s) := by
  constructor
  · unfold next
    rw [writeTag_paced hpaced]
    simp [refuse, Write.failure, hend]
  · rw [retry, writeTag_paced hpaced]
    simp only [refuse, Write.failure]
    by_cases hperm : isPermanentWriteError err = true
    · rw [if_pos hperm, recordWriteAudit_world]
    · obtain rfl := hend.resolve_left hperm
      have hcount : ((maxAttempts - (0 + 1) : ℕ) : ℤ) + 1 = maxAttempts := by omega
      rw [if_neg hperm, if_pos rfl, retry, hcount, recordWriteAudit_world]

/-- **Any other refusal** is followed by another attempt, or the command is given up without a dead
letter. -/
theorem paced_goes_on (maxAttempts : ℕ) (lastErr : String) (hpaced : paced env cmd s = some err)
    (hperm : ¬ isPermanentWriteError err = true) (hleft : left ≠ 0) : (∃ x, next env cmd maxAttempts left s = some x) ∨
      (retry env cmd maxAttempts (left + 1) lastErr s).deadLetterLog = s.deadLetterLog := by
  unfold next
  rw [retry, writeTag_paced hpaced]
  simp only [refuse, Write.failure, hperm, hleft, Bool.false_eq_true, if_false, recordWriteAudit_world]
  cases hwait : env.wait (retryDelay (maxAttempts - (left + 1))) s.world with
  | mk stopped w =>
    cases stopped with
    | true =>
      refine .inr ?_
      simp [recordWriteAudit_deadLetterLog]
    | false => exact .inl ⟨_, rfl⟩

theorem attempts_ne_nil (env : Env δ) (cmd : WriteCommand) (maxAttempts : ℕ) (h : left ≠ 0)
    (s : WriteManager δ) : attempts env cmd maxAttempts left s ≠ [] := by
  obtain ⟨k, rfl⟩ := Nat.exists_eq_succ_of_ne_zero h
  simp [attempts]

theorem le_of_mem_attempts : ∀ {left : ℕ} {s : WriteManager δ} {a : ℕ × WriteManager δ},
    a ∈ attempts env cmd maxAttempts left s → maxAttempts - left ≤ a.1
  | 0, s, a, h => by cases h
  | left + 1, s, a, h => by
    unfold attempts at h
    rcases mem_cons.mp h with rfl | h
    · exact le_rfl
    · split at h
      · cases h
      · have := le_of_mem_attempts h
        omega

theorem endsIt_iff : ∀ {left : ℕ} {s : WriteManager δ} err, left ≤ maxAttempts →
    ((∀ a ∈ attempts env cmd maxAttempts left s, ∀ e, paced env cmd a.2 = some e →
        EndsIt env cmd (attempts env cmd maxAttempts left s) (retry env cmd maxAttempts left err s) a e) ↔
      ∀ a ∈ attempts env cmd maxAttempts left s, ∀ e, paced env cmd a.2 = some e →
        a.1 + 1 = maxAttempts ∨ isPermanentWriteError e = true)
  | 0, s, err, _ => by simp [attempts]
  | left + 1, s, err, hle => by
    have hnum : maxAttempts - (left + 1) + 1 = maxAttempts ↔ left = 0 := by omega
    -- the first attempt, by whether the loop ends with it
    have hhead : ∀ e, paced env cmd s = some e → (EndsIt env cmd (attempts env cmd maxAttempts (left + 1) s)
          (retry env cmd maxAttempts (left + 1) err s) (maxAttempts - (left + 1), s) e ↔
            maxAttempts - (left + 1) + 1 = maxAttempts ∨ isPermanentWriteError e = true) := by
      intro e he
      rw [hnum]
      constructor
      · rintro ⟨hlast, hfinal⟩
        by_contra hend
        obtain ⟨hleft, hperm⟩ := not_or.mp hend
        rcases paced_goes_on maxAttempts err he hperm hleft with ⟨x, hx⟩ | hlog
        · have hne := attempts_ne_nil env cmd maxAttempts (retry_next err hx).1 x.2
          rw [attempts, hx, getLast?_cons, getLast?_eq_some_getLast hne, Option.getD_some] at hlast
          have hmem := getLast_mem hne
          rw [Option.some.inj hlast] at hmem
          have := le_of_mem_attempts hmem
          omega
        · rw [hfinal, addDeadLetter_deadLetterLog] at hlog
          simpa using congrArg length hlog
      · intro hend
        obtain ⟨hnext, hfinal⟩ := paced_ends err he hle hend.symm
        refine ⟨?_, hfinal⟩
        rw [attempts, hnext]
        rfl
    cases hnext : next env cmd maxAttempts left s with
    | none =>
      have hatt : attempts env cmd maxAttempts (left + 1) s = [(maxAttempts - (left + 1), s)] := by
        rw [attempts, hnext]
      rw [hatt] at hhead ⊢
      simp only [mem_singleton, forall_eq]
      exact forall_congr' fun e => forall_congr' fun he => hhead e he
    | some x =>
      obtain ⟨hleft, -, hretry⟩ := retry_next err hnext
      have hatt : attempts env cmd maxAttempts (left + 1) s =
          (maxAttempts - (left + 1), s) :: attempts env cmd maxAttempts left x.2 := by
        rw [attempts, hnext]
      have hlast : (attempts env cmd maxAttempts (left + 1) s).getLast? =
          (attempts env cmd maxAttempts left x.2).getLast? := by
        have hne := attempts_ne_nil env cmd maxAttempts hleft x.2
        rw [hatt, getLast?_cons, getLast?_eq_some_getLast hne, Option.getD_some]
      have htail := endsIt_iff (s := x.2) x.1 (show left ≤ maxAttempts by omega)
      rw [← hretry] at htail
      simp only [EndsIt, hlast] at hhead ⊢
      rw [hatt]
      simp only [forall_mem_cons]
      exact and_congr (forall_congr' fun e => forall_congr' fun he => hhead e he) htail

/-- **Every paced refusal of an execution ends it, as the reason of a dead letter, if and only if** each refused
attempt is the last one the retry count allows or a permanent pattern is in the quoted name of the driver. -/
theorem paced_iff (hf : Formats env) (hdriver : cmd.driver ∈ s.drivers) :
    (∀ a ∈ attempts env cmd (s.writeRetryCount + 1) (s.writeRetryCount + 1) s, ∀ err, paced env cmd a.2 = some err →
          EndsIt env cmd (attempts env cmd (s.writeRetryCount + 1) (s.writeRetryCount + 1) s)
            (executeWriteWithRetry env cmd s) a err) ↔
      ∀ a ∈ attempts env cmd (s.writeRetryCount + 1) (s.writeRetryCount + 1) s, ∀ err,
        paced env cmd a.2 = some err → a.1 = s.writeRetryCount ∨
          ∃ p ∈ permanentWriteErrPatterns, p.toList <:+: (env.quoted cmd.driver).toList := by
  have hexec : executeWriteWithRetry env cmd s =
      retry env cmd (s.writeRetryCount + 1) (s.writeRetryCount + 1) "" s := by
    rw [executeWriteWithRetry, if_neg (not_not_intro hdriver)]
  rw [hexec, endsIt_iff (s := s) "" (le_refl (s.writeRetryCount + 1))]
  refine forall_congr' fun a => forall_congr' fun _ => forall_congr' fun err => forall_congr' fun he => ?_
  have hcheck : a.2.pacer.check env cmd.driver (env.now a.2.world) = some err := by
    unfold paced at he
    split_ifs at he
    exact he
  rw [isPermanent_paced hf hcheck, Nat.add_right_cancel_iff]

/-! ### A driver written 10 ms ago -/

def clockEnv : Env ℤ where
  now t := t
  write _ _ t := (.ok [⟨true, ""⟩], t)
  forwardCommand _ _ _ := none
  wait d t := (false, t + d)
  quoted s := String.ofList ('"' :: (s.toList ++ ['"']))
  duration := durationString

theorem formats_clockEnv : Formats clockEnv :=
  ⟨rfl, fun s => ⟨s.toList, String.toList_ofList⟩⟩

/-- The driver `plc`, written at time 0, with an interval of 150 ms. -/
def pacedPlc (writeRetryCount : Fin 4) : WriteManager ℤ :=
  { world := 10 * millisecond, drivers := ["plc"], writeRetryCount, retryCount_lt := by omega
    pacer := { last := fun d => if d = "plc" then some 0 else none, interval := 150 * millisecond } }

def plcCommand : WriteCommand := { driver := "plc", tag := "speed" }

/-- **The command is refused, tried again and written**, and there is no dead letter. -/
theorem paced_command_retried : paced clockEnv plcCommand (pacedPlc 3) =
        some "write paced: driver \"plc\" accepts a write every 150ms (retry in 140ms)" ∧
      (executeWriteWithRetry clockEnv plcCommand (pacedPlc 3)).auditLog.map WriteAuditEntry.success =
        [false, false, true] ∧
      (executeWriteWithRetry clockEnv plcCommand (pacedPlc 3)).deadLetterLog.length = 0 := by
  decide +kernel

/-- Without retries the refusal ends the execution. -/
theorem paced_iff_single : (paced clockEnv plcCommand (pacedPlc 0)).isSome = true ∧
      ∀ a ∈ attempts clockEnv plcCommand 1 1 (pacedPlc 0), ∀ err, paced clockEnv plcCommand a.2 = some err →
        EndsIt clockEnv plcCommand (attempts clockEnv plcCommand 1 1 (pacedPlc 0))
          (executeWriteWithRetry clockEnv plcCommand (pacedPlc 0)) a err := by
  have hdriver : plcCommand.driver ∈ (pacedPlc 0).drivers := by decide
  refine ⟨by decide +kernel, (paced_iff formats_clockEnv hdriver).mpr fun a ha _ _ => .inl ?_⟩
  have hlast : ∀ x, next clockEnv plcCommand 1 0 (pacedPlc 0) ≠ some x :=
    fun x hx => (retry_next "" hx).1 rfl
  cases hnext : next clockEnv plcCommand 1 0 (pacedPlc 0) with
  | none =>
    rw [mem_singleton.mp ha]
    rfl
  | some x => exact absurd hnext (hlast x)

end CoreC.Engine.Pacing
