import CoreC.Lib.Runs
import CoreC.Mqtt.Handler

/-! # Replay safety

Of all the messages with one signed content at most one should be passed on. The replay window knows a message by the
hash of its raw payload, so a payload that is spelled differently has the same valid signature and passes a second time
(`respelled_command_passes`).

Without respelled payloads a message that was passed on is in the window, or stale from now on (`Guarded`): an entry is
kept for `2 * skew`, and the message came at most `skew` before its timestamp. The freshness test counts in whole
milliseconds, so the message is fresh for up to one more: the eviction loop must not run then, and a skew below one
millisecond is no test at all (`Allowed`). -/

namespace CoreC.Mqtt.Replay

open Lib.GoInt Lib.Runs Lib.Json.Lex Lib.Json.Text List
open Mqtt.Signing Mqtt.Handler

def hasTimestamp (p : Platform) (payload : Bytes) : Bool := (extractCommandTimestamp p payload).isSome

def Representable (now : ℤ) : Prop := 0 ≤ now ∧ now < 9223372036854775808

instance (now : ℤ) : Decidable (Representable now) :=
  inferInstanceAs (Decidable (0 ≤ now ∧ now < 9223372036854775808))

/-- The clock does not go back, the window has room, no content is respelled, and no eviction comes in the extra
millisecond. -/
def Allowed (p : Platform) (t : MQTTTransport) (s : State) : Event → Prop
  | .deliver now payload => s.clock ≤ now ∧ Representable now ∧ s.seen.length < maxSize ∧
      (hasTimestamp p payload = true → ∀ q ∈ s.passed, hasTimestamp p q = true →
        commandSigningBytes q = commandSigningBytes payload → q = payload)
  | .evict now => s.clock ≤ now ∧ Representable now ∧ ∀ q ∈ s.passed, ∀ ts, extractCommandTimestamp p q = some ts →
        (ts + milliseconds t.commandMaxSkew) * millisecond < now →
          (ts + milliseconds t.commandMaxSkew + 1) * millisecond ≤ now
  | .receive => True

/-! ### Freshness -/

section

variable {p : Platform} {t : MQTTTransport} {now ts : ℤ}

theorem milliseconds_bounds {d : ℤ} (h : millisecond ≤ d) : 1 ≤ milliseconds d ∧ milliseconds d * millisecond ≤ d := by
  unfold millisecond at *
  unfold milliseconds millisecond
  rw [Int.tdiv_eq_ediv_of_nonneg (by omega)]
  omega

/-- **The freshness test.** The second case is the overflow of `-diff`. -/
theorem fresh_iff (hskew : millisecond ≤ t.commandMaxSkew)
    (hint : IntType.int64.InRange t.commandMaxSkew) (hnow : Representable now)
    (hts : IntType.int64.InRange ts) : isCommandTimestampFresh t now ts = true ↔
      (ts - milliseconds t.commandMaxSkew ≤ unixMilli now ∧ unixMilli now ≤ ts + milliseconds t.commandMaxSkew) ∨
      unixMilli now - ts = 9223372036854775808 := by
  obtain ⟨hpos, hle⟩ := milliseconds_bounds hskew
  rw [IntType.inRange_int64] at hts hint
  obtain ⟨hnow0, hnow1⟩ := hnow
  have hm0 : 0 ≤ unixMilli now := by unfold unixMilli millisecond; omega
  have hm1 : unixMilli now ≤ 9223372036854 := by unfold unixMilli millisecond; omega
  have hs1 : milliseconds t.commandMaxSkew ≤ 9223372036854 := by unfold millisecond at hle; omega
  unfold isCommandTimestampFresh
  generalize milliseconds t.commandMaxSkew = skew at *
  generalize unixMilli now = m at *
  rw [if_neg (by omega), decide_eq_true_eq, IntType.wrap_int64, IntType.wrap_int64]
  split_ifs <;> omega

/-- **What is evicted is stale**, if the loop does not run in the last millisecond. -/
theorem stale_of_expired (hskew : millisecond ≤ t.commandMaxSkew)
    (hint : IntType.int64.InRange t.commandMaxSkew) (httl : 0 < ttl t) {added : ℤ}
    (hadded : Representable added) (hts : IntType.int64.InRange ts)
    (hfresh : isCommandTimestampFresh t added ts = true) (hexpired : ttl t < now - added)
    (hlast : (ts + milliseconds t.commandMaxSkew) * millisecond < now →
      (ts + milliseconds t.commandMaxSkew + 1) * millisecond ≤ now)
    {later : ℤ} (hle : now ≤ later) (hlater : Representable later) :
    isCommandTimestampFresh t later ts = false := by
  have hint' := IntType.inRange_int64.mp hint
  have httl' : ttl t = 2 * t.commandMaxSkew := by
    unfold ttl millisecond at *
    rw [IntType.wrap_int64] at httl ⊢
    omega
  rw [← Bool.not_eq_true, fresh_iff hskew hint hlater hts]
  rw [fresh_iff hskew hint hadded hts] at hfresh
  obtain ⟨hpos, hms⟩ := milliseconds_bounds hskew
  obtain ⟨hadded0, hadded1⟩ := hadded
  obtain ⟨hlater0, hlater1⟩ := hlater
  rw [httl'] at hexpired
  unfold unixMilli millisecond at *
  generalize milliseconds t.commandMaxSkew = skew at *
  rcases hfresh with ⟨hfrom, hto⟩ | hover
  · have := hlast (by omega)
    omega
  · omega

end

/-! ### The invariant -/

section

variable {p : Platform} {t : MQTTTransport} {s s' : State}

def Guarded (p : Platform) (t : MQTTTransport) (s : State) (q : Bytes) : Prop :=
  ∀ ts, extractCommandTimestamp p q = some ts → (∃ added, (p.sha256 q, added) ∈ s.seen ∧ Representable added ∧
      isCommandTimestampFresh t added ts = true) ∨
    ∀ now, s.clock ≤ now → Representable now → isCommandTimestampFresh t now ts = false

/-- Every message passed on is guarded, and no two with a timestamp have the same signing bytes. -/
structure Inv (p : Platform) (t : MQTTTransport) (s : State) : Prop where
  guarded : ∀ q ∈ s.passed, Guarded p t s q
  nodup : ((s.passed.filter (hasTimestamp p)).map commandSigningBytes).Nodup

theorem Guarded.mono {q : Bytes} (h : Guarded p t s q) (hseen : ∀ x ∈ s.seen, x ∈ s'.seen)
    (hclock : s.clock ≤ s'.clock) : Guarded p t s' q := by
  intro ts hts
  rcases h ts hts with ⟨added, hmem, hrest⟩ | hstale
  · exact .inl ⟨added, hseen _ hmem, hrest⟩
  · exact .inr fun now hnow => hstale now (le_trans hclock hnow)

theorem not_accepted {q : Bytes} (h : Guarded p t s q) {now ts : ℤ}
    (hts : extractCommandTimestamp p q = some ts) (hclock : s.clock ≤ now) (hnow : Representable now)
    (hnew : p.sha256 q ∉ s.seen.map Prod.fst) (hfresh : isCommandTimestampFresh t now ts = true) :
    False := by
  rcases h ts hts with ⟨added, hmem, -⟩ | hstale
  · exact hnew (mem_map_of_mem hmem)
  · rw [hstale now hclock hnow] at hfresh
    cases hfresh

theorem extractCommandTimestamp_inRange {payload : Bytes} {ts : ℤ}
    (h : extractCommandTimestamp p payload = some ts) : IntType.int64.InRange ts := by
  unfold extractCommandTimestamp at h
  split at h
  · cases h
    exact p.toInt64_inRange _
  · cases h
    exact IntType.wrap_inRange _ _
  · cases h

theorem nodup_append_filter {f : Bytes → Bool} {g : Bytes → Bytes} {l : List Bytes} {q : Bytes}
    (hl : ((l.filter f).map g).Nodup) (hq : f q = true → ∀ x ∈ l, f x = true → g x ≠ g q) :
    (((l ++ [q]).filter f).map g).Nodup := by
  rw [filter_append, map_append]
  cases hf : f q with
  | false => simpa [hf] using hl
  | true =>
    rw [filter_cons_of_pos hf, filter_nil, map_singleton]
    refine nodup_append.mpr ⟨hl, nodup_singleton _, ?_⟩
    intro a ha b hb
    obtain ⟨x, hx, rfl⟩ := mem_map.mp ha
    rw [mem_filter] at hx
    rw [mem_singleton.mp hb]
    exact hq hf x hx.1 hx.2

theorem inv_deliver (hcache : hasReplayCache t = true) {now : ℤ} {payload : Bytes}
    (hP : Allowed p t s (.deliver now payload))
    (hstep : step p t s (.deliver now payload) = some s') (hI : Inv p t s) : Inv p t s' := by
  obtain ⟨hclock, hnow, hcap, hspelled⟩ := hP
  simp only [step, Option.some.injEq] at hstep
  generalize hs₁ : handleCommandMessage p t now payload s = s₁ at hstep
  subst hstep
  rcases handle_cases hcache hcap hs₁ with ⟨hseen, hpassed⟩ | ⟨hnew, hseen, hfresh, hpassed⟩
  · refine ⟨fun q hq => ?_, by simpa only [hpassed] using hI.nodup⟩
    rw [hpassed] at hq
    exact (hI.guarded q hq).mono (by simp [hseen]) hclock
  · have hkept : ∀ q ∈ s.passed, Guarded p t { s₁ with clock := now } q := fun q hq =>
      (hI.guarded q hq).mono (fun x hx => by simp [hseen, hx]) hclock
    rcases hpassed with hpassed | hpassed
    · refine ⟨fun q hq => hkept q (by simpa only [hpassed] using hq), ?_⟩
      simpa only [hpassed] using hI.nodup
    · constructor
      · intro q hq
        simp only [hpassed, mem_append, mem_singleton] at hq
        rcases hq with hq | rfl
        · exact hkept q hq
        · exact fun ts hts => .inl ⟨now, by simp [hseen], hnow, hfresh ts hts⟩
      · simp only [hpassed]
        refine nodup_append_filter hI.nodup fun hts q hq htsq heq => ?_
        obtain rfl := hspelled hts q hq htsq heq
        obtain ⟨ts, hts⟩ := Option.isSome_iff_exists.mp hts
        exact not_accepted (hI.guarded q hq) hts hclock hnow hnew (hfresh ts hts)

theorem inv_evict (hskew : millisecond ≤ t.commandMaxSkew)
    (hint : IntType.int64.InRange t.commandMaxSkew) {now : ℤ} (hP : Allowed p t s (.evict now))
    (hstep : step p t s (.evict now) = some s') (hI : Inv p t s) : Inv p t s' := by
  obtain ⟨hclock, hnow, hlast⟩ := hP
  simp only [step] at hstep
  split_ifs at hstep with hloop
  cases hstep
  refine ⟨fun q hq ts hts => ?_, hI.nodup⟩
  rcases hI.guarded q hq ts hts with ⟨added, hmem, hadded, hfresh⟩ | hstale
  · by_cases hkept : now - added ≤ ttl t
    · exact .inl ⟨added, mem_filter.mpr ⟨hmem, by simpa using hkept⟩, hadded, hfresh⟩
    · refine .inr fun later hle hlater => ?_
      exact stale_of_expired hskew hint hloop.2 hadded (extractCommandTimestamp_inRange hts) hfresh
        (by omega) (hlast q hq ts hts) hle hlater
  · exact .inr fun later hle => hstale later (le_trans hclock hle)

theorem inv_step (hcache : hasReplayCache t = true) (hskew : millisecond ≤ t.commandMaxSkew)
    (hint : IntType.int64.InRange t.commandMaxSkew) {ev : Event} (hP : Allowed p t s ev)
    (hstep : step p t s ev = some s') (hI : Inv p t s) : Inv p t s' := by
  cases ev with
  | deliver now payload => exact inv_deliver hcache hP hstep hI
  | evict now => exact inv_evict hskew hint hP hstep hI
  | receive =>
    simp only [step] at hstep
    split_ifs at hstep
    cases hstep
    exact ⟨hI.guarded, hI.nodup⟩

theorem inv_init : Inv p t {} := ⟨fun _ hq => (nomatch hq), nodup_nil⟩

/-- **Of the messages with one signed content at most one is passed on**, in every run without respelled
payloads. -/
theorem passed_at_most_once (hsecret : t.commandSecret ≠ "")
    (hskew : millisecond ≤ t.commandMaxSkew) (hint : IntType.int64.InRange t.commandMaxSkew)
    {events : List Event} (hrun : Run (step p t) (Allowed p t) {} events s) :
    ((s.passed.filter (hasTimestamp p)).map commandSigningBytes).Nodup := by
  have hcache : hasReplayCache t = true := by
    unfold millisecond at hskew
    simp only [hasReplayCache, decide_eq_true_eq]
    exact ⟨hsecret, by omega⟩
  exact (hrun.invariant (fun s a s' => inv_step hcache hskew hint) inv_init).nodup

end

/-! ### A respelled payload -/

def saturate (q : ℚ) : ℤ :=
  if IntType.int64.InRange (truncate q) then truncate q else -9223372036854775808

/-- Digests for examples: every HMAC is `00`, and a SHA-256 names its bytes. -/
def plainPlatform : Platform where
  hmac _ _ := "00"
  sha256 b := String.ofList (b.map fun x => Char.ofNat x.toNat)
  toInt64 := saturate
  sha256_injective := by
    have hcode : ∀ n < 256, (Char.ofNat n).toNat = n := by decide +kernel
    have hchar : Function.Injective fun x : UInt8 => Char.ofNat x.toNat := by
      intro x y h
      rw [← UInt8.toNat_inj, ← hcode _ x.toNat_lt, ← hcode _ y.toNat_lt]
      exact congrArg Char.toNat h
    exact fun b b' h => map_injective_iff.mpr hchar (String.ofList_injective h)
  toInt64_inRange q := by
    unfold saturate
    split_ifs with h
    · exact h
    · decide
  toInt64_truncate q h := if_pos h

def plainTransport : MQTTTransport := { commandSecret := "s", commandMaxSkew := 1000000000 }

def startPayload : Bytes := utf8 "\x7b\"timestamp\":5,\"signature\":\"00\",\"tag\":\"pump\"\x7d"

def respelledPayload : Bytes :=
  utf8 "\x7b \"timestamp\":5,\"signature\":\"00\",\"tag\":\"pump\"\x7d"

/-- **The command and its respelling are both passed on**: they have the same signing bytes. -/
theorem respelled_command_passes : ∃ s, Run (step plainPlatform plainTransport) (fun _ _ => True) {}
        [.deliver 5000000 startPayload, .deliver 5000000 respelledPayload] s ∧
      s.passed = [startPayload, respelledPayload] ∧ s.seen.length < maxSize ∧
      hasTimestamp plainPlatform startPayload = true ∧
      hasTimestamp plainPlatform respelledPayload = true ∧
      commandSigningBytes startPayload = commandSigningBytes respelledPayload :=
  ⟨_, .cons trivial rfl (.cons trivial rfl (.nil _)), by decide +kernel, by decide +kernel,
    by decide +kernel, by decide +kernel, by decide +kernel⟩

/-- The same message comes again after its entry has been evicted, and is passed on once. -/
theorem passed_at_most_once_start : ∃ s : State, s.passed = [startPayload] ∧
      ((s.passed.filter (hasTimestamp plainPlatform)).map commandSigningBytes).Nodup := by
  have hrun : ∃ s, Run (step plainPlatform plainTransport) (Allowed plainPlatform plainTransport) {}
      [.deliver 5000000 startPayload, .evict 3000000000, .deliver 3000000000 startPayload] s ∧
        s.passed = [startPayload] := by
    have hts : extractCommandTimestamp plainPlatform startPayload = some 5 := by decide +kernel
    have hpassed : (handleCommandMessage plainPlatform plainTransport 5000000 startPayload {}).passed =
        [startPayload] := by decide +kernel
    refine ⟨_, .cons ⟨?_, ?_, ?_, ?_⟩ rfl (.cons ⟨?_, ?_, fun q hq ts hq' => ?_⟩ rfl
      (.cons ⟨?_, ?_, ?_, fun _ q hq _ _ => ?_⟩ rfl (.nil _))), ?_⟩
    case refine_7 =>
      dsimp only at hq
      rw [hpassed, mem_singleton] at hq
      subst hq
      obtain rfl : 5 = ts := by simpa [hts] using hq'
      decide
    case refine_11 =>
      dsimp only at hq
      rwa [hpassed, mem_singleton] at hq
    all_goals decide +kernel
  obtain ⟨s, hrun, hpassed⟩ := hrun
  exact ⟨s, hpassed, passed_at_most_once (by decide) (by decide) (by decide) hrun⟩

end CoreC.Mqtt.Replay
