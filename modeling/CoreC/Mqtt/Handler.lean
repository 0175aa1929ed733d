import CoreC.Mqtt.Signing

/-! # Command messages

`handleCommandMessage` (`transport/mqtt/command_handler.go`) and the `replayWindow` as a state machine: a message is
delivered, the eviction loop runs, the engine takes a command off the channel. With a secret, a message must carry the
HMAC of its signing bytes; if it has a timestamp, that must be fresh; and its SHA-256 must not be in the replay window.
What is then a command goes to the command channel, or to the dead letters if the channel is full. -/

namespace CoreC.Mqtt.Handler

open Core.Types Core.Json Lib.GoInt Mqtt.Signing
open Lib.Json.Lex Lib.Json.Parse Lib.Json.Struct

def truncate (q : ℚ) : ℤ := q.num.tdiv q.den

/-- What the handler takes from its platform: the two digests in hexadecimal, and the conversion from
float64 to int64, which Go defines for numbers in range only. -/
structure Platform where
  hmac : String → Bytes → String
  sha256 : Bytes → String
  toInt64 : ℚ → ℤ
  sha256_injective : Function.Injective sha256
  toInt64_inRange : ∀ q, IntType.int64.InRange (toInt64 q)
  toInt64_truncate : ∀ q, IntType.int64.InRange (truncate q) → toInt64 q = truncate q

/-- The settings of an `MQTTTransport` for commands; durations in nanoseconds. -/
structure MQTTTransport where
  commandSecret : String
  commandMaxSkew : ℤ
  commandStrictReplay : Bool := false
  bufferSize : ℕ := 100
  commandDeadLetterMax : ℕ := 1000

/-- The state of the transport. `clock`, the time of the last event, and `passed`, the payloads passed
on so far, are not in the program. -/
structure State where
  seen : List (String × ℤ) := []
  commandCh : List WriteCommand := []
  commandDeadLetter : List DeadLetterEntry := []
  droppedCommands : ℕ := 0
  clock : ℤ := 0
  passed : List Bytes := []

/-! ### Reading a payload -/

/-- The two fields of `extractCommandSignature`. -/
inductive SignatureField where
  | xSignature | signature

/-- The struct of `extractCommandSignature`: the `X-Signature` and the `signature`. -/
def signatureSchema : Schema (String × String) SignatureField where
  fields := [.xSignature, .signature]
  name
    | .xSignature => "X-Signature"
    | .signature => "signature"
  set
    | .xSignature => setString fun s sig => (s, sig.2)
    | .signature => setString fun s sig => (sig.1, s)

def extractCommandSignature (payload : Bytes) : String :=
  match (parse payload).bind fun t => signatureSchema.unmarshal t ("", "") with
  | none => ""
  | some sig => if sig.1 ≠ "" then sig.1 else sig.2

/-- The struct of `extractCommandTimestamp`. -/
def timestampSchema : Schema GoValue Unit where
  fields := [()]
  name _ := "timestamp"
  set _ t := (decodeAny t).map fun v _ => v

section

variable (p : Platform) (t : MQTTTransport)

/-- `extractCommandTimestamp`, in milliseconds. -/
def extractCommandTimestamp (payload : Bytes) : Option ℤ :=
  match (parse payload).bind fun d => timestampSchema.unmarshal d .nil with
  | some (.float64 q) => some (p.toInt64 q)
  | some (.int .int64 v) => some (IntType.int64.wrap v)
  | _ => none

def verifyHMACSignature (secret : String) (payload : Bytes) (provided : String) : Bool :=
  secret = "" || provided = p.hmac secret payload

/-! ### Time -/

def millisecond : ℤ := 1000000

variable (now : ℤ)

def unixMilli : ℤ := now / millisecond

def milliseconds (d : ℤ) : ℤ := d.tdiv millisecond

def isCommandTimestampFresh (now ts : ℤ) : Bool :=
  let skew := milliseconds t.commandMaxSkew
  if skew ≤ 0 then true
  else
    let diff := IntType.int64.wrap (unixMilli now - ts)
    (if diff < 0 then IntType.int64.wrap (-diff) else diff) ≤ skew

/-! ### The replay window -/

def maxSize : ℕ := 10000

def hasReplayCache : Bool := t.commandSecret ≠ "" ∧ 0 < t.commandMaxSkew

def ttl : ℤ := IntType.int64.wrap (2 * t.commandMaxSkew)

def oldest : List (String × ℤ) → Option (String × ℤ)
  | [] => none
  | x :: seen =>
    match oldest seen with
    | none => some x
    | some y => if y.2 < x.2 then some y else some x

/-- `checkAndAdd`; `none` for a replay. -/
def checkAndAdd (hash : String) (seen : List (String × ℤ)) : Option (List (String × ℤ)) :=
  if hash ∈ seen.map Prod.fst then none
  else
    let kept :=
      if seen.length < maxSize then seen
      else
        match oldest seen with
        | none => seen
        | some x => seen.filter fun y => y.1 ≠ x.1
    some (kept ++ [(hash, now)])

def evictExpired (seen : List (String × ℤ)) : List (String × ℤ) :=
  seen.filter fun x => now - x.2 ≤ ttl t

/-! ### The handler -/

def remember (payload : Bytes) (s : State) : Option State :=
  if hasReplayCache t then
    (checkAndAdd now (p.sha256 payload) s.seen).map fun seen => { s with seen := seen }
  else some s

/-- The authentication of `handleCommandMessage`; `none` if the message is dropped. -/
def authenticate (payload : Bytes) (s : State) : Option State :=
  if t.commandSecret = "" then some s
  else
    let provided := extractCommandSignature payload
    let verified := verifyHMACSignature p t.commandSecret (commandSigningBytes payload) provided
    match extractCommandTimestamp p payload with
    | none =>
      if !verified then none
      else if t.commandStrictReplay then none
      else remember p t now payload s
    | some ts =>
      if !verified then none
      else if !isCommandTimestampFresh t now ts then none
      else remember p t now payload s

def addCommandDeadLetter (entry : DeadLetterEntry) (s : State) : State :=
  let entries := s.commandDeadLetter ++ [entry]
  { s with commandDeadLetter := entries.drop (entries.length - t.commandDeadLetterMax) }

/-- The rest of `handleCommandMessage`: decode the command and pass it on. -/
def forward (payload : Bytes) (s : State) : State :=
  match decodeCommand payload with
  | none => s
  | some cmd =>
    let s := { s with passed := s.passed ++ [payload] }
    if s.commandCh.length < t.bufferSize then { s with commandCh := s.commandCh ++ [cmd] }
    else
      addCommandDeadLetter t { command := cmd, error := "command channel full at ingress", failedAt := now }
        { s with droppedCommands := s.droppedCommands + 1 }

def handleCommandMessage (payload : Bytes) (s : State) : State :=
  match authenticate p t now payload s with
  | none => s
  | some s' => forward t now payload s'

inductive Event where
  | deliver (now : ℤ) (payload : Bytes)
  | evict (now : ℤ)
  | receive

/-- One event; the eviction loop runs only if there is a window with a positive `ttl`. -/
def step (s : State) : Event → Option State
  | .deliver now payload => some { handleCommandMessage p t now payload s with clock := now }
  | .evict now =>
    if hasReplayCache t ∧ 0 < ttl t then
      some { s with seen := evictExpired t now s.seen, clock := now }
    else none
  | .receive => if s.commandCh = [] then none else some { s with commandCh := s.commandCh.tail }

end

/-! ### What one delivery does -/

section

variable {p : Platform} {t : MQTTTransport} {s s' : State} {now : ℤ} {payload : Bytes}

theorem checkAndAdd_eq_some {hash : String} {seen seen' : List (String × ℤ)}
    (hcap : seen.length < maxSize) : checkAndAdd now hash seen = some seen' ↔
      hash ∉ seen.map Prod.fst ∧ seen' = seen ++ [(hash, now)] := by
  unfold checkAndAdd
  split_ifs with h
  · simp [h]
  · simp only [h, not_false_eq_true, true_and, Option.some.injEq]
    exact eq_comm

/-- **An accepted message** was not in the replay window and now is; its timestamp, if any, is fresh. -/
theorem authenticate_eq_some (hcache : hasReplayCache t = true) (hcap : s.seen.length < maxSize)
    (h : authenticate p t now payload s = some s') :
    p.sha256 payload ∉ s.seen.map Prod.fst ∧ s' = { s with seen := s.seen ++ [(p.sha256 payload, now)] } ∧
      ∀ ts, extractCommandTimestamp p payload = some ts → isCommandTimestampFresh t now ts = true := by
  have hsecret : t.commandSecret ≠ "" := by
    simp only [hasReplayCache, decide_eq_true_eq] at hcache
    exact hcache.1
  have hremember : remember p t now payload s = some s' → p.sha256 payload ∉ s.seen.map Prod.fst ∧
        s' = { s with seen := s.seen ++ [(p.sha256 payload, now)] } := by
    intro hr
    rw [remember, if_pos hcache, Option.map_eq_some_iff] at hr
    obtain ⟨seen, hseen, rfl⟩ := hr
    obtain ⟨hnew, rfl⟩ := (checkAndAdd_eq_some hcap).mp hseen
    exact ⟨hnew, rfl⟩
  simp only [authenticate, if_neg hsecret] at h
  cases hts : extractCommandTimestamp p payload with
  | none =>
    simp only [hts] at h
    split_ifs at h
    obtain ⟨hnew, hs'⟩ := hremember h
    exact ⟨hnew, hs', fun ts hts => nomatch hts⟩
  | some ts =>
    simp only [hts] at h
    split_ifs at h with _ hfresh
    obtain ⟨hnew, hs'⟩ := hremember h
    refine ⟨hnew, hs', fun ts' hts' => ?_⟩
    cases hts'
    simpa using hfresh

theorem forward_seen (s : State) : (forward t now payload s).seen = s.seen := by
  unfold forward
  split
  · rfl
  · dsimp only
    split_ifs <;> rfl

theorem forward_passed (s : State) : (forward t now payload s).passed =
    s.passed ++ if (decodeCommand payload).isSome then [payload] else [] := by
  unfold forward
  cases decodeCommand payload with
  | none => simp
  | some cmd =>
    rw [Option.isSome_some, if_pos rfl]
    dsimp only
    split_ifs <;> rfl

/-- **One delivery** drops the message, or finds its hash new and keeps it. -/
theorem handle_cases (hcache : hasReplayCache t = true) (hcap : s.seen.length < maxSize)
    (hs' : handleCommandMessage p t now payload s = s') :
    (s'.seen = s.seen ∧ s'.passed = s.passed) ∨
      (p.sha256 payload ∉ s.seen.map Prod.fst ∧ s'.seen = s.seen ++ [(p.sha256 payload, now)] ∧
        (∀ ts, extractCommandTimestamp p payload = some ts → isCommandTimestampFresh t now ts = true) ∧
        (s'.passed = s.passed ∨ s'.passed = s.passed ++ [payload])) := by
  subst hs'
  unfold handleCommandMessage
  split
  · exact .inl ⟨rfl, rfl⟩
  · next s₁ hs₁ =>
    obtain ⟨hnew, rfl, hfresh⟩ := authenticate_eq_some hcache hcap hs₁
    refine .inr ⟨hnew, forward_seen _, hfresh, ?_⟩
    rw [forward_passed]
    split_ifs
    · exact .inr rfl
    · exact .inl (List.append_nil _)

end

end CoreC.Mqtt.Handler
