import CoreC.Engine.OfflineEntry
import CoreC.Engine.Retry

/-! # The HTTP transport

`HTTPTransport.PublishBatch` under the batcher: the points of a batch are encoded together, and sent with retries of
their own; the offline buffer, which gets what the transport does not take, encodes the batch together once more.

The client of the transport follows up to nine redirects of a request by itself. After 301, 302 and 303 the next request
has no body, so that a 2xx may be the answer to a request without the batch; after 307 and 308 it has the body once
more. -/

namespace CoreC.Transport.HttpPush

open Core.Types Engine Engine.Offline Engine.OfflineEntry Engine.Retry List
open Lib Lib.GoInt Lib.Json.Lex Lib.OptionList

/-- `json.Marshal` of a point; an entry of the offline buffer can be encoded exactly if its time has a text
and each of its points can be encoded. -/
structure PointCodec (α β : Type) extends EntryCodec α β where
  encode : α → Option Bytes
  hasText : ℤ → Bool
  marshal_isSome : ∀ e, (marshal e).isSome = (hasText e.time && e.points.all fun p => (encode p).isSome)

/-- The `Location` of an answer. -/
inductive Location where
  | missing
  | broken
  | url
  deriving DecidableEq, Repr

/-- What becomes of a request: how often it was sent (a connection that is broken may have it sent on another one, and
without a connection it is not sent), and the status, if there is an answer. -/
structure Exchange where
  copies : ℕ := 1
  status : Option ℕ
  location : Location := .missing
  deriving DecidableEq, Repr

/-- A request with the body it had. -/
structure Request extends Exchange where
  body : Option Bytes
  deriving DecidableEq, Repr

/-- A status of the 2xx. -/
def success (status : Option ℕ) : Bool := status.any fun code => 200 ≤ code ∧ code < 300

/-- The server has accepted the request. -/
def Request.accepted (q : Request) : Bool := success q.status

/-- The settings of the transport and its surroundings, in a state `δ`; the method and the URL make a request if they
are `valid`, and the time of the clock has a text. -/
structure Env (δ α β : Type) where
  codec : PointCodec α β
  name : String
  url : String
  valid : Bool
  retryCount : ℤ
  connected : δ → Bool
  exchange : Option Bytes → δ → Exchange × δ
  backoff : ℤ → δ → Bool × δ
  wait : ℤ → δ → Bool × δ
  now : δ → ℤ
  now_text : ∀ w, codec.hasText (now w) = true

/-- The surroundings, the requests that were made, and the offline buffer. -/
structure HttpState (δ α β : Type) where
  world : δ
  requests : List Request := []
  buffer : Buffer α β

section

variable {δ α β : Type} (env : Env δ α β)

/-- `json.Marshal` of the points. -/
def payload (points : List α) : Option Bytes :=
  (points.mapM env.codec.encode).map fun texts => 0x5b :: ((texts.intersperse [0x2c]).flatten ++ [0x5d])

/-- `redirectBehavior` of the client: whether an answer is a redirect, and whether the next request has the body. -/
def redirectBehavior (code : ℕ) : Option Bool :=
  if code = 301 ∨ code = 302 ∨ code = 303 then some false else if code = 307 ∨ code = 308 then some true else none

/-- `Client.Do`, with how many requests it may still make; the status of the answer that it returns, if it returns no
error. -/
def clientDo : ℕ → Option Bytes → HttpState δ α β → Option ℕ × HttpState δ α β
  | 0, _, s => (none, s)
  | left + 1, body, s =>
    let (exchange, world) := env.exchange body s.world
    let s := { s with world, requests := s.requests ++ [⟨exchange, body⟩] }
    match exchange.status.bind redirectBehavior with
    | none => (exchange.status, s)
    | some keeps =>
      match exchange.location with
      | .missing => (exchange.status, s)
      | .broken => (none, s)
      | .url => clientDo left (if keeps then body else none) s

/-- The loop of `PublishBatch`, with how many attempts are left and the next delay; the first attempt is made
at once, and without any there is no error to return. -/
def sendLoop (body : Bytes) : ℕ → Bool → ℤ → HttpState δ α β → Bool × HttpState δ α β
  | 0, first, _, s => (first, s)
  | left + 1, first, delay, s =>
    let (ended, world) := if first then (false, s.world) else env.backoff delay s.world
    let s := { s with world }
    if ended || !env.valid then (false, s)
    else
      let delay := if first then delay else IntType.int64.wrap (delay * 2)
      match clientDo env 10 (some body) s with
      | (none, s) => sendLoop body left false delay s
      | (some code, s) =>
        if 200 ≤ code ∧ code < 300 then (true, s)
        else if code < 500 ∨ 600 ≤ code then (false, s)
        else sendLoop body left false delay s

/-- `PublishBatch`; `true` if it returns no error. -/
def publishBatch (points : List α) (s : HttpState δ α β) : Bool × HttpState δ α β :=
  -- without a URL the transport only receives
  if env.url = "" then (true, s)
  else if !env.connected s.world then (false, s)
  else
    match payload env points with
    | none => (false, s)
    | some body => sendLoop env body (IntType.int64.wrap (max env.retryCount 0 + 1)).toNat true (500 * millisecond) s

/-- The batcher around the transport, with an offline buffer on a disk without errors. -/
def httpEnv : RetryEnv (HttpState δ α β) α where
  publishBatch := publishBatch env
  wait d s := ((env.wait d s.world).1, { s with world := (env.wait d s.world).2 })
  giveUp batch s := { s with
    buffer := push env.codec.toEntryCodec batch env.name (env.now s.world) {} s.buffer }

end

variable {δ α β : Type} {env : Env δ α β} {batch : List α} {s s' : HttpState δ α β}

/-- The requests that were accepted since `s`. -/
def newAccepted (s s' : HttpState δ α β) : List Request :=
  (s'.requests.filter (·.accepted)).drop (s.requests.filter (·.accepted)).length

/-- A request was accepted whose body is the text of a batch with the point. -/
def Sent (env : Env δ α β) (s s' : HttpState δ α β) (p : α) : Prop :=
  ∃ q ∈ newAccepted s s', ∃ points body, p ∈ points ∧ payload env points = some body ∧ q.body = some body

/-- A file of the buffer has the entry of a new push with the point. -/
def Stored (s s' : HttpState δ α β) (p : α) : Prop :=
  ∃ f ∈ s'.buffer.files, s.buffer.pushes.length ≤ f.id ∧ ∃ e, s'.buffer.pushes[f.id]? = some e ∧ p ∈ e.points

/-- What is added to the log: it ends with one accepted request, with the body or without, or there is none. -/
structure Logs (body : Option Bytes) (ok : Bool) (s s' : HttpState δ α β) : Prop where
  buffer : s'.buffer = s.buffer
  accepted : ∃ q : Request, (q.body = body ∨ q.body = none) ∧
    s'.requests.filter (·.accepted) = s.requests.filter (·.accepted) ++ if ok then [q] else []

theorem Logs.same {body : Option Bytes} (hbuffer : s'.buffer = s.buffer) (hrequests : s'.requests = s.requests) :
    Logs body false s s' :=
  ⟨hbuffer, ⟨{ status := none }, none⟩, .inr rfl, by simp [hrequests]⟩

theorem Logs.trans {body body' : Option Bytes} {ok : Bool} {t : HttpState δ α β} (h : Logs body false s t)
    (hbody : body' = body ∨ body' = none) (h' : Logs body' ok t s') : Logs body ok s s' := by
  obtain ⟨q, -, haccepted⟩ := h.accepted
  obtain ⟨q', hq', haccepted'⟩ := h'.accepted
  refine ⟨h'.buffer.trans h.buffer, q', ?_, ?_⟩
  · rcases hbody with rfl | rfl
    · exact hq'
    · exact .inr (hq'.elim id id)
  · rw [haccepted', haccepted]
    simp

/-- Nothing was accepted and nothing stored. -/
def Same (s s' : HttpState δ α β) : Prop :=
  s'.buffer = s.buffer ∧ s'.requests.filter (·.accepted) = s.requests.filter (·.accepted)

theorem Same.trans {t : HttpState δ α β} (h : Same s t) (h' : Same t s') : Same s s' :=
  ⟨h'.1.trans h.1, h'.2.trans h.2⟩

/-- A point of a float register: its value is a number, or a NaN or an infinity. -/
inductive Reading where
  | number (p : EnginePoint)
  | notFinite (p : EnginePoint)

/-- What `json.Marshal` accepts. -/
def Reading.finite? : Reading → Option EnginePoint
  | .number p => some p
  | .notFinite _ => none

/-- The encoding of such points. -/
def readingCodec (c : NumberCodec) : PointCodec Reading DataPoint where
  marshal e := (e.points.mapM Reading.finite?).bind fun ps =>
    marshalEntry c.toCodec ⟨e.seq, e.time, ps, e.source⟩
  unmarshal := unmarshalEntry c.toCodec
  source_kept e e' data h h' := by
    obtain ⟨ps, -, hdata⟩ := Option.bind_eq_some_iff.mp h
    exact source_unmarshalEntry hdata h'
  encode r := r.finite?.bind fun p => (marshalEnginePoint c.toCodec p).map Json.Parse.render
  hasText t := (c.formatTime t).isSome
  marshal_isSome e := by
    have hencode : (e.points.all fun r => (r.finite?.bind fun p =>
        (marshalEnginePoint c.toCodec p).map Json.Parse.render).isSome) =
          ((e.points.mapM Reading.finite?).bind fun ps => ps.mapM (marshalEnginePoint c.toCodec)).isSome := by
      have hone : ∀ r : Reading, (r.finite?.bind fun p =>
          (marshalEnginePoint c.toCodec p).map Json.Parse.render).isSome =
            (r.finite?.bind (marshalEnginePoint c.toCodec)).isSome := by
        intro r
        cases r.finite? with
        | none => rfl
        | some p => rw [Option.bind_some, Option.bind_some, Option.isSome_map]
      simp only [hone, mapM_bind_mapM, mapM_isSome]
    rw [hencode]
    cases hps : e.points.mapM Reading.finite? with
    | none => simp
    | some ps =>
      cases htime : c.formatTime e.time with
      | none => simp [marshalEntry, htime]
      | some time =>
        cases hdocs : ps.mapM (marshalEnginePoint c.toCodec) with
        | none | some => simp [marshalEntry, htime, hdocs]

/-- A server that accepts every request. -/
def acceptingEnv : Env Unit Reading DataPoint where
  codec := readingCodec zeroCodec
  name := "cloud"
  url := "https://cloud"
  valid := true
  retryCount := 0
  connected _ := true
  exchange _ w := ({ status := some 200 }, w)
  backoff _ w := (false, w)
  wait _ w := (false, w)
  now _ := 0
  now_text _ := rfl

/-- How many requests with a body were sent. -/
def carried (s : HttpState δ α β) : ℕ := ((s.requests.filter (·.body.isSome)).map (·.copies)).sum

/-- Every request is sent once at the most, and the server never asks for its body at another address. -/
def Single (env : Env δ α β) : Prop :=
  ∀ body w, (env.exchange body w).1.copies ≤ 1 ∧
    ((env.exchange body w).1.location = .url → (env.exchange body w).1.status.bind redirectBehavior ≠ some true)

theorem carried_concat (s : HttpState δ α β) (world : δ) (q : Request) :
    carried { s with world, requests := s.requests ++ [q] } = carried s + if q.body.isSome then q.copies else 0 := by
  simp only [carried, filter_append, filter_singleton, map_append, sum_append, Bool.cond_eq_ite]
  split_ifs <;> simp

theorem carried_clientDo_none (env : Env δ α β) : ∀ left s, carried (clientDo env left none s).2 = carried s
  | 0, s => rfl
  | left + 1, s => by
    rw [clientDo]
    dsimp only
    have hone := carried_concat s (env.exchange none s.world).2 ⟨(env.exchange none s.world).1, none⟩
    split
    · exact hone
    · split
      · exact hone
      · exact hone
      · rw [ite_self]
        exact (carried_clientDo_none env left _).trans hone

theorem carried_clientDo (hsingle : Single env) (left : ℕ) (body : Bytes) (s : HttpState δ α β) :
    carried (clientDo env left (some body) s).2 ≤ carried s + 1 := by
  cases left with
  | zero => exact Nat.le_succ _
  | succ left =>
    rw [clientDo]
    dsimp only
    obtain ⟨hcopies, hkeeps⟩ := hsingle (some body) s.world
    have hone : carried { s with
        world := (env.exchange (some body) s.world).2
        requests := s.requests ++ [⟨(env.exchange (some body) s.world).1, some body⟩] } ≤ carried s + 1 := by
      rw [carried_concat]
      exact Nat.add_le_add_left hcopies _
    split
    · exact hone
    · rename_i keeps hredirect
      split
      · exact hone
      · exact hone
      · rename_i hlocation
        cases keeps with
        | true => exact absurd hredirect (hkeeps hlocation)
        | false => exact (carried_clientDo_none env left _).trans_le hone

/-- Without retries `PublishBatch` sends one request with the batch, or none. -/
theorem carried_publishBatch (batch : List α) (hsingle : Single env) (hzero : env.retryCount = 0)
    (s : HttpState δ α β) :
    carried (publishBatch env batch s).2 ≤ carried s + 1 := by
  have hone : (IntType.int64.wrap (max env.retryCount 0 + 1)).toNat = 1 := by
    rw [hzero]
    decide
  unfold publishBatch
  rw [hone]
  split_ifs
  · exact Nat.le_succ _
  · exact Nat.le_succ _
  · split
    · exact Nat.le_succ _
    · rename_i body _
      have hdo := carried_clientDo hsingle 10 body s
      simp only [sendLoop, if_true, Bool.false_or]
      split_ifs
      · exact Nat.le_succ _
      · cases hres : clientDo env 10 (some body) s with
        | mk status s₁ =>
          rw [hres] at hdo
          cases status with
          | none => exact hdo
          | some code =>
            dsimp only
            split_ifs <;> exact hdo

/-- A server that always answers 503. -/
def busyEnv (retryCount : ℤ) : Env Unit Reading DataPoint :=
  { acceptingEnv with retryCount, exchange := fun _ w => ({ status := some 503 }, w) }

theorem single_busyEnv (r : ℤ) : Single (busyEnv r) := fun _ _ => ⟨le_rfl, nofun⟩

theorem carried_sendLoop_busy (r : ℤ) (body : Bytes) : ∀ left delay first s, left ≠ 0 ∨ first = false →
    (sendLoop (busyEnv r) body left first delay s).1 = false ∧
      carried (sendLoop (busyEnv r) body left first delay s).2 = carried s + left
  | 0, _, first, _, h => ⟨h.resolve_left fun h => h rfl, rfl⟩
  | left + 1, delay, first, s, _ => by
    have hback : (if first then (false, s.world) else (busyEnv r).backoff delay s.world) = (false, s.world) := by
      cases first <;> rfl
    have hdo : clientDo (busyEnv r) 10 (some body) s =
        (some 503, { s with requests := s.requests ++ [⟨{ status := some 503 }, some body⟩] }) := rfl
    obtain ⟨hfalse, hcarried⟩ := carried_sendLoop_busy r body left
      (if first then delay else IntType.int64.wrap (delay * 2)) false
      { s with requests := s.requests ++ [⟨{ status := some 503 }, some body⟩] } (.inr rfl)
    rw [sendLoop]
    simp only [hback, hdo, show (busyEnv r).valid = true from rfl, Bool.not_true, Bool.or_false, Bool.false_eq_true,
      if_false, show ¬ (200 ≤ 503 ∧ 503 < 300) by decide, show ¬ (503 < 500 ∨ 600 ≤ 503) by decide]
    refine ⟨hfalse, hcarried.trans ?_⟩
    rw [carried_concat s s.world]
    exact Nat.add_right_comm _ 1 left

/-- A batch of one point. -/
def onePoint : List Reading := [.number (powerPoint 10)]

theorem carried_retryLoop_busy {r : ℤ} {n : ℕ} (hn : (IntType.int64.wrap (max r 0 + 1)).toNat = n) (hpos : n ≠ 0)
    (left attempt : ℕ) (s : HttpState Unit Reading DataPoint) :
    carried (retryLoop (httpEnv (busyEnv r)) onePoint attempt left s).2 = carried s + left * n := by
  induction left generalizing attempt s with
  | zero => simp [retryLoop, httpEnv, carried]
  | succ left ih =>
    obtain ⟨body, hbody⟩ : ∃ body, payload (busyEnv r) onePoint = some body := ⟨_, rfl⟩
    obtain ⟨hfalse, hcarried⟩ := carried_sendLoop_busy r body n (500 * millisecond) true s (.inl hpos)
    have hpub : (httpEnv (busyEnv r)).publishBatch onePoint s =
        (false, (sendLoop (busyEnv r) body n true (500 * millisecond) s).2) := by
      refine Eq.trans ?_ (Prod.ext hfalse rfl)
      show publishBatch (busyEnv r) onePoint s = _
      unfold publishBatch
      rw [hbody, ← hn]
      rfl
    rw [retryLoop, hpub]
    dsimp only
    split_ifs with hleft
    · rw [hleft]
      simpa [httpEnv, carried] using hcarried
    · refine (ih (attempt + 1) _).trans ?_
      show carried (sendLoop (busyEnv r) body n true (500 * millisecond) s).2 + left * n = _
      rw [hcarried, Nat.succ_mul]
      omega

/-- The requests with the batch that a call sends. -/
def requests (env : Env δ α β) (batch : List α) (s : HttpState δ α β) : ℤ :=
  carried (publishWithRetryAndBuffer (httpEnv env) batch env.retryCount s).2 - carried s

/-- A server that sends every request on to another address, with its body. -/
def movingEnv : Env Unit Reading DataPoint :=
  { acceptingEnv with exchange := fun _ w => ({ status := some 307, location := .url }, w) }

/-- **When the retry count bounds the requests of a batch**: whatever a server answers that never asks for the body at
another address, without retries, or with so many that their number overflows; whatever any server answers, only if
nothing is sent. -/
theorem requests_bounded_iff (r : ℤ) (hr : 0 ≤ r) (hint : IntType.int64.InRange r) :
    ((∀ (δ α β : Type) (env : Env δ α β) (batch : List α) (s : HttpState δ α β),
      env.retryCount = r → Single env → requests env batch s ≤ r + 1) ↔ r = 0 ∨ r = 2 ^ 63 - 1) ∧
    ((∀ (δ α β : Type) (env : Env δ α β) (batch : List α) (s : HttpState δ α β),
      env.retryCount = r → requests env batch s ≤ r + 1) ↔ r = 2 ^ 63 - 1) := by
  rw [IntType.inRange_int64] at hint
  have hnone : r = 2 ^ 63 - 1 → ∀ (δ α β : Type) (env : Env δ α β) (batch : List α) (s : HttpState δ α β),
      env.retryCount = r → requests env batch s ≤ r + 1 := by
    rintro rfl δ α β env batch s hcount
    have hres : carried (publishWithRetryAndBuffer (httpEnv env) batch env.retryCount s).2 = carried s := by
      rw [publishWithRetryAndBuffer, hcount, show maxAttempts (2 ^ 63 - 1) = 0 by decide, retryLoop]
      rfl
    rw [requests, hres, sub_self]
    omega
  -- a server that is always busy is asked `(r + 1) * (r + 1)` times
  have hbusy : requests (busyEnv r) onePoint ⟨(), [], newBuffer Reading DataPoint 100⟩ ≤ r + 1 →
      r = 0 ∨ r = 2 ^ 63 - 1 := by
    intro hbound
    by_contra hnot
    have hmax : (IntType.int64.wrap (r + 1)).toNat = (r + 1).toNat := by
      rw [IntType.wrap_eq_self (IntType.inRange_int64.mpr (by omega))]
    rw [requests, publishWithRetryAndBuffer, carried_retryLoop_busy (n := (r + 1).toNat)
      (by rw [max_eq_left hr, hmax]) (by omega)] at hbound
    have hsquare : ((maxAttempts (busyEnv r).retryCount * (r + 1).toNat : ℕ) : ℤ) = (r + 1) * (r + 1) := by
      rw [show maxAttempts (busyEnv r).retryCount = (r + 1).toNat from hmax, Nat.cast_mul, Int.toNat_of_nonneg (by omega)]
    have hpos : 1 ≤ r := by omega
    rw [Nat.cast_add, hsquare, add_sub_cancel_left] at hbound
    nlinarith
  refine ⟨⟨fun h => hbusy (h _ _ _ _ _ _ rfl (single_busyEnv r)), ?_⟩, ⟨fun h => ?_, hnone⟩⟩
  · rintro (rfl | hover) δ α β env batch s hcount hsingle
    · have hone := carried_publishBatch batch hsingle hcount s
      have hres : carried (publishWithRetryAndBuffer (httpEnv env) batch env.retryCount s).2 =
          carried (publishBatch env batch s).2 := by
        rw [publishWithRetryAndBuffer, hcount, show maxAttempts 0 = 1 by decide, retryLoop,
          show (httpEnv env).publishBatch = publishBatch env from rfl]
        cases publishBatch env batch s with
        | mk ok s₁ => cases ok <;> rfl
      rw [requests, hres]
      omega
    · exact hnone hover δ α β env batch s hcount
  · refine (hbusy (h _ _ _ _ _ _ rfl)).resolve_left ?_
    rintro rfl
    exact absurd (h _ _ _ movingEnv onePoint ⟨(), [], newBuffer Reading DataPoint 100⟩ rfl) (by decide +kernel)

theorem requests_bounded_iff_none :
    Single (busyEnv 0) ∧ requests (busyEnv 0) onePoint ⟨(), [], newBuffer Reading DataPoint 100⟩ ≤ 0 + 1 :=
  ⟨single_busyEnv 0, (requests_bounded_iff 0 le_rfl (by decide)).1.mpr (.inl rfl) _ _ _ (busyEnv 0) onePoint _ rfl
    (single_busyEnv 0)⟩

/-- **One retry, four requests**: each of the two attempts of the batcher is two attempts of the transport. -/
theorem four_requests : requests (busyEnv 1) onePoint ⟨(), [], newBuffer Reading DataPoint 100⟩ = 4 := by
  rfl

end CoreC.Transport.HttpPush
