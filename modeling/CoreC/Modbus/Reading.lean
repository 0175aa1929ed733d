import CoreC.DriverBase.Connection
import CoreC.DriverBase.LocalErrors
import CoreC.Modbus.Merge

/-! # A read on a connection

`Read` (`driver/modbus/modbus_read.go`) with its two loops of retries: the ranges first (`performBatchReads`), then the
tags that no range has brought, one by one. A request may fail, the context may be cancelled in a wait, and other
goroutines may tear down or replace the connection: all of this is in `Env`, by the number of the event. What the calls
of a read share is the `Session`. -/

namespace CoreC.Modbus.Reading

open Core.Types DriverBase.Connection DriverBase.LocalErrors Modbus.Driver List Option
open Modbus.Merge (batchQuantity_register exists_extract readTag_register)
open Modbus.RoundTrip (amd64 pumpDriver lookup_speed)

/-! ### The connection -/

/-- `state` and `client` of the driver. -/
structure Conn where
  state : ConnState
  client : Option Client
  deriving DecidableEq, Repr

/-- An answer, and the memory it shows. -/
structure Response where
  area : Area
  start : ℕ
  qty : ℕ
  memory : Memory

/-- What a read meets, by the number of the event: the answer to a request, the end of a wait (cancelled with an
error, or elapsed), and what other goroutines have done to the connection before the read looks at it. -/
structure Env where
  answer : ℕ → Client → Except String Memory
  wait : ℕ → Option String := fun _ => none
  others : ℕ → Conn → Conn := fun _ conn => conn

/-- The connection, the number of the next event, and the responses so far. -/
structure Session where
  conn : Conn
  clock : ℕ := 0
  received : List Response := []

def Session.tick (s : Session) : Session := { s with clock := s.clock + 1 }

section

variable (env : Env)

/-- Others have changed the connection. -/
def look (s : Session) : Session := { s with conn := env.others s.clock s.conn, clock := s.clock + 1 }

/-- `HandleConnectionLost`; the loop that it starts is one of the other goroutines. -/
def handleConnectionLost (s : Session) : Session :=
  let s := look env s
  if s.conn.state = .connecting ∨ s.conn.state = .error then s else { s with conn := ⟨.error, none⟩ }

def handleConnLostIfCurrent (captured : Option Client) (s : Session) : Session :=
  let s := look env s
  if s.conn.client = captured then handleConnectionLost env s else s

/-! ### Requests -/

def request (c : Client) (area : Area) (start qty : ℕ) (s : Session) : Except String Memory × Session :=
  match env.answer s.clock c with
  | .error e => (.error e, s.tick)
  | .ok m => (.ok m, { s.tick with received := ⟨area, start, qty, m⟩ :: s.received })

variable (p : Platform)

/-- `readBatch`; `none` if an index is out of range. -/
def readRange (b : ReadBatch) (client : Option Client) (s : Session) :
    Option (Except String (List (ℕ × GoValue)) × Session) :=
  match client with
  | none => some (.error errModbusNotConnected, s)
  | some c =>
    match request env c b.area b.start b.qty s with
    | (.error e, s) => some (.error ("batch read " ++ areaName b.area ++ ": " ++ e), s)
    | (.ok m, s) => (readBatch p m b).map fun values => (.ok values, s)

variable (r : BatchTagReq)

/-- The errors of `readTag` before a request. -/
def localError : Option String :=
  if r.ai.area.isBit ∧ r.dt ≠ .bool then some (bitAreaError r.name r.dt r.ai.area)
  else if batchQuantity r.ai r.dt = none then some ("unsupported data type: " ++ r.dt.name)
  else none

/-- What `readTag` puts before the error of a request. -/
def requestText : String :=
  if r.dt = .bool then
    match r.ai.area with
    | .coil => "read coil: "
    | .discreteInput => "read discrete input: "
    | _ => "read bool register: "
  else "read " ++ r.dt.name ++ ": "

/-- `readTag`. -/
def readOne (client : Option Client) (s : Session) : Except String GoValue × Session :=
  match client with
  | none => (.error errModbusNotConnected, s)
  | some c =>
    match localError r with
    | some e => (.error e, s)
    | none =>
      match request env c r.ai.area r.ai.addr ((batchQuantity r.ai r.dt).getD 0) s with
      | (.error e, s) => (.error (requestText r ++ e), s)
      | (.ok m, s) => (readTag p m r.ai r.dt r.name, s)

/-! ### Retries -/

/-- The end of the wait before a retry. -/
def waitForRetry (s : Session) : Wait × Session :=
  match env.wait s.clock with
  | some err => (.cancelled err, s.tick)
  | none => (.elapsed (look env s.tick).conn.client, look env s.tick)

def attempts (d : ModbusBase) : ℕ := (d.maxRetry + 1).toNat

def readBatchWithRetry (d : ModbusBase) (b : ReadBatch) :
    Option Client → Session → Option (Ended (List (ℕ × GoValue)) × Option Client × Session) :=
  retryLoop [] (readRange env p b) (waitForRetry env) (fun _ s => s) (attempts d)

def readTagWithRetry (d : ModbusBase) (r : BatchTagReq) :
    Option Client → Session → Option (Ended GoValue × Option Client × Session) :=
  retryLoop .nil (fun client s => some (readOne env p r client s)) (waitForRetry env) (handleConnLostIfCurrent env)
    (attempts d)

/-! ### The read -/

/-- The loop of `performBatchReads` over the ranges, with the values so far, the newest first. -/
def readRanges (d : ModbusBase) : List ReadBatch → List (ℕ × GoValue) → Option Client → Session →
    Option (List (ℕ × GoValue) × Option Client × Session)
  | [], values, client, s => some (values, client, s)
  | b :: bs, values, client, s =>
    (readBatchWithRetry env p d b client s).bind fun (ended, client, s) =>
      match ended with
      | .value vs => readRanges d bs (vs ++ values) client s
      | .failed _ | .cancelled _ => if client = none then some (values, client, s) else readRanges d bs values client s

def ranges (areas : List Area) (reqs : List (Option BatchTagReq)) : List ReadBatch :=
  areas.flatMap fun area => mergeBatches area modbusMaxBatchSize (batchable area reqs)

def goodResult (name : String) (r : BatchTagReq) (v : GoValue) : TagResult :=
  .good name (applyTransform p v r.cfg.scale r.cfg.offset) r.dt

/-- The loop of `Read` that assembles the results. -/
def assemble (d : ModbusBase) (values : List (ℕ × GoValue)) : List (String × Option BatchTagReq) → List TagResult →
    Option Client → Session → Option (Except String (List TagResult) × Session)
  | [], results, _, s => some (.ok results, s)
  | (name, none) :: rest, results, client, s =>
    assemble d values rest (results ++ [.bad name ("tag not found: " ++ name)]) client s
  | (name, some r) :: rest, results, client, s =>
    match values.lookup r.index with
    | some v => assemble d values rest (results ++ [goodResult p name r v]) client s
    | none =>
      (readTagWithRetry env p d r client s).bind fun (ended, client, s) =>
        match ended with
        | .cancelled err => some (.error err, s)
        | .failed e =>
          assemble d values rest (results ++ [.bad name e]) client
            (if isConnectionError e then handleConnLostIfCurrent env client s else s)
        | .value v => assemble d values rest (results ++ [goodResult p name r v]) client s

/-- `ConnState.String`. -/
def stateName : ConnState → String
  | .disconnected => "disconnected"
  | .connecting => "connecting"
  | .connected => "connected"
  | .error => "error"

/-- `Read` of the driver with the name; `none` if it panics. -/
def read (name : String) (d : ModbusBase) (areas : List Area) (names : List String) (s : Session) :
    Option (Except String (List TagResult) × Session) :=
  let s := look env s
  if s.conn.state ≠ .connected ∨ s.conn.client = none then
    some (.error ("driver " ++ name ++ " is not connected (state: " ++ stateName s.conn.state ++ ")"), s)
  else
    let reqs := resolve d names
    (readRanges env p d (ranges areas reqs) [] s.conn.client s).bind fun (values, client, s) =>
      assemble env p d values (names.zip reqs) [] client s

end

/-! ### The requested tags -/

def resolveOne (d : ModbusBase) (name : String) (i : ℕ) : Option BatchTagReq :=
  (d.tags.lookup name).map fun (cfg, ai) =>
    ⟨i, name, cfg, ai, (parseDataType cfg.type).getD .bool, batchQuantity ai ((parseDataType cfg.type).getD .bool)⟩

theorem zip_resolve (d : ModbusBase) (names : List String) :
    names.zip (resolve d names) = names.zipIdx.map fun (name, i) => (name, resolveOne d name i) := by
  have hzip : (names.zipIdx.map Prod.fst).zip (names.zipIdx.map fun (name, i) => resolveOne d name i) =
      names.zipIdx.map fun (name, i) => (name, resolveOne d name i) := zip_map'
  rwa [zipIdx_map_fst] at hzip

theorem mem_zip_resolve {d : ModbusBase} {names : List String} {name : String} {req : Option BatchTagReq} :
    (name, req) ∈ names.zip (resolve d names) ↔ ∃ i, names[i]? = some name ∧ req = resolveOne d name i := by
  rw [zip_resolve, List.mem_map]
  constructor
  · rintro ⟨⟨name', i⟩, hmem, heq⟩
    obtain ⟨rfl, rfl⟩ := Prod.mk.inj heq
    exact ⟨i, mk_mem_zipIdx_iff_getElem?.mp hmem, rfl⟩
  · rintro ⟨i, hi, rfl⟩
    exact ⟨(name, i), mk_mem_zipIdx_iff_getElem?.mpr hi, rfl⟩

/-! ### A dead connection -/

theorem isConnectionError_append {e : String} (h : isConnectionError e = true) (text : String) :
    isConnectionError (text ++ e) = true := by
  rw [isConnectionError_iff] at h ⊢
  obtain ⟨kw, hkw, hinfix⟩ := h
  rw [String.toList_append]
  exact ⟨kw, hkw, hinfix.trans (suffix_append _ _).isInfix⟩

theorem isConnectionError_notConnected : isConnectionError errModbusNotConnected = true := by decide +kernel

/-- Others only take the connection away. -/
def NoReconnect (env : Env) : Prop := ∀ n conn,
  ((env.others n conn).client = conn.client ∨ (env.others n conn).client = none) ∧
    ((env.others n conn).state = .connected → conn.state = .connected)

/-- Every request on the client fails with a connection error. -/
def Dead (env : Env) (c : Client) : Prop := ∀ n, ∃ e, env.answer n c = .error e ∧ isConnectionError e = true

/-- The driver is not connected with the client. -/
def Down (c : Client) (s : Session) : Prop := ¬ (s.conn.state = .connected ∧ s.conn.client = some c)

/-- What the read holds: the client, or none if the driver has none. The driver has no other client. -/
structure Held (c : Client) (client : Option Client) (s : Session) : Prop where
  driver : s.conn.client = some c ∨ s.conn.client = none
  own : client = some c ∨ client = none ∧ s.conn.client = none

section

variable {env : Env} {c : Client} {client : Option Client} {s s' : Session}

theorem down_of_none (h : s.conn.client = none) : Down c s := fun hup => nomatch h.symm.trans hup.2

theorem look_client (hkept : NoReconnect env) (s : Session) :
    (look env s).conn.client = s.conn.client ∨ (look env s).conn.client = none := (hkept s.clock s.conn).1

theorem Down.look (h : Down c s) (hkept : NoReconnect env) : Down c (look env s) := by
  rintro ⟨hstate, hclient⟩
  rcases look_client hkept s with heq | heq
  · exact h ⟨(hkept s.clock s.conn).2 hstate, heq ▸ hclient⟩
  · exact nomatch heq.symm.trans hclient

theorem Down.handleConnectionLost (h : Down c s) (hkept : NoReconnect env) : Down c (handleConnectionLost env s) := by
  unfold Reading.handleConnectionLost
  dsimp only
  split_ifs
  · exact h.look hkept
  · exact down_of_none rfl

theorem Down.handleConnLostIfCurrent (h : Down c s) (hkept : NoReconnect env) (captured : Option Client) :
    Down c (handleConnLostIfCurrent env captured s) := by
  unfold Reading.handleConnLostIfCurrent
  dsimp only
  split_ifs
  · exact (h.look hkept).handleConnectionLost hkept
  · exact h.look hkept

theorem Held.look (h : Held c client s) (hkept : NoReconnect env) : Held c client (look env s) := by
  have hclient := look_client hkept s
  refine ⟨?_, h.own.imp id fun ⟨hnone, hdriver⟩ => ⟨hnone, ?_⟩⟩
  · rcases hclient with heq | heq
    · exact heq ▸ h.driver
    · exact .inr heq
  · rcases hclient with heq | heq
    · exact heq.trans hdriver
    · exact heq

theorem Held.refresh (h : Held c client s) (hkept : NoReconnect env) :
    Held c (Reading.look env s).conn.client (Reading.look env s) := by
  have hdriver := (h.look hkept).driver
  exact ⟨hdriver, hdriver.imp id fun hnone => ⟨hnone, hnone⟩⟩

/-- **The teardown**: a read that reports the error on what it holds leaves the driver without the client. -/
theorem Held.teardown (h : Held c client s) (hkept : NoReconnect env) :
    Held c client (handleConnLostIfCurrent env client s) ∧ Down c (handleConnLostIfCurrent env client s) := by
  have h₁ := h.look hkept
  have h₂ := h₁.look hkept
  have hlost : Held c client (handleConnectionLost env (Reading.look env s)) ∧
      Down c (handleConnectionLost env (Reading.look env s)) := by
    unfold Reading.handleConnectionLost
    dsimp only
    split_ifs with hstate
    · refine ⟨h₂, fun hup => ?_⟩
      rw [hup.1] at hstate
      rcases hstate with hstate | hstate <;> cases hstate
    · exact ⟨⟨.inr rfl, h.own.imp id fun hnone => ⟨hnone.1, rfl⟩⟩, down_of_none rfl⟩
  unfold Reading.handleConnLostIfCurrent
  dsimp only
  split_ifs with hsame
  · exact hlost
  · refine ⟨h₁, fun hup => ?_⟩
    rcases h₁.own with hown | ⟨hown, hnone⟩
    · exact hsame (hup.2.trans hown.symm)
    · exact nomatch hnone.symm.trans hup.2

end

/-! ### Attempts on a dead connection -/

section

variable {env : Env} {p : Platform} {d : ModbusBase} {c : Client} {client : Option Client} {s : Session}

theorem request_dead (hdead : Dead env c) (area : Area) (start qty : ℕ) (s : Session) :
    ∃ e, request env c area start qty s = (.error e, s.tick) ∧ isConnectionError e = true := by
  obtain ⟨e, hanswer, hconn⟩ := hdead s.clock
  exact ⟨e, by rw [request, hanswer], hconn⟩

theorem readRange_dead (hdead : Dead env c) (h : Held c client s) (b : ReadBatch) :
    ∃ e s', readRange env p b client s = some (.error e, s') ∧ s'.conn = s.conn := by
  rcases h.own with rfl | ⟨rfl, -⟩
  · obtain ⟨e, hrequest, -⟩ := request_dead hdead b.area b.start b.qty s
    exact ⟨"batch read " ++ areaName b.area ++ ": " ++ e, s.tick, by simp only [readRange, hrequest], rfl⟩
  · exact ⟨_, s, rfl, rfl⟩

theorem readOne_dead (hdead : Dead env c) (h : Held c client s) (r : BatchTagReq) :
    ∃ e s', readOne env p r client s = (.error e, s') ∧ s'.conn = s.conn ∧
      (localError r = none → isConnectionError e = true) := by
  rcases h.own with rfl | ⟨rfl, -⟩
  · cases hlocal : localError r with
    | some e => exact ⟨e, s, by simp only [readOne, hlocal], rfl, nofun⟩
    | none =>
      obtain ⟨e, hrequest, hconn⟩ := request_dead hdead r.ai.area r.ai.addr ((batchQuantity r.ai r.dt).getD 0) s
      exact ⟨requestText r ++ e, s.tick, by simp only [readOne, hlocal, hrequest], rfl,
        fun _ => isConnectionError_append hconn _⟩
  · exact ⟨_, s, rfl, rfl, fun _ => isConnectionError_notConnected⟩

theorem Held.of_conn_eq {s' : Session} (h : Held c client s) (heq : s'.conn = s.conn) : Held c client s' :=
  ⟨heq ▸ h.driver, heq ▸ h.own⟩

theorem Down.of_conn_eq {s' : Session} (h : Down c s) (heq : s'.conn = s.conn) : Down c s' := by
  unfold Down
  rwa [heq]

/-- **A loop of which every attempt fails.** It ends with the error of an attempt, or it is cancelled; what the read
holds stays what it was. -/
theorem retryLoop_dead {α : Type} {zero : α} {attempt : Option Client → Session → Option (Except String α × Session)}
    {onCancel : Option Client → Session → Session} {E : String → Prop} {C : Session → Prop} (hkept : NoReconnect env)
    (hattempt : ∀ {client s}, Held c client s → ∃ e s', attempt client s = some (.error e, s') ∧ s'.conn = s.conn ∧ E e)
    (hcancel : ∀ {client s}, Held c client s → Held c client (onCancel client s) ∧ C (onCancel client s) ∧
      (Down c s → Down c (onCancel client s))) :
    ∀ {left : ℕ} {client : Option Client} {s : Session}, left ≠ 0 → Held c client s →
      ∃ ended client' s', retryLoop zero attempt (waitForRetry env) onCancel left client s = some (ended, client', s') ∧
        Held c client' s' ∧ (Down c s → Down c s') ∧
        ((∃ e, ended = .failed e ∧ E e) ∨ ∃ err, ended = .cancelled err ∧ C s')
  | 0, _, _, hleft, _ => absurd rfl hleft
  | left + 1, client, s, _, h => by
    obtain ⟨e, s', hfail, heq, hE⟩ := hattempt h
    have h' : Held c client s'.tick := h.of_conn_eq heq
    have hdown' : Down c s → Down c s'.tick := fun hdown => hdown.of_conn_eq heq
    rw [retryLoop, hfail, bind_some]
    by_cases hagain : 0 < left ∧ isConnectionError e = true
    · simp only [if_pos hagain, waitForRetry]
      cases hwait : env.wait s'.clock with
      | some err =>
        obtain ⟨hheld, hC, hkeep⟩ := hcancel h'
        exact ⟨_, _, _, rfl, hheld, fun hdown => hkeep (hdown' hdown), .inr ⟨err, rfl, hC⟩⟩
      | none =>
        have hrefresh := h'.refresh hkept
        cases hclient : (look env s'.tick).conn.client with
        | none =>
          rw [hclient] at hrefresh
          exact ⟨.failed e, none, look env s'.tick, rfl, hrefresh, fun hdown => (hdown' hdown).look hkept,
            .inl ⟨e, rfl, hE⟩⟩
        | some c' =>
          rw [hclient] at hrefresh
          obtain ⟨ended, client', s'', hrun, hheld, hkeep, hend⟩ := retryLoop_dead hkept hattempt hcancel hagain.1.ne'
            hrefresh
          exact ⟨ended, client', s'', hrun, hheld, fun hdown => hkeep ((hdown' hdown).look hkept), hend⟩
    · simp only [if_neg hagain]
      exact ⟨_, _, _, rfl, h.of_conn_eq heq, fun hdown => hdown.of_conn_eq heq, .inl ⟨e, rfl, hE⟩⟩

variable (hretry : 0 ≤ d.maxRetry)
include hretry

theorem attempts_of_nonneg : attempts d = d.maxRetry.toNat + 1 := by
  unfold attempts
  omega

theorem attempts_ne_zero : attempts d ≠ 0 := by
  rw [attempts_of_nonneg hretry]
  exact Nat.succ_ne_zero _

variable (hkept : NoReconnect env) (hdead : Dead env c)
include hkept hdead

theorem readBatchWithRetry_dead
    (h : Held c client s) (b : ReadBatch) : ∃ ended client' s',
      readBatchWithRetry env p d b client s = some (ended, client', s') ∧ Held c client' s' ∧ ∀ v, ended ≠ .value v := by
  obtain ⟨ended, client', s', hrun, hheld, -, hend⟩ := retryLoop_dead (E := fun _ => True) (C := fun _ => True) hkept
    (fun h => (readRange_dead hdead h b).imp fun e he => he.imp fun s' hs' => ⟨hs'.1, hs'.2, trivial⟩)
    (fun h => ⟨h, trivial, id⟩) (attempts_ne_zero hretry) h
  refine ⟨ended, client', s', hrun, hheld, fun v => ?_⟩
  rcases hend with ⟨e, rfl, -⟩ | ⟨err, rfl, -⟩ <;> nofun

theorem readTagWithRetry_dead
    (h : Held c client s) (r : BatchTagReq) : ∃ ended client' s',
      readTagWithRetry env p d r client s = some (ended, client', s') ∧ Held c client' s' ∧ (Down c s → Down c s') ∧
        ((∃ e, ended = .failed e ∧ (localError r = none → isConnectionError e = true)) ∨
          ∃ err, ended = .cancelled err ∧ Down c s') := by
  refine retryLoop_dead hkept (fun h => ?_) (fun h => ?_) (attempts_ne_zero hretry) h
  · obtain ⟨e, s', hone, heq, hconn⟩ := readOne_dead hdead h r
    exact ⟨e, s', congrArg some hone, heq, hconn⟩
  · obtain ⟨hheld, hdown⟩ := h.teardown hkept
    exact ⟨hheld, hdown, fun hdown => hdown.handleConnLostIfCurrent hkept _⟩

theorem readRanges_dead :
    ∀ bs {client : Option Client} {s : Session}, Held c client s →
      ∃ client' s', readRanges env p d bs [] client s = some ([], client', s') ∧ Held c client' s'
  | [], client, s, h => ⟨client, s, rfl, h⟩
  | b :: bs, client, s, h => by
    obtain ⟨ended, client', s', hrun, hheld, hend⟩ := readBatchWithRetry_dead hretry hkept hdead h b
    obtain ⟨client'', s'', hrest, hheld'⟩ := readRanges_dead bs hheld
    rw [readRanges, hrun, bind_some]
    cases ended with
    | value v => exact absurd rfl (hend v)
    | failed | cancelled =>
      dsimp only
      split_ifs
      · exact ⟨client', s', rfl, hheld⟩
      · exact ⟨client'', s'', hrest, hheld'⟩

theorem assemble_dead :
    ∀ rest results {client : Option Client} {s : Session},
      Held c client s → (Down c s ∨ ∃ r, (∃ name, (name, some r) ∈ rest) ∧ localError r = none) →
      ∃ out s', assemble env p d [] rest results client s = some (out, s') ∧ Down c s'
  | [], results, client, s, _, hor => by
    refine ⟨_, s, rfl, hor.resolve_right ?_⟩
    rintro ⟨r, ⟨name, hmem⟩, -⟩
    cases hmem
  | (name, none) :: rest, results, client, s, h, hor => by
    rw [assemble]
    refine assemble_dead rest _ h (hor.imp id ?_)
    rintro ⟨r, ⟨name', hmem⟩, hlocal⟩
    refine ⟨r, ⟨name', (mem_cons.mp hmem).resolve_left ?_⟩, hlocal⟩
    nofun
  | (name, some r) :: rest, results, client, s, h, hor => by
    obtain ⟨ended, client', s', hrun, hheld, hkeep, hend⟩ := readTagWithRetry_dead (p := p) hretry hkept hdead h r
    rw [assemble, lookup_nil]
    simp only [hrun, bind_some]
    rcases hend with ⟨e, rfl, hconn⟩ | ⟨err, rfl, hdown⟩
    · obtain ⟨hheld', hdown'⟩ := hheld.teardown hkept
      dsimp only
      by_cases he : isConnectionError e = true
      · rw [if_pos he]
        exact assemble_dead rest _ hheld' (.inl hdown')
      · rw [if_neg he]
        refine assemble_dead rest _ hheld (hor.imp hkeep ?_)
        rintro ⟨r', ⟨name', hmem⟩, hlocal⟩
        rcases mem_cons.mp hmem with heq | hmem
        · obtain ⟨-, heq⟩ := Prod.mk.inj heq
          obtain rfl := some.inj heq
          exact absurd (hconn hlocal) he
        · exact ⟨r', ⟨name', hmem⟩, hlocal⟩
    · exact ⟨_, s', rfl, hdown⟩

end

theorem localError_eq_none_iff {r : BatchTagReq} : localError r = none ↔ (batchQuantity r.ai r.dt).isSome = true := by
  unfold localError batchQuantity
  by_cases hbit : r.ai.area.isBit = true
  · by_cases hdt : r.dt = .bool <;> simp [hbit, hdt]
  · simp only [hbit, Bool.false_eq_true]
    cases r.dt <;> simp

theorem readTag_of_localError {p : Platform} {m : Memory} {r : BatchTagReq} {e : String} (h : localError r = some e) :
    readTag p m r.ai r.dt r.name = .error e := by
  unfold localError at h
  unfold readTag
  by_cases hbit : r.ai.area.isBit = true
  · by_cases hdt : r.dt = .bool
    · simp [hdt, batchQuantity] at h
    · simp only [hbit, hdt, ne_eq, not_false_eq_true, and_self, if_true, some.injEq] at h
      rw [if_pos hbit, if_neg hdt, h]
  · simp only [hbit, Bool.false_eq_true, false_and, if_false] at h
    split_ifs at h with hnone
    rw [if_neg hbit, hnone]
    exact congrArg Except.error (some.inj h)

theorem readTag_of_no_localError (p : Platform) (m : Memory) {r : BatchTagReq} (h : localError r = none) :
    ∃ v, readTag p m r.ai r.dt r.name = .ok v := by
  obtain ⟨n, hn⟩ := isSome_iff_exists.mp (localError_eq_none_iff.mp h)
  cases hbit : r.ai.area.isBit with
  | true =>
    have hdt : r.dt = .bool := by
      by_contra hdt
      simp [batchQuantity, hbit, hdt] at hn
    exact ⟨_, by rw [readTag, if_pos hbit, if_pos hdt]⟩
  | false =>
    obtain ⟨rfl, hpos⟩ := (batchQuantity_register hbit).mp hn
    obtain ⟨v, hv⟩ := exists_extract p hpos fun i => m.register r.ai.area (r.ai.addr + i)
    exact ⟨v, readTag_register p m hbit hpos r.name hv⟩

/-- **A dead connection is given up**: if all requests fail with connection errors, one is needed and nobody connects
meanwhile, the driver is not connected with the client of the read when it returns. -/
theorem connection_given_up (env : Env) (p : Platform) (name : String) (d : ModbusBase) (areas : List Area)
    (names : List String) (s : Session) (c : Client) (hretry : 0 ≤ d.maxRetry)
    (htag : ∃ tag ∈ names, ∃ cfg ai, d.tags.lookup tag = some (cfg, ai) ∧
      (batchQuantity ai ((parseDataType cfg.type).getD .bool)).isSome = true)
    (hcaptured : (look env s).conn.client = some c) (hdead : Dead env c) (hkept : NoReconnect env) :
    ∃ out s', read env p name d areas names s = some (out, s') ∧
      ¬ (s'.conn.state = .connected ∧ s'.conn.client = some c) := by
  unfold read
  by_cases hup : (look env s).conn.state ≠ .connected ∨ (look env s).conn.client = none
  · refine ⟨_, look env s, if_pos hup, fun ⟨hstate, hclient⟩ => ?_⟩
    rcases hup with hup | hup
    · exact hup hstate
    · exact nomatch hup.symm.trans hclient
  · have hheld : Held c (look env s).conn.client (look env s) := ⟨.inl hcaptured, .inl hcaptured⟩
    obtain ⟨client', s', hranges, hheld'⟩ := readRanges_dead (p := p) hretry hkept hdead (ranges areas (resolve d names))
      hheld
    simp only [if_neg hup, hranges]
    refine assemble_dead hretry hkept hdead _ _ hheld' (.inr ?_)
    obtain ⟨tag, hmem, cfg, ai, hlook, hsome⟩ := htag
    obtain ⟨i, hi⟩ := mem_iff_getElem?.mp hmem
    obtain ⟨r, hr⟩ : ∃ r, resolveOne d tag i = some r ∧ r.ai = ai ∧ r.dt = (parseDataType cfg.type).getD .bool :=
      ⟨_, by rw [resolveOne, hlook, map_some], rfl, rfl⟩
    refine ⟨r, ⟨tag, mem_zip_resolve.mpr ⟨i, hi, hr.1.symm⟩⟩, localError_eq_none_iff.mpr ?_⟩
    rwa [hr.2.1, hr.2.2]

/-- A driver that has lost its device, and a read of its tag. -/
theorem pump_given_up : ∃ out s', read ⟨fun _ _ => .error "EOF", fun _ => none, fun _ conn => conn⟩ amd64 "pump"
      pumpDriver [.holdingRegister] ["speed"] ⟨⟨.connected, some 7⟩, 0, []⟩ = some (out, s') ∧
    ¬ (s'.conn.state = .connected ∧ s'.conn.client = some 7) :=
  connection_given_up ⟨fun _ _ => .error "EOF", fun _ => none, fun _ conn => conn⟩ amd64 "pump" pumpDriver
    [.holdingRegister] ["speed"] ⟨⟨.connected, some 7⟩, 0, []⟩ 7 (by decide)
    ⟨"speed", mem_singleton.mpr rfl, _, _, lookup_speed, rfl⟩ rfl (fun _ => ⟨"EOF", rfl, by decide⟩)
    fun _ _ => ⟨.inl rfl, id⟩

end CoreC.Modbus.Reading
