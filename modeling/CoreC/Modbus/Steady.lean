import CoreC.Modbus.Freshness

/-! # A read of a device that does not change

On a device that answers every request with the same memory, `Read` should report for every name what `readTag` gives
for that tag alone. The ranges do (`lookup_of_batchable`); what they leave are the tags of which `readTag` fails without
a request, with an error that contains the name.

A keyword of `IsConnectionError` in the name makes the error look like a lost connection: the read retries and tears the
connection down, the next error of that kind finds no client, and all tags after it are reported as not connected
(`doomed_step`). One such error does no harm (`safe_step`). -/

namespace CoreC.Modbus.Steady

open Core.Types Modbus.Driver Modbus.Merge Modbus.Reading List Option
open Modbus.Freshness
open DriverBase.Connection (ConnState)
open Modbus.RoundTrip (amd64 pumpDriver lookup_speed zeroMemory)
open DriverBase.LocalErrors (Client isConnectionError errModbusNotConnected Ended retryLoop)

/-! ### The device and the tags alone -/

/-- Every request is answered with the memory, no wait is cancelled, and others leave a connection alone; one that is
gone they may restore. -/
structure SteadyEnv (env : Env) (m : Memory) : Prop where
  answer : ∀ n c, env.answer n c = .ok m
  wait : ∀ n, env.wait n = none
  others : ∀ n conn, conn.client ≠ none → env.others n conn = conn

/-- What `readTag` and `ApplyTransform` give for a tag alone. -/
def readAlone (p : Platform) (d : ModbusBase) (m : Memory) (name : String) : TagResult :=
  match d.tags.lookup name with
  | none => .bad name ("tag not found: " ++ name)
  | some (cfg, ai) =>
    let dt := (parseDataType cfg.type).getD .bool
    match readTag p m ai dt name with
    | .error e => .bad name e
    | .ok v => .good name (applyTransform p v cfg.scale cfg.offset) dt

/-- The error that the tag has without a request. -/
def text (e : String × Option BatchTagReq) : Option String := e.2.bind localError

/-- The errors of the tags. -/
def texts (rest : List (String × Option BatchTagReq)) : List String := rest.filterMap text

section

variable {env : Env} {p : Platform} {d : ModbusBase} {m : Memory} {names : List String} {r : BatchTagReq}
  {areas : List Area} {errors : List String} {req : Option BatchTagReq} {s : Session} {e name : String}

theorem localError_ne_notConnected (h : localError r = some e) : e ≠ errModbusNotConnected := by
  rintro rfl
  unfold localError at h
  split_ifs at h
  · have hhead := congrArg (fun s => s.toList.head?) (some.inj h)
    simp [bitAreaError, errModbusNotConnected] at hhead
  · have hhead := congrArg (fun s => s.toList.head?) (some.inj h)
    simp [errModbusNotConnected] at hhead

/-! ### The ranges -/

variable {values : List (ℕ × GoValue)}

theorem lookup_of_mem {i : ℕ} {v : GoValue} (hmem : (i, v) ∈ values)
    (hone : ∀ v', (i, v') ∈ values → v' = v) : values.lookup i = some v := by
  cases hlook : values.lookup i with
  | none =>
    have hall := lookup_eq_none_iff.mp hlook (i, v) hmem
    simp at hall
  | some v' =>
    obtain ⟨l₁, l₂, heq, -⟩ := lookup_eq_some_iff.mp hlook
    rw [hone v' (heq ▸ mem_append_right _ (mem_cons_self ..))]

theorem readBatchWithRetry_steady (hs : SteadyEnv env m) (hretry : 0 ≤ d.maxRetry) {b : ReadBatch}
    (hvalues : readBatch p m b = some values) (c : Client) (s : Session) :
    ∃ s', readBatchWithRetry env p d b (some c) s = some (.value values, some c, s') ∧ s'.conn = s.conn := by
  have hreq : request env c b.area b.start b.qty s =
      (.ok m, { s.tick with received := ⟨b.area, b.start, b.qty, m⟩ :: s.received }) := by
    rw [request, hs.answer]
  refine ⟨{ s.tick with received := ⟨b.area, b.start, b.qty, m⟩ :: s.received }, ?_, rfl⟩
  rw [readBatchWithRetry, attempts_of_nonneg hretry, retryLoop, readRange]
  simp [hreq, hvalues]

theorem readRanges_steady (hs : SteadyEnv env m) (hretry : 0 ≤ d.maxRetry) (c : Client) :
    ∀ bs values s, (∀ b ∈ bs, ∃ vs, readBatch p m b = some vs) →
      ∃ values' s', readRanges env p d bs values (some c) s = some (values', some c, s') ∧ s'.conn = s.conn ∧
        ∀ e, e ∈ values' ↔ e ∈ values ∨ ∃ b ∈ bs, ∃ vs, readBatch p m b = some vs ∧ e ∈ vs
  | [], values, s, _ => ⟨values, s, rfl, rfl, fun e => by simp⟩
  | b :: bs, values, s, hbs => by
    obtain ⟨vs, hvs⟩ := hbs b (mem_cons_self ..)
    obtain ⟨s₁, hrun, hconn₁⟩ := readBatchWithRetry_steady hs hretry hvs c s
    obtain ⟨values', s', hrest, hconn', hmem⟩ := readRanges_steady hs hretry c bs (vs ++ values) s₁
      fun b hb => hbs b (mem_cons_of_mem _ hb)
    refine ⟨values', s', ?_, hconn'.trans hconn₁, fun e => ?_⟩
    · rw [readRanges, hrun]
      exact hrest
    · rw [hmem, mem_append]
      constructor
      · rintro ((hvs' | hvalues) | ⟨b', hb', h⟩)
        · exact .inr ⟨b, mem_cons_self .., vs, hvs, hvs'⟩
        · exact .inl hvalues
        · exact .inr ⟨b', mem_cons_of_mem _ hb', h⟩
      · rintro (hvalues | ⟨b', hb', vs', hvs', he⟩)
        · exact .inl (.inr hvalues)
        · rcases mem_cons.mp hb' with rfl | hb'
          · exact .inl (.inl (some.inj (hvs'.symm.trans hvs) ▸ he))
          · exact .inr ⟨b', hb', vs', hvs', he⟩

/-- No tag ends at the top of the address space. -/
def Low (d : ModbusBase) : Prop := ∀ name cfg ai, d.tags.lookup name = some (cfg, ai) →
  ai.addr + (batchQuantity ai ((parseDataType cfg.type).getD .bool)).getD 0 ≤ 65535

theorem Low.addressed (h : Low d) : Addressed d := by
  intro name cfg ai hlook
  have htop := h name cfg ai hlook
  omega

theorem finish_lt (hlow : Low d) (h : Requested d names r) : finish r < 2 ^ 16 := by
  obtain ⟨name, -, hr⟩ := h
  obtain ⟨⟨cfg, ai⟩, hlook, heq⟩ := map_eq_some_iff.mp hr
  have hfinish : finish r = ai.addr + (batchQuantity ai ((parseDataType cfg.type).getD .bool)).getD 0 := heq ▸ rfl
  have htop := hlow name cfg ai hlook
  omega

theorem mem_resolve (h : Requested d names r) : some r ∈ resolve d names := by
  obtain ⟨name, hname, hr⟩ := h
  have hmem := mem_zip_resolve.mpr ⟨r.index, hname, hr.symm⟩
  exact (of_mem_zip hmem).2

theorem inBounds_ranges (hlow : Low d) (area : Area) : InBounds area (batchable area (resolve d names))
      (mergeBatches area modbusMaxBatchSize (batchable area (resolve d names))) := by
  have hreq : ∀ r ∈ batchable area (resolve d names), Requested d names r ∧ r.ai.area = area ∧ r.qty.isSome = true := by
    intro r hr
    obtain ⟨hresolve, harea, hsome⟩ := mem_batchable_iff.mp hr
    exact ⟨requested_of_mem hresolve, harea, hsome⟩
  refine inBounds_of_apart (fun r hr => ?_) (pairwise_batchable area _) ?_
  · obtain ⟨hr, harea, hsome⟩ := hreq r hr
    have hplaced := placed_of_requested hlow.addressed hr hsome
    have htop := finish_lt hlow hr
    exact ⟨harea, hplaced.qty, hplaced.some, by omega⟩
  · -- no tag ends at the top of the address space
    refine pairwise_of_forall_mem_list fun q hq r hr htop => ?_
    have hlt := finish_lt hlow (hreq r hr).1
    omega

theorem member_of_range (hlow : Low d) {b : ReadBatch} (hb : b ∈ ranges areas (resolve d names)) :
    ∀ r ∈ b.members, Placed b.area r ∧ Inside b r ∧ Requested d names r := by
  intro r hr
  obtain ⟨hplaced, -, hreq⟩ := fromRequests_of_mem hlow.addressed hb r hr
  obtain ⟨area, -, hb⟩ := mem_flatMap.mp hb
  exact ⟨hplaced, (inBounds_ranges hlow area).inside b hb r hr, hreq⟩

theorem exists_range (hlow : Low d) (hareas : ∀ area, area ∈ areas) (hr : Requested d names r)
    (hsome : r.qty.isSome = true) : ∃ b ∈ ranges areas (resolve d names), r ∈ b.members := by
  have hmem := mem_batchable_iff.mpr ⟨mem_resolve hr, rfl, hsome⟩
  rw [← (inBounds_ranges hlow r.ai.area).members] at hmem
  obtain ⟨b, hb, hr⟩ := mem_flatMap.mp hmem
  exact ⟨b, mem_flatMap.mpr ⟨r.ai.area, hareas _, hb⟩, hr⟩

theorem qty_of_requested (h : Requested d names r) : r.qty = batchQuantity r.ai r.dt := by
  obtain ⟨name, -, hr⟩ := h
  obtain ⟨⟨cfg, ai⟩, -, heq⟩ := map_eq_some_iff.mp hr
  exact heq ▸ rfl

/-- The values are those of the ranges. -/
def FromRanges (p : Platform) (d : ModbusBase) (m : Memory) (names : List String) (areas : List Area)
    (values : List (ℕ × GoValue)) : Prop :=
  ∀ e, e ∈ values ↔ ∃ b ∈ ranges areas (resolve d names), ∃ vs, readBatch p m b = some vs ∧ e ∈ vs

theorem mem_values_iff (hlow : Low d) (hvalues : FromRanges p d m names areas values)
    (i : ℕ) (v : GoValue) :
    (i, v) ∈ values ↔ ∃ b ∈ ranges areas (resolve d names), ∃ r ∈ b.members, r.index = i ∧
      readTag p m r.ai r.dt r.name = .ok v := by
  rw [hvalues]
  refine exists_congr fun b => and_congr_right fun hb => ?_
  have hmembers := member_of_range hlow hb
  have hiff := fun {vs} (hvs : readBatch p m b = some vs) =>
    mem_readBatch_iff (fun r hr => ⟨(hmembers r hr).1, (hmembers r hr).2.1.1⟩) hvs i v
  constructor
  · rintro ⟨vs, hvs, hmem⟩
    obtain ⟨r, hr, hi, -, hread⟩ := (hiff hvs).mp hmem
    exact ⟨r, hr, hi, hread⟩
  · rintro ⟨r, hr, hi, hread⟩
    obtain ⟨vs, hvs⟩ := exists_readBatch p m fun r hr => ⟨(hmembers r hr).1, (hmembers r hr).2.1⟩
    exact ⟨vs, hvs, (hiff hvs).mpr ⟨r, hr, hi, (hmembers r hr).2.1, hread⟩⟩

theorem lookup_of_batchable (hlow : Low d) (hareas : ∀ area, area ∈ areas)
    (hvalues : FromRanges p d m names areas values) (hr : Requested d names r) (hlocal : localError r = none) :
    ∃ v, readTag p m r.ai r.dt r.name = .ok v ∧ values.lookup r.index = some v := by
  have hsome : r.qty.isSome = true := by
    rw [qty_of_requested hr]
    exact localError_eq_none_iff.mp hlocal
  obtain ⟨b, hb, hrb⟩ := exists_range hlow hareas hr hsome
  obtain ⟨v, hread⟩ := readTag_of_no_localError p m hlocal
  refine ⟨v, hread, lookup_of_mem ((mem_values_iff hlow hvalues _ _).mpr ⟨b, hb, r, hrb, rfl, hread⟩) fun v' hv' => ?_⟩
  obtain ⟨b', hb', r', hr', hindex, hread'⟩ := (mem_values_iff hlow hvalues _ _).mp hv'
  obtain rfl := requested_unique (member_of_range hlow hb' r' hr').2.2 hr hindex
  exact Except.ok.inj (hread'.symm.trans hread)

theorem lookup_of_localError (hlow : Low d)
    (hvalues : FromRanges p d m names areas values) (hr : Requested d names r)
    (hlocal : localError r = some e) : values.lookup r.index = none := by
  refine lookup_eq_none_iff.mpr fun ⟨i, v⟩ hv => ?_
  obtain ⟨b, hb, r', hr', hindex, hread⟩ := (mem_values_iff hlow hvalues _ _).mp hv
  refine bne_iff_ne.mpr fun heq => ?_
  obtain rfl := requested_unique (member_of_range hlow hb r' hr').2.2 hr (hindex.trans heq.symm)
  rw [readTag_of_localError hlocal] at hread
  cases hread

/-! ### The remaining tags -/

/-- What the loop that assembles the results finds for a name: an unknown tag, a value, or an error of the tag's own. -/
inductive Answered (p : Platform) (d : ModbusBase) (m : Memory) (values : List (ℕ × GoValue)) (name : String) :
    Option BatchTagReq → Prop
  | unknown (halone : readAlone p d m name = .bad name ("tag not found: " ++ name)) : Answered p d m values name none
  | value {r : BatchTagReq} {v : GoValue} (hlocal : localError r = none) (hvalue : values.lookup r.index = some v)
      (halone : readAlone p d m name = goodResult p name r v) : Answered p d m values name (some r)
  | error {r : BatchTagReq} {e : String} (hlocal : localError r = some e) (hvalue : values.lookup r.index = none)
      (halone : readAlone p d m name = .bad name e) : Answered p d m values name (some r)

theorem answered_of_mem (hlow : Low d) (hareas : ∀ area, area ∈ areas)
    (hvalues : FromRanges p d m names areas values)
    (hmem : (name, req) ∈ names.zip (resolve d names)) : Answered p d m values name req := by
  obtain ⟨i, hi, rfl⟩ := mem_zip_resolve.mp hmem
  cases hlook : d.tags.lookup name with
  | none =>
    rw [resolveOne, hlook]
    refine .unknown ?_
    rw [readAlone, hlook]
  | some entry =>
    obtain ⟨cfg, ai⟩ := entry
    obtain ⟨r, hr, hname, hcfg, hai, hdt, hindex⟩ : ∃ r, resolveOne d name i = some r ∧ r.name = name ∧ r.cfg = cfg ∧
        r.ai = ai ∧ r.dt = (parseDataType cfg.type).getD .bool ∧ r.index = i := by
      rw [resolveOne, hlook]
      exact ⟨_, rfl, rfl, rfl, rfl, rfl, rfl⟩
    have hreq : Requested d names r := ⟨name, hindex ▸ hi, hindex ▸ hr⟩
    have halone : readAlone p d m name = match readTag p m r.ai r.dt r.name with
        | .error e => .bad name e
        | .ok v => goodResult p name r v := by
      rw [readAlone, hlook, hname, hai]
      simp [goodResult, hcfg, hdt]
    rw [hr]
    cases hlocal : localError r with
    | none =>
      obtain ⟨v, hread, hvalue⟩ := lookup_of_batchable hlow hareas hvalues hreq hlocal
      rw [hread] at halone
      exact .value hlocal hvalue halone
    | some e =>
      rw [readTag_of_localError hlocal] at halone
      exact .error hlocal (lookup_of_localError hlow hvalues hreq hlocal) halone

theorem texts_cons (e : String × Option BatchTagReq) (rest : List (String × Option BatchTagReq)) :
    texts (e :: rest) = (text e).toList ++ texts rest := by
  unfold texts
  cases htext : text e with
  | none => rw [filterMap_cons_none htext]; rfl
  | some t => rw [filterMap_cons_some htext]; rfl

theorem assemble_of_text_none (h : Answered p d m values name req) (htext : text (name, req) = none)
    (rest : List (String × Option BatchTagReq)) (results : List TagResult) (client : Option Client)
    (s : Session) : assemble env p d values ((name, req) :: rest) results client s =
      assemble env p d values rest (results ++ [readAlone p d m name]) client s := by
  cases h with
  | unknown halone => rw [assemble, halone]
  | value hlocal hvalue halone => rw [assemble, hvalue, halone]
  | error hlocal hvalue halone => cases hlocal.symm.trans htext

theorem assemble_of_text_some (h : Answered p d m values name req)
    (htext : text (name, req) = some e) : readAlone p d m name = .bad name e ∧ ∃ r, localError r = some e ∧
      ∀ rest results {client client' : Option Client}
        {s s' : Session} {e' : String}, readTagWithRetry env p d r client s = some (.failed e', client', s') →
        assemble env p d values ((name, req) :: rest) results client s =
          assemble env p d values rest (results ++ [.bad name e']) client'
            (if isConnectionError e' then handleConnLostIfCurrent env client' s' else s') := by
  cases h with
  | unknown halone => exact nomatch htext
  | value hlocal hvalue halone => exact nomatch hlocal.symm.trans htext
  | @error r e₀ hlocal hvalue halone =>
    obtain rfl : e₀ = e := some.inj (hlocal.symm.trans htext)
    refine ⟨halone, r, hlocal, fun rest results client client' s s' e' hrun => ?_⟩
    rw [assemble, hvalue]
    simp [hrun]

/-! ### The retries of an error -/

theorem readOne_text (hlocal : localError r = some e) (c : Client) (s : Session) :
    readOne env p r (some c) s = (.error e, s) := by
  simp [readOne, hlocal]

/-- An error of the tag's own is the error of all attempts. The read keeps its client if there is no retry, or if it is
that of the driver. -/
theorem retryLoop_text (hs : SteadyEnv env m) (hlocal : localError r = some e)
    (onCancel : Option Client → Session → Session) : ∀ left c s,
      ∃ client' s', retryLoop .nil (fun client s => some (readOne env p r client s)) (waitForRetry env) onCancel
          (left + 1) (some c) s =
          some (.failed e, client', s') ∧
        (isConnectionError e = false ∨ left = 0 → client' = some c ∧ s' = s) ∧
        (s.conn.client = some c → client' = some c ∧ s'.conn = s.conn)
  | 0, c, s => by
    refine ⟨some c, s, ?_, fun _ => ⟨rfl, rfl⟩, fun _ => ⟨rfl, rfl⟩⟩
    rw [retryLoop, readOne_text hlocal]
    simp
  | left + 1, c, s => by
    by_cases hconn : isConnectionError e = true
    · have hwait : waitForRetry env s = (.elapsed (look env s.tick).conn.client, look env s.tick) := by
        rw [waitForRetry, hs.wait]
      rw [retryLoop, readOne_text hlocal, bind_some]
      simp only [if_pos (And.intro (Nat.succ_pos left) hconn), hwait]
      have hnot : ¬ (isConnectionError e = false ∨ left + 1 = 0) := by simp [hconn]
      have hlook : s.conn.client = some c → (look env s.tick).conn = s.conn :=
        fun h => hs.others _ _ (show s.conn.client ≠ none by simp [h])
      cases hclient : (look env s.tick).conn.client with
      | none =>
        refine ⟨none, _, rfl, fun h => absurd h hnot, fun h => ?_⟩
        rw [hlook h, h] at hclient
        cases hclient
      | some c' =>
        obtain ⟨client', s', hrun, -, hown⟩ := retryLoop_text hs hlocal onCancel left c' (look env s.tick)
        refine ⟨client', s', hrun, fun h => absurd h hnot, fun h => ?_⟩
        have hc : c' = c := some.inj (hclient.symm.trans (by rw [hlook h, h]))
        obtain ⟨hclient', hconn'⟩ := hown hclient
        exact ⟨hc ▸ hclient', hconn'.trans (hlook h)⟩
    · refine ⟨some c, s, ?_, fun _ => ⟨rfl, rfl⟩, fun _ => ⟨rfl, rfl⟩⟩
      rw [retryLoop, readOne_text hlocal]
      simp [hconn]

theorem readTagWithRetry_text (hs : SteadyEnv env m) (hretry : 0 ≤ d.maxRetry) (hlocal : localError r = some e)
    (c : Client) (s : Session) :
    ∃ client' s', readTagWithRetry env p d r (some c) s = some (.failed e, client', s') ∧
      (isConnectionError e = false ∨ d.maxRetry = 0 → client' = some c ∧ s' = s) ∧
      (s.conn.client = some c → client' = some c ∧ s'.conn = s.conn) := by
  unfold Reading.readTagWithRetry
  rw [attempts_of_nonneg hretry]
  obtain ⟨client', s', hrun, hkept, hown⟩ := retryLoop_text (p := p) hs hlocal (handleConnLostIfCurrent env)
    d.maxRetry.toNat c s
  refine ⟨client', s', hrun, fun h => hkept (h.imp_right fun h => ?_), hown⟩
  rw [h]
  rfl

/-! ### Results that are right -/

theorem assemble_plain : ∀ rest results client
    s, (∀ e ∈ rest, Answered p d m values e.1 e.2) → texts rest = [] →
      ∃ s', assemble env p d values rest results client s =
        some (.ok (results ++ rest.map fun e => readAlone p d m e.1), s')
  | [], results, client, s, _, _ => ⟨s, by rw [map_nil, append_nil]; rfl⟩
  | (name, req) :: rest, results, client, s, hrest, htexts => by
    rw [texts_cons, append_eq_nil_iff, toList_eq_nil_iff] at htexts
    obtain ⟨s', hrun⟩ := assemble_plain rest (results ++ [readAlone p d m name]) client s
      (fun e he => hrest e (mem_cons_of_mem _ he)) htexts.2
    refine ⟨s', ?_⟩
    rw [assemble_of_text_none (hrest _ (mem_cons_self ..)) htexts.1, hrun, append_assoc]
    rfl

/-- How many errors but the last look like a lost connection. -/
def lost (errors : List String) : ℕ := (errors.dropLast.filter isConnectionError).length

theorem lost_cons (e : String) (h : errors ≠ []) :
    lost (e :: errors) = (if isConnectionError e then 1 else 0) + lost errors := by
  unfold lost
  rw [dropLast_cons_of_ne_nil h, filter_cons]
  split_ifs <;> simp [Nat.add_comm]

/-- The read can do with its client: there are no retries, or no error but the last one looks like a lost connection, or
the client is that of the driver and there is one such error. -/
def Safe (d : ModbusBase) (c : Client) (conn : Conn) (errors : List String) : Prop :=
  d.maxRetry = 0 ∨ lost errors = 0 ∨ conn.client = some c ∧ lost errors ≤ 1

theorem safe_step (hs : SteadyEnv env m) (hretry : 0 ≤ d.maxRetry) {c : Client} (hlocal : localError r = some e)
    (hne : errors ≠ []) (h : Safe d c s.conn (e :: errors)) :
    ∃ s', readTagWithRetry env p d r (some c) s = some (.failed e, some c, s') ∧
      Safe d c (if isConnectionError e then handleConnLostIfCurrent env (some c) s' else s').conn errors := by
  obtain ⟨client', s', hrun, hkept, hown⟩ := readTagWithRetry_text (p := p) hs hretry hlocal c s
  unfold Safe at h
  rw [lost_cons e hne] at h
  rcases h with h | h | ⟨hclient, h⟩
  · obtain ⟨rfl, rfl⟩ := hkept (.inr h)
    exact ⟨s', hrun, .inl h⟩
  · split_ifs at h with hlost
    · omega
    · obtain ⟨rfl, rfl⟩ := hkept (.inl (Bool.eq_false_iff.mpr hlost))
      exact ⟨s', hrun, .inr (.inl (by omega))⟩
  · obtain ⟨rfl, hconn⟩ := hown hclient
    refine ⟨s', hrun, ?_⟩
    split_ifs at h ⊢ with hlost
    · exact .inr (.inl (by omega))
    · exact .inr (.inr ⟨hconn ▸ hclient, by omega⟩)

theorem assemble_safe (hs : SteadyEnv env m) (hretry : 0 ≤ d.maxRetry) (c : Client) :
    ∀ rest results s,
      (∀ e ∈ rest, Answered p d m values e.1 e.2) → Safe d c s.conn (texts rest) →
      ∃ s', assemble env p d values rest results (some c) s =
        some (.ok (results ++ rest.map fun e => readAlone p d m e.1), s')
  | [], results, s, _, _ => ⟨s, by rw [map_nil, append_nil]; rfl⟩
  | (name, req) :: rest, results, s, hrest, hsafe => by
    have hrest' : ∀ e ∈ rest, Answered p d m values e.1 e.2 := fun e he => hrest e (mem_cons_of_mem _ he)
    have hhead := hrest _ (mem_cons_self ..)
    rw [texts_cons] at hsafe
    rw [map_cons, append_cons]
    cases htext : text (name, req) with
    | none =>
      rw [htext] at hsafe
      rw [assemble_of_text_none hhead htext]
      exact assemble_safe hs hretry c rest _ s hrest' hsafe
    | some e =>
      rw [htext] at hsafe
      obtain ⟨halone, r, hlocal, hstep⟩ := assemble_of_text_some hhead htext
      by_cases hlast : texts rest = []
      · obtain ⟨client', s', hrun, -⟩ := readTagWithRetry_text hs hretry hlocal c s
        rw [hstep rest results hrun, ← halone]
        exact assemble_plain rest _ client' _ hrest' hlast
      · obtain ⟨s', hrun, hsafe'⟩ := safe_step hs hretry hlocal hlast hsafe
        rw [hstep rest results hrun, ← halone]
        exact assemble_safe hs hretry c rest _ _ hrest' hsafe'

/-! ### Results that are wrong -/

def calm (m : Memory) : Env := { answer := fun _ _ => .ok m }

theorem steady_calm (m : Memory) : SteadyEnv (calm m) m := ⟨fun _ _ => rfl, fun _ => rfl, fun _ _ _ => rfl⟩

/-- An error to come is reported as a lost connection: two that look like one are followed by another error, or the
connection is gone and one is, or the read has no client and there is any. -/
inductive Doomed (errors : List String) : Option Client → Conn → Prop
  | twice (c : Client) (h : 2 ≤ lost errors) : Doomed errors (some c) ⟨.connected, some c⟩
  | once (c : Client) (state : ConnState) (h : 1 ≤ lost errors) : Doomed errors (some c) ⟨state, none⟩
  | now (state : ConnState) (h : errors ≠ []) : Doomed errors none ⟨state, none⟩

theorem ne_nil_of_lost (h : 1 ≤ lost errors) : errors ≠ [] := by
  rintro rfl
  exact absurd h (by decide)

theorem ne_nil_of_lost_cons (h : 1 ≤ lost (e :: errors)) : errors ≠ [] := by
  rintro rfl
  cases h

theorem conn_handleConnLostIfCurrent_calm (client : Option Client) (state : ConnState)
    (hconn : s.conn = ⟨state, none⟩) :
    ∃ state', (handleConnLostIfCurrent (calm m) client s).conn = ⟨state', none⟩ := by
  have hlook : (look (calm m) s).conn = ⟨state, none⟩ := hconn
  have hlook' : (look (calm m) (look (calm m) s)).conn = ⟨state, none⟩ := hconn
  unfold handleConnLostIfCurrent handleConnectionLost
  dsimp only
  split_ifs
  · exact ⟨state, hlook'⟩
  · exact ⟨.error, rfl⟩
  · exact ⟨state, hlook⟩

theorem doomed_step (hretry : 0 < d.maxRetry) (hlocal : localError r = some e) {client : Option Client}
    (h : Doomed (e :: errors) client s.conn) :
    ∃ e' client' s', readTagWithRetry (calm m) p d r client s = some (.failed e', client', s') ∧
      (e' ≠ e ∨ e' = e ∧ Doomed errors client'
        (if isConnectionError e' then handleConnLostIfCurrent (calm m) client' s' else s').conn) := by
  obtain ⟨left, hattempts⟩ : ∃ left, attempts d = left + 2 := ⟨d.maxRetry.toNat - 1, by unfold attempts; omega⟩
  obtain ⟨conn, clock, received⟩ := s
  cases h with
  | twice c h =>
    obtain ⟨client', s', hrun, -, hown⟩ := readTagWithRetry_text (p := p) (steady_calm m) hretry.le hlocal c
      ⟨⟨.connected, some c⟩, clock, received⟩
    obtain ⟨rfl, hconn⟩ := hown rfl
    rw [lost_cons e (ne_nil_of_lost_cons (Nat.le_of_succ_le h))] at h
    refine ⟨e, some c, s', hrun, .inr ⟨rfl, ?_⟩⟩
    split_ifs at h ⊢ with hlost
    · have hgone : (handleConnLostIfCurrent (calm m) (some c) s').conn = ⟨.error, none⟩ := by
        have hlook : (look (calm m) s').conn = ⟨.connected, some c⟩ := hconn
        have hlook' : (look (calm m) (look (calm m) s')).conn = ⟨.connected, some c⟩ := hconn
        unfold handleConnLostIfCurrent handleConnectionLost
        simp [hlook, hlook']
      rw [hgone]
      exact .once c _ (by omega)
    · rw [hconn]
      exact .twice c (by omega)
  | once c state h =>
    have hne := ne_nil_of_lost_cons h
    rw [lost_cons e hne] at h
    by_cases hlost : isConnectionError e = true
    · -- the read asks for the client of the driver, and there is none
      have hrun : readTagWithRetry (calm m) p d r (some c) ⟨⟨state, none⟩, clock, received⟩ =
          some (.failed e, none, look (calm m) (Session.tick ⟨⟨state, none⟩, clock, received⟩)) := by
        rw [Reading.readTagWithRetry, hattempts, retryLoop, readOne_text hlocal]
        simp only [bind_some, Nat.zero_lt_succ, hlost, and_self]
        rfl
      refine ⟨e, none, _, hrun, .inr ⟨rfl, ?_⟩⟩
      obtain ⟨state', hconn⟩ := conn_handleConnLostIfCurrent_calm (m := m) none state
        (s := look (calm m) (Session.tick ⟨⟨state, none⟩, clock, received⟩)) rfl
      rw [if_pos hlost, hconn]
      exact .now state' hne
    · obtain ⟨client', s', hrun, hkept, -⟩ := readTagWithRetry_text (p := p) (steady_calm m) hretry.le hlocal c
        ⟨⟨state, none⟩, clock, received⟩
      obtain ⟨rfl, rfl⟩ := hkept (.inl (Bool.eq_false_iff.mpr hlost))
      rw [if_neg hlost] at h
      refine ⟨e, _, _, hrun, .inr ⟨rfl, ?_⟩⟩
      rw [if_neg hlost]
      exact .once c state (by omega)
  | now state h =>
    have hrun : readTagWithRetry (calm m) p d r none ⟨⟨state, none⟩, clock, received⟩ =
        some (.failed errModbusNotConnected, none, look (calm m) (Session.tick ⟨⟨state, none⟩, clock, received⟩)) := by
      rw [Reading.readTagWithRetry, hattempts, retryLoop]
      simp only [readOne, bind_some, Nat.zero_lt_succ, isConnectionError_notConnected, and_self]
      rfl
    exact ⟨_, _, _, hrun, .inl (localError_ne_notConnected hlocal).symm⟩

theorem prefix_of_assemble (hretry : 0 ≤ d.maxRetry) :
    ∀ rest {results out : List TagResult} {client : Option Client} {s s' : Session},
      assemble env p d values rest results client s = some (.ok out, s') → results <+: out
  | [], results, out, client, s, s', h => by
    cases h
    exact prefix_refl _
  | (name, req) :: rest, results, out, client, s, s', h => by
    obtain ⟨res, client₁, s₁, hnext, -⟩ := assemble_cons hretry h
    exact (prefix_append ..).trans (prefix_of_assemble hretry rest hnext)

theorem assemble_doomed (hretry : 0 < d.maxRetry) :
    ∀ rest results client s s',
      (∀ e ∈ rest, Answered p d m values e.1 e.2) → Doomed (texts rest) client s.conn →
      assemble (calm m) p d values rest results client s ≠
        some (.ok (results ++ rest.map fun e => readAlone p d m e.1), s')
  | [], results, client, s, s', _, hdoomed => by
    obtain ⟨conn, clock, received⟩ := s
    cases hdoomed with
    | twice c h => exact absurd rfl (ne_nil_of_lost (Nat.le_of_succ_le h))
    | once c state h => exact absurd rfl (ne_nil_of_lost h)
    | now state h => exact absurd rfl h
  | (name, req) :: rest, results, client, s, s', hrest, hdoomed => by
    have hrest' : ∀ e ∈ rest, Answered p d m values e.1 e.2 := fun e he => hrest e (mem_cons_of_mem _ he)
    have hhead := hrest _ (mem_cons_self ..)
    rw [texts_cons] at hdoomed
    rw [map_cons, append_cons]
    cases htext : text (name, req) with
    | none =>
      rw [htext] at hdoomed
      rw [assemble_of_text_none hhead htext]
      exact assemble_doomed hretry rest _ client s s' hrest' hdoomed
    | some e =>
      rw [htext] at hdoomed
      obtain ⟨halone, r, hlocal, hstep⟩ := assemble_of_text_some hhead htext
      obtain ⟨e', client', s₁, hrun, hnext⟩ := doomed_step hretry hlocal hdoomed
      rw [hstep rest results hrun]
      rcases hnext with hwrong | ⟨rfl, hdoomed'⟩
      · -- the result is there, with another text
        intro hend
        have hprefix := prefix_of_assemble hretry.le rest hend
        rw [append_assoc, prefix_append_right_inj, singleton_append, halone] at hprefix
        have heq := (cons_prefix_cons.mp hprefix).1
        exact hwrong (some.inj (congrArg TagResult.error heq))
      · rw [← halone]
        exact assemble_doomed hretry rest _ client' _ s' hrest' hdoomed'

/-! ### The read -/

theorem map_fst_zip_resolve (d : ModbusBase) (names : List String) :
    (names.zip (resolve d names)).map (fun e => readAlone p d m e.1) = names.map (readAlone p d m) := by
  have hlength : names.length ≤ (resolve d names).length := by
    unfold resolve
    rw [length_map, length_zipIdx]
  calc (names.zip (resolve d names)).map (fun e => readAlone p d m e.1)
      = ((names.zip (resolve d names)).map Prod.fst).map (readAlone p d m) := by rw [List.map_map]; rfl
    _ = names.map (readAlone p d m) := by rw [map_fst_zip hlength]

/-- On a steady device the read comes to its second loop with the values of all ranges, on the same connection. -/
theorem read_steady (hs : SteadyEnv env m) (hretry : 0 ≤ d.maxRetry) (hlow : Low d) (name : String) (areas : List Area)
    (names : List String) {c : Client} (hconn : s.conn = ⟨.connected, some c⟩) :
    ∃ values s', FromRanges p d m names areas values ∧ s'.conn = s.conn ∧
      read env p name d areas names s = assemble env p d values (names.zip (resolve d names)) [] (some c) s' := by
  have hlook : (look env s).conn = ⟨.connected, some c⟩ := by
    rw [← hconn]
    exact hs.others _ _ (by rw [hconn]; nofun)
  obtain ⟨values, s', hranges, hconn', hvalues⟩ := readRanges_steady (p := p) hs hretry c (ranges areas (resolve d names))
    [] (look env s) fun b hb => exists_readBatch p m fun r hr =>
      ⟨(member_of_range hlow hb r hr).1, (member_of_range hlow hb r hr).2.1⟩
  refine ⟨values, s', fun e => ?_, hconn'.trans (hlook.trans hconn.symm), ?_⟩
  · rw [hvalues e]
    simp
  · unfold Reading.read
    simp [hlook, hranges]

end

/-- **Batched reading is reading tag by tag**: on every device that answers all requests with the same memory, exactly
if there are no retries or at most one tag has an error of its own that looks like a lost connection and is followed
by another such tag. -/
theorem read_eq_alone_iff (p : Platform) (name : String) (d : ModbusBase) (m : Memory) (areas : List Area)
    (names : List String) (hretry : 0 ≤ d.maxRetry) (hareas : ∀ area, area ∈ areas) (hlow : Low d) :
    (∀ env s c, SteadyEnv env m → s.conn = ⟨.connected, some c⟩ →
      ∃ s', read env p name d areas names s = some (.ok (names.map (readAlone p d m)), s')) ↔
      d.maxRetry = 0 ∨ lost (texts (names.zip (resolve d names))) ≤ 1 := by
  constructor
  · intro hall
    by_contra hnot
    push Not at hnot
    obtain ⟨hpos, htwice⟩ := hnot
    obtain ⟨s', hread⟩ := hall (calm m) ⟨⟨.connected, some 0⟩, 0, []⟩ 0 (steady_calm m) rfl
    obtain ⟨values, s₁, hvalues, hconn, heq⟩ := read_steady (p := p) (steady_calm m) hretry hlow name areas names
      (s := ⟨⟨.connected, some 0⟩, 0, []⟩) rfl
    refine assemble_doomed (by omega) _ [] (some 0) s₁ s' (fun e he => answered_of_mem hlow hareas hvalues he)
      (hconn ▸ .twice 0 htwice) ?_
    rw [← heq, hread, nil_append, map_fst_zip_resolve]
  · intro hsafe env s c hs hconn
    obtain ⟨values, s₁, hvalues, hconn₁, heq⟩ := read_steady (p := p) hs hretry hlow name areas names hconn
    have hanswered : ∀ e ∈ names.zip (resolve d names), Answered p d m values e.1 e.2 :=
      fun e he => answered_of_mem hlow hareas hvalues he
    obtain ⟨s', hrun⟩ := assemble_safe hs hretry c (names.zip (resolve d names)) [] s₁ hanswered
      (hsafe.imp_right fun h => .inr ⟨by rw [hconn₁, hconn], h⟩)
    rw [map_fst_zip_resolve] at hrun
    exact ⟨s', heq.trans hrun⟩

theorem low_pumpDriver : Low pumpDriver := by
  intro name cfg ai hlook
  by_cases hname : name = "speed"
  · rw [hname, lookup_speed] at hlook
    cases hlook
    decide
  · rw [pumpDriver, AList.lookup_insert_ne hname] at hlook
    cases hlook

/-- A tag twice, and one that the driver does not know. -/
theorem speed_read_twice : pumpDriver.maxRetry = 3 ∧
    ∀ env s c, SteadyEnv env zeroMemory → s.conn = ⟨.connected, some c⟩ →
      ∃ s', read env amd64 "pump" pumpDriver [.inputRegister, .holdingRegister, .discreteInput, .coil]
        ["speed", "level", "speed"] s =
          some (.ok (["speed", "level", "speed"].map (readAlone amd64 pumpDriver zeroMemory)), s') :=
  ⟨rfl, (read_eq_alone_iff amd64 "pump" pumpDriver zeroMemory _ _ (by decide) (fun area => by cases area <;> decide)
    low_pumpDriver).mpr (.inr (by decide))⟩

/-- A driver with two coils that are configured as integers, and a text in a register. -/
def pressDriver : ModbusBase where
  tags := (((∅ : AList fun _ : String => TagConfig × AddrInfo).insert "reset_a"
    ({ name := "reset_a", address := "00001", type := "int16" }, ⟨.coil, 0⟩)).insert "reset_b"
    ({ name := "reset_b", address := "00002", type := "int16" }, ⟨.coil, 1⟩)).insert "label"
    ({ name := "label", address := "40001", type := "string" }, ⟨.holdingRegister, 0⟩)
  maxRetry := 3

/-- The names of the coils look like a lost connection, twice: the text has the error of a lost connection. -/
theorem label_not_connected :
    (∃ s', read (calm zeroMemory) amd64 "press" pressDriver [.coil, .discreteInput, .holdingRegister, .inputRegister]
        ["reset_a", "reset_b", "label"] ⟨⟨.connected, some 0⟩, 0, []⟩ =
      some (.ok [readAlone amd64 pressDriver zeroMemory "reset_a", readAlone amd64 pressDriver zeroMemory "reset_b",
        .bad "label" errModbusNotConnected], s')) ∧
    readAlone amd64 pressDriver zeroMemory "label" = .bad "label" "unsupported data type: string" :=
  ⟨⟨_, rfl⟩, rfl⟩

end CoreC.Modbus.Steady
