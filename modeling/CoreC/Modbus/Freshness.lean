import CoreC.Modbus.Reading

/-! # Good values are fresh

A value that `Read` reports as good has been decoded from a response of the same call, for every course of events and
every retry setting that is not negative. With a negative one neither loop makes an attempt, and both conclude from the
absence of an error that they have a value: all known tags are good, and nil. -/

namespace CoreC.Modbus.Freshness

open Core.Types Modbus.Driver Modbus.Merge Modbus.Reading List Option
open DriverBase.LocalErrors (Client isConnectionError Ended retryLoop)
open Modbus.RoundTrip (amd64 pumpDriver lookup_speed)

/-! ### Responses -/

/-- The value has been decoded from one of the responses: the response shows the registers of the tag, and the tag has
this value there. -/
def Fresh (p : Platform) (received : List Response) (ai : AddrInfo) (dt : DataType) (name : String) (v : GoValue) :
    Prop :=
  ∃ ρ ∈ received, ρ.area = ai.area ∧ ρ.start ≤ ai.addr ∧
    ai.addr + (batchQuantity ai dt).getD 0 ≤ ρ.start + ρ.qty ∧ readTag p ρ.memory ai dt name = .ok v

/-- The value is one that a response of this read had. -/
def FreshResult (p : Platform) (d : ModbusBase) (received : List Response) (res : TagResult) : Prop :=
  ∃ cfg ai v, d.tags.lookup res.tag = some (cfg, ai) ∧
    Fresh p received ai ((parseDataType cfg.type).getD .bool) res.tag v ∧
    res.value = applyTransform p v cfg.scale cfg.offset

def Requested (d : ModbusBase) (names : List String) (r : BatchTagReq) : Prop :=
  ∃ name, names[r.index]? = some name ∧ resolveOne d name r.index = some r

def Sound (p : Platform) (d : ModbusBase) (names : List String) (received : List Response)
    (values : List (ℕ × GoValue)) : Prop :=
  ∀ i v, (i, v) ∈ values → ∃ r, r.index = i ∧ Requested d names r ∧ Fresh p received r.ai r.dt r.name v

section

variable {env : Env} {p : Platform} {d : ModbusBase} {names : List String} {received received' : List Response}
  {r : BatchTagReq} {client : Option Client} {b : ReadBatch} {s s' : Session} {name : String}

theorem Fresh.mono {ai : AddrInfo} {dt : DataType} {v : GoValue} (h : Fresh p received ai dt name v)
    (hsub : received ⊆ received') : Fresh p received' ai dt name v :=
  h.imp fun _ hρ => ⟨hsub hρ.1, hρ.2⟩

theorem FreshResult.mono {res : TagResult} (h : FreshResult p d received res) (hsub : received ⊆ received') :
    FreshResult p d received' res := by
  obtain ⟨cfg, ai, v, hlook, hfresh, hvalue⟩ := h
  exact ⟨cfg, ai, v, hlook, hfresh.mono hsub, hvalue⟩

variable {values : List (ℕ × GoValue)}

theorem Sound.mono (h : Sound p d names received values) (hsub : received ⊆ received') :
    Sound p d names received' values := by
  intro i v hv
  obtain ⟨r, hi, hreq, hfresh⟩ := h i v hv
  exact ⟨r, hi, hreq, hfresh.mono hsub⟩

@[simp] theorem received_handleConnectionLost (s : Session) : (handleConnectionLost env s).received = s.received := by
  unfold handleConnectionLost
  dsimp only
  split_ifs <;> rfl

@[simp] theorem received_handleConnLostIfCurrent (captured : Option Client) (s : Session) :
    (handleConnLostIfCurrent env captured s).received = s.received := by
  unfold handleConnLostIfCurrent
  dsimp only
  split_ifs
  · rw [received_handleConnectionLost]
    rfl
  · rfl

theorem received_request (env : Env) (c : Client) (area : Area) (start qty : ℕ) (s : Session) :
    (∃ e, request env c area start qty s = (.error e, s.tick)) ∨
      ∃ m, request env c area start qty s = (.ok m, { s.tick with received := ⟨area, start, qty, m⟩ :: s.received }) := by
  unfold request
  cases env.answer s.clock c with
  | error e => exact .inl ⟨e, rfl⟩
  | ok m => exact .inr ⟨m, rfl⟩

/-! ### The loops -/

/-- **A loop that makes an attempt** brings what an attempt has brought. -/
theorem retryLoop_fresh {α : Type} {zero : α} {attempt : Option Client → Session → Option (Except String α × Session)}
    {onCancel : Option Client → Session → Session} {F : List Response → α → Prop}
    (hattempt : ∀ {client s result s'}, attempt client s = some (result, s') →
      s.received ⊆ s'.received ∧ ∀ v, result = .ok v → F s'.received v)
    (hcancel : ∀ client s, (onCancel client s).received = s.received) :
    ∀ {left : ℕ} {client : Option Client} {s : Session} {r : Ended α × Option Client × Session}, left ≠ 0 →
      retryLoop zero attempt (waitForRetry env) onCancel left client s = some r →
      s.received ⊆ r.2.2.received ∧ ∀ v, r.1 = .value v → F r.2.2.received v
  | 0, _, _, _, hleft, _ => absurd rfl hleft
  | left + 1, client, s, r, _, hr => by
    obtain ⟨⟨result, s'⟩, hrun, hr⟩ := bind_eq_some_iff.mp hr
    obtain ⟨hsub, hok⟩ := hattempt hrun
    cases result with
    | ok v =>
      cases hr
      refine ⟨hsub, fun v' hv => ?_⟩
      cases hv
      exact hok v rfl
    | error e =>
      by_cases hagain : 0 < left ∧ isConnectionError e = true
      · simp only [if_pos hagain, waitForRetry] at hr
        cases hwait : env.wait s'.clock with
        | some err =>
          simp only [hwait] at hr
          cases hr
          exact ⟨by rwa [hcancel], fun v hv => by cases hv⟩
        | none =>
          cases hclient : (look env s'.tick).conn.client with
          | none =>
            simp only [hwait, hclient] at hr
            cases hr
            exact ⟨hsub, fun v hv => by cases hv⟩
          | some c =>
            simp only [hwait, hclient] at hr
            obtain ⟨hsub', hfresh⟩ := retryLoop_fresh hattempt hcancel hagain.1.ne' hr
            exact ⟨Subset.trans hsub hsub', hfresh⟩
      · simp only [if_neg hagain] at hr
        cases hr
        exact ⟨hsub, fun v hv => by cases hv⟩

theorem readOne_fresh {result : Except String GoValue} (h : readOne env p r client s = (result, s')) :
    s.received ⊆ s'.received ∧ ∀ v, result = .ok v → Fresh p s'.received r.ai r.dt r.name v := by
  unfold readOne at h
  cases client with
  | none =>
    cases h
    exact ⟨Subset.refl _, nofun⟩
  | some c =>
    cases hlocal : localError r with
    | some e =>
      simp only [hlocal] at h
      cases h
      exact ⟨Subset.refl _, nofun⟩
    | none =>
      simp only [hlocal] at h
      rcases received_request env c r.ai.area r.ai.addr ((batchQuantity r.ai r.dt).getD 0) s with
        ⟨e, hreq⟩ | ⟨m, hreq⟩
      · rw [hreq] at h
        cases h
        exact ⟨Subset.refl _, nofun⟩
      · rw [hreq] at h
        cases h
        refine ⟨subset_cons_self _ _, fun v hv => ?_⟩
        exact ⟨_, mem_cons_self .., rfl, Nat.le_refl _, Nat.le_refl _, hv⟩

variable {client' : Option Client}

theorem readTagWithRetry_fresh (hretry : 0 ≤ d.maxRetry) {ended : Ended GoValue}
    (h : readTagWithRetry env p d r client s = some (ended, client', s')) :
    s.received ⊆ s'.received ∧ ∀ v, ended = .value v → Fresh p s'.received r.ai r.dt r.name v :=
  retryLoop_fresh (F := fun received => Fresh p received r.ai r.dt r.name) (fun h => readOne_fresh (some.inj h))
    received_handleConnLostIfCurrent (attempts_ne_zero hretry) h

def FromRequests (d : ModbusBase) (names : List String) (b : ReadBatch) : Prop :=
  ∀ r ∈ b.members, Placed b.area r ∧ b.start ≤ r.ai.addr ∧ Requested d names r

theorem readRange_fresh (hb : FromRequests d names b) {result : Except String (List (ℕ × GoValue))}
    (h : readRange env p b client s = some (result, s')) :
    s.received ⊆ s'.received ∧ ∀ values, result = .ok values → Sound p d names s'.received values := by
  unfold readRange at h
  cases client with
  | none =>
    cases h
    exact ⟨Subset.refl _, nofun⟩
  | some c =>
    rcases received_request env c b.area b.start b.qty s with ⟨e, hreq⟩ | ⟨m, hreq⟩
    · simp only [hreq] at h
      cases h
      exact ⟨Subset.refl _, nofun⟩
    · simp only [hreq] at h
      obtain ⟨values, hvalues, heq⟩ := map_eq_some_iff.mp h
      cases heq
      refine ⟨subset_cons_self _ _, fun values' heq i v hv => ?_⟩
      cases heq
      obtain ⟨r, hr, hi, ⟨hlow, hhigh⟩, hread⟩ :=
        (mem_readBatch_iff (fun r hr => ⟨(hb r hr).1, (hb r hr).2.1⟩) hvalues i v).mp hv
      obtain ⟨hplaced, -, hreq⟩ := hb r hr
      unfold finish at hhigh
      rw [hplaced.qty] at hhigh
      exact ⟨r, hi, hreq, _, mem_cons_self .., hplaced.area.symm, hlow, hhigh, hread⟩

theorem readBatchWithRetry_fresh (hretry : 0 ≤ d.maxRetry) (hb : FromRequests d names b)
    {ended : Ended (List (ℕ × GoValue))} (h : readBatchWithRetry env p d b client s = some (ended, client', s')) :
    s.received ⊆ s'.received ∧ ∀ values, ended = .value values → Sound p d names s'.received values :=
  retryLoop_fresh (readRange_fresh hb) (fun _ _ => rfl) (attempts_ne_zero hretry) h

/-! ### The ranges -/

theorem requested_of_mem (h : some r ∈ resolve d names) : Requested d names r := by
  obtain ⟨⟨name, i⟩, hmem, heq⟩ := mem_map.mp h
  have heq' : resolveOne d name i = some r := heq
  have hi : r.index = i := by
    obtain ⟨-, -, rfl⟩ := map_eq_some_iff.mp heq'
    rfl
  exact ⟨name, hi ▸ mk_mem_zipIdx_iff_getElem?.mp hmem, hi ▸ heq'⟩

theorem pairwise_batchable (area : Area) (reqs : List (Option BatchTagReq)) : (batchable area reqs).Pairwise Sorted := by
  have hsorted : (batchable area reqs).Pairwise fun a b => a.ai.addr ≤ b.ai.addr := pairwise_insertionSort _ _
  exact hsorted

theorem mem_batchable_iff {area : Area} {reqs : List (Option BatchTagReq)} :
    r ∈ batchable area reqs ↔ some r ∈ reqs ∧ r.ai.area = area ∧ r.qty.isSome = true := by
  unfold batchable
  simp

/-- The addresses of the tags are `uint16`. -/
def Addressed (d : ModbusBase) : Prop := ∀ name cfg ai, d.tags.lookup name = some (cfg, ai) → ai.addr < 2 ^ 16

theorem placed_of_requested (haddr : Addressed d) (h : Requested d names r) (hsome : r.qty.isSome = true) :
    Placed r.ai.area r := by
  obtain ⟨name, -, hr⟩ := h
  obtain ⟨⟨cfg, ai⟩, hlook, heq⟩ := map_eq_some_iff.mp hr
  have hai : r.ai = ai := heq ▸ rfl
  have hqty : r.qty = batchQuantity r.ai r.dt := heq ▸ rfl
  exact ⟨rfl, hqty, isSome_iff_ne_none.mp hsome, hai ▸ haddr name cfg ai hlook⟩

variable {areas : List Area}

theorem fromRequests_of_mem (haddr : Addressed d)
    (hb : b ∈ ranges areas (resolve d names)) : FromRequests d names b := by
  obtain ⟨area, -, hb⟩ := mem_flatMap.mp hb
  obtain ⟨harea, hmem⟩ := start_le_of_mem (pairwise_batchable area _) hb
  intro r hr
  obtain ⟨hbatchable, hlow⟩ := hmem r hr
  obtain ⟨hresolve, hrarea, hsome⟩ := mem_batchable_iff.mp hbatchable
  have hreq := requested_of_mem hresolve
  have hplaced := placed_of_requested haddr hreq hsome
  rw [hrarea, ← harea] at hplaced
  exact ⟨hplaced, hlow, hreq⟩

theorem readRanges_sound (hretry : 0 ≤ d.maxRetry) :
    ∀ bs {values values' : List (ℕ × GoValue)} {client client' : Option Client} {s s' : Session},
      (∀ b ∈ bs, FromRequests d names b) → Sound p d names s.received values →
      readRanges env p d bs values client s = some (values', client', s') →
      s.received ⊆ s'.received ∧ Sound p d names s'.received values'
  | [], values, values', client, client', s, s', _, hsound, h => by
    cases h
    exact ⟨Subset.refl _, hsound⟩
  | b :: bs, values, values', client, client', s, s', hbs, hsound, h => by
    rw [readRanges] at h
    obtain ⟨⟨ended, client₁, s₁⟩, hrun, h⟩ := bind_eq_some_iff.mp h
    obtain ⟨hsub, hfresh⟩ := readBatchWithRetry_fresh hretry (hbs b (mem_cons_self ..)) hrun
    have hbs' : ∀ b ∈ bs, FromRequests d names b := fun b hb => hbs b (mem_cons_of_mem _ hb)
    have hsound₁ := hsound.mono hsub
    have hrest : ∀ {values₁}, Sound p d names s₁.received values₁ →
        readRanges env p d bs values₁ client₁ s₁ = some (values', client', s') →
        s.received ⊆ s'.received ∧ Sound p d names s'.received values' := by
      intro values₁ hvalues₁ hrest
      obtain ⟨hsub', hsound'⟩ := readRanges_sound hretry bs hbs' hvalues₁ hrest
      exact ⟨Subset.trans hsub hsub', hsound'⟩
    cases ended with
    | value vs =>
      refine hrest (fun i v hv => ?_) h
      rcases mem_append.mp hv with hv | hv
      · exact hfresh vs rfl i v hv
      · exact hsound₁ i v hv
    | failed | cancelled =>
      dsimp only at h
      split_ifs at h
      · cases h
        exact ⟨hsub, hsound₁⟩
      · exact hrest hsound₁ h

/-! ### The results -/

theorem requested_unique {r' : BatchTagReq} (h : Requested d names r) (h' : Requested d names r')
    (hindex : r.index = r'.index) : r = r' := by
  obtain ⟨name, hname, hr⟩ := h
  obtain ⟨name', hname', hr'⟩ := h'
  rw [hindex] at hname hr
  rw [some.inj (hname.symm.trans hname')] at hr
  exact some.inj (hr.symm.trans hr')

theorem freshResult_good {i : ℕ} (hr : resolveOne d name i = some r) {v : GoValue}
    (hv : Fresh p received r.ai r.dt r.name v) : FreshResult p d received (goodResult p name r v) := by
  obtain ⟨⟨cfg, ai⟩, hlook, rfl⟩ := map_eq_some_iff.mp hr
  exact ⟨cfg, ai, v, hlook, hv, rfl⟩

theorem not_good_bad (name e : String) : (TagResult.bad name e).quality ≠ .good := by
  intro h
  cases h

variable {out : List TagResult}

/-- **One name**: a result is added, and a good one has its value from the ranges or from a response of its own. -/
theorem assemble_cons (hretry : 0 ≤ d.maxRetry) {rest : List (String × Option BatchTagReq)}
    {req : Option BatchTagReq} {results : List TagResult}
    (h : assemble env p d values ((name, req) :: rest) results client s = some (.ok out, s')) :
    ∃ res client₁ s₁, assemble env p d values rest (results ++ [res]) client₁ s₁ = some (.ok out, s') ∧
      s.received ⊆ s₁.received ∧ (res.quality = .good → ∃ r v, req = some r ∧ res = goodResult p name r v ∧
        ((r.index, v) ∈ values ∨ Fresh p s₁.received r.ai r.dt r.name v)) := by
  cases req with
  | none => exact ⟨_, client, s, h, Subset.refl _, fun hgood => absurd hgood (not_good_bad _ _)⟩
  | some r =>
    rw [assemble] at h
    cases hvalue : values.lookup r.index with
    | some v =>
      simp only [hvalue] at h
      have hmem : (r.index, v) ∈ values := by
        obtain ⟨l₁, l₂, heq, -⟩ := lookup_eq_some_iff.mp hvalue
        exact heq ▸ mem_append_right _ (mem_cons_self ..)
      exact ⟨_, client, s, h, Subset.refl _, fun _ => ⟨r, v, rfl, rfl, .inl hmem⟩⟩
    | none =>
      simp only [hvalue] at h
      obtain ⟨⟨ended, client₁, s₁⟩, hrun, h⟩ := bind_eq_some_iff.mp h
      obtain ⟨hsub, hfresh⟩ := readTagWithRetry_fresh hretry hrun
      cases ended with
      | cancelled err => cases h
      | failed e =>
        refine ⟨_, client₁, _, h, ?_, fun hgood => absurd hgood (not_good_bad _ _)⟩
        split_ifs
        · rwa [received_handleConnLostIfCurrent]
        · exact hsub
      | value v => exact ⟨_, client₁, s₁, h, hsub, fun _ => ⟨r, v, rfl, rfl, .inr (hfresh v rfl)⟩⟩

theorem assemble_fresh (hretry : 0 ≤ d.maxRetry) :
    ∀ rest {results out : List TagResult} {client : Option Client} {s s' : Session},
      (∀ e ∈ rest, e ∈ names.zip (resolve d names)) → Sound p d names s.received values →
      (∀ res ∈ results, res.quality = .good → FreshResult p d s.received res) →
      assemble env p d values rest results client s = some (.ok out, s') →
      ∀ res ∈ out, res.quality = .good → FreshResult p d s'.received res
  | [], results, out, client, s, s', _, _, hresults, h => by
    cases h
    exact hresults
  | (name, req) :: rest, results, out, client, s, s', hrest, hsound, hresults, h => by
    obtain ⟨res, client₁, s₁, hnext, hsub, hnew⟩ := assemble_cons hretry h
    have hsound₁ := hsound.mono hsub
    refine assemble_fresh hretry rest (fun e he => hrest e (mem_cons_of_mem _ he)) hsound₁
      (fun res' hres hgood => ?_) hnext
    rcases mem_append.mp hres with hres | hres
    · exact (hresults res' hres hgood).mono hsub
    · obtain rfl := mem_singleton.mp hres
      obtain ⟨r, v, rfl, rfl, hv⟩ := hnew hgood
      obtain ⟨i, hi, hr⟩ := mem_zip_resolve.mp (hrest _ (mem_cons_self ..))
      refine freshResult_good hr.symm (hv.elim (fun hmem => ?_) id)
      have hindex : r.index = i := by
        obtain ⟨-, -, rfl⟩ := map_eq_some_iff.mp hr.symm
        rfl
      obtain ⟨r', hindex', hreq', hfresh⟩ := hsound₁ _ _ hmem
      obtain rfl := requested_unique hreq' ⟨name, hindex ▸ hi, hindex ▸ hr.symm⟩ hindex'
      exact hfresh

/-- **What is good is fresh**, for every course of events. -/
theorem read_fresh (hretry : 0 ≤ d.maxRetry) (haddr : Addressed d)
    (h : read env p name d areas names s = some (.ok out, s')) :
    ∀ res ∈ out, res.quality = .good → FreshResult p d s'.received res := by
  unfold Reading.read at h
  simp only at h
  split_ifs at h
  · cases h
  · obtain ⟨⟨values, client, s₁⟩, hranges, h⟩ := bind_eq_some_iff.mp h
    have hempty : Sound p d names (look env s).received [] := fun i v hv => absurd hv not_mem_nil
    obtain ⟨-, hsound⟩ := readRanges_sound hretry _ (fun b hb => fromRequests_of_mem haddr hb) hempty hranges
    exact assemble_fresh hretry _ (fun e he => he) hsound (fun res hres => absurd hres not_mem_nil) h

/-! ### A negative setting -/

theorem attempts_of_neg (hretry : d.maxRetry < 0) : attempts d = 0 := by
  unfold attempts
  omega

theorem readRanges_of_neg (hretry : d.maxRetry < 0) : ∀ bs client s,
    readRanges env p d bs [] client s = some ([], client, s)
  | [], client, s => rfl
  | b :: bs, client, s => by
    have hnone : readBatchWithRetry env p d b client s = some (.value [], client, s) := by
      rw [readBatchWithRetry, attempts_of_neg hretry]
      rfl
    rw [readRanges, hnone]
    exact readRanges_of_neg hretry bs client s

def unattempted (p : Platform) : String × Option BatchTagReq → TagResult
  | (name, none) => .bad name ("tag not found: " ++ name)
  | (name, some r) => goodResult p name r .nil

theorem assemble_of_neg (hretry : d.maxRetry < 0) :
    ∀ rest results client s,
      assemble env p d [] rest results client s = some (.ok (results ++ rest.map (unattempted p)), s)
  | [], results, client, s => by rw [map_nil, append_nil]; rfl
  | (name, none) :: rest, results, client, s => by
    rw [assemble, assemble_of_neg hretry rest, append_assoc]
    rfl
  | (name, some r) :: rest, results, client, s => by
    have hnone : Reading.readTagWithRetry env p d r client s = some (.value .nil, client, s) := by
      rw [Reading.readTagWithRetry, attempts_of_neg hretry]
      rfl
    rw [assemble]
    simp only [hnone, bind_some]
    rw [assemble_of_neg hretry rest, append_assoc]
    rfl

theorem read_of_neg (env : Env) (p : Platform) (hretry : d.maxRetry < 0) (name : String) (areas : List Area)
    (names : List String) (s : Session)
    (hup : (look env s).conn.state = .connected ∧ (look env s).conn.client ≠ none) :
    read env p name d areas names s = some (.ok ((names.zip (resolve d names)).map (unattempted p)), look env s) := by
  have hnot : ¬ ((look env s).conn.state ≠ .connected ∨ (look env s).conn.client = none) := by
    rintro (h | h)
    · exact h hup.1
    · exact hup.2 h
  unfold Reading.read
  simp [if_neg hnot, readRanges_of_neg hretry, assemble_of_neg hretry]

end

/-- **Good means fresh**: every good value of a read has been decoded from a response received in it, for every course
of events, exactly if the retry setting is not negative or no tag of the driver is asked for. -/
theorem good_is_fresh_iff (p : Platform) (name : String) (d : ModbusBase) (areas : List Area) (names : List String)
    (haddr : Addressed d) :
    (∀ env s s' out, s.received = [] → read env p name d areas names s = some (.ok out, s') →
      ∀ res ∈ out, res.quality = .good → FreshResult p d s'.received res) ↔
      0 ≤ d.maxRetry ∨ ∀ tag ∈ names, d.tags.lookup tag = none := by
  constructor
  · intro hall
    by_contra hnot
    push Not at hnot
    obtain ⟨hretry, tag, htag, hknown⟩ := hnot
    have hread := read_of_neg ⟨fun _ _ => .error "", fun _ => none, fun _ conn => conn⟩ p hretry name areas names
      ⟨⟨.connected, some 0⟩, 0, []⟩ ⟨rfl, nofun⟩
    obtain ⟨i, hi⟩ := mem_iff_getElem?.mp htag
    obtain ⟨r, hr⟩ := isSome_iff_exists.mp (show (resolveOne d tag i).isSome = true by
      rw [resolveOne, isSome_map, isSome_iff_ne_none]
      exact hknown)
    have hmem := mem_map_of_mem (f := unattempted p) (mem_zip_resolve.mpr ⟨i, hi, hr.symm⟩)
    obtain ⟨cfg, ai, v, -, ⟨ρ, hρ, -⟩, -⟩ := hall _ _ _ _ rfl hread _ hmem rfl
    exact absurd hρ not_mem_nil
  · rintro (hretry | hunknown) env s s' out hnil hread
    · exact read_fresh hretry haddr hread
    · by_cases hretry : 0 ≤ d.maxRetry
      · exact read_fresh hretry haddr hread
      · intro res hres hgood
        by_cases hup : (look env s).conn.state = .connected ∧ (look env s).conn.client ≠ none
        · rw [read_of_neg env p (Int.not_le.mp hretry) name areas names s hup] at hread
          cases hread
          obtain ⟨⟨tag, req⟩, hmem, rfl⟩ := mem_map.mp hres
          obtain ⟨i, hi, rfl⟩ := mem_zip_resolve.mp hmem
          rw [resolveOne, hunknown tag (mem_of_getElem? hi)] at hgood
          exact absurd hgood (not_good_bad _ _)
        · have hnot : (look env s).conn.state ≠ .connected ∨ (look env s).conn.client = none := by
            by_contra h
            push Not at h
            exact hup h
          unfold Reading.read at hread
          simp only [if_pos hnot] at hread
          cases hread

theorem addressed_pumpDriver : Addressed pumpDriver := by
  intro name cfg ai hlook
  by_cases hname : name = "speed"
  · rw [hname] at hlook
    cases hlook
    decide
  · rw [pumpDriver, AList.lookup_insert_ne hname] at hlook
    cases hlook

/-- A tag that the driver knows, and a setting that is not negative. -/
theorem speed_is_fresh : pumpDriver.maxRetry = 3 ∧ ∀ env s s' out, s.received = [] →
    read env amd64 "pump" pumpDriver [.holdingRegister] ["speed"] s = some (.ok out, s') →
    ∀ res ∈ out, res.quality = .good → FreshResult amd64 pumpDriver s'.received res :=
  ⟨rfl, (good_is_fresh_iff amd64 "pump" pumpDriver [.holdingRegister] ["speed"] addressed_pumpDriver).mpr
    (.inl (by decide))⟩

/-- With the setting -1 the tag is good and has no value, although every request would have failed. -/
theorem speed_unread : ∃ s', read ⟨fun _ _ => .error "EOF", fun _ => none, fun _ conn => conn⟩ amd64 "pump"
      { pumpDriver with maxRetry := -1 } [.holdingRegister] ["speed"] ⟨⟨.connected, some 0⟩, 0, []⟩ =
    some (.ok [.good "speed" .nil .int16], s') ∧ s'.received = [] :=
  ⟨_, rfl, rfl⟩

end CoreC.Modbus.Freshness
