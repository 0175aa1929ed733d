import CoreC.Core.Types
import CoreC.Lib.Runs

/-! # Topology discovery

`engine/discovery.go`: nodes announce themselves with heartbeats, and `reconcile` adds a transport for every subscribed
upstream that has been heard and publishes on MQTT, with the first broker for which the pair of broker and upstream is
not in `autoAdded` yet. Nodes that have not been heard for three heartbeat intervals are evicted, together with the
pairs whose key ends in their name. The name of the transport depends on the upstream alone, so a second call for an
upstream replaces its transport. -/

namespace CoreC.Engine.Discovery

open Core.Types Lib.Yaml Lib.Runs List

/-! ### The model -/

structure Endpoint where
  type : String
  topic : String := ""
  url : String := ""
  deriving DecidableEq, Repr

/-- `nodeInfo`: what a heartbeat says, and when it came, in nanoseconds. -/
structure NodeInfo where
  id : String
  role : String := ""
  subscribe : List String := []
  publish : Option Endpoint := none
  receive : Option Endpoint := none
  timestamp : ℤ := 0
  lastSeen : ℤ := 0
  deriving DecidableEq, Repr

/-- What `NewDiscovery` is given of the node: its name, its upstreams and the URLs of its brokers. -/
structure Node where
  nodeID : String
  subscribe : List String
  brokers : List String

/-- `Discovery`: the registry, `autoAdded`, and the calls of `addTransport` so far. -/
structure State where
  registry : List NodeInfo := []
  autoAdded : List String := []
  calls : List TransportConfig := []

/-- A heartbeat that is received, or a round of `reconcile` with the answers of `addTransport`. -/
inductive Event where
  | heartbeat (info : NodeInfo) (now : ℤ)
  | reconcile (now : ℤ) (fails : TransportConfig → Bool)

/-- `defaultHeartbeatSecs` three times, in nanoseconds. -/
def evictAfter : ℤ := 15000000000

def Stale (now : ℤ) (info : NodeInfo) : Prop := info.lastSeen < now - evictAfter

instance (now : ℤ) (info : NodeInfo) : Decidable (Stale now info) := inferInstanceAs (Decidable (_ < _))

/-- The key of a pair in `autoAdded`. -/
def pairKey (broker upstreamID : String) : String := broker ++ "|" ++ upstreamID

/-- `strings.HasSuffix(key, "|"+id)`. -/
def EndsIn (key id : String) : Prop := ("|" ++ id).toList <:+ key.toList

instance (key id : String) : Decidable (EndsIn key id) := inferInstanceAs (Decidable (_ <:+ _))

variable (n : Node)

/-- `onDiscoveryMessage`, for a payload that decodes: the heartbeats of the node itself are ignored. -/
def onDiscoveryMessage (info : NodeInfo) (now : ℤ) (s : State) : State :=
  if info.id = n.nodeID then s
  else { s with registry := { info with lastSeen := now } :: s.registry.filter (·.id ≠ info.id) }

/-- The eviction of `reconcile`. -/
def evict (now : ℤ) (s : State) : State :=
  { s with
    registry := s.registry.filter (¬ Stale now ·)
    autoAdded := s.autoAdded.filter fun key => ∀ info ∈ s.registry, Stale now info → ¬ EndsIn key info.id }

variable (upstreamID : String)

def autoName : String := "auto-" ++ upstreamID

def autoTransport (broker upstreamID topic : String) : TransportConfig where
  name := autoName upstreamID
  type := "mqtt"
  settings := GoMap.ofEntries [("broker", .scalar (.str broker)), ("data-topic", .scalar (.str topic)),
    ("parser", .map [("type", .scalar (.str "default"))])]

def tryBrokers (fails : TransportConfig → Bool) (upstreamID topic : String) : List String → State → State
  | [], s => s
  | broker :: brokers, s =>
    if pairKey broker upstreamID ∈ s.autoAdded then tryBrokers fails upstreamID topic brokers s
    else
      let tc := autoTransport broker upstreamID topic
      -- a call that fails takes the pair out again
      if fails tc then tryBrokers fails upstreamID topic brokers { s with calls := s.calls ++ [tc] }
      else { s with autoAdded := pairKey broker upstreamID :: s.autoAdded, calls := s.calls ++ [tc] }

def subscribeTo (fails : TransportConfig → Bool) (s : State) (upstreamID : String) : State :=
  match s.registry.find? fun info => info.id = upstreamID with
  | none => s
  | some info =>
    match info.publish with
    | none => s
    | some publish =>
      if publish.type = "mqtt" then tryBrokers fails upstreamID publish.topic n.brokers s else s

def reconcile (now : ℤ) (fails : TransportConfig → Bool) (s : State) : State :=
  n.subscribe.foldl (subscribeTo n fails) (evict now s)

def step (s : State) : Event → Option State
  | .heartbeat info now => some (onDiscoveryMessage n info now s)
  | .reconcile now fails => some (reconcile n now fails s)

def callsFor (s : State) : ℕ := s.calls.countP fun tc => tc.name = autoName upstreamID

/-- `addTransport` succeeds, and the upstream is not evicted. -/
def Heard (s : State) : Event → Prop
  | .heartbeat _ _ => True
  | .reconcile now fails => (∀ tc, fails tc = false) ∧ ∀ info ∈ s.registry, info.id = upstreamID → ¬ Stale now info

/-- The upstream gets one transport at the most. -/
def Settles (upstreamID : String) : Prop :=
  ∀ events s, Run (step n) (Heard upstreamID) {} events s → callsFor upstreamID s ≤ 1

/-! ### The calls of one round -/

section

variable {n : Node} {u : String} {fails : TransportConfig → Bool} {s s' : State} {ev : Event} {b : String} {now : ℤ}

theorem autoName_inj {v w : String} : autoName v = autoName w ↔ v = w := by
  refine ⟨fun h => ?_, congrArg autoName⟩
  have h' := congrArg String.toList h
  rw [autoName, autoName, String.toList_append, String.toList_append] at h'
  exact String.toList_inj.mp (append_cancel_left h')

theorem pairKey_inj {b' : String} : pairKey b u = pairKey b' u ↔ b = b' := by
  refine ⟨fun h => ?_, fun h => h ▸ rfl⟩
  have h' := congrArg String.toList h
  simp only [pairKey, String.toList_append] at h'
  exact String.toList_inj.mp (append_cancel_right (append_cancel_right h'))

theorem tryBrokers_cases (hfails : ∀ tc, fails tc = false) (topic : String) : ∀ brokers s,
    ((∀ b ∈ brokers, pairKey b u ∈ s.autoAdded) ∧ tryBrokers fails u topic brokers s = s) ∨
    ∃ b ∈ brokers, pairKey b u ∉ s.autoAdded ∧ tryBrokers fails u topic brokers s =
      { s with autoAdded := pairKey b u :: s.autoAdded, calls := s.calls ++ [autoTransport b u topic] }
  | [], s => .inl ⟨nofun, rfl⟩
  | b :: brokers, s => by
    rw [tryBrokers]
    by_cases hb : pairKey b u ∈ s.autoAdded
    · rw [if_pos hb]
      rcases tryBrokers_cases hfails topic brokers s with ⟨hall, hsame⟩ | ⟨b', hb', hnew, hadd⟩
      · exact .inl ⟨forall_mem_cons.mpr ⟨hb, hall⟩, hsame⟩
      · exact .inr ⟨b', mem_cons_of_mem _ hb', hnew, hadd⟩
    · rw [if_neg hb]
      refine .inr ⟨b, mem_cons_self, hb, ?_⟩
      simp [hfails]

theorem subscribeTo_cases (hfails : ∀ tc, fails tc = false) (s : State) (w : String) :
    subscribeTo n fails s w = s ∨ (∃ info ∈ s.registry, info.id = w) ∧
      ∃ b ∈ n.brokers, ∃ topic, pairKey b w ∉ s.autoAdded ∧ subscribeTo n fails s w =
        { s with autoAdded := pairKey b w :: s.autoAdded, calls := s.calls ++ [autoTransport b w topic] } := by
  unfold subscribeTo
  cases hfind : s.registry.find? fun info => info.id = w with
  | none => exact .inl rfl
  | some info =>
    cases hpublish : info.publish with
    | none => exact .inl (by simp [hpublish])
    | some publish =>
      have hinfo : ∃ info ∈ s.registry, info.id = w :=
        ⟨info, mem_of_find?_eq_some hfind, by simpa using List.find?_some hfind⟩
      simp only [hpublish]
      split_ifs
      · rcases tryBrokers_cases hfails publish.topic n.brokers s with ⟨-, hsame⟩ | ⟨b, hb, hnew, hadd⟩
        · exact .inl hsame
        · exact .inr ⟨hinfo, b, hb, publish.topic, hnew, hadd⟩
      · exact .inl rfl

theorem reconcile_keeps {P : State → Prop} (hevict : P (evict now s))
    (hstep : ∀ w ∈ n.subscribe, ∀ s, P s → P (subscribeTo n fails s w)) : P (reconcile n now fails s) :=
  List.foldlRecOn n.subscribe _ hevict fun s hs w hw => hstep w hw s hs

theorem callsFor_append {w topic : String} {autoAdded : List String} :
    callsFor u { s with autoAdded := autoAdded, calls := s.calls ++ [autoTransport b w topic] } =
      callsFor u s + if w = u then 1 else 0 := by
  simp [callsFor, autoTransport, autoName_inj]

/-! ### Runs that settle -/

def Unambiguous (n : Node) (u : String) : Prop :=
  (∀ b ∈ n.brokers, ∀ b' ∈ n.brokers, b = b') ∧ ∀ b ∈ n.brokers, ∀ v, v ≠ u → v ≠ n.nodeID → ¬ EndsIn (pairKey b u) v

def Others (n : Node) (s : State) : Prop := ∀ info ∈ s.registry, info.id ≠ n.nodeID

theorem others_step (hev : Heard u s ev) (hstep : step n s ev = some s') (hs : Others n s) : Others n s' := by
  cases ev with
  | heartbeat info now =>
    cases hstep
    unfold onDiscoveryMessage
    split_ifs with hown
    · exact hs
    · intro info' hinfo'
      rcases mem_cons.mp hinfo' with rfl | hinfo'
      · exact hown
      · exact hs info' (mem_of_mem_filter hinfo')
  | reconcile now fails =>
    cases hstep
    refine reconcile_keeps (fun info hinfo => hs info (mem_of_mem_filter hinfo)) fun w _ s hs => ?_
    rcases subscribeTo_cases hev.1 s w with hsame | ⟨-, b, -, topic, -, hadd⟩
    · rwa [hsame]
    · rw [hadd]
      exact hs

theorem no_calls_step (hu : u ∉ n.subscribe ∨ u = n.nodeID) (hev : Heard u s ev) (hstep : step n s ev = some s')
    (hs : Others n s ∧ callsFor u s = 0) : Others n s' ∧ callsFor u s' = 0 := by
  refine ⟨others_step hev hstep hs.1, ?_⟩
  cases ev with
  | heartbeat info now =>
    cases hstep
    unfold onDiscoveryMessage
    split_ifs
    · exact hs.2
    · exact hs.2
  | reconcile now fails =>
    cases hstep
    have hstart : Others n (evict now s) ∧ callsFor u (evict now s) = 0 :=
      ⟨fun info hinfo => hs.1 info (mem_of_mem_filter hinfo), hs.2⟩
    refine (reconcile_keeps (P := fun s => Others n s ∧ callsFor u s = 0) hstart fun w hw s hs => ?_).2
    rcases subscribeTo_cases hev.1 s w with hsame | ⟨⟨info, hinfo, hid⟩, b, -, topic, -, hadd⟩
    · rwa [hsame]
    · have hne : w ≠ u := by
        rintro rfl
        rcases hu with hu | hu
        · exact hu hw
        · exact hs.1 info hinfo (hid.trans hu)
      rw [hadd, callsFor_append, if_neg hne]
      exact hs

/-- There is at most one call for the upstream, and after it its pairs are in `autoAdded`. -/
def Settled (n : Node) (u : String) (s : State) : Prop :=
  callsFor u s ≤ 1 ∧ (callsFor u s = 1 → ∀ b ∈ n.brokers, pairKey b u ∈ s.autoAdded)

theorem settled_subscribeTo (hone : ∀ b ∈ n.brokers, ∀ b' ∈ n.brokers, b = b') (hfails : ∀ tc, fails tc = false)
    (w : String) (hs : Settled n u s) : Settled n u (subscribeTo n fails s w) := by
  rcases subscribeTo_cases hfails s w with hsame | ⟨-, b, hb, topic, hnew, hadd⟩
  · rwa [hsame]
  · rw [hadd, Settled, callsFor_append]
    by_cases hw : w = u
    · -- a call for the upstream is its first one
      subst hw
      have hzero : callsFor w s = 0 := by
        by_contra hpos
        exact hnew (hs.2 (by have := hs.1; omega) b hb)
      refine ⟨by rw [hzero]; split_ifs <;> omega, fun _ b' hb' => ?_⟩
      rw [hone b' hb' b hb]
      exact mem_cons_self
    · rw [if_neg hw]
      exact ⟨hs.1, fun h b' hb' => mem_cons_of_mem _ (hs.2 h b' hb')⟩

theorem settled_step (hu : Unambiguous n u) (hev : Heard u s ev) (hstep : step n s ev = some s')
    (hs : Others n s ∧ Settled n u s) : Others n s' ∧ Settled n u s' := by
  refine ⟨others_step hev hstep hs.1, ?_⟩
  cases ev with
  | heartbeat info now =>
    cases hstep
    unfold onDiscoveryMessage
    split_ifs
    · exact hs.2
    · exact hs.2
  | reconcile now fails =>
    cases hstep
    refine reconcile_keeps ⟨hs.2.1, fun h b hb => mem_filter.mpr ⟨hs.2.2 h b hb, ?_⟩⟩
      fun w _ s hs => settled_subscribeTo hu.1 hev.1 w hs
    -- the key of the pair does not end in the name of a node that is evicted
    rw [decide_eq_true_eq]
    intro info hinfo hstale
    exact hu.2 b hb info.id (fun hid => hev.2 info hinfo hid hstale) (hs.1 info hinfo)

/-! ### Runs that do not settle -/

def publishing (u : String) : NodeInfo := { id := u, publish := some { type := "mqtt", topic := "data" } }

theorem reconcile_single (hsub : n.subscribe.Nodup) (hu : u ∈ n.subscribe) (hfails : ∀ tc, fails tc = false) {at_ : ℤ}
    {others : List NodeInfo} (hreg : (evict now s).registry = { publishing u with lastSeen := at_ } :: others)
    (hothers : ∀ info ∈ others, info.publish = none) :
    reconcile n now fails s = tryBrokers fails u "data" n.brokers (evict now s) := by
  have hregistry : (tryBrokers fails u "data" n.brokers (evict now s)).registry = (evict now s).registry := by
    rcases tryBrokers_cases hfails "data" n.brokers (evict now s) with ⟨-, hsame⟩ | ⟨b, -, -, hadd⟩
    · rw [hsame]
    · rw [hadd]
  -- the other upstreams are not in the registry, or do not publish
  have hskip : ∀ (ws : List String) (s' : State), s'.registry = (evict now s).registry → u ∉ ws →
      ws.foldl (subscribeTo n fails) s' = s' := by
    intro ws s' hs' hws
    induction ws with
    | nil => rfl
    | cons w ws ih =>
      rw [mem_cons, not_or] at hws
      have hw : subscribeTo n fails s' w = s' := by
        unfold subscribeTo
        rw [hs', hreg, List.find?_cons_of_neg (by simp [publishing, hws.1])]
        cases hfind : others.find? fun info => info.id = w with
        | none => rfl
        | some info => simp [hothers info (mem_of_find?_eq_some hfind)]
      rw [foldl_cons, hw]
      exact ih hws.2
  obtain ⟨before, after, hsplit⟩ := append_of_mem hu
  rw [hsplit, nodup_append, nodup_cons] at hsub
  have hbefore : u ∉ before := fun h => hsub.2.2 u h u mem_cons_self rfl
  have hself : subscribeTo n fails (evict now s) u = tryBrokers fails u "data" n.brokers (evict now s) := by
    unfold subscribeTo
    rw [hreg]
    simp [publishing]
  rw [reconcile, hsplit, foldl_append, hskip before _ rfl hbefore, foldl_cons, hself,
    hskip after _ hregistry hsub.2.1.1]

theorem reconcile_adds (hsub : n.subscribe.Nodup) (hu : u ∈ n.subscribe) (hfails : ∀ tc, fails tc = false) {at_ : ℤ}
    {others : List NodeInfo} (hreg : (evict now s).registry = { publishing u with lastSeen := at_ } :: others)
    (hothers : ∀ info ∈ others, info.publish = none) (hb : b ∈ n.brokers)
    (hnew : pairKey b u ∉ (evict now s).autoAdded) :
    ∃ b' ∈ n.brokers, (reconcile n now fails s).registry = (evict now s).registry ∧
      (reconcile n now fails s).autoAdded = pairKey b' u :: (evict now s).autoAdded ∧
      callsFor u (reconcile n now fails s) = callsFor u s + 1 := by
  rw [reconcile_single hsub hu hfails hreg hothers]
  rcases tryBrokers_cases hfails "data" n.brokers (evict now s) with ⟨hall, -⟩ | ⟨b', hb', -, hadd⟩
  · exact absurd (hall b hb) hnew
  · rw [hadd, callsFor_append, if_pos rfl]
    exact ⟨b', hb', rfl, rfl, rfl⟩

def succeeds : TransportConfig → Bool := fun _ => false

theorem succeeds_eq (tc : TransportConfig) : succeeds tc = false := rfl

theorem not_stale_now {info : NodeInfo} (h : info.lastSeen = now) : ¬ Stale now info := by
  unfold Stale evictAfter
  omega

theorem not_settles_of_brokers (hsub : n.subscribe.Nodup) (hu : u ∈ n.subscribe) (hself : u ≠ n.nodeID) {b' : String}
    (hb : b ∈ n.brokers) (hb' : b' ∈ n.brokers) (hne : b ≠ b') : ¬ Settles n u := by
  intro hsettles
  let s₁ := onDiscoveryMessage n (publishing u) 0 {}
  let s₂ := reconcile n 0 succeeds s₁
  have hs₁ : s₁ = { registry := [{ publishing u with lastSeen := 0 }] } := by
    simp [s₁, onDiscoveryMessage, publishing, hself]
  have hkeep : ∀ s, s.registry = [{ publishing u with lastSeen := 0 }] →
      (evict 0 s).registry = [{ publishing u with lastSeen := 0 }] := by
    intro s hs
    rw [evict, hs]
    rfl
  have hreg₁ : s₁.registry = [{ publishing u with lastSeen := 0 }] := by rw [hs₁]
  have hadded₁ : (evict 0 s₁).autoAdded = [] := by
    rw [hs₁]
    rfl
  obtain ⟨b₁, -, hreg, hadded, hcalls⟩ := reconcile_adds hsub hu succeeds_eq (hkeep s₁ hreg₁)
    nofun hb (by rw [hadded₁]; nofun)
  have hreg₂ : s₂.registry = [{ publishing u with lastSeen := 0 }] := hreg.trans (hkeep s₁ hreg₁)
  -- a pair with another broker than that of the first round
  obtain ⟨b₂, hb₂, hne₂⟩ : ∃ b₂ ∈ n.brokers, b₂ ≠ b₁ := by
    by_cases h : b = b₁
    · exact ⟨b', hb', fun h' => hne (h.trans h'.symm)⟩
    · exact ⟨b, hb, h⟩
  have hnew : pairKey b₂ u ∉ (evict 0 s₂).autoAdded := by
    intro hmem
    have hmem' := mem_of_mem_filter hmem
    rw [hadded, hadded₁, mem_singleton, pairKey_inj] at hmem'
    exact hne₂ hmem'
  obtain ⟨-, -, -, -, hcalls₂⟩ := reconcile_adds hsub hu succeeds_eq (hkeep s₂ hreg₂) nofun hb₂ hnew
  have hheard : ∀ s, s.registry = [{ publishing u with lastSeen := 0 }] →
      Heard u s (.reconcile 0 succeeds) := by
    refine fun s hs => ⟨fun _ => rfl, fun info hinfo _ => not_stale_now ?_⟩
    rw [hs, mem_singleton] at hinfo
    rw [hinfo]
  have hrun : Run (step n) (Heard u) {} [.heartbeat (publishing u) 0, .reconcile 0 succeeds, .reconcile 0 succeeds]
      (reconcile n 0 succeeds s₂) :=
    .cons trivial rfl (.cons (hheard s₁ hreg₁) rfl (.cons (hheard s₂ hreg₂) rfl (.nil _)))
  have hle := hsettles _ _ hrun
  rw [hcalls₂, hcalls] at hle
  omega

/-- A node is heard once and evicted, and the key of the upstream on its only broker ends in the name of that node. -/
theorem not_settles_of_endsIn (hsub : n.subscribe.Nodup) (hu : u ∈ n.subscribe) (hself : u ≠ n.nodeID)
    (hone : ∀ b ∈ n.brokers, ∀ b' ∈ n.brokers, b = b') {v : String} (hb : b ∈ n.brokers) (hv : v ≠ u)
    (hvself : v ≠ n.nodeID) (hends : EndsIn (pairKey b u) v) : ¬ Settles n u := by
  intro hsettles
  let later : ℤ := 20000000000
  let s₁ := onDiscoveryMessage n { id := v } 0 {}
  let s₂ := onDiscoveryMessage n (publishing u) 0 s₁
  let s₃ := reconcile n 0 succeeds s₂
  let s₄ := onDiscoveryMessage n (publishing u) later s₃
  have hs₂ : s₂ = { registry := [{ publishing u with lastSeen := 0 }, { id := v }] } := by
    simp [s₂, s₁, onDiscoveryMessage, publishing, hself, hvself, hv]
  have hreg₂ : (evict 0 s₂).registry = [{ publishing u with lastSeen := 0 }, { id := v }] := by
    rw [hs₂]
    rfl
  have hadded₂ : (evict 0 s₂).autoAdded = [] := by
    rw [hs₂]
    rfl
  obtain ⟨b₁, hb₁, hreg₃, hadded₃, hcalls₃⟩ := reconcile_adds hsub hu succeeds_eq hreg₂
    (by simp) hb (by rw [hadded₂]; nofun)
  rw [hone b₁ hb₁ b hb, hadded₂] at hadded₃
  have hs₄ : s₄ = { s₃ with registry := [{ publishing u with lastSeen := later }, { id := v }] } := by
    simp only [s₄, onDiscoveryMessage, publishing, if_neg hself, s₃, hreg₃, hreg₂]
    simp [hv]
  have hreg₄ : (evict later s₄).registry = [{ publishing u with lastSeen := later }] := by
    rw [hs₄]
    rfl
  -- the eviction of the node takes the pair of the upstream along
  have hadded₄ : (evict later s₄).autoAdded = [] := by
    rw [hs₄]
    have hstale : Stale later { id := v } := show (0 : ℤ) < 20000000000 - 15000000000 by decide
    simp only [evict, s₃, hadded₃, filter_eq_nil_iff, mem_singleton, decide_eq_true_eq]
    rintro _ rfl hkept
    exact hkept { id := v } (by simp) hstale hends
  obtain ⟨-, -, -, -, hcalls₅⟩ := reconcile_adds hsub hu succeeds_eq hreg₄ nofun hb (by rw [hadded₄]; nofun)
  have hheard₂ : Heard u s₂ (.reconcile 0 succeeds) := by
    refine ⟨fun _ => rfl, fun info hinfo hid => not_stale_now ?_⟩
    rw [hs₂] at hinfo
    rcases mem_pair.mp hinfo with rfl | rfl
    · rfl
    · rfl
  have hheard₄ : Heard u s₄ (.reconcile later succeeds) := by
    refine ⟨fun _ => rfl, fun info hinfo hid => not_stale_now ?_⟩
    rw [hs₄] at hinfo
    rcases mem_pair.mp hinfo with rfl | rfl
    · rfl
    · exact absurd hid hv
  have hrun : Run (step n) (Heard u) {} [.heartbeat { id := v } 0, .heartbeat (publishing u) 0, .reconcile 0 succeeds,
      .heartbeat (publishing u) later, .reconcile later succeeds] (reconcile n later succeeds s₄) :=
    .cons trivial rfl (.cons trivial rfl (.cons hheard₂ rfl (.cons trivial rfl (.cons hheard₄ rfl (.nil _)))))
  have hle := hsettles _ _ hrun
  have hcalls₄ : callsFor u s₄ = callsFor u s₃ := by
    rw [hs₄]
    rfl
  rw [hcalls₅, hcalls₄, hcalls₃] at hle
  omega

end

/-! ### When discovery settles -/

/-- **An upstream that keeps being heard gets at most one transport in every run exactly when** it is not subscribed,
or is the node itself, or there is one broker and the key of the pair does not end in the name of another node. -/
theorem settles_iff (n : Node) (u : String) (hsub : n.subscribe.Nodup) : Settles n u ↔ u ∉ n.subscribe ∨ u = n.nodeID ∨
      (∀ b ∈ n.brokers, ∀ b' ∈ n.brokers, b = b') ∧
        ∀ b ∈ n.brokers, ∀ v, v ≠ u → v ≠ n.nodeID → ¬ EndsIn (pairKey b u) v := by
  constructor
  · intro hsettles
    by_contra hcond
    simp only [not_or, not_not] at hcond
    obtain ⟨hu, hself, hamb⟩ := hcond
    by_cases hone : ∀ b ∈ n.brokers, ∀ b' ∈ n.brokers, b = b'
    · refine hamb ⟨hone, fun b hb v hv hvself hends => ?_⟩
      exact not_settles_of_endsIn hsub hu hself hone hb hv hvself hends hsettles
    · push Not at hone
      obtain ⟨b, hb, b', hb', hne⟩ := hone
      exact not_settles_of_brokers hsub hu hself hb hb' hne hsettles
  · intro hcond events s hrun
    have hnone : u ∉ n.subscribe ∨ u = n.nodeID → callsFor u s ≤ 1 := by
      intro hu
      have hzero := hrun.invariant (I := fun s => Others n s ∧ callsFor u s = 0)
        (fun _ _ _ hev hstep hs => no_calls_step hu hev hstep hs) ⟨nofun, rfl⟩
      rw [hzero.2]
      exact Nat.zero_le 1
    rcases hcond with hu | hu | hu
    · exact hnone (.inl hu)
    · exact hnone (.inr hu)
    · have hsettled := hrun.invariant (I := fun s => Others n s ∧ Settled n u s)
        (fun _ _ _ hev hstep hs => settled_step hu hev hstep hs) ⟨nofun, Nat.zero_le 1, nofun⟩
      exact hsettled.2.1

theorem eq_of_endsIn {b u v : String} (hb : '|' ∉ b.toList) (hu : '|' ∉ u.toList) (hends : EndsIn (pairKey b u) v) :
    v = u := by
  obtain ⟨pre, hpre⟩ := hends
  have hbar : "|".toList = ['|'] := by decide
  simp only [pairKey, String.toList_append, hbar, append_assoc, singleton_append] at hpre
  rcases append_eq_append_iff.mp hpre with ⟨mid, hb', htail⟩ | ⟨mid, -, htail⟩
  · cases mid with
    | nil => exact String.toList_inj.mp (List.cons.inj htail).2
    | cons c mid =>
      have hc : '|' = c := (List.cons.inj htail).1
      rw [hb', ← hc] at hb
      exact absurd (mem_append_right pre mem_cons_self) hb
  · cases mid with
    | nil => exact String.toList_inj.mp (List.cons.inj htail).2.symm
    | cons c mid =>
      rw [(List.cons.inj htail).2] at hu
      exact absurd (mem_append_right mid mem_cons_self) hu

/-- One broker, with no bar in its URL. -/
theorem settles_iff_single : Settles { nodeID := "edge", subscribe := ["plant"], brokers := ["tcp://a"] } "plant" := by
  refine (settles_iff { nodeID := "edge", subscribe := ["plant"], brokers := ["tcp://a"] } "plant" (by decide)).mpr ?_
  refine .inr (.inr ⟨by simp, fun b hb v hv _ hends => hv ?_⟩)
  rw [mem_singleton.mp hb] at hends
  exact eq_of_endsIn (by decide) (by decide) hends

/-- Two brokers: the second round replaces the transport that the first has added. -/
theorem replaced_on_second_broker :
    ∃ events s, Run (step { nodeID := "edge", subscribe := ["plant"], brokers := ["tcp://a", "tcp://b"] })
      (Heard "plant") {} events s ∧ callsFor "plant" s = 2 := by
  refine ⟨[.heartbeat (publishing "plant") 0, .reconcile 0 succeeds, .reconcile 0 succeeds], _,
    .cons trivial rfl (.cons ⟨fun _ => rfl, ?_⟩ rfl (.cons ⟨fun _ => rfl, ?_⟩ rfl (.nil _))), ?_⟩
  · decide +kernel
  · decide +kernel
  · decide +kernel

end CoreC.Engine.Discovery
