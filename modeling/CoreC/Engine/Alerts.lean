import Mathlib.Data.List.Perm.Basic
import CoreC.Core.Types
import CoreC.Lib.Runs

/-! # The life of an alert

`alertManager` (`engine/alerts.go`): `record`, `ack` and `sweep` read the clock, change the active alerts and the history
under the lock, and publish their events. `record` clears the alerts that fired longest ago when there are more than
`alertRegistryCap`. It reads the clock before it takes the lock, so the alert it has just made can be the one that fired
longest ago: then it is cleared before it has fired (`cleared_before_fired`). -/

namespace CoreC.Engine.Alerts

open Core.Types Lib.Runs Function List Option

/-! ### Alerts and events -/

/-- The zero value of `time.Time`, in nanoseconds since the Unix epoch. -/
def zeroTime : ℤ := -62135596800 * 10 ^ 9

structure Alert where
  key : String
  rule : String
  driver : String
  tag : String
  value : GoValue
  quality : Quality
  firstFired : ℤ
  lastFired : ℤ := zeroTime
  count : ℕ := 0
  acked : Bool := false
  ackedAt : ℤ := zeroTime

inductive AlertEventType where
  | fired | acked | cleared
  deriving DecidableEq, Repr

structure AlertEvent where
  type : AlertEventType
  alert : Alert
  at_ : ℤ

def alertRegistryCap : ℕ := 1000

def alertHistoryCap : ℕ := 500

def alertEventBufferSize : ℕ := 256

/-- `core.DefaultAlertActiveWindow`, in nanoseconds. -/
def defaultAlertActiveWindow : ℤ := 15 * 60 * 10 ^ 9

def alertKey (rule driver tag : String) : String := rule ++ "|" ++ driver ++ "|" ++ tag

def appendHistoryLocked (history : List AlertEvent) (ev : AlertEvent) : List AlertEvent :=
  let history := history ++ [ev]
  if history.length > alertHistoryCap then history.drop (history.length - alertHistoryCap) else history

/-! ### The sections under the lock -/

def lookup (active : List Alert) (key : String) : Option Alert := active.find? (·.key = key)

def arranged (active : List Alert) (order : List String) : List Alert := order.filterMap (lookup active)

def fire (a : Alert) (point : DataPoint) (now : ℤ) : Alert :=
  { a with value := point.value, quality := point.quality, lastFired := now, count := a.count + 1 }

def newAlert (rule : String) (point : DataPoint) (now : ℤ) : Alert where
  key := alertKey rule point.driver point.tag
  rule := rule
  driver := point.driver
  tag := point.tag
  value := point.value
  quality := point.quality
  firstFired := now

def fired (active : List Alert) (rule : String) (point : DataPoint) (now : ℤ) : List Alert × Option AlertEvent :=
  let key := alertKey rule point.driver point.tag
  match lookup active key with
  | some _ => (active.map fun a => if a.key = key then fire a point now else a, none)
  | none => (fire (newAlert rule point now) point now :: active, some ⟨.fired, newAlert rule point now, now⟩)

/-- The section of `record`: the active alerts, the events of those that the cap clears, and the event of a new alert.
`order` is the order of the keys that `sort.Slice` gives. -/
def record (active : List Alert) (rule : String) (point : DataPoint) (now : ℤ) (order : List String) :
    Option (List Alert × List AlertEvent × Option AlertEvent) :=
  let (active, ev) := fired active rule point now
  if active.length > alertRegistryCap then
    let byLastFired := arranged active order
    if order.Perm (active.map (·.key)) ∧ byLastFired.Pairwise (·.lastFired ≤ ·.lastFired) then
      let victims := byLastFired.take (active.length - alertRegistryCap)
      some (active.filter fun a => victims.all (·.key ≠ a.key), victims.map fun a => ⟨.cleared, a, now⟩, ev)
    else none
  else some (active, [], ev)

/-- The section of `ack`; nothing if the key is not active. -/
def ack (active : List Alert) (key : String) (now : ℤ) : Option (List Alert × AlertEvent) :=
  match lookup active key with
  | none => none
  | some a =>
    let a := { a with acked := true, ackedAt := now }
    some (active.map fun b => if b.key = key then a else b, ⟨.acked, a, now⟩)

/-- The section of `sweep`, which meets the keys in the order given. -/
def sweep (active : List Alert) (activeWindow now : ℤ) (order : List String) : Option (List Alert × List AlertEvent) :=
  if order.Perm (active.map (·.key)) then
    let expired := (arranged active order).filter fun a => now - a.lastFired ≥ activeWindow
    some (active.filter fun a => expired.all (·.key ≠ a.key), expired.map fun a => ⟨.cleared, a, now⟩)
  else none

/-! ### The manager -/

/-- A call in progress: it has read the clock and waits for the lock, it publishes what the cap has cleared while it
holds the lock, or it publishes its events after that. -/
inductive Call where
  | record (rule : String) (point : DataPoint) (now : ℤ)
  | ack (key : String) (now : ℤ)
  | sweep (now : ℤ)
  | capping (todo : List AlertEvent) (ev : Option AlertEvent)
  | publishing (todo : List AlertEvent)

/-- `alertManager`: the active alerts and the history; `log` is the history before it is cut to `alertHistoryCap`,
`published` what has entered `eventCh`. -/
structure AlertManager where
  active : List Alert := []
  history : List AlertEvent := []
  log : List AlertEvent := []
  activeWindow : ℤ
  eventCh : List AlertEvent := []
  published : List AlertEvent := []
  lock : Option ℕ := none
  clock : ℤ
  calls : ℕ → Option Call := fun _ => none

def newAlertManager (activeWindow clock : ℤ) : AlertManager :=
  { activeWindow := if activeWindow ≤ 0 then defaultAlertActiveWindow else activeWindow, clock := clock }

/-- What happens: the clock goes on, a call begins and reads it, a call makes its next step (`order` is the order in
which its section meets the keys), the fan-out goroutine takes an event. -/
inductive Act where
  | tick (clock : ℤ)
  | record (thread : ℕ) (rule : String) (point : DataPoint)
  | ack (thread : ℕ) (key : String)
  | sweep (thread : ℕ)
  | next (thread : ℕ) (order : List String)
  | receive

def AlertManager.append (s : AlertManager) (events : List AlertEvent) : AlertManager :=
  { s with history := events.foldl appendHistoryLocked s.history, log := s.log ++ events }

/-- `publish`, before the manager stops. -/
def publish (s : AlertManager) (ev : AlertEvent) : AlertManager :=
  if s.eventCh.length < alertEventBufferSize then
    { s with eventCh := s.eventCh ++ [ev], published := s.published ++ [ev] }
  else s

/-- The next step of a call of the thread, and what is left of the call; nothing if it waits for the lock. -/
def advance (s : AlertManager) (thread : ℕ) (order : List String) : Call → Option (AlertManager × Option Call)
  | .record rule point now =>
    if s.lock.isSome then none
    else
      match record s.active rule point now order with
      | none => none
      | some (active, cleared, ev) =>
        some ({ s with active := active, lock := some thread }.append (cleared ++ ev.toList), some (.capping cleared ev))
  | .ack key now =>
    if s.lock.isSome then none
    else
      match ack s.active key now with
      | none => some (s, none)
      | some (active, ev) => some ({ s with active := active }.append [ev], some (.publishing [ev]))
  | .sweep now =>
    if s.lock.isSome then none
    else
      match sweep s.active s.activeWindow now order with
      | none => none
      | some (active, cleared) => some ({ s with active := active }.append cleared, some (.publishing cleared))
  | .capping [] ev => some ({ s with lock := none }, some (.publishing ev.toList))
  | .capping (c :: todo) ev => some (publish s c, some (.capping todo ev))
  | .publishing [] => some (s, none)
  | .publishing (ev :: todo) => some (publish s ev, some (.publishing todo))

def begin (s : AlertManager) (thread : ℕ) (call : Call) : Option AlertManager :=
  match s.calls thread with
  | some _ => none
  | none => some { s with calls := update s.calls thread (some call) }

/-- The clock moves, a call starts or goes on, or an event is received. -/
def step (s : AlertManager) : Act → Option AlertManager
  | .tick clock => if s.clock ≤ clock then some { s with clock := clock } else none
  | .record thread rule point => begin s thread (.record rule point s.clock)
  | .ack thread key => begin s thread (.ack key s.clock)
  | .sweep thread => begin s thread (.sweep s.clock)
  | .next thread order =>
    match s.calls thread with
    | none => none
    | some call =>
      match advance s thread order call with
      | none => none
      | some (s', rest) => some { s' with calls := update s.calls thread rest }
  | .receive =>
    match s.eventCh with
    | [] => none
    | _ :: rest => some { s with eventCh := rest }

/-! ### Episodes -/

/-- The events of an alert that is over. -/
def episode (acks : ℕ) : List AlertEventType := .fired :: (List.replicate acks .acked ++ [.cleared])

/-- The events of an alert that is active. -/
def unfinished (acks : ℕ) : List AlertEventType := .fired :: List.replicate acks .acked

/-- Alerts that fire, are acknowledged and cleared, the last of them perhaps not yet. -/
def Episodes (events : List AlertEventType) : Prop :=
  ∃ (ended : List ℕ) (last : Option ℕ), events = ended.flatMap episode ++ last.elim [] unfinished

/-- The events of a key so far, and whether its last episode goes on. -/
inductive Life : List AlertEventType → Bool → Prop
  | nil : Life [] false
  | fired {l : List AlertEventType} (h : Life l false) : Life (l ++ [.fired]) true
  | acked {l : List AlertEventType} (h : Life l true) : Life (l ++ [.acked]) true
  | cleared {l : List AlertEventType} (h : Life l true) : Life (l ++ [.cleared]) false

variable {s s' : AlertManager} {b : Bool} {call : Call} {point : DataPoint} {active active' : List Alert}
  {l : List AlertEventType} {order : List String} {rest : Option Call} {key rule : String} {n thread : ℕ} {now : ℤ}

theorem Life.split (h : Life l b) :
    ∃ (ended : List ℕ) (last : Option ℕ), l = ended.flatMap episode ++ last.elim [] unfinished ∧ last.isSome = b := by
  induction h with
  | nil => exact ⟨[], none, rfl, rfl⟩
  | fired h ih =>
    obtain ⟨ended, last, rfl, hlast⟩ := ih
    obtain rfl := isNone_iff_eq_none.mp (isSome_eq_false_iff.mp hlast)
    exact ⟨ended, some 0, by simp [unfinished], rfl⟩
  | acked h ih =>
    obtain ⟨ended, last, rfl, hlast⟩ := ih
    obtain ⟨n, rfl⟩ := isSome_iff_exists.mp hlast
    exact ⟨ended, some (n + 1), by simp [unfinished, replicate_succ'], rfl⟩
  | cleared h ih =>
    obtain ⟨ended, last, rfl, hlast⟩ := ih
    obtain ⟨n, rfl⟩ := isSome_iff_exists.mp hlast
    exact ⟨ended ++ [n], none, by simp [unfinished, episode], rfl⟩

theorem Life.episodes (h : Life l b) : Episodes l := by
  obtain ⟨ended, last, hl, -⟩ := h.split
  exact ⟨ended, last, hl⟩

theorem Life.last (h : Life l b) : b = true ↔ l.getLast? = some .fired ∨ l.getLast? = some .acked := by
  cases h <;> simp

def Moves (before after : Prop) : List AlertEventType → Prop
  | [] => after ↔ before
  | [.fired] => ¬ before ∧ after
  | [.acked] => before ∧ after
  | [.cleared] => before ∧ ¬ after
  | _ => False

theorem Life.moves {events : List AlertEventType} {before after : Prop} (h : ∃ b, Life l b ∧ (b = true ↔ before))
    (hmoves : Moves before after events) : ∃ b, Life (l ++ events) b ∧ (b = true ↔ after) := by
  obtain ⟨b, hlife, hb⟩ := h
  match events, hmoves with
  | [], hiff => exact ⟨b, by rwa [append_nil], hb.trans hiff.symm⟩
  | [.fired], ⟨hbefore, hafter⟩ =>
    have : b = false := by rwa [← hb, Bool.not_eq_true] at hbefore
    subst this
    exact ⟨true, .fired hlife, iff_of_true rfl hafter⟩
  | [.acked], ⟨hbefore, hafter⟩ =>
    cases hb.mpr hbefore
    exact ⟨true, .acked hlife, iff_of_true rfl hafter⟩
  | [.cleared], ⟨hbefore, hafter⟩ =>
    cases hb.mpr hbefore
    exact ⟨false, .cleared hlife, iff_of_false nofun hafter⟩

/-! ### What the sections do to one key -/

def keys (active : List Alert) : List String := active.map (·.key)

/-- The events of a key. -/
def kinds (key : String) (events : List AlertEvent) : List AlertEventType :=
  (events.filter (·.alert.key = key)).map (·.type)

theorem kinds_append (key : String) (a b : List AlertEvent) : kinds key (a ++ b) = kinds key a ++ kinds key b := by
  simp [kinds]

theorem kinds_singleton (key : String) (ev : AlertEvent) :
    kinds key [ev] = if ev.alert.key = key then [ev.type] else [] := by
  by_cases h : ev.alert.key = key <;> simp [kinds, h]

theorem kinds_cleared (key : String) (now : ℤ) : ∀ {victims : List Alert}, (keys victims).Nodup →
    kinds key (victims.map fun a => ⟨.cleared, a, now⟩) = if key ∈ keys victims then [.cleared] else []
  | [], _ => rfl
  | v :: victims, hnodup => by
    obtain ⟨hnew, hrest⟩ := nodup_cons.mp hnodup
    have ih := kinds_cleared key now hrest
    rw [map_cons, ← singleton_append, kinds_append, ih, kinds_singleton]
    by_cases hv : v.key = key
    · subst hv
      have hnot : v.key ∉ keys victims := hnew
      simp [keys] at hnot ⊢
      simpa using hnot
    · have hv' : key ≠ v.key := fun h => hv h.symm
      simp [keys, hv, hv']

theorem lookup_eq_none : lookup active key = none ↔ key ∉ keys active := by
  simp [lookup, keys]

theorem lookup_some {a : Alert} (h : lookup active key = some a) : a ∈ active ∧ a.key = key :=
  ⟨mem_of_find?_eq_some h, by simpa using List.find?_some h⟩

theorem lookup_mem : ∀ {active : List Alert}, (keys active).Nodup → ∀ a ∈ active, lookup active a.key = some a
  | [], _, _, ha => absurd ha not_mem_nil
  | b :: active, hnodup, a, ha => by
    obtain ⟨hnew, hrest⟩ := nodup_cons.mp hnodup
    rcases mem_cons.mp ha with rfl | ha
    · simp [lookup]
    · have hne : b.key ≠ a.key := fun h => hnew (mem_map.mpr ⟨a, ha, h.symm⟩)
      have ih := lookup_mem hrest a ha
      simpa [lookup, hne] using ih

theorem arranged_spec (hnodup : (keys active).Nodup) (hperm : order.Perm (keys active)) :
    keys (arranged active order) = order ∧ ∀ a, a ∈ arranged active order ↔ a ∈ active := by
  constructor
  · have hkey : ∀ k ∈ order, (lookup active k).map (·.key) = some k := fun k hk => by
      obtain ⟨a, ha⟩ := ne_none_iff_exists'.mp fun h => lookup_eq_none.mp h (hperm.mem_iff.mp hk)
      rw [ha, map_some, (lookup_some ha).2]
    rw [keys, arranged, map_filterMap, filterMap_congr hkey, filterMap_some]
  · intro a
    constructor
    · intro ha
      obtain ⟨k, -, hk⟩ := mem_filterMap.mp ha
      exact (lookup_some hk).1
    · intro ha
      refine mem_filterMap.mpr ⟨a.key, hperm.mem_iff.mpr (mem_map.mpr ⟨a, ha, rfl⟩), ?_⟩
      exact lookup_mem hnodup a ha

theorem mem_keys_filter {victims : List Alert} :
    key ∈ keys (active.filter fun a => victims.all (·.key ≠ a.key)) ↔ key ∈ keys active ∧ key ∉ keys victims := by
  simp only [keys, List.mem_map, List.mem_filter, List.all_eq_true, decide_eq_true_eq, not_exists, not_and]
  constructor
  · rintro ⟨a, ⟨ha, hall⟩, rfl⟩
    exact ⟨⟨a, ha, rfl⟩, hall⟩
  · rintro ⟨⟨a, ha, rfl⟩, hall⟩
    exact ⟨a, ⟨ha, hall⟩, rfl⟩

theorem keys_filter_nodup (p : Alert → Bool) (h : (keys active).Nodup) : (keys (active.filter p)).Nodup :=
  h.sublist (List.Sublist.map _ List.filter_sublist)

theorem length_of_keys (h : keys active' = keys active) : active'.length = active.length := by
  simpa [keys] using congrArg List.length h

theorem keys_map {f : Alert → Alert} (h : ∀ a, (f a).key = a.key) : keys (active.map f) = keys active := by
  rw [keys, List.map_map]
  exact List.map_congr_left fun a _ => h a

theorem ack_spec {ev : AlertEvent} (h : ack active key now = some (active', ev)) :
    keys active' = keys active ∧ ∀ k, Moves (k ∈ keys active) (k ∈ keys active') (kinds k [ev]) := by
  cases hlookup : lookup active key with
  | none => simp only [ack, hlookup] at h; cases h
  | some a =>
    obtain ⟨hmem, hkey⟩ := lookup_some hlookup
    simp only [ack, hlookup, some.injEq] at h
    obtain ⟨rfl, rfl⟩ := h
    have hkeys : keys (active.map fun b => if b.key = key then { a with acked := true, ackedAt := now } else b) =
        keys active := keys_map fun b => by
      by_cases hb : b.key = key
      · rw [if_pos hb, hb]; exact hkey
      · rw [if_neg hb]
    refine ⟨hkeys, fun k => ?_⟩
    rw [hkeys, kinds_singleton]
    by_cases hk : a.key = k
    · subst hk
      rw [if_pos rfl]
      have hbefore : a.key ∈ keys active := mem_map.mpr ⟨a, hmem, rfl⟩
      exact ⟨hbefore, hbefore⟩
    · rw [if_neg hk]
      exact Iff.rfl

theorem sweep_spec {window : ℤ} {cleared : List AlertEvent} (hnodup : (keys active).Nodup)
    (h : sweep active window now order = some (active', cleared)) :
    (keys active').Nodup ∧ active'.length ≤ active.length ∧
      ∀ k, Moves (k ∈ keys active) (k ∈ keys active') (kinds k cleared) := by
  simp only [sweep, ite_none_right_eq_some, some.injEq] at h
  obtain ⟨hperm, rfl, rfl⟩ := h
  obtain ⟨hkeys, hmem⟩ := arranged_spec hnodup hperm
  have harranged : (keys (arranged active order)).Nodup := by
    rw [hkeys]
    exact hperm.nodup_iff.mpr hnodup
  refine ⟨keys_filter_nodup _ hnodup, length_filter_le _ _, fun k => ?_⟩
  rw [kinds_cleared k now (keys_filter_nodup _ harranged), mem_keys_filter]
  by_cases hk : k ∈ keys ((arranged active order).filter fun a => now - a.lastFired ≥ window)
  · rw [if_pos hk]
    obtain ⟨a, ha, rfl⟩ := mem_map.mp hk
    exact ⟨mem_map.mpr ⟨a, (hmem a).mp (mem_of_mem_filter ha), rfl⟩, fun hafter => hafter.2 hk⟩
  · rw [if_neg hk]
    exact and_iff_left hk

theorem fired_spec (active : List Alert) (rule : String) (point : DataPoint) (now : ℤ) :
    (alertKey rule point.driver point.tag ∈ keys active ∧ (fired active rule point now).2 = none ∧
      keys (fired active rule point now).1 = keys active) ∨
    (alertKey rule point.driver point.tag ∉ keys active ∧
      ∃ a ev, fired active rule point now = (a :: active, some ev) ∧ a.key = alertKey rule point.driver point.tag ∧
        a.lastFired = now ∧ ev.type = .fired ∧ ev.alert.key = a.key) := by
  cases hlookup : lookup active (alertKey rule point.driver point.tag) with
  | some a =>
    obtain ⟨hmem, hkey⟩ := lookup_some hlookup
    refine .inl ⟨hkey ▸ mem_map.mpr ⟨a, hmem, rfl⟩, by simp only [fired, hlookup], ?_⟩
    simp only [fired, hlookup]
    refine keys_map fun b => ?_
    by_cases hb : b.key = alertKey rule point.driver point.tag
    · rw [if_pos hb]; rfl
    · rw [if_neg hb]
  | none =>
    refine .inr ⟨lookup_eq_none.mp hlookup, fire (newAlert rule point now) point now,
      ⟨.fired, newAlert rule point now, now⟩, by simp only [fired, hlookup], rfl, rfl, rfl, rfl⟩

/-- The alert that fired longest ago is one of the old ones, if the new one is younger than one of them. -/
theorem victim_spec {a : Alert} (hnodup : (keys (a :: active)).Nodup) (hperm : order.Perm (keys (a :: active)))
    (hsorted : (arranged (a :: active) order).Pairwise (·.lastFired ≤ ·.lastFired)) (hlast : a.lastFired = now)
    (hyounger : ∃ b ∈ active, b.lastFired < now) :
    ∃ v, (arranged (a :: active) order).take 1 = [v] ∧ v.key ∈ keys active ∧ v.key ≠ a.key := by
  obtain ⟨-, hmem⟩ := arranged_spec hnodup hperm
  obtain ⟨b, hb, hbnow⟩ := hyounger
  obtain ⟨v, rest, hv⟩ : ∃ v rest, arranged (a :: active) order = v :: rest :=
    exists_cons_of_ne_nil fun hnil => not_mem_nil (hnil ▸ (hmem a).mpr mem_cons_self)
  have hvmem : v ∈ a :: active := (hmem v).mp (hv ▸ mem_cons_self)
  have hvb : v.lastFired ≤ b.lastFired := by
    have hb' := (hmem b).mpr (mem_cons_of_mem _ hb)
    rw [hv] at hb' hsorted
    rcases mem_cons.mp hb' with rfl | hb'
    · exact le_refl _
    · exact rel_of_pairwise_cons hsorted hb'
  have hva : v.key ≠ a.key := by
    intro heq
    have hlookup := lookup_mem hnodup v hvmem
    rw [heq, lookup_mem hnodup a mem_cons_self] at hlookup
    have := some.inj hlookup
    subst this
    omega
  refine ⟨v, by rw [hv]; rfl, ?_, hva⟩
  rcases mem_cons.mp hvmem with heq | hold
  · exact absurd (heq ▸ rfl) hva
  · exact mem_map.mpr ⟨v, hold, rfl⟩

/-- The section of `record`, where a new alert that finds the registry full is younger than an active one. -/
theorem record_spec {cleared : List AlertEvent} {ev : Option AlertEvent} (hnodup : (keys active).Nodup)
    (hcap : active.length ≤ alertRegistryCap)
    (hyounger : alertKey rule point.driver point.tag ∉ keys active → active.length = alertRegistryCap →
      ∃ b ∈ active, b.lastFired < now) (h : record active rule point now order = some (active', cleared, ev)) :
    (keys active').Nodup ∧ active'.length ≤ alertRegistryCap ∧
      ∀ k, Moves (k ∈ keys active) (k ∈ keys active') (kinds k (cleared ++ ev.toList)) := by
  rcases fired_spec active rule point now with ⟨hkey, hev, hkeys⟩ | ⟨hkey, a, e, hfired, hakey, hlast, htype, hekey⟩
  · -- the keys stay, and so does their number
    have hlength := length_of_keys hkeys
    simp only [record, hlength, if_neg (Nat.not_lt.mpr hcap), some.injEq] at h
    obtain ⟨rfl, rfl, rfl⟩ := h
    refine ⟨hkeys ▸ hnodup, hlength ▸ hcap, fun k => ?_⟩
    rw [hev, hkeys]
    exact Iff.rfl
  · rw [← hakey] at hkey hyounger
    have hnodup₁ : (keys (a :: active)).Nodup := nodup_cons.mpr ⟨hkey, hnodup⟩
    simp only [record, hfired, length_cons] at h
    by_cases hfull : active.length + 1 > alertRegistryCap
    · rw [if_pos hfull, ite_none_right_eq_some] at h
      obtain ⟨⟨hperm, hsorted⟩, h⟩ := h
      simp only [some.injEq, Prod.mk.injEq] at h
      obtain ⟨rfl, rfl, rfl⟩ := h
      have hlength : active.length = alertRegistryCap := by omega
      obtain ⟨v, htake, hvold, hva⟩ := victim_spec hnodup₁ hperm hsorted hlast (hyounger hkey hlength)
      rw [hlength, Nat.add_sub_cancel_left, htake]
      refine ⟨keys_filter_nodup _ hnodup₁, ?_, fun k => ?_⟩
      · obtain ⟨w, hw, hwv⟩ := mem_map.mp hvold
        have hlt : ((a :: active).filter fun x => [v].all (·.key ≠ x.key)).length < (a :: active).length :=
          length_filter_lt_length_iff_exists.mpr ⟨w, mem_cons_of_mem _ hw, by simp [hwv]⟩
        rw [length_cons, hlength] at hlt
        exact Nat.lt_succ_iff.mp hlt
      · have hone : (keys [v]).Nodup := nodup_singleton _
        rw [kinds_append, kinds_cleared k now hone, toList_some, kinds_singleton, hekey, htype, mem_keys_filter]
        by_cases hk : a.key = k
        · subst hk
          have hnot : a.key ∉ keys [v] := fun hin => hva (mem_singleton.mp hin).symm
          rw [if_neg hnot, if_pos rfl]
          exact ⟨hkey, mem_cons_self, hnot⟩
        · rw [if_neg hk]
          by_cases hkv : k = v.key
          · subst hkv
            have hin : v.key ∈ keys [v] := mem_singleton.mpr rfl
            rw [if_pos hin]
            exact ⟨hvold, fun hafter => hafter.2 hin⟩
          · have hnot : k ∉ keys [v] := fun hin => hkv (mem_singleton.mp hin)
            rw [if_neg hnot]
            refine ⟨fun hafter => (mem_cons.mp hafter.1).resolve_left (Ne.symm hk), fun hbefore => ?_⟩
            exact ⟨mem_cons_of_mem _ hbefore, hnot⟩
    · rw [if_neg hfull] at h
      obtain ⟨rfl, rfl, rfl⟩ := h
      refine ⟨hnodup₁, Nat.not_lt.mp hfull, fun k => ?_⟩
      rw [nil_append, toList_some, kinds_singleton, hekey, htype]
      by_cases hk : a.key = k
      · rw [if_pos hk, ← hk]
        exact ⟨hkey, mem_cons_self⟩
      · rw [if_neg hk]
        exact ⟨fun hmem => (mem_cons.mp hmem).resolve_left (Ne.symm hk), mem_cons_of_mem _⟩

/-! ### Every interleaving -/

/-- With the registry full, a new alert is not the oldest. -/
def Younger (s : AlertManager) : Act → Prop
  | .next thread _ => ∀ rule point now, s.calls thread = some (.record rule point now) →
      alertKey rule point.driver point.tag ∉ keys s.active → s.active.length = alertRegistryCap →
      ∃ b ∈ s.active, b.lastFired < now
  | _ => True

/-- The active alerts have different keys and are not too many, and the log of each key tells whether it is active. -/
structure Living (active : List Alert) (log : List AlertEvent) : Prop where
  nodup : (keys active).Nodup
  cap : active.length ≤ alertRegistryCap
  life : ∀ key, ∃ b, Life (kinds key log) b ∧ (b = true ↔ key ∈ keys active)

theorem Living.append {log events : List AlertEvent} (h : Living active log) (hnodup : (keys active').Nodup)
    (hcap : active'.length ≤ alertRegistryCap)
    (hmoves : ∀ k, Moves (k ∈ keys active) (k ∈ keys active') (kinds k events)) : Living active' (log ++ events) := by
  refine ⟨hnodup, hcap, fun key => ?_⟩
  rw [kinds_append]
  exact Life.moves (h.life key) (hmoves key)

def Call.waits : Call → Bool
  | .record .. => true
  | .ack .. => true
  | .sweep _ => true
  | _ => false

/-- What a call has still to publish. -/
def pending : Option Call → List AlertEvent
  | some (.capping todo ev) => todo ++ ev.toList
  | some (.publishing todo) => todo
  | _ => []

/-- **A section** puts what it has to publish into the log, and keeps the alerts in step with it. -/
theorem advance_section (hcall : s.calls thread = some call) (hwaits : call.waits = true)
    (hadvance : advance s thread order call = some (s', rest)) :
    s'.log = s.log ++ pending rest ∧ s'.published = s.published ∧
      (Younger s (.next thread order) → Living s.active s.log → Living s'.active s'.log) := by
  cases call with
  | record rule point now =>
    simp only [advance, ite_none_left_eq_some] at hadvance
    cases hrecord : record s.active rule point now order with
    | none => simp [hrecord] at hadvance
    | some r =>
      simp only [hrecord, some.injEq] at hadvance
      obtain ⟨-, rfl, rfl⟩ := hadvance
      refine ⟨rfl, rfl, fun hyounger h => ?_⟩
      obtain ⟨hnodup, hcap, hmoves⟩ := record_spec h.nodup h.cap (hyounger rule point now hcall) hrecord
      exact h.append hnodup hcap hmoves
  | ack key now =>
    simp only [advance, ite_none_left_eq_some] at hadvance
    cases hack : ack s.active key now with
    | none =>
      simp only [hack, some.injEq] at hadvance
      obtain ⟨-, rfl, rfl⟩ := hadvance
      exact ⟨(append_nil _).symm, rfl, fun _ => id⟩
    | some r =>
      simp only [hack, some.injEq] at hadvance
      obtain ⟨-, rfl, rfl⟩ := hadvance
      refine ⟨rfl, rfl, fun _ h => ?_⟩
      obtain ⟨hkeys, hmoves⟩ := ack_spec hack
      exact h.append (hkeys ▸ h.nodup) (length_of_keys hkeys ▸ h.cap) hmoves
  | sweep now =>
    simp only [advance, ite_none_left_eq_some] at hadvance
    cases hsweep : sweep s.active s.activeWindow now order with
    | none => simp [hsweep] at hadvance
    | some r =>
      simp only [hsweep, some.injEq] at hadvance
      obtain ⟨-, rfl, rfl⟩ := hadvance
      refine ⟨rfl, rfl, fun _ h => ?_⟩
      obtain ⟨hnodup, hlength, hmoves⟩ := sweep_spec h.nodup hsweep
      exact h.append hnodup (Nat.le_trans hlength h.cap) hmoves
  | capping | publishing => cases hwaits

/-- After its section a call publishes its events one by one, and changes neither the alerts nor the history. -/
theorem advance_publishes (hwaits : call.waits = false) (h : advance s thread order call = some (s', rest)) :
    s'.active = s.active ∧ s'.log = s.log ∧
      ((pending rest = pending (some call) ∧ s'.published = s.published) ∨
        ∃ ev, pending (some call) = ev :: pending rest ∧
          s'.published = if s.eventCh.length < alertEventBufferSize then s.published ++ [ev] else s.published) := by
  have hpublish : ∀ ev, (publish s ev).active = s.active ∧ (publish s ev).log = s.log ∧ (publish s ev).published =
      if s.eventCh.length < alertEventBufferSize then s.published ++ [ev] else s.published := by
    intro ev
    unfold publish
    split_ifs <;> exact ⟨rfl, rfl, rfl⟩
  match call with
  | .capping [] _ | .publishing [] =>
    cases h
    exact ⟨rfl, rfl, .inl ⟨rfl, rfl⟩⟩
  | .capping (ev :: _) _ | .publishing (ev :: _) =>
    cases h
    obtain ⟨hactive, hlog, hpublished⟩ := hpublish ev
    exact ⟨hactive, hlog, .inr ⟨ev, rfl, hpublished⟩⟩
  | .record .. | .ack .. | .sweep _ => cases hwaits

/-- What one step can be: a call makes its next step, or neither the alerts nor the events nor what the calls have to
publish change. -/
theorem step_cases {a : Act} (hstep : step s a = some s') :
    (∃ thread order call s₁ rest, a = .next thread order ∧ s.calls thread = some call ∧
      advance s thread order call = some (s₁, rest) ∧
      s' = { s₁ with calls := update s.calls thread rest }) ∨
    (s'.active = s.active ∧ s'.log = s.log ∧ s'.published = s.published ∧
      ∀ i, pending (s'.calls i) = pending (s.calls i)) := by
  have hbegin : ∀ {thread : ℕ} {call : Call}, call.waits = true → begin s thread call = some s' →
      s'.active = s.active ∧ s'.log = s.log ∧ s'.published = s.published ∧
        ∀ i, pending (s'.calls i) = pending (s.calls i) := by
    intro thread call hwaits hb
    cases hcall : s.calls thread with
    | some c => simp only [begin, hcall] at hb; cases hb
    | none =>
      simp only [begin, hcall, some.injEq] at hb
      subst hb
      refine ⟨rfl, rfl, rfl, fun i => ?_⟩
      by_cases hi : i = thread
      · subst hi
        simp only [update_self, hcall]
        cases call <;> first | rfl | cases hwaits
      · simp [update_of_ne hi]
  cases a with
  | tick clock =>
    simp only [step, ite_none_right_eq_some, some.injEq] at hstep
    obtain ⟨-, rfl⟩ := hstep
    exact .inr ⟨rfl, rfl, rfl, fun _ => rfl⟩
  | receive =>
    cases hch : s.eventCh with
    | nil => simp only [step, hch] at hstep; cases hstep
    | cons ev rest =>
      simp only [step, hch, some.injEq] at hstep
      subst hstep
      exact .inr ⟨rfl, rfl, rfl, fun _ => rfl⟩
  | next thread order =>
    cases hcall : s.calls thread with
    | none => simp only [step, hcall] at hstep; cases hstep
    | some call =>
      cases hadvance : advance s thread order call with
      | none => simp only [step, hcall, hadvance] at hstep; cases hstep
      | some r =>
        simp only [step, hcall, hadvance, some.injEq] at hstep
        exact .inl ⟨thread, order, call, r.1, r.2, rfl, hcall, hadvance, hstep.symm⟩
  | _ => exact .inr (hbegin rfl hstep)

theorem living_step {a : Act} (hyounger : Younger s a) (hstep : step s a = some s')
    (h : Living s.active s.log) : Living s'.active s'.log := by
  rcases step_cases hstep with ⟨thread, order, call, s₁, rest, rfl, hcall, hadvance, rfl⟩ | ⟨hactive, hlog, -⟩
  · cases hwaits : call.waits with
    | true => exact (advance_section hcall hwaits hadvance).2.2 hyounger h
    | false =>
      obtain ⟨hactive, hlog, -⟩ := advance_publishes hwaits hadvance
      rw [← hactive, ← hlog] at h
      exact h
  · rw [hactive, hlog]
    exact h

/-- **The life cycle of an alert.** In a run in which a new alert that finds the registry full is younger than an
active one, the events of a key are a sequence of episodes, the key is active exactly if the last of them is `fired`
or `acked`, and no more than `alertRegistryCap` alerts are. -/
theorem alert_life_cycle {activeWindow clock : ℤ} {acts : List Act} {s : AlertManager}
    (hrun : Run step Younger (newAlertManager activeWindow clock) acts s) :
    (∀ key, Episodes (kinds key s.log) ∧ (key ∈ keys s.active ↔
      (kinds key s.log).getLast? = some .fired ∨ (kinds key s.log).getLast? = some .acked)) ∧
    s.active.length ≤ alertRegistryCap := by
  have hinit : Living (newAlertManager activeWindow clock).active (newAlertManager activeWindow clock).log :=
    ⟨nodup_nil, Nat.zero_le _, fun _ => ⟨false, .nil, iff_of_false nofun not_mem_nil⟩⟩
  have h := hrun.invariant (I := fun s => Living s.active s.log) (fun _ _ _ hP hstep hI => living_step hP hstep hI) hinit
  refine ⟨fun key => ?_, h.cap⟩
  obtain ⟨b, hlife, hb⟩ := h.life key
  exact ⟨hlife.episodes, hb.symm.trans hlife.last⟩

theorem younger_of_lt (h : s.active.length < alertRegistryCap) (a : Act) : Younger s a := by
  cases a with
  | next thread order => exact fun _ _ _ _ _ hfull => absurd hfull (Nat.ne_of_lt h)
  | _ => trivial

/-- An alert fires, and the sweep clears it. -/
theorem alert_life_cycle_swept : ∃ (point : DataPoint) (s : AlertManager),
    Run step Younger (newAlertManager 10 0) [.record 0 "high" point, .next 0 [], .next 0 [], .tick 20, .sweep 1,
      .next 1 [alertKey "high" "plc" "level"]] s ∧
    kinds (alertKey "high" "plc" "level") s.log = [.fired, .cleared] ∧
    Episodes (kinds (alertKey "high" "plc" "level") s.log) := by
  let point : DataPoint := ⟨"plc", "", "", "level", .bool true, .bool, .good, 0, [], false⟩
  exact ⟨point, Run.exists_of_forall (fun _ hrun => ((alert_life_cycle hrun).1 _).1)
    ⟨_, .cons trivial rfl (.cons (younger_of_lt (by decide) _) rfl (.cons (younger_of_lt (by decide) _) rfl
      (.cons trivial rfl (.cons trivial rfl (.cons (younger_of_lt (by decide) _) rfl (.nil _)))))),
      fun hepisodes => ⟨rfl, hepisodes⟩⟩⟩

/-! ### A registry that fills up -/

/-- A point whose tag has `n` letters. -/
def pointOf (n : ℕ) : DataPoint :=
  ⟨"plc", "", "", String.ofList (List.replicate n 'x'), .bool true, .bool, .good, 0, [], false⟩

def keyOf (n : ℕ) : String := alertKey "high" (pointOf n).driver (pointOf n).tag

theorem keyOf_inj {m : ℕ} (h : keyOf m = keyOf n) : m = n := by
  have hlength := congrArg String.length h
  simp only [keyOf, alertKey, pointOf, String.length_append, String.length_ofList, length_replicate] at hlength
  omega

/-- `n` alerts have fired at time 1, while a thread that has read time 0 waits with the key `keyOf alertRegistryCap`. -/
structure Filled (s : AlertManager) (n : ℕ) : Prop where
  active : keys s.active = ((List.range n).map keyOf).reverse
  lastFired : ∀ a ∈ s.active, a.lastFired = 1
  log : kinds (keyOf alertRegistryCap) s.log = []
  lock : s.lock = none
  clock : s.clock = 1
  waiting : s.calls 0 = some (.record "high" (pointOf alertRegistryCap) 0)
  free : ∀ i, n < i → s.calls i = none

theorem Filled.mem_keys {k : ℕ} (h : Filled s n) : keyOf k ∈ keys s.active ↔ k < n := by
  rw [h.active, List.mem_reverse, List.mem_map]
  constructor
  · rintro ⟨m, hm, heq⟩
    rw [← keyOf_inj heq]
    exact mem_range.mp hm
  · exact fun hk => ⟨k, mem_range.mpr hk, rfl⟩

theorem Filled.nodup (h : Filled s n) : (keys s.active).Nodup := by
  rw [h.active, nodup_reverse]
  exact nodup_range.map fun _ _ => keyOf_inj

theorem Filled.length (h : Filled s n) : s.active.length = n := by
  simpa [keys] using congrArg List.length h.active

theorem fired_new (now : ℤ) (hnew : alertKey rule point.driver point.tag ∉ keys active) :
    fired active rule point now =
      (fire (newAlert rule point now) point now :: active, some ⟨.fired, newAlert rule point now, now⟩) := by
  simp [fired, lookup_eq_none.mpr hnew]

theorem record_new (now : ℤ) (order : List String) (hnew : alertKey rule point.driver point.tag ∉ keys active)
    (hroom : active.length < alertRegistryCap) :
    record active rule point now order =
      some (fire (newAlert rule point now) point now :: active, [], some ⟨.fired, newAlert rule point now, now⟩) := by
  simp only [record, fired_new now hnew, length_cons]
  rw [if_neg (Nat.not_lt.mpr hroom)]

theorem record_run (hfree : s.calls thread = none) (hlock : s.lock = none)
    (hnew : alertKey rule point.driver point.tag ∉ keys s.active) (hroom : s.active.length < alertRegistryCap) :
    ∃ s', Run step (fun _ _ => True) s [.record thread rule point, .next thread [], .next thread []] s' ∧
      s'.active = fire (newAlert rule point s.clock) point s.clock :: s.active ∧
      s'.log = s.log ++ [⟨.fired, newAlert rule point s.clock, s.clock⟩] ∧ s'.lock = none ∧ s'.clock = s.clock ∧
      ∀ i ≠ thread, s'.calls i = s.calls i := by
  have hrecord := record_new s.clock [] hnew hroom
  generalize hev : (⟨.fired, newAlert rule point s.clock, s.clock⟩ : AlertEvent) = ev at hrecord ⊢
  generalize hactive : fire (newAlert rule point s.clock) point s.clock :: s.active = active at hrecord ⊢
  have hbegin : step s (.record thread rule point) =
      some { s with calls := update s.calls thread (some (.record rule point s.clock)) } := by
    simp [step, begin, hfree]
  have hsection : step { s with calls := update s.calls thread (some (.record rule point s.clock)) }
      (.next thread []) = some { ({ s with active := active, lock := some thread } : AlertManager).append [ev] with
        calls := update (update s.calls thread (some (.record rule point s.clock))) thread
          (some (.capping [] (some ev))) } := by
    simp only [step, update_self, advance, hlock, hrecord]
    rfl
  refine ⟨_, .cons trivial hbegin (.cons trivial hsection (.cons trivial ?_ (.nil
    { ({ s with active := active, lock := none } : AlertManager).append [ev] with
        calls := update (update (update s.calls thread (some (.record rule point s.clock)))
          thread (some (.capping [] (some ev)))) thread (some (.publishing [ev])) }))),
    rfl, rfl, rfl, rfl, fun i hi => ?_⟩
  · simp only [step, update_self]
    rfl
  · simp [update_of_ne hi]

theorem filled_succ (hn : n < alertRegistryCap) (h : Filled s n) :
    ∃ acts s', Run step (fun _ _ => True) s acts s' ∧ Filled s' (n + 1) := by
  have hnew : keyOf n ∉ keys s.active := fun hmem => absurd (h.mem_keys.mp hmem) (Nat.lt_irrefl n)
  obtain ⟨s', hrun, hactive, hlog, hlock, hclock, hcalls⟩ :=
    record_run (h.free (n + 1) (Nat.lt_succ_self n)) h.lock hnew (h.length ▸ hn)
  rw [h.clock] at hactive hlog hclock
  refine ⟨_, s', hrun, ?_, ?_, ?_, hlock, hclock, ?_, ?_⟩
  · rw [hactive, range_succ, map_append, reverse_append]
    exact congrArg (keyOf n :: ·) h.active
  · intro a ha
    rw [hactive] at ha
    rcases mem_cons.mp ha with rfl | ha
    · rfl
    · exact h.lastFired a ha
  · have hne : (newAlert "high" (pointOf n) 1).key ≠ keyOf alertRegistryCap := fun heq =>
      absurd (keyOf_inj heq) (Nat.ne_of_lt hn)
    rw [hlog, kinds_append, h.log, kinds_singleton]
    exact if_neg hne
  · rw [hcalls 0 (Nat.succ_ne_zero n).symm, h.waiting]
  · intro i hi
    rw [hcalls i (by omega)]
    exact h.free i (by omega)

theorem filled_run : ∀ n ≤ alertRegistryCap,
    ∃ acts s, Run step (fun _ _ => True) (newAlertManager 0 0) acts s ∧ Filled s n
  | 0, _ => by
    refine ⟨[.record 0 "high" (pointOf alertRegistryCap), .tick 1], _, .cons trivial rfl (.cons trivial rfl (.nil _)), ?_⟩
    refine ⟨rfl, forall_mem_nil _, rfl, rfl, rfl, rfl, fun i hi => ?_⟩
    exact update_of_ne (Nat.ne_of_gt hi) _ _
  | n + 1, hn => by
    obtain ⟨acts, s, hrun, h⟩ := filled_run n (Nat.le_of_succ_le hn)
    obtain ⟨acts', s', hrun', h'⟩ := filled_succ hn h
    exact ⟨acts ++ acts', s', hrun.append hrun', h'⟩

theorem arranged_keys (hnodup : (keys active).Nodup) : arranged active (keys active) = active := by
  rw [arranged, keys, filterMap_map]
  exact (filterMap_congr (lookup_mem hnodup)).trans filterMap_some

theorem record_oldest (rule : String) (point : DataPoint) (hnodup : (keys active).Nodup)
    (hnew : alertKey rule point.driver point.tag ∉ keys active) (hfull : active.length = alertRegistryCap)
    (holdest : ∀ b ∈ active, now ≤ b.lastFired) (hsorted : active.Pairwise (·.lastFired ≤ ·.lastFired)) :
    record active rule point now (alertKey rule point.driver point.tag :: keys active) =
      some (active, [⟨.cleared, fire (newAlert rule point now) point now, now⟩],
        some ⟨.fired, newAlert rule point now, now⟩) := by
  have hfired := fired_new now hnew
  generalize ha : fire (newAlert rule point now) point now = a at hfired ⊢
  have hkey : alertKey rule point.driver point.tag = a.key := by rw [← ha]; rfl
  have hlast : a.lastFired = now := by rw [← ha]; rfl
  rw [hkey] at hnew ⊢
  have hkeys : (keys (a :: active)).Nodup := nodup_cons.mpr ⟨hnew, hnodup⟩
  have harranged : arranged (a :: active) (a.key :: keys active) = a :: active := arranged_keys hkeys
  have hpairwise : (a :: active).Pairwise (·.lastFired ≤ ·.lastFired) :=
    pairwise_cons.mpr ⟨fun b hb => hlast ▸ holdest b hb, hsorted⟩
  have hleft : (a :: active).filter (fun b => [a].all (·.key ≠ b.key)) = active := by
    rw [filter_cons_of_neg (by simp)]
    refine filter_eq_self.mpr fun b hb => ?_
    have hne : a.key ≠ b.key := fun heq => hnew (heq ▸ mem_map.mpr ⟨b, hb, rfl⟩)
    simp [hne]
  have hperm : (a.key :: keys active).Perm ((a :: active).map (·.key)) := Perm.refl _
  simp only [record, hfired, length_cons, hfull, harranged]
  rw [if_pos (Nat.lt_succ_self _), if_pos ⟨hperm, hpairwise⟩, Nat.add_sub_cancel_left, take_succ_cons, take_zero, hleft]
  rfl

/-- A thread that has read the clock before the registry filled up takes the lock: its alert has fired before all the
others, is cleared at once, and its `fired` event comes after that. -/
theorem cleared_before_fired : ∃ acts s key, Run step (fun _ _ => True) (newAlertManager 0 0) acts s ∧
    kinds key s.log = [.cleared, .fired] ∧ key ∉ keys s.active ∧ ¬ Episodes (kinds key s.log) := by
  obtain ⟨acts, s, hrun, h⟩ := filled_run alertRegistryCap (Nat.le_refl _)
  have hnew : keyOf alertRegistryCap ∉ keys s.active := fun hmem => absurd (h.mem_keys.mp hmem) (Nat.lt_irrefl _)
  have holdest : ∀ b ∈ s.active, 0 ≤ b.lastFired := fun b hb => by rw [h.lastFired b hb]; decide
  have hsorted : s.active.Pairwise (·.lastFired ≤ ·.lastFired) :=
    pairwise_iff_forall_sublist.mpr fun {a b} hsub => by
      rw [h.lastFired a (hsub.subset mem_cons_self), h.lastFired b (hsub.subset (by simp))]
  have hrecord := record_oldest "high" (pointOf alertRegistryCap) h.nodup hnew h.length holdest hsorted
  generalize hnewer : (⟨.cleared, fire (newAlert "high" (pointOf alertRegistryCap) 0) (pointOf alertRegistryCap) 0, 0⟩ :
    AlertEvent) = cleared at hrecord
  generalize hev : (⟨.fired, newAlert "high" (pointOf alertRegistryCap) 0, 0⟩ : AlertEvent) = ev at hrecord
  change record s.active "high" (pointOf alertRegistryCap) 0 (keyOf alertRegistryCap :: keys s.active) = _ at hrecord
  have hkinds : kinds (keyOf alertRegistryCap) (s.log ++ [cleared, ev]) = [.cleared, .fired] := by
    rw [kinds_append, h.log, ← hnewer, ← hev]
    simp [kinds, keyOf, newAlert, fire]
  refine ⟨acts ++ [.next 0 (keyOf alertRegistryCap :: keys s.active)],
    { ({ s with lock := some 0 } : AlertManager).append [cleared, ev] with
      calls := update s.calls 0 (some (.capping [cleared] (some ev))) }, keyOf alertRegistryCap,
    hrun.append (.cons trivial ?_ (.nil _)), hkinds, hnew, ?_⟩
  · simp only [step, h.waiting, advance, h.lock, hrecord]
    rfl
  · show ¬ Episodes (kinds (keyOf alertRegistryCap) (s.log ++ [cleared, ev]))
    rw [hkinds]
    rintro ⟨ended, last, heq⟩
    cases ended with
    | nil => cases last <;> simp [unfinished] at heq
    | cons n ended => simp [episode] at heq

end CoreC.Engine.Alerts
