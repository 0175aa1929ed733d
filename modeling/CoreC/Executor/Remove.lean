import CoreC.Executor.Apply
import CoreC.Lib.GoSlice

/-! # Removing one resource

The `DELETE` endpoints copy the header of `currentCfg`, cut the named entry out of the copy, and reload the result. The
cut is an `append` to a prefix, and the copy shares its backing array with `currentCfg`: the entries behind the removed
one move down there as well. When `ApplyConfig` then compares the two lists, the removed entry is in neither of them
(unless it was the last one), so nothing is removed from the engine. -/

namespace CoreC.Executor.Remove

open Core.Types Lib.GoSlice Executor.Diff Executor.Apply Rules.Build Function List

/-- `core.Config` with its lists as slices. -/
structure SliceConfig where
  drivers : Slice
  transports : Slice
  rules : Slice
  derivedTags : List DerivedTagConfig

/-- The arrays of the slices. -/
structure Memory where
  drivers : Heap DriverConfig
  transports : Heap TransportConfig
  rules : Heap RuleConfig

/-- The configuration that the slices show. -/
def SliceConfig.read (m : Memory) (c : SliceConfig) : Config where
  drivers := Lib.GoSlice.read m.drivers c.drivers
  transports := Lib.GoSlice.read m.transports c.transports
  rules := Lib.GoSlice.read m.rules c.rules
  derivedTags := c.derivedTags

def Memory.parse (m : Memory) (cfg : Config) : Memory × SliceConfig :=
  let d := alloc m.drivers cfg.drivers
  let t := alloc m.transports cfg.transports
  let r := alloc m.rules cfg.rules
  (⟨d.1, t.1, r.1⟩, ⟨d.2, t.2, r.2, cfg.derivedTags⟩)

/-- `core.ConfigAuditEntry`; its `At` is the `time`. -/
structure ConfigAuditEntry where
  time : ℤ
  action : String
  remote : String
  keys : List String
  details : String
  deriving DecidableEq, Repr

def configAuditCap : ℕ := 500

/-- `recordConfigAudit`: the oldest entries go first. -/
def recordConfigAudit (entries : List ConfigAuditEntry) (e : ConfigAuditEntry) :
    List ConfigAuditEntry :=
  (entries ++ [e]).drop ((entries ++ [e]).length - configAuditCap)

/-- Where a change comes from: the address of the caller, and what the clock shows when the entry with the given keys
is recorded. -/
structure Origin where
  remote : String := ""
  clock : List String → ℤ := fun _ => 0

/-- The second entry of a removal, after that of its reload. -/
def removalEntry (kind name : String) (origin : Origin) : ConfigAuditEntry where
  time := origin.clock ["delete-" ++ kind ++ ":" ++ name]
  action := "reload"
  remote := origin.remote
  keys := ["delete-" ++ kind ++ ":" ++ name]
  details := kind ++ " " ++ name ++ " removed via resource endpoint"

/-- The executor with what its engine runs. -/
structure Hub where
  mem : Memory
  currentCfg : Option SliceConfig
  drivers : String → Option DriverConfig
  transports : String → Option TransportConfig
  rules : Engine
  derivedTags : List DerivedTagConfig
  audit : List ConfigAuditEntry

/-- The state `ApplyConfig` works on. -/
def Hub.state (x : Hub) : State where
  drivers := x.drivers
  transports := x.transports
  rules := x.rules
  derivedTags := x.derivedTags
  currentCfg := x.currentCfg.map (SliceConfig.read x.mem)

def Hub.withEngine (x : Hub) (s : State) : Hub :=
  { x with drivers := s.drivers, transports := s.transports, rules := s.rules,
           derivedTags := s.derivedTags }

inductive RemoveError where
  | noActiveConfig
  | notFound
  | invalid
  | apply (op : Op)
  deriving DecidableEq

section

variable {C : Type} (nameOf : C → String)

def removeNamed (h : Heap C) (s : Slice) (name : String) : Option (Heap C × Slice) :=
  match (Lib.GoSlice.read h s).findIdx? fun c => nameOf c = name with
  | none => none
  | some i => some (append h (s.reslice 0 i) (Lib.GoSlice.read h (s.reslice (i + 1) s.len)))

end

def removeNamedDriver (name : String) (m : Memory) (c : SliceConfig) : Option (Memory × SliceConfig) :=
  (removeNamed DriverConfig.name m.drivers c.drivers name).map fun r =>
    ({ m with drivers := r.1 }, { c with drivers := r.2 })

def removeNamedTransport (name : String) (m : Memory) (c : SliceConfig) :
    Option (Memory × SliceConfig) :=
  (removeNamed TransportConfig.name m.transports c.transports name).map fun r =>
    ({ m with transports := r.1 }, { c with transports := r.2 })

def removeNamedRule (name : String) (m : Memory) (c : SliceConfig) : Option (Memory × SliceConfig) :=
  (removeNamed RuleConfig.name m.rules c.rules name).map fun r =>
    ({ m with rules := r.1 }, { c with rules := r.2 })

section

variable (env : BuildEnv) (fails rollbackFails : Op → Bool) (valid : Config → Bool) (ord : Orders)

/-- `ReloadWithOrigin` for a payload that parses to `cfg`. -/
def reloadPayload (cfg : Config) (origin : Origin) (x : Hub) : Hub × Option RemoveError :=
  if valid cfg then
    match applyConfig env fails rollbackFails ord cfg false x.state with
    | (s, some e) => (x.withEngine s, some (.apply e))
    | (s, none) =>
      let (mem, c) := x.mem.parse cfg
      ({ x.withEngine s with
          mem
          currentCfg := some c
          audit := recordConfigAudit x.audit ⟨origin.clock ["payload"], "reload", origin.remote, ["payload"], ""⟩ }, none)
  else (x, some .invalid)

/-- `removeResource`; `drop` works on a copy of the slice headers of `currentCfg`. -/
def removeResource (kind name : String) (origin : Origin) (drop : Memory → SliceConfig → Option (Memory × SliceConfig))
    (x : Hub) : Hub × Option RemoveError :=
  match x.currentCfg with
  | none => (x, some .noActiveConfig)
  | some c =>
    match drop x.mem c with
    | none => (x, some .notFound)
    | some (mem, clone) =>
      match reloadPayload env fails rollbackFails valid ord (clone.read mem) origin { x with mem } with
      | (x', some e) => (x', some e)
      | (x', none) =>
        ({ x' with audit := recordConfigAudit x'.audit (removalEntry kind name origin) }, none)

def removeDriverByName (name : String) (origin : Origin) (x : Hub) : Hub × Option RemoveError :=
  removeResource env fails rollbackFails valid ord "driver" name origin (removeNamedDriver name) x

def removeTransportByName (name : String) (origin : Origin) (x : Hub) : Hub × Option RemoveError :=
  removeResource env fails rollbackFails valid ord "transport" name origin (removeNamedTransport name) x

def removeRuleByName (name : String) (origin : Origin) (x : Hub) : Hub × Option RemoveError :=
  removeResource env fails rollbackFails valid ord "rule" name origin (removeNamedRule name) x

end

/-! ### The two lists after the cut -/

section

open Lib.GoSlice renaming read → shown

variable {C : Type} {nameOf : C → String} {h : Heap C} {s : Slice} {name : String}

/-- The clone loses the entry; the list it was copied from loses it too, and shows its last entry
twice instead. -/
theorem removeNamed_spec (hs : s.Valid h) (hname : name ∈ (shown h s).map nameOf) :
    ∃ A d B h' s', shown h s = A ++ d :: B ∧ nameOf d = name ∧
      removeNamed nameOf h s name = some (h', s') ∧ shown h' s' = A ++ B ∧
      shown h' s = A ++ B ++ (d :: B).drop B.length := by
  have hlen := length_read hs
  set L := shown h s with hL
  obtain ⟨x, hx, hxn⟩ := mem_map.mp hname
  have hsome : (L.findIdx? fun c => nameOf c = name).isSome := by
    rw [List.findIdx?_isSome, any_eq_true]
    exact ⟨x, hx, by simpa using hxn⟩
  obtain ⟨i, hi⟩ := Option.isSome_iff_exists.mp hsome
  obtain ⟨hlt, hp, -⟩ := List.findIdx?_eq_some_iff_getElem.mp hi
  have hxs : shown h (s.reslice (i + 1) s.len) = L.drop (i + 1) := by
    rw [read_reslice h s (Nat.le_refl _), ← hlen, take_length]
  have hsplit : L = L.take i ++ L[i] :: L.drop (i + 1) := by
    rw [getElem_cons_drop, take_append_drop]
  have hfit : i + (L.drop (i + 1)).length ≤ s.len := by
    rw [length_drop]
    omega
  obtain ⟨h', happ, hnew, hold⟩ := read_append_reslice hs hfit
  refine ⟨L.take i, L[i], L.drop (i + 1), h', _, hsplit, by simpa using hp, ?_, hnew, ?_⟩
  · unfold removeNamed
    rw [hi]
    exact congrArg some (by rw [hxs, happ])
  · rw [hold, getElem_cons_drop, drop_drop]

theorem valid_removeNamed {h' : Heap C} {s' : Slice} (hs : s.Valid h)
    (hcut : removeNamed nameOf h s name = some (h', s')) : s.Valid h' := by
  unfold removeNamed at hcut
  split at hcut
  · cases hcut
  · next i hi =>
    obtain ⟨hlt, -⟩ := List.findIdx?_eq_some_iff_getElem.mp hi
    rw [length_read hs] at hlt
    have hlen : (shown h (s.reslice (i + 1) s.len)).length = s.len - (i + 1) := by
      rw [read_reslice h s (Nat.le_refl _), length_drop, length_take, length_read hs, Nat.min_self]
    have hvalid : s.Valid (append h (s.reslice 0 i) (shown h (s.reslice (i + 1) s.len))).1 :=
      valid_append_reslice hs (by omega)
    rw [Option.some.inj hcut] at hvalid
    exact hvalid

/-- The registry has the listed components, with distinct names. -/
def Runs (nameOf : C → String) (cfgs : List C) (reg : String → Option C) : Prop :=
  (cfgs.map nameOf).Nodup ∧ ∀ n c, reg n = some c ↔ c ∈ cfgs ∧ nameOf c = n

variable {reg : String → Option C}

theorem runs_iff {cfgs : List C} :
    Runs nameOf cfgs reg ↔ (cfgs.map nameOf).Nodup ∧ reg = registryOf (configMap nameOf cfgs) := by
  refine and_congr_right fun hnd => ⟨fun h => ?_, ?_⟩
  · funext n
    refine Option.ext fun c => ?_
    rw [h n c]
    exact (lookup_configMap hnd).symm
  · rintro rfl n c
    exact lookup_configMap hnd

theorem lookup_configMap_append {A : List C} (hnd : (A.map nameOf).Nodup) {z : C} (hz : z ∈ A) (n : String) :
    (configMap nameOf (A ++ [z])).lookup n = (configMap nameOf A).lookup n := by
  rw [configMap_append]
  by_cases hn : n = nameOf z
  · subst hn
    rw [AList.lookup_insert, (lookup_configMap hnd).mpr ⟨hz, rfl⟩]
  · rw [AList.lookup_insert_ne hn]

/-- **The removed entry is the last one, and the shared list is as before; or it is not, and the shared list is the
clone with its last entry twice.** -/
theorem removeNamed_cases (hs : s.Valid h) (hnd : ((shown h s).map nameOf).Nodup)
    (hname : name ∈ (shown h s).map nameOf) :
    ∃ h' s', removeNamed nameOf h s name = some (h', s') ∧ ∃ d ∈ shown h s, nameOf d = name ∧
      ((((shown h s).map nameOf).getLast? = some name ∧ shown h' s = shown h s ∧
          shown h s = shown h' s' ++ [d]) ∨
        (((shown h s).map nameOf).getLast? ≠ some name ∧ d ∉ shown h' s ∧
          ((shown h' s').map nameOf).Nodup ∧
          ∃ z ∈ shown h' s', shown h' s = shown h' s' ++ [z])) := by
  obtain ⟨A, d, B, h', s', hL, hd, hrem, hnew, hold⟩ := removeNamed_spec hs hname
  refine ⟨h', s', hrem, d, by simp [hL], hd, ?_⟩
  rw [hL] at hnd ⊢
  rcases eq_nil_or_concat B with rfl | ⟨B', z, rfl⟩
  · exact .inl ⟨by simp [hd], by rw [hold]; simp, by rw [hnew]; simp⟩
  · rw [concat_eq_append] at *
    have hold' : shown h' s = A ++ (B' ++ [z]) ++ [z] := by
      rw [hold]
      simp
    have hsub : ((A ++ (B' ++ [z])).map nameOf).Nodup := by
      refine hnd.sublist (Sublist.map nameOf ?_)
      exact Sublist.append_left (sublist_cons_self _ _) _
    have hdz : ∀ x ∈ A ++ (B' ++ [z]), nameOf x ≠ nameOf d := by
      intro x hx
      rw [map_append, nodup_append] at hnd
      rcases mem_append.mp hx with hx | hx
      · exact hnd.2.2 _ (mem_map_of_mem hx) _ (by simp)
      · intro heq
        exact (nodup_cons.mp hnd.2.1).1 (heq ▸ mem_map_of_mem hx)
    rw [hnew]
    refine .inr ⟨?_, ?_, hsub, z, by simp, hold'⟩
    · have hz : A ++ d :: (B' ++ [z]) = (A ++ d :: B') ++ [z] := by simp
      rw [hz, map_append, map_singleton, List.getLast?_concat, ← hd]
      exact fun heq => hdz z (by simp) (Option.some.inj heq)
    · rw [hold']
      intro hmem
      refine hdz d ?_ rfl
      simp only [mem_append] at hmem ⊢
      tauto

/-- **A cut leaves the list as it was if the entry was the last one, and with a repeated name otherwise.** -/
theorem cut_cases (hs : s.Valid h) (hnd : ((shown h s).map nameOf).Nodup) (name : String) :
    removeNamed nameOf h s name = none ∨ ∃ h' s', removeNamed nameOf h s name = some (h', s') ∧
      ((((shown h s).map nameOf).getLast? = some name ∧ shown h' s = shown h s) ∨
        ((shown h s).map nameOf).getLast? ≠ some name ∧ ¬ ((shown h' s).map nameOf).Nodup) := by
  by_cases hname : name ∈ (shown h s).map nameOf
  · obtain ⟨h', s', hrem, d, -, -, ⟨hlast, hold, -⟩ | ⟨hlast, -, -, z, hz, hold⟩⟩ := removeNamed_cases hs hnd hname
    · exact .inr ⟨h', s', hrem, .inl ⟨hlast, hold⟩⟩
    · refine .inr ⟨h', s', hrem, .inr ⟨hlast, fun hnodup => ?_⟩⟩
      rw [hold, map_append, nodup_append] at hnodup
      exact hnodup.2.2 (nameOf z) (mem_map_of_mem hz) (nameOf z) (by simp) rfl
  · refine .inl ?_
    unfold removeNamed
    have hnone : (shown h s).findIdx? (fun c => nameOf c = name) = none := by
      rw [List.findIdx?_eq_none_iff]
      intro d hd
      exact decide_eq_false fun heq => hname (heq ▸ mem_map_of_mem hd)
    rw [hnone]

/-- **The diff after a cut**: the component is taken out if it was the last of the list; otherwise the
diff does nothing. -/
theorem diff_after_cut [DecidableEq C] (hs : s.Valid h)
    (hrun : Runs nameOf (shown h s) reg) (hname : name ∈ (shown h s).map nameOf) :
    ∃ h' s', removeNamed nameOf h s name = some (h', s') ∧ ∀ oldOrder newOrder,
        oldOrder.Perm (configMap nameOf (shown h' s)).keys →
        newOrder.Perm (configMap nameOf (shown h' s')).keys →
        ∃ st, diffComponents nameOf (fun _ => false) (shown h' s)
            (shown h' s') false oldOrder newOrder ⟨reg, [], []⟩ = (st, none) ∧
          ((((shown h s).map nameOf).getLast? = some name ∧ shown h' s = shown h s ∧
              st.reg = update reg name none ∧ Runs nameOf (shown h' s') st.reg) ∨
            (((shown h s).map nameOf).getLast? ≠ some name ∧ st.reg name ≠ none ∧
              ∃ d ∈ shown h s, d ∉ shown h' s)) := by
  obtain ⟨hnd, hreg⟩ := runs_iff.mp hrun
  obtain ⟨h', s', hrem, d, hdL, hd, hcase⟩ := removeNamed_cases hs hnd hname
  refine ⟨h', s', hrem, fun oldOrder newOrder ho hw => ?_⟩
  rcases hcase with ⟨hlast, hold, hL⟩ | ⟨hlast, hdo, hsub, z, hz, hold⟩
  · rw [hold] at ho ⊢
    obtain ⟨st, hst, hst'⟩ := diffComponents_total false (fun _ => rfl) ho hw
    rw [hL, map_append, nodup_append] at hnd
    have hruns : Runs nameOf (shown h' s') st.reg := runs_iff.mpr ⟨hnd.1, hst'⟩
    refine ⟨st, by rw [hreg]; exact hst, .inl ⟨hlast, rfl, ?_, hruns⟩⟩
    funext n
    refine Option.ext fun c => ?_
    rw [hruns.2 n c]
    by_cases hn : n = name
    · subst hn
      rw [update_self]
      refine ⟨fun ⟨hc, hcn⟩ => ?_, fun hc => by cases hc⟩
      exact absurd (hcn.trans hd.symm) (hnd.2.2 _ (mem_map_of_mem hc) _ (by simp))
    · rw [update_of_ne hn, hrun.2 n c, hL, mem_append, mem_singleton]
      constructor
      · exact fun ⟨hc, hcn⟩ => ⟨.inl hc, hcn⟩
      · rintro ⟨hc | rfl, hcn⟩
        · exact ⟨hc, hcn⟩
        · exact absurd (hcn.symm.trans hd) hn
  · rw [hold] at hdo ⊢
    refine ⟨_, diffComponents_same (lookup_configMap_append hsub hz) _, .inr ⟨hlast, ?_, d, hdL, hdo⟩⟩
    simp [(hrun.2 name d).mpr ⟨hdL, hd⟩]

end

/-! ### The endpoints -/

/-- The engine runs exactly what `currentCfg` lists. -/
structure Hub.Consistent (x : Hub) : Prop where
  drivers : Runs DriverConfig.name x.state.oldCfg.drivers x.drivers
  transports : Runs TransportConfig.name x.state.oldCfg.transports x.transports

/-- `currentCfg` lists the same components in both. -/
structure Hub.SameListed (x' x : Hub) : Prop where
  drivers : ∀ d, d ∈ x'.state.oldCfg.drivers ↔ d ∈ x.state.oldCfg.drivers
  transports : ∀ t, t ∈ x'.state.oldCfg.transports ↔ t ∈ x.state.oldCfg.transports

/-- What removing a driver should do: take it out, or fail and leave `currentCfg` alone. -/
def Hub.DriverRemoved (x : Hub) (name : String) : Hub × Option RemoveError → Prop
  | (x', none) => x'.drivers = update x.drivers name none ∧ x'.transports = x.transports ∧ x'.Consistent
  | (x', some _) => x'.SameListed x

/-- The same for a transport. -/
def Hub.TransportRemoved (x : Hub) (name : String) : Hub × Option RemoveError → Prop
  | (x', none) => x'.drivers = x.drivers ∧ x'.transports = update x.transports name none ∧ x'.Consistent
  | (x', some _) => x'.SameListed x

structure SliceConfig.Valid (m : Memory) (c : SliceConfig) : Prop where
  drivers : c.drivers.Valid m.drivers
  transports : c.transports.Valid m.transports

section

variable {env : BuildEnv} {fails rollbackFails : Op → Bool} {valid : Config → Bool} {ord : Orders}

theorem parse_read (m : Memory) (cfg : Config) : (m.parse cfg).2.read (m.parse cfg).1 = cfg := by
  simp [SliceConfig.read, Memory.parse, read_alloc]

theorem reloadPayload_components {x : Hub} {cfg : Config} {origin : Origin}
    {d : DiffState DriverConfig} {t : DiffState TransportConfig} (hvalid : valid cfg = true)
    (hrules : x.state.oldCfg.rules = cfg.rules) (htags : x.state.oldCfg.derivedTags = cfg.derivedTags)
    (hd : diffDrivers (fun op => fails (.driver op)) x.state.oldCfg.drivers cfg.drivers false
      ord.oldDrivers ord.newDrivers ⟨x.drivers, [], []⟩ = (d, none))
    (ht : diffTransports (fun op => fails (.transport op)) x.state.oldCfg.transports cfg.transports
      false ord.oldTransports ord.newTransports ⟨x.transports, [], []⟩ = (t, none)) :
    ∃ x', reloadPayload env fails rollbackFails valid ord cfg origin x = (x', none) ∧
      x'.drivers = d.reg ∧ x'.transports = t.reg ∧ x'.state.oldCfg = cfg := by
  have happly : applyConfig env fails rollbackFails ord cfg false x.state =
      (⟨d.reg, t.reg, x.rules, x.derivedTags, some cfg⟩, none) := by
    unfold applyConfig applyDiffs
    simp only [Hub.state] at hd ht hrules htags ⊢
    simp [hd, ht, applyRules, hrules, htags]
  unfold reloadPayload
  rw [if_pos hvalid, happly]
  exact ⟨_, rfl, rfl, rfl, parse_read x.mem cfg⟩

/-- A reload succeeds if and only if the configuration is valid and applied; then it is in new arrays, and otherwise
`currentCfg` is as before. -/
theorem reloadPayload_cases (env : BuildEnv) (fails rollbackFails : Op → Bool) (valid : Config → Bool) (ord : Orders)
    (cfg : Config) (origin : Origin) (x : Hub) :
    (∃ x', reloadPayload env fails rollbackFails valid ord cfg origin x = (x', none) ∧
      (valid cfg = true ∧ (applyConfig env fails rollbackFails ord cfg false x.state).2 = none) ∧
      x'.mem = (x.mem.parse cfg).1 ∧ x'.currentCfg = some (x.mem.parse cfg).2) ∨
    ∃ x' e, reloadPayload env fails rollbackFails valid ord cfg origin x = (x', some e) ∧
      ¬ (valid cfg = true ∧ (applyConfig env fails rollbackFails ord cfg false x.state).2 = none) ∧
      x'.mem = x.mem ∧ x'.currentCfg = x.currentCfg := by
  unfold reloadPayload
  by_cases hvalid : valid cfg = true
  · rw [if_pos hvalid]
    rcases happly : applyConfig env fails rollbackFails ord cfg false x.state with ⟨s, _ | e⟩
    · exact .inl ⟨_, rfl, ⟨hvalid, rfl⟩, rfl, rfl⟩
    · exact .inr ⟨_, _, rfl, nofun, rfl, rfl⟩
  · rw [if_neg hvalid]
    exact .inr ⟨_, _, rfl, fun h => hvalid h.1, rfl, rfl⟩

variable {x : Hub} {c clone : SliceConfig} {m : Memory} {kind name : String} {origin : Origin}
  {drop : Memory → SliceConfig → Option (Memory × SliceConfig)}

theorem state_audit (x : Hub) (a : List ConfigAuditEntry) : ({ x with audit := a } : Hub).state = x.state := rfl

theorem oldCfg_eq (hc : x.currentCfg = some c) : x.state.oldCfg = c.read x.mem := by
  simp [Hub.state, State.oldCfg, hc]

theorem sameListed_iff (hc : x.currentCfg = some c) : ({ x with mem := m } : Hub).SameListed x ↔
    (∀ d, d ∈ (c.read m).drivers ↔ d ∈ (c.read x.mem).drivers) ∧
      ∀ t, t ∈ (c.read m).transports ↔ t ∈ (c.read x.mem).transports := by
  rw [← oldCfg_eq hc, ← oldCfg_eq (x := { x with mem := m }) hc]
  exact ⟨fun h => ⟨h.drivers, h.transports⟩, fun h => ⟨h.1, h.2⟩⟩

theorem removeResource_invalid (hc : x.currentCfg = some c) (hdrop : drop x.mem c = some (m, clone))
    (hvalid : valid (clone.read m) = false) :
    removeResource env fails rollbackFails valid ord kind name origin drop x =
      ({ x with mem := m }, some .invalid) := by
  unfold removeResource reloadPayload
  simp [hc, hdrop, hvalid]

theorem removeResource_components {d : DiffState DriverConfig} {t : DiffState TransportConfig}
    (hc : x.currentCfg = some c) (hdrop : drop x.mem c = some (m, clone))
    (hvalid : valid (clone.read m) = true) (hrules : (c.read m).rules = (clone.read m).rules)
    (htags : c.derivedTags = clone.derivedTags)
    (hd : diffDrivers (fun op => fails (.driver op)) (c.read m).drivers (clone.read m).drivers false
      ord.oldDrivers ord.newDrivers ⟨x.drivers, [], []⟩ = (d, none))
    (ht : diffTransports (fun op => fails (.transport op)) (c.read m).transports
      (clone.read m).transports false ord.oldTransports ord.newTransports ⟨x.transports, [], []⟩ = (t, none)) :
    ∃ x', removeResource env fails rollbackFails valid ord kind name origin drop x = (x', none) ∧
      x'.drivers = d.reg ∧ x'.transports = t.reg ∧ x'.state.oldCfg = clone.read m := by
  have hold : ({ x with mem := m } : Hub).state.oldCfg = c.read m :=
    oldCfg_eq (x := { x with mem := m }) hc
  rw [← hold] at hrules hd ht
  obtain ⟨x', hx', h1, h2, h3⟩ := @reloadPayload_components env fails rollbackFails valid ord
    { x with mem := m } (clone.read m) origin d t hvalid hrules (by rw [hold]; exact htags) hd ht
  simp only [hc] at hx'
  refine ⟨{ x' with audit := recordConfigAudit x'.audit (removalEntry kind name origin) }, ?_, h1, h2,
    by rw [state_audit]; exact h3⟩
  unfold removeResource
  simp [hc, hdrop, hx']

end

variable {valid : Config → Bool}

theorem removeDriverByName_iff {env : BuildEnv} {ord : Orders}
    {origin : Origin} {name : String} {x : Hub} {c : SliceConfig} (hc : x.currentCfg = some c)
    (hv : c.Valid x.mem) (hx : x.Consistent) (hname : name ∈ x.state.oldCfg.drivers.map (·.name))
    (hord : ∀ m c', removeNamedDriver name x.mem c = some (m, c') → ord.Valid (c.read m) (c'.read m)) :
    x.DriverRemoved name (removeDriverByName env (fun _ => false) (fun _ => false) valid ord name origin x) ↔
      (x.state.oldCfg.drivers.map (·.name)).getLast? = some name := by
  have hruns := hx.drivers
  have hrunt := hx.transports
  rw [oldCfg_eq hc] at hname hruns hrunt ⊢
  obtain ⟨h', s', hrem, hdiff⟩ := diff_after_cut hv.drivers hruns hname
  have hdrop : removeNamedDriver name x.mem c = some ({ x.mem with drivers := h' }, { c with drivers := s' }) := by
    unfold removeNamedDriver
    rw [hrem]
    rfl
  obtain ⟨st, hst, hcase⟩ := hdiff _ _ (hord _ _ hdrop).oldDrivers (hord _ _ hdrop).newDrivers
  unfold removeDriverByName
  cases hvalid : valid (SliceConfig.read { x.mem with drivers := h' } { c with drivers := s' }) with
  | false =>
    rw [removeResource_invalid hc hdrop hvalid]
    refine (sameListed_iff hc).trans ?_
    rcases hcase with ⟨hlast, heq, -⟩ | ⟨hlast, -, d, hd, hd'⟩
    · exact iff_of_true ⟨fun d => iff_of_eq (congrArg (d ∈ ·) heq), fun _ => Iff.rfl⟩ hlast
    · exact iff_of_false (fun hsame => hd' ((hsame.1 d).mpr hd)) hlast
  | true =>
    obtain ⟨x', hres, h1, h2, h3⟩ := @removeResource_components env (fun _ => false) (fun _ => false)
      valid ord x c _ _ "driver" name origin _ st ⟨x.transports, [], []⟩ hc hdrop hvalid rfl rfl hst
      (diffComponents_same (fun _ => rfl) _)
    rw [hres]
    rcases hcase with ⟨hlast, -, hreg, hruns'⟩ | ⟨hlast, hrun, -⟩
    · refine iff_of_true ⟨h1.trans hreg, h2, ?_, ?_⟩ hlast
      · rw [h3, h1]
        exact hruns'
      · rw [h3, h2]
        exact hrunt
    · refine iff_of_false (fun ⟨hd, _⟩ => hrun ?_) hlast
      rw [← h1, hd, update_self]

theorem removeTransportByName_iff {env : BuildEnv} {ord : Orders}
    {origin : Origin} {name : String} {x : Hub} {c : SliceConfig} (hc : x.currentCfg = some c)
    (hv : c.Valid x.mem) (hx : x.Consistent) (hname : name ∈ x.state.oldCfg.transports.map (·.name))
    (hord : ∀ m c', removeNamedTransport name x.mem c = some (m, c') → ord.Valid (c.read m) (c'.read m)) :
    x.TransportRemoved name (removeTransportByName env (fun _ => false) (fun _ => false) valid ord name origin x) ↔
      (x.state.oldCfg.transports.map (·.name)).getLast? = some name := by
  have hruns := hx.drivers
  have hrunt := hx.transports
  rw [oldCfg_eq hc] at hname hruns hrunt ⊢
  obtain ⟨h', s', hrem, hdiff⟩ := diff_after_cut hv.transports hrunt hname
  have hdrop : removeNamedTransport name x.mem c =
      some ({ x.mem with transports := h' }, { c with transports := s' }) := by
    unfold removeNamedTransport
    rw [hrem]
    rfl
  obtain ⟨st, hst, hcase⟩ := hdiff _ _ (hord _ _ hdrop).oldTransports (hord _ _ hdrop).newTransports
  unfold removeTransportByName
  cases hvalid : valid (SliceConfig.read { x.mem with transports := h' } { c with transports := s' }) with
  | false =>
    rw [removeResource_invalid hc hdrop hvalid]
    refine (sameListed_iff hc).trans ?_
    rcases hcase with ⟨hlast, heq, -⟩ | ⟨hlast, -, t, ht, ht'⟩
    · exact iff_of_true ⟨fun _ => Iff.rfl, fun t => iff_of_eq (congrArg (t ∈ ·) heq)⟩ hlast
    · exact iff_of_false (fun hsame => ht' ((hsame.2 t).mpr ht)) hlast
  | true =>
    obtain ⟨x', hres, h1, h2, h3⟩ := @removeResource_components env (fun _ => false) (fun _ => false)
      valid ord x c _ _ "transport" name origin _ ⟨x.drivers, [], []⟩ st hc hdrop hvalid rfl rfl
      (diffComponents_same (fun _ => rfl) _) hst
    rw [hres]
    rcases hcase with ⟨hlast, -, hreg, hrunt'⟩ | ⟨hlast, hrun, -⟩
    · refine iff_of_true ⟨h1, h2.trans hreg, ?_, ?_⟩ hlast
      · rw [h3, h1]
        exact hruns
      · rw [h3, h2]
        exact hrunt'
    · refine iff_of_false (fun ⟨_, ht, _⟩ => hrun ?_) hlast
      rw [← h2, ht, update_self]

/-- **Removing a driver or a transport takes it out of the engine and out of `currentCfg`, or fails and
leaves `currentCfg` alone, if and only if it is the last of its list.** -/
theorem removeByName_iff (env : BuildEnv) (valid : Config → Bool) (ord : Orders)
    (origin : Origin) (name : String) (x : Hub) (c : SliceConfig) (hc : x.currentCfg = some c)
    (hv : c.Valid x.mem) (hx : x.Consistent) :
    (name ∈ x.state.oldCfg.drivers.map (·.name) → (∀ m c', removeNamedDriver name x.mem c = some (m, c') →
        ord.Valid (c.read m) (c'.read m)) →
      (x.DriverRemoved name (removeDriverByName env (fun _ => false) (fun _ => false) valid ord name origin x) ↔
        (x.state.oldCfg.drivers.map (·.name)).getLast? = some name)) ∧
    (name ∈ x.state.oldCfg.transports.map (·.name) → (∀ m c', removeNamedTransport name x.mem c = some (m, c') →
        ord.Valid (c.read m) (c'.read m)) →
      (x.TransportRemoved name (removeTransportByName env (fun _ => false) (fun _ => false) valid ord name origin x) ↔
        (x.state.oldCfg.transports.map (·.name)).getLast? = some name)) :=
  ⟨removeDriverByName_iff hc hv hx, removeTransportByName_iff hc hv hx⟩

/-! ### Two drivers -/

/-- A hub with the drivers `plc` and `rtu` and the transport `cloud`. -/
def twoDrivers : Hub where
  mem := ⟨[[{ name := "plc", type := "modbus" }, { name := "rtu", type := "modbus" }]],
    [[{ name := "cloud", type := "mqtt" }]], [[]]⟩
  currentCfg := some ⟨⟨0, 0, 2, 2⟩, ⟨0, 0, 1, 1⟩, ⟨0, 0, 0, 0⟩, []⟩
  drivers := registryOf (configMap DriverConfig.name
    [{ name := "plc", type := "modbus" }, { name := "rtu", type := "modbus" }])
  transports := registryOf (configMap TransportConfig.name [{ name := "cloud", type := "mqtt" }])
  rules := ⟨none, [], ∅, [], fun _ => false⟩
  derivedTags := []
  audit := []

theorem twoDrivers_consistent : twoDrivers.Consistent :=
  ⟨runs_iff.mpr ⟨by decide, rfl⟩, runs_iff.mpr ⟨by decide, rfl⟩⟩

/-- Removing `rtu`, the last driver, works. -/
theorem removeByName_iff_rtu :
    twoDrivers.DriverRemoved "rtu" (removeDriverByName plantEnv (fun _ => false) (fun _ => false)
      (fun _ => true) ⟨["plc", "rtu"], ["plc"], ["cloud"], ["cloud"]⟩ "rtu" {} twoDrivers) := by
  refine ((removeByName_iff plantEnv (fun _ => true) ⟨["plc", "rtu"], ["plc"], ["cloud"], ["cloud"]⟩
    {} "rtu" twoDrivers _ rfl ⟨⟨?_, ?_, ?_⟩, ⟨?_, ?_, ?_⟩⟩ twoDrivers_consistent).1 ?_ ?_).mpr ?_
  any_goals decide
  intro m c' h
  cases h
  constructor <;> decide

/-- **Removing `plc`, the first driver, reports success, and the engine still runs it.** -/
theorem removeDriverByName_keeps_plc : twoDrivers.Consistent ∧
      ∃ x', removeDriverByName plantEnv (fun _ => false) (fun _ => false) (fun _ => true)
          ⟨["rtu"], ["rtu"], ["cloud"], ["cloud"]⟩ "plc" {} twoDrivers = (x', none) ∧
        x'.drivers "plc" = some { name := "plc", type := "modbus" } ∧
        x'.state.oldCfg.drivers = [{ name := "rtu", type := "modbus" }] :=
  ⟨twoDrivers_consistent, _, rfl, rfl, rfl⟩

end CoreC.Executor.Remove
