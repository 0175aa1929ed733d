import CoreC.Engine.Write
import CoreC.Lib.Slots

/-! # Drivers under concurrent changes

The maps `drivers` and `driverConfigs` (`engine/driver_manager.go`, `engine/tagfile_watcher.go`) under any interleaving
of the critical sections of `AddDriver`, `RemoveDriver`, reloads of a tags file and `WriteTag`. A write goes to the
instance in the first map and is checked against the configuration in the second. `AddDriver` puts the two into the maps
in two critical sections; in between they are of different drivers (`write_in_window`). -/

namespace CoreC.Engine.Registry

open Core.Types Engine.Write Lib.Runs Function
open Lib.Slots (of_update_none of_update_some)

/-! ### The maps and the calls -/

/-- A driver instance, with the configuration of its `Init`. -/
structure Instance where
  id : ℕ
  config : DriverConfig
  deriving DecidableEq, Repr

/-- A call in progress, by what it does next. `AddDriver`: remove the old instance, install the new one, store the
configuration. A reload: remove, install both. `WriteTag`: write, with what it read from the maps. -/
inductive Call where
  | remove (d : Instance)
  | install (d : Instance)
  | store (d : Instance)
  | reloadRemove (d : Instance)
  | reloadInstall (d : Instance)
  | write (cmd : WriteCommand) (d : Option Instance) (dc : Option DriverConfig)

/-- `driverRegistry`: the maps, the calls of the threads, the number of instances so far, and the calls of
`Write` on an instance, with the tag. -/
structure DriverRegistry where
  drivers : String → Option Instance := fun _ => none
  driverConfigs : String → Option DriverConfig := fun _ => none
  calls : ℕ → Option Call := fun _ => none
  created : ℕ := 0
  written : List (Instance × String) := []

/-- The critical sections. `add` and `reload` begin a call whose new instance has been started; one that fails before
that changes nothing. `next` is the next section of a call; `paced` tells that the write comes too soon. -/
inductive Act where
  | add (thread : ℕ) (config : DriverConfig)
  | reload (thread : ℕ) (name : String) (tags : List TagConfig)
  | remove (name : String)
  | write (thread : ℕ) (cmd : WriteCommand)
  | next (thread : ℕ) (paced : Bool)

/-- The next critical section of a call: the maps and the writes after it, and what is left of the call.
`quoted` formats a name in a message. -/
def advance (quoted : String → String) (s : DriverRegistry) (paced : Bool) : Call → DriverRegistry × Option Call
  | .remove d => ({ s with drivers := update s.drivers d.config.name none }, some (.install d))
  | .install d =>
    ({ s with drivers := update s.drivers d.config.name (some d) }, some (.store d))
  | .store d =>
    ({ s with driverConfigs := update s.driverConfigs d.config.name (some d.config) }, none)
  | .reloadRemove d =>
    ({ s with drivers := update s.drivers d.config.name none }, some (.reloadInstall d))
  | .reloadInstall d =>
    ({ s with drivers := update s.drivers d.config.name (some d),
              driverConfigs := update s.driverConfigs d.config.name (some d.config) }, none)
  | .write cmd d dc =>
    match d with
    | none => (s, none)
    | some d =>
      if (dc.bind fun dc => tagWriteProtectionReason quoted dc.tags cmd.tag).isSome ∨ paced then (s, none)
      else ({ s with written := s.written ++ [(d, cmd.tag)] }, none)

/-- One section of a call. -/
def step (quoted : String → String) (s : DriverRegistry) : Act → Option DriverRegistry
  | .add thread config =>
    match s.calls thread with
    | some _ => none
    | none =>
      some { s with created := s.created + 1,
                    calls := update s.calls thread (some (.remove ⟨s.created, config⟩)) }
  | .reload thread name tags =>
    match s.calls thread, s.driverConfigs name with
    | none, some base =>
      some { s with
        created := s.created + 1
        calls := update s.calls thread (some (.reloadRemove ⟨s.created, { base with tags := tags }⟩)) }
    | _, _ => none
  | .remove name =>
    match s.drivers name with
    | none => some s
    | some _ =>
      some { s with drivers := update s.drivers name none,
                    driverConfigs := update s.driverConfigs name none }
  | .write thread cmd =>
    match s.calls thread with
    | some _ => none
    | none =>
      some { s with
        calls := update s.calls thread (some (.write cmd (s.drivers cmd.driver) (s.driverConfigs cmd.driver))) }
  | .next thread paced =>
    match s.calls thread with
    | none => none
    | some call =>
      let (s', rest) := advance quoted s paced call
      some { s' with calls := update s.calls thread rest }

/-! ### The condition -/

/-- Of the entries of a protected tag the first one protects it: the check looks at no other. -/
def Clear (tags : List TagConfig) : Prop :=
  ∀ t ∈ tags, t.protect = "read-only" →
    ∃ first, tags.find? (fun x => x.name = t.name) = some first ∧ first.protect = "read-only"

variable (s : DriverRegistry)

/-- An `AddDriver` call has installed its instance and has not stored its configuration. -/
def Window (name : String) : Prop :=
  ∃ i d, s.calls i = some (.store d) ∧ d.config.name = name

/-- The condition on an action: the tag lists are clear, and in the window of a driver no write looks at it and no other
instance of it is installed. -/
def Orderly : Act → Prop
  | .add _ config => Clear config.tags
  | .reload _ _ tags => Clear tags
  | .remove _ => True
  | .write _ cmd => ¬ Window s cmd.driver
  | .next i _ => ∀ d, s.calls i = some (.install d) ∨ s.calls i = some (.reloadInstall d) → ¬ Window s d.config.name

/-- The configuration protects the tag. -/
def ReadOnly (config : DriverConfig) (tag : String) : Prop :=
  ∃ t ∈ config.tags, t.name = tag ∧ t.protect = "read-only"

/-- No write has reached an instance whose own configuration protects the tag. -/
def Safe : Prop := ∀ w ∈ s.written, ¬ ReadOnly w.1.config w.2

/-! ### The two maps agree -/

def Call.instance? : Call → Option Instance
  | .remove d | .install d | .store d | .reloadRemove d | .reloadInstall d => some d
  | .write _ d _ => d

structure Sync (s : DriverRegistry) : Prop where
  name : ∀ n d, s.drivers n = some d → d.config.name = n
  configName : ∀ n dc, s.driverConfigs n = some dc → dc.name = n
  clear : ∀ n d, s.drivers n = some d → Clear d.config.tags
  callClear : ∀ i call d, s.calls i = some call → Call.instance? call = some d → Clear d.config.tags
  window : ∀ i d, s.calls i = some (.store d) → s.drivers d.config.name = some d ∨ s.drivers d.config.name = none
  synced : ∀ n d, s.drivers n = some d → s.driverConfigs n = some d.config ∨ ∃ i, s.calls i = some (.store d)
  write : ∀ i cmd d dc, s.calls i = some (.write cmd (some d) dc) → dc = some d.config

theorem sync_empty : Sync {} := by
  constructor <;> simp

section

variable {quoted : String → String} {s s' : DriverRegistry} {i : ℕ}

theorem Sync.call (h : Sync s) (hstore : ∀ d, s.calls i ≠ some (.store d)) {rest : Option Call}
    {created : ℕ} (hclear : ∀ d, rest.bind Call.instance? = some d → Clear d.config.tags)
    (hrest : ∀ d, rest ≠ some (.store d))
    (hwrite : ∀ cmd d dc, rest = some (.write cmd (some d) dc) → dc = some d.config) :
    Sync { s with created := created, calls := update s.calls i rest } := by
  have hcalls : ∀ {j call}, update s.calls i rest j = some call → rest = some call ∨ s.calls j = some call := by
    intro j call hj
    by_cases hji : j = i
    · exact .inl (by simpa [hji] using hj)
    · exact .inr (by simpa [hji] using hj)
  refine { h with callClear := ?_, window := ?_, synced := ?_, write := ?_ }
  · intro j call d hj hd
    rcases hcalls hj with hj | hj
    · exact hclear d (by rw [hj]; exact hd)
    · exact h.callClear j call d hj hd
  · intro j d hj
    rcases hcalls hj with hj | hj
    · exact absurd hj (hrest d)
    · exact h.window j d hj
  · intro n d hn
    refine (h.synced n d hn).imp_right ?_
    rintro ⟨j, hj⟩
    have hji : j ≠ i := fun heq => hstore d (heq ▸ hj)
    exact ⟨j, by simpa [hji] using hj⟩
  · intro j cmd d dc hj
    rcases hcalls hj with hj | hj
    · exact hwrite cmd d dc hj
    · exact h.write j cmd d dc hj

theorem Sync.erase (h : Sync s) (n : String) : Sync { s with drivers := update s.drivers n none } where
  name m d hm := h.name m d (of_update_none hm).2
  configName := h.configName
  clear m d hm := h.clear m d (of_update_none hm).2
  callClear := h.callClear
  window j d hj := by
    by_cases hdn : d.config.name = n
    · exact .inr (by simp [hdn])
    · simpa [hdn] using h.window j d hj
  synced m d hm := h.synced m d (of_update_none hm).2
  write := h.write

theorem Sync.forget (h : Sync s) {n : String} (hn : s.drivers n = none) :
    Sync { s with driverConfigs := update s.driverConfigs n none } where
  name := h.name
  configName m dc hm := h.configName m dc (of_update_none hm).2
  clear := h.clear
  callClear := h.callClear
  window := h.window
  synced m d hm := by
    have hmn : m ≠ n := by
      rintro rfl
      rw [hn] at hm
      cases hm
    simpa [hmn] using h.synced m d hm
  write := h.write

theorem Sync.store (h : Sync s) {d : Instance} (hi : s.calls i = some (.store d)) :
    Sync { s with driverConfigs := update s.driverConfigs d.config.name (some d.config),
                  calls := update s.calls i none } where
  name := h.name
  configName m dc hm := by
    rcases of_update_some hm with ⟨rfl, rfl⟩ | ⟨-, hm⟩
    · rfl
    · exact h.configName m dc hm
  clear := h.clear
  callClear j call d' hj := h.callClear j call d' (of_update_none hj).2
  window j d' hj := h.window j d' (of_update_none hj).2
  synced m d' hm := by
    by_cases hmn : m = d.config.name
    · subst hmn
      -- the instance in the map is still the one this call has installed
      rcases h.window i d hi with hd | hd
      · obtain rfl : d' = d := Option.some.inj (hm.symm.trans hd)
        exact .inl (by simp)
      · rw [hd] at hm
        cases hm
    · rcases h.synced m d' hm with hc | ⟨j, hj⟩
      · exact .inl (by simpa [hmn] using hc)
      · refine .inr ⟨j, ?_⟩
        have hji : j ≠ i := by
          rintro rfl
          rw [hi] at hj
          cases hj
          exact hmn (h.name m d hm).symm
        simpa [hji] using hj
  write j cmd d' dc hj := h.write j cmd d' dc (of_update_none hj).2

/-- An instance is installed outside of any window: `AddDriver` opens one, a reload stores the
configuration at once. -/
theorem Sync.install (h : Sync s) {d : Instance} (hclear : Clear d.config.tags)
    (hstore : ∀ d, s.calls i ≠ some (.store d)) (hwindow : ¬ Window s d.config.name)
    {rest : Option Call} {configs : String → Option DriverConfig}
    (hrest : rest = some (.store d) ∧ configs = s.driverConfigs ∨
      rest = none ∧ configs = update s.driverConfigs d.config.name (some d.config)) :
    Sync { s with drivers := update s.drivers d.config.name (some d), driverConfigs := configs,
                  calls := update s.calls i rest } := by
  have hcalls : ∀ {j call}, update s.calls i rest j = some call → call = .store d ∧ j = i ∨ s.calls j = some call := by
    intro j call hj
    rcases hrest with ⟨rfl, -⟩ | ⟨rfl, -⟩
    · rcases of_update_some hj with ⟨rfl, rfl⟩ | ⟨-, hj⟩
      · exact .inl ⟨rfl, rfl⟩
      · exact .inr hj
    · exact .inr (of_update_none hj).2
  have hconfigs : ∀ {m}, m ≠ d.config.name → configs m = s.driverConfigs m := by
    intro m hm
    rcases hrest with ⟨-, rfl⟩ | ⟨-, rfl⟩
    · rfl
    · simp [hm]
  refine ⟨?_, ?_, ?_, ?_, ?_, ?_, ?_⟩
  · intro m d' hm
    rcases of_update_some hm with ⟨rfl, rfl⟩ | ⟨-, hm⟩
    · rfl
    · exact h.name m d' hm
  · intro m dc hm
    rcases hrest with ⟨-, rfl⟩ | ⟨-, rfl⟩
    · exact h.configName m dc hm
    · rcases of_update_some hm with ⟨rfl, rfl⟩ | ⟨-, hm⟩
      · rfl
      · exact h.configName m dc hm
  · intro m d' hm
    rcases of_update_some hm with ⟨-, rfl⟩ | ⟨-, hm⟩
    · exact hclear
    · exact h.clear m d' hm
  · intro j call d' hj hd
    rcases hcalls hj with ⟨rfl, -⟩ | hj
    · obtain rfl : d = d' := Option.some.inj hd
      exact hclear
    · exact h.callClear j call d' hj hd
  · intro j d' hj
    rcases hcalls hj with ⟨heq, -⟩ | hj
    · cases heq
      exact .inl (by simp)
    · have hne : d'.config.name ≠ d.config.name := fun heq => hwindow ⟨j, d', hj, heq⟩
      simpa [hne] using h.window j d' hj
  · intro m d' hm
    rcases of_update_some hm with ⟨rfl, rfl⟩ | ⟨hne, hm⟩
    · rcases hrest with ⟨rfl, -⟩ | ⟨-, rfl⟩
      · exact .inr ⟨i, by simp⟩
      · exact .inl (by simp)
    · dsimp only
      rw [hconfigs hne]
      refine (h.synced m d' hm).imp_right ?_
      rintro ⟨j, hj⟩
      have hji : j ≠ i := fun heq => hstore d' (heq ▸ hj)
      exact ⟨j, by simpa [hji] using hj⟩
  · intro j cmd d' dc hj
    rcases hcalls hj with ⟨heq, -⟩ | hj
    · cases heq
    · exact h.write j cmd d' dc hj

/-! ### Every step -/

theorem sync_step {a : Act} (ha : Orderly s a) (hstep : step quoted s a = some s') (h : Sync s) : Sync s' := by
  cases a with
  | add i config =>
    simp only [step] at hstep
    split at hstep
    · cases hstep
    · next hfree =>
      cases hstep
      refine h.call (by simp [hfree]) (fun d hd => ?_) (by simp) (by simp)
      obtain rfl : (⟨s.created, config⟩ : Instance) = d := by simpa [Call.instance?] using hd
      exact ha
  | reload i name tags =>
    simp only [step] at hstep
    split at hstep
    · next hfree hbase =>
      cases hstep
      refine h.call (by simp [hfree]) (fun d hd => ?_) (by simp) (by simp)
      obtain rfl : (⟨s.created, _⟩ : Instance) = d := by simpa [Call.instance?] using hd
      exact ha
    · cases hstep
  | remove name =>
    simp only [step] at hstep
    split at hstep
    · cases hstep
      exact h
    · cases hstep
      exact (h.erase name).forget (by simp)
  | write i cmd =>
    simp only [step] at hstep
    split at hstep
    · cases hstep
    · next hfree =>
      cases hstep
      refine h.call (by simp [hfree]) (fun d hd => ?_) (by simp) ?_
      · exact h.clear cmd.driver d (by simpa [Call.instance?] using hd)
      · rintro cmd' d dc heq
        simp only [Option.some.injEq, Call.write.injEq] at heq
        obtain ⟨-, hd, rfl⟩ := heq
        -- outside of the window the configuration is that of the instance
        rcases h.synced cmd.driver d hd with hc | ⟨j, hj⟩
        · exact hc
        · exact absurd ⟨j, d, hj, h.name cmd.driver d hd⟩ ha
  | next i paced =>
    simp only [step] at hstep
    split at hstep
    · cases hstep
    · next call hi =>
      cases hstep
      have hclear : ∀ d, Call.instance? call = some d → Clear d.config.tags :=
        fun d => h.callClear i call d hi
      cases call with
      | install d =>
        exact h.install (hclear d rfl) (by simp [hi]) (ha d (.inl hi)) (.inl ⟨rfl, rfl⟩)
      | store d => exact h.store hi
      | reloadInstall d =>
        exact h.install (hclear d rfl) (by simp [hi]) (ha d (.inr hi)) (.inr ⟨rfl, rfl⟩)
      | write cmd d dc =>
        have hend : Sync { s with calls := update s.calls i none } :=
          h.call (by simp [hi]) (by simp) (by simp) (by simp)
        cases d with
        | none => exact hend
        | some d =>
          simp only [advance]
          split_ifs
          · exact hend
          · exact { hend with }
      | remove d | reloadRemove d =>
        exact (h.erase d.config.name).call (by simp [hi]) (fun d' hd => hclear d' hd) (by simp [advance])
          (by simp [advance])

theorem safe_step {a : Act} (hstep : step quoted s a = some s') (h : Sync s) (hsafe : Safe s) : Safe s' := by
  cases a with
  | remove name =>
    simp only [step] at hstep
    split at hstep <;> cases hstep <;> exact hsafe
  | next i paced =>
    simp only [step] at hstep
    split at hstep
    · cases hstep
    · next call hi =>
      cases hstep
      cases call with
      | write cmd d dc =>
        cases d with
        | none => exact hsafe
        | some d =>
          obtain rfl := h.write i cmd d dc hi
          have hclear := h.callClear i _ d hi rfl
          simp only [advance]
          split_ifs with hcheck
          · exact hsafe
          · intro w hw
            rcases List.mem_append.mp hw with hw | hw
            · exact hsafe w hw
            · obtain rfl := List.mem_singleton.mp hw
              rintro ⟨t, ht, hname, hprotect⟩
              obtain ⟨first, hfind, hfirst⟩ := hclear t ht hprotect
              rw [hname] at hfind
              refine hcheck (.inl ?_)
              simp [tagWriteProtectionReason, hfind, hfirst]
      | remove d | install d | store d | reloadRemove d | reloadInstall d => exact hsafe
  | _ =>
    simp only [step] at hstep
    split at hstep <;> cases hstep
    exact hsafe

end

/-- **Read-only tags are never written** in a run in which the tag lists are clear, and in the window of
a driver no write looks at it and no other instance of it is installed. -/
theorem read_only_run {quoted : String → String} {as : List Act} {s : DriverRegistry}
    (hrun : Run (step quoted) Orderly {} as s) : Safe s :=
  (hrun.invariant (I := fun s => Sync s ∧ Safe s)
    (fun _ _ _ ha hstep h => ⟨sync_step ha hstep h.1, safe_step hstep h.1 h.2⟩)
    ⟨sync_empty, by simp [Safe]⟩).2

def valveConfig (protect : String) : DriverConfig :=
  { name := "plc", type := "modbus",
    tags := [{ name := "valve", address := "40001", type := "int16", protect := protect },
      { name := "speed", address := "40002", type := "int16" }] }

def writeOf (tag : String) : WriteCommand := { driver := "plc", tag := tag }

/-- The driver is added; the write of the protected tag is refused, and that of the other one reaches it. -/
theorem read_only_run_valve : ∃ s, Run (step id) Orderly {}
      [.add 0 (valveConfig "read-only"), .next 0 false, .next 0 false, .next 0 false,
        .write 1 (writeOf "valve"), .write 2 (writeOf "speed"), .next 1 false, .next 2 false] s ∧
    s.written = [(⟨0, valveConfig "read-only"⟩, "speed")] ∧ Safe s := by
  have hclear : Clear (valveConfig "read-only").tags := by simp [Clear, valveConfig]
  refine Run.exists_of_forall (fun _ => read_only_run) ⟨_, .cons hclear rfl (.cons ?_ rfl (.cons ?_ rfl (.cons ?_ rfl
    (.cons ?_ rfl (.cons ?_ rfl (.cons ?_ rfl (.cons ?_ rfl (.nil _)))))))), fun hsafe => ⟨rfl, hsafe⟩⟩
  all_goals simp [Orderly, Window, update_apply]
  -- only the thread that installs the instance is at work
  intro j d hj
  split_ifs at hj
  cases hj

/-- **A write in the window**: the driver is replaced by one that protects the tag, and the write reaches
the new instance after a check against the old configuration. -/
theorem write_in_window : ∃ s, Run (step id) (fun _ _ => True) {}
      [.add 0 (valveConfig "read-write"), .next 0 false, .next 0 false, .next 0 false,
        .add 0 (valveConfig "read-only"), .next 0 false, .next 0 false,
        .write 1 (writeOf "valve"), .next 1 false] s ∧
    s.written = [(⟨1, valveConfig "read-only"⟩, "valve")] ∧
    ReadOnly (valveConfig "read-only") "valve" := by
  exact ⟨_, .cons trivial rfl (.cons trivial rfl (.cons trivial rfl (.cons trivial rfl
    (.cons trivial rfl (.cons trivial rfl (.cons trivial rfl (.cons trivial rfl
      (.cons trivial rfl (.nil _))))))))), rfl, _, List.mem_cons_self, rfl, rfl⟩

end CoreC.Engine.Registry
