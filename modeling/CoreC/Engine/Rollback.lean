import CoreC.Engine.Batcher
import CoreC.Engine.DriverManager
import CoreC.Engine.Settings
import CoreC.Executor.Startup

/-! # A start that fails

`Start` (`engine/runtime.go`) brings up the settings, the scheduler, the transports, the rules, the drivers and the
derived tags, and registers its rollback after the settings. The rollback stops what it finds in the maps of the
managers, and waits for a driver, a batcher or a transport no longer than the shutdown-timeout. So does the replacement
of a transport for its batcher.

* `body_fold`: what the steps make of a part of the engine, from what each of them makes of it. -/

namespace CoreC.Engine.Rollback

open Core.Types Lib.Slots Engine.DriverManager Engine.Settings

/-! ### The engine -/

/-- `core.EngineStatus`. -/
inductive EngineStatus where
  | stopped
  | running
  | suspended
  deriving DecidableEq, Repr

/-- The engine, as far as a start changes it: the settings, the status, whether the run context is cancelled, and the
components with the maps that hold them. -/
structure Runtime where
  settings : EngineSettings
  status : EngineStatus := .stopped
  cancelled : Bool := true
  drivers : DriverState := {}
  transports : Table String := {}
  batchers : Table String := {}
  providers : Table String := {}

/-- What is wrong with the rules. -/
inductive RulesFailure where
  | subRules
  | rules
  deriving DecidableEq, Repr

/-- The errors of `Start`. -/
inductive StartFailure where
  | settings (err : StartError)
  | scheduler
  | transport (phase : Phase) (name : String)
  | provider (name : String)
  | rules (err : RulesFailure)
  | driver (phase : Phase) (name : String)
  | derivedTags
  deriving DecidableEq, Repr

/-- The components that are stopped under the shutdown-timeout. -/
inductive Component where
  | driver
  | transport
  | batcher
  deriving DecidableEq, Repr

/-- What a start meets: which steps succeed, and of which instances the `Stop` takes longer than the shutdown-timeout
and is still under way when `Start` returns. -/
structure StartEnv where
  settings : Settings.Env
  schedulerFails : Bool
  transportFails : TransportConfig → Option Phase
  providerLoads : RuleProviderConfig → Bool
  rulesFail : FullConfig → Option RulesFailure
  driverFails : DriverConfig → Option Phase
  limiter : DriverConfig → Option ℤ
  order : DriverConfig → List ℤ
  tagsFileLoads : String → Bool
  derivedFails : List DerivedTagConfig → Bool
  lingers : Component → String × ℕ → Bool

/-- The engine after a step, and the error of the step. -/
abbrev Result : Type := Runtime × Option StartFailure

/-- The next step, unless there is an error. -/
def Result.andThen (r : Result) (next : Runtime → Result) : Result :=
  match r.2 with
  | some _ => r
  | none => next r.1

/-- A step for each member of a section, to the first error. -/
def each {α : Type} (step : Runtime → α → Except StartFailure Runtime) : List α → Runtime → Result
  | [], r => (r, none)
  | x :: xs, r =>
    match step r x with
    | .error err => (r, some err)
    | .ok r => each step xs r

variable (env : StartEnv)

/-- What `AddTransport` makes of the transports and the batchers. -/
def transportStep (buffered : Bool) (tables : Table String × Table String) (tc : TransportConfig) :
    Table String × Table String :=
  -- the batcher of a transport that is replaced is stopped with it, under the timeout
  let batchers := if Registered tables.1 tc.name then remove (env.lingers .batcher) tables.2 tc.name else tables.2
  let batcher := Batcher.newTransportBatcher env.settings.parseDuration tc buffered
  (swap tables.1 tc.name, if batcher.isSome then install batchers tc.name true else batchers)

/-- `AddTransport` during the start. -/
def addTransport (r : Runtime) (tc : TransportConfig) : Except StartFailure Runtime :=
  match env.transportFails tc with
  | some phase => .error (.transport phase tc.name)
  | none =>
    let tables := transportStep env r.settings.offlineBuffer.isSome (r.transports, r.batchers) tc
    .ok { r with transports := tables.1, batchers := tables.2 }

/-- The interval of `NewFileProvider`; no text is no interval. -/
def providerInterval (pc : RuleProviderConfig) : Option ℤ :=
  match env.settings.parseDuration pc.interval with
  | some d => some d
  | none => if pc.interval = "" then some 0 else none

/-- `NewFileProvider` succeeds. -/
def providerStarts (pc : RuleProviderConfig) : Bool :=
  (providerInterval env pc).isSome && env.providerLoads pc

/-- A provider with a positive interval has a goroutine that reloads its file. -/
def reloads (pc : RuleProviderConfig) : Bool := (providerInterval env pc).any (0 < ·)

/-- One provider of `initRules`, with `AddProvider`. -/
def addProvider (r : Runtime) (pc : RuleProviderConfig) : Except StartFailure Runtime :=
  if providerStarts env pc then .ok { r with providers := install r.providers pc.name (reloads env pc) }
  else .error (.provider pc.name)

/-- `initRules`: the providers, then the rules. -/
def initRules (cfg : FullConfig) (r : Runtime) : Result :=
  (each (addProvider env) cfg.ruleProviders r).andThen fun r => (r, (env.rulesFail cfg).map .rules)

/-- What `AddDriver` meets. -/
def driverEnv (settings : EngineSettings) : DriverEnv where
  fails := env.driverFails
  limiter := env.limiter
  parseDuration := env.settings.parseDuration
  defaultTagInterval := settings.defaultTagInterval
  order := env.order
  loads := env.tagsFileLoads

/-- One driver of `startDrivers`. -/
def startDriver (r : Runtime) (dc : DriverConfig) : Except StartFailure Runtime :=
  match addDriver (driverEnv env r.settings) r.drivers dc with
  | .error (phase, name) => .error (.driver phase name)
  | .ok drivers => .ok { r with drivers := drivers }

/-- `startScheduler`: the scheduler is a new one. -/
def startScheduler (r : Runtime) : Result :=
  ({ r with drivers := { r.drivers with tasks := ∅, paused := [] } },
    if env.schedulerFails then some .scheduler else none)

/-- `startTransports`. -/
def startTransports (cfg : FullConfig) (r : Runtime) : Result :=
  each (addTransport env) cfg.transports r

/-- `startDrivers`. -/
def startDrivers (cfg : FullConfig) (r : Runtime) : Result :=
  each (startDriver env) cfg.drivers r

/-- `startDerivedTags`, if there are any. -/
def startDerivedTags (cfg : FullConfig) (r : Runtime) : Result :=
  (r, if cfg.derivedTags ≠ [] ∧ env.derivedFails cfg.derivedTags then some .derivedTags else none)

/-- The steps of `Start` under the rollback. -/
def body (cfg : FullConfig) (r : Runtime) : Result :=
  ((((startScheduler env r).andThen (startTransports env cfg)).andThen (initRules env cfg)).andThen
    (startDrivers env cfg)).andThen (startDerivedTags env cfg)

/-- `rollbackStart`. The scheduler, the providers and the watchers are waited for as long as they take. -/
def rollbackStart (r : Runtime) : Runtime :=
  { r with
    status := .stopped
    cancelled := true
    drivers := { r.drivers with
      drivers := stopAll (env.lingers .driver) r.drivers.drivers
      tasks := ∅
      watchers := stopAll (fun _ => false) r.drivers.watchers }
    transports := stopAll (env.lingers .transport) r.transports
    batchers := stopAll (env.lingers .batcher) r.batchers
    providers := stopAll (fun _ => false) r.providers }

/-- What `Start` does before the settings: a new context, and empty maps. -/
def reset (r : Runtime) : Runtime :=
  { r with
    status := .running
    cancelled := false
    drivers := { r.drivers with drivers := clear r.drivers.drivers, tagGroups := fun _ => none }
    transports := clear r.transports
    batchers := clear r.batchers }

/-- `Start`. -/
def start (cfg : FullConfig) (r : Runtime) : Result :=
  match applyEngineConfig env.settings cfg.global.engine r.settings with
  -- the rollback is not registered yet
  | (settings, some err) => ({ reset r with settings := settings }, some (.settings err))
  | (settings, none) =>
    let settings := { settings with commandConcurrency := commandSlots settings.commandConcurrency }
    let r := { reset r with settings := applyBuffer env.settings cfg.global.buffer settings }
    match body env (Executor.Startup.autoFillNodeConfig cfg) r with
    | (r, some err) => (rollbackStart env r, some err)
    | (r, none) => (r, none)

/-! ### What the steps leave in the maps -/

section

variable {env : StartEnv} {cfg : FullConfig} {r r' : Runtime} {α β : Type}

/-- The transports that are added before a step fails. -/
def addedTransports (env : StartEnv) (cfg : FullConfig) : List TransportConfig :=
  if env.schedulerFails then [] else cfg.transports.takeWhile fun tc => env.transportFails tc = none

/-- The scheduler and the transports start. -/
def TransportsStart (env : StartEnv) (cfg : FullConfig) : Prop :=
  env.schedulerFails = false ∧ ∀ tc ∈ cfg.transports, env.transportFails tc = none

instance : Decidable (TransportsStart env cfg) := inferInstanceAs (Decidable (_ ∧ _))

/-- And so do the rules. -/
def RulesStart (env : StartEnv) (cfg : FullConfig) : Prop :=
  TransportsStart env cfg ∧ (∀ pc ∈ cfg.ruleProviders, providerStarts env pc = true) ∧ env.rulesFail cfg = none

instance : Decidable (RulesStart env cfg) := inferInstanceAs (Decidable (_ ∧ _ ∧ _))

/-- The providers that are added before a step fails. -/
def addedProviders (env : StartEnv) (cfg : FullConfig) : List RuleProviderConfig :=
  if TransportsStart env cfg then cfg.ruleProviders.takeWhile (providerStarts env) else []

/-- The drivers that are added before a step fails. -/
def addedDrivers (env : StartEnv) (cfg : FullConfig) : List DriverConfig :=
  if RulesStart env cfg then cfg.drivers.takeWhile fun dc => env.driverFails dc = none else []

variable {step : Runtime → α → Except StartFailure Runtime} {ok : α → Bool}

theorem each_none_iff (hok : ∀ r x, (∃ r', step r x = .ok r') ↔ ok x = true) : ∀ xs r,
    (each step xs r).2 = none ↔ ∀ x ∈ xs, ok x = true
  | [], _ => by simp [each]
  | x :: xs, r => by
    rw [each, List.forall_mem_cons, ← hok r x]
    cases hx : step r x with
    | error err => simp
    | ok r' => simp [each_none_iff hok xs r']

/-- What a step makes of a part `f` of the engine, for a whole section. -/
theorem each_fold (hok : ∀ r x, (∃ r', step r x = .ok r') ↔ ok x = true) {f : Runtime → β} {g : β → α → β}
    (hstep : ∀ r x r', step r x = .ok r' → f r' = g (f r) x) : ∀ xs r,
    f (each step xs r).1 = (xs.takeWhile ok).foldl g (f r)
  | [], _ => rfl
  | x :: xs, r => by
    rw [each, List.takeWhile_cons]
    cases hx : step r x with
    | error err =>
      rw [if_neg fun h => by simpa [hx] using (hok r x).mpr h]
      rfl
    | ok r' =>
      rw [if_pos ((hok r x).mp ⟨r', hx⟩), List.foldl_cons, ← hstep r x r' hx]
      exact each_fold hok hstep xs r'

theorem addTransport_ok_iff (r : Runtime) (tc : TransportConfig) :
    (∃ r', addTransport env r tc = .ok r') ↔ decide (env.transportFails tc = none) = true := by
  unfold addTransport
  cases env.transportFails tc with
  | some | none => simp

theorem addProvider_ok_iff (r : Runtime) (pc : RuleProviderConfig) :
    (∃ r', addProvider env r pc = .ok r') ↔ providerStarts env pc = true := by
  unfold addProvider
  split_ifs with h
  · simp [h]
  · simp [h]

theorem startDriver_ok_iff (r : Runtime) (dc : DriverConfig) :
    (∃ r', startDriver env r dc = .ok r') ↔ decide (env.driverFails dc = none) = true := by
  unfold startDriver addDriver driverEnv
  dsimp only
  cases env.driverFails dc with
  | some | none => simp

theorem Result.andThen_fst (res : Result) (next : Runtime → Result) :
    (res.andThen next).1 = if res.2 = none then (next res.1).1 else res.1 := by
  unfold Result.andThen
  cases hres : res.2 with
  | some | none => simp

theorem Result.andThen_none_iff (res : Result) (next : Runtime → Result) :
    (res.andThen next).2 = none ↔ res.2 = none ∧ (next res.1).2 = none := by
  unfold Result.andThen
  cases hres : res.2 with
  | some err => simp [hres]
  | none => simp

theorem transports_none_iff :
    ((startScheduler env r).andThen (startTransports env cfg)).2 = none ↔ TransportsStart env cfg := by
  rw [Result.andThen_none_iff, startTransports, each_none_iff addTransport_ok_iff]
  unfold startScheduler TransportsStart
  simp

theorem initRules_none_iff : (initRules env cfg r).2 = none ↔
    (∀ pc ∈ cfg.ruleProviders, providerStarts env pc = true) ∧ env.rulesFail cfg = none := by
  rw [initRules, Result.andThen_none_iff, each_none_iff addProvider_ok_iff]
  simp

/-- **What the steps make of a part `f` of the engine**, from what each transport, provider and driver makes of it. -/
theorem body_fold (cfg : FullConfig) (r : Runtime) (f : Runtime → β) (gt : β → TransportConfig → β)
    (gp : β → RuleProviderConfig → β) (gd : β → DriverConfig → β) (hs : ∀ r, f (startScheduler env r).1 = f r)
    (ht : ∀ r tc r', addTransport env r tc = .ok r' → f r' = gt (f r) tc)
    (hp : ∀ r pc r', addProvider env r pc = .ok r' → f r' = gp (f r) pc)
    (hd : ∀ r dc r', startDriver env r dc = .ok r' → f r' = gd (f r) dc) : f (body env cfg r).1 =
      (addedDrivers env cfg).foldl gd ((addedProviders env cfg).foldl gp ((addedTransports env cfg).foldl gt (f r))) := by
  have htransports : f ((startScheduler env r).andThen (startTransports env cfg)).1 =
      (addedTransports env cfg).foldl gt (f r) := by
    rw [Result.andThen_fst, apply_ite f, startTransports, each_fold addTransport_ok_iff ht, hs, addedTransports]
    cases hfails : env.schedulerFails with
    | true | false => simp [startScheduler, hfails]
  have hrules : ∀ r, f (initRules env cfg r).1 = (cfg.ruleProviders.takeWhile (providerStarts env)).foldl gp (f r) := by
    intro r
    rw [initRules, Result.andThen_fst, ite_self, each_fold addProvider_ok_iff hp]
  set before := ((startScheduler env r).andThen (startTransports env cfg)).andThen (initRules env cfg) with hbefore
  have hbefore_fst : f before.1 =
      (addedProviders env cfg).foldl gp ((addedTransports env cfg).foldl gt (f r)) := by
    rw [hbefore, Result.andThen_fst, apply_ite f, hrules, htransports, addedProviders]
    simp only [transports_none_iff]
    split_ifs <;> rfl
  have hnone : before.2 = none ↔ RulesStart env cfg := by
    rw [Result.andThen_none_iff, transports_none_iff, initRules_none_iff, RulesStart]
  rw [body, ← hbefore, Result.andThen_fst, show ∀ r, (startDerivedTags env cfg r).1 = r from fun _ => rfl, ite_self,
    Result.andThen_fst, apply_ite f, startDrivers, each_fold startDriver_ok_iff hd, hbefore_fst, addedDrivers]
  simp only [hnone]
  split_ifs <;> rfl

/-! ### One step -/

theorem addProvider_cases {pc : RuleProviderConfig} (hadd : addProvider env r pc = .ok r') :
    r' = { r with providers := install r.providers pc.name (reloads env pc) } := by
  unfold addProvider at hadd
  split_ifs at hadd
  exact (Except.ok.inj hadd).symm

theorem addTransport_cases {tc : TransportConfig} (hadd : addTransport env r tc = .ok r') :
    ∃ transports batchers, r' = { r with transports := transports, batchers := batchers } ∧
      (transports, batchers) = transportStep env r.settings.offlineBuffer.isSome (r.transports, r.batchers) tc := by
  unfold addTransport at hadd
  cases hfails : env.transportFails tc with
  | some phase => rw [hfails] at hadd; cases hadd
  | none =>
    rw [hfails] at hadd
    exact ⟨_, _, (Except.ok.inj hadd).symm, rfl⟩

/-- The driver of the entry has a tags file that is watched. -/
def watchesTags (env : StartEnv) (dc : DriverConfig) : Bool := (driverEnv env (Settings.new env.settings)).watches dc

variable {dc : DriverConfig}

theorem startDriver_cases (hadd : startDriver env r dc = .ok r') :
    (∃ drivers, r' = { r with drivers := drivers }) ∧ r'.drivers.drivers = swap r.drivers.drivers dc.name ∧
      r'.drivers.watchers =
        if watchesTags env dc then install r.drivers.watchers dc.name true else r.drivers.watchers := by
  unfold startDriver addDriver at hadd
  cases hfails : env.driverFails dc with
  | some phase => rw [show (driverEnv env r.settings).fails dc = some phase from hfails] at hadd; cases hadd
  | none =>
    rw [show (driverEnv env r.settings).fails dc = none from hfails] at hadd
    obtain rfl := (Except.ok.inj hadd).symm
    exact ⟨⟨_, rfl⟩, rfl, rfl⟩

/-! ### The tables when a step fails -/

/-- A provider runs if it reloads its file. -/
def providerSlot (env : StartEnv) (pc : RuleProviderConfig) : String × Bool := (pc.name, reloads env pc)

/-- A watcher runs. -/
def watcherSlot (dc : DriverConfig) : String × Bool := (dc.name, true)

/-- A transport has a batcher if its entry or the offline buffer asks for one. -/
def batcherSlot (env : StartEnv) (buffered : Bool) (tc : TransportConfig) : String × Bool :=
  (tc.name, (Batcher.newTransportBatcher env.settings.parseDuration tc buffered).isSome)

theorem providers_body : (body env cfg r).1.providers =
    installAll r.providers ((addedProviders env cfg).map (providerSlot env)) := by
  rw [body_fold cfg r (fun r => r.providers) (fun t _ => t) (fun t pc => install t pc.name (reloads env pc)) fun t _ => t]
  · rw [List.foldl_fixed, List.foldl_fixed, installAll, List.foldl_map]
    rfl
  · exact fun _ => rfl
  · rintro r tc r' hadd
    obtain ⟨_, _, rfl, -⟩ := addTransport_cases hadd
    rfl
  · rintro r pc r' hadd
    rw [addProvider_cases hadd]
  · rintro r dc r' hadd
    obtain ⟨⟨_, rfl⟩, -⟩ := startDriver_cases hadd
    rfl

theorem watchers_body : (body env cfg r).1.drivers.watchers =
    installAll r.drivers.watchers (((addedDrivers env cfg).filter (watchesTags env)).map watcherSlot) := by
  rw [body_fold cfg r (fun r => r.drivers.watchers) (fun t _ => t) (fun t _ => t)
    fun t dc => if watchesTags env dc then install t dc.name true else t]
  · rw [List.foldl_fixed, List.foldl_fixed, installAll, List.foldl_map, List.foldl_filter]
    rfl
  · exact fun _ => rfl
  · rintro r tc r' hadd
    obtain ⟨_, _, rfl, -⟩ := addTransport_cases hadd
    rfl
  · rintro r pc r' hadd
    rw [addProvider_cases hadd]
  · exact fun r dc r' hadd => (startDriver_cases hadd).2.2

theorem drivers_body : (body env cfg r).1.drivers.drivers =
    swapAll r.drivers.drivers ((addedDrivers env cfg).map (·.name)) := by
  rw [body_fold cfg r (fun r => r.drivers.drivers) (fun t _ => t) (fun t _ => t) fun t dc => swap t dc.name]
  · rw [List.foldl_fixed, List.foldl_fixed, swapAll, List.foldl_map]
  · exact fun _ => rfl
  · rintro r tc r' hadd
    obtain ⟨_, _, rfl, -⟩ := addTransport_cases hadd
    rfl
  · rintro r pc r' hadd
    rw [addProvider_cases hadd]
  · exact fun r dc r' hadd => (startDriver_cases hadd).2.1

/-- The transports and the batchers, before it is known that a batcher has a transport of its name. -/
theorem transportTables_body (env : StartEnv) (cfg : FullConfig) (r : Runtime) :
    ((body env cfg r).1.transports, (body env cfg r).1.batchers) =
    (addedTransports env cfg).foldl (transportStep env r.settings.offlineBuffer.isSome) (r.transports, r.batchers) := by
  -- the settings stand beside the tables, since what a transport gets depends on them
  have hfold := body_fold cfg r (fun r => (r.settings.offlineBuffer.isSome, r.transports, r.batchers))
    (fun t tc => (t.1, transportStep env t.1 t.2 tc)) (fun t _ => t) (fun t _ => t) (fun _ => rfl)
    (fun r tc r' hadd => by
      obtain ⟨_, _, rfl, htables⟩ := addTransport_cases hadd
      exact congrArg _ htables)
    (fun r pc r' hadd => by rw [addProvider_cases hadd])
    (fun r dc r' hadd => by
      obtain ⟨⟨_, rfl⟩, -⟩ := startDriver_cases hadd
      rfl)
  have hpair : ∀ (b : Bool) (ts : List TransportConfig) (t : Table String × Table String),
      ts.foldl (fun t tc => (t.1, transportStep env t.1 t.2 tc)) (b, t) = (b, ts.foldl (transportStep env b) t) := by
    intro b ts
    induction ts with
    | nil => exact fun _ => rfl
    | cons tc ts ih => exact fun t => ih _
  rw [List.foldl_fixed, List.foldl_fixed, hpair] at hfold
  exact congrArg Prod.snd hfold

/-- A batcher in the map has a transport of its name. -/
def Paired (tables : Table String × Table String) : Prop := ∀ x ∈ tables.2.map, Registered tables.1 x.1

variable {tables : Table String × Table String} {buffered : Bool} {tc : TransportConfig}

theorem registered_swap {table : Table String} {name name' : String} :
    Registered (swap table name) name' ↔ name' = name ∨ Registered table name' := by
  unfold Registered swap install remove
  simp only [List.exists_mem_cons_iff, mem_erase]
  constructor
  · rintro (h | ⟨x, ⟨⟨hx, -⟩, -⟩, hname⟩)
    · exact .inl h.symm
    · exact .inr ⟨x, hx, hname⟩
  · rintro (h | ⟨x, hx, hname⟩)
    · exact .inl h.symm
    · by_cases hxn : x.1 = name
      · exact .inl (hxn.symm.trans hname)
      · exact .inr ⟨x, ⟨⟨hx, hxn⟩, hxn⟩, hname⟩

/-- A name without a transport has no batcher, so that it makes no difference when the batcher is stopped. -/
theorem transportStep_eq (h : Paired tables) : transportStep env buffered tables tc =
    (swap tables.1 tc.name, renew (env.lingers .batcher) tables.2 (batcherSlot env buffered tc)) := by
  unfold transportStep renew batcherSlot
  by_cases hreg : Registered tables.1 tc.name
  · simp only [if_pos hreg]
  · have hnone : remove (env.lingers .batcher) tables.2 tc.name = tables.2 :=
      remove_of_forall_ne fun x hx hname => hreg (hname ▸ h x hx)
    simp only [if_neg hreg, hnone]

theorem paired_transportStep (h : Paired tables) : Paired (transportStep env buffered tables tc) := by
  rw [transportStep_eq h]
  intro x hx
  rcases mem_renew_map.mp hx with ⟨-, rfl⟩ | ⟨hx, -⟩
  · exact registered_swap.mpr (.inl rfl)
  · exact registered_swap.mpr (.inr (h x hx))

theorem transportSteps_eq : ∀ {ts : List TransportConfig} {tables : Table String × Table String}, Paired tables →
    ts.foldl (transportStep env buffered) tables = (swapAll tables.1 (ts.map (·.name)),
      renewAll (env.lingers .batcher) tables.2 (ts.map (batcherSlot env buffered)))
  | [], _, _ => rfl
  | tc :: ts, tables, h => by
    rw [List.foldl_cons, transportSteps_eq (paired_transportStep h), transportStep_eq h]
    rfl

/-! ### A start that fails -/

/-- The engine is stopped, and nothing that was started since `r₀` is running or registered. -/
structure StoppedSince (r₀ r : Runtime) : Prop where
  status : r.status = .stopped
  cancelled : r.cancelled = true
  drivers : ∀ x ∈ r.drivers.drivers.live, x.2 < r₀.drivers.drivers.next
  transports : ∀ x ∈ r.transports.live, x.2 < r₀.transports.next
  batchers : ∀ x ∈ r.batchers.live, x.2 < r₀.batchers.next
  tasks : r.drivers.tasks = ∅
  providers : ∀ x ∈ r.providers.live, x.2 < r₀.providers.next
  watchers : ∀ x ∈ r.drivers.watchers.live, x.2 < r₀.drivers.watchers.next
  noDriver : r.drivers.drivers.map = []
  noTransport : r.transports.map = []

variable {table : Table String}

theorem covered_new_iff {news : List (String × Bool)} :
    Covered table.next (installAll table news) ↔ news.Pairwise fun a b => a.2 = true → a.1 ≠ b.1 := by
  rw [covered_installAll_iff le_rfl]
  refine and_iff_right fun x hx hbase => ?_
  exact absurd (table.live_lt x hx) (Nat.not_lt.mpr hbase)

end

/-- No `Stop` outlives the timeout: of no driver and of no transport that stands last under its name among those
added, and of no batcher. The instances are numbered from those of `r` on. -/
structure StopsInTime (env : StartEnv) (cfg : FullConfig) (buffered : Bool) (r : Runtime) : Prop where
  drivers : ∀ x ∈ lasts r.drivers.drivers.next ((addedDrivers env cfg).map (·.name)), env.lingers .driver x = false
  transports : ∀ x ∈ lasts r.transports.next ((addedTransports env cfg).map (·.name)), env.lingers .transport x = false
  batchers : ∀ x ∈ renewed r.batchers.next ((addedTransports env cfg).map (batcherSlot env buffered)),
    env.lingers .batcher x = false

/-- **A start that fails leaves a stopped engine exactly if** the settings could be applied, no provider that reloads
its file is followed by one of its name, no two drivers of one name have a watcher, among those that were added, and
the components stop in time. -/
theorem failed_start_iff (env : StartEnv) (cfg : FullConfig) (r : Runtime) (err : StartFailure)
    (hfailed : (start env cfg r).2 = some err) :
    StoppedSince r (start env cfg r).1 ↔ (applyEngineConfig env.settings cfg.global.engine r.settings).2 = none ∧
      (addedProviders env (Executor.Startup.autoFillNodeConfig cfg)).Pairwise
        (fun p q => reloads env p = true → p.name ≠ q.name) ∧
      ((addedDrivers env (Executor.Startup.autoFillNodeConfig cfg)).filter (watchesTags env)).Pairwise
        (fun d e => d.name ≠ e.name) ∧
      StopsInTime env (Executor.Startup.autoFillNodeConfig cfg)
        (Settings.start env.settings cfg.global r.settings).1.offlineBuffer.isSome r := by
  unfold start at hfailed ⊢
  rw [Settings.start]
  cases happly : applyEngineConfig env.settings cfg.global.engine r.settings with
  | mk settings err' =>
    cases err' with
    | some err' =>
      -- the rollback is not registered: the status stays running
      exact ⟨fun h => absurd h.status nofun, fun h => absurd h.1 nofun⟩
    | none =>
      rw [happly] at hfailed
      rw [Outcome.andThen_ok]
      simp only at hfailed ⊢
      set cfg' := Executor.Startup.autoFillNodeConfig cfg
      set r₁ : Runtime := { reset r with settings := _ } with hr₁
      have hproviders : (body env cfg' r₁).1.providers = installAll r.providers _ := providers_body
      have hwatchers : (body env cfg' r₁).1.drivers.watchers = installAll r.drivers.watchers _ := watchers_body
      have hdrivers : (body env cfg' r₁).1.drivers.drivers = swapAll (clear r.drivers.drivers) _ := drivers_body
      have htables := (transportTables_body env cfg' r₁).trans (transportSteps_eq nofun)
      obtain ⟨htransports, hbatchers⟩ := Prod.mk.inj htables
      cases hbody : body env cfg' r₁ with
      | mk r₂ err₂ =>
        rw [hbody] at hproviders hwatchers hdrivers htransports hbatchers hfailed
        cases err₂ with
        | none => exact absurd hfailed nofun
        | some err₂ =>
          have hproviders' : (∀ x ∈ (stopAll _ r₂.providers).live, x.2 < r.providers.next) ↔ _ :=
            stopAll_waiting_live_iff.trans (hproviders ▸ covered_new_iff)
          have hwatchers' : (∀ x ∈ (stopAll _ r₂.drivers.watchers).live, x.2 < r.drivers.watchers.next) ↔ _ :=
            stopAll_waiting_live_iff.trans (hwatchers ▸ covered_new_iff)
          rw [List.pairwise_map] at hproviders' hwatchers'
          simp only [providerSlot, watcherSlot, true_imp_iff] at hproviders' hwatchers'
          have hdrivers' := hdrivers ▸ stopAll_swapAll_iff (env.lingers .driver) r.drivers.drivers _
          have htransports' := htransports ▸ stopAll_swapAll_iff (env.lingers .transport) r.transports _
          have hbatchers' := hbatchers ▸ stopAll_renewAll_iff (env.lingers .batcher) r.batchers _
          rw [← hproviders', ← hwatchers']
          constructor
          · exact fun h => ⟨trivial, h.providers, h.watchers, hdrivers'.mp h.drivers, htransports'.mp h.transports,
              hbatchers'.mp h.batchers⟩
          · rintro ⟨-, hp, hw, hstops⟩
            exact
              { status := rfl
                cancelled := rfl
                drivers := hdrivers'.mpr hstops.drivers
                transports := htransports'.mpr hstops.transports
                batchers := hbatchers'.mpr hstops.batchers
                tasks := rfl
                providers := hp
                watchers := hw
                noDriver := rfl
                noTransport := rfl }

/-! ### Two starts -/

/-- Stores and drivers do not start, everything else does. -/
def brokenEnv : StartEnv where
  settings := { numCPU := 4, parseDuration := fun _ => none, opens := fun _ => false, bufferOpens := fun _ => true }
  schedulerFails := false
  transportFails _ := none
  providerLoads _ := true
  rulesFail _ := none
  driverFails _ := some .start
  limiter _ := none
  order _ := []
  tagsFileLoads _ := true
  derivedFails _ := false
  lingers _ _ := false

def newRuntime : Runtime := { settings := Settings.new brokenEnv.settings }

def plantConfig : FullConfig where
  transports := [{ name := "mqtt", type := "mqtt" }]
  drivers := [{ name := "plc", type := "s7" }]

/-- A driver that does not start: the transport before it is stopped again. -/
theorem failed_start_iff_driver : (start brokenEnv plantConfig newRuntime).2 = some (.driver .start "plc") ∧
    StoppedSince newRuntime (start brokenEnv plantConfig newRuntime).1 := by
  have hfailed : (start brokenEnv plantConfig newRuntime).2 = some (.driver .start "plc") := by decide +kernel
  refine ⟨hfailed, (failed_start_iff brokenEnv plantConfig newRuntime _ hfailed).mpr ⟨rfl, ?_, ?_, ?_⟩⟩
  · exact List.Pairwise.nil
  · exact List.Pairwise.nil
  · exact ⟨fun _ _ => rfl, fun _ _ => rfl, fun _ _ => rfl⟩

def letterConfig : FullConfig where
  global := { engine := { deadLetterPath := "/data/dead" } }

/-- **A dead-letter store that cannot be opened leaves the engine running**, with a live context. -/
theorem failed_settings_keep_running :
    (start brokenEnv letterConfig newRuntime).2 = some (.settings (.deadLetterStore "/data/dead")) ∧
      (start brokenEnv letterConfig newRuntime).1.status = .running ∧
      (start brokenEnv letterConfig newRuntime).1.cancelled = false := by
  decide +kernel

end CoreC.Engine.Rollback
