import CoreC.Core.Types
import CoreC.Lib.Runs

/-! # The latest-value cache

`LatestCache` (`engine/cache.go`) keeps a map of tags for every driver. `Update`, `DeleteTag`, `DeleteDriver` and
`GetByDriver` look the object of the driver up under the lock of its shard and then work on it, under its mutex or by
its atomic fields: a flag that the map has changed, and a copy of the map for `GetByDriver`.

A step is one section under a lock, or one atomic load or store; a section that contains atomic stores is several steps
with the mutex held. A call starts with its first step and returns with its last one. -/

namespace CoreC.Engine.Cache

open Core.Types Function

/-- The points of a driver by tag. -/
abbrev Values := String → Option DataPoint

inductive Call where
  | update (point : DataPoint)
  | deleteTag (driver tag : String)
  | deleteDriver (driver : String)
  | getByDriver (driver : String)

def Call.driver : Call → String
  | .update point => point.driver
  | .deleteTag driver _ | .deleteDriver driver | .getByDriver driver => driver

/-! ### One call after another -/

def Call.apply : Call → (String → Values) → String → Values
  | .update point, m => Function.update m point.driver (Function.update (m point.driver) point.tag (some point))
  | .deleteTag driver tag, m => Function.update m driver (Function.update (m driver) tag none)
  | .deleteDriver driver, m => Function.update m driver fun _ => none
  | .getByDriver _, m => m

/-- The values after the calls, one after the other. -/
def replay (order : List Call) : String → Values := order.foldl (fun m c => c.apply m) fun _ _ => none

/-! ### The cache -/

def numCacheShards : ℕ := 64

/-- `cacheShardIdx`: the FNV-1a hash of the name. -/
def cacheShardIdx (driver : String) : ℕ :=
  driver.toUTF8.toList.foldl (fun h b => (h ^^^ b.toNat) * 16777619 % 2 ^ 32) 2166136261 % numCacheShards

/-- `driverCache`; `mu` is the call that holds the mutex beyond a step. -/
structure DriverCache (ι : Type) where
  values : Values := fun _ => none
  snapshot : Option Values := none
  dirty : Bool := false
  mu : Option ι := none

/-- `LatestCache`: the objects of the drivers, the calls that hold the lock of a shard beyond a step, and all objects
that were ever made. -/
structure LatestCache (ι : Type) where
  drivers : String → Option ℕ := fun _ => none
  shardMu : ℕ → Option ι := fun _ => none
  caches : ℕ → DriverCache ι := fun _ => {}
  allocated : ℕ := 0

/-- Where a call is. -/
inductive Phase where
  | idle
  -- `Update` has not found the driver
  | creating
  -- `Update` and `DeleteTag` have the object, and have changed its map
  | writing (dc : ℕ)
  | written (dc : ℕ)
  -- `GetByDriver` has the object, has found the flag down, waits for the mutex, holds it with the copy, has stored the
  -- copy, and has taken the flag down
  | reading (dc : ℕ)
  | clean (dc : ℕ)
  | waiting (dc : ℕ)
  | locked (dc : ℕ) (snap : Values)
  | stored (dc : ℕ) (snap : Values)
  | cleared (dc : ℕ) (snap : Values)
  -- `DeleteDriver` has taken the object out, holds its mutex, has dropped the copy, and has taken the flag down
  | detached (dc : ℕ)
  | held (dc : ℕ)
  | emptied (dc : ℕ)
  | cleaned (dc : ℕ)
  -- the call has returned, `GetByDriver` with this map
  | done (result : Values)

section

variable {ι : Type} [DecidableEq ι]

variable (m : LatestCache ι)

def LatestCache.shardSection {α : Type} (driver : String) (body : Option ℕ → α) : Option α :=
  if m.shardMu (cacheShardIdx driver) = none then some (body (m.drivers driver)) else none

def LatestCache.cacheSection {α : Type} (dc : ℕ) (body : DriverCache ι → α) : Option α :=
  if (m.caches dc).mu = none then some (body (m.caches dc)) else none

def LatestCache.set (dc : ℕ) (o : DriverCache ι) : LatestCache ι :=
  { m with caches := update m.caches dc o }

/-- What `Update` and `DeleteTag` do to the map of the object. -/
def Call.write : Call → Values → Values
  | .update point, v => Function.update v point.tag (some point)
  | .deleteTag _ tag, v => Function.update v tag none
  | _, v => v

def LatestCache.alloc (driver : String) : LatestCache ι :=
  { m with
    drivers := update m.drivers driver (some m.allocated)
    caches := update m.caches m.allocated {}
    allocated := m.allocated + 1 }

def LatestCache.detach (driver : String) (i : ι) : LatestCache ι :=
  { m with
    drivers := update m.drivers driver none
    shardMu := update m.shardMu (cacheShardIdx driver) (some i) }

def begin_ (i : ι) (m : LatestCache ι) : Call → Option (LatestCache ι × Phase)
  | .update point => m.shardSection point.driver fun found =>
    match found with
    | some dc => (m, .writing dc)
    | none => (m, .creating)
  | .deleteTag driver _ => m.shardSection driver fun found =>
    match found with
    | some dc => (m, .writing dc)
    | none => (m, .done fun _ => none)
  | .getByDriver driver => m.shardSection driver fun found =>
    match found with
    | some dc => (m, .reading dc)
    | none => (m, .done fun _ => none)
  | .deleteDriver driver => m.shardSection driver fun found =>
    match found with
    | some dc => (m.detach driver i, .detached dc)
    | none => (m, .done fun _ => none)

def act (i : ι) (c : Call) (m : LatestCache ι) : Phase → Option (LatestCache ι × Phase)
  | .idle => begin_ i m c
  | .creating => m.shardSection c.driver fun found =>
    match found with
    | some dc => (m, .writing dc)
    | none => (m.alloc c.driver, .writing m.allocated)
  | .writing dc => m.cacheSection dc fun o => (m.set dc { o with values := c.write o.values }, .written dc)
  | .written dc => some (m.set dc { m.caches dc with dirty := true }, .done fun _ => none)
  | .reading dc => some (m, if (m.caches dc).dirty then .waiting dc else .clean dc)
  | .clean dc =>
    match (m.caches dc).snapshot with
    | some snap => some (m, .done snap)
    | none => some (m, .waiting dc)
  | .waiting dc => m.cacheSection dc fun o => (m.set dc { o with mu := some i }, .locked dc o.values)
  | .locked dc snap => some (m.set dc { m.caches dc with snapshot := some snap }, .stored dc snap)
  | .stored dc snap => some (m.set dc { m.caches dc with dirty := false }, .cleared dc snap)
  | .cleared dc snap => some (m.set dc { m.caches dc with mu := none }, .done snap)
  | .detached dc => m.cacheSection dc fun o => (m.set dc { o with mu := some i }, .held dc)
  | .held dc => some (m.set dc { m.caches dc with snapshot := none }, .emptied dc)
  | .emptied dc => some (m.set dc { m.caches dc with dirty := false }, .cleaned dc)
  | .cleaned dc =>
    some ({ m.set dc { m.caches dc with mu := none } with
      shardMu := update m.shardMu (cacheShardIdx c.driver) none }, .done fun _ => none)
  | .done _ => none

/-! ### Runs -/

/-- The cache, where the calls are, the number of steps so far, and the steps with which the calls have started and
returned. -/
structure State (ι : Type) where
  cache : LatestCache ι := {}
  phase : ι → Phase := fun _ => .idle
  now : ℕ := 0
  started : ι → Option ℕ := fun _ => none
  returned : ι → Option ℕ := fun _ => none

def Phase.begun : Phase → Bool
  | .idle => false
  | _ => true

def Phase.over : Phase → Bool
  | .done _ => true
  | _ => false

variable (calls : ι → Call)

/-- The next step of a call. -/
def step (s : State ι) (i : ι) : Option (State ι) :=
  (act i (calls i) s.cache (s.phase i)).map fun (cache, phase) =>
    { cache
      phase := update s.phase i phase
      now := s.now + 1
      started := if (s.phase i).begun then s.started else update s.started i (some s.now)
      returned := if phase.over then update s.returned i (some s.now) else s.returned }

/-- `a` has returned before `b` starts. -/
def Precedes (s : State ι) (a b : ι) : Prop :=
  ∃ r t, s.returned a = some r ∧ s.started b = some t ∧ r < t

end

end CoreC.Engine.Cache
