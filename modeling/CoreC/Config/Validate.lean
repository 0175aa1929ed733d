import CoreC.Core.Types

/-! # Validating a driver configuration

`validateDriver` with its checks in the order of the source; each error is a constructor with the values
its message prints. `time.ParseDuration` is a parameter (`parseDuration`, in nanoseconds).

`validateDriver_accepted` collects what an accepted configuration guarantees to the scheduler: tag
names are non-empty and distinct, no tag is both a condition and gated, and a gated tag names a
condition of the same driver. -/

namespace CoreC.Config.Validate

open Core.Types List

/-- The errors of `validateDriver` and `validateTag`. -/
inductive DriverError where
  | nameEmpty
  | duplicateName (driver : String)
  | typeEmpty (driver : String)
  | unknownType (driver type : String) (registered : List String)
  | noTags (driver : String)
  | tagNameEmpty (driver : String)
  | duplicateTag (driver tag : String)
  | addressEmpty (driver tag : String)
  | tagTypeEmpty (driver tag : String)
  | invalidType (driver tag type : String)
  | invalidDuration (driver tag field value : String)
  | notPositive (driver tag field : String) (value : ℤ)
  | conditionAndGated (driver tag : String)
  | invalidTriggerGroup (driver tag group : String)
  | invalidProtect (driver tag protect : String)
  | enforceWithoutDeadband (driver tag : String)
  | enforceBelowInterval (driver tag : String) (enforce interval : ℤ)
  | notACondition (driver tag triggers : String)
  deriving DecidableEq, Repr

/-- Fail with `e` unless `b`. -/
def check {ε : Type} (b : Bool) (e : ε) : Except ε Unit := if b then .ok () else .error e

section

variable (parseDuration : String → Option ℤ)

def validatePositiveDuration (driver tag field value : String) : Except DriverError Unit :=
  if value = "" then .ok ()
  else
    match parseDuration value with
    | none => .error (.invalidDuration driver tag field value)
    | some d => check (0 < d) (.notPositive driver tag field d)

/-- The checks of `enforce-interval`, which needs a deadband and must not be below the interval. -/
def validateEnforceInterval (driver : String) (tag : TagConfig) : Except DriverError Unit :=
  if tag.enforceInterval = "" then .ok ()
  else do
    check (!tag.deadBand.isNonPos) (.enforceWithoutDeadband driver tag.name)
    match parseDuration tag.enforceInterval with
    | none => .error (.invalidDuration driver tag.name "enforce-interval" tag.enforceInterval)
    | some enforce =>
      check (0 < enforce) (.notPositive driver tag.name "enforce-interval" enforce)
      if tag.interval = "" then .ok ()
      else
        match parseDuration tag.interval with
        | none => .ok ()
        | some interval =>
          check (interval ≤ enforce) (.enforceBelowInterval driver tag.name enforce interval)

/-- `validateTag`; `tagNames` are the names seen before. -/
def validateTag (driver : String) (tagNames : List String) (tag : TagConfig) :
    Except DriverError Unit := do
  check (tag.name ≠ "") (.tagNameEmpty driver)
  check (tag.name ∉ tagNames) (.duplicateTag driver tag.name)
  check (tag.address ≠ "") (.addressEmpty driver tag.name)
  check (tag.type ≠ "") (.tagTypeEmpty driver tag.name)
  check (parseDataType tag.type).isSome (.invalidType driver tag.name tag.type)
  validatePositiveDuration parseDuration driver tag.name "interval" tag.interval
  validatePositiveDuration parseDuration driver tag.name "read-timeout" tag.readTimeout
  check (tag.triggerGroup = "" ∨ tag.triggers = "") (.conditionAndGated driver tag.name)
  check (tag.triggerGroup.toList.all fun c => c ∉ [' ', ',', ';'])
    (.invalidTriggerGroup driver tag.name tag.triggerGroup)
  check (tag.protect ∈ ["", "read-write", "read-only", "write-only"]) (.invalidProtect driver tag.name tag.protect)
  validateEnforceInterval parseDuration driver tag

def validateTags (driver : String) : List String → List TagConfig → Except DriverError (List String)
  | tagNames, [] => .ok tagNames
  | tagNames, tag :: tags => do
    validateTag parseDuration driver tagNames tag
    validateTags driver (tag.name :: tagNames) tags

def validateTriggers (driver : String) (tagNames conditions : List String) :
    List TagConfig → Except DriverError Unit
  | [] => .ok ()
  | tag :: tags => do
    check (tag.triggers = "" ∨ tag.name ∉ tagNames ∨ tag.triggers ∈ conditions)
      (.notACondition driver tag.name tag.triggers)
    validateTriggers driver tagNames conditions tags

/-- `validateDriver`; the result is the set of driver names with this one. -/
def validateDriver (driverNames registeredDrivers : List String) (d : DriverConfig) :
    Except DriverError (List String) := do
  check (d.name ≠ "") .nameEmpty
  check (d.name ∉ driverNames) (.duplicateName d.name)
  check (d.type ≠ "") (.typeEmpty d.name)
  check (registeredDrivers = [] ∨ d.type ∈ registeredDrivers) (.unknownType d.name d.type registeredDrivers)
  check (d.tags ≠ []) (.noTags d.name)
  let tagNames ← validateTags parseDuration d.name [] d.tags
  let conditions := (d.tags.filter fun t => t.triggerGroup ≠ "").map TagConfig.name
  validateTriggers d.name tagNames conditions d.tags
  return d.name :: driverNames

end

/-! ### What is accepted -/

@[simp] theorem check_bind_ok {ε β : Type} {b : Bool} {e : ε} {f : Unit → Except ε β} {r : β} :
    (check b e >>= f) = .ok r ↔ b = true ∧ f () = .ok r := by
  cases b <;> simp [check, bind, Except.bind]

theorem bind_ok {ε α β : Type} {x : Except ε α} {f : α → Except ε β} {r : β} :
    (x >>= f) = .ok r ↔ ∃ a, x = .ok a ∧ f a = .ok r := by
  cases x <;> simp [bind, Except.bind]

structure TagsAccepted (tags : List TagConfig) : Prop where
  nodup : (tags.map TagConfig.name).Nodup
  nonempty : ∀ t ∈ tags, t.name ≠ ""
  exclusive : ∀ t ∈ tags, t.triggerGroup = "" ∨ t.triggers = ""
  resolved : ∀ t ∈ tags, t.triggers ≠ "" → ∃ k ∈ tags, k.name = t.triggers ∧ k.triggerGroup ≠ ""

variable {parseDuration : String → Option ℤ} {driver : String}

theorem validateTag_ok {names : List String} {tag : TagConfig}
    (h : validateTag parseDuration driver names tag = .ok ()) :
    tag.name ≠ "" ∧ tag.name ∉ names ∧ (tag.triggerGroup = "" ∨ tag.triggers = "") := by
  unfold validateTag at h
  simp only [check_bind_ok, decide_eq_true_eq] at h
  obtain ⟨h1, h2, -, -, -, h⟩ := h
  -- past the two durations
  obtain ⟨-, -, h⟩ := bind_ok.mp h
  obtain ⟨-, -, h⟩ := bind_ok.mp h
  simp only [check_bind_ok, decide_eq_true_eq] at h
  exact ⟨h1, h2, h.1⟩

theorem validateTags_ok : ∀ {tags : List TagConfig} {names r : List String},
    validateTags parseDuration driver names tags = .ok r →
      (tags.map TagConfig.name).Nodup ∧ (∀ t ∈ tags, t.name ∉ names) ∧ (∀ t ∈ tags, t.name ∈ r) ∧
      (∀ n ∈ names, n ∈ r) ∧
      ∀ t ∈ tags, t.name ≠ "" ∧ (t.triggerGroup = "" ∨ t.triggers = "")
  | [], names, r, h => by
    cases h
    simp
  | tag :: tags, names, r, h => by
    unfold validateTags at h
    obtain ⟨⟨⟩, h1, h2⟩ := bind_ok.mp h
    obtain ⟨hne, hnew, hex⟩ := validateTag_ok h1
    obtain ⟨hnd, hdis, hin, hsub, hall⟩ := validateTags_ok h2
    refine ⟨?_, ?_, ?_, ?_, ?_⟩
    · rw [map_cons, nodup_cons]
      refine ⟨fun hmem => ?_, hnd⟩
      obtain ⟨t, ht, heq⟩ := mem_map.mp hmem
      exact hdis t ht (by simp [heq])
    · intro t ht
      rcases mem_cons.mp ht with rfl | ht
      · exact hnew
      · exact fun hmem => hdis t ht (mem_cons_of_mem _ hmem)
    · intro t ht
      rcases mem_cons.mp ht with rfl | ht
      · exact hsub _ (by simp)
      · exact hin t ht
    · exact fun n hn => hsub n (mem_cons_of_mem _ hn)
    · intro t ht
      rcases mem_cons.mp ht with rfl | ht
      · exact ⟨hne, hex⟩
      · exact hall t ht

theorem validateTriggers_ok {names conditions : List String} :
    ∀ {tags : List TagConfig}, validateTriggers driver names conditions tags = .ok () →
      ∀ t ∈ tags, t.triggers = "" ∨ t.name ∉ names ∨ t.triggers ∈ conditions
  | [], _ => by simp
  | tag :: tags, h => by
    unfold validateTriggers at h
    simp only [check_bind_ok, decide_eq_true_eq] at h
    intro t ht
    rcases mem_cons.mp ht with rfl | ht
    · exact h.1
    · exact validateTriggers_ok h.2 t ht

theorem validateDriver_accepted {driverNames registered r : List String} {d : DriverConfig}
    (h : validateDriver parseDuration driverNames registered d = .ok r) : TagsAccepted d.tags := by
  unfold validateDriver at h
  simp only [check_bind_ok] at h
  obtain ⟨-, -, -, -, -, h⟩ := h
  obtain ⟨names, htags, h⟩ := bind_ok.mp h
  obtain ⟨⟨⟩, htrig, -⟩ := bind_ok.mp h
  obtain ⟨hnd, -, hin, -, hall⟩ := validateTags_ok htags
  refine ⟨hnd, fun t ht => (hall t ht).1, fun t ht => (hall t ht).2, fun t ht hne => ?_⟩
  rcases validateTriggers_ok htrig t ht with h | h | h
  · exact absurd h hne
  · exact absurd (hin t ht) h
  · obtain ⟨k, hk, hname⟩ := mem_map.mp h
    rw [mem_filter] at hk
    exact ⟨k, hk.1, hname, by simpa using hk.2⟩

end CoreC.Config.Validate
