import CoreC.Engine.Cache

/-! # What the calls on the cache have seen

The history of an object is the list of the writes that can be seen in it: with the flag up, or without a copy, those of
its map, and with the flag down those of its copy. A write made with the flag down is seen when the flag goes up, or the
copy is renewed or dropped. A `GetByDriver` that found the flag down returns the copy it loads, which could be seen then
or at some time since.

* `act_cases`: what a step does;
* `CacheOk`, `CallOk`, `callOk_frame`: what holds of an object and of a call, and that a step keeps it for the others. -/

namespace CoreC.Engine.Cache

open Function List

variable {ι : Type} {m : LatestCache ι}

/-- `Update` or `DeleteTag`. -/
def Call.isWrite : Call → Bool
  | .update _ | .deleteTag _ _ => true
  | _ => false

/-- `GetByDriver`. -/
def Call.isGet : Call → Bool
  | .getByDriver _ => true
  | _ => false

/-- `Update`. -/
def Call.isUpdate : Call → Bool
  | .update _ => true
  | _ => false

/-! ### What a step does -/

inductive Act (i : ι) (c : Call) (m : LatestCache ι) : Phase → LatestCache ι → Phase → Prop
  | lookWrite {dc : ℕ} (hc : c.isWrite = true) (hfound : m.drivers c.driver = some dc) : Act i c m .idle m (.writing dc)
  | lookRead {dc : ℕ} (hc : c.isGet = true) (hfound : m.drivers c.driver = some dc) : Act i c m .idle m (.reading dc)
  | miss (hc : c.isUpdate = true) (hnone : m.drivers c.driver = none) : Act i c m .idle m .creating
  | absent (hc : c.isUpdate = false) (hnone : m.drivers c.driver = none) : Act i c m .idle m (.done fun _ => none)
  | detach {dc : ℕ} (hc : c = .deleteDriver c.driver) (hfound : m.drivers c.driver = some dc) :
    Act i c m .idle (m.detach c.driver i) (.detached dc)
  | lookAgain {dc : ℕ} (hfound : m.drivers c.driver = some dc) : Act i c m .creating m (.writing dc)
  | alloc (hnone : m.drivers c.driver = none) : Act i c m .creating (m.alloc c.driver) (.writing m.allocated)
  | write {dc : ℕ} (hmu : (m.caches dc).mu = none) :
    Act i c m (.writing dc) (m.set dc { m.caches dc with values := c.write (m.caches dc).values }) (.written dc)
  | mark {dc : ℕ} : Act i c m (.written dc) (m.set dc { m.caches dc with dirty := true }) (.done fun _ => none)
  | up {dc : ℕ} (hdirty : (m.caches dc).dirty = true) : Act i c m (.reading dc) m (.waiting dc)
  | down {dc : ℕ} (hdirty : (m.caches dc).dirty = false) : Act i c m (.reading dc) m (.clean dc)
  | hit {dc : ℕ} {snap : Values} (hsnap : (m.caches dc).snapshot = some snap) : Act i c m (.clean dc) m (.done snap)
  | gone {dc : ℕ} (hsnap : (m.caches dc).snapshot = none) : Act i c m (.clean dc) m (.waiting dc)
  | lock {dc : ℕ} (hmu : (m.caches dc).mu = none) :
    Act i c m (.waiting dc) (m.set dc { m.caches dc with mu := some i }) (.locked dc (m.caches dc).values)
  | store {dc : ℕ} {snap : Values} :
    Act i c m (.locked dc snap) (m.set dc { m.caches dc with snapshot := some snap }) (.stored dc snap)
  | clear {dc : ℕ} {snap : Values} :
    Act i c m (.stored dc snap) (m.set dc { m.caches dc with dirty := false }) (.cleared dc snap)
  | unlock {dc : ℕ} {snap : Values} :
    Act i c m (.cleared dc snap) (m.set dc { m.caches dc with mu := none }) (.done snap)
  | lockDetached {dc : ℕ} (hmu : (m.caches dc).mu = none) :
    Act i c m (.detached dc) (m.set dc { m.caches dc with mu := some i }) (.held dc)
  | drop {dc : ℕ} : Act i c m (.held dc) (m.set dc { m.caches dc with snapshot := none }) (.emptied dc)
  | settle {dc : ℕ} : Act i c m (.emptied dc) (m.set dc { m.caches dc with dirty := false }) (.cleaned dc)
  | release {dc : ℕ} : Act i c m (.cleaned dc)
    { m.set dc { m.caches dc with mu := none } with
      shardMu := update m.shardMu (cacheShardIdx c.driver) none } (.done fun _ => none)

theorem shardSection_cases {α : Type} {driver : String} {body : Option ℕ → α} {a : α}
    (h : m.shardSection driver body = some a) :
    (m.drivers driver = none ∧ body none = a) ∨ ∃ dc, m.drivers driver = some dc ∧ body (some dc) = a := by
  unfold LatestCache.shardSection at h
  split at h
  · cases hfound : m.drivers driver <;> simpa [hfound] using h
  · cases h

theorem cacheSection_eq_some {α : Type} {dc : ℕ} {body : DriverCache ι → α} {a : α}
    (h : m.cacheSection dc body = some a) : (m.caches dc).mu = none ∧ body (m.caches dc) = a := by
  unfold LatestCache.cacheSection at h
  split at h
  · next hmu => exact ⟨hmu, Option.some.inj h⟩
  · cases h

theorem begin_cases {i : ι} {c : Call} {m' : LatestCache ι} {ph : Phase} (h : begin_ i m c = some (m', ph)) :
    Act i c m .idle m' ph := by
  cases c with
  | update point =>
    rw [begin_] at h
    rcases shardSection_cases h with ⟨hfound, ⟨⟩⟩ | ⟨dc, hfound, ⟨⟩⟩
    · exact .miss rfl hfound
    · exact .lookWrite rfl hfound
  | deleteTag driver tag =>
    rw [begin_] at h
    rcases shardSection_cases h with ⟨hfound, ⟨⟩⟩ | ⟨dc, hfound, ⟨⟩⟩
    · exact .absent rfl hfound
    · exact .lookWrite rfl hfound
  | deleteDriver driver =>
    rw [begin_] at h
    rcases shardSection_cases h with ⟨hfound, ⟨⟩⟩ | ⟨dc, hfound, ⟨⟩⟩
    · exact .absent rfl hfound
    · exact .detach rfl hfound
  | getByDriver driver =>
    rw [begin_] at h
    rcases shardSection_cases h with ⟨hfound, ⟨⟩⟩ | ⟨dc, hfound, ⟨⟩⟩
    · exact .absent rfl hfound
    · exact .lookRead rfl hfound

theorem act_cases {i : ι} {c : Call} {m' : LatestCache ι} {ph ph' : Phase} (h : act i c m ph = some (m', ph')) :
    Act i c m ph m' ph' := by
  cases ph with
  | idle => exact begin_cases h
  | creating =>
    rw [act] at h
    rcases shardSection_cases h with ⟨hfound, ⟨⟩⟩ | ⟨dc, hfound, ⟨⟩⟩
    · exact .alloc hfound
    · exact .lookAgain hfound
  | writing dc =>
    rw [act] at h
    obtain ⟨hmu, ⟨⟩⟩ := cacheSection_eq_some h
    exact .write hmu
  | reading dc =>
    unfold act at h
    cases hdirty : (m.caches dc).dirty <;> simp only [hdirty] at h <;> cases h
    · exact .down hdirty
    · exact .up hdirty
  | clean dc =>
    unfold act at h
    cases hsnap : (m.caches dc).snapshot <;> simp only [hsnap] at h <;> cases h
    · exact .gone hsnap
    · exact .hit hsnap
  | waiting dc =>
    rw [act] at h
    obtain ⟨hmu, ⟨⟩⟩ := cacheSection_eq_some h
    exact .lock hmu
  | detached dc =>
    rw [act] at h
    obtain ⟨hmu, ⟨⟩⟩ := cacheSection_eq_some h
    exact .lockDetached hmu
  | written dc =>
    cases h
    exact .mark
  | locked dc snap =>
    cases h
    exact .store
  | stored dc snap =>
    cases h
    exact .clear
  | cleared dc snap =>
    cases h
    exact .unlock
  | held dc =>
    cases h
    exact .drop
  | emptied dc =>
    cases h
    exact .settle
  | cleaned dc =>
    cases h
    exact .release
  | done result => cases h

/-! ### Histories -/

/-- What has happened to the objects: the driver and the step of its making, the call and the step that took it out,
the writes that can be seen with the step since when, and those that cannot be seen yet. -/
structure History (ι : Type) where
  owner : ℕ → String := fun _ => ""
  created : ℕ → ℕ := fun _ => 0
  closed : ℕ → Option (ι × ℕ) := fun _ => none
  writes : ℕ → List (ι × ℕ) := fun _ => []
  pend : ℕ → List ι := fun _ => []

namespace History

variable (g : History ι)

def all (dc : ℕ) : List ι := (g.writes dc).map Prod.fst ++ g.pend dc

def alloc (dc : ℕ) (driver : String) (now : ℕ) : History ι :=
  { g with owner := update g.owner dc driver, created := update g.created dc now }

def close (dc : ℕ) (i : ι) (now : ℕ) : History ι :=
  { g with closed := update g.closed dc (some (i, now)) }

def enter (dc : ℕ) (i : ι) : History ι :=
  { g with pend := update g.pend dc (g.pend dc ++ [i]) }

def flush (dc : ℕ) (now : ℕ) : History ι :=
  { g with
    writes := update g.writes dc (g.writes dc ++ (g.pend dc).map fun c => (c, now))
    pend := update g.pend dc [] }

theorem mem_all_enter {g : History ι} {dc dc' : ℕ} {i c : ι} (h : c ∈ (g.enter dc i).all dc') :
    c ∈ g.all dc' ∨ c = i ∧ dc' = dc := by
  have h : c ∈ (g.writes dc').map Prod.fst ++ update g.pend dc (g.pend dc ++ [i]) dc' := h
  by_cases hdc : dc' = dc
  · subst hdc
    rw [update_self, ← append_assoc] at h
    exact (mem_append.mp h).imp_right fun h => ⟨mem_singleton.mp h, rfl⟩
  · rw [update_of_ne hdc] at h
    exact .inl h

theorem all_flush (dc now dc' : ℕ) : (g.flush dc now).all dc' = g.all dc' := by
  unfold all flush
  by_cases h : dc' = dc
  · subst h
    simp [comp_def]
  · simp [update_of_ne h]

end History

section

variable (calls : ι → Call)

def fold (cs : List ι) : Values := cs.foldl (fun v c => (calls c).write v) fun _ => none

/-- The map is that of all writes; none of them is hidden with the flag up or without a copy; and with the flag down the
copy is the map of those that can be seen. -/
structure CacheOk (o : DriverCache ι) (seen pend : List ι) : Prop where
  values : o.values = fold calls (seen ++ pend)
  pending : pend ≠ [] → o.dirty = false ∧ o.snapshot ≠ none
  snapshot : o.dirty = false → ∀ snap, o.snapshot = some snap → snap = fold calls seen

/-- With the first `p` writes, which could be seen at `t`, the map is `snap`. -/
structure SeenAt (g : History ι) (dc p t : ℕ) (snap : Values) : Prop where
  le : p ≤ (g.writes dc).length
  result : fold calls (((g.writes dc).take p).map Prod.fst) = snap
  before : ∀ w ∈ (g.writes dc).take p, w.2 ≤ t
  after : ∀ w ∈ (g.writes dc).drop p, t ≤ w.2
  created : g.created dc < t

def EndsBefore (g : History ι) (dc t : ℕ) : Prop := ∃ z δ, g.closed dc = some (z, δ) ∧ δ < t

/-- The call started at `t` and got the object of its driver, before it was taken out. -/
structure Uses (s : State ι) (g : History ι) (c : ι) (dc t : ℕ) : Prop where
  started : s.started c = some t
  lt : t < s.now
  allocated : dc < s.cache.allocated
  owner : g.owner dc = (calls c).driver
  before : ∀ z δ, g.closed dc = some (z, δ) → t < δ

/-- The call started at `t`, when there was no object for its driver. -/
structure Absent (s : State ι) (g : History ι) (c : ι) (t : ℕ) : Prop where
  started : s.started c = some t
  lt : t < s.now
  absent : ∀ dc < s.cache.allocated, g.owner dc = (calls c).driver → t < g.created dc ∨ EndsBefore g dc t

variable (s : State ι)

/-- What the call wrote can be seen since a step between `t` and `r`. -/
def Wrote (g : History ι) (c : ι) (r : ℕ) : Prop :=
  ∃ dc t τ, Uses calls s g c dc t ∧ (c, τ) ∈ g.writes dc ∧ t ≤ τ ∧ τ ≤ r

/-- What the call read could be seen at a step between its start and `r`. -/
def ReadBy (g : History ι) (c : ι) (dc : ℕ) (snap : Values) (r : ℕ) : Prop :=
  ∃ t p τ, Uses calls s g c dc t ∧ SeenAt calls g dc p τ snap ∧ t ≤ τ ∧ τ ≤ r

theorem ReadBy.allocated {calls : ι → Call} {s : State ι} {g : History ι} {c : ι} {dc r : ℕ} {snap : Values}
    (h : ReadBy calls s g c dc snap r) : dc < s.cache.allocated := by
  obtain ⟨t, p, τ, huses, -⟩ := h
  exact huses.allocated

/-- The call has returned with step `r`. -/
def Finished (g : History ι) (c : ι) (result : Values) (r : ℕ) : Prop :=
  match calls c with
  | .update _ => Wrote calls s g c r
  | .deleteTag _ _ => Wrote calls s g c r ∨ Absent calls s g c r ∧ ∀ dc, c ∉ g.all dc
  | .getByDriver _ => (∃ dc, ReadBy calls s g c dc result r) ∨ Absent calls s g c r ∧ result = fun _ => none
  | .deleteDriver _ => ∃ t, s.started c = some t ∧ t ≤ r ∧ ((∃ dc, g.closed dc = some (c, t)) ∨ Absent calls s g c t)

def At (g : History ι) (c : ι) : Phase → Prop
  | .idle => s.started c = none
  | .creating => (calls c).isUpdate = true ∧ ∃ t, s.started c = some t ∧ t < s.now
  | .writing dc => (calls c).isWrite = true ∧ ∃ t, Uses calls s g c dc t
  | .written dc => (calls c).isWrite = true ∧ ∃ t, Uses calls s g c dc t ∧
      (c ∈ g.pend dc ∨ ∃ τ, (c, τ) ∈ g.writes dc ∧ t ≤ τ)
  | .reading dc | .waiting dc => (calls c).isGet = true ∧ ∃ t, Uses calls s g c dc t
  | .clean dc => (calls c).isGet = true ∧ ∃ t, Uses calls s g c dc t ∧
      ∀ snap, (s.cache.caches dc).snapshot = some snap → ∃ p τ, SeenAt calls g dc p τ snap ∧ t ≤ τ ∧ τ < s.now
  | .locked dc snap => (calls c).isGet = true ∧ (∃ t, Uses calls s g c dc t) ∧
      (s.cache.caches dc).mu = some c ∧ snap = (s.cache.caches dc).values
  | .stored dc snap => (calls c).isGet = true ∧ (∃ t < s.now, ReadBy calls s g c dc snap t) ∧
      (s.cache.caches dc).mu = some c ∧ (s.cache.caches dc).snapshot = some snap ∧
      snap = (s.cache.caches dc).values ∧ g.pend dc = []
  | .cleared dc snap => (calls c).isGet = true ∧ (∃ t < s.now, ReadBy calls s g c dc snap t) ∧
      (s.cache.caches dc).mu = some c
  | .detached dc => (∃ d, calls c = .deleteDriver d) ∧ ∃ t, s.started c = some t ∧ t < s.now ∧ g.closed dc = some (c, t)
  | .held dc | .cleaned dc => (∃ d, calls c = .deleteDriver d) ∧
      (∃ t, s.started c = some t ∧ t < s.now ∧ g.closed dc = some (c, t)) ∧ (s.cache.caches dc).mu = some c
  | .emptied dc => (∃ d, calls c = .deleteDriver d) ∧
      (∃ t, s.started c = some t ∧ t < s.now ∧ g.closed dc = some (c, t)) ∧ (s.cache.caches dc).mu = some c ∧
      (s.cache.caches dc).snapshot = none
  | .done result => ∃ r, s.returned c = some r ∧ r < s.now ∧ Finished calls s g c result r

/-- The objects of one driver follow one another, and the cache has the last one if it was not taken out. -/
structure Gens (s : State ι) (g : History ι) : Prop where
  attached : ∀ d dc, s.cache.drivers d = some dc → dc < s.cache.allocated ∧ g.owner dc = d ∧ g.closed dc = none
  present : ∀ dc < s.cache.allocated, g.closed dc = none → s.cache.drivers (g.owner dc) = some dc
  created : ∀ dc < s.cache.allocated, g.created dc < s.now
  closed : ∀ dc z δ, g.closed dc = some (z, δ) → dc < s.cache.allocated ∧ calls z = .deleteDriver (g.owner dc) ∧
    s.started z = some δ ∧ g.created dc < δ ∧ δ < s.now
  disjoint : ∀ dc < s.cache.allocated, ∀ dc' < s.cache.allocated, dc ≠ dc' → g.owner dc = g.owner dc' →
    EndsBefore g dc (g.created dc') ∨ EndsBefore g dc' (g.created dc)

/-- A call writes once, and the writes are listed in the order in which they could be seen. -/
structure Lists (s : State ι) (g : History ι) : Prop where
  listed : ∀ dc, ∀ c ∈ g.all dc, (calls c).isWrite = true ∧ (s.phase c = .written dc ∨ ∃ r, s.phase c = .done r)
  nodup : ∀ dc, (g.all dc).Nodup
  apart : ∀ dc dc' c, c ∈ g.all dc → c ∈ g.all dc' → dc = dc'
  sorted : ∀ dc, (g.writes dc).Pairwise fun a b => a.2 ≤ b.2
  times : ∀ dc, ∀ w ∈ g.writes dc, g.created dc < w.2 ∧ w.2 < s.now
  fresh : ∀ dc, s.cache.allocated ≤ dc → g.all dc = []

structure Inv (s : State ι) (g : History ι) : Prop where
  gens : Gens calls s g
  lists : Lists calls s g
  caches : ∀ dc, CacheOk calls (s.cache.caches dc) ((g.writes dc).map Prod.fst) (g.pend dc)
  calls : ∀ c, At calls s g c (s.phase c)

end

/-! ### A step and the other calls -/

section

variable {calls : ι → Call} {s : State ι} {g g' : History ι} {i c : ι} {m : LatestCache ι} {ph : Phase} {dc r t : ℕ}

/-- What a step may change for the other calls: objects are made and taken out now, writes are seen from now on, the
mutex that another call holds protects the object, and a copy that is new can be seen now. -/
structure Frame (calls : ι → Call) (s : State ι) (g : History ι) (i : ι) (m : LatestCache ι) (g' : History ι) : Prop where
  allocated : s.cache.allocated ≤ m.allocated
  owner : ∀ dc < s.cache.allocated, g'.owner dc = g.owner dc
  created : ∀ dc < s.cache.allocated, g'.created dc = g.created dc
  fresh : ∀ dc < m.allocated, s.cache.allocated ≤ dc → g'.created dc = s.now
  closed : ∀ dc z δ, g'.closed dc = some (z, δ) → g.closed dc = some (z, δ) ∨ δ = s.now
  stays : ∀ dc z δ, g.closed dc = some (z, δ) → g'.closed dc = some (z, δ)
  writes : ∀ dc, ∃ new, g'.writes dc = g.writes dc ++ new ∧ ∀ w ∈ new, w.2 = s.now
  pend : ∀ dc, ∀ c ∈ g.pend dc, c ∈ g'.pend dc ∨ (c, s.now) ∈ g'.writes dc
  listed : ∀ dc, ∀ c ≠ i, c ∈ g'.all dc → c ∈ g.all dc
  held : ∀ dc < s.cache.allocated, ∀ c ≠ i, (s.cache.caches dc).mu = some c → (m.caches dc).mu = some c ∧
    (m.caches dc).values = (s.cache.caches dc).values ∧ (m.caches dc).snapshot = (s.cache.caches dc).snapshot ∧
    (g.pend dc = [] → g'.pend dc = [])
  snapshot : ∀ dc snap, (m.caches dc).snapshot = some snap →
    (s.cache.caches dc).snapshot = some snap ∨ ∃ p, SeenAt calls g' dc p s.now snap

theorem mem_writes_frame (hf : Frame calls s g i m g') {w : ι × ℕ} (h : w ∈ g.writes dc) : w ∈ g'.writes dc := by
  obtain ⟨new, hnew, -⟩ := hf.writes dc
  rw [hnew]
  exact mem_append_left new h

theorem seenAt_frame (hf : Frame calls s g i m g') {p : ℕ} {snap : Values} (hdc : dc < s.cache.allocated)
    (ht : t ≤ s.now) (h : SeenAt calls g dc p t snap) : SeenAt calls g' dc p t snap := by
  obtain ⟨new, hnew, htimes⟩ := hf.writes dc
  have htake : (g'.writes dc).take p = (g.writes dc).take p := by rw [hnew, take_append_of_le_length h.le]
  refine ⟨?_, ?_, ?_, fun w hw => ?_, ?_⟩
  · rw [hnew, length_append]
    exact h.le.trans (Nat.le_add_right _ _)
  · rw [htake]
    exact h.result
  · rw [htake]
    exact h.before
  · rw [hnew, drop_append_of_le_length h.le] at hw
    rcases mem_append.mp hw with hw | hw
    · exact h.after w hw
    · rw [htimes w hw]
      exact ht
  · rw [hf.created dc hdc]
    exact h.created

theorem endsBefore_frame (hf : Frame calls s g i m g') (h : EndsBefore g dc t) : EndsBefore g' dc t := by
  obtain ⟨z, δ, hz, hlt⟩ := h
  exact ⟨z, δ, hf.stays dc z δ hz, hlt⟩

variable [DecidableEq ι]

def State.moved (s : State ι) (i : ι) (m : LatestCache ι) (ph : Phase) : State ι where
  cache := m
  phase := update s.phase i ph
  now := s.now + 1
  started := if (s.phase i).begun then s.started else update s.started i (some s.now)
  returned := if ph.over then update s.returned i (some s.now) else s.returned

theorem started_moved (h : c ≠ i ∨ (s.phase i).begun = true) : (s.moved i m ph).started c = s.started c := by
  unfold State.moved
  by_cases hbegun : (s.phase i).begun = true
  · rw [if_pos hbegun]
  · rw [if_neg hbegun]
    exact update_of_ne (h.resolve_right hbegun) _ _

theorem returned_moved (h : c ≠ i) : (s.moved i m ph).returned c = s.returned c := by
  unfold State.moved
  dsimp only
  split
  · exact update_of_ne h _ _
  · rfl

variable (hf : Frame calls s g i m g')
include hf

section

variable (hc : c ≠ i ∨ (s.phase i).begun = true)
include hc

theorem uses_frame
    (h : Uses calls s g c dc t) : Uses calls (s.moved i m ph) g' c dc t where
  started := (started_moved hc).trans h.started
  lt := Nat.lt_succ_of_lt h.lt
  allocated := h.allocated.trans_le hf.allocated
  owner := (hf.owner dc h.allocated).trans h.owner
  before z δ hz := by
    rcases hf.closed dc z δ hz with hz | rfl
    · exact h.before z δ hz
    · exact h.lt

theorem absent_frame
    (h : Absent calls s g c t) : Absent calls (s.moved i m ph) g' c t where
  started := (started_moved hc).trans h.started
  lt := Nat.lt_succ_of_lt h.lt
  absent dc hdc howner := by
    by_cases hold : dc < s.cache.allocated
    · rw [hf.created dc hold]
      rw [hf.owner dc hold] at howner
      exact (h.absent dc hold howner).imp_right (endsBefore_frame hf)
    · rw [hf.fresh dc hdc (Nat.le_of_not_lt hold)]
      exact .inl h.lt

theorem wrote_frame
    (h : Wrote calls s g c r) : Wrote calls (s.moved i m ph) g' c r := by
  obtain ⟨dc, t, τ, huses, hmem, hτ⟩ := h
  exact ⟨dc, t, τ, uses_frame hf hc huses, mem_writes_frame hf hmem, hτ⟩

theorem readBy_frame {snap : Values}
    (hr : r < s.now) (h : ReadBy calls s g c dc snap r) : ReadBy calls (s.moved i m ph) g' c dc snap r := by
  obtain ⟨t, p, τ, huses, hseen, htτ, hτr⟩ := h
  exact ⟨t, p, τ, uses_frame hf hc huses, seenAt_frame hf huses.allocated (hτr.trans hr.le) hseen, htτ, hτr⟩

end

theorem finished_frame (hc : c ≠ i) {result : Values} (hr : r < s.now)
    (h : Finished calls s g c result r) : Finished calls (s.moved i m ph) g' c result r := by
  unfold Finished at h ⊢
  have hc' : c ≠ i ∨ (s.phase i).begun = true := .inl hc
  cases hcall : calls c with
  | update point =>
    rw [hcall] at h
    exact wrote_frame hf hc' h
  | deleteTag d tag =>
    rw [hcall] at h
    refine h.imp (wrote_frame hf hc') (And.imp (absent_frame hf hc') ?_)
    exact fun hnot dc hmem => hnot dc (hf.listed dc c hc hmem)
  | getByDriver d =>
    rw [hcall] at h
    refine h.imp ?_ (And.imp_left (absent_frame hf hc'))
    rintro ⟨dc, hread⟩
    exact ⟨dc, readBy_frame hf hc' hr hread⟩
  | deleteDriver d =>
    rw [hcall] at h
    obtain ⟨t, hstarted, hle, h⟩ := h
    refine ⟨t, (started_moved hc').trans hstarted, hle, h.imp ?_ (absent_frame hf hc')⟩
    rintro ⟨dc, hclosed⟩
    exact ⟨dc, hf.stays dc c t hclosed⟩

theorem callOk_frame
    (hclosed : ∀ dc z δ, g.closed dc = some (z, δ) → dc < s.cache.allocated) (hc : c ≠ i) {q : Phase}
    (h : At calls s g c q) : At calls (s.moved i m ph) g' c q := by
  have hc' : c ≠ i ∨ (s.phase i).begun = true := .inl hc
  have hstarted : (s.moved i m ph).started c = s.started c := started_moved hc'
  cases q with
  | idle => exact hstarted.trans h
  | creating =>
    obtain ⟨hcall, t, ht, hlt⟩ := h
    exact ⟨hcall, t, hstarted.trans ht, Nat.lt_succ_of_lt hlt⟩
  | written dc =>
    obtain ⟨hcall, t, huses, hwrite⟩ := h
    refine ⟨hcall, t, uses_frame hf hc' huses, ?_⟩
    rcases hwrite with hpend | ⟨τ, hmem, hτ⟩
    · exact (hf.pend dc c hpend).imp_right fun hmem => ⟨s.now, hmem, huses.lt.le⟩
    · exact .inr ⟨τ, mem_writes_frame hf hmem, hτ⟩
  | clean dc =>
    obtain ⟨hcall, t, huses, hsnap⟩ := h
    refine ⟨hcall, t, uses_frame hf hc' huses, fun snap hsnap' => ?_⟩
    rcases hf.snapshot dc snap hsnap' with hold | ⟨p, hseen⟩
    · obtain ⟨p, τ, hseen, htτ, hτ⟩ := hsnap snap hold
      exact ⟨p, τ, seenAt_frame hf huses.allocated hτ.le hseen, htτ, Nat.lt_succ_of_lt hτ⟩
    · exact ⟨p, s.now, hseen, huses.lt.le, Nat.lt_succ_self _⟩
  | locked dc snap =>
    obtain ⟨hcall, ⟨t, huses⟩, hmu, hsnap⟩ := h
    obtain ⟨hmu', hvalues, -⟩ := hf.held dc huses.allocated c hc hmu
    exact ⟨hcall, ⟨t, uses_frame hf hc' huses⟩, hmu', hsnap.trans hvalues.symm⟩
  | stored dc snap =>
    obtain ⟨hcall, ⟨r, hr, hread⟩, hmu, hstored, hsnap, hpend⟩ := h
    obtain ⟨hmu', hvalues, hsnapshot, hpend'⟩ := hf.held dc hread.allocated c hc hmu
    exact ⟨hcall, ⟨r, Nat.lt_succ_of_lt hr, readBy_frame hf hc' hr hread⟩, hmu', hsnapshot.trans hstored,
      hsnap.trans hvalues.symm, hpend' hpend⟩
  | cleared dc snap =>
    obtain ⟨hcall, ⟨r, hr, hread⟩, hmu⟩ := h
    exact ⟨hcall, ⟨r, Nat.lt_succ_of_lt hr, readBy_frame hf hc' hr hread⟩, (hf.held dc hread.allocated c hc hmu).1⟩
  | detached dc =>
    obtain ⟨hcall, t, ht, hlt, hz⟩ := h
    exact ⟨hcall, t, hstarted.trans ht, Nat.lt_succ_of_lt hlt, hf.stays dc c t hz⟩
  | held dc | cleaned dc =>
    obtain ⟨hcall, ⟨t, ht, hlt, hz⟩, hmu⟩ := h
    exact ⟨hcall, ⟨t, hstarted.trans ht, Nat.lt_succ_of_lt hlt, hf.stays dc c t hz⟩,
      (hf.held dc (hclosed dc c t hz) c hc hmu).1⟩
  | emptied dc =>
    obtain ⟨hcall, ⟨t, ht, hlt, hz⟩, hmu, hnone⟩ := h
    obtain ⟨hmu', -, hsnapshot, -⟩ := hf.held dc (hclosed dc c t hz) c hc hmu
    exact ⟨hcall, ⟨t, hstarted.trans ht, Nat.lt_succ_of_lt hlt, hf.stays dc c t hz⟩, hmu', hsnapshot.trans hnone⟩
  | done result =>
    obtain ⟨r, hr, hlt, hfinished⟩ := h
    exact ⟨r, (returned_moved hc).trans hr, Nat.lt_succ_of_lt hlt, finished_frame hf hc hlt hfinished⟩
  | _ =>
    obtain ⟨hcall, t, huses⟩ := h
    exact ⟨hcall, t, uses_frame hf hc' huses⟩

end

end CoreC.Engine.Cache
