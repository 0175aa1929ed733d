import CoreC.Engine.CacheHistory

/-! # The steps of the calls on the cache

Every step of a call keeps the invariant (`inv_step`): the steps that change nothing but the call, those on one object,
and those by which `Update` makes an object and `DeleteDriver` takes it out. Hence it holds along runs (`inv_run`). -/

namespace CoreC.Engine.Cache

open Lib.Runs Function List Option

variable {ι : Type}

/-! ### The invariant -/

section

variable {calls : ι → Call} {s : State ι} {g g' : History ι} {i c : ι} {m : LatestCache ι} {ph : Phase} {dc : ℕ}
  {o : DriverCache ι} {q : Phase} {snap : Values}

/-- Only the lists of one object change, and what can be seen of it now can be seen from now on. -/
structure Grows (g g' : History ι) (dc now : ℕ) (i : ι) : Prop where
  owner : g'.owner = g.owner
  created : g'.created = g.created
  closed : g'.closed = g.closed
  writes : ∃ new, g'.writes = update g.writes dc (g.writes dc ++ new) ∧ ∀ w ∈ new, w.2 = now
  pend : ∀ c ∈ g.pend dc, c ∈ g'.pend dc ∨ (c, now) ∈ g'.writes dc
  others : ∀ dc' ≠ dc, g'.pend dc' = g.pend dc'
  listed : ∀ dc', ∀ c ≠ i, c ∈ g'.all dc' → c ∈ g.all dc'

theorem grows_refl (g : History ι) (dc now : ℕ) (i : ι) : Grows g g dc now i :=
  ⟨rfl, rfl, rfl, ⟨[], by simp, nofun⟩, fun _ => .inl, fun _ _ => rfl, fun _ _ _ => id⟩

theorem grows_flush (g : History ι) (dc now : ℕ) (i : ι) : Grows g (g.flush dc now) dc now i := by
  refine ⟨rfl, rfl, rfl, ⟨_, rfl, ?_⟩, fun c hc => .inr ?_, fun dc' h => update_of_ne h _ _,
    fun dc' c _ hc => g.all_flush dc now dc' ▸ hc⟩
  · simp
  · simpa [History.flush] using .inr hc

theorem grows_enter (g : History ι) (dc now : ℕ) (i : ι) : Grows g (g.enter dc i) dc now i := by
  refine ⟨rfl, rfl, rfl, ⟨[], by simp [History.enter], nofun⟩, fun c hc => .inl ?_,
    fun dc' h => update_of_ne h _ _, fun dc' c hne hc => ?_⟩
  · simpa [History.enter] using .inl hc
  · exact (History.mem_all_enter hc).resolve_right fun h => hne h.1

theorem grows_enter_flush (g : History ι) (dc now : ℕ) (i : ι) : Grows g ((g.enter dc i).flush dc now) dc now i := by
  refine ⟨rfl, rfl, rfl, ⟨_, rfl, ?_⟩, fun c hc => .inr ?_, fun dc' h => ?_, fun dc' c hne hc => ?_⟩
  · simp
  · simpa [History.flush, History.enter] using .inr (.inl hc)
  · simp [History.flush, History.enter, update_of_ne h]
  · rw [History.all_flush] at hc
    exact (History.mem_all_enter hc).resolve_right fun h => hne h.1

theorem fold_append (cs : List ι) (c : ι) : fold calls (cs ++ [c]) = (calls c).write (fold calls cs) := by
  rw [fold, foldl_append]
  rfl

theorem inv_init (calls : ι → Call) : Inv calls {} {} where
  gens := ⟨nofun, nofun, nofun, nofun, nofun⟩
  lists := ⟨nofun, fun _ => nodup_nil, nofun, fun _ => Pairwise.nil, nofun, fun _ _ => rfl⟩
  caches _ := ⟨rfl, fun h => absurd rfl h, nofun⟩
  calls _ := rfl

variable (hinv : Inv calls s g)
include hinv

theorem Inv.at (hphase : s.phase i = q) : At calls s g i q :=
  hphase ▸ hinv.calls i

/-- The objects of a driver that has none were taken out. -/
theorem Inv.ended {d : String} (hdc : dc < s.cache.allocated) (howner : g.owner dc = d)
    (hnone : s.cache.drivers d = none) : EndsBefore g dc s.now := by
  cases hclosed : g.closed dc with
  | none =>
    have hpresent := hinv.gens.present dc hdc hclosed
    rw [howner, hnone] at hpresent
    cases hpresent
  | some closed =>
    obtain ⟨z, δ⟩ := closed
    exact ⟨z, δ, hclosed, (hinv.gens.closed dc z δ hclosed).2.2.2.2⟩

theorem seenAt_now (hdc : dc < s.cache.allocated) :
    SeenAt calls g dc (g.writes dc).length s.now (fold calls ((g.writes dc).map Prod.fst)) := by
  refine ⟨Nat.le_refl _, by rw [take_length], fun w hw => ?_, fun w hw => ?_, hinv.gens.created dc hdc⟩
  · exact (hinv.lists.times dc w (mem_of_mem_take hw)).2.le
  · rw [drop_length] at hw
    cases hw

theorem seenAt_flush (hdc : dc < s.cache.allocated) :
    SeenAt calls (g.flush dc s.now) dc ((g.flush dc s.now).writes dc).length s.now (s.cache.caches dc).values := by
  have hmap : ((g.flush dc s.now).writes dc).map Prod.fst = g.all dc := by
    simp [History.flush, History.all, comp_def]
  refine ⟨Nat.le_refl _, ?_, fun w hw => ?_, fun w hw => ?_, hinv.gens.created dc hdc⟩
  · rw [take_length, hmap, (hinv.caches dc).values]
    rfl
  · have hmem := List.mem_of_mem_take hw
    simp only [History.flush, Function.update_self, List.mem_append, List.mem_map] at hmem
    rcases hmem with hmem | ⟨c, -, rfl⟩
    · exact (hinv.lists.times dc w hmem).2.le
    · exact Nat.le_refl _
  · rw [drop_length] at hw
    cases hw

theorem sorted_grows (hgrows : Grows g g' dc s.now i) (dc' : ℕ) : (g'.writes dc').Pairwise fun a b => a.2 ≤ b.2 := by
  obtain ⟨new, hwrites, htimes⟩ := hgrows.writes
  rw [hwrites]
  by_cases h : dc' = dc
  · subst h
    rw [update_self]
    refine pairwise_append.mpr ⟨hinv.lists.sorted dc', ?_, fun w hw w' hw' => ?_⟩
    · exact pairwise_iff_get.mpr fun a b _ => by
        rw [htimes _ (get_mem ..), htimes _ (get_mem ..)]
    · rw [htimes w' hw']
      exact (hinv.lists.times dc' w hw).2.le
  · rw [update_of_ne h]
    exact hinv.lists.sorted dc'

theorem times_grows (hgrows : Grows g g' dc s.now i) (hdc : dc < s.cache.allocated)
    (dc' : ℕ) (w : ι × ℕ) (hw : w ∈ g'.writes dc') : g'.created dc' < w.2 ∧ w.2 < s.now + 1 := by
  have hold : w ∈ g.writes dc' → g.created dc' < w.2 ∧ w.2 < s.now + 1 := fun hw =>
    (hinv.lists.times dc' w hw).imp_right Nat.lt_succ_of_lt
  obtain ⟨new, hwrites, htimes⟩ := hgrows.writes
  rw [hwrites] at hw
  rw [hgrows.created]
  by_cases h : dc' = dc
  · subst h
    rw [update_self] at hw
    rcases mem_append.mp hw with hw | hw
    · exact hold hw
    · rw [htimes w hw]
      exact ⟨hinv.gens.created dc' hdc, Nat.lt_succ_self _⟩
  · rw [update_of_ne h] at hw
    exact hold hw

variable [DecidableEq ι]

omit hinv in
theorem caches_set (s : State ι) : (s.moved i (s.cache.set dc o) ph).cache.caches dc = o := update_self ..

omit hinv [DecidableEq ι] in
theorem finished_of_read {r : ℕ} (hget : (calls i).isGet = true) (h : ReadBy calls s g i dc snap r) :
    Finished calls s g i snap r := by
  unfold Finished
  cases hc : calls i with
  | getByDriver d => exact .inl ⟨dc, h⟩
  | _ =>
    rw [hc] at hget
    cases hget

omit hinv [DecidableEq ι] in
theorem finished_of_write {r : ℕ} (hwrite : (calls i).isWrite = true) (h : Wrote calls s g i r) :
    Finished calls s g i snap r := by
  unfold Finished
  cases hc : calls i with
  | update point => exact h
  | deleteTag d tag => exact .inl h
  | _ =>
    rw [hc] at hwrite
    cases hwrite

omit hinv in
theorem at_done {result : Values} (h : Finished calls (s.moved i m (.done result)) g' i result s.now) :
    At calls (s.moved i m (.done result)) g' i (.done result) :=
  ⟨s.now, by simp [State.moved, Phase.over], Nat.lt_succ_self _, h⟩

theorem calls_moved (hframe : Frame calls s g i m g') (hat : At calls (s.moved i m ph) g' i ph) (c : ι) :
    At calls (s.moved i m ph) g' c ((s.moved i m ph).phase c) := by
  change At calls _ g' c (update s.phase i ph c)
  by_cases hc : c = i
  · subst hc
    rw [update_self]
    exact hat
  · rw [update_of_ne hc]
    exact callOk_frame hframe (fun dc z δ h => (hinv.gens.closed dc z δ h).1) hc (hinv.calls c)

theorem started_moved_of_some {t : ℕ} (h : s.started c = some t) : (s.moved i m ph).started c = some t := by
  by_cases hc : c = i
  · subst hc
    rw [started_moved (.inr ?_), h]
    have hat := hinv.calls c
    cases hphase : s.phase c with
    | idle =>
      rw [hphase] at hat
      exact absurd (h.symm.trans hat) nofun
    | _ => rfl
  · rw [started_moved (.inl hc), h]

theorem gens_moved (hdrivers : m.drivers = s.cache.drivers)
    (hallocated : m.allocated = s.cache.allocated) (howner : g'.owner = g.owner) (hcreated : g'.created = g.created)
    (hclosed : g'.closed = g.closed) : Gens calls (s.moved i m ph) g' := by
  obtain ⟨hattached, hpresent, hmade, hends, hdisjoint⟩ := hinv.gens
  refine ⟨?_, ?_, ?_, ?_, ?_⟩ <;> simp only [State.moved, EndsBefore, hdrivers, hallocated, howner, hcreated, hclosed]
  · exact hattached
  · exact hpresent
  · exact fun dc hdc => Nat.lt_succ_of_lt (hmade dc hdc)
  · intro dc z δ h
    obtain ⟨hdc, hcall, hstarted, hlt, hnow⟩ := hends dc z δ h
    have hstarted' : (s.moved i m ph).started z = some δ := started_moved_of_some hinv hstarted
    exact ⟨hdc, hcall, hstarted', hlt, Nat.lt_succ_of_lt hnow⟩
  · exact hdisjoint

section

variable (hphase : s.phase i = q) (hwritten : ∀ dc, q = .written dc → ∃ r, ph = .done r) (hdone : ∀ r, q ≠ .done r)
include hphase hwritten hdone

theorem listed_moved (hc : c ∈ g.all dc) :
    (calls c).isWrite = true ∧ ((s.moved i m ph).phase c = .written dc ∨ ∃ r, (s.moved i m ph).phase c = .done r) := by
  obtain ⟨hcall, hat⟩ := hinv.lists.listed dc c hc
  refine ⟨hcall, ?_⟩
  by_cases hci : c = i
  · subst hci
    rcases hat with hat | ⟨r, hat⟩
    · obtain ⟨r, rfl⟩ := hwritten dc (hphase.symm.trans hat)
      exact .inr ⟨r, update_self ..⟩
    · exact absurd (hphase.symm.trans hat) (hdone r)
  · have hsame : (s.moved i m ph).phase c = s.phase c := update_of_ne hci _ _
    rw [hsame]
    exact hat

theorem lists_same (hallocated : s.cache.allocated ≤ m.allocated) : Lists calls (s.moved i m ph) g where
  listed _ _ hc := listed_moved hinv hphase hwritten hdone hc
  nodup := hinv.lists.nodup
  apart := hinv.lists.apart
  sorted := hinv.lists.sorted
  times dc w hw := (hinv.lists.times dc w hw).imp_right Nat.lt_succ_of_lt
  fresh dc hle := hinv.lists.fresh dc (hallocated.trans hle)

theorem lists_flush (hdc : dc < s.cache.allocated) (hallocated : m.allocated = s.cache.allocated) :
    Lists calls (s.moved i m ph) (g.flush dc s.now) where
  listed dc' _ hc := listed_moved hinv hphase hwritten hdone (g.all_flush dc s.now dc' ▸ hc)
  nodup dc' := g.all_flush dc s.now dc' ▸ hinv.lists.nodup dc'
  apart dc' dc'' c h h' :=
    hinv.lists.apart dc' dc'' c (g.all_flush dc s.now dc' ▸ h) (g.all_flush dc s.now dc'' ▸ h')
  sorted := sorted_grows hinv (grows_flush g dc s.now i)
  times := times_grows hinv (grows_flush g dc s.now i) hdc
  fresh dc' hle := (g.all_flush dc s.now dc').trans (hinv.lists.fresh dc' (hallocated ▸ hle))

end

theorem lists_write (hdc : dc < s.cache.allocated)
    (hallocated : m.allocated = s.cache.allocated) (hphase : s.phase i = .writing dc) (hcall : (calls i).isWrite = true)
    (hgrows : Grows g g' dc s.now i) (hall : ∀ dc', g'.all dc' = (g.enter dc i).all dc') :
    Lists calls (s.moved i m (.written dc)) g' := by
  have hself : g'.all dc = g.all dc ++ [i] := by
    rw [hall dc]
    simp [History.all, History.enter]
  have hother : ∀ dc' ≠ dc, g'.all dc' = g.all dc' := fun dc' h => by
    rw [hall dc']
    simp [History.all, History.enter, update_of_ne h]
  have hnew : ∀ dc', i ∉ g.all dc' := fun dc' hmem => by
    rcases (hinv.lists.listed dc' i hmem).2 with h | ⟨r, h⟩ <;> cases hphase.symm.trans h
  -- a call in a list was there before, or it is this one
  have hmem : ∀ {dc' c}, c ∈ g'.all dc' → c ∈ g.all dc' ∨ c = i ∧ dc' = dc := fun {dc' c} hc =>
    History.mem_all_enter (hall dc' ▸ hc)
  refine ⟨fun dc' c hc => ?_, fun dc' => ?_, fun dc' dc'' c h h' => ?_, sorted_grows hinv hgrows,
    times_grows hinv hgrows hdc, fun dc' hle => ?_⟩
  · rcases hmem hc with hc | ⟨rfl, rfl⟩
    · exact listed_moved hinv hphase nofun nofun hc
    · exact ⟨hcall, .inl (update_self ..)⟩
  · by_cases h : dc' = dc
    · subst h
      rw [hself]
      exact nodup_append.mpr ⟨hinv.lists.nodup dc', nodup_singleton i, fun a ha b hb hab =>
        hnew dc' (mem_singleton.mp hb ▸ hab ▸ ha)⟩
    · rw [hother dc' h]
      exact hinv.lists.nodup dc'
  · rcases hmem h, hmem h' with ⟨h | ⟨rfl, rfl⟩, h' | ⟨hi, rfl⟩⟩
    · exact hinv.lists.apart dc' dc'' c h h'
    · exact absurd (hi ▸ h) (hnew dc')
    · exact absurd h' (hnew dc'')
    · rfl
  · have hne : dc' ≠ dc := fun h => absurd (hallocated ▸ hle : s.cache.allocated ≤ dc') (by omega)
    rw [hother dc' hne]
    exact hinv.lists.fresh dc' (hallocated ▸ hle)

section

variable (hgrows : Grows g g' dc s.now i) (hallocated : m.allocated = s.cache.allocated)
  (hcaches : m.caches = update s.cache.caches dc o)
  (hheld : ∀ c ≠ i, (s.cache.caches dc).mu = some c → o.mu = some c ∧ o.values = (s.cache.caches dc).values ∧
    o.snapshot = (s.cache.caches dc).snapshot ∧ (g.pend dc = [] → g'.pend dc = []))
  (hsnapshot : ∀ snap, o.snapshot = some snap →
    (s.cache.caches dc).snapshot = some snap ∨ ∃ p, SeenAt calls g' dc p s.now snap)
include hgrows hallocated hcaches hheld hsnapshot

omit hinv [DecidableEq ι] in
theorem frame_of_grows : Frame calls s g i m g' where
  allocated := hallocated.ge
  owner dc' _ := congrFun hgrows.owner dc'
  created dc' _ := congrFun hgrows.created dc'
  fresh dc' hlt hle := absurd (hallocated ▸ hlt) (Nat.not_lt.mpr hle)
  closed dc' z δ h := .inl (hgrows.closed ▸ h)
  stays dc' z δ h := hgrows.closed ▸ h
  writes dc' := by
    obtain ⟨new, hwrites, htimes⟩ := hgrows.writes
    rw [hwrites]
    by_cases h : dc' = dc
    · subst h
      exact ⟨new, update_self .., htimes⟩
    · exact ⟨[], by rw [update_of_ne h, append_nil], nofun⟩
  pend dc' c hc := by
    by_cases h : dc' = dc
    · subst h
      exact hgrows.pend c hc
    · exact .inl ((hgrows.others dc' h).symm ▸ hc)
  listed := hgrows.listed
  held dc' _ c hne hmu := by
    rw [hcaches]
    by_cases h : dc' = dc
    · subst h
      rw [update_self]
      exact hheld c hne hmu
    · rw [update_of_ne h, hgrows.others dc' h]
      exact ⟨hmu, rfl, rfl, id⟩
  snapshot dc' snap hsnap := by
    rw [hcaches] at hsnap
    by_cases h : dc' = dc
    · subst h
      rw [update_self] at hsnap
      exact hsnapshot snap hsnap
    · rw [update_of_ne h] at hsnap
      exact .inl hsnap

theorem inv_of_grows (hdrivers : m.drivers = s.cache.drivers) (hlists : Lists calls (s.moved i m ph) g')
    (hcache : CacheOk calls o ((g'.writes dc).map Prod.fst) (g'.pend dc))
    (hat : Frame calls s g i m g' → At calls (s.moved i m ph) g' i ph) : Inv calls (s.moved i m ph) g' := by
  have hframe : Frame calls s g i m g' := frame_of_grows hgrows hallocated hcaches hheld hsnapshot
  refine ⟨gens_moved hinv hdrivers hallocated hgrows.owner hgrows.created hgrows.closed, hlists, fun dc' => ?_,
    calls_moved hinv hframe (hat hframe)⟩
  · change CacheOk calls (m.caches dc') _ _
    obtain ⟨new, hwrites, -⟩ := hgrows.writes
    rw [hcaches]
    by_cases h : dc' = dc
    · subst h
      rw [update_self]
      exact hcache
    · rw [update_of_ne h, hwrites, update_of_ne h, hgrows.others dc' h]
      exact hinv.caches dc'

end

theorem inv_quiet (hphase : s.phase i = q) (hwritten : ∀ dc, q ≠ .written dc) (hdone : ∀ r, q ≠ .done r)
    (hat : Frame calls s g i s.cache g → At calls (s.moved i s.cache ph) g i ph) :
    Inv calls (s.moved i s.cache ph) g :=
  inv_of_grows hinv (grows_refl g 0 s.now i) rfl (update_eq_self 0 _).symm (fun _ _ hmu => ⟨hmu, rfl, rfl, id⟩)
    (fun _ => .inl) rfl (lists_same hinv hphase (fun dc h => absurd h (hwritten dc)) hdone (Nat.le_refl _))
    (hinv.caches 0) hat

section

variable (hphase : s.phase i = .idle)
include hphase

theorem uses_begin
    (hfound : s.cache.drivers (calls i).driver = some dc) : Uses calls (s.moved i s.cache ph) g i dc s.now := by
  obtain ⟨hdc, howner, hclosed⟩ := hinv.gens.attached _ dc hfound
  refine ⟨?_, Nat.lt_succ_self _, hdc, howner, fun z δ hz => ?_⟩
  · simp [State.moved, hphase, Phase.begun]
  · rw [hclosed] at hz
    cases hz

theorem absent_begin
    (hnone : s.cache.drivers (calls i).driver = none) : Absent calls (s.moved i s.cache ph) g i s.now := by
  refine ⟨?_, Nat.lt_succ_self _, fun dc hdc howner => .inr ?_⟩
  · simp [State.moved, hphase, Phase.begun]
  · exact hinv.ended hdc howner hnone

/-! ### The steps that change no object -/

theorem inv_lookWrite (hcall : (calls i).isWrite = true)
    (hfound : s.cache.drivers (calls i).driver = some dc) : Inv calls (s.moved i s.cache (.writing dc)) g :=
  inv_quiet hinv hphase nofun nofun fun _ => ⟨hcall, s.now, uses_begin hinv hphase hfound⟩

theorem inv_lookRead (hcall : (calls i).isGet = true)
    (hfound : s.cache.drivers (calls i).driver = some dc) : Inv calls (s.moved i s.cache (.reading dc)) g :=
  inv_quiet hinv hphase nofun nofun fun _ => ⟨hcall, s.now, uses_begin hinv hphase hfound⟩

theorem inv_miss (hcall : (calls i).isUpdate = true) :
    Inv calls (s.moved i s.cache .creating) g :=
  inv_quiet hinv hphase nofun nofun fun _ =>
    ⟨hcall, s.now, by simp [State.moved, hphase, Phase.begun], Nat.lt_succ_self _⟩

theorem inv_absent (hcall : (calls i).isUpdate = false)
    (hnone : s.cache.drivers (calls i).driver = none) : Inv calls (s.moved i s.cache (.done fun _ => none)) g := by
  refine inv_quiet hinv hphase nofun nofun fun _ => at_done ?_
  have habsent : Absent calls (s.moved i s.cache (.done fun _ => none)) g i s.now := absent_begin hinv hphase hnone
  unfold Finished
  cases hc : calls i with
  | update point =>
    rw [hc] at hcall
    cases hcall
  | deleteTag d tag =>
    refine .inr ⟨habsent, fun dc hmem => ?_⟩
    rcases (hinv.lists.listed dc i hmem).2 with h | ⟨r, h⟩ <;> cases hphase.symm.trans h
  | getByDriver d => exact .inr ⟨habsent, rfl⟩
  | deleteDriver d => exact ⟨s.now, habsent.started, Nat.le_refl _, .inr habsent⟩

end

theorem inv_lookAgain (hphase : s.phase i = .creating)
    (hfound : s.cache.drivers (calls i).driver = some dc) : Inv calls (s.moved i s.cache (.writing dc)) g := by
  obtain ⟨hupdate, t, hstarted, ht⟩ := hinv.at hphase
  obtain ⟨hdc, howner, hclosed⟩ := hinv.gens.attached _ dc hfound
  refine inv_quiet hinv hphase nofun nofun fun _ => ⟨?_, t, ?_, Nat.lt_succ_of_lt ht, hdc, howner, ?_⟩
  · cases hc : calls i <;> simp [hc, Call.isUpdate, Call.isWrite] at hupdate ⊢
  · rw [started_moved (.inr (hphase ▸ rfl)), hstarted]
  · intro z δ hz
    rw [hclosed] at hz
    cases hz

theorem inv_up (hphase : s.phase i = .reading dc) : Inv calls (s.moved i s.cache (.waiting dc)) g := by
  obtain ⟨hget, t, huses⟩ := hinv.at hphase
  exact inv_quiet hinv hphase nofun nofun fun hframe =>
    ⟨hget, t, uses_frame hframe (.inr (hphase ▸ rfl)) huses⟩

theorem inv_down (hphase : s.phase i = .reading dc)
    (hdirty : (s.cache.caches dc).dirty = false) : Inv calls (s.moved i s.cache (.clean dc)) g := by
  obtain ⟨hget, t, huses⟩ := hinv.at hphase
  refine inv_quiet hinv hphase nofun nofun fun hframe =>
    ⟨hget, t, uses_frame hframe (.inr (hphase ▸ rfl)) huses, fun snap hsnap => ?_⟩
  refine ⟨(g.writes dc).length, s.now, ?_, huses.lt.le, Nat.lt_succ_self _⟩
  rw [(hinv.caches dc).snapshot hdirty snap hsnap]
  exact seenAt_now hinv huses.allocated

theorem inv_hit (hphase : s.phase i = .clean dc)
    (hsnap : (s.cache.caches dc).snapshot = some snap) : Inv calls (s.moved i s.cache (.done snap)) g := by
  obtain ⟨hget, t, huses, hseen⟩ := hinv.at hphase
  obtain ⟨p, τ, hseen, htτ, hτ⟩ := hseen snap hsnap
  exact inv_quiet hinv hphase nofun nofun fun hframe => at_done (finished_of_read hget
    ⟨t, p, τ, uses_frame hframe (.inr (hphase ▸ rfl)) huses, hseen, htτ, hτ.le⟩)

theorem inv_gone (hphase : s.phase i = .clean dc) : Inv calls (s.moved i s.cache (.waiting dc)) g := by
  obtain ⟨hget, t, huses, -⟩ := hinv.at hphase
  exact inv_quiet hinv hphase nofun nofun fun hframe =>
    ⟨hget, t, uses_frame hframe (.inr (hphase ▸ rfl)) huses⟩

/-! ### The steps on one object -/

theorem inv_set (hphase : s.phase i = q) (hwritten : ∀ dc, q ≠ .written dc) (hdone : ∀ r, q ≠ .done r)
    (hdrivers : m.drivers = s.cache.drivers) (hallocated : m.allocated = s.cache.allocated)
    (hcaches : m.caches = update s.cache.caches dc o)
    (hmu : (s.cache.caches dc).mu = none ∨ (s.cache.caches dc).mu = some i)
    (hsnapshot : o.snapshot = (s.cache.caches dc).snapshot)
    (hcache : CacheOk calls o ((g.writes dc).map Prod.fst) (g.pend dc))
    (hat : Frame calls s g i m g → At calls (s.moved i m ph) g i ph) : Inv calls (s.moved i m ph) g := by
  refine inv_of_grows hinv (grows_refl g dc s.now i) hallocated hcaches (fun c hc hheld => ?_)
    (fun snap hsnap => .inl (hsnapshot ▸ hsnap)) hdrivers ?_ hcache hat
  · rcases hmu with hmu | hmu
    · exact absurd (hmu.symm.trans hheld) nofun
    · exact absurd (some.inj (hmu.symm.trans hheld)) (Ne.symm hc)
  · exact lists_same hinv hphase (fun dc h => absurd h (hwritten dc)) hdone hallocated.ge

theorem inv_lock (hphase : s.phase i = .waiting dc) (hmu : (s.cache.caches dc).mu = none) :
    Inv calls (s.moved i (s.cache.set dc { s.cache.caches dc with mu := some i })
      (.locked dc (s.cache.caches dc).values)) g := by
  obtain ⟨hget, t, huses⟩ := hinv.at hphase
  obtain ⟨hvalues, hpending, hsnapshot⟩ := hinv.caches dc
  refine inv_set hinv hphase nofun nofun rfl rfl rfl (.inl hmu) rfl ⟨hvalues, hpending, hsnapshot⟩ fun hframe =>
    ⟨hget, ⟨t, uses_frame hframe (.inr (hphase ▸ rfl)) huses⟩, ?_⟩
  rw [caches_set]
  exact ⟨rfl, rfl⟩

theorem inv_lockDetached (hphase : s.phase i = .detached dc) (hmu : (s.cache.caches dc).mu = none) :
    Inv calls (s.moved i (s.cache.set dc { s.cache.caches dc with mu := some i }) (.held dc)) g := by
  obtain ⟨hdelete, t, hstarted, ht, hclosed⟩ := hinv.at hphase
  obtain ⟨hvalues, hpending, hsnapshot⟩ := hinv.caches dc
  refine inv_set hinv hphase nofun nofun rfl rfl rfl (.inl hmu) rfl ⟨hvalues, hpending, hsnapshot⟩ fun hframe =>
    ⟨hdelete, ⟨t, started_moved_of_some hinv hstarted, Nat.lt_succ_of_lt ht, hclosed⟩, ?_⟩
  rw [caches_set]

theorem inv_clear (hphase : s.phase i = .stored dc snap) :
    Inv calls (s.moved i (s.cache.set dc { s.cache.caches dc with dirty := false }) (.cleared dc snap)) g := by
  obtain ⟨hget, ⟨r, hr, hread⟩, hmu, hstored, hsnap, hpend⟩ := hinv.at hphase
  have hvalues := (hinv.caches dc).values
  refine inv_set hinv hphase nofun nofun rfl rfl rfl (.inr hmu) rfl ⟨hvalues, fun h => absurd hpend h, ?_⟩
    fun hframe => ⟨hget, ⟨r, Nat.lt_succ_of_lt hr, readBy_frame hframe (.inr (hphase ▸ rfl)) hr hread⟩, ?_⟩
  · intro _ snap' hsnap'
    cases hstored.symm.trans hsnap'
    rw [hsnap, hvalues, hpend, append_nil]
  · rw [caches_set]
    exact hmu

theorem inv_unlock (hphase : s.phase i = .cleared dc snap) :
    Inv calls (s.moved i (s.cache.set dc { s.cache.caches dc with mu := none }) (.done snap)) g := by
  obtain ⟨hget, ⟨r, hr, hread⟩, hmu⟩ := hinv.at hphase
  obtain ⟨hvalues, hpending, hsnapshot⟩ := hinv.caches dc
  obtain ⟨t, p, τ, huses, hseen, htτ, hτr⟩ := hread
  exact inv_set hinv hphase nofun nofun rfl rfl rfl (.inr hmu) rfl ⟨hvalues, hpending, hsnapshot⟩ fun hframe =>
    at_done (finished_of_read hget
      ⟨t, p, τ, uses_frame hframe (.inr (hphase ▸ rfl)) huses, hseen, htτ, hτr.trans hr.le⟩)

theorem inv_settle (hphase : s.phase i = .emptied dc) :
    Inv calls (s.moved i (s.cache.set dc { s.cache.caches dc with dirty := false }) (.cleaned dc)) g := by
  obtain ⟨hdelete, ⟨t, hstarted, ht, hclosed⟩, hmu, hnone⟩ := hinv.at hphase
  refine inv_set hinv hphase nofun nofun rfl rfl rfl (.inr hmu) rfl ⟨(hinv.caches dc).values, ?_, ?_⟩ fun hframe =>
    ⟨hdelete, ⟨t, started_moved_of_some hinv hstarted, Nat.lt_succ_of_lt ht, hclosed⟩, ?_⟩
  · exact fun hpend => absurd hnone ((hinv.caches dc).pending hpend).2
  · exact fun _ snap hsnap => absurd (hnone.symm.trans hsnap) nofun
  · rw [caches_set]
    exact hmu

theorem inv_release (hphase : s.phase i = .cleaned dc) {shardMu : ℕ → Option ι} :
    Inv calls (s.moved i { s.cache.set dc { s.cache.caches dc with mu := none } with shardMu := shardMu }
      (.done fun _ => none)) g := by
  obtain ⟨⟨d, hdelete⟩, ⟨t, hstarted, ht, hclosed⟩, hmu⟩ := hinv.at hphase
  obtain ⟨hvalues, hpending, hsnapshot⟩ := hinv.caches dc
  refine inv_set hinv hphase nofun nofun rfl rfl rfl (.inr hmu) rfl ⟨hvalues, hpending, hsnapshot⟩ fun hframe =>
    at_done ?_
  unfold Finished
  rw [hdelete]
  exact ⟨t, started_moved_of_some hinv hstarted, ht.le, .inl ⟨dc, hclosed⟩⟩

/-! ### The steps by which writes can be seen -/

theorem inv_flush (hphase : s.phase i = q) (hwritten : ∀ dc, q = .written dc → ∃ r, ph = .done r)
    (hdone : ∀ r, q ≠ .done r) (hdc : dc < s.cache.allocated) (hvalues : o.values = (s.cache.caches dc).values)
    (hheld : ∀ c ≠ i, (s.cache.caches dc).mu = some c → o.mu = some c ∧ o.snapshot = (s.cache.caches dc).snapshot)
    (hsnapshot : o.snapshot = (s.cache.caches dc).snapshot ∧ o.dirty = true ∨ o.snapshot = none ∨
      o.snapshot = some (s.cache.caches dc).values)
    (hat : Frame calls s g i (s.cache.set dc o) (g.flush dc s.now) →
      At calls (s.moved i (s.cache.set dc o) ph) (g.flush dc s.now) i ph) :
    Inv calls (s.moved i (s.cache.set dc o) ph) (g.flush dc s.now) := by
  have hpend : (g.flush dc s.now).pend dc = [] := update_self ..
  have hmap : ((g.flush dc s.now).writes dc).map Prod.fst = g.all dc := by
    simp [History.flush, History.all, comp_def]
  refine inv_of_grows hinv (grows_flush g dc s.now i) rfl rfl
    (fun c hc hmu => ⟨(hheld c hc hmu).1, hvalues, (hheld c hc hmu).2, fun _ => hpend⟩) (fun snap hsnap => ?_) rfl ?_
    ⟨?_, fun h => absurd hpend h, ?_⟩ hat
  · rcases hsnapshot with ⟨hsame, -⟩ | hnone | hnew
    · exact .inl (hsame ▸ hsnap)
    · exact absurd (hnone.symm.trans hsnap) nofun
    · cases hnew.symm.trans hsnap
      exact .inr ⟨_, seenAt_flush hinv hdc⟩
  · exact lists_flush hinv hphase hwritten hdone hdc rfl
  · rw [hvalues, (hinv.caches dc).values, hpend, append_nil, hmap]
    rfl
  · intro hdirty snap hsnap
    rcases hsnapshot with ⟨-, htrue⟩ | hnone | hnew
    · rw [htrue] at hdirty
      cases hdirty
    · exact absurd (hnone.symm.trans hsnap) nofun
    · cases hnew.symm.trans hsnap
      rw [(hinv.caches dc).values, hmap]
      rfl

theorem inv_mark (hphase : s.phase i = .written dc) :
    Inv calls (s.moved i (s.cache.set dc { s.cache.caches dc with dirty := true }) (.done fun _ => none))
      (g.flush dc s.now) := by
  obtain ⟨hwrite, t, huses, hmem⟩ := hinv.at hphase
  refine inv_flush hinv hphase (fun _ _ => ⟨_, rfl⟩) nofun huses.allocated rfl (fun c _ hmu => ⟨hmu, rfl⟩)
    (.inl ⟨rfl, rfl⟩) fun hframe => at_done (finished_of_write hwrite ?_)
  rcases hmem with hpend | ⟨τ, hmem, hτ⟩
  · refine ⟨dc, t, s.now, uses_frame hframe (.inr (hphase ▸ rfl)) huses, ?_, huses.lt.le, Nat.le_refl _⟩
    exact ((grows_flush g dc s.now i).pend i hpend).resolve_left (by simp [History.flush])
  · exact ⟨dc, t, τ, uses_frame hframe (.inr (hphase ▸ rfl)) huses, mem_writes_frame hframe hmem, hτ,
      (hinv.lists.times dc _ hmem).2.le⟩

theorem inv_store (hphase : s.phase i = .locked dc snap) :
    Inv calls (s.moved i (s.cache.set dc { s.cache.caches dc with snapshot := some snap }) (.stored dc snap))
      (g.flush dc s.now) := by
  obtain ⟨hget, ⟨t, huses⟩, hmu, rfl⟩ := hinv.at hphase
  refine inv_flush hinv hphase nofun nofun huses.allocated rfl
    (fun c hc hheld => absurd (some.inj (hmu.symm.trans hheld)) (Ne.symm hc)) (.inr (.inr rfl)) fun hframe =>
    ⟨hget, ⟨s.now, Nat.lt_succ_self _, t, _, s.now, uses_frame hframe (.inr (hphase ▸ rfl)) huses,
      seenAt_flush hinv huses.allocated, huses.lt.le, Nat.le_refl _⟩, ?_⟩
  rw [caches_set]
  exact ⟨hmu, rfl, rfl, update_self ..⟩

theorem inv_drop (hphase : s.phase i = .held dc) :
    Inv calls (s.moved i (s.cache.set dc { s.cache.caches dc with snapshot := none }) (.emptied dc))
      (g.flush dc s.now) := by
  obtain ⟨hdelete, ⟨t, hstarted, ht, hclosed⟩, hmu⟩ := hinv.at hphase
  refine inv_flush hinv hphase nofun nofun (hinv.gens.closed dc i t hclosed).1 rfl
    (fun c hc hheld => absurd (some.inj (hmu.symm.trans hheld)) (Ne.symm hc)) (.inr (.inl rfl)) fun hframe =>
    ⟨hdelete, ⟨t, started_moved_of_some hinv hstarted, Nat.lt_succ_of_lt ht, hclosed⟩, ?_⟩
  rw [caches_set]
  exact ⟨hmu, rfl⟩

theorem inv_write (hphase : s.phase i = .writing dc) (hmu : (s.cache.caches dc).mu = none) : ∃ g', Inv calls (s.moved i
      (s.cache.set dc { s.cache.caches dc with values := (calls i).write (s.cache.caches dc).values })
      (.written dc)) g' := by
  obtain ⟨hwrite, t, huses⟩ := hinv.at hphase
  obtain ⟨hvalues, hpending, hsnapshot⟩ := hinv.caches dc
  have hfold : (calls i).write (s.cache.caches dc).values =
      fold calls ((g.writes dc).map Prod.fst ++ (g.pend dc ++ [i])) := by
    rw [hvalues, ← append_assoc, fold_append]
  have hfree : ∀ c ≠ i, (s.cache.caches dc).mu ≠ some c := fun c _ hheld => absurd (hmu.symm.trans hheld) nofun
  by_cases hhidden : (s.cache.caches dc).dirty = false ∧ (s.cache.caches dc).snapshot ≠ none
  · have hpend : (g.enter dc i).pend dc = g.pend dc ++ [i] := update_self ..
    refine ⟨g.enter dc i, inv_of_grows hinv (grows_enter g dc s.now i) rfl rfl
      (fun c hc hheld => absurd hheld (hfree c hc)) (fun _ => .inl) rfl
      (lists_write hinv huses.allocated rfl hphase hwrite (grows_enter g dc s.now i) fun _ => rfl)
      ⟨?_, fun _ => hhidden, hsnapshot⟩ fun hframe =>
      ⟨hwrite, t, uses_frame hframe (.inr (hphase ▸ rfl)) huses, .inl ?_⟩⟩
    · rw [hpend]
      exact hfold
    · rw [hpend]
      exact mem_append_right _ (mem_singleton_self i)
  · have hpend : ((g.enter dc i).flush dc s.now).pend dc = [] := update_self ..
    have hmap : (((g.enter dc i).flush dc s.now).writes dc).map Prod.fst =
        (g.writes dc).map Prod.fst ++ (g.pend dc ++ [i]) := by
      simp [History.flush, History.enter, comp_def]
    refine ⟨(g.enter dc i).flush dc s.now, inv_of_grows hinv (grows_enter_flush g dc s.now i) rfl rfl
      (fun c hc hheld => absurd hheld (hfree c hc)) (fun _ => .inl) rfl
      (lists_write hinv huses.allocated rfl hphase hwrite (grows_enter_flush g dc s.now i)
        ((g.enter dc i).all_flush dc s.now)) ⟨?_, fun h => absurd hpend h, ?_⟩ fun hframe =>
      ⟨hwrite, t, uses_frame hframe (.inr (hphase ▸ rfl)) huses, .inr ⟨s.now, ?_, huses.lt.le⟩⟩⟩
    · rw [hpend, append_nil, hmap]
      exact hfold
    · intro hdirty snap hsnap
      exact absurd ⟨hdirty, fun hnone => absurd (hnone.symm.trans hsnap) nofun⟩ hhidden
    · simp [History.flush, History.enter]

/-! ### Objects that come and go -/

theorem inv_detach (hphase : s.phase i = .idle)
    (hcall : calls i = .deleteDriver (calls i).driver) (hfound : s.cache.drivers (calls i).driver = some dc) :
    Inv calls (s.moved i (s.cache.detach (calls i).driver i) (.detached dc)) (g.close dc i s.now) := by
  obtain ⟨hdc, howner, hopen⟩ := hinv.gens.attached _ dc hfound
  have hstarted : (s.moved i (s.cache.detach (calls i).driver i) (.detached dc)).started i = some s.now := by
    simp [State.moved, hphase, Phase.begun]
  set g' := g.close dc i s.now
  have hself : g'.closed dc = some (i, s.now) := update_self ..
  have hother : ∀ dc' ≠ dc, g'.closed dc' = g.closed dc' := fun dc' h => update_of_ne h _ _
  have hstays : ∀ dc' z δ, g.closed dc' = some (z, δ) → g'.closed dc' = some (z, δ) := by
    intro dc' z δ hz
    have hne : dc' ≠ dc := by
      rintro rfl
      exact absurd (hopen.symm.trans hz) nofun
    rw [hother dc' hne, hz]
  have hframe : Frame calls s g i (s.cache.detach (calls i).driver i) g' := by
    refine ⟨Nat.le_refl _, fun _ _ => rfl, fun _ _ => rfl, fun dc' hlt hle => absurd hlt (Nat.not_lt.mpr hle), ?_, hstays,
      fun dc' => ⟨[], (append_nil _).symm, nofun⟩, fun dc' c hc => .inl hc, fun dc' c _ hc => hc,
      fun dc' _ c _ hmu => ⟨hmu, rfl, rfl, id⟩, fun dc' snap => .inl⟩
    intro dc' z δ hz
    by_cases h : dc' = dc
    · subst h
      cases hself.symm.trans hz
      exact .inr rfl
    · exact .inl (hother dc' h ▸ hz)
  refine ⟨⟨fun d dc' hd => ?_, fun dc' hdc' hclosed => ?_, fun dc' hdc' => ?_, fun dc' z δ hz => ?_,
    fun dc' hdc' dc'' hdc'' hne howners => ?_⟩, ?_, hinv.caches,
    calls_moved hinv hframe ⟨⟨_, hcall⟩, s.now, hstarted, Nat.lt_succ_self _, hself⟩⟩
  · have hd' : update s.cache.drivers (calls i).driver none d = some dc' := hd
    by_cases h : d = (calls i).driver
    · rw [h, update_self] at hd'
      cases hd'
    · rw [update_of_ne h] at hd'
      obtain ⟨hdc', howner', hopen'⟩ := hinv.gens.attached d dc' hd'
      have hne : dc' ≠ dc := fun heq => h (howner'.symm.trans (heq ▸ howner))
      exact ⟨hdc', howner', (hother dc' hne).trans hopen'⟩
  · have hne : dc' ≠ dc := by
      rintro rfl
      exact absurd (hself.symm.trans hclosed) nofun
    have hpresent := hinv.gens.present dc' hdc' (hother dc' hne ▸ hclosed)
    change update s.cache.drivers (calls i).driver none (g.owner dc') = some dc'
    rw [update_of_ne, hpresent]
    intro heq
    rw [heq, hfound] at hpresent
    exact hne (some.inj hpresent).symm
  · exact Nat.lt_succ_of_lt (hinv.gens.created dc' hdc')
  · by_cases h : dc' = dc
    · subst h
      cases hself.symm.trans hz
      refine ⟨hdc, ?_, hstarted, hinv.gens.created dc' hdc, Nat.lt_succ_self _⟩
      change calls i = .deleteDriver (g.owner dc')
      rw [howner]
      exact hcall
    · obtain ⟨hdc', hcall', hstarted', hlt, hnow⟩ := hinv.gens.closed dc' z δ (hother dc' h ▸ hz)
      exact ⟨hdc', hcall', started_moved_of_some hinv hstarted', hlt, Nat.lt_succ_of_lt hnow⟩
  · exact (hinv.gens.disjoint dc' hdc' dc'' hdc'' hne howners).imp (endsBefore_frame hframe) (endsBefore_frame hframe)
  · have hlists : Lists calls (s.moved i (s.cache.detach (calls i).driver i) (.detached dc)) g :=
      lists_same hinv hphase nofun nofun (Nat.le_refl _)
    exact ⟨hlists.listed, hlists.nodup, hlists.apart, hlists.sorted, hlists.times, hlists.fresh⟩

theorem inv_alloc (hphase : s.phase i = .creating) (hnone : s.cache.drivers (calls i).driver = none) :
    Inv calls (s.moved i (s.cache.alloc (calls i).driver) (.writing s.cache.allocated))
      (g.alloc s.cache.allocated (calls i).driver s.now) := by
  obtain ⟨hupdate, t, hstarted, ht⟩ := hinv.at hphase
  set g' := g.alloc s.cache.allocated (calls i).driver s.now
  have howner : ∀ dc < s.cache.allocated, g'.owner dc = g.owner dc := fun dc hdc => update_of_ne hdc.ne _ _
  have hcreated : ∀ dc < s.cache.allocated, g'.created dc = g.created dc := fun dc hdc => update_of_ne hdc.ne _ _
  have howner' : g'.owner s.cache.allocated = (calls i).driver := update_self ..
  have hcreated' : g'.created s.cache.allocated = s.now := update_self ..
  have hopen : g.closed s.cache.allocated = none := by
    cases hclosed : g.closed s.cache.allocated with
    | none => rfl
    | some closed => exact absurd (hinv.gens.closed _ closed.1 closed.2 hclosed).1 (Nat.lt_irrefl _)
  have hcases : ∀ dc < s.cache.allocated + 1, dc < s.cache.allocated ∨ dc = s.cache.allocated := fun dc hdc =>
    Nat.lt_or_eq_of_le (Nat.le_of_lt_succ hdc)
  have hframe : Frame calls s g i (s.cache.alloc (calls i).driver) g' := by
    refine ⟨Nat.le_succ _, howner, hcreated, fun dc hlt hle => ?_, fun dc z δ => .inl, fun dc z δ => id,
      fun dc => ⟨[], (append_nil _).symm, nofun⟩, fun dc c => .inl, fun dc c _ hc => hc, fun dc hdc c _ hmu => ?_,
      fun dc snap hsnap => ?_⟩
    · rw [(hcases dc hlt).resolve_left (Nat.not_lt.mpr hle)]
      exact hcreated'
    · change (update s.cache.caches s.cache.allocated {} dc).mu = _ ∧
        (update s.cache.caches s.cache.allocated {} dc).values = _ ∧
        (update s.cache.caches s.cache.allocated {} dc).snapshot = _ ∧ _
      rw [update_of_ne hdc.ne]
      exact ⟨hmu, rfl, rfl, id⟩
    · have hsnap' : (update s.cache.caches s.cache.allocated {} dc).snapshot = some snap := hsnap
      by_cases h : dc = s.cache.allocated
      · rw [h, update_self] at hsnap'
        cases hsnap'
      · rw [update_of_ne h] at hsnap'
        exact .inl hsnap'
  refine ⟨⟨fun d dc hd => ?_, fun dc hdc hclosed => ?_, fun dc hdc => ?_, fun dc z δ hz => ?_,
    fun dc hdc dc' hdc' hne howners => ?_⟩, ?_, fun dc => ?_, fun c => ?_⟩
  · have hd' : update s.cache.drivers (calls i).driver (some s.cache.allocated) d = some dc := hd
    by_cases h : d = (calls i).driver
    · rw [h, update_self] at hd'
      cases hd'
      exact ⟨Nat.lt_succ_self _, howner'.trans h.symm, hopen⟩
    · rw [update_of_ne h] at hd'
      obtain ⟨hdc, hown, hclosed⟩ := hinv.gens.attached d dc hd'
      exact ⟨Nat.lt_succ_of_lt hdc, (howner dc hdc).trans hown, hclosed⟩
  · change update s.cache.drivers (calls i).driver (some s.cache.allocated) _ = some dc
    rcases hcases dc hdc with hdc | rfl
    · have hpresent := hinv.gens.present dc hdc hclosed
      rw [howner dc hdc, update_of_ne, hpresent]
      intro heq
      rw [heq, hnone] at hpresent
      cases hpresent
    · rw [howner', update_self]
  · rcases hcases dc hdc with hdc | rfl
    · rw [hcreated dc hdc]
      exact Nat.lt_succ_of_lt (hinv.gens.created dc hdc)
    · rw [hcreated']
      exact Nat.lt_succ_self _
  · obtain ⟨hdc, hdelete, hstarted', hlt, hnow⟩ := hinv.gens.closed dc z δ hz
    rw [howner dc hdc, hcreated dc hdc]
    exact ⟨Nat.lt_succ_of_lt hdc, hdelete, started_moved_of_some hinv hstarted', hlt, Nat.lt_succ_of_lt hnow⟩
  · rcases hcases dc hdc with hdc | rfl
    · rcases hcases dc' hdc' with hdc' | rfl
      · rw [howner dc hdc, howner dc' hdc'] at howners
        rw [hcreated dc hdc, hcreated dc' hdc']
        exact hinv.gens.disjoint dc hdc dc' hdc' hne howners
      · rw [howner dc hdc, howner'] at howners
        rw [hcreated']
        exact .inl (hinv.ended hdc howners hnone)
    · rcases hcases dc' hdc' with hdc' | rfl
      · rw [howner', howner dc' hdc'] at howners
        rw [hcreated']
        exact .inr (hinv.ended hdc' howners.symm hnone)
      · exact absurd rfl hne
  · have hlists : Lists calls (s.moved i (s.cache.alloc (calls i).driver) (.writing s.cache.allocated)) g :=
      lists_same hinv hphase nofun nofun (Nat.le_succ _)
    refine ⟨hlists.listed, hlists.nodup, hlists.apart, hlists.sorted, fun dc w hw => ?_, hlists.fresh⟩
    have hdc : dc < s.cache.allocated := by
      by_contra hge
      have hmem : w.1 ∈ g.all dc := mem_append_left _ (mem_map_of_mem hw)
      rw [hinv.lists.fresh dc (Nat.le_of_not_lt hge)] at hmem
      cases hmem
    rw [hcreated dc hdc]
    exact hlists.times dc w hw
  · change CacheOk calls (update s.cache.caches s.cache.allocated {} dc) _ _
    by_cases h : dc = s.cache.allocated
    · have hall : (g.writes dc).map Prod.fst ++ g.pend dc = [] := hinv.lists.fresh dc h.ge
      obtain ⟨hwrites, hpend⟩ := append_eq_nil_iff.mp hall
      rw [h, update_self, ← h]
      refine ⟨?_, fun hne => absurd hpend hne, fun _ _ => nofun⟩
      change _ = fold calls ((g.writes dc).map Prod.fst ++ g.pend dc)
      rw [hall]
      rfl
    · rw [update_of_ne h]
      exact hinv.caches dc
  · refine calls_moved hinv hframe ?_ c
    refine ⟨?_, t, started_moved_of_some hinv hstarted, Nat.lt_succ_of_lt ht, Nat.lt_succ_self _, howner', ?_⟩
    · cases hcall : calls i <;> simp [hcall, Call.isUpdate, Call.isWrite] at hupdate ⊢
    · exact fun z δ hz => absurd (hopen.symm.trans hz) nofun

/-! ### Every step -/

/-- **A step keeps the invariant**, with a history that goes on. -/
theorem inv_step {s' : State ι} (hstep : step calls s i = some s') : ∃ g', Inv calls s' g' := by
  obtain ⟨⟨m, ph⟩, hact, rfl⟩ := map_eq_some_iff.mp hstep
  change ∃ g', Inv calls (s.moved i m ph) g'
  have hcases : Act i (calls i) s.cache (s.phase i) m ph := act_cases hact
  generalize hphase : s.phase i = q at hcases
  cases hcases with
  | lookWrite hc hfound => exact ⟨g, inv_lookWrite hinv hphase hc hfound⟩
  | lookRead hc hfound => exact ⟨g, inv_lookRead hinv hphase hc hfound⟩
  | miss hc _ => exact ⟨g, inv_miss hinv hphase hc⟩
  | absent hc hnone => exact ⟨g, inv_absent hinv hphase hc hnone⟩
  | detach hc hfound => exact ⟨_, inv_detach hinv hphase hc hfound⟩
  | lookAgain hfound => exact ⟨g, inv_lookAgain hinv hphase hfound⟩
  | alloc hnone => exact ⟨_, inv_alloc hinv hphase hnone⟩
  | write hmu => exact inv_write hinv hphase hmu
  | mark => exact ⟨_, inv_mark hinv hphase⟩
  | up _ => exact ⟨g, inv_up hinv hphase⟩
  | down hdirty => exact ⟨g, inv_down hinv hphase hdirty⟩
  | hit hsnap => exact ⟨g, inv_hit hinv hphase hsnap⟩
  | gone _ => exact ⟨g, inv_gone hinv hphase⟩
  | lock hmu => exact ⟨g, inv_lock hinv hphase hmu⟩
  | store => exact ⟨_, inv_store hinv hphase⟩
  | clear => exact ⟨g, inv_clear hinv hphase⟩
  | unlock => exact ⟨g, inv_unlock hinv hphase⟩
  | lockDetached hmu => exact ⟨g, inv_lockDetached hinv hphase hmu⟩
  | drop => exact ⟨_, inv_drop hinv hphase⟩
  | settle => exact ⟨g, inv_settle hinv hphase⟩
  | release => exact ⟨g, inv_release hinv hphase⟩

omit hinv in
theorem inv_run {events : List ι} (hrun : Run (step calls) (fun _ _ => True) {} events s) : ∃ g, Inv calls s g :=
  hrun.invariant (I := fun s => ∃ g, Inv calls s g) (fun _ _ _ _ hstep ⟨_, hinv⟩ => inv_step hinv hstep)
    ⟨{}, inv_init calls⟩

end

end CoreC.Engine.Cache
