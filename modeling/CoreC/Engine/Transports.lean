import CoreC.Lib.Runs
import CoreC.Lib.Slots

/-! # Transports under concurrent changes

`AddTransport` and `RemoveTransport` (`engine/transport_manager.go`), called by the management API and by discovery, as
sequences of critical sections. `AddTransport` takes the old instance out of the map, installs its own, and registers
the cancel function of its listeners, in three sections. Two calls on one name that both find nothing to take out
install one over the other (`added_twice`). -/

namespace CoreC.Engine.Transports

open Lib.Runs Function List Option
open Lib.Slots (of_update_none of_update_some)

/-! ### The maps and the calls -/

/-- A transport whose `Start` has succeeded. -/
structure Instance where
  id : ℕ
  name : String
  deriving DecidableEq, Repr

/-- A call in progress, by what it does next. `AddTransport`: take the old instance out, stop it, install the new one,
register its listeners. `RemoveTransport`: stop what it has taken out. -/
inductive Call where
  | take (t : Instance)
  | stopOld (t : Instance) (old cancel : Option Instance)
  | install (t : Instance)
  | listen (t : Instance)
  | stopRemoved (old : Instance) (cancel : Option Instance)
  deriving DecidableEq, Repr

/-- `transportManager`: the maps, the calls of the threads, and what has happened to the instances and to the contexts
of their listeners. -/
structure TransportManager where
  transports : String → Option Instance := fun _ => none
  transportCancels : String → Option Instance := fun _ => none
  calls : ℕ → Option Call := fun _ => none
  started : List Instance := []
  stopped : List Instance := []
  listening : List Instance := []
  cancelled : List Instance := []

/-- The sections. `add` begins a call whose instance has been created, initialised and started; a call that fails there
changes nothing. -/
inductive Act where
  | add (thread : ℕ) (name : String)
  | remove (thread : ℕ) (name : String)
  | next (thread : ℕ)

variable (s : TransportManager)

def advance : Call → TransportManager × Option Call
  | .take t =>
    match s.transports t.name with
    | none => (s, some (.stopOld t none none))
    | some old =>
      ({ s with transports := update s.transports t.name none,
                transportCancels := update s.transportCancels t.name none },
        some (.stopOld t (some old) (s.transportCancels t.name)))
  | .stopOld t old cancel =>
    ({ s with stopped := old.toList ++ s.stopped, cancelled := cancel.toList ++ s.cancelled }, some (.install t))
  | .install t => ({ s with transports := update s.transports t.name (some t) }, some (.listen t))
  | .listen t =>
    ({ s with transportCancels := update s.transportCancels t.name (some t), listening := t :: s.listening }, none)
  | .stopRemoved old cancel =>
    ({ s with stopped := old :: s.stopped, cancelled := cancel.toList ++ s.cancelled }, none)

/-- One section of a call. -/
def step : Act → Option TransportManager
  | .add thread name =>
    match s.calls thread with
    | some _ => none
    | none =>
      let t : Instance := ⟨s.started.length, name⟩
      some { s with started := t :: s.started, calls := update s.calls thread (some (.take t)) }
  | .remove thread name =>
    match s.calls thread with
    | some _ => none
    | none =>
      match s.transports name with
      | none => some s
      | some old =>
        some { s with
          transports := update s.transports name none
          transportCancels := update s.transportCancels name none
          calls := update s.calls thread (some (.stopRemoved old (s.transportCancels name))) }
  | .next thread =>
    match s.calls thread with
    | none => none
    | some call =>
      let (s', rest) := advance s call
      some { s' with calls := update s.calls thread rest }

/-! ### What is left to do -/

def Call.pending : Call → List Instance
  | .take t => [t]
  | .stopOld t old _ => t :: old.toList
  | .install t => [t]
  | .listen _ => []
  | .stopRemoved old _ => [old]

def Call.cancels : Call → List Instance
  | .stopOld _ _ cancel => cancel.toList
  | .stopRemoved _ cancel => cancel.toList
  | _ => []

def Held (todo : Call → List Instance) (calls : ℕ → Option Call) (t : Instance) : Prop :=
  ∃ i c, calls i = some c ∧ t ∈ todo c

/-- No call installs over another transport, or listens for one that is gone. -/
def Orderly : Act → Prop
  | .next thread => ∀ t, (s.calls thread = some (.install t) → s.transports t.name = none) ∧
      (s.calls thread = some (.listen t) → s.transports t.name = some t)
  | _ => True

def Settled (map : String → Option Instance) (done : List Instance) (todo : Call → List Instance)
    (calls : ℕ → Option Call) (t : Instance) : Prop :=
  map t.name = some t ∨ t ∈ done ∨ Held todo calls t

/-- Every instance and every context of listeners is registered, ended or in the hands of a call; a registered cancel
function is that of the registered instance. -/
structure Kept (s : TransportManager) : Prop where
  instances : ∀ t ∈ s.started, Settled s.transports s.stopped Call.pending s.calls t
  contexts : ∀ t ∈ s.listening, Settled s.transportCancels s.cancelled Call.cancels s.calls t
  paired : ∀ n t, s.transportCancels n = some t → s.transports n = some t
  named : ∀ n t, s.transports n = some t → t.name = n

section

variable {s s' : TransportManager} {map : String → Option Instance} {done : List Instance}
  {calls : ℕ → Option Call} {todo : Call → List Instance} {t u old : Instance} {i : ℕ} {n : String} {c : Call}
  {rest : Option Call}

theorem held_self (ht : t ∈ todo c) : Held todo (update calls i (some c)) t :=
  ⟨i, c, update_self .., ht⟩

theorem Settled.goOn (h : Settled map done todo calls t) (new : List Instance)
    (hmove : ∀ c, calls i = some c → t ∈ todo c → t ∈ new ∨ ∃ c', rest = some c' ∧ t ∈ todo c') :
    Settled map (new ++ done) todo (update calls i rest) t := by
  rcases h with h | h | ⟨j, c, hj, ht⟩
  · exact .inl h
  · exact .inr (.inl (mem_append_right _ h))
  · by_cases hji : j = i
    · rcases hmove c (hji ▸ hj) ht with hnew | ⟨c', rfl, ht'⟩
      · exact .inr (.inl (mem_append_left _ hnew))
      · exact .inr (.inr (held_self ht'))
    · exact .inr (.inr ⟨j, c, by rw [update_of_ne hji, hj], ht⟩)

theorem Settled.erase (h : Settled map done todo calls t) (hmap : map n = some t → Held todo calls t) :
    Settled (update map n none) done todo calls t := by
  rcases h with h | h
  · by_cases hn : t.name = n
    · exact .inr (.inr (hmap (hn ▸ h)))
    · exact .inl ((update_of_ne hn ..).trans h)
  · exact .inr h

theorem Settled.put (h : Settled map done todo calls t) (hfree : map u.name = some t → t = u) :
    Settled (update map u.name (some u)) done todo calls t := by
  rcases h with h | h
  · by_cases hn : t.name = u.name
    · obtain rfl : t = u := hfree (hn ▸ h)
      exact .inl (update_self ..)
    · exact .inl ((update_of_ne hn ..).trans h)
  · exact .inr h

theorem settled_put (t : Instance) : Settled (update map t.name (some t)) done todo calls t :=
  .inl (update_self ..)

theorem Kept.takeOut (hs : Kept s) (hold : s.transports n = some old) (hpending : old ∈ c.pending)
    (hcancels : ∀ t, s.transportCancels n = some t → t ∈ c.cancels)
    (hsub : ∀ c₀, s.calls i = some c₀ → c₀.pending ⊆ c.pending ∧ c₀.cancels ⊆ c.cancels) :
    Kept { s with
      transports := update s.transports n none
      transportCancels := update s.transportCancels n none
      calls := update s.calls i (some c) } where
  instances t ht := by
    refine ((hs.instances t ht).goOn [] fun c₀ hc₀ hmem => .inr ⟨c, rfl, (hsub c₀ hc₀).1 hmem⟩).erase fun h => ?_
    obtain rfl : t = old := some.inj (h.symm.trans hold)
    exact held_self hpending
  contexts t ht :=
    ((hs.contexts t ht).goOn [] fun c₀ hc₀ hmem => .inr ⟨c, rfl, (hsub c₀ hc₀).2 hmem⟩).erase
      fun h => held_self (hcancels t h)
  paired m t h := by
    obtain ⟨hm, h⟩ := of_update_none h
    exact (update_of_ne hm ..).trans (hs.paired m t h)
  named m t h := hs.named m t (of_update_none h).2

theorem Kept.stop (hs : Kept s) (hcall : s.calls i = some c) (stops cancels : List Instance)
    (hpending : ∀ t ∈ c.pending, t ∈ stops ∨ ∃ c', rest = some c' ∧ t ∈ c'.pending)
    (hcancels : c.cancels ⊆ cancels) :
    Kept { s with
      stopped := stops ++ s.stopped
      cancelled := cancels ++ s.cancelled
      calls := update s.calls i rest } where
  instances t ht := by
    refine (hs.instances t ht).goOn stops fun c₀ hc₀ hmem => ?_
    obtain rfl : c = c₀ := some.inj (hcall.symm.trans hc₀)
    exact hpending t hmem
  contexts t ht := by
    refine (hs.contexts t ht).goOn cancels fun c₀ hc₀ hmem => ?_
    obtain rfl : c = c₀ := some.inj (hcall.symm.trans hc₀)
    exact .inl (hcancels hmem)
  paired := hs.paired
  named := hs.named

/-- An instance installed where none is registered hides nothing: a registered cancel function would be that of the
registered instance. -/
theorem Kept.install (hs : Kept s) (hcall : s.calls i = some (.install t)) (hfree : s.transports t.name = none) :
    Kept { s with
      transports := update s.transports t.name (some t)
      calls := update s.calls i (some (.listen t)) } where
  instances u hu := by
    by_cases hut : u = t
    · exact hut ▸ settled_put u
    · refine ((hs.instances u hu).goOn [] fun c₀ hc₀ hmem => ?_).put fun h => absurd (hfree.symm.trans h) nofun
      obtain rfl := some.inj (hcall.symm.trans hc₀)
      exact absurd (mem_singleton.1 hmem) hut
  contexts u hu := by
    refine (hs.contexts u hu).goOn [] fun c₀ hc₀ hmem => ?_
    obtain rfl := some.inj (hcall.symm.trans hc₀)
    exact absurd hmem not_mem_nil
  paired m u h := by
    have hu := hs.paired m u h
    have hm : m ≠ t.name := by
      rintro rfl
      exact absurd (hfree.symm.trans hu) nofun
    exact (update_of_ne hm ..).trans hu
  named m u h := by
    rcases of_update_some h with ⟨rfl, rfl⟩ | ⟨-, h⟩
    · rfl
    · exact hs.named m u h

theorem Kept.listen (hs : Kept s) (hcall : s.calls i = some (.listen t)) (hreg : s.transports t.name = some t) :
    Kept { s with
      transportCancels := update s.transportCancels t.name (some t)
      listening := t :: s.listening
      calls := update s.calls i none } where
  instances u hu := by
    refine (hs.instances u hu).goOn [] fun c₀ hc₀ hmem => ?_
    obtain rfl := some.inj (hcall.symm.trans hc₀)
    exact absurd hmem not_mem_nil
  contexts u hu := by
    rcases mem_cons.1 hu with rfl | hu
    · exact settled_put u
    · refine ((hs.contexts u hu).goOn [] fun c₀ hc₀ hmem => ?_).put fun h => ?_
      · obtain rfl := some.inj (hcall.symm.trans hc₀)
        exact absurd hmem not_mem_nil
      · exact some.inj ((hs.paired _ u h).symm.trans hreg)
  paired m u h := by
    rcases of_update_some h with ⟨rfl, rfl⟩ | ⟨-, h⟩
    · exact hreg
    · exact hs.paired m u h
  named := hs.named

theorem Kept.add (hs : Kept s) (hidle : s.calls i = none) (t : Instance) :
    Kept { s with started := t :: s.started, calls := update s.calls i (some (.take t)) } where
  instances u hu := by
    rcases mem_cons.1 hu with rfl | hu
    · exact .inr (.inr (held_self (mem_singleton.2 rfl)))
    · exact (hs.instances u hu).goOn [] fun c₀ hc₀ => absurd (hidle.symm.trans hc₀) nofun
  contexts u hu := (hs.contexts u hu).goOn [] fun c₀ hc₀ => absurd (hidle.symm.trans hc₀) nofun
  paired := hs.paired
  named := hs.named

theorem kept_step {a : Act} (hs : Kept s) (hord : Orderly s a) (hstep : step s a = some s') : Kept s' := by
  cases a with
  | add thread name =>
    cases hcall : s.calls thread with
    | some c => simp only [step, hcall, reduceCtorEq] at hstep
    | none =>
      simp only [step, hcall, some.injEq] at hstep
      subst hstep
      exact hs.add hcall _
  | remove thread name =>
    cases hcall : s.calls thread with
    | some c => simp only [step, hcall, reduceCtorEq] at hstep
    | none =>
      cases hold : s.transports name with
      | none =>
        simp only [step, hcall, hold, some.injEq] at hstep
        exact hstep ▸ hs
      | some old =>
        simp only [step, hcall, hold, some.injEq] at hstep
        subst hstep
        refine hs.takeOut hold (mem_singleton.2 rfl) (fun t ht => ?_) fun c₀ hc₀ => ?_
        · exact mem_toList.2 ht
        · exact absurd (hcall.symm.trans hc₀) nofun
  | next thread =>
    cases hcall : s.calls thread with
    | none => simp only [step, hcall, reduceCtorEq] at hstep
    | some call =>
      simp only [step, hcall, some.injEq] at hstep
      subst hstep
      cases call with
      | take t =>
        cases hold : s.transports t.name with
        | none =>
          simp only [advance, hold]
          refine hs.stop hcall [] [] (fun u hu => .inr ⟨_, rfl, ?_⟩) (nil_subset _)
          exact hu
        | some old =>
          simp only [advance, hold]
          refine hs.takeOut hold (mem_cons_of_mem _ (mem_singleton.2 rfl)) (fun u hu => ?_) fun c₀ hc₀ => ?_
          · exact mem_toList.2 hu
          · obtain rfl := some.inj (hcall.symm.trans hc₀)
            refine ⟨fun u hu => ?_, nil_subset _⟩
            rw [mem_singleton.1 hu]
            exact mem_cons_self
      | stopOld t old cancel =>
        refine hs.stop hcall old.toList cancel.toList (fun u hu => ?_) (Subset.refl _)
        rcases mem_cons.1 hu with rfl | hu
        · exact .inr ⟨_, rfl, mem_singleton.2 rfl⟩
        · exact .inl hu
      | install t => exact hs.install hcall ((hord t).1 hcall)
      | listen t => exact hs.listen hcall ((hord t).2 hcall)
      | stopRemoved old cancel =>
        exact hs.stop hcall [old] cancel.toList (fun u hu => .inl hu) (Subset.refl _)

end

theorem kept_init : Kept {} where
  instances _ h := absurd h not_mem_nil
  contexts _ h := absurd h not_mem_nil
  paired _ _ h := absurd h nofun
  named _ _ h := absurd h nofun

/-! ### Whole runs -/

/-- Nothing is leaked: every started instance is registered or stopped, and the listeners of an instance that is not
registered are cancelled. -/
def NoLeak : Prop :=
  (∀ t ∈ s.started, s.transports t.name = some t ∨ t ∈ s.stopped) ∧
    ∀ t ∈ s.listening, s.transports t.name = some t ∨ t ∈ s.cancelled

/-- In every run whose sections are orderly nothing is leaked once all calls have returned. -/
theorem no_leak_run (acts : List Act) (s : TransportManager) (hrun : Run step Orderly {} acts s)
    (hreturned : ∀ i, s.calls i = none) : NoLeak s := by
  have hkept : Kept s := hrun.invariant (I := Kept) (fun _ _ _ hord hstep hs => kept_step hs hord hstep) kept_init
  have hheld : ∀ todo t, ¬ Held todo s.calls t := by
    rintro todo t ⟨i, c, hc, -⟩
    exact absurd (hc.symm.trans (hreturned i)) nofun
  refine ⟨fun t ht => ?_, fun t ht => ?_⟩
  · rcases hkept.instances t ht with h | h | h
    · exact .inl h
    · exact .inr h
    · exact absurd h (hheld _ _)
  · rcases hkept.contexts t ht with h | h | h
    · exact .inl (hkept.paired _ _ h)
    · exact .inr h
    · exact absurd h (hheld _ _)

/-- Thread `i` adds a transport from beginning to end. -/
def addActs (i : ℕ) (name : String) : List Act := [.add i name, .next i, .next i, .next i, .next i]

/-- A transport is added and replaced. -/
theorem no_leak_run_replaced : ∃ s, Run step Orderly {} (addActs 0 "mqtt" ++ addActs 0 "mqtt") s ∧
    s.transports "mqtt" = some ⟨1, "mqtt"⟩ ∧ s.stopped = [⟨0, "mqtt"⟩] ∧ s.cancelled = [⟨0, "mqtt"⟩] ∧ NoLeak s := by
  refine Run.exists_of_forall (no_leak_run _) ⟨_, .cons ?_ rfl (.cons ?_ rfl (.cons ?_ rfl (.cons ?_ rfl (.cons ?_ rfl
    (.cons ?_ rfl (.cons ?_ rfl (.cons ?_ rfl (.cons ?_ rfl (.cons ?_ rfl (.nil _)))))))))),
    fun hkept => ⟨rfl, rfl, rfl, hkept fun i => ?_⟩⟩
  all_goals simp [Orderly]

/-- **Two calls add a transport of one name**: both find nothing to replace, and the second installs its instance over
that of the first, which nothing stops any more. -/
theorem added_twice : ∃ s, Run step (fun _ _ => True) {}
      [.add 0 "mqtt", .add 1 "mqtt", .next 0, .next 1, .next 0, .next 1, .next 0, .next 1, .next 0, .next 1] s ∧
    (∀ i, s.calls i = none) ∧ s.transports "mqtt" = some ⟨1, "mqtt"⟩ ∧ ⟨0, "mqtt"⟩ ∈ s.started ∧ s.stopped = [] ∧
    ⟨0, "mqtt"⟩ ∈ s.listening ∧ s.cancelled = [] ∧ ¬ NoLeak s := by
  refine ⟨_, .cons trivial rfl (.cons trivial rfl (.cons trivial rfl (.cons trivial rfl (.cons trivial rfl
    (.cons trivial rfl (.cons trivial rfl (.cons trivial rfl (.cons trivial rfl (.cons trivial rfl
      (.nil _)))))))))), fun i => ?_, rfl, ?_, rfl, ?_, rfl, fun h => ?_⟩
  · simp only [update_apply]
    split_ifs <;> rfl
  · exact mem_cons_of_mem _ (mem_singleton.2 rfl)
  · exact mem_cons_of_mem _ (mem_singleton.2 rfl)
  · rcases h.1 ⟨0, "mqtt"⟩ (mem_cons_of_mem _ (mem_singleton.2 rfl)) with hreg | hstopped
    · exact absurd hreg (by decide)
    · exact absurd hstopped not_mem_nil

end CoreC.Engine.Transports
