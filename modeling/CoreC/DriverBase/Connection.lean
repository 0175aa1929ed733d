import CoreC.Lib.Runs

/-! # The connection of a driver

`BaseDriver` (`driverbase/driverbase.go`) with the error paths of a driver built on it (`driver/modbus`): the sections
of reads and writes that see an error on the client they have captured, of the reconnect loops, and of one `Stop`.

`handleConnLostIfCurrent` compares the clients in one section and `HandleConnectionLost` tears the connection down in
another, so the client it closes may be a fresh one, and it may run after `Stop` (`torn_down_late`). -/

namespace CoreC.DriverBase.Connection

open Lib.Runs Option

/-! ### The driver -/

inductive ConnState where
  | disconnected
  | connecting
  | connected
  | error
  deriving DecidableEq, Repr

/-- How far `Stop` is: not called, waiting for the loops, about to close the connection, returned. -/
inductive StopPhase where
  | running
  | waiting
  | closing
  | returned
  deriving DecidableEq, Repr

/-- A read or write with the client it has captured: at work, past the comparison of `handleConnLostIfCurrent`, past
the teardown and about to start the loop. -/
inductive Path where
  | using (captured : Option ℕ)
  | teardown (captured : Option ℕ)
  | launch (captured : Option ℕ)
  deriving DecidableEq, Repr

/-- The driver, its reads and writes by thread, and its reconnect loops. Clients are numbered as they are opened;
`closed` says which client was closed on an error, and on which the error was seen. -/
structure BaseDriver where
  state : ConnState
  client : Option ℕ
  opened : ℕ
  waiting : ℕ
  attempting : ℕ := 0
  paths : ℕ → Option Path := fun _ => none
  cancelled : Bool := false
  stop : StopPhase := .running
  closed : List (Option ℕ × ℕ) := []

/-- `Start`: the first attempt, with its outcome. -/
def start (connects : Bool) : BaseDriver :=
  if connects then { state := .connected, client := some 0, opened := 1, waiting := 0 }
  else { state := .connecting, client := none, opened := 0, waiting := 1 }

/-- The sections. Of a read or write: `enter` (capture the client), `refresh` (again), `lost` (an error, and the
comparison), `next` (the rest of `handleConnLostIfCurrent`), `leave`. Of a loop: `wake`, `quit`, `connect`, `refused`.
Of `Stop`: `stop` (cancel), `wait` (the wait group), `close`. -/
inductive Act where
  | enter (thread : ℕ)
  | refresh (thread : ℕ)
  | lost (thread : ℕ)
  | next (thread : ℕ)
  | leave (thread : ℕ)
  | wake
  | quit
  | connect
  | refused
  | stop
  | wait
  | close
  deriving DecidableEq, Repr

variable (s : BaseDriver)

def BaseDriver.goOn (i : ℕ) (path : Option Path) : BaseDriver :=
  { s with paths := Function.update s.paths i path }

/-- The states in which `HandleConnectionLost` does not return at once. -/
def BaseDriver.Tears : Prop := s.state ≠ .connecting ∧ s.state ≠ .error

instance (s : BaseDriver) : Decidable s.Tears := inferInstanceAs (Decidable (_ ∧ _))

/-- The section of `HandleConnectionLost`, with `closeConn`, for an error seen on a client. -/
def BaseDriver.lose (captured : Option ℕ) : BaseDriver :=
  { s with
    state := .error
    client := none
    closed := (s.client.toList.map fun c => (captured, c)) ++ s.closed }

/-- One section of a path, or one event. -/
def step : Act → Option BaseDriver
  | .enter i =>
    match s.paths i, s.client with
    | none, some c => if s.state = .connected then some (s.goOn i (some (.using (some c)))) else none
    | _, _ => none
  | .refresh i =>
    match s.paths i with
    | some (.using _) => some (s.goOn i (some (.using s.client)))
    | _ => none
  | .lost i =>
    match s.paths i with
    | some (.using captured) => if s.client = captured then some (s.goOn i (some (.teardown captured))) else some s
    | _ => none
  | .next i =>
    match s.paths i with
    | some (.teardown captured) =>
      if s.Tears then some ((s.lose captured).goOn i (some (.launch captured)))
      else some (s.goOn i (some (.using captured)))
    | some (.launch captured) => some { s.goOn i (some (.using captured)) with waiting := s.waiting + 1 }
    | _ => none
  | .leave i =>
    match s.paths i with
    | some (.using _) => some (s.goOn i none)
    | _ => none
  | .wake => if 0 < s.waiting then some { s with waiting := s.waiting - 1, attempting := s.attempting + 1 } else none
  | .quit => if s.cancelled ∧ 0 < s.waiting then some { s with waiting := s.waiting - 1 } else none
  | .connect =>
    if 0 < s.attempting then
      some { s with
        attempting := s.attempting - 1
        state := .connected
        client := some s.opened
        opened := s.opened + 1 }
    else none
  | .refused =>
    if 0 < s.attempting then some { s with attempting := s.attempting - 1, waiting := s.waiting + 1 } else none
  | .stop => if s.stop = .running then some { s with stop := .waiting, cancelled := true } else none
  | .wait =>
    if s.stop = .waiting ∧ s.waiting + s.attempting = 0 then some { s with stop := .closing } else none
  | .close =>
    if s.stop = .closing then some { s with stop := .returned, client := none, state := .disconnected } else none

/-! ### What holds in every state -/

/-- An error closes only the client it was seen on, at most one loop is active, and once `Stop` has returned the driver
is disconnected and no loop is active. -/
structure Sound (s : BaseDriver) : Prop where
  closed : ∀ e ∈ s.closed, e.1 = some e.2
  loops : s.waiting + s.attempting ≤ 1
  stopped : s.stop = .returned → s.state = .disconnected ∧ s.waiting + s.attempting = 0

/-- A teardown finds the client it was meant for, in a driver that `Stop` has not closed; a loop is started before
`Stop` has seen the last one end. -/
def Timely : Act → Prop
  | .next i => ∀ captured,
      (s.paths i = some (.teardown captured) → s.Tears → s.client = captured ∧ s.stop ≠ .returned) ∧
      (s.paths i = some (.launch captured) → s.stop = .running ∨ s.stop = .waiting)
  | _ => True

def Launching (i : ℕ) : Prop := ∃ captured, s.paths i = some (.launch captured)

/-- What carries `Sound` through a run: a loop that is active or about to be started is the only one, and then the
driver is not connected. -/
structure Inv (s : BaseDriver) : Prop extends Sound s where
  single : ∀ i j, Launching s i → Launching s j → i = j
  launching : ∀ i, Launching s i → s.waiting + s.attempting = 0 ∧ s.state ≠ .connected
  connected : s.state = .connected → s.waiting + s.attempting = 0
  disconnected : s.state = .disconnected → s.stop = .returned
  closing : s.stop = .closing → s.waiting + s.attempting = 0

section

variable {s s' : BaseDriver} {i j : ℕ} {captured : Option ℕ} {path : Option Path}

theorem inv_start (connects : Bool) : Inv (start connects) := by
  have hidle : ∀ i, ¬ Launching (start connects) i := by
    rintro i ⟨captured, h⟩
    cases connects <;> exact absurd h nofun
  have hstop : (start connects).stop = .running := by cases connects <;> rfl
  exact {
    closed := by cases connects <;> exact fun e he => absurd he List.not_mem_nil
    loops := by cases connects <;> decide
    stopped := fun h => absurd (hstop.symm.trans h) nofun
    single := fun i _ hi => absurd hi (hidle i)
    launching := fun i hi => absurd hi (hidle i)
    connected := by cases connects <;> decide
    disconnected := by cases connects <;> decide
    closing := fun h => absurd (hstop.symm.trans h) nofun }

theorem launching_goOn (hpath : ∀ c, path ≠ some (.launch c)) (h : Launching (s.goOn i path) j) :
    Launching s j ∧ j ≠ i := by
  obtain ⟨captured, h⟩ := h
  dsimp only [BaseDriver.goOn] at h
  by_cases hji : j = i
  · subst hji
    rw [Function.update_self] at h
    exact absurd h (hpath captured)
  · rw [Function.update_of_ne hji] at h
    exact ⟨⟨captured, h⟩, hji⟩

theorem Inv.goOn (h : Inv s) (i : ℕ) (hpath : ∀ c, path ≠ some (.launch c)) : Inv (s.goOn i path) where
  toSound := ⟨h.closed, h.loops, h.stopped⟩
  single j k hj hk := h.single j k (launching_goOn hpath hj).1 (launching_goOn hpath hk).1
  launching j hj := h.launching j (launching_goOn hpath hj).1
  connected := h.connected
  disconnected := h.disconnected
  closing := h.closing

theorem Inv.fewer (h : Inv s) {w a : ℕ} (hle : w + a ≤ s.waiting + s.attempting) :
    Inv { s with waiting := w, attempting := a } where
  closed := h.closed
  loops := Nat.le_trans hle h.loops
  stopped hstop := by
    have hstopped := h.stopped hstop
    exact ⟨hstopped.1, by dsimp only; omega⟩
  single := h.single
  launching j hj := by
    have hlaunching := h.launching j hj
    exact ⟨by dsimp only; omega, hlaunching.2⟩
  connected hstate := by
    have hnone := h.connected hstate
    dsimp only
    omega
  disconnected := h.disconnected
  closing hstop := by
    have hnone := h.closing hstop
    dsimp only
    omega

/-- A teardown of the client it was meant for. Before `Stop` has returned a driver that is torn down was connected, so
that no loop is active or about to be started. -/
theorem Inv.lose (h : Inv s) (i : ℕ) (htears : s.Tears) (hclient : s.client = captured) (hstop : s.stop ≠ .returned) :
    Inv ((s.lose captured).goOn i (some (.launch captured))) := by
  have hstate : s.state = .connected := by
    cases hs : s.state with
    | disconnected => exact absurd (h.disconnected hs) hstop
    | connecting => exact absurd hs htears.1
    | connected => rfl
    | error => exact absurd hs htears.2
  have hnone := h.connected hstate
  have honly : ∀ j, Launching ((s.lose captured).goOn i (some (.launch captured))) j → j = i := by
    rintro j ⟨c, hj⟩
    by_contra hji
    dsimp only [BaseDriver.goOn] at hj
    rw [Function.update_of_ne hji] at hj
    exact (h.launching j ⟨c, hj⟩).2 hstate
  exact {
    closed := by
      intro e he
      rcases List.mem_append.1 he with he | he
      · obtain ⟨c, hc, rfl⟩ := List.mem_map.1 he
        exact hclient.symm.trans (mem_toList.1 hc)
      · exact h.closed e he
    loops := h.loops
    stopped := fun hret => absurd hret hstop
    single := fun j k hj hk => (honly j hj).trans (honly k hk).symm
    launching := fun j _ => ⟨hnone, nofun⟩
    connected := nofun
    disconnected := nofun
    closing := h.closing }

theorem Inv.launch (h : Inv s) (hpath : s.paths i = some (.launch captured))
    (hstop : s.stop = .running ∨ s.stop = .waiting) :
    Inv { s.goOn i (some (.using captured)) with waiting := s.waiting + 1 } := by
  obtain ⟨hnone, hstate⟩ := h.launching i ⟨captured, hpath⟩
  have hidle : ∀ j, ¬ Launching (s.goOn i (some (.using captured))) j := by
    intro j hj
    obtain ⟨hj, hji⟩ := launching_goOn (by simp) hj
    exact hji (h.single j i hj ⟨captured, hpath⟩)
  have hopen : s.stop ≠ .returned ∧ s.stop ≠ .closing := by
    rcases hstop with hstop | hstop <;> simp [hstop]
  exact {
    closed := h.closed
    loops := by dsimp only [BaseDriver.goOn]; omega
    stopped := fun hret => absurd hret hopen.1
    single := fun j k hj => absurd hj (hidle j)
    launching := fun j hj => absurd hj (hidle j)
    connected := fun hconn => absurd hconn hstate
    disconnected := h.disconnected
    closing := fun hclosing => absurd hclosing hopen.2 }

theorem Inv.connect (h : Inv s) (hattempt : 0 < s.attempting) :
    Inv { s with attempting := s.attempting - 1, state := .connected, client := some s.opened,
                 opened := s.opened + 1 } where
  closed := h.closed
  loops := by
    have := h.loops
    dsimp only
    omega
  stopped hstop := by
    have := (h.stopped hstop).2
    omega
  single := h.single
  launching j hj := by
    have := (h.launching j hj).1
    omega
  connected _ := by
    have := h.loops
    dsimp only
    omega
  disconnected := nofun
  closing hstop := by
    have := h.closing hstop
    omega

theorem inv_step {a : Act} (h : Inv s) (hord : Timely s a) (hstep : step s a = some s') : Inv s' := by
  cases a with
  | enter i =>
    cases hpath : s.paths i with
    | some p => simp only [step, hpath, reduceCtorEq] at hstep
    | none =>
      cases hclient : s.client with
      | none => simp only [step, hpath, hclient, reduceCtorEq] at hstep
      | some c =>
        simp only [step, hpath, hclient, ite_none_right_eq_some, some.injEq] at hstep
        exact hstep.2 ▸ h.goOn i nofun
  | refresh i | leave i =>
    match hpath : s.paths i with
    | some (.using c) =>
      simp only [step, hpath, some.injEq] at hstep
      exact hstep ▸ h.goOn i nofun
    | none | some (.teardown c) | some (.launch c) => simp only [step, hpath, reduceCtorEq] at hstep
  | lost i =>
    match hpath : s.paths i with
    | some (.using c) =>
      simp only [step, hpath] at hstep
      split_ifs at hstep with hclient
      · exact some.inj hstep ▸ h.goOn i nofun
      · exact some.inj hstep ▸ h
    | none | some (.teardown c) | some (.launch c) => simp only [step, hpath, reduceCtorEq] at hstep
  | next i =>
    match hpath : s.paths i with
    | some (.teardown c) =>
      simp only [step, hpath] at hstep
      split_ifs at hstep with htears
      · obtain ⟨hclient, hstop⟩ := (hord c).1 hpath htears
        exact some.inj hstep ▸ h.lose i htears hclient hstop
      · exact some.inj hstep ▸ h.goOn i nofun
    | some (.launch c) =>
      simp only [step, hpath, some.injEq] at hstep
      exact hstep ▸ h.launch hpath ((hord c).2 hpath)
    | none | some (.using c) => simp only [step, hpath, reduceCtorEq] at hstep
  | connect =>
    simp only [step, ite_none_right_eq_some, some.injEq] at hstep
    obtain ⟨hattempt, rfl⟩ := hstep
    exact h.connect hattempt
  | refused =>
    simp only [step, ite_none_right_eq_some, some.injEq] at hstep
    obtain ⟨hattempt, rfl⟩ := hstep
    exact h.fewer (by omega)
  | stop =>
    simp only [step, ite_none_right_eq_some, some.injEq] at hstep
    obtain ⟨hstop, rfl⟩ := hstep
    exact { closed := h.closed, loops := h.loops, stopped := nofun, single := h.single, launching := h.launching,
            connected := h.connected, closing := nofun,
            disconnected := fun hstate => absurd (hstop.symm.trans (h.disconnected hstate)) nofun }
  | wait =>
    simp only [step, ite_none_right_eq_some, some.injEq] at hstep
    obtain ⟨⟨hstop, hnone⟩, rfl⟩ := hstep
    exact { closed := h.closed, loops := h.loops, stopped := nofun, single := h.single, launching := h.launching,
            connected := h.connected, closing := fun _ => hnone,
            disconnected := fun hstate => absurd (hstop.symm.trans (h.disconnected hstate)) nofun }
  | close =>
    simp only [step, ite_none_right_eq_some, some.injEq] at hstep
    obtain ⟨hstop, rfl⟩ := hstep
    have hnone := h.closing hstop
    exact { closed := h.closed, loops := h.loops, stopped := fun _ => ⟨rfl, hnone⟩, single := h.single,
            launching := fun j hj => ⟨hnone, nofun⟩, connected := nofun, closing := nofun,
            disconnected := fun _ => rfl }
  | wake | quit =>
    simp only [step, ite_none_right_eq_some, some.injEq] at hstep
    obtain ⟨hwaiting, rfl⟩ := hstep
    exact h.fewer (by omega)

end

/-! ### Whole runs -/

/-- **Every state that a run of timely sections reaches is sound.** -/
theorem teardown_run (connects : Bool) (acts : List Act) (s : BaseDriver)
    (hrun : Run step Timely (start connects) acts s) : Sound s :=
  (hrun.invariant (I := Inv) (fun _ _ _ hord hstep h => inv_step h hord hstep) (inv_start connects)).toSound

/-- A read loses its client, a loop connects again, and the driver is stopped. -/
theorem teardown_run_reconnected : ∃ s, Run step Timely (start true)
      [.enter 0, .lost 0, .next 0, .next 0, .wake, .connect, .leave 0, .stop, .wait, .close] s ∧
    s.closed = [(some 0, 0)] ∧ s.opened = 2 ∧ s.stop = .returned ∧ Sound s := by
  refine Run.exists_of_forall (teardown_run true _) ⟨_, .cons ?_ rfl (.cons ?_ rfl (.cons ?_ rfl (.cons ?_ rfl
    (.cons ?_ rfl (.cons ?_ rfl (.cons ?_ rfl (.cons ?_ rfl (.cons ?_ rfl (.cons ?_ rfl (.nil _)))))))))),
    fun hsound => ⟨rfl, rfl, rfl, hsound⟩⟩
  all_goals simp [Timely, BaseDriver.goOn, BaseDriver.lose, start]

/-- **A teardown comes too late.** Of two reads that have seen an error on one client the second closes the client of
the reconnect; and a read that has compared its client before `Stop` starts a loop after it. -/
theorem torn_down_late : (∃ s, Run step (fun _ _ => True) (start true)
        [.enter 0, .enter 1, .lost 0, .lost 1, .next 0, .next 0, .wake, .connect, .next 1] s ∧
      (some 0, 1) ∈ s.closed ∧ ¬ Sound s) ∧
    ∃ s, Run step (fun _ _ => True) (start true) [.enter 0, .lost 0, .stop, .wait, .close, .next 0, .next 0] s ∧
      s.stop = .returned ∧ s.state = .error ∧ s.waiting = 1 ∧ ¬ Sound s := by
  constructor
  · refine ⟨_, .cons trivial rfl (.cons trivial rfl (.cons trivial rfl (.cons trivial rfl (.cons trivial rfl
      (.cons trivial rfl (.cons trivial rfl (.cons trivial rfl (.cons trivial rfl (.nil _))))))))),
      List.mem_cons_self, fun h => ?_⟩
    exact absurd (h.closed _ List.mem_cons_self) (by decide)
  · refine ⟨_, .cons trivial rfl (.cons trivial rfl (.cons trivial rfl (.cons trivial rfl (.cons trivial rfl
      (.cons trivial rfl (.cons trivial rfl (.nil _))))))), rfl, rfl, rfl, fun h => ?_⟩
    exact absurd (h.stopped rfl).1 nofun

end CoreC.DriverBase.Connection
