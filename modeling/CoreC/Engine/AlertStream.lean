import CoreC.Engine.Alerts

/-! # The stream of alert events

`record`, `ack` and `sweep` (`engine/alerts.go`) put their events into the history under the lock and publish them after
they have given it up. A call that takes the lock in between can publish its event first, so that the stream tells
another story than the history (`acked_before_fired`). -/

namespace CoreC.Engine.Alerts

open Core.Types Lib.Runs Function List

variable (key : String)

/-- The events of the key. -/
def eventsOf (events : List AlertEvent) : List AlertEvent := events.filter (·.alert.key = key)

theorem eventsOf_append (a b : List AlertEvent) :
    eventsOf key (a ++ b) = eventsOf key a ++ eventsOf key b := filter_append a b

/-- The buffer of `eventCh` has room for the event that a call may publish. -/
def Roomy (s : AlertManager) : Act → Prop
  | .next _ _ => s.eventCh.length < alertEventBufferSize
  | _ => True

/-- A section with events of the key waits until those of the others are published. -/
def InTurn (s : AlertManager) : Act → Prop
  | .next thread order => ∀ call s' rest, s.calls thread = some call → call.waits = true →
      advance s thread order call = some (s', rest) → eventsOf key (pending rest) ≠ [] →
      ∀ j ≠ thread, eventsOf key (pending (s.calls j)) = []
  | _ => True

/-- What is not published of the key is with one call, and comes last. -/
def Streamed (s : AlertManager) : Prop :=
  ∃ owner, eventsOf key s.log = eventsOf key s.published ++ eventsOf key (pending (s.calls owner)) ∧
    ∀ j ≠ owner, eventsOf key (pending (s.calls j)) = []

variable {s : AlertManager} {order : List String} {key : String} {thread : ℕ} {s₁ : AlertManager} {rest : Option Call}

theorem streamed_section {call : Call} (hcall : s.calls thread = some call)
    (hwaits : call.waits = true) (hadvance : advance s thread order call = some (s₁, rest))
    (hturn : InTurn key s (.next thread order))
    (h : Streamed key s) : Streamed key { s₁ with calls := update s.calls thread rest } := by
  obtain ⟨owner, hlog, hothers⟩ := h
  obtain ⟨hlog₁, hpublished₁, -⟩ := advance_section hcall hwaits hadvance
  have hidle : eventsOf key (pending (s.calls thread)) = [] := by
    rw [hcall]
    cases call <;> first | rfl | cases hwaits
  by_cases hrest : eventsOf key (pending rest) = []
  · -- the section is about other keys
    have hsame : ∀ j, eventsOf key (pending (update s.calls thread rest j)) = eventsOf key (pending (s.calls j)) := by
      intro j
      by_cases hj : j = thread
      · subst hj
        rw [update_self, hrest, hidle]
      · rw [update_of_ne hj]
    refine ⟨owner, ?_, fun j hj => (hsame j).trans (hothers j hj)⟩
    rw [hsame, hlog₁, hpublished₁, eventsOf_append, hrest, append_nil]
    exact hlog
  · have hnone := hturn call s₁ rest hcall hwaits hadvance hrest
    have howner : eventsOf key (pending (s.calls owner)) = [] := by
      by_cases hj : owner = thread
      · rw [hj]; exact hidle
      · exact hnone owner hj
    refine ⟨thread, ?_, fun j hj => ?_⟩
    · dsimp only
      rw [update_self, hlog₁, hpublished₁, eventsOf_append, hlog, howner, append_nil]
    · dsimp only
      rw [update_of_ne hj]
      exact hnone j hj

theorem streamed_publish {call : Call} (hcall : s.calls thread = some call)
    (hwaits : call.waits = false) (hadvance : advance s thread order call = some (s₁, rest))
    (hroom : s.eventCh.length < alertEventBufferSize)
    (h : Streamed key s) : Streamed key { s₁ with calls := update s.calls thread rest } := by
  obtain ⟨owner, hlog, hothers⟩ := h
  obtain ⟨-, hlog₁, hpublishes⟩ := advance_publishes hwaits hadvance
  rw [← hcall] at hpublishes
  -- the events that the call had to publish are those that it has just published and those that it has left
  obtain ⟨now, hnow, hpublished⟩ : ∃ now, eventsOf key (pending (s.calls thread)) = now ++ eventsOf key (pending rest) ∧
      eventsOf key s₁.published = eventsOf key s.published ++ now := by
    rcases hpublishes with ⟨hsame, hpublished⟩ | ⟨ev, hcons, hpublished⟩
    · exact ⟨[], by rw [hsame, nil_append], by rw [hpublished, append_nil]⟩
    · refine ⟨eventsOf key [ev], ?_, ?_⟩
      · rw [hcons, ← singleton_append, eventsOf_append]
      · rw [hpublished, if_pos hroom, eventsOf_append]
  by_cases howner : thread = owner
  · subst howner
    refine ⟨thread, ?_, fun j hj => ?_⟩
    · dsimp only
      rw [update_self, hlog₁, hlog, hnow, hpublished, append_assoc]
    · dsimp only
      rw [update_of_ne hj]
      exact hothers j hj
  · have hidle := hothers thread howner
    rw [hnow, append_eq_nil_iff] at hidle
    obtain ⟨rfl, hrest⟩ := hidle
    rw [append_nil] at hpublished
    refine ⟨owner, ?_, fun j hj => ?_⟩
    · dsimp only
      rw [update_of_ne (Ne.symm howner), hlog₁, hlog, hpublished]
    · dsimp only
      by_cases hjt : j = thread
      · rw [hjt, update_self]
        exact hrest
      · rw [update_of_ne hjt]
        exact hothers j hj

/-- **One step** keeps the stream behind the history. -/
theorem streamed_step {s' : AlertManager} {a : Act} (hcond : Roomy s a ∧ InTurn key s a) (hstep : step s a = some s')
    (h : Streamed key s) : Streamed key s' := by
  rcases step_cases hstep with ⟨thread, order, call, s₁, rest, rfl, hcall, hadvance, rfl⟩ |
    ⟨-, hlog, hpublished, hpending⟩
  · cases hwaits : call.waits with
    | true => exact streamed_section hcall hwaits hadvance hcond.2 h
    | false => exact streamed_publish hcall hwaits hadvance hcond.1 h
  · obtain ⟨owner, hsplit, hothers⟩ := h
    refine ⟨owner, ?_, fun j hj => (congrArg _ (hpending j)).trans (hothers j hj)⟩
    rw [hlog, hpublished, hpending]
    exact hsplit

/-- **The stream follows the history.** In a run in which the buffer never fills and a section puts an event of the
key into the history only while no other call has one to publish, the events of the key enter `eventCh` in the order
of the history, and in the end all of them. -/
theorem stream_follows_history {activeWindow clock : ℤ} {acts : List Act} {s : AlertManager} {key : String}
    (hrun : Run step (fun s a => Roomy s a ∧ InTurn key s a) (newAlertManager activeWindow clock) acts s) :
    eventsOf key s.published <+: eventsOf key s.log ∧
      ((∀ j, eventsOf key (pending (s.calls j)) = []) → eventsOf key s.published = eventsOf key s.log) := by
  obtain ⟨owner, hlog, -⟩ := hrun.invariant (I := Streamed key) (fun _ _ _ hP hstep hI => streamed_step hP hstep hI)
    ⟨0, rfl, fun _ _ => rfl⟩
  refine ⟨⟨_, hlog.symm⟩, fun hdone => ?_⟩
  rw [hlog, hdone owner, append_nil]

theorem inTurn_of_idle (h : ∀ j ≠ thread, pending (s.calls j) = []) : InTurn key s (.next thread order) := by
  intro _ _ _ _ _ _ _ j hj
  rw [h j hj]
  rfl

/-- An alert fires, its event is published, and then it is acknowledged. -/
theorem stream_follows_history_acked : ∃ (point : DataPoint) (s : AlertManager),
    Run step (fun s a => Roomy s a ∧ InTurn (alertKey "high" "plc" "level") s a) (newAlertManager 10 0)
      [.record 0 "high" point, .next 0 [], .next 0 [], .next 0 [], .ack 1 (alertKey "high" "plc" "level"), .next 1 [],
        .next 1 []] s ∧
    kinds (alertKey "high" "plc" "level") s.published = [.fired, .acked] ∧
    eventsOf (alertKey "high" "plc" "level") s.published <+: eventsOf (alertKey "high" "plc" "level") s.log := by
  let point : DataPoint := ⟨"plc", "", "", "level", .bool true, .bool, .good, 0, [], false⟩
  have hroom : ∀ n < 3, n < alertEventBufferSize := by decide
  refine ⟨point, Run.exists_of_forall (fun _ hrun => (stream_follows_history hrun).1)
    ⟨_, .cons ⟨trivial, trivial⟩ rfl (.cons ⟨hroom 0 (by decide), inTurn_of_idle ?_⟩ rfl
    (.cons ⟨hroom 0 (by decide), inTurn_of_idle ?_⟩ rfl (.cons ⟨hroom 0 (by decide), inTurn_of_idle ?_⟩ rfl
    (.cons ⟨trivial, trivial⟩ rfl (.cons ⟨hroom 1 (by decide), inTurn_of_idle ?_⟩ rfl
    (.cons ⟨hroom 1 (by decide), inTurn_of_idle ?_⟩ rfl (.nil _))))))), fun hfollows => ⟨rfl, hfollows⟩⟩⟩
  all_goals
    intro j hj
    rcases j with _ | _ | j <;> first | rfl | exact absurd rfl hj

/-- The `fired` event is in the history, and another thread acknowledges the alert and publishes its event before the
first one publishes. -/
theorem acked_before_fired : ∃ (point : DataPoint) (s : AlertManager),
    Run step Roomy (newAlertManager 10 0) [.record 0 "high" point, .next 0 [], .next 0 [],
      .ack 1 (alertKey "high" "plc" "level"), .next 1 [], .next 1 [], .next 0 []] s ∧
    kinds (alertKey "high" "plc" "level") s.log = [.fired, .acked] ∧
    kinds (alertKey "high" "plc" "level") s.published = [.acked, .fired] := by
  let point : DataPoint := ⟨"plc", "", "", "level", .bool true, .bool, .good, 0, [], false⟩
  have hroom : ∀ n < 3, n < alertEventBufferSize := by decide
  refine ⟨point, _, .cons trivial rfl (.cons (hroom 0 (by decide)) rfl (.cons (hroom 0 (by decide)) rfl (.cons trivial rfl
    (.cons (hroom 0 (by decide)) rfl (.cons (hroom 0 (by decide)) rfl (.cons (hroom 1 (by decide)) rfl (.nil _))))))),
    rfl, rfl⟩

end CoreC.Engine.Alerts
