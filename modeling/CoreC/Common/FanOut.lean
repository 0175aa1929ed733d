import Mathlib.Data.Int.Notation
import Mathlib.Data.List.Perm.Basic
import CoreC.Lib.GoChan
import CoreC.Lib.Runs

/-! # The fan-out of events

`Observable` (`common/observable/observable.go`): a goroutine takes the values of a source channel and sends each to
the channels of the subscribers, under the lock; when the source is closed it closes them all, and leaves them in the
map. An unsubscribe function that runs after that finds its channel in the map and closes it a second time
(`closed_twice`). `fan_out_safe_iff`: that is the only way for a run to panic on the channel of a subscriber. -/

namespace CoreC.Common.FanOut

open Lib.GoChan Lib.Runs List Option

variable {α : Type}

/-! ### The goroutine and the callers -/

/-- What the goroutine `start` does next. It holds the lock while it sends a value to the subscribers in `todo` and
while it closes their channels. -/
inductive Phase (α : Type) where
  | ranging
  | received (v : α)
  | sending (v : α) (todo : List ℕ)
  | ending
  | closing (todo : List ℕ)
  | returned
  deriving DecidableEq, Repr

/-- `Observable`: the channels of the subscribers by their numbers, the keys of `subs`, the source with what is in its
buffer, and the goroutine. `ended` has the channels that the goroutine has closed. -/
structure Observable (α : Type) where
  source : List α := []
  sourceClosed : Bool := false
  channels : Channels α := {}
  subs : List ℕ := []
  dropped : ℕ := 0
  start : Phase α := .ranging
  ended : List ℕ := []

def defaultSubscriberBuffer : ℕ := 128

/-- What happens: a value enters the source, the source is closed, the goroutine makes its next step (`order` is that
of the keys of the map), a caller subscribes, runs an unsubscribe function or takes a value from its channel. -/
inductive Act (α : Type) where
  | send (v : α)
  | closeSource
  | next (order : List ℕ)
  | subscribeWithBuffer (size : ℤ)
  | unsub (ch : ℕ)
  | receive (ch : ℕ)

def Phase.unlocked : Phase α → Bool
  | .sending .. => false
  | .closing _ => false
  | _ => true

variable (s : Observable α)

/-- One step of `start`: the `range` over the source, a send to one subscriber or its drop, a close. -/
def advance (order : List ℕ) : Option (Observable α) :=
  match s.start with
  | .ranging =>
    match s.source with
    | v :: rest => some { s with source := rest, start := .received v }
    | [] => if s.sourceClosed then some { s with start := .ending } else none
  | .received v => if order.Perm s.subs then some { s with start := .sending v order } else none
  | .sending _ [] => some { s with start := .ranging }
  | .sending v (ch :: todo) =>
    let (channels, outcome) := trySend s.channels ch v
    some { s with channels := channels, start := .sending v todo,
                  dropped := if outcome = .full then s.dropped + 1 else s.dropped }
  | .ending => if order.Perm s.subs then some { s with start := .closing order } else none
  | .closing [] => some { s with start := .returned }
  | .closing (ch :: todo) =>
    some { s with channels := close s.channels ch, start := .closing todo, ended := ch :: s.ended }
  | .returned => none

/-- One step. `SubscribeWithBuffer` and the unsubscribe functions wait for the lock. -/
def step : Act α → Option (Observable α)
  | .send v => if s.sourceClosed then none else some { s with source := s.source ++ [v] }
  | .closeSource => if s.sourceClosed then none else some { s with sourceClosed := true }
  | .next order => advance s order
  | .subscribeWithBuffer size =>
    if s.start.unlocked then
      let size := if size ≤ 0 then defaultSubscriberBuffer else size.toNat
      some { s with channels := make s.channels size, subs := s.channels.made :: s.subs }
    else none
  | .unsub ch =>
    if s.start.unlocked then
      if ch ∈ s.subs then some { s with subs := s.subs.erase ch, channels := close s.channels ch } else some s
    else none
  | .receive ch =>
    match tryReceive s.channels ch with
    | some (_, channels) => some { s with channels := channels }
    | none => none

/-- Nobody unsubscribes from a stream that has ended. -/
def BeforeEnd : Act α → Prop
  | .unsub ch => ch ∈ s.subs → ch ∉ s.ended
  | _ => True

/-! ### What is closed -/

def Phase.Fits (subs ended : List ℕ) : Phase α → Prop
  | .sending _ todo => ended = [] ∧ ∀ ch ∈ todo, ch ∈ subs
  | .closing todo => todo.Nodup ∧ ∀ ch ∈ todo, ch ∈ subs ∧ ch ∉ ended
  | .returned => True
  | _ => ended = []

/-- A channel in the map is closed exactly if the goroutine has closed it. -/
structure Tracked (s : Observable α) : Prop where
  nodup : s.subs.Nodup
  made : ∀ ch ∈ s.subs, ch < s.channels.made
  closes_lt : ∀ ch ∈ s.channels.closes, ch < s.channels.made
  ended_closed : ∀ ch ∈ s.ended, ch ∈ s.channels.closes
  closed_ended : ∀ ch ∈ s.subs, ch ∈ s.channels.closes → ch ∈ s.ended
  fits : s.start.Fits s.subs s.ended

theorem tracked_init : Tracked ({} : Observable α) :=
  ⟨nodup_nil, forall_mem_nil _, forall_mem_nil _, forall_mem_nil _, forall_mem_nil _, rfl⟩

variable {s : Observable α} {p : Phase α}

theorem fits_of_unlocked {subs subs' ended : List ℕ} (hp : p.unlocked = true)
    (h : p.Fits subs ended) : p.Fits subs' ended := by
  cases p with
  | sending | closing => cases hp
  | _ => exact h

theorem Tracked.move (h : Tracked s) (hp : p.Fits s.subs s.ended) {source : List α}
    {sourceClosed : Bool} : Tracked { s with start := p, source := source, sourceClosed := sourceClosed } :=
  ⟨h.nodup, h.made, h.closes_lt, h.ended_closed, h.closed_ended, hp⟩

theorem Tracked.buffers (h : Tracked s) {channels : Channels α} {n : ℕ} (hcloses : channels.closes = s.channels.closes)
    (hmade : channels.made = s.channels.made)
    (hp : p.Fits s.subs s.ended) : Tracked { s with channels := channels, start := p, dropped := n } := by
  refine ⟨h.nodup, ?_, ?_, ?_, ?_, hp⟩
  · rw [hmade]; exact h.made
  · rw [hmade, hcloses]; exact h.closes_lt
  · rw [hcloses]; exact h.ended_closed
  · rw [hcloses]; exact h.closed_ended

theorem tracked_subscribe (h : Tracked s) (hlock : s.start.unlocked = true) (size : ℕ) :
    Tracked { s with channels := make s.channels size, subs := s.channels.made :: s.subs } where
  nodup := nodup_cons.mpr ⟨fun hmem => absurd (h.made _ hmem) (Nat.lt_irrefl _), h.nodup⟩
  made ch hch := by
    rcases mem_cons.mp hch with rfl | hch
    · exact Nat.lt_succ_self _
    · exact Nat.lt_succ_of_lt (h.made ch hch)
  closes_lt ch hch := Nat.lt_succ_of_lt (h.closes_lt ch hch)
  ended_closed := h.ended_closed
  closed_ended ch hch hclosed := by
    rcases mem_cons.mp hch with rfl | hch
    · exact absurd (h.closes_lt _ hclosed) (Nat.lt_irrefl _)
    · exact h.closed_ended ch hch hclosed
  fits := fits_of_unlocked hlock h.fits

theorem tracked_unsub (h : Tracked s) (hlock : s.start.unlocked = true) {ch : ℕ}
    (hch : ch ∈ s.subs) : Tracked { s with subs := s.subs.erase ch, channels := close s.channels ch } where
  nodup := h.nodup.erase ch
  made c hc := h.made c (mem_of_mem_erase hc)
  closes_lt c hc := by
    rcases mem_cons.mp hc with rfl | hc
    · exact h.made c hch
    · exact h.closes_lt c hc
  ended_closed c hc := mem_cons_of_mem _ (h.ended_closed c hc)
  closed_ended c hc hclosed := by
    obtain ⟨hne, hmem⟩ := h.nodup.mem_erase_iff.mp hc
    exact h.closed_ended c hmem (mem_of_ne_of_mem hne hclosed)
  fits := fits_of_unlocked hlock h.fits

theorem tracked_close (h : Tracked s) {ch : ℕ} {todo : List ℕ} (hstart : s.start = .closing (ch :: todo)) :
    Tracked { s with channels := close s.channels ch, start := .closing todo, ended := ch :: s.ended } := by
  have hfits := h.fits
  rw [hstart] at hfits
  obtain ⟨hnodup, htodo⟩ := hfits
  obtain ⟨hnew, hrest⟩ := nodup_cons.mp hnodup
  refine ⟨h.nodup, h.made, ?_, ?_, ?_, hrest, ?_⟩
  · intro c hc
    rcases mem_cons.mp hc with rfl | hc
    · exact h.made c (htodo c mem_cons_self).1
    · exact h.closes_lt c hc
  · intro c hc
    rcases mem_cons.mp hc with rfl | hc
    · exact mem_cons_self
    · exact mem_cons_of_mem _ (h.ended_closed c hc)
  · intro c hc hclosed
    rcases mem_cons.mp hclosed with rfl | hclosed
    · exact mem_cons_self
    · exact mem_cons_of_mem _ (h.closed_ended c hc hclosed)
  · intro c hc
    obtain ⟨hsub, hended⟩ := htodo c (mem_cons_of_mem _ hc)
    refine ⟨hsub, fun hmem => ?_⟩
    rcases mem_cons.mp hmem with rfl | hmem
    · exact hnew hc
    · exact hended hmem

theorem advance_spec {s' : Observable α} {order : List ℕ} (hstep : advance s order = some s') (h : Tracked s) :
    Tracked s' ∧ (Safe s.channels → Safe s'.channels) := by
  have hfits := h.fits
  unfold advance at hstep
  cases hstart : s.start with
  | ranging =>
    rw [hstart] at hfits
    simp only [hstart] at hstep
    cases hsource : s.source with
    | cons v rest =>
      simp only [hsource, some.injEq] at hstep
      subst hstep
      exact ⟨h.move (p := .received v) hfits, id⟩
    | nil =>
      simp only [hsource, ite_none_right_eq_some, some.injEq] at hstep
      obtain ⟨-, rfl⟩ := hstep
      exact ⟨h.move (p := .ending) hfits, id⟩
  | received v =>
    rw [hstart] at hfits
    simp only [hstart, ite_none_right_eq_some, some.injEq] at hstep
    obtain ⟨hperm, rfl⟩ := hstep
    exact ⟨h.move (p := .sending v order) ⟨hfits, fun ch hch => hperm.mem_iff.mp hch⟩, id⟩
  | ending =>
    rw [hstart] at hfits
    simp only [hstart, ite_none_right_eq_some, some.injEq] at hstep
    obtain ⟨hperm, rfl⟩ := hstep
    have hended : s.ended = [] := hfits
    refine ⟨h.move (p := .closing order) ⟨hperm.nodup_iff.mpr h.nodup, fun ch hch => ?_⟩, id⟩
    exact ⟨hperm.mem_iff.mp hch, hended ▸ not_mem_nil⟩
  | returned => simp only [hstart] at hstep; cases hstep
  | sending v todo =>
    rw [hstart] at hfits
    obtain ⟨hended, htodo⟩ := hfits
    cases todo with
    | nil =>
      simp only [hstart, some.injEq] at hstep
      subst hstep
      exact ⟨h.move (p := .ranging) hended, id⟩
    | cons ch todo =>
      simp only [hstart, some.injEq] at hstep
      subst hstep
      refine ⟨h.buffers (by simp) (by simp) ⟨hended, fun c hc => htodo c (mem_cons_of_mem _ hc)⟩, fun hsafe => ?_⟩
      -- nothing is closed before the source is
      have hopen : ch ∉ s.channels.closes := fun hclosed =>
        not_mem_nil (hended ▸ h.closed_ended ch (htodo ch mem_cons_self) hclosed)
      exact safe_trySend.mpr ⟨hopen, hsafe⟩
  | closing todo =>
    rw [hstart] at hfits
    cases todo with
    | nil =>
      simp only [hstart, some.injEq] at hstep
      subst hstep
      exact ⟨h.move (p := .returned) trivial, id⟩
    | cons ch todo =>
      simp only [hstart, some.injEq] at hstep
      subst hstep
      refine ⟨tracked_close h hstart, fun hsafe => safe_close.mpr ⟨fun hclosed => ?_, hsafe⟩⟩
      obtain ⟨hsub, hnot⟩ := hfits.2 ch mem_cons_self
      exact hnot (h.closed_ended ch hsub hclosed)

/-- A step keeps track of what is closed; it panics on no channel exactly if an unsubscribe function does not come after
the goroutine's close. -/
theorem step_spec {s' : Observable α} {a : Act α} (hstep : step s a = some s') (h : Tracked s) :
    Tracked s' ∧ (Safe s.channels → (Safe s'.channels ↔ BeforeEnd s a)) := by
  cases a with
  | next order =>
    obtain ⟨htracked, hsafe⟩ := advance_spec hstep h
    exact ⟨htracked, fun hs => iff_of_true (hsafe hs) trivial⟩
  | subscribeWithBuffer size =>
    simp only [step, ite_none_right_eq_some, some.injEq] at hstep
    obtain ⟨hlock, rfl⟩ := hstep
    exact ⟨tracked_subscribe h hlock _, fun hsafe => iff_of_true (safe_make.mpr hsafe) trivial⟩
  | unsub ch =>
    simp only [step, ite_none_right_eq_some] at hstep
    obtain ⟨hlock, hstep⟩ := hstep
    by_cases hch : ch ∈ s.subs
    · rw [if_pos hch] at hstep
      cases hstep
      refine ⟨tracked_unsub h hlock hch, fun hsafe => ?_⟩
      rw [safe_close, and_iff_left hsafe]
      constructor
      · exact fun hopen _ hended => hopen (h.ended_closed ch hended)
      · exact fun hbefore hclosed => hbefore hch (h.closed_ended ch hch hclosed)
    · rw [if_neg hch] at hstep
      cases hstep
      exact ⟨h, fun hsafe => iff_of_true hsafe fun hmem => absurd hmem hch⟩
  | receive ch =>
    simp only [step] at hstep
    cases hreceive : tryReceive s.channels ch with
    | none => simp only [hreceive] at hstep; cases hstep
    | some r =>
      simp only [hreceive, some.injEq] at hstep
      subst hstep
      obtain ⟨hcloses, hmade, -⟩ := tryReceive_rest hreceive
      refine ⟨h.buffers hcloses hmade h.fits, fun hsafe => iff_of_true ?_ trivial⟩
      exact (safe_tryReceive hreceive).mpr hsafe
  | send | closeSource =>
    simp only [step, ite_none_left_eq_some, some.injEq] at hstep
    obtain ⟨-, rfl⟩ := hstep
    exact ⟨h.move h.fits, fun hsafe => iff_of_true hsafe trivial⟩

/-! ### Every interleaving -/

/-- **No panic on the channel of a subscriber.** In a run, every such channel is closed at most once and nothing is
sent on a closed one, up to the last step, exactly if no unsubscribe function finds one that the goroutine has closed.
-/
theorem fan_out_safe_iff {acts : List (Act α)} {s : Observable α} (hrun : Run step (fun _ _ => True) {} acts s) :
    Run step (fun s a => ∀ s', step s a = some s' → Safe s'.channels) {} acts s ↔ Run step BeforeEnd {} acts s := by
  refine Run.iff_of_step (I := fun s => Safe s.channels) (J := Tracked) ?_ ?_ hrun ⟨nodup_nil, rfl⟩ tracked_init
  · exact fun s a s' hstep h => (step_spec hstep h).1
  · exact fun s a s' hstep hsafe h => (step_spec hstep h).2 hsafe

/-- A subscriber gets a value and leaves, then the source ends: the goroutine has nothing to close. -/
theorem fan_out_safe_left_early : ∃ s : Observable ℕ,
    Run step (fun s a => ∀ s', step s a = some s' → Safe s'.channels) {} [.subscribeWithBuffer 0, .send 7, .next [],
      .next [0], .next [], .next [], .unsub 0, .closeSource, .next [], .next [], .next []] s ∧
    s.start = .returned ∧ s.channels.closes = [0] ∧ s.channels.queue 0 = [7] := by
  refine ⟨_, (fan_out_safe_iff ?_).mpr (.cons trivial rfl (.cons trivial rfl (.cons trivial rfl (.cons trivial rfl
    (.cons trivial rfl (.cons trivial rfl (.cons (fun _ => not_mem_nil) rfl (.cons trivial rfl (.cons trivial rfl
    (.cons trivial rfl (.cons trivial rfl (.nil _)))))))))))), rfl, rfl, rfl⟩
  exact .cons trivial rfl (.cons trivial rfl (.cons trivial rfl (.cons trivial rfl (.cons trivial rfl (.cons trivial rfl
    (.cons trivial rfl (.cons trivial rfl (.cons trivial rfl (.cons trivial rfl (.cons trivial rfl (.nil _)))))))))))

/-- The source ends, the goroutine closes the channel of the one subscriber, and its unsubscribe function closes the
channel again. -/
theorem closed_twice : ∃ s : Observable ℕ,
    Run step (fun _ _ => True) {} [.subscribeWithBuffer 0, .closeSource, .next [], .next [0], .next [], .next [],
      .unsub 0] s ∧ s.channels.closes = [0, 0] ∧ ¬ Safe s.channels := by
  refine ⟨_, .cons trivial rfl (.cons trivial rfl (.cons trivial rfl (.cons trivial rfl (.cons trivial rfl
    (.cons trivial rfl (.cons trivial rfl (.nil _))))))), rfl, by decide⟩

end CoreC.Common.FanOut
