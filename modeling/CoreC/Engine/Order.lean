import CoreC.Engine.Accounting

/-! # The order of the batches of a batcher

The batches that the flush path hands over come in the order in which `publish` accepted their points. The flush loop
empties the queue before it takes the partial buffer, and takes it only if the queue is still empty; what is enqueued
after the loop has returned is never handed over.

* `moves_of_step`: a step removes points from those that are `live`, or adds the newest one at their end. -/

namespace CoreC.Engine.Order

open Engine.Accounting Engine.Batcher Lib.Runs List

variable {α : Type} {c : Settings} {s s' : State α} {a : Act α} {hs : List (Batch α)} {l : List (Entry α)}

/-! ### Hand-overs -/

def loopHands (c : Settings) (s : State α) : FlightAct → List (Batch α)
  | .publish _ => [Loop.held s.loop]
  | .push _ => if c.offline then [Loop.held s.loop] else []
  | _ => []

def stopHands (c : Settings) (s : State α) : FlightAct → List (Batch α)
  | .publish _ => [Stop.held s.stop]
  | .push _ => if c.offline then [Stop.held s.stop] else []
  | _ => []

/-- **What a step hands** to `PublishBatch` or to the offline buffer. -/
def handedOver (c : Settings) (s : State α) : Act α → List (Batch α)
  | .loop (.flight f) => loopHands c s f
  | .stop (.flight _ f) => stopHands c s f
  | _ => []

/-- The batches handed over, one for each attempt. -/
def handovers (c : Settings) : State α → List (Act α) → List (Batch α)
  | _, [] => []
  | s, a :: as =>
    match step c s a with
    | some s' => handedOver c s a ++ handovers c s' as
    | none => []

/-! ### What may still be handed over -/

/-- The queue and the batch on its way to it, as long as the flush loop reads the queue. -/
def waiting (s : State α) : List (Entry α) :=
  match s.loop with
  | .exited => []
  | _ => s.flushBatches.flatten ++ Publisher.held s.publisher

def behind (s : State α) : List (Entry α) := waiting s ++ (s.buffer ++ Stop.held s.stop)

/-- **The points that may still be handed over**, oldest first. -/
def live (s : State α) : List (Entry α) := Loop.held s.loop ++ behind s

def entered (s : State α) : Act α → List (Entry α)
  | .publish (.enter p) => [⟨s.calls, p⟩]
  | _ => []

/-- **How a step moves the points.** -/
structure Moves (s : State α) (a : Act α) (s' : State α) : Prop where
  live : (live s').Sublist (live s ++ entered s a)
  calls : s'.calls = s.calls + (entered s a).length
  loop : Loop.held s'.loop = Loop.held s.loop ∨ Loop.held s.loop = [] ∨ (Order.live s').Sublist (behind s)
  stop : Stop.held s'.stop = Stop.held s.stop ∨ Stop.held s.stop = [] ∨ Order.live s' = []
  accepted : (s'.accepted ++ Publisher.caller s'.publisher).Sublist
    (s.accepted ++ Publisher.caller s.publisher ++ entered s a)

theorem waiting_of_ne (h : s.loop ≠ .exited) : waiting s = s.flushBatches.flatten ++ Publisher.held s.publisher := by
  unfold waiting
  cases hl : s.loop with
  | exited => exact absurd hl h
  | _ => rfl

theorem Moves.same (henter : entered s a = []) (hlive : Order.live s' = Order.live s) (hcalls : s'.calls = s.calls)
    (hloop : Loop.held s'.loop = Loop.held s.loop ∨ Loop.held s.loop = [])
    (hstop : Stop.held s'.stop = Stop.held s.stop ∨ Stop.held s.stop = [])
    (haccepted : s'.accepted ++ Publisher.caller s'.publisher = s.accepted ++ Publisher.caller s.publisher) :
    Moves s a s' where
  live := by
    rw [hlive, henter, append_nil]
  calls := by
    rw [hcalls, henter, length_nil, Nat.add_zero]
  loop := hloop.imp_right .inl
  stop := hstop.imp_right .inl
  accepted := by
    rw [haccepted, henter, append_nil]

theorem live_settle (s : State α) (batch : Batch α) (o : Outcome) : Order.live (s.settle batch o) = Order.live s := by
  cases o <;> rfl

theorem settle_fields (s : State α) (batch : Batch α) (o : Outcome) :
    (s.settle batch o).calls = s.calls ∧ (s.settle batch o).accepted = s.accepted ∧
      (s.settle batch o).publisher = s.publisher ∧ (s.settle batch o).stop = s.stop ∧
      (s.settle batch o).loop = s.loop := by
  cases o <;> exact ⟨rfl, rfl, rfl, rfl, rfl⟩

theorem stop_held_of_running (hc : Control s) (hs : s.stopped = false) : Stop.held s.stop = [] := by
  have hidle : s.stop = .idle := by
    by_contra hne
    rw [hc.stopped.mpr hne] at hs
    cases hs
  rw [hidle]
  rfl

theorem moves_of_step (hc : Control s) (hstep : step c s a = some s') : Moves s a s' := by
  cases trans_of_step hstep with
  | reject p hp hs =>
    exact ⟨sublist_append_left _ _, rfl, .inl rfl, .inl rfl, sublist_append_left _ _⟩
  | append p hp hs hlen =>
    have hstop := stop_held_of_running hc hs
    refine ⟨?_, rfl, .inl rfl, .inl rfl, ?_⟩
    · show (Loop.held s.loop ++ (waiting s ++ (s.buffer ++ [(⟨s.calls, p⟩ : Entry α)] ++ Stop.held s.stop))).Sublist
        (Loop.held s.loop ++ (waiting s ++ (s.buffer ++ Stop.held s.stop)) ++ [(⟨s.calls, p⟩ : Entry α)])
      simp only [hstop, append_nil, append_assoc, Sublist.refl]
    · simp only [hp, Publisher.caller, entered, append_nil, Sublist.refl]
  | fill p hp hs hlen =>
    have hstop := stop_held_of_running hc hs
    refine ⟨?_, rfl, .inl rfl, .inl rfl, ?_⟩
    · by_cases hl : s.loop = .exited
      · simp only [Order.live, behind, waiting, hl, hstop, Loop.held, append_nil, nil_sublist]
      · simp only [Order.live, behind, waiting_of_ne, ne_eq, hl, not_false_eq_true, hp, hstop, Publisher.held, entered,
          append_nil, append_assoc, Sublist.refl]
    · simp only [hp, Publisher.caller, entered, append_nil, Sublist.refl]
  | @send e batch act hp hroom =>
    have hheld : Publisher.held s.publisher = batch ∧ Publisher.caller s.publisher = [e] ∧
        entered s (.publish act) = [] := by
      rcases hp with ⟨hp, rfl⟩ | ⟨hp, rfl⟩ <;> rw [hp] <;> exact ⟨rfl, rfl, rfl⟩
    refine Moves.same hheld.2.2 ?_ rfl (.inl rfl) (.inl rfl) ?_
    · by_cases hl : s.loop = .exited
      · simp only [Order.live, behind, waiting, hl]
      · simp only [Order.live, behind, waiting_of_ne, ne_eq, hl, not_false_eq_true]
        rw [hheld.1]
        simp only [Publisher.held, flatten_append, flatten_singleton, append_nil]
    · rw [hheld.2.1]
      simp only [Publisher.caller, append_nil]
  | full hp _ | spared hp _ =>
    refine Moves.same rfl ?_ rfl (.inl rfl) (.inl rfl) ?_
    · simp only [Order.live, behind, waiting, hp, Publisher.held]
    · simp only [hp, Publisher.caller]
  | @evict e batch oldest rest hp hq =>
    refine ⟨?_, rfl, .inl rfl, .inl rfl, ?_⟩
    · by_cases hl : s.loop = .exited
      · simp only [Order.live, behind, waiting, hl, entered, append_nil, Sublist.refl]
      · simp only [Order.live, behind, waiting_of_ne, ne_eq, hl, not_false_eq_true, hp, hq, Publisher.held, entered,
          append_nil, flatten_cons, append_assoc]
        exact (sublist_append_right _ _).append_left _
    · simp [hp, Publisher.caller, entered, append_nil, Sublist.refl]
  | drop hp hroom => exact absurd (hc.room _ _ hp) hroom
  | @receive after batch rest hl hq =>
    have hold : s.loop ≠ .exited := hl ▸ loop_ne_exited after
    have hheld : Loop.held s.loop = [] := by
      rw [hl]
      exact held_after after
    refine Moves.same rfl ?_ rfl (.inr hheld) (.inl rfl) rfl
    simp only [Order.live, behind, waiting_of_ne, ne_eq, hold, reduceCtorEq, not_false_eq_true]
    rw [hheld, hq]
    simp only [Loop.held, Flight.batch_start, flatten_cons, append_assoc, nil_append]
  | tick hl _ | done hl _ | drained hl _ | defer hl _ _ =>
    refine Moves.same rfl ?_ rfl (.inr (by rw [hl]; rfl)) (.inl rfl) rfl
    simp only [Order.live, behind, waiting, hl, Loop.held]
  | exit hl hq =>
    refine ⟨?_, rfl, .inr (.inl (by rw [hl]; rfl)), .inl rfl, ?_⟩
    · simp only [Order.live, behind, waiting, hl, Loop.held, entered, append_nil, nil_append]
      exact sublist_append_right _ _
    · simp only [entered, append_nil, Sublist.refl]
  | flush hl hp hb hq =>
    refine Moves.same rfl ?_ rfl (.inr (by rw [hl]; rfl)) (.inl rfl) rfl
    simp only [Order.live, behind, waiting, hl, hp, hq, Loop.held, Publisher.held, Flight.batch_start,
      flatten_nil, nil_append]
  | flight hl hf =>
    refine Moves.same rfl ?_ rfl (.inl ?_) (.inl rfl) rfl
    · simp only [Order.live, behind, waiting, hl, Loop.held, Flight.batch_step hf]
    · simp only [hl, Loop.held, Flight.batch_step hf]
  | @settle f after act o hl hf =>
    obtain ⟨hcalls, haccepted, hpublisher, hstop, hloop⟩ := settle_fields { s with loop := after.loop } f.batch o
    have hlive : Order.live (State.settle { s with loop := after.loop } f.batch o) = behind s := by
      rw [live_settle]
      simp only [Order.live, behind, waiting_of_ne, ne_eq, hl, loop_ne_exited, reduceCtorEq, not_false_eq_true,
        held_after, nil_append]
    refine ⟨?_, hcalls, .inr (.inr ?_), .inl (by rw [hstop]), ?_⟩
    · rw [hlive]
      exact (sublist_append_right _ _).trans (sublist_append_left _ _)
    · rw [hlive]
    · rw [haccepted, hpublisher]
      exact sublist_append_left _ _
  | begin ht _ | cancel ht | join ht _ | finalEmpty ht _ _ =>
    refine Moves.same rfl ?_ rfl (.inl rfl) (.inr (by rw [ht]; rfl)) rfl
    simp only [Order.live, behind, waiting, ht, Stop.held]
  | finalFlush ht hp hb =>
    refine Moves.same rfl ?_ rfl (.inl rfl) (.inr (by rw [ht]; rfl)) rfl
    simp only [Order.live, behind, waiting, ht, Stop.held, Flight.batch_start, nil_append, append_nil]
  | finalFlight ht hf =>
    refine Moves.same rfl ?_ rfl (.inl rfl) (.inl ?_) rfl
    · simp only [Order.live, behind, waiting, ht, Stop.held, Flight.batch_step hf]
    · simp only [ht, Stop.held, Flight.batch_step hf]
  | @finalSettle f expired act o ht hf =>
    obtain ⟨hcalls, haccepted, hpublisher, hstop, hloop⟩ := settle_fields { s with stop := .returned } f.batch o
    have hexited : s.loop = .exited := hc.joined (by rw [ht]; rfl)
    have hbuffer : s.buffer = [] := hc.flushed (by rw [ht]; rfl)
    have hlive : Order.live (State.settle { s with stop := .returned } f.batch o) = [] := by
      rw [live_settle]
      simp only [Order.live, behind, waiting, hexited, hbuffer, Loop.held, Stop.held, append_nil]
    refine ⟨?_, hcalls, .inl (by rw [hloop]), .inr (.inr hlive), ?_⟩
    · rw [hlive]
      exact nil_sublist _
    · rw [haccepted, hpublisher]
      exact sublist_append_left _ _
  | cancelParent => exact Moves.same rfl rfl rfl (.inl rfl) (.inl rfl) rfl

/-! ### The order of the hand-overs -/

def Before (b b' : List (Entry α)) : Prop := ∀ x ∈ b, ∀ y ∈ b', x.call < y.call

/-- **The hand-overs so far and the state**: what may still be handed over is in order; a batch that was handed over
is in the hands of a thread, or older than all of that; and the hand-overs are in order. -/
structure Ordered (hs : List (Batch α)) (s : State α) : Prop where
  sorted : (live s).Pairwise fun x y => x.call < y.call
  bound : ∀ x ∈ live s, x.call < s.calls
  handedBound : ∀ b ∈ hs, ∀ x ∈ b, x.call < s.calls
  inside : ∀ b ∈ hs, b.Pairwise fun x y => x.call < y.call
  past : ∀ b ∈ hs, b = Loop.held s.loop ∨ b = Stop.held s.stop ∨ Before b (live s)
  chain : hs.Pairwise fun b b' => b = b' ∨ Before b b'
  accepted : (s.accepted ++ Publisher.caller s.publisher).Pairwise fun x y => x.call < y.call
  acceptedBound : ∀ x ∈ s.accepted ++ Publisher.caller s.publisher, x.call < s.calls

theorem before_nil_left (l : List (Entry α)) : Before [] l := fun _ hx => absurd hx not_mem_nil

theorem before_nil_right (l : List (Entry α)) : Before l [] := fun _ _ _ hy => absurd hy not_mem_nil

theorem Before.sublist {b l' : List (Entry α)} (h : Before b l) (hsub : l'.Sublist l) : Before b l' :=
  fun x hx y hy => h x hx y (hsub.subset hy)

theorem ordered_started : Ordered [] (State.started : State α) := by
  constructor <;> simp [State.started, live, behind, waiting, Loop.held, Stop.held, Publisher.held, Publisher.caller]

theorem sorted_entered {l' : List (Entry α)} (hsub : l'.Sublist (l ++ entered s a))
    (hsorted : l.Pairwise fun x y => x.call < y.call) (hbound : ∀ x ∈ l, x.call < s.calls) :
    (l'.Pairwise fun x y => x.call < y.call) ∧ ∀ x ∈ l', x.call < s.calls + (entered s a).length := by
  have hnew : ∀ x ∈ entered s a, x.call = s.calls ∧ (entered s a).length = 1 := by
    intro x hx
    unfold entered at hx ⊢
    split at hx
    · rw [mem_singleton.mp hx]
      exact ⟨rfl, rfl⟩
    · cases hx
  have hpair : (entered s a).Pairwise fun x y => x.call < y.call := by
    unfold entered
    split
    · exact pairwise_singleton _ _
    · exact Pairwise.nil
  constructor
  · refine (pairwise_append.mpr ⟨hsorted, hpair, fun x hx y hy => ?_⟩).sublist hsub
    rw [(hnew y hy).1]
    exact hbound x hx
  · intro x hx
    rcases mem_append.mp (hsub.subset hx) with hx | hx
    · exact (hbound x hx).trans_le (Nat.le_add_right _ _)
    · obtain ⟨hcall, hlen⟩ := hnew x hx
      omega

theorem ordered_hand {b : Batch α} (h : Ordered hs s) (hsub : b.Sublist (live s))
    (hheld : b = Loop.held s.loop ∨ b = Stop.held s.stop)
    (hother : ∀ b' ∈ hs, b' = Loop.held s.loop ∨ b' = Stop.held s.stop → b' = b ∨ Before b' b) :
    Ordered (hs ++ [b]) s where
  sorted := h.sorted
  bound := h.bound
  handedBound := by
    simp only [forall_mem_append, forall_mem_singleton]
    exact ⟨h.handedBound, fun x hx => h.bound x (hsub.subset hx)⟩
  inside := by
    simp only [forall_mem_append, forall_mem_singleton]
    exact ⟨h.inside, h.sorted.sublist hsub⟩
  past := by
    simp only [forall_mem_append, forall_mem_singleton]
    exact ⟨h.past, hheld.imp_right .inl⟩
  chain := by
    refine pairwise_append.mpr ⟨h.chain, pairwise_singleton _ _, fun b' hb' b'' hb'' => ?_⟩
    rw [mem_singleton.mp hb'']
    rcases h.past b' hb' with hloop | hstop | hbefore
    · exact hother b' hb' (.inl hloop)
    · exact hother b' hb' (.inr hstop)
    · exact .inr (hbefore.sublist hsub)
  accepted := h.accepted
  acceptedBound := h.acceptedBound

theorem held_apart (hc : Control s) : Before (Loop.held s.loop) (Stop.held s.stop) ∧
    Before (Stop.held s.stop) (Loop.held s.loop) := by
  cases hstop : s.stop with
  | publish f =>
    rw [hc.joined (by rw [hstop]; rfl)]
    exact ⟨before_nil_left _, before_nil_right _⟩
  | _ => exact ⟨before_nil_right _, before_nil_left _⟩

theorem ordered_handedOver (hc : Control s) (h : Ordered hs s) (c : Settings) (a : Act α) :
    Ordered (hs ++ handedOver c s a) s := by
  obtain ⟨hls, hsl⟩ := held_apart hc
  have hnone : Ordered (hs ++ []) s := by rwa [append_nil]
  have hloop : Ordered (hs ++ [Loop.held s.loop]) s := by
    refine ordered_hand h (sublist_append_left _ _) (.inl rfl) fun b' _ hcase => ?_
    rcases hcase with rfl | rfl
    · exact .inl rfl
    · exact .inr hsl
  have hstop : Ordered (hs ++ [Stop.held s.stop]) s := by
    have hsub : (Stop.held s.stop).Sublist (live s) :=
      (((sublist_append_right _ _).trans (sublist_append_right _ _))).trans (sublist_append_right _ _)
    refine ordered_hand h hsub (.inr rfl) fun b' _ hcase => ?_
    rcases hcase with rfl | rfl
    · exact .inr hls
    · exact .inl rfl
  unfold handedOver
  split
  · unfold loopHands
    split
    · exact hloop
    · split_ifs
      · exact hloop
      · exact hnone
    · exact hnone
  · unfold stopHands
    split
    · exact hstop
    · split_ifs
      · exact hstop
      · exact hnone
    · exact hnone
  · exact hnone

theorem ordered_step (hm : Moves s a s') (h : Ordered hs s) : Ordered hs s' := by
  obtain ⟨hsorted, hbound⟩ := sorted_entered hm.live h.sorted h.bound
  obtain ⟨haccepted, hacceptedBound⟩ := sorted_entered hm.accepted h.accepted h.acceptedBound
  rw [← hm.calls] at hbound hacceptedBound
  refine ⟨hsorted, hbound, fun b hb x hx => ?_, h.inside, fun b hb => ?_, h.chain, haccepted, hacceptedBound⟩
  · have := h.handedBound b hb x hx
    have := hm.calls
    omega
  · rcases h.past b hb with hloop | hstop | hbefore
    · rcases hm.loop with hsame | hnil | hsettled
      · exact .inl (hloop.trans hsame.symm)
      · rw [hloop, hnil]
        exact .inr (.inr (before_nil_left _))
      · -- the batch in hand was before everything behind it
        rw [hloop]
        exact .inr (.inr fun x hx y hy =>
          (pairwise_append.mp h.sorted).2.2 x hx y (hsettled.subset hy))
    · rcases hm.stop with hsame | hnil | hempty
      · exact .inr (.inl (hstop.trans hsame.symm))
      · rw [hstop, hnil]
        exact .inr (.inr (before_nil_left _))
      · rw [hempty]
        exact .inr (.inr (before_nil_right _))
    · refine .inr (.inr fun x hx y hy => ?_)
      rcases mem_append.mp (hm.live.subset hy) with hy | hy
      · exact hbefore x hx y hy
      · have hcall : y.call = s.calls := by
          unfold entered at hy
          split at hy
          · rw [mem_singleton.mp hy]
          · cases hy
        rw [hcall]
        exact h.handedBound b hb x hx

theorem ordered_run {as : List (Act α)} (hrun : Run (step c) Any s as s') (hc : Control s)
    (h : Ordered hs s) : Ordered (hs ++ handovers c s as) s' := by
  induction hrun generalizing hs with
  | nil s => rwa [handovers, append_nil]
  | @cons s s₁ s₂ a as _ hstep _ ih =>
    rw [handovers, hstep]
    rw [← append_assoc]
    have hnext := ordered_step (moves_of_step hc hstep) (ordered_handedOver hc h c a)
    exact ih (control_step hstep hc) hnext

theorem pair_sublist (hl : l.Pairwise fun x y => x.call < y.call) {p q : Entry α} (hlt : p.call < q.call) (hp : p ∈ l)
    (hq : q ∈ l) : [p, q].Sublist l := by
  obtain ⟨l₁, l₂, rfl⟩ := append_of_mem hp
  have hsplit := pairwise_append.mp hl
  rcases mem_append.mp hq with hq | hq
  · have := hsplit.2.2 q hq p mem_cons_self
    omega
  · rcases mem_cons.mp hq with rfl | hq
    · omega
    · exact ((singleton_sublist.mpr hq).cons_cons p).trans (sublist_append_right _ _)

/-- **Batches leave in acceptance order**: in every interleaving, if `p` was accepted before `q`, a batch with `p` is
not handed over after one with `q`, unless that is the same batch; and in one batch `p` comes before `q`. -/
theorem handed_in_order (c : Settings) (as : List (Act α)) (s : State α)
    (hrun : Run (step c) Any State.started as s) (p q : Entry α) (hpq : [p, q].Sublist s.accepted) :
    (∀ (i j : ℕ) (b b' : Batch α), (handovers c State.started as)[i]? = some b →
      (handovers c State.started as)[j]? = some b' → p ∈ b → q ∈ b' → i ≤ j ∨ b = b') ∧
    ∀ b ∈ handovers c State.started as, p ∈ b → q ∈ b → [p, q].Sublist b := by
  have h := ordered_run hrun control_started ordered_started
  have haccepted : s.accepted.Pairwise fun x y => x.call < y.call :=
    h.accepted.sublist (sublist_append_left _ _)
  have hlt : p.call < q.call := pairwise_iff_forall_sublist.mp haccepted hpq
  refine ⟨fun i j b b' hb hb' hp hq => ?_, fun b hb hp hq => pair_sublist (h.inside b hb) hlt hp hq⟩
  by_contra hnot
  rw [not_or, not_le] at hnot
  obtain ⟨hi, rfl⟩ := List.getElem?_eq_some_iff.mp hb
  obtain ⟨hj, rfl⟩ := List.getElem?_eq_some_iff.mp hb'
  rcases pairwise_iff_getElem.mp h.chain j i hj hi hnot.1 with heq | hbefore
  · exact hnot.2 heq.symm
  · have := hbefore q hq p hp
    omega

/-- Two points are published, the first batch after a failed attempt. -/
def twoActs : List (Act String) :=
  [.publish (.enter "p"), .publish .send, .loop .receive, .publish (.enter "q"), .publish .send,
    .loop (.flight (.publish false)), .loop (.flight .elapsed), .loop (.flight (.publish true)), .loop .receive,
    .loop (.flight (.publish true))]

def withRetry : Settings := ⟨1, 0, 1, false⟩

def twoState : State String :=
  { calls := 2, accepted := [⟨0, "p"⟩, ⟨1, "q"⟩], published := [[⟨0, "p"⟩], [⟨1, "q"⟩]] }

theorem handed_in_order_two : handovers withRetry State.started twoActs = [[⟨0, "p"⟩], [⟨0, "p"⟩], [⟨1, "q"⟩]] ∧
      ∀ (i j : ℕ) (b b' : Batch String), (handovers withRetry State.started twoActs)[i]? = some b →
        (handovers withRetry State.started twoActs)[j]? = some b' → ⟨0, "p"⟩ ∈ b → ⟨1, "q"⟩ ∈ b' → i ≤ j ∨ b = b' := by
  have hrun : Run (step withRetry) Any State.started twoActs twoState := by
    repeat refine .cons trivial rfl ?_
    exact .nil _
  exact ⟨by decide, (handed_in_order withRetry twoActs twoState hrun ⟨0, "p"⟩ ⟨1, "q"⟩ (Sublist.refl _)).1⟩

end CoreC.Engine.Order
