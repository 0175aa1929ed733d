import CoreC.Engine.DataBus
import CoreC.Lib.Slots

/-! # Closing the data bus

`Close`, `Broadcast` and the unsubscribe functions under the lock, and `Push` that sends without it
(`engine/databus.go`). The channels of the subscribers that are in the list are open whenever the write lock is free, so
a `Broadcast`, which holds the read lock, meets no closed one; a `Push` that has met a closed channel looks at `closed`
under the read lock, and so after `Close` is done. -/

namespace CoreC.Engine.DataBus

open Core.Types Lib.GoChan Lib.Runs Function List Option
open Lib.Slots (of_update_none of_update_some)

/-! ### What holds in every state -/

/-- The channel of the tier is closed. -/
def Tier.Closed (t : Tier) : Prop := 0 ∈ t.channels.closes

/-- What `Close` still has to close is open, and no tier that it has left out is. -/
structure Pending (s : Bus) (todo : List Target) : Prop where
  nodup : todo.Nodup
  feeds : ∀ ch, .feed ch ∈ todo → ch ∉ s.feeds.closes ∧ ch < s.feeds.made
  lanes : ∀ l, .lane l ∈ todo ↔ ¬ (s.tiers l).Closed

/-- What a call relies on. -/
def CallOk (s : Bus) (i : ℕ) : Call → Prop
  | .push l _ .recovering => (s.tiers l).Closed
  | .deliver _ todo => i ∈ s.readers ∧ ∀ sub ∈ todo, sub ∈ s.subscribers
  | .countSlow _ todo => i ∈ s.readers ∧ ∀ sub ∈ todo, sub ∈ s.subscribers
  | .closing todo => s.writer = some i ∧ Pending s todo
  | _ => True

/-- No panic has left a call, and no channel of a subscriber was closed twice; with the write lock free, the subscribers
in the list have open channels, and the tiers are closed if the bus is. -/
structure Sound (s : Bus) : Prop where
  panics : s.panics = 0
  feeds : Safe s.feeds
  subs_nodup : (s.subscribers.map (·.ch)).Nodup
  subs_lt : ∀ sub ∈ s.subscribers, sub.ch < s.feeds.made
  closes_lt : ∀ ch ∈ s.feeds.closes, ch < s.feeds.made
  subs_open : s.writer = none → ∀ sub ∈ s.subscribers, sub.ch ∉ s.feeds.closes
  lanes : s.writer = none → ∀ l, (s.tiers l).Closed ↔ s.closed = true
  writing : ∀ i, s.writer = some i → s.readers = [] ∧ s.closed = false ∧ ∃ todo, s.calls i = some (.closing todo)
  calls : ∀ i c, s.calls i = some c → CallOk s i c

theorem sound_newDataBus (bufferSize : ℤ) : Sound (newDataBus bufferSize) where
  panics := rfl
  feeds := ⟨nodup_nil, rfl⟩
  subs_nodup := nodup_nil
  subs_lt := forall_mem_nil _
  closes_lt := forall_mem_nil _
  subs_open _ := forall_mem_nil _
  lanes _ l := by
    refine iff_of_false (fun h => ?_) nofun
    cases l <;> exact absurd h not_mem_nil
  writing _ h := by cases h
  calls _ _ h := by cases h

variable {s s' : Bus} {l : Lane} {p : Pushed} {t : Tier} {i : ℕ}

theorem CallOk.congr {c : Call} (h : CallOk s i c)
    (htiers : ∀ l, (s'.tiers l).channels.closes = (s.tiers l).channels.closes)
    (hcloses : s'.feeds.closes = s.feeds.closes) (hmade : s'.feeds.made = s.feeds.made)
    (hsubs : s'.subscribers = s.subscribers) (hwriter : s'.writer = s.writer)
    (hreaders : i ∈ s.readers → i ∈ s'.readers) : CallOk s' i c := by
  have hlanes : ∀ l, (s'.tiers l).Closed ↔ (s.tiers l).Closed := fun l => by
    rw [Tier.Closed, Tier.Closed, htiers l]
  cases c with
  | push l p next =>
    cases next with
    | recovering => exact (hlanes l).mpr h
    | _ => trivial
  | load | rLock => trivial
  | closing todo =>
    obtain ⟨hw, hpending⟩ := h
    refine ⟨hwriter.trans hw, hpending.nodup, ?_, ?_⟩
    · rw [hcloses, hmade]; exact hpending.feeds
    · exact fun l => (hpending.lanes l).trans (not_congr (hlanes l)).symm
  | deliver | countSlow => exact ⟨hreaders h.1, hsubs ▸ h.2⟩

section

variable (h : Sound s)
include h

theorem Sound.buffers (htiers : ∀ l, (s'.tiers l).channels.closes = (s.tiers l).channels.closes)
    (hcloses : s'.feeds.closes = s.feeds.closes) (hmade : s'.feeds.made = s.feeds.made) (hsafe : Safe s'.feeds)
    (hsubs : s'.subscribers = s.subscribers) (hwriter : s'.writer = s.writer) (hreaders : s'.readers = s.readers)
    (hclosed : s'.closed = s.closed) (hpanics : s'.panics = s.panics) (hcalls : s'.calls = s.calls) : Sound s' where
  panics := hpanics.trans h.panics
  feeds := hsafe
  subs_nodup := hsubs ▸ h.subs_nodup
  subs_lt := by rw [hsubs, hmade]; exact h.subs_lt
  closes_lt := by rw [hcloses, hmade]; exact h.closes_lt
  subs_open := by rw [hwriter, hsubs, hcloses]; exact h.subs_open
  lanes := by
    intro hw l
    rw [Tier.Closed, htiers l, hclosed]
    exact h.lanes (hwriter ▸ hw) l
  writing := by rw [hwriter, hreaders, hclosed, hcalls]; exact h.writing
  calls i c hc := (h.calls i c (hcalls ▸ hc)).congr htiers hcloses hmade hsubs hwriter fun hi => hreaders ▸ hi

theorem Sound.goes {c : Option Call} (readers : List ℕ) (hlock : s.writer = none ∨ readers = s.readers)
    (hothers : ∀ j ≠ i, j ∈ s.readers → j ∈ readers) (hnot : ∀ todo, s.calls i ≠ some (.closing todo))
    (hc : ∀ call, c = some call → CallOk { s with readers := readers } i call) :
    Sound { s with readers := readers, calls := update s.calls i c } where
  panics := h.panics
  feeds := h.feeds
  subs_nodup := h.subs_nodup
  subs_lt := h.subs_lt
  closes_lt := h.closes_lt
  subs_open := h.subs_open
  lanes := h.lanes
  writing j hj := by
    obtain ⟨hreaders, hclosed, todo, htodo⟩ := h.writing j hj
    have hji : j ≠ i := fun heq => hnot todo (heq ▸ htodo)
    refine ⟨?_, hclosed, todo, (update_of_ne hji ..).trans htodo⟩
    rcases hlock with hw | hsame
    · exact absurd (hj.symm.trans hw) nofun
    · exact hsame.trans hreaders
  calls j call hj := by
    have hupdate : update s.calls i c j = some call := hj
    by_cases hji : j = i
    · subst hji
      rw [update_self] at hupdate
      exact (hc call hupdate).congr (fun _ => rfl) rfl rfl rfl rfl id
    · rw [update_of_ne hji] at hupdate
      exact (h.calls j call hupdate).congr (fun _ => rfl) rfl rfl rfl rfl (hothers j hji)

theorem Sound.moves {c : Option Call} (hnot : ∀ todo, s.calls i ≠ some (.closing todo))
    (hc : ∀ call, c = some call → CallOk s i call) : Sound { s with calls := update s.calls i c } :=
  h.goes s.readers (.inr rfl) (fun _ _ => id) hnot hc

/-! ### Pushes -/

omit h in
theorem trySelect_spec {t' : Tier} {full : Push} {after : After} (h : trySelect t p full = (t', after))
    (hfull : full ≠ .recovering) :
    t'.channels.closes = t.channels.closes ∧ (after = .goes .recovering → t.Closed) ∧ (after = .panics → False) := by
  have hcloses := closes_trySend t.channels 0 p
  have hpanics : (trySend t.channels 0 p).2 = .panics ↔ 0 ∈ t.channels.closes := trySend_panics
  cases hsend : trySend t.channels 0 p with
  | mk c outcome =>
    rw [hsend] at hcloses hpanics
    cases outcome with
    | sent =>
      simp only [trySelect, hsend] at h
      cases h
      exact ⟨hcloses, by simp, by simp⟩
    | full =>
      simp only [trySelect, hsend] at h
      cases h
      exact ⟨rfl, fun hgoes => absurd (After.goes.inj hgoes) hfull, by simp⟩
    | panics =>
      simp only [trySelect, hsend] at h
      cases h
      exact ⟨hcloses, fun _ => hpanics.mp rfl, by simp⟩

omit h in
/-- One step of a push closes nothing, and comes to the recovery only from a closed channel; the recovery returns if the
bus is closed. -/
theorem pushStep_spec {t' : Tier} {closed : Bool} {next : Push} {after : After}
    (h : pushStep t closed p next = (t', after)) :
    t'.channels.closes = t.channels.closes ∧ (after = .goes .recovering → t.Closed) ∧
      (after = .panics → next = .recovering ∧ closed = false) := by
  cases next with
  | check => cases closed <;> cases h <;> exact ⟨rfl, by simp, by simp⟩
  | evict =>
    cases hreceive : tryReceive t.channels 0 with
    | none =>
      simp only [pushStep, hreceive] at h
      cases h
      exact ⟨rfl, by simp, by simp⟩
    | some r =>
      simp only [pushStep, hreceive] at h
      cases h
      exact ⟨(tryReceive_rest hreceive).1, by simp, by simp⟩
  | countEvicted | countDropped => cases h; exact ⟨rfl, by simp, by simp⟩
  | recovering =>
    cases closed with
    | true => cases h; exact ⟨rfl, by simp, by simp⟩
    | false => cases h; exact ⟨rfl, by simp, fun _ => ⟨rfl, rfl⟩⟩
  | send | resend =>
    obtain ⟨hcloses, hrecover, hpanics⟩ := trySelect_spec h (by simp)
    exact ⟨hcloses, hrecover, fun hp => (hpanics hp).elim⟩

theorem Sound.tier (ht : t.channels.closes = (s.tiers l).channels.closes) :
    Sound { s with tiers := update s.tiers l t } := by
  refine h.buffers (fun k => ?_) rfl rfl h.feeds rfl rfl rfl rfl rfl rfl
  by_cases hk : k = l
  · subst hk
    simp only [update_self]
    exact ht
  · simp [update_of_ne hk]

variable {rest : Option Call}

theorem sound_push {next : Push} (hcall : s.calls i = some (.push l p next))
    (hadvance : advance s i (.push l p next) = some (s', rest)) :
    Sound { s' with calls := update s.calls i rest } := by
  have hnot : ∀ todo, s.calls i ≠ some (.closing todo) := fun todo => by rw [hcall]; exact nofun
  cases hpush : pushStep (s.tiers l) s.closed p next with
  | mk t after =>
    obtain ⟨hcloses, hrecover, hpanic⟩ := pushStep_spec hpush
    have htier := h.tier hcloses
    simp only [advance, hpush, ite_none_left_eq_some] at hadvance
    obtain ⟨hlock, hadvance⟩ := hadvance
    cases after with
    | returns =>
      cases hadvance
      exact htier.moves hnot fun _ h => by cases h
    | goes next' =>
      cases hadvance
      refine htier.moves hnot fun call hc => ?_
      cases hc
      cases next' with
      | recovering =>
        have hclosed := hrecover rfl
        show (update s.tiers l t l).Closed
        rw [update_self, Tier.Closed, hcloses]
        exact hclosed
      | _ => trivial
    | panics =>
      -- the recovery reads `closed` while nobody holds the write lock, and the tier is closed
      obtain ⟨rfl, hopen⟩ := hpanic rfl
      have hw : s.writer = none := by simpa [Push.locks] using hlock
      have hclosed := (h.lanes hw l).mp (h.calls i _ hcall)
      rw [hopen] at hclosed
      cases hclosed

/-! ### `Broadcast` -/

theorem sound_deliver {point : DataPoint} {todo : List Subscriber}
    (hcall : s.calls i = some (.deliver point todo)) (hadvance : advance s i (.deliver point todo) = some (s', rest)) :
    Sound { s' with calls := update s.calls i rest } := by
  have hnot : ∀ todo, s.calls i ≠ some (.closing todo) := fun todo => by rw [hcall]; exact nofun
  obtain ⟨hreads, htodo⟩ : i ∈ s.readers ∧ ∀ sub ∈ todo, sub ∈ s.subscribers := h.calls i _ hcall
  have hw : s.writer = none := by
    cases hwriter : s.writer with
    | none => rfl
    | some j => exact absurd ((h.writing j hwriter).1 ▸ hreads) not_mem_nil
  cases todo with
  | nil =>
    cases hadvance
    refine h.goes _ (.inl hw) (fun j hj hmem => (mem_erase_of_ne hj).mpr hmem) hnot fun _ h => ?_
    cases h
  | cons sub todo =>
    have hrest : i ∈ s.readers ∧ ∀ sub ∈ todo, sub ∈ s.subscribers :=
      ⟨hreads, fun sub hsub => htodo sub (mem_cons_of_mem _ hsub)⟩
    simp only [advance] at hadvance
    by_cases hfilter : sub.filter ≠ "" ∧ point.driver ≠ sub.filter
    · rw [if_pos hfilter] at hadvance
      cases hadvance
      exact h.moves hnot fun call hc => by cases hc; exact hrest
    · rw [if_neg hfilter] at hadvance
      have hopen := h.subs_open hw sub (htodo sub mem_cons_self)
      rcases trySend_open point hopen with hsend | hsend
      · simp only [hsend] at hadvance
        cases hadvance
        have hbuffers : Sound { s with feeds := { s.feeds with
            queue := update s.feeds.queue sub.ch (s.feeds.queue sub.ch ++ [point]) } } :=
          h.buffers (fun _ => rfl) rfl rfl h.feeds rfl rfl rfl rfl rfl rfl
        exact hbuffers.moves hnot fun call hc => by cases hc; exact hrest
      · simp only [hsend] at hadvance
        cases hadvance
        exact h.moves hnot fun call hc => by cases hc; exact hrest

/-! ### `Close` -/

omit h in
theorem callOk_others {j : ℕ} {c : Call} (h : CallOk s j c) (hreaders : s.readers = [])
    (hwriter : ∀ k, s.writer = some k → k = i) (hji : j ≠ i) (hlanes : ∀ l, (s.tiers l).Closed → (s'.tiers l).Closed) :
    CallOk s' j c := by
  cases c with
  | push l p next =>
    cases next with
    | recovering => exact hlanes l h
    | _ => trivial
  | load | rLock => trivial
  | closing todo => exact absurd (hwriter j h.1) hji
  | deliver | countSlow => exact absurd (hreaders ▸ h.1) not_mem_nil

theorem sound_close (hw : s.writer = none) (hreaders : s.readers = []) (hclosed : s.closed = false) :
    Sound { s with
      writer := some i
      calls := update s.calls i
        (some (.closing (.lane .main :: .lane .high :: s.subscribers.map fun sub => .feed sub.ch))) } where
  panics := h.panics
  feeds := h.feeds
  subs_nodup := h.subs_nodup
  subs_lt := h.subs_lt
  closes_lt := h.closes_lt
  subs_open hnone := by cases hnone
  lanes hnone := by cases hnone
  writing j hj := by
    cases hj
    exact ⟨hreaders, hclosed, _, update_self ..⟩
  calls j c hc := by
    rcases of_update_some hc with ⟨rfl, rfl⟩ | ⟨hji, hold⟩
    · refine ⟨rfl, ?_, fun ch hch => ?_, fun l => ?_⟩
      · have hfeeds : (s.subscribers.map fun sub => Target.feed sub.ch).Nodup := by
          have := h.subs_nodup.map (f := Target.feed) fun a b hab => Target.feed.inj hab
          rwa [List.map_map] at this
        simp [hfeeds]
      · obtain ⟨sub, hsub, rfl⟩ : ∃ sub ∈ s.subscribers, sub.ch = ch := by simpa using hch
        exact ⟨h.subs_open hw sub hsub, h.subs_lt sub hsub⟩
      · have hopen : ¬ (s.tiers l).Closed := fun hl => by
          have := (h.lanes hw l).mp hl
          rw [hclosed] at this
          cases this
        refine iff_of_true ?_ hopen
        cases l <;> simp
    · exact callOk_others (h.calls j c hold) hreaders (fun k hk => by rw [hw] at hk; cases hk) hji fun _ => id

variable {todo : List Target} {feeds : Channels DataPoint}

/-- `Close` closes one channel and goes on. -/
theorem Sound.closing {tiers : Lane → Tier}
    (hw : s.writer = some i) (hsafe : Safe feeds) (hmade : feeds.made = s.feeds.made)
    (hlt : ∀ ch ∈ feeds.closes, ch < s.feeds.made) (hlanes : ∀ l, (s.tiers l).Closed → (tiers l).Closed)
    (hpending : Pending { s with tiers, feeds } todo) :
    Sound { s with tiers, feeds, calls := update s.calls i (some (.closing todo)) } where
  panics := h.panics
  feeds := hsafe
  subs_nodup := h.subs_nodup
  subs_lt sub hsub := hmade ▸ h.subs_lt sub hsub
  closes_lt := hmade ▸ hlt
  subs_open hnone := absurd (hw.symm.trans hnone) nofun
  lanes hnone := absurd (hw.symm.trans hnone) nofun
  writing j hj := by
    cases hw.symm.trans hj
    obtain ⟨hreaders, hclosed, -⟩ := h.writing i hw
    exact ⟨hreaders, hclosed, todo, update_self ..⟩
  calls j c hc := by
    rcases of_update_some hc with ⟨rfl, rfl⟩ | ⟨hji, hold⟩
    · exact ⟨hw, hpending.nodup, hpending.feeds, hpending.lanes⟩
    · exact callOk_others (h.calls j c hold) (h.writing i hw).1 (fun k hk => some.inj (hk.symm.trans hw)) hji hlanes

theorem closing_step (hcall : s.calls i = some (.closing todo)) :
    ∃ s' rest, advance s i (.closing todo) = some (s', rest) ∧ rest = todo.tail?.map Call.closing ∧
      Sound { s' with calls := update s.calls i rest } := by
  obtain ⟨hw, hpending⟩ : s.writer = some i ∧ Pending s todo := h.calls i _ hcall
  cases todo with
  | nil =>
    refine ⟨_, none, rfl, rfl, ?_⟩
    exact
      { panics := h.panics
        feeds := h.feeds
        subs_nodup := nodup_nil
        subs_lt := forall_mem_nil _
        closes_lt := h.closes_lt
        subs_open := fun _ => forall_mem_nil _
        lanes := fun _ l => iff_of_true (not_not.mp fun hl => not_mem_nil ((hpending.lanes l).mpr hl)) rfl
        writing := fun _ hj => by cases hj
        calls := fun j c hc => by
          obtain ⟨hji, hold⟩ := of_update_none hc
          exact callOk_others (h.calls j c hold) (h.writing i hw).1 (fun k hk => some.inj (hk.symm.trans hw)) hji
            fun _ => id }
  | cons target todo =>
    obtain ⟨hnew, hnodup⟩ := nodup_cons.mp hpending.nodup
    cases target with
    | lane l =>
      have hopen : ¬ (s.tiers l).Closed := (hpending.lanes l).mp mem_cons_self
      refine ⟨_, some (.closing todo), if_neg hopen, rfl, h.closing hw h.feeds rfl h.closes_lt (fun k hk => ?_)
        ⟨hnodup, fun ch hch => hpending.feeds ch (mem_cons_of_mem _ hch), fun k => ?_⟩⟩
      · by_cases hkl : k = l
        · subst hkl
          simp only [update_self]
          exact mem_cons_self
        · simp only [update_of_ne hkl]
          exact hk
      · by_cases hkl : k = l
        · subst hkl
          simp only [update_self]
          exact iff_of_false hnew (not_not.mpr mem_cons_self)
        · simp only [update_of_ne hkl]
          rw [← hpending.lanes k]
          simp [hkl]
    | feed ch =>
      obtain ⟨hopen, hlt⟩ := hpending.feeds ch mem_cons_self
      refine ⟨_, some (.closing todo), if_neg hopen, rfl, h.closing hw (safe_close.mpr ⟨hopen, h.feeds⟩) rfl
        (fun c hc => ?_) (fun _ => id) ⟨hnodup, fun d hd => ?_, fun k => ?_⟩⟩
      · rcases mem_cons.mp hc with rfl | hc
        · exact hlt
        · exact h.closes_lt c hc
      · obtain ⟨hd', hlt'⟩ := hpending.feeds d (mem_cons_of_mem _ hd)
        refine ⟨fun hmem => ?_, hlt'⟩
        rcases mem_cons.mp hmem with rfl | hmem
        · exact hnew hd
        · exact hd' hmem
      · rw [← hpending.lanes k]
        simp

/-! ### Subscribing -/

theorem sound_subscribe (filter : String) (size : ℕ) (hw : s.writer = none) (hreaders : s.readers = []) :
    Sound { s with feeds := make s.feeds size, subscribers := s.subscribers ++ [⟨filter, s.feeds.made⟩]
                   subCount := s.subCount + 1 } where
  panics := h.panics
  feeds := safe_make.mpr h.feeds
  subs_nodup := by
    rw [map_append, nodup_append]
    refine ⟨h.subs_nodup, nodup_singleton _, fun a ha b hb hab => ?_⟩
    obtain ⟨sub, hsub, rfl⟩ := mem_map.mp ha
    have hmade : b = s.feeds.made := mem_singleton.mp hb
    have := h.subs_lt sub hsub
    omega
  subs_lt sub hsub := by
    rcases mem_append.mp hsub with hsub | hsub
    · exact Nat.lt_succ_of_lt (h.subs_lt sub hsub)
    · rw [mem_singleton.mp hsub]
      exact Nat.lt_succ_self _
  closes_lt ch hch := Nat.lt_succ_of_lt (h.closes_lt ch hch)
  subs_open _ sub hsub := by
    rcases mem_append.mp hsub with hsub | hsub
    · exact h.subs_open hw sub hsub
    · rw [mem_singleton.mp hsub]
      exact fun hmem => absurd (h.closes_lt _ hmem) (Nat.lt_irrefl _)
  lanes := h.lanes
  writing j hj := absurd (hw.symm.trans hj) nofun
  calls j c hc := by
    -- no call is under the lock, so any thread serves as the one that is left out
    exact callOk_others (i := j + 1) (h.calls j c hc) hreaders (fun k hk => by rw [hw] at hk; cases hk)
      (Nat.ne_of_lt (Nat.lt_succ_self j)) fun _ => id

omit h in
theorem ne_of_mem_eraseP {ch : ℕ} : ∀ {subs : List Subscriber}, (subs.map (·.ch)).Nodup →
    ∀ sub ∈ subs.eraseP (·.ch = ch), sub.ch ≠ ch
  | [], _, _, hsub => absurd hsub not_mem_nil
  | first :: rest, hnodup, sub, hsub => by
    obtain ⟨hnew, hrest⟩ := nodup_cons.mp hnodup
    by_cases hch : first.ch = ch
    · rw [eraseP_cons_of_pos (by simpa using hch)] at hsub
      exact fun heq => hnew (mem_map.mpr ⟨sub, hsub, heq.trans hch.symm⟩)
    · rw [eraseP_cons_of_neg (by simpa using hch)] at hsub
      rcases mem_cons.mp hsub with rfl | hsub
      · exact hch
      · exact ne_of_mem_eraseP hrest sub hsub

theorem sound_unsub (ch : ℕ) (hw : s.writer = none) (hreaders : s.readers = [])
    (hmade : feeds.made = s.feeds.made) (hsafe : Safe feeds)
    (hlt : ∀ c ∈ feeds.closes, c < s.feeds.made) (hcloses : ∀ c ∈ feeds.closes, c = ch ∨ c ∈ s.feeds.closes) :
    Sound { s with feeds := feeds, subscribers := s.subscribers.eraseP (·.ch = ch), subCount := s.subCount - 1 } where
  panics := h.panics
  feeds := hsafe
  subs_nodup := h.subs_nodup.sublist (Sublist.map _ eraseP_sublist)
  subs_lt sub hsub := hmade ▸ h.subs_lt sub (mem_of_mem_eraseP hsub)
  closes_lt := hmade ▸ hlt
  subs_open _ sub hsub hmem := by
    have hold := mem_of_mem_eraseP hsub
    rcases hcloses _ hmem with hch | hclosed
    · exact ne_of_mem_eraseP h.subs_nodup sub hsub hch
    · exact h.subs_open hw sub hold hclosed
  lanes := h.lanes
  writing j hj := absurd (hw.symm.trans hj) nofun
  calls j c hc :=
    callOk_others (i := j + 1) (h.calls j c hc) hreaders (fun k hk => by rw [hw] at hk; cases hk)
      (Nat.ne_of_lt (Nat.lt_succ_self j)) fun _ => id

/-! ### Every interleaving -/

theorem sound_next (hstep : step s (.next i) = some s') : Sound s' := by
  cases hcall : s.calls i with
  | none => simp only [step, hcall] at hstep; cases hstep
  | some call =>
    cases hadvance : advance s i call with
    | none => simp only [step, hcall, hadvance] at hstep; cases hstep
    | some r =>
      obtain ⟨s₁, rest⟩ := r
      simp only [step, hcall, hadvance, some.injEq] at hstep
      subst hstep
      cases call with
      | push l p next => exact sound_push h hcall hadvance
      | deliver point todo => exact sound_deliver h hcall hadvance
      | closing todo =>
        obtain ⟨s₂, rest', hclosing, -, hsound⟩ := closing_step h hcall
        rw [hclosing] at hadvance
        cases hadvance
        exact hsound
      | load point =>
        have hnot : ∀ todo, s.calls i ≠ some (.closing todo) := fun todo => by simp [hcall]
        simp only [advance] at hadvance
        split_ifs at hadvance
        · cases hadvance
          exact h.moves hnot fun _ hc => by cases hc
        · cases hadvance
          exact h.moves hnot fun _ hc => by cases hc; trivial
      | rLock point =>
        have hnot : ∀ todo, s.calls i ≠ some (.closing todo) := fun todo => by simp [hcall]
        simp only [advance, ite_none_left_eq_some, some.injEq] at hadvance
        obtain ⟨hwriter, rfl, rfl⟩ := hadvance
        refine h.goes _ (.inl (by simpa using hwriter)) (fun j _ hj => mem_cons_of_mem _ hj) hnot fun call hc => ?_
        cases hc
        exact ⟨mem_cons_self, fun _ => id⟩
      | countSlow point todo =>
        have hnot : ∀ todo, s.calls i ≠ some (.closing todo) := fun todo => by simp [hcall]
        have hok : CallOk s i (.countSlow point todo) := h.calls i _ hcall
        cases hadvance
        have hcount : Sound { s with dropped := s.dropped + 1 } :=
          h.buffers (fun _ => rfl) rfl rfl h.feeds rfl rfl rfl rfl rfl rfl
        exact hcount.moves hnot fun call hc => by cases hc; exact hok

end

theorem sound_step {a : Act} (hstep : step s a = some s') (h : Sound s) : Sound s' := by
  cases a with
  | next i => exact sound_next h hstep
  | pushTo i l point =>
    cases hcall : s.calls i with
    | some call => simp only [step, hcall] at hstep; cases hstep
    | none =>
      simp only [step, hcall, some.injEq] at hstep
      subst hstep
      have htier : Sound { s with
          tiers := update s.tiers l { s.tiers l with pushes := (s.tiers l).pushes + 1 } } := h.tier rfl
      exact htier.moves (fun todo => by simp [hcall]) fun call hc => by cases hc; trivial
  | broadcast i point =>
    cases hcall : s.calls i with
    | some call => simp only [step, hcall] at hstep; cases hstep
    | none =>
      simp only [step, hcall, some.injEq] at hstep
      subst hstep
      exact h.moves (fun todo => by simp [hcall]) fun call hc => by cases hc; trivial
  | close i =>
    cases hcall : s.calls i with
    | some call => simp only [step, hcall] at hstep; cases hstep
    | none =>
      simp only [step, hcall, ite_none_left_eq_some] at hstep
      obtain ⟨hlock, hstep⟩ := hstep
      obtain ⟨hw, hreaders⟩ : s.writer = none ∧ s.readers = [] := by simpa using hlock
      by_cases hclosed : s.closed = true
      · rw [if_pos hclosed] at hstep
        cases hstep
        exact h
      · rw [if_neg hclosed] at hstep
        cases hstep
        exact sound_close h hw hreaders (Bool.not_eq_true _ ▸ hclosed)
  | subscribeWithBuffer filter size =>
    simp only [step, ite_none_left_eq_some, some.injEq] at hstep
    obtain ⟨hlock, rfl⟩ := hstep
    obtain ⟨hw, hreaders⟩ : s.writer = none ∧ s.readers = [] := by simpa using hlock
    exact sound_subscribe h filter _ hw hreaders
  | unsub ch =>
    simp only [step, ite_none_left_eq_some] at hstep
    obtain ⟨hlock, hstep⟩ := hstep
    obtain ⟨hw, hreaders⟩ : s.writer = none ∧ s.readers = [] := by simpa using hlock
    by_cases hfound : s.subscribers.any (·.ch = ch)
    · rw [if_pos hfound] at hstep
      obtain ⟨sub, hsub, rfl⟩ : ∃ sub ∈ s.subscribers, sub.ch = ch := by simpa using hfound
      have hopen := h.subs_open hw sub hsub
      by_cases hclosed : s.closed = true
      · rw [if_pos hclosed] at hstep
        cases hstep
        exact sound_unsub h sub.ch hw hreaders rfl h.feeds h.closes_lt fun c hc => .inr hc
      · rw [if_neg hclosed, if_neg hopen] at hstep
        cases hstep
        have hlt : ∀ c ∈ (close s.feeds sub.ch).closes, c < s.feeds.made := fun c hc => by
          rcases mem_cons.mp hc with rfl | hc
          · exact h.subs_lt sub hsub
          · exact h.closes_lt c hc
        exact sound_unsub h sub.ch hw hreaders rfl (safe_close.mpr ⟨hopen, h.feeds⟩) hlt fun c hc => mem_cons.mp hc
    · rw [if_neg hfound] at hstep
      cases hstep
      exact h
  | receive l =>
    cases hreceive : tryReceive (s.tiers l).channels 0 with
    | none => simp only [step, hreceive] at hstep; cases hstep
    | some r =>
      simp only [step, hreceive, some.injEq] at hstep
      subst hstep
      exact h.tier (tryReceive_rest hreceive).1
  | receiveFeed ch =>
    cases hreceive : tryReceive s.feeds ch with
    | none => simp only [step, hreceive] at hstep; cases hstep
    | some r =>
      simp only [step, hreceive, some.injEq] at hstep
      subst hstep
      obtain ⟨hcloses, hmade, -⟩ := tryReceive_rest hreceive
      exact h.buffers (fun _ => rfl) hcloses hmade ((safe_tryReceive hreceive).mpr h.feeds) rfl rfl rfl rfl rfl rfl

theorem closing_ends : ∀ {todo : List Target} {s : Bus}, Sound s → s.calls i = some (.closing todo) →
    ∃ s', Run step (fun _ _ => True) s (List.replicate (todo.length + 1) (.next i)) s' ∧ Sound s' ∧ s'.writer = none ∧
      ∀ j ≠ i, s'.calls j = s.calls j
  | [], s, h, hcall => by
    obtain ⟨s', rest, hadvance, -, hsound⟩ := closing_step h hcall
    cases hadvance
    refine ⟨_, .cons trivial ?_ (.nil _), hsound, rfl, fun j hj => update_of_ne hj ..⟩
    simp only [step, hcall, advance]
  | target :: todo, s, h, hcall => by
    obtain ⟨s', rest, hadvance, hrest, hsound⟩ := closing_step h hcall
    have hstep : step s (.next i) = some { s' with calls := update s.calls i rest } := by
      simp [step, hcall, hadvance]
    have hnext : update s.calls i rest i = some (.closing todo) := by
      rw [update_self, hrest]
      rfl
    obtain ⟨s₂, hrun, hsound₂, hwriter, hothers⟩ := closing_ends hsound hnext
    exact ⟨s₂, .cons trivial hstep hrun, hsound₂, hwriter, fun j hj =>
      (hothers j hj).trans (update_of_ne hj ..)⟩

/-- A push that has met a closed channel returns with its next step, which it can make if the write lock is free. -/
theorem recovering_returns (h : Sound s) (hcall : s.calls i = some (.push l p .recovering)) :
    (∀ s', step s (.next i) = some s' → s'.calls i = none) ∧
      (s.writer = none → ∃ s', step s (.next i) = some s') := by
  have hclosed : s.writer = none → s.closed = true := fun hw => (h.lanes hw l).mp (h.calls i _ hcall)
  cases hw : s.writer with
  | some j =>
    refine ⟨fun s' hstep => ?_, nofun⟩
    simp only [step, hcall, advance, hw] at hstep
    cases hstep
  | none =>
    have hstep : step s (.next i) = some { s with
        tiers := update s.tiers l ((s.tiers l).finish p), calls := update s.calls i none } := by
      simp [step, hcall, advance, hw, hclosed hw, pushStep]
    refine ⟨fun s' hs' => ?_, fun _ => ⟨_, hstep⟩⟩
    rw [hstep] at hs'
    cases hs'
    exact update_self ..

/-- **No panic leaves a call.** In every interleaving, no panic leaves a call and no channel of a subscriber is closed
twice. A push that has met a closed channel returns with its next step, and it comes to that step once `Close` has
given up the lock. -/
theorem bus_never_panics {bufferSize : ℤ} {acts : List Act} {s : Bus}
    (hrun : Run step (fun _ _ => True) (newDataBus bufferSize) acts s) :
    s.panics = 0 ∧ s.feeds.closes.Nodup ∧
      ∀ i l p, s.calls i = some (.push l p .recovering) →
        (∀ s', step s (.next i) = some s' → s'.calls i = none ∧ s'.panics = 0) ∧
        ∃ acts' s', Run step (fun _ _ => True) s acts' s' ∧ s'.calls i = none ∧ s'.panics = 0 := by
  have h := hrun.invariant (I := Sound) (fun _ _ _ _ hstep hI => sound_step hstep hI) (sound_newDataBus bufferSize)
  refine ⟨h.panics, h.feeds.1, fun i l p hcall => ⟨fun s' hstep => ?_, ?_⟩⟩
  · exact ⟨(recovering_returns h hcall).1 s' hstep, (sound_step hstep h).panics⟩
  · cases hw : s.writer with
    | none =>
      obtain ⟨s', hstep⟩ := (recovering_returns h hcall).2 hw
      exact ⟨[.next i], s', .cons trivial hstep (.nil _), (recovering_returns h hcall).1 s' hstep,
        (sound_step hstep h).panics⟩
    | some j =>
      obtain ⟨-, -, todo, htodo⟩ := h.writing j hw
      have hij : i ≠ j := fun heq => by
        rw [heq, htodo] at hcall
        cases hcall
      obtain ⟨s₁, hclose, hsound, hfree, hothers⟩ := closing_ends h htodo
      have hcall₁ : s₁.calls i = some (.push l p .recovering) := (hothers i hij).trans hcall
      obtain ⟨s', hstep⟩ := (recovering_returns hsound hcall₁).2 hfree
      exact ⟨_, s', hclose.append (.cons trivial hstep (.nil _)), (recovering_returns hsound hcall₁).1 s' hstep,
        (sound_step hstep hsound).panics⟩

/-- A push sends while `Close` is in the middle of its work and has to recover: it still returns. -/
theorem bus_never_panics_raced : ∃ (point : DataPoint) (s : Bus),
    Run step (fun _ _ => True) (newDataBus 0) [.subscribeWithBuffer "" 0, push 0 point, .next 0, .close 1, .next 1,
      .next 0] s ∧
    s.calls 0 = some (.push .main (0, point) .recovering) ∧
    (∃ acts' s', Run step (fun _ _ => True) s acts' s' ∧ s'.calls 0 = none ∧ s'.panics = 0) := by
  let point : DataPoint := ⟨"plc", "", "", "level", .bool true, .bool, .good, 0, [], false⟩
  exact ⟨point, Run.exists_of_forall (fun _ hrun => (bus_never_panics hrun).2.2 0 .main (0, point)) ⟨_, .cons trivial rfl
    (.cons trivial rfl (.cons trivial rfl (.cons trivial rfl (.cons trivial rfl (.cons trivial rfl (.nil _)))))),
    fun hreturns => ⟨rfl, (hreturns rfl).2⟩⟩⟩

end CoreC.Engine.DataBus
