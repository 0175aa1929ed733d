import CoreC.Core.Types
import CoreC.Lib.GoChan
import CoreC.Lib.Runs
import CoreC.Lib.Tokens

/-! # The data bus

`DataBus` (`engine/databus.go`): the channels for the points of the drivers, one of normal and one of high priority, and
the channels of the subscribers. `Push` takes no lock around its channel operations: it sends, and if the buffer is full
it takes the oldest point out and sends again, each a step of its own, and it recovers from the panic of a send that
races with `Close`. `Close` and the unsubscribe functions hold the write lock, `Broadcast` the read lock. -/

namespace CoreC.Engine.DataBus

open Core.Types Lib.GoChan Lib.Runs Lib.Tokens Function List Option

/-! ### A tier and its pushes -/

/-- A point with the number of its push. -/
abbrev Pushed := ℕ × DataPoint

/-- The two tiers: `ch` and `highPriCh`. -/
inductive Lane where
  | main
  | high
  deriving DecidableEq, Repr

/-- One tier: its channel (number 0 of `channels`) and its counter of dropped points; how many pushes have begun,
which have returned, the points counted as dropped, and those that consumers have received. -/
structure Tier where
  channels : Channels Pushed
  pushDropped : ℕ := 0
  pushes : ℕ := 0
  completed : List ℕ := []
  received : List Pushed := []
  lost : List ℕ := []

/-- What a push does next: the check for `closed`, the first `select`, the receive that makes room, the count of what it
took, the second `select`, the count of the new point, the recovery from a panic. -/
inductive Push where
  | check
  | send
  | evict
  | countEvicted (old : Option Pushed)
  | resend
  | countDropped
  | recovering

inductive After where
  | goes (next : Push)
  | returns
  | panics

def Tier.finish (t : Tier) (p : Pushed) : Tier := { t with completed := p.1 :: t.completed }

/-- The `select` with a send and a `default`: what the push does next if the buffer is full. -/
def trySelect (t : Tier) (p : Pushed) (full : Push) : Tier × After :=
  match trySend t.channels 0 p with
  | (c, .sent) => (({ t with channels := c } : Tier).finish p, .returns)
  | (_, .full) => (t, .goes full)
  | (c, .panics) => ({ t with channels := c }, .goes .recovering)

/-- One step of `Push` or `PushHighPriority` on its tier, where `closed` is what it reads under the read lock. -/
def pushStep (t : Tier) (closed : Bool) (p : Pushed) : Push → Tier × After
  | .check => if closed then (t.finish p, .returns) else (t, .goes .send)
  | .send => trySelect t p .evict
  | .evict =>
    match tryReceive t.channels 0 with
    | some (old, c) => ({ t with channels := c }, .goes (.countEvicted old))
    | none => (t, .goes .resend)
  | .countEvicted old =>
    ({ t with pushDropped := t.pushDropped + 1, lost := old.toList.map Prod.fst ++ t.lost }, .goes .resend)
  | .resend => trySelect t p .countDropped
  | .countDropped =>
    (({ t with pushDropped := t.pushDropped + 1, lost := p.1 :: t.lost } : Tier).finish p, .returns)
  | .recovering => if closed then (t.finish p, .returns) else (t, .panics)

/-- The step reads `closed` under the read lock. -/
def Push.locks : Push → Bool
  | .check => true
  | .recovering => true
  | _ => false

/-! ### The bus -/

structure Subscriber where
  filter : String
  ch : ℕ
  deriving DecidableEq, Repr

/-- A channel that `Close` closes. -/
inductive Target where
  | lane (l : Lane)
  | feed (ch : ℕ)
  deriving DecidableEq, Repr

/-- A call in progress, by what it does next. `Broadcast` loads the number of subscribers, takes the read lock, and
sends to those in `todo`; `Close` holds the write lock and closes the channels in `todo`. -/
inductive Call where
  | push (l : Lane) (p : Pushed) (next : Push)
  | load (point : DataPoint)
  | rLock (point : DataPoint)
  | deliver (point : DataPoint) (todo : List Subscriber)
  | countSlow (point : DataPoint) (todo : List Subscriber)
  | closing (todo : List Target)

/-- `DataBus`: the tiers, the subscribers and their channels (`feeds`), who holds the lock, the calls of the threads, and
the number of panics that have left a call. -/
structure Bus where
  tiers : Lane → Tier
  feeds : Channels DataPoint := {}
  subscribers : List Subscriber := []
  subCount : ℤ := 0
  closed : Bool := false
  dropped : ℕ := 0
  writer : Option ℕ := none
  readers : List ℕ := []
  calls : ℕ → Option Call := fun _ => none
  panics : ℕ := 0

def newDataBus (bufferSize : ℤ) : Bus :=
  let bufferSize := if bufferSize ≤ 0 then 4096 else bufferSize
  let highPriSize := bufferSize / 4
  let highPriSize := if highPriSize > 1024 then 1024 else highPriSize
  let highPriSize := if highPriSize < 64 then 64 else highPriSize
  { tiers := fun
      | .main => { channels := make {} bufferSize.toNat }
      | .high => { channels := make {} highPriSize.toNat } }

def defaultSubscriberBuffer : ℕ := 256

/-- What happens: a call begins or makes its next step, a caller subscribes or runs an unsubscribe function, a consumer
takes a point from a tier, a subscriber from its channel. -/
inductive Act where
  | pushTo (thread : ℕ) (l : Lane) (point : DataPoint)
  | broadcast (thread : ℕ) (point : DataPoint)
  | close (thread : ℕ)
  | next (thread : ℕ)
  | subscribeWithBuffer (filter : String) (size : ℤ)
  | unsub (ch : ℕ)
  | receive (l : Lane)
  | receiveFeed (ch : ℕ)

def push (thread : ℕ) (point : DataPoint) : Act := .pushTo thread .main point

def pushHighPriority (thread : ℕ) (point : DataPoint) : Act := .pushTo thread .high point

def advance (s : Bus) (thread : ℕ) : Call → Option (Bus × Option Call)
  | .push l p next =>
    if next.locks && s.writer.isSome then none
    else
      match pushStep (s.tiers l) s.closed p next with
      | (t, .goes next') => some ({ s with tiers := update s.tiers l t }, some (.push l p next'))
      | (t, .returns) => some ({ s with tiers := update s.tiers l t }, none)
      | (t, .panics) => some ({ s with tiers := update s.tiers l t, panics := s.panics + 1 }, none)
  | .load point => if s.subCount = 0 then some (s, none) else some (s, some (.rLock point))
  | .rLock point =>
    if s.writer.isSome then none
    else some ({ s with readers := thread :: s.readers }, some (.deliver point s.subscribers))
  | .deliver _ [] => some ({ s with readers := s.readers.erase thread }, none)
  | .deliver point (sub :: todo) =>
    if sub.filter ≠ "" ∧ point.driver ≠ sub.filter then some (s, some (.deliver point todo))
    else
      match trySend s.feeds sub.ch point with
      | (c, .sent) => some ({ s with feeds := c }, some (.deliver point todo))
      | (_, .full) => some (s, some (.countSlow point todo))
      | (c, .panics) =>
        some ({ s with feeds := c, readers := s.readers.erase thread, panics := s.panics + 1 }, none)
  | .countSlow point todo => some ({ s with dropped := s.dropped + 1 }, some (.deliver point todo))
  | .closing (.lane l :: todo) =>
    let t := s.tiers l
    if 0 ∈ t.channels.closes then some ({ s with writer := none, panics := s.panics + 1 }, none)
    else
      some ({ s with tiers := update s.tiers l { t with channels := close t.channels 0 } }, some (.closing todo))
  | .closing (.feed ch :: todo) =>
    if ch ∈ s.feeds.closes then some ({ s with writer := none, panics := s.panics + 1 }, none)
    else some ({ s with feeds := close s.feeds ch }, some (.closing todo))
  | .closing [] => some ({ s with subscribers := [], subCount := 0, closed := true, writer := none }, none)

def step (s : Bus) : Act → Option Bus
  | .pushTo thread l point =>
    match s.calls thread with
    | some _ => none
    | none =>
      let t := s.tiers l
      some { s with tiers := update s.tiers l { t with pushes := t.pushes + 1 }
                    calls := update s.calls thread (some (.push l (t.pushes, point) .check)) }
  | .broadcast thread point =>
    match s.calls thread with
    | some _ => none
    | none => some { s with calls := update s.calls thread (some (.load point)) }
  | .close thread =>
    match s.calls thread with
    | some _ => none
    | none =>
      if s.writer.isSome || !s.readers.isEmpty then none
      else if s.closed then some s
      else
        let todo := .lane .main :: .lane .high :: s.subscribers.map fun sub => .feed sub.ch
        some { s with writer := some thread, calls := update s.calls thread (some (.closing todo)) }
  | .next thread =>
    match s.calls thread with
    | none => none
    | some call =>
      match advance s thread call with
      | none => none
      | some (s', rest) => some { s' with calls := update s.calls thread rest }
  | .subscribeWithBuffer filter size =>
    if s.writer.isSome || !s.readers.isEmpty then none
    else
      let size := if size ≤ 0 then defaultSubscriberBuffer else size.toNat
      some { s with feeds := make s.feeds size, subscribers := s.subscribers ++ [⟨filter, s.feeds.made⟩]
                    subCount := s.subCount + 1 }
  | .unsub ch =>
    if s.writer.isSome || !s.readers.isEmpty then none
    else if s.subscribers.any (·.ch = ch) then
      if s.closed then
        some { s with subscribers := s.subscribers.eraseP (·.ch = ch), subCount := s.subCount - 1 }
      else if ch ∈ s.feeds.closes then some { s with panics := s.panics + 1 }
      else
        some { s with feeds := close s.feeds ch, subscribers := s.subscribers.eraseP (·.ch = ch)
                      subCount := s.subCount - 1 }
    else some s
  | .receive l =>
    let t := s.tiers l
    match tryReceive t.channels 0 with
    | none => none
    | some (p, c) =>
      some { s with tiers := update s.tiers l { t with channels := c, received := t.received ++ p.toList } }
  | .receiveFeed ch =>
    match tryReceive s.feeds ch with
    | none => none
    | some (_, c) => some { s with feeds := c }

/-! ### Where the points are -/

def Tier.stock (t : Tier) : List ℕ := t.received.map Prod.fst ++ ((t.channels.queue 0).map Prod.fst ++ t.lost)

def Push.held (p : Pushed) : Push → List ℕ
  | .countEvicted old => old.toList.map Prod.fst ++ [p.1]
  | _ => [p.1]

def After.held (p : Pushed) : After → List ℕ
  | .goes next => next.held p
  | _ => []

def After.number (p : Pushed) : After → List ℕ
  | .goes _ => [p.1]
  | _ => []

def Push.Open : Push → Prop
  | .recovering => False
  | .countEvicted old => old.isSome
  | _ => True

/-- The tier is open; every point is in the stock or in the hands of one push, every push has returned or is in
progress, and what is counted as dropped is what was lost. -/
structure Accounted (t : Tier) (holds numbers : ℕ → List ℕ) : Prop where
  opened : t.channels.closes = []
  points : Placed t.pushes t.stock holds
  calls : Placed t.pushes t.completed numbers
  counted : t.pushDropped = t.lost.length

section

variable {t : Tier} {p : Pushed} {holds numbers : ℕ → List ℕ} {i : ℕ}

variable (h : Accounted t holds numbers)
include h

theorem Accounted.moves (next : Push) (hholds : holds i = next.held p)
    (hnumber : numbers i = [p.1]) :
    Accounted t (update holds i (next.held p)) (update numbers i [p.1]) := by
  rw [← hholds, ← hnumber, update_eq_self, update_eq_self]
  exact h

theorem Accounted.sends (hholds : holds i = [p.1]) (hnumber : numbers i = [p.1]) :
    Accounted
      (({ t with channels := { t.channels with queue := update t.channels.queue 0 (t.channels.queue 0 ++ [p]) } }
        : Tier).finish p) (update holds i []) (update numbers i []) := by
  refine ⟨h.opened, (h.points.put (by rw [hholds])).perm ?_, h.calls.put (by rw [hnumber]), h.counted⟩
  simp only [Tier.stock, Tier.finish, update_self, map_append, map_cons, map_nil, append_assoc, singleton_append]
  rw [← append_assoc, ← append_assoc]
  exact perm_middle.symm

theorem Accounted.evicts (hholds : holds i = [p.1]) (hnumber : numbers i = [p.1])
    {old : Pushed} {rest : List Pushed} (hqueue : t.channels.queue 0 = old :: rest) :
    Accounted { t with channels := { t.channels with queue := update t.channels.queue 0 rest } }
      (update holds i [old.1, p.1]) (update numbers i [p.1]) := by
  have hperm : t.stock.Perm (old.1 :: (t.received.map Prod.fst ++ (rest.map Prod.fst ++ t.lost))) := by
    rw [Tier.stock, hqueue, map_cons]
    exact perm_middle
  have htake := (h.points.perm hperm).take i
  rw [hholds] at htake
  refine ⟨h.opened, ?_, ?_, h.counted⟩
  · exact htake
  · rw [← hnumber, update_eq_self]
    exact h.calls

theorem Accounted.counts (x : ℕ) (rest : List ℕ) (hholds : holds i = x :: rest) :
    Accounted { t with pushDropped := t.pushDropped + 1, lost := x :: t.lost } (update holds i rest)
      numbers := by
  refine ⟨h.opened, (h.points.put (by rw [hholds])).perm ?_, h.calls, by rw [h.counted, length_cons]⟩
  rw [Tier.stock, Tier.stock, ← append_assoc, ← append_assoc]
  exact perm_middle.symm

theorem trySelect_accounted {full : Push} (hholds : holds i = [p.1])
    (hnumber : numbers i = [p.1]) (hfull : full.held p = [p.1]) (hopen : full.Open) :
    ∃ t' after, trySelect t p full = (t', after) ∧
      Accounted t' (update holds i (after.held p)) (update numbers i (after.number p)) ∧
      after ≠ .panics ∧ ∀ next', after = .goes next' → next'.Open := by
  rcases trySend_open p (h.opened ▸ not_mem_nil : 0 ∉ t.channels.closes) with hsend | hsend
  · exact ⟨_, .returns, by simp only [trySelect, hsend], h.sends hholds hnumber, nofun, fun _ h => After.noConfusion h⟩
  · refine ⟨t, .goes full, by simp only [trySelect, hsend], ?_, nofun, by rintro _ ⟨⟩; exact hopen⟩
    exact h.moves full (hholds.trans hfull.symm) hnumber

/-- **One step of a push** on an open tier keeps account of its points. -/
theorem pushStep_accounted {next : Push} (hholds : holds i = next.held p)
    (hnumber : numbers i = [p.1]) (hnext : next.Open) :
    ∃ t' after, pushStep t false p next = (t', after) ∧
      Accounted t' (update holds i (after.held p)) (update numbers i (after.number p)) ∧
      after ≠ .panics ∧ ∀ next', after = .goes next' → next'.Open := by
  have hopen : 0 ∉ t.channels.closes := h.opened ▸ not_mem_nil
  cases next with
  | check => exact ⟨t, .goes .send, rfl, h.moves .send hholds hnumber, nofun, by rintro _ ⟨⟩; trivial⟩
  | evict =>
    rcases tryReceive_open hopen with ⟨old, rest, hqueue, hreceive⟩ | hreceive
    · exact ⟨_, .goes (.countEvicted (some old)), by simp only [pushStep, hreceive], h.evicts hholds hnumber hqueue,
        nofun, by rintro _ ⟨⟩; rfl⟩
    · exact ⟨t, .goes .resend, by simp only [pushStep, hreceive], h.moves .resend hholds hnumber, nofun,
        by rintro _ ⟨⟩; trivial⟩
  | countEvicted old =>
    obtain ⟨old, rfl⟩ := isSome_iff_exists.mp hnext
    refine ⟨_, .goes .resend, rfl, ?_, nofun, by rintro _ ⟨⟩; trivial⟩
    have hcounts := h.counts old.1 [p.1] hholds
    rw [After.number, ← hnumber, update_eq_self]
    exact hcounts
  | countDropped =>
    refine ⟨_, .returns, rfl, ?_, nofun, fun _ h => After.noConfusion h⟩
    have hcounts := h.counts p.1 [] hholds
    exact ⟨hcounts.opened, hcounts.points, hcounts.calls.put (Perm.of_eq hnumber), hcounts.counted⟩
  | recovering => exact hnext.elim
  | send | resend => exact trySelect_accounted h hholds hnumber rfl trivial

theorem Accounted.receives {q : Option Pushed} {c : Channels Pushed}
    (hreceive : tryReceive t.channels 0 = some (q, c)) :
    Accounted { t with channels := c, received := t.received ++ q.toList } holds numbers := by
  have hopen : 0 ∉ t.channels.closes := h.opened ▸ not_mem_nil
  rcases tryReceive_open hopen with ⟨v, rest, hqueue, hv⟩ | hnone
  · rw [hv] at hreceive
    cases hreceive
    refine ⟨h.opened, h.points.perm (Perm.of_eq ?_), h.calls, h.counted⟩
    simp [Tier.stock, hqueue]
  · rw [hnone] at hreceive
    cases hreceive

end

/-! ### Every interleaving before `Close` -/

/-- `Close` is not called. -/
def BeforeClose (_ : Bus) (a : Act) : Prop := ∀ thread, a ≠ .close thread

def holds (l : Lane) : Option Call → List ℕ
  | some (.push l' p next) => if l' = l then next.held p else []
  | _ => []

def number (l : Lane) : Option Call → List ℕ
  | some (.push l' p _) => if l' = l then [p.1] else []
  | _ => []

structure Flowing (s : Bus) : Prop where
  accounted : ∀ l, Accounted (s.tiers l) (holds l ∘ s.calls) (number l ∘ s.calls)
  opened : s.closed = false
  pushes : ∀ i l p next, s.calls i = some (.push l p next) → next.Open
  calls : ∀ i todo, s.calls i ≠ some (.closing todo)

theorem flowing_newDataBus (bufferSize : ℤ) : Flowing (newDataBus bufferSize) := by
  refine ⟨fun l => ?_, rfl, fun _ _ _ _ h => (by cases h), fun _ _ h => (by cases h)⟩
  cases l with
  | main | high => exact ⟨rfl, placed_nil, placed_nil, rfl⟩

variable {s s' : Bus} {c : Option Call} {i : ℕ}

theorem Flowing.moves (h : Flowing s) {l : Lane} {t : Tier} (htiers : s'.tiers = update s.tiers l t)
    (hcalls : s'.calls = update s.calls i c) (hclosed : s'.closed = s.closed)
    (hother : ∀ k ≠ l, holds k c = holds k (s.calls i) ∧ number k c = number k (s.calls i))
    (hown : Accounted t (update (holds l ∘ s.calls) i (holds l c))
      (update (number l ∘ s.calls) i (number l c))) (hpush : ∀ k p next, c = some (.push k p next) → next.Open)
    (hclosing : ∀ todo, c ≠ some (.closing todo)) :
    Flowing s' := by
  refine ⟨fun k => ?_, hclosed.trans h.opened, fun j k p next hj => ?_, fun j todo hj => ?_⟩
  · rw [htiers, hcalls, comp_update, comp_update]
    by_cases hk : k = l
    · subst hk
      rw [update_self]
      exact hown
    · obtain ⟨hholds, hnumber⟩ := hother k hk
      rw [update_of_ne hk, hholds, hnumber]
      have hf := update_eq_self i (holds k ∘ s.calls)
      have hn := update_eq_self i (number k ∘ s.calls)
      rw [comp_apply] at hf hn
      rw [hf, hn]
      exact h.accounted k
  · rw [hcalls] at hj
    by_cases hji : j = i
    · subst hji
      rw [update_self] at hj
      exact hpush k p next hj
    · rw [update_of_ne hji] at hj
      exact h.pushes j k p next hj
  · rw [hcalls] at hj
    by_cases hji : j = i
    · subst hji
      rw [update_self] at hj
      exact hclosing todo hj
    · rw [update_of_ne hji] at hj
      exact h.calls j todo hj

/-- The calls that are neither a push nor a `Close`. -/
def Light : Option Call → Prop
  | some (.push ..) => False
  | some (.closing _) => False
  | _ => True

theorem Light.holds (h : Light c) (l : Lane) : holds l c = [] ∧ number l c = [] := by
  cases c with
  | none => exact ⟨rfl, rfl⟩
  | some call =>
    cases call with
    | push | closing => exact h.elim
    | _ => exact ⟨rfl, rfl⟩

theorem Flowing.light (h : Flowing s) (htiers : s'.tiers = s.tiers) (hcalls : s'.calls = update s.calls i c)
    (hclosed : s'.closed = s.closed) (hbefore : Light (s.calls i)) (hafter : Light c) : Flowing s' := by
  have hsame : ∀ k, DataBus.holds k c = DataBus.holds k (s.calls i) ∧ number k c = number k (s.calls i) := by
    intro k
    rw [(hbefore.holds k).1, (hbefore.holds k).2]
    exact hafter.holds k
  refine h.moves (l := .main) (t := s.tiers .main) ?_ hcalls hclosed (fun k _ => hsame k) ?_ ?_ ?_
  · rw [htiers, update_eq_self]
  · rw [(hsame .main).1, (hsame .main).2]
    have hf := update_eq_self i (DataBus.holds .main ∘ s.calls)
    have hn := update_eq_self i (number .main ∘ s.calls)
    rw [comp_apply] at hf hn
    rw [hf, hn]
    exact h.accounted .main
  · rintro k p next rfl
    exact hafter.elim
  · rintro todo rfl
    exact hafter

theorem advance_light {call : Call} {rest : Option Call} (hcall : Light (some call))
    (h : advance s i call = some (s', rest)) : s'.tiers = s.tiers ∧ s'.closed = s.closed ∧ Light rest := by
  cases call with
  | load point =>
    simp only [advance] at h
    split_ifs at h <;> cases h <;> exact ⟨rfl, rfl, trivial⟩
  | rLock point =>
    simp only [advance] at h
    split_ifs at h
    cases h
    exact ⟨rfl, rfl, trivial⟩
  | countSlow point todo =>
    cases h
    exact ⟨rfl, rfl, trivial⟩
  | deliver point todo =>
    cases todo with
    | nil => cases h; exact ⟨rfl, rfl, trivial⟩
    | cons sub todo =>
      simp only [advance] at h
      split_ifs at h
      · cases h; exact ⟨rfl, rfl, trivial⟩
      · cases hsend : trySend s.feeds sub.ch point with
        | mk c outcome =>
          cases outcome with
          | _ => simp only [hsend] at h; cases h; exact ⟨rfl, rfl, trivial⟩
  | push | closing => exact hcall.elim

theorem flowing_push (h : Flowing s) {l : Lane} {p : Pushed} {next : Push} {rest : Option Call}
    (hcall : s.calls i = some (.push l p next)) (hadvance : advance s i (.push l p next) = some (s', rest)) :
    Flowing { s' with calls := update s.calls i rest } := by
  have hholds : (holds l ∘ s.calls) i = next.held p := by rw [comp_apply, hcall, holds, if_pos rfl]
  have hnumber : (number l ∘ s.calls) i = [p.1] := by rw [comp_apply, hcall, number, if_pos rfl]
  obtain ⟨t, after, hpush, haccounted, hpanic, hgoes⟩ :=
    pushStep_accounted (h.accounted l) hholds hnumber (h.pushes i l p next hcall)
  simp only [advance, h.opened, hpush] at hadvance
  split_ifs at hadvance
  have hother : ∀ k ≠ l, holds k (s.calls i) = [] ∧ number k (s.calls i) = [] := by
    intro k hk
    rw [hcall, holds, number, if_neg hk.symm, if_neg hk.symm]
    exact ⟨rfl, rfl⟩
  cases after with
  | panics => exact absurd rfl hpanic
  | returns =>
    cases hadvance
    refine h.moves (l := l) (t := t) (c := none) rfl rfl h.opened.symm ?_ haccounted (fun _ _ _ h => by cases h)
      (fun _ h => by cases h)
    intro k hk
    rw [(hother k hk).1, (hother k hk).2]
    exact ⟨rfl, rfl⟩
  | goes next' =>
    cases hadvance
    refine h.moves (l := l) (t := t) (c := some (.push l p next')) rfl rfl h.opened.symm ?_ ?_ ?_
      (fun _ h => by cases h)
    · intro k hk
      rw [(hother k hk).1, (hother k hk).2, holds, number, if_neg hk.symm, if_neg hk.symm]
      exact ⟨rfl, rfl⟩
    · rw [holds, number, if_pos rfl, if_pos rfl]
      exact haccounted
    · rintro k q n hq
      cases hq
      exact hgoes next' rfl

theorem flowing_begin (h : Flowing s) (l : Lane) (point : DataPoint) (hcall : s.calls i = none) : Flowing { s with
      tiers := update s.tiers l { s.tiers l with pushes := (s.tiers l).pushes + 1 }
      calls := update s.calls i (some (.push l ((s.tiers l).pushes, point) .check)) } := by
  have hbefore : Light (s.calls i) := by rw [hcall]; trivial
  refine h.moves (l := l) rfl rfl rfl ?_ ?_ ?_ (fun _ h => by cases h)
  · intro k hk
    rw [(hbefore.holds k).1, (hbefore.holds k).2, holds, number, if_neg hk.symm, if_neg hk.symm]
    exact ⟨rfl, rfl⟩
  · have hacc := h.accounted l
    have hpoints := hacc.points.mint i
    have hcalls := hacc.calls.mint i
    rw [comp_apply, (hbefore.holds l).1] at hpoints
    rw [comp_apply, (hbefore.holds l).2] at hcalls
    rw [holds, number, if_pos rfl, if_pos rfl]
    exact ⟨hacc.opened, hpoints, hcalls, hacc.counted⟩
  · rintro k q n hq
    cases hq
    trivial

theorem flowing_step {a : Act} (hbefore : BeforeClose s a) (hstep : step s a = some s') (h : Flowing s) :
    Flowing s' := by
  cases a with
  | pushTo i l point =>
    cases hcall : s.calls i with
    | some call => simp only [step, hcall] at hstep; cases hstep
    | none =>
      simp only [step, hcall, some.injEq] at hstep
      subst hstep
      exact flowing_begin h l point hcall
  | broadcast i point =>
    cases hcall : s.calls i with
    | some call => simp only [step, hcall] at hstep; cases hstep
    | none =>
      simp only [step, hcall, some.injEq] at hstep
      subst hstep
      exact h.light rfl rfl rfl (by rw [hcall]; trivial) trivial
  | close i => exact absurd rfl (hbefore i)
  | next i =>
    cases hcall : s.calls i with
    | none => simp only [step, hcall] at hstep; cases hstep
    | some call =>
      cases hadvance : advance s i call with
      | none => simp only [step, hcall, hadvance] at hstep; cases hstep
      | some r =>
        obtain ⟨s₁, rest⟩ := r
        simp only [step, hcall, hadvance, some.injEq] at hstep
        subst hstep
        have hlight : Light (some call) → Flowing { s₁ with calls := update s.calls i rest } := by
          intro hlight
          obtain ⟨htiers, hclosed, hrest⟩ := advance_light hlight hadvance
          exact h.light htiers rfl hclosed (hcall ▸ hlight) hrest
        cases call with
        | push l p next => exact flowing_push h hcall hadvance
        | closing todo => exact absurd hcall (h.calls i todo)
        | _ => exact hlight trivial
  | subscribeWithBuffer filter size =>
    simp only [step, ite_none_left_eq_some, some.injEq] at hstep
    obtain ⟨-, rfl⟩ := hstep
    exact ⟨h.accounted, h.opened, h.pushes, h.calls⟩
  | unsub ch =>
    simp only [step, ite_none_left_eq_some] at hstep
    obtain ⟨-, hstep⟩ := hstep
    split_ifs at hstep <;> cases hstep <;> exact ⟨h.accounted, h.opened, h.pushes, h.calls⟩
  | receive l =>
    cases hreceive : tryReceive (s.tiers l).channels 0 with
    | none => simp only [step, hreceive] at hstep; cases hstep
    | some r =>
      simp only [step, hreceive, some.injEq] at hstep
      subst hstep
      refine ⟨fun k => ?_, h.opened, h.pushes, h.calls⟩
      by_cases hk : k = l
      · subst hk
        simp only [update_self]
        exact (h.accounted k).receives hreceive
      · simp only [update_of_ne hk]
        exact h.accounted k
  | receiveFeed ch =>
    cases hreceive : tryReceive s.feeds ch with
    | none => simp only [step, hreceive] at hstep; cases hstep
    | some r =>
      simp only [step, hreceive, some.injEq] at hstep
      subst hstep
      exact ⟨h.accounted, h.opened, h.pushes, h.calls⟩

/-- **Every point is accounted for.** Before `Close`, whenever no call is in progress, the completed pushes on a tier
are the points received, those in the buffer and those counted as dropped; and none is received twice. -/
theorem push_accounting {bufferSize : ℤ} {acts : List Act} {s : Bus}
    (hrun : Run step BeforeClose (newDataBus bufferSize) acts s) (l : Lane) :
    ((∀ i, s.calls i = none) → (s.tiers l).completed.length =
      (s.tiers l).received.length + ((s.tiers l).channels.queue 0).length + (s.tiers l).pushDropped) ∧
    ((s.tiers l).received.map Prod.fst).Nodup := by
  have h := hrun.invariant (I := Flowing) (fun s a s' hP hstep hI => flowing_step hP hstep hI)
    (flowing_newDataBus bufferSize)
  have hacc := h.accounted l
  refine ⟨fun hidle => ?_, (nodup_append.mp hacc.points.stock_nodup).1⟩
  have hpoints := hacc.points.length_eq fun i => by rw [comp_apply, hidle i]; rfl
  have hcalls := hacc.calls.length_eq fun i => by rw [comp_apply, hidle i]; rfl
  have hcounted := hacc.counted
  simp only [Tier.stock, length_append, length_map] at hpoints
  omega

/-- With a buffer of one point the second push takes the first point out, and the consumer receives the second one. -/
theorem push_accounting_evicted : ∃ (point : DataPoint) (s : Bus),
    Run step BeforeClose (newDataBus 1) [push 0 point, .next 0, .next 0, push 0 point, .next 0, .next 0, .next 0, .next 0,
      .next 0, .receive .main] s ∧
    (s.tiers .main).completed.length =
      (s.tiers .main).received.length + ((s.tiers .main).channels.queue 0).length + (s.tiers .main).pushDropped ∧
    (s.tiers .main).received.map Prod.fst = [1] ∧ (s.tiers .main).pushDropped = 1 := by
  let point : DataPoint := ⟨"plc", "", "", "level", .bool true, .bool, .good, 0, [], false⟩
  refine ⟨point, Run.exists_of_forall (fun _ hrun => (push_accounting hrun .main).1) ⟨_, .cons nofun rfl (.cons nofun rfl
    (.cons nofun rfl (.cons nofun rfl (.cons nofun rfl (.cons nofun rfl (.cons nofun rfl (.cons nofun rfl (.cons nofun rfl
    (.cons nofun rfl (.nil _)))))))))), fun haccounted => ⟨haccounted fun i => ?_, rfl, rfl⟩⟩⟩
  cases i <;> rfl

end CoreC.Engine.DataBus
