import Mathlib.Data.List.Nodup

/-! # Buffered channels

The channels of a program, by the number they were made under. A send that does not block, on a channel that is closed,
panics, and so does a second close. Both leave a mark: `closes` has every close that was executed, `faults` every send
that met a closed channel, so a program whose channels are `Safe` has not panicked on one of them. -/

namespace CoreC.Lib.GoChan

open Function

variable {α : Type}

/-- The channels that were made, what is in their buffers, and what was done to the closed ones. -/
structure Channels (α : Type) where
  capacity : ℕ → ℕ := fun _ => 0
  queue : ℕ → List α := fun _ => []
  made : ℕ := 0
  closes : List ℕ := []
  faults : List ℕ := []

/-- What a `select` with one send and a `default` does. -/
inductive Sent where
  | sent
  | full
  | panics
  deriving DecidableEq, Repr

variable (c : Channels α)

/-- `make(chan T, size)`. -/
def make (size : ℕ) : Channels α :=
  { c with capacity := update c.capacity c.made size
           queue := update c.queue c.made []
           made := c.made + 1 }

def trySend (ch : ℕ) (v : α) : Channels α × Sent :=
  if ch ∈ c.closes then ({ c with faults := ch :: c.faults }, .panics)
  else if (c.queue ch).length < c.capacity ch then
    ({ c with queue := update c.queue ch (c.queue ch ++ [v]) }, .sent)
  else (c, .full)

/-- A receive that does not block: nothing if it would; from a closed channel whose buffer is empty, the zero value
(`some none`). -/
def tryReceive (ch : ℕ) : Option (Option α × Channels α) :=
  match c.queue ch with
  | v :: rest => some (some v, { c with queue := update c.queue ch rest })
  | [] => if ch ∈ c.closes then some (none, c) else none

/-- `close(ch)`. -/
def close (ch : ℕ) : Channels α := { c with closes := ch :: c.closes }

/-- No channel was closed twice, and nothing sent on a closed one. -/
def Safe : Prop := c.closes.Nodup ∧ c.faults = []

instance (c : Channels α) : Decidable (Safe c) := inferInstanceAs (Decidable (_ ∧ _))

/-! ### What the operations leave alone -/

@[simp] theorem closes_close (ch : ℕ) : (close c ch).closes = ch :: c.closes := rfl

@[simp] theorem closes_trySend (ch : ℕ) (v : α) : (trySend c ch v).1.closes = c.closes := by
  unfold trySend
  split_ifs <;> rfl

@[simp] theorem made_trySend (ch : ℕ) (v : α) : (trySend c ch v).1.made = c.made := by
  unfold trySend
  split_ifs <;> rfl

variable {c : Channels α} {ch : ℕ}

theorem tryReceive_rest {c' : Channels α} {v : Option α} (h : tryReceive c ch = some (v, c')) :
    c'.closes = c.closes ∧ c'.made = c.made ∧ c'.faults = c.faults := by
  unfold tryReceive at h
  cases hq : c.queue ch with
  | cons x rest =>
    simp only [hq] at h
    cases h
    exact ⟨rfl, rfl, rfl⟩
  | nil =>
    simp only [hq] at h
    split_ifs at h
    cases h
    exact ⟨rfl, rfl, rfl⟩

theorem trySend_open (v : α) (hopen : ch ∉ c.closes) :
    trySend c ch v = ({ c with queue := update c.queue ch (c.queue ch ++ [v]) }, .sent) ∨
      trySend c ch v = (c, .full) := by
  unfold trySend
  rw [if_neg hopen]
  by_cases hroom : (c.queue ch).length < c.capacity ch
  · rw [if_pos hroom]; exact .inl rfl
  · rw [if_neg hroom]; exact .inr rfl

theorem tryReceive_open (hopen : ch ∉ c.closes) : (∃ v rest, c.queue ch = v :: rest ∧
      tryReceive c ch = some (some v, { c with queue := update c.queue ch rest })) ∨
      tryReceive c ch = none := by
  unfold tryReceive
  cases hq : c.queue ch with
  | cons v rest => exact .inl ⟨v, rest, rfl, rfl⟩
  | nil => exact .inr (if_neg hopen)

/-! ### Safety -/

theorem safe_make {size : ℕ} : Safe (make c size) ↔ Safe c := Iff.rfl

theorem safe_tryReceive {c' : Channels α} {v : Option α} (h : tryReceive c ch = some (v, c')) : Safe c' ↔ Safe c := by
  obtain ⟨hcloses, -, hfaults⟩ := tryReceive_rest h
  rw [Safe, Safe, hcloses, hfaults]

theorem safe_close : Safe (close c ch) ↔ ch ∉ c.closes ∧ Safe c := by
  rw [Safe, closes_close, List.nodup_cons, and_assoc]
  rfl

theorem safe_trySend {v : α} : Safe (trySend c ch v).1 ↔ ch ∉ c.closes ∧ Safe c := by
  unfold trySend
  split_ifs with hclosed hroom
  · simp [Safe, hclosed]
  · exact ⟨fun h => ⟨hclosed, h⟩, And.right⟩
  · exact ⟨fun h => ⟨hclosed, h⟩, And.right⟩

theorem trySend_panics {v : α} : (trySend c ch v).2 = .panics ↔ ch ∈ c.closes := by
  unfold trySend
  split_ifs with hclosed hroom <;> simp [hclosed]

end CoreC.Lib.GoChan
