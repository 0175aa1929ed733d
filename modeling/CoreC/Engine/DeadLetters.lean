import Mathlib.Data.List.Induction
import CoreC.Engine.JsonlStore
import CoreC.Engine.Write

/-! # The dead-letter queue across reloads

The engine keeps its dead letters in a bounded queue in memory and, with `dead-letter-path`, in a JSON
Lines store. `Start` opens the store and appends to the queue what it reads back. `Stop` closes the store
and keeps the queue, so a second `Start` of the same engine reads back what the queue already holds. -/

namespace CoreC.Engine.DeadLetters

open Engine.JsonlStore Engine.Write List

def defaultStoreBytes : ℕ := 5 * 1024 * 1024

/-- The dead letters of an engine: the files and the store (not open before the first start and after a
stop), the queue, and the history of all letters. -/
structure DeadLetterState (T : Type) where
  store : Store T := {}
  queue : List T := []
  letters : List T := []

inductive Op (T : Type) where
  | start
  | addDeadLetter (entry : T)
  | stop
  | reload

section

variable {T : Type} (fmt : Format T)

variable (s : DeadLetterState T)

/-- The part of `Start` about the dead letters: the store is opened and read back into the queue. -/
def start : DeadLetterState T :=
  let store := { s.store with isOpen := true }
  { s with store, queue := s.queue ++ load fmt store deadLetterMaxLen }

def addDeadLetter (entry : T) (s : DeadLetterState T) : DeadLetterState T :=
  { store := if s.store.isOpen then append fmt defaultStoreBytes s.store entry else s.store
    queue := latest deadLetterMaxLen (s.queue ++ [entry])
    letters := s.letters ++ [entry] }

/-- The part of `Stop` about the dead letters. -/
def stop : DeadLetterState T :=
  { s with store := { s.store with isOpen := false } }

/-- One operation; `Reload` is `Stop` and `Start`. -/
def step : Op T → DeadLetterState T
  | .start => start fmt s
  | .addDeadLetter entry => addDeadLetter fmt entry s
  | .stop => stop s
  | .reload => start fmt (stop s)

def run (ops : List (Op T)) : DeadLetterState T := ops.foldl (step fmt) {}

/-- The operation reads the store. -/
def Op.starts : Op T → Bool
  | .start | .reload => true
  | _ => false

/-- `DeadLetterEntries` is the latest letters of the whole history, oldest first and each once. -/
def Exact : Prop := s.queue = latest deadLetterMaxLen s.letters

/-- The store has no record. -/
def NoRecord (store : Store T) : Prop :=
  loadFile fmt (store.rotated.getD []) = [] ∧ loadFile fmt store.file = []

end

variable {T : Type} {fmt : Format T} {s : DeadLetterState T}

/-! ### One operation -/

theorem latest_latest {α : Type} (n : ℕ) (l m : List α) : latest n (latest n l ++ m) = latest n (l ++ m) := by
  unfold latest
  by_cases h : l.length ≤ n
  · rw [Nat.sub_eq_zero_of_le h, drop_zero]
  · have hlen : (l.drop (l.length - n) ++ m).length - n = m.length := by
      rw [length_append, length_drop]
      omega
    have hsplit : (l ++ m).length - n = (l.length - n) + m.length := by
      rw [length_append]
      omega
    rw [hlen, hsplit, ← drop_drop, drop_append_of_le_length (show l.length - n ≤ l.length by omega)]

theorem exact_addDeadLetter {entry : T} (h : Exact s) : Exact (addDeadLetter fmt entry s) := by
  simp only [Exact, addDeadLetter]
  rw [h, latest_latest]

theorem load_eq_nil_iff {store : Store T} : load fmt store deadLetterMaxLen = [] ↔ NoRecord fmt store := by
  have hpos : 0 < deadLetterMaxLen := by decide
  unfold load NoRecord
  rw [drop_eq_nil_iff, length_append]
  constructor
  · intro h
    exact ⟨eq_nil_of_length_eq_zero (by omega), eq_nil_of_length_eq_zero (by omega)⟩
  · rintro ⟨h1, h2⟩
    rw [h1, h2]
    simp

/-- **A start keeps an exact queue exact if and only if there is nothing to read back.** -/
theorem exact_start_iff (h : Exact s) : Exact (start fmt s) ↔ NoRecord fmt s.store := by
  have hload : load fmt { s.store with isOpen := true } deadLetterMaxLen = [] ↔
      NoRecord fmt s.store := load_eq_nil_iff
  rw [← hload]
  simp only [Exact, start]
  rw [h, append_right_eq_self]

theorem exact_step_iff {op : Op T} (h : Exact s) :
    Exact (step fmt s op) ↔ (op.starts = true → NoRecord fmt s.store) := by
  cases op with
  | start => simpa [step, Op.starts] using exact_start_iff h
  | addDeadLetter entry => simpa [step, Op.starts] using exact_addDeadLetter h
  | stop => simpa [step, Op.starts, Exact, stop] using h
  | reload =>
    have hstop : Exact (stop s) := by simpa [Exact, stop] using h
    simp only [Op.starts, forall_const]
    exact exact_start_iff hstop

/-! ### Sequences -/

theorem run_append (ops : List (Op T)) (op : Op T) : run fmt (ops ++ [op]) = step fmt (run fmt ops) op := by
  simp [run]

theorem exact_empty : Exact (run fmt ([] : List (Op T))) := by
  simp [Exact, run, latest]

/-- **The queue is exact after every operation of a sequence if and only if** every start of it finds files
without a record. -/
theorem queue_exact_iff {T : Type} (fmt : Format T) (ops : List (Op T)) :
    (∀ done, done <+: ops → Exact (run fmt done)) ↔
      ∀ done op, done ++ [op] <+: ops → op.starts = true → NoRecord fmt (run fmt done).store := by
  constructor
  · intro h done op hpre
    have hexact := h (done ++ [op]) hpre
    rw [run_append] at hexact
    exact (exact_step_iff (h done ((prefix_append done [op]).trans hpre))).mp hexact
  · intro h done
    induction done using List.reverseRecOn with
    | nil => exact fun _ => exact_empty
    | append_singleton done op ih =>
      intro hpre
      rw [run_append]
      exact (exact_step_iff (ih ((prefix_append done [op]).trans hpre))).mpr (h done op hpre)

/-- **After a reload a letter is there twice.** -/
theorem reload_doubles : (run boolFormat [.start, .addDeadLetter true, .reload]).letters = [true] ∧
      (run boolFormat [.start, .addDeadLetter true, .reload]).queue = [true, true] ∧
      ¬ Exact (run boolFormat [.start, .addDeadLetter true, .reload]) := by
  refine ⟨rfl, by decide, ?_⟩
  unfold Exact
  decide

end CoreC.Engine.DeadLetters
