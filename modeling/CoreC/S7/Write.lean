import Mathlib.Data.UInt
import CoreC.Core.Types
import CoreC.Lib.Runs

/-! # Concurrent writes to an S7 controller

`writeAddress` (`driver/s7/s7.go`) writes a byte, a word or a double word with one call of the client. A bit is written
by reading its byte, setting the bit and writing the byte back, under the mutex `writeMu`, which the other writes do
not take: a write to the byte between the two calls is undone by the second one. Everything a step of the calls in
progress can do is `trans_of_step`. -/

namespace CoreC.S7.Write

open Core.Types Lib.Runs Function List

/-! ### The memory of the controller -/

inductive S7Area where
  | db
  | m
  | i
  | q
  deriving DecidableEq, Repr

structure S7Address where
  area : S7Area
  dbNumber : ℕ := 0
  start : ℕ
  bit : ℕ := 0
  size : ℕ := 1
  isBit : Bool := false
  deriving DecidableEq, Repr

structure Cell where
  area : S7Area
  db : ℕ
  offset : ℕ
  deriving DecidableEq, Repr

abbrev Memory := Cell → UInt8

variable (addr : S7Address)

def S7Address.cell : Cell :=
  ⟨addr.area, if addr.area = .db then addr.dbNumber else 0, addr.start⟩

/-- The byte is one of the first `size` bytes at the address. -/
def Covers (size : ℕ) (c : Cell) : Prop :=
  c.area = addr.cell.area ∧ c.db = addr.cell.db ∧ addr.start ≤ c.offset ∧ c.offset < addr.start + size

instance (addr : S7Address) (size : ℕ) (c : Cell) : Decidable (Covers addr size c) :=
  inferInstanceAs (Decidable (_ ∧ _ ∧ _ ∧ _))

/-- `AGReadDB`, `AGReadMB`, `AGReadEB` and `AGReadAB`, of one byte. -/
def agRead (memory : Memory) : UInt8 := memory addr.cell

/-- `AGWriteDB`, `AGWriteMB`, `AGWriteEB` and `AGWriteAB`. -/
def agWrite (buf : List UInt8) (memory : Memory) : Memory := fun c =>
  if Covers addr buf.length c then buf.getD (c.offset - addr.start) 0 else memory c

/-- `SetBoolAt` of the client library. -/
def setBoolAt (b : UInt8) (bit : ℕ) (value : Bool) : UInt8 :=
  let mask : UInt8 := 1 <<< UInt8.ofNat bit
  if value then b ||| mask else b &&& ~~~mask

/-- `cmd.Value.(bool)`, or `false`. -/
def valBool : GoValue → Bool
  | .bool b => b
  | _ => false

/-! ### Calls in progress -/

/-- A call of `writeAddress`; the value of the command is the one for the device. -/
structure Call where
  addr : S7Address
  cmd : WriteCommand

/-- Where a call is: it holds `writeMu`, has read the byte, or has returned. -/
inductive Phase where
  | idle
  | locked
  | read (b : UInt8)
  | success
  | failed
  deriving DecidableEq, Repr

/-- The memory, the call that holds `writeMu`, and the calls. -/
structure State (n : ℕ) where
  memory : Memory
  writeMu : Option (Fin n) := none
  phase : Fin n → Phase := fun _ => .idle

/-- The next step of a call; `fails` tells that the controller refuses the request. -/
structure Act (n : ℕ) where
  call : Fin n
  fails : Bool := false

section

variable (encode : GoValue → S7Address → DataType → Option (List UInt8))

/-- The buffer that a call writes, by `encodeS7Value`. -/
def Call.buf (c : Call) : Option (List UInt8) := encode c.cmd.value c.addr c.cmd.type

variable {n : ℕ} (calls : Fin n → Call)

/-- One step of `writeAddress`. -/
def step (s : State n) (a : Act n) : Option (State n) :=
  let c := calls a.call
  let goto (phase : Phase) : Fin n → Phase := update s.phase a.call phase
  match s.phase a.call with
  | .idle =>
    match c.buf encode with
    | none => some { s with phase := goto .failed }
    | some buf =>
      if c.addr.isBit then
        -- `Lock` waits for the mutex
        match s.writeMu with
        | some _ => none
        | none => some { s with writeMu := some a.call, phase := goto .locked }
      else if a.fails then some { s with phase := goto .failed }
      else some { s with memory := agWrite c.addr buf s.memory, phase := goto .success }
  | .locked =>
    if a.fails then some { s with writeMu := none, phase := goto .failed }
    else some { s with phase := goto (.read (agRead c.addr s.memory)) }
  | .read b =>
    if a.fails then some { s with writeMu := none, phase := goto .failed }
    else some {
      memory := agWrite c.addr [setBoolAt b c.addr.bit (valBool c.cmd.value)] s.memory
      writeMu := none
      phase := goto .success }
  | .success => none
  | .failed => none

/-- The call alone. -/
def execute (memory : Memory) (c : Call) : Memory :=
  match c.buf encode with
  | none => memory
  | some buf =>
    if c.addr.isBit then
      agWrite c.addr [setBoolAt (agRead c.addr memory) c.addr.bit (valBool c.cmd.value)] memory
    else agWrite c.addr buf memory

/-- The call writes the cell, and not as a bit. -/
def WritesOver (c : Call) (cell : Cell) : Prop :=
  c.addr.isBit = false ∧ ∃ buf, c.buf encode = some buf ∧ Covers c.addr buf.length cell

/-- No write begins over a byte that another has read. -/
def Undisturbed (s : State n) (a : Act n) : Prop :=
  s.phase a.call = .idle → ∀ j b, s.phase j = .read b → ¬ WritesOver encode (calls a.call) (calls j).addr.cell

def Phase.Busy (p : Phase) : Prop := p = .locked ∨ ∃ b, p = .read b

inductive Trans (s : State n) (i : Fin n) : State n → Prop
  | fail (hidle : s.phase i = .idle) : Trans s i { s with phase := update s.phase i .failed }
  | release (hbusy : (s.phase i).Busy) :
      Trans s i { s with writeMu := none, phase := update s.phase i .failed }
  | lock (buf : List UInt8) (hidle : s.phase i = .idle) (hbuf : (calls i).buf encode = some buf)
      (hbit : (calls i).addr.isBit = true) (hfree : s.writeMu = none) :
      Trans s i { s with writeMu := some i, phase := update s.phase i .locked }
  | read (hlocked : s.phase i = .locked) :
      Trans s i { s with phase := update s.phase i (.read (agRead (calls i).addr s.memory)) }
  | bitWrite (b : UInt8) (hread : s.phase i = .read b) :
      Trans s i {
        memory := agWrite (calls i).addr [setBoolAt b (calls i).addr.bit (valBool (calls i).cmd.value)] s.memory
        writeMu := none
        phase := update s.phase i .success }
  | write (buf : List UInt8) (hidle : s.phase i = .idle) (hbuf : (calls i).buf encode = some buf)
      (hbit : (calls i).addr.isBit = false) :
      Trans s i { s with memory := agWrite (calls i).addr buf s.memory, phase := update s.phase i .success }

end

section

variable {encode : GoValue → S7Address → DataType → Option (List UInt8)} {n : ℕ} {calls : Fin n → Call}
  {s s' : State n} {a : Act n} {i : Fin n} {memory : Memory} {p : Phase}

theorem trans_of_step (h : step encode calls s a = some s') : Trans encode calls s a.call s' := by
  unfold step at h
  dsimp only at h
  cases hphase : s.phase a.call with
  | idle =>
    simp only [hphase] at h
    cases hbuf : (calls a.call).buf encode with
    | none =>
      simp only [hbuf] at h
      cases h
      exact .fail hphase
    | some buf =>
      simp only [hbuf] at h
      cases hbit : (calls a.call).addr.isBit with
      | true =>
        rw [hbit] at h
        cases hmu : s.writeMu with
        | some j => simp only [hmu] at h; cases h
        | none =>
          simp only [hmu] at h
          cases h
          exact .lock buf hphase hbuf hbit hmu
      | false =>
        rw [hbit, if_neg Bool.false_ne_true] at h
        split_ifs at h
        · cases h
          exact .fail hphase
        · cases h
          exact .write buf hphase hbuf hbit
  | locked =>
    simp only [hphase] at h
    split_ifs at h
    · cases h
      exact .release (.inl hphase)
    · cases h
      exact .read hphase
  | read b =>
    simp only [hphase] at h
    split_ifs at h
    · cases h
      exact .release (.inr ⟨b, hphase⟩)
    · cases h
      exact .bitWrite b hphase
  | success | failed => simp only [hphase] at h; cases h

/-! ### The order of the writes -/

/-- A call that is busy holds the mutex, writes a bit, and knows the byte as it is. -/
structure Exclusive (encode : GoValue → S7Address → DataType → Option (List UInt8)) (calls : Fin n → Call)
    (s : State n) : Prop where
  holds : ∀ j, (s.phase j).Busy → s.writeMu = some j
  bit : ∀ j, (s.phase j).Busy → (calls j).addr.isBit = true ∧ ∃ buf, (calls j).buf encode = some buf
  byte : ∀ j b, s.phase j = .read b → agRead (calls j).addr s.memory = b

def Ordered (encode : GoValue → S7Address → DataType → Option (List UInt8)) (calls : Fin n → Call) (memory : Memory)
    (s : State n) : Prop :=
  ∃ order : List (Fin n), order.Nodup ∧ (∀ j, j ∈ order ↔ s.phase j = .success) ∧
    s.memory = (order.map calls).foldl (execute encode) memory

theorem agRead_agWrite_of_not_covers {addr addr' : S7Address} {buf : List UInt8}
    (h : ¬ Covers addr buf.length addr'.cell) : agRead addr' (agWrite addr buf memory) = agRead addr' memory := if_neg h

theorem busy_update {j : Fin n} (hp : ¬ p.Busy) (h : (update s.phase i p j).Busy) : j ≠ i ∧ (s.phase j).Busy := by
  by_cases hj : j = i
  · subst hj
    rw [update_self] at h
    exact absurd h hp
  · rw [update_of_ne hj] at h
    exact ⟨hj, h⟩

theorem read_update {j : Fin n} {b : UInt8} (hp : ¬ p.Busy)
    (h : update s.phase i p j = .read b) : s.phase j = .read b := by
  have hne := (busy_update hp (.inr ⟨b, h⟩)).1
  rwa [update_of_ne hne] at h

theorem not_busy_failed : ¬ Phase.failed.Busy := by rintro (h | ⟨b, h⟩) <;> cases h

theorem not_busy_success : ¬ Phase.success.Busy := by rintro (h | ⟨b, h⟩) <;> cases h

/-- **One step keeps the bytes that were read as they are.** -/
theorem exclusive_step (ha : Undisturbed encode calls s a) (hstep : step encode calls s a = some s')
    (h : Exclusive encode calls s) : Exclusive encode calls s' := by
  -- two busy calls would both hold the mutex
  have hone : ∀ {i j}, (s.phase i).Busy → (s.phase j).Busy → j = i := fun {i j} hi hj =>
    Option.some.inj ((h.holds j hj).symm.trans (h.holds i hi))
  cases trans_of_step hstep with
  | fail hidle =>
    refine ⟨fun j hj => ?_, fun j hj => ?_, fun j b hj => ?_⟩
    · exact h.holds j (busy_update not_busy_failed hj).2
    · exact h.bit j (busy_update not_busy_failed hj).2
    · exact h.byte j b (read_update not_busy_failed hj)
  | release hbusy =>
    have hnone : ∀ j, ¬ (update s.phase a.call .failed j).Busy := fun j hj => by
      obtain ⟨hne, hj⟩ := busy_update not_busy_failed hj
      exact hne (hone hbusy hj)
    exact ⟨fun j hj => absurd hj (hnone j), fun j hj => absurd hj (hnone j),
      fun j b hj => absurd (.inr ⟨b, hj⟩) (hnone j)⟩
  | lock buf hidle hbuf hbit hfree =>
    have honly : ∀ j, (update s.phase a.call .locked j).Busy → j = a.call := fun j hj => by
      by_contra hne
      rw [update_of_ne hne] at hj
      have := h.holds j hj
      rw [hfree] at this
      cases this
    refine ⟨fun j hj => by rw [honly j hj], fun j hj => ?_, fun j b hj => ?_⟩
    · rw [honly j hj]
      exact ⟨hbit, buf, hbuf⟩
    · dsimp only at hj
      rw [honly j (.inr ⟨b, hj⟩), update_self] at hj
      cases hj
  | read hlocked =>
    have hbusy : (s.phase a.call).Busy := .inl hlocked
    have honly : ∀ j, (update s.phase a.call (.read (agRead (calls a.call).addr s.memory)) j).Busy →
        j = a.call := fun j hj => by
      by_contra hne
      rw [update_of_ne hne] at hj
      exact hne (hone hbusy hj)
    refine ⟨fun j hj => ?_, fun j hj => ?_, fun j b hj => ?_⟩
    · rw [honly j hj]
      exact h.holds a.call hbusy
    · rw [honly j hj]
      exact h.bit a.call hbusy
    · obtain rfl := honly j (.inr ⟨b, hj⟩)
      dsimp only at hj
      rw [update_self] at hj
      exact Phase.read.inj hj
  | bitWrite b hread =>
    have hbusy : (s.phase a.call).Busy := .inr ⟨b, hread⟩
    have hnone : ∀ j, ¬ (update s.phase a.call .success j).Busy := fun j hj => by
      obtain ⟨hne, hj⟩ := busy_update not_busy_success hj
      exact hne (hone hbusy hj)
    exact ⟨fun j hj => absurd hj (hnone j), fun j hj => absurd hj (hnone j),
      fun j b hj => absurd (.inr ⟨b, hj⟩) (hnone j)⟩
  | write buf hidle hbuf hbit =>
    refine ⟨fun j hj => ?_, fun j hj => ?_, fun j b hj => ?_⟩
    · exact h.holds j (busy_update not_busy_success hj).2
    · exact h.bit j (busy_update not_busy_success hj).2
    · have hj := read_update not_busy_success hj
      -- the byte that was read is not written
      have hcovers : ¬ Covers (calls a.call).addr buf.length (calls j).addr.cell := fun hcov =>
        ha hidle j b hj ⟨hbit, buf, hbuf, hcov⟩
      rw [agRead_agWrite_of_not_covers hcovers]
      exact h.byte j b hj

theorem ordered_success {memory' : Memory} {writeMu : Option (Fin n)} (h : Ordered encode calls memory s)
    (hi : s.phase i ≠ .success) (hmemory : memory' = execute encode s.memory (calls i)) :
    Ordered encode calls memory { memory := memory', writeMu := writeMu, phase := update s.phase i .success } := by
  obtain ⟨order, hnodup, hmem, heq⟩ := h
  have hnot : i ∉ order := fun hmem' => hi ((hmem i).mp hmem')
  refine ⟨order ++ [i], nodup_append.mpr ⟨hnodup, nodup_singleton i, ?_⟩, fun j => ?_, ?_⟩
  · intro j hj k hk hjk
    rw [mem_singleton.mp hk] at hjk
    exact hnot (hjk ▸ hj)
  · rw [mem_append, hmem j]
    by_cases hj : j = i
    · subst hj
      simp
    · simp [hj]
  · rw [map_append, foldl_append, ← heq]
    exact hmemory

theorem ordered_other {writeMu : Option (Fin n)} (h : Ordered encode calls memory s) (hi : s.phase i ≠ .success)
    (hp : p ≠ .success) :
    Ordered encode calls memory { memory := s.memory, writeMu := writeMu, phase := update s.phase i p } := by
  obtain ⟨order, hnodup, hmem, heq⟩ := h
  refine ⟨order, hnodup, fun j => ?_, heq⟩
  rw [hmem j]
  by_cases hj : j = i
  · subst hj
    simp [hi, hp]
  · simp [hj]

/-- **One step keeps the memory that of the calls that have returned.** -/
theorem ordered_step (hstep : step encode calls s a = some s') (hs : Exclusive encode calls s)
    (h : Ordered encode calls memory s) : Ordered encode calls memory s' := by
  cases trans_of_step hstep with
  | fail hidle => exact ordered_other h (by rw [hidle]; nofun) nofun
  | release hbusy =>
    refine ordered_other h (fun hsuccess => ?_) nofun
    rw [hsuccess] at hbusy
    exact not_busy_success hbusy
  | lock buf hidle => exact ordered_other h (by rw [hidle]; nofun) nofun
  | read hlocked => exact ordered_other h (by rw [hlocked]; nofun) nofun
  | bitWrite b hread =>
    refine ordered_success h (by rw [hread]; nofun) ?_
    obtain ⟨hbit, buf, hbuf⟩ := hs.bit a.call (.inr ⟨b, hread⟩)
    unfold execute
    simp [hbuf, hbit, hs.byte a.call b hread]
  | write buf hidle hbuf hbit =>
    refine ordered_success h (by rw [hidle]; nofun) ?_
    unfold execute
    simp [hbuf, hbit]

end

/-- **In every interleaving in which all calls succeed and nothing is written over a byte between the two requests of
a bit write to it, the memory is that of the calls executed in some order.** -/
theorem serialisable_run (encode : GoValue → S7Address → DataType → Option (List UInt8)) {n : ℕ}
    (calls : Fin n → Call) (memory : Memory) (acts : List (Act n)) (s : State n)
    (hrun : Run (step encode calls) (Undisturbed encode calls) { memory := memory } acts s)
    (hsuccess : ∀ i, s.phase i = .success) :
    ∃ order : List (Fin n), order.Perm (List.finRange n) ∧
      s.memory = (order.map calls).foldl (execute encode) memory := by
  have hinv := hrun.invariant (I := fun s => Exclusive encode calls s ∧ Ordered encode calls memory s)
    (fun s a s' ha hstep h => ⟨exclusive_step ha hstep h.1, ordered_step hstep h.1 h.2⟩) ?_
  · obtain ⟨order, hnodup, hmem, heq⟩ := hinv.2
    refine ⟨order, (perm_ext_iff_of_nodup hnodup (nodup_finRange n)).mpr fun i => ?_, heq⟩
    simp [hmem i, hsuccess i]
  · have hidle : ∀ j : Fin n, ¬ (({ memory := memory } : State n).phase j).Busy := by
      rintro j (h | ⟨b, h⟩) <;> cases h
    exact ⟨⟨fun j hj => absurd hj (hidle j), fun j hj => absurd hj (hidle j), nofun⟩, [], nodup_nil, by simp, rfl⟩

end CoreC.S7.Write
