import Mathlib.Data.List.TakeWhile
import CoreC.Lib.Runs

/-! # The append-only JSON Lines store

`jsonlStore` keeps records as lines of a file: `append` writes and syncs one line, and `load` reads the
lines back and skips those that do not decode. A crash leaves a proper prefix of the line that was being
written. The store is then re-opened in append mode, so the next record continues the torn line:
the glued line does not decode, and the record whose `append` returned is lost
(`append_after_crash_lost`). -/

namespace CoreC.Engine.JsonlStore

open Lib.Runs List

def newline : UInt8 := 10

def carriageReturn : UInt8 := 13

/-- What `json.Marshal` and `json.Unmarshal` make of records; an encoding is one line. -/
structure Format (T : Type) where
  marshal : T → Option (List UInt8)
  unmarshal : List UInt8 → Option T
  newline_notMem : ∀ e line, marshal e = some line → newline ∉ line
  not_carriageReturn : ∀ e line, marshal e = some line → line.getLast? ≠ some carriageReturn

/-- The files of a store, and the records whose `append` has returned. The rotated generation is absent
until the first rotation. -/
structure Store (T : Type) where
  rotated : Option (List UInt8) := none
  file : List UInt8 := []
  isOpen : Bool := false
  completed : List T := []

/-- What happens to a store. A crash during the `append` of `e` leaves the first `k` bytes of its
line. -/
inductive Event (T : Type) where
  | newStore
  | append (e : T)
  | crash (e : T) (k : ℕ)
  | close

section

variable {T : Type} (fmt : Format T) (maxBytes : ℕ)

/-- The record is encoded, and decoded to itself. Not every record of the engine is: a value may come back with another
type of Go. -/
def Faithful (e : T) : Prop := ∃ line, fmt.marshal e = some line ∧ fmt.unmarshal line = some e

variable (s : Store T)

def rotateLocked : Store T :=
  if s.file.length < maxBytes then s else { s with rotated := some s.file, file := [] }

/-- `append`; a record that cannot be encoded is only logged. -/
def append (e : T) : Store T :=
  match fmt.marshal e with
  | none => s
  | some line => rotateLocked maxBytes { s with file := s.file ++ (line ++ [newline]) }

/-- One event; `none` if it cannot happen in this state. -/
def step : Event T → Option (Store T)
  | .newStore => if s.isOpen then none else some { s with isOpen := true }
  | .append e =>
    if s.isOpen then some { append fmt maxBytes s e with completed := s.completed ++ [e] } else none
  | .crash e k =>
    match fmt.marshal e with
    | none => none
    | some line =>
      if s.isOpen ∧ k ≤ line.length then some { s with file := s.file ++ line.take k, isOpen := false }
      else none
  | .close => if s.isOpen then some { s with isOpen := false } else none

/-- The lines of a file, the last one with or without its terminator; `acc` is the line read so
far. -/
def scanLines : List UInt8 → List UInt8 → List (List UInt8)
  | acc, [] => if acc = [] then [] else [acc]
  | acc, b :: bs => if b = newline then acc :: scanLines [] bs else scanLines (acc ++ [b]) bs

def dropCR (line : List UInt8) : List UInt8 :=
  if line.getLast? = some carriageReturn then line.dropLast else line

def maxLine : ℕ := 1048576

/-- The records of one file: the scanner stops at a line that is too long, and lines that do not decode
are skipped. -/
def loadFile (file : List UInt8) : List T :=
  ((scanLines [] file).takeWhile fun line => line.length < maxLine).filterMap fun line =>
    fmt.unmarshal (dropCR line)

/-- `load`: the rotated generation first, at most `limit` entries. -/
def load (limit : ℕ) : List T :=
  let entries := loadFile fmt (s.rotated.getD []) ++ loadFile fmt s.file
  entries.drop (entries.length - limit)

end

/-! ### Lines -/

theorem scanLines_of_notMem : ∀ {l acc : List UInt8}, newline ∉ l → ∀ r,
    scanLines acc (l ++ newline :: r) = (acc ++ l) :: scanLines [] r
  | [], acc, _, r => by simp [scanLines]
  | b :: l, acc, h, r => by
    rw [mem_cons, not_or] at h
    rw [cons_append, scanLines, if_neg (Ne.symm h.1), scanLines_of_notMem h.2]
    simp

def Terminated (file : List UInt8) : Prop := file = [] ∨ file.getLast? = some newline

theorem scanLines_append : ∀ l acc r,
    scanLines acc (l ++ newline :: r) = scanLines acc (l ++ [newline]) ++ scanLines [] r
  | [], acc, r => by simp [scanLines]
  | b :: l, acc, r => by
    rw [cons_append, cons_append, scanLines, scanLines]
    split_ifs
    · rw [scanLines_append l [] r, cons_append]
    · exact scanLines_append l _ r

/-- **Complete lines are read independently of what follows.** -/
theorem scanLines_terminated {l : List UInt8} (h : Terminated l) (r : List UInt8) :
    scanLines [] (l ++ r) = scanLines [] l ++ scanLines [] r := by
  rcases h with rfl | h
  · simp [scanLines]
  · obtain ⟨l', rfl⟩ := List.getLast?_eq_some_iff.mp h
    rw [append_assoc, singleton_append, scanLines_append]

theorem scanLines_line {l : List UInt8} (h : newline ∉ l) : scanLines [] (l ++ [newline]) = [l] := by
  rw [scanLines_of_notMem h]
  simp [scanLines]

/-! ### What the file holds -/

section

variable {T : Type} {fmt : Format T} {maxBytes : ℕ} {s s' : Store T}

def decode (fmt : Format T) (file : List UInt8) : List T :=
  (scanLines [] file).filterMap fun line => fmt.unmarshal (dropCR line)

theorem decode_append {l : List UInt8} (h : Terminated l) (r : List UInt8) :
    decode fmt (l ++ r) = decode fmt l ++ decode fmt r := by
  unfold decode
  rw [scanLines_terminated h, filterMap_append]

theorem decode_line {e : T} {line : List UInt8} (h : fmt.marshal e = some line) (hread : fmt.unmarshal line = some e) :
    decode fmt (line ++ [newline]) = [e] := by
  unfold decode
  rw [scanLines_line (fmt.newline_notMem e line h)]
  simp [dropCR, fmt.not_carriageReturn e line h, hread]

/-- Complete lines that hold the completed records in order, and a torn rest. -/
structure Inv (fmt : Format T) (s : Store T) : Prop where
  rotated : s.rotated = none
  file : ∃ body tail, s.file = body ++ tail ∧ Terminated body ∧ newline ∉ tail ∧ s.completed.Sublist (decode fmt body)

/-- An append to a file of complete lines, of a record that is decoded to itself, without rotation; every other event
is allowed. -/
def Allowed (fmt : Format T) (maxBytes : ℕ) (s : Store T) : Event T → Prop
  | .append e => Terminated s.file ∧ ∃ line, fmt.marshal e = some line ∧ fmt.unmarshal line = some e ∧
      (s.file ++ (line ++ [newline])).length < maxBytes
  | _ => True

theorem append_allowed {e : T} {line : List UInt8} (hline : fmt.marshal e = some line)
    (hsize : (s.file ++ (line ++ [newline])).length < maxBytes) :
    append fmt maxBytes s e = { s with file := s.file ++ (line ++ [newline]) } := by
  unfold append rotateLocked
  rw [hline]
  exact if_pos hsize

theorem inv_step {ev : Event T} (hP : Allowed fmt maxBytes s ev)
    (hstep : step fmt maxBytes s ev = some s') (hI : Inv fmt s) : Inv fmt s' := by
  obtain ⟨hrot, body, tail, hfile, hbody, htail, hsub⟩ := hI
  cases ev with
  | append e =>
    obtain ⟨hterm, line, hline, hread, hsize⟩ := hP
    simp only [step, append_allowed hline hsize] at hstep
    split_ifs at hstep
    cases hstep
    refine ⟨hrot, s.file ++ (line ++ [newline]), [], by simp, .inr (by simp), by simp, ?_⟩
    rw [decode_append hterm, decode_line hline hread, hfile, decode_append hbody]
    exact (hsub.trans (sublist_append_left _ _)).append (Sublist.refl _)
  | crash e k =>
    cases hline : fmt.marshal e with
    | none => simp [step, hline] at hstep
    | some line =>
      simp only [step, hline] at hstep
      split_ifs at hstep
      cases hstep
      refine ⟨hrot, body, tail ++ line.take k, by simp [hfile], hbody, ?_, hsub⟩
      rw [mem_append, not_or]
      exact ⟨htail, fun h => fmt.newline_notMem e line hline (mem_of_mem_take h)⟩
  | newStore | close =>
    simp only [step] at hstep
    split_ifs at hstep
    cases hstep
    exact ⟨hrot, body, tail, hfile, hbody, htail, hsub⟩

theorem inv_init : Inv fmt ({} : Store T) :=
  ⟨rfl, [], [], rfl, .inl rfl, by simp, Sublist.refl _⟩

/-- **A load returns every record whose `append` returned, in order**, after every run of appends,
crashes and re-openings in which no record is appended to a torn line. -/
theorem completed_sublist_load {events : List (Event T)}
    (hrun : Run (step fmt maxBytes) (Allowed fmt maxBytes) {} events s)
    (hlines : ∀ line ∈ scanLines [] s.file, line.length < maxLine) {limit : ℕ}
    (hlimit : (loadFile fmt s.file).length ≤ limit) :
    s.completed.Sublist (load fmt s limit) := by
  obtain ⟨hrot, body, tail, hfile, hbody, -, hsub⟩ :=
    hrun.invariant (fun s a s' => inv_step) inv_init
  have hload : loadFile fmt s.file = decode fmt s.file := by
    unfold loadFile decode
    rw [takeWhile_eq_self_iff.mpr fun line hline => by simpa using hlines line hline]
  have hnone : loadFile fmt (s.rotated.getD []) = [] := by
    rw [hrot]
    rfl
  unfold load
  dsimp only
  rw [hnone, nil_append, Nat.sub_eq_zero_of_le hlimit, drop_zero, hload, hfile, decode_append hbody]
  exact hsub.trans (sublist_append_left _ _)

end

/-! ### Appending to a torn line -/

def boolFormat : Format Bool where
  marshal b := some (if b then [116, 114, 117, 101] else [102, 97, 108, 115, 101])
  unmarshal line :=
    if line = [116, 114, 117, 101] then some true
    else if line = [102, 97, 108, 115, 101] then some false else none
  newline_notMem e line h := by cases e <;> cases h <;> decide
  not_carriageReturn e line h := by cases e <;> cases h <;> decide

theorem boolFormat_faithful (b : Bool) : Faithful boolFormat b := ⟨_, rfl, by cases b <;> rfl⟩

/-- **A crash after the first byte of a line, and the next record is lost.** -/
theorem append_after_crash_lost : ∃ s, Run (step boolFormat 1000) (fun _ _ => True) {}
        [.newStore, .append true, .crash true 1, .newStore, .append false] s ∧
      s.completed = [true, false] ∧ load boolFormat s 10 = [true] :=
  ⟨_, .cons trivial rfl (.cons trivial rfl (.cons trivial rfl (.cons trivial rfl
    (.cons trivial rfl (.nil _))))), rfl, by decide⟩

/-- A crash at the end of a run loses the torn record only. -/
theorem completed_sublist_load_crash :
    ∃ s : Store Bool, s.completed = [true, false] ∧ s.completed.Sublist (load boolFormat s 10) := by
  have hrun : Run (step boolFormat 1000) (Allowed boolFormat 1000) {}
      [.newStore, .append true, .append false, .crash true 2] _ :=
    .cons trivial rfl (.cons ⟨.inl rfl, _, rfl, rfl, by decide⟩ rfl
      (.cons ⟨.inr rfl, _, rfl, rfl, by decide⟩ rfl (.cons trivial rfl (.nil _))))
  exact ⟨_, rfl, completed_sublist_load hrun (by decide) (show _ ≤ 10 by decide)⟩

end CoreC.Engine.JsonlStore
