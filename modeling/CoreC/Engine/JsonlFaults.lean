import CoreC.Engine.Generations

/-! # The JSON Lines store when operations fail

`append` and `rotateLocked` of `jsonlStore` with the failures of the operations below them. A failing write leaves its
error in the `bufio.Writer`, which returns it to every later append; a rotation that fails after the file has been closed
leaves the closed file in the store. Only a rotation brings a new writer, and a dead store never reaches one. Without
these failures the files are those of `JsonlStore` (`mirrors_append`). -/

namespace CoreC.Engine.JsonlFaults

open Engine.JsonlStore Engine.Generations Lib.Runs List

/-- The operations of one `append` that fail; a failing write has written some bytes of the line. -/
structure Faults where
  write : Option ℕ := none
  sync : Bool := false
  close : Bool := false
  rename : Bool := false
  openFile : Bool := false
  deriving DecidableEq, Repr

/-- The files at `path.old` and `path`, whether the file of the store is open, and the error of its writer. -/
structure FaultyStore where
  old : Option (List UInt8) := none
  file : Option (List UInt8) := some []
  isOpen : Bool := true
  writerErr : Bool := false
  deriving DecidableEq, Repr

section

variable {T : Type} (fmt : Format T) (maxBytes : ℕ)

/-- `rotateLocked`; the buffer of the writer is empty here. -/
def rotateLocked (faults : Faults) (s : FaultyStore) : FaultyStore :=
  match s.file with
  | none => s
  | some file =>
    if file.length < maxBytes then s
    -- a `Close` that fails has closed the file too
    else if faults.close then { s with isOpen := false }
    else if faults.rename then { s with isOpen := false }
    else if faults.openFile then { s with old := some file, file := none, isOpen := false }
    else { old := some file, file := some [], isOpen := true, writerErr := false }

/-- `append`: the line goes to the file in one write, by `Write` if it does not fit the buffer, else by `Flush`. -/
def append (faults : Faults) (s : FaultyStore) (e : T) : FaultyStore :=
  match fmt.marshal e with
  | none => s
  | some line =>
    if s.writerErr then s
    else if s.isOpen then
      match faults.write with
      | some n => { s with file := s.file.map (· ++ (line ++ [newline]).take n), writerErr := true }
      -- a failing sync is only logged
      | none => rotateLocked maxBytes faults { s with file := s.file.map (· ++ (line ++ [newline])) }
    else { s with writerErr := true }

/-- An append, with the faults that it meets. -/
def step (s : FaultyStore) (call : T × Faults) : Option FaultyStore := some (append fmt maxBytes call.2 s call.1)

def load (s : FaultyStore) (limit : ℕ) : List T :=
  let entries := loadFile fmt (s.old.getD []) ++ loadFile fmt (s.file.getD [])
  entries.drop (entries.length - limit)

/-- The call brings its record into a file of complete lines: the record is decoded to itself and is not longer than the
scanner reads, it is written, and if the file has to be rotated, this works. -/
def Survives (s : FaultyStore) (call : T × Faults) : Prop :=
  (Faithful fmt call.1 ∧ Short fmt call.1) ∧ call.2.write = none ∧
    (maxBytes ≤ (s.file.getD [] ++ lineOf fmt call.1).length →
      call.2.close = false ∧ call.2.rename = false ∧ call.2.openFile = false)

end

section

variable {T : Type} {fmt : Format T} {maxBytes : ℕ}

/-- The store works, and has the files of the store without failures. -/
structure Mirrors (s : FaultyStore) (t : Store T) : Prop where
  old : s.old = t.rotated
  file : s.file = some t.file
  isOpen : s.isOpen = true
  writerErr : s.writerErr = false

theorem mirrors_append {s : FaultyStore} {t : Store T} (h : Mirrors s t) {call : T × Faults}
    (hcall : Survives fmt maxBytes s call) :
    Mirrors (append fmt maxBytes call.2 s call.1) (JsonlStore.append fmt maxBytes t call.1) := by
  obtain ⟨hold, hfile, hopen, herr⟩ := h
  obtain ⟨⟨⟨line, hline, -⟩, -⟩, hwrite, hrotates⟩ := hcall
  have hlineOf : lineOf fmt call.1 = line ++ [newline] := by rw [lineOf, hline, Option.getD_some]
  rw [hfile, Option.getD_some, hlineOf] at hrotates
  unfold append rotateLocked JsonlStore.append JsonlStore.rotateLocked
  simp only [hline, herr, hopen, hwrite, hfile, Bool.false_eq_true, if_false, if_true, Option.map_some]
  by_cases hfits : (t.file ++ (line ++ [newline])).length < maxBytes
  · rw [if_pos hfits, if_pos hfits]
    exact ⟨hold, rfl, rfl, rfl⟩
  · obtain ⟨hclose, hrename, hopenFile⟩ := hrotates (not_lt.mp hfits)
    simp only [if_neg hfits, hclose, hrename, hopenFile, Bool.false_eq_true, if_false]
    exact ⟨rfl, rfl, rfl, rfl⟩

theorem mirrors_run {calls : List (T × Faults)} : ∀ {s s' : FaultyStore} {t : Store T}, Mirrors s t →
    Run (step fmt maxBytes) (Survives fmt maxBytes) s calls s' →
      Mirrors s' ((calls.map Prod.fst).foldl (JsonlStore.append fmt maxBytes) t) ∧
        ∀ e ∈ calls.map Prod.fst, Faithful fmt e ∧ Short fmt e := by
  intro s s' t h hrun
  induction hrun generalizing t with
  | nil => exact ⟨h, nofun⟩
  | cons hcall hstep _ ih =>
    cases hstep
    obtain ⟨hmirrors, hrest⟩ := ih (mirrors_append h hcall)
    exact ⟨hmirrors, forall_mem_cons.mpr ⟨hcall.1, hrest⟩⟩

end

theorem kept_append_singleton_ne_nil {T : Type} (fmt : Format T) (maxBytes : ℕ) (es : List T) (e : T) :
    (kept fmt maxBytes (es ++ [e])).all ≠ [] := by
  rw [kept_append_singleton]
  unfold keep
  split_ifs
  · simp [Kept.all]
  · simp [Kept.all]

/-- **After every run of appends that the store survives, a load returns the last records, as many as its limit or as
the two files keep**; and the files keep the record that was appended last. -/
theorem recovers_run {T : Type} (fmt : Format T) (maxBytes : ℕ) (calls : List (T × Faults)) (s : FaultyStore)
    (hrun : Run (step fmt maxBytes) (Survives fmt maxBytes) {} calls s) :
    (∀ limit, load fmt s limit = (calls.map Prod.fst).drop
      (calls.length - min limit (kept fmt maxBytes (calls.map Prod.fst)).all.length)) ∧
    (calls ≠ [] → (kept fmt maxBytes (calls.map Prod.fst)).all ≠ []) := by
  have hnew : Mirrors {} ({ isOpen := true } : Store T) := ⟨rfl, rfl, rfl, rfl⟩
  obtain ⟨⟨hold, hfile, -, -⟩, hcalls⟩ := mirrors_run hnew hrun
  constructor
  · intro limit
    have hload : load fmt s limit = JsonlStore.load fmt (stored fmt maxBytes (calls.map Prod.fst)) limit := by
      unfold load JsonlStore.load
      rw [hold, hfile]
      rfl
    have hsuffix : (kept fmt maxBytes (calls.map Prod.fst)).all <:+ calls.map Prod.fst := kept_suffix _
    rw [hload, load_of_short (holds_stored fun e he => (hcalls e he).1) fun e he => hcalls e (hsuffix.subset he),
      length_map]
  · intro hne
    obtain ⟨before, call, rfl⟩ := (eq_nil_or_concat calls).resolve_left hne
    rw [concat_eq_append, map_append]
    exact kept_append_singleton_ne_nil fmt maxBytes _ call.1

/-- The sync of the first record fails, and a rotation would; the second record is appended after the failure. -/
theorem recovers_run_sync :
    ∃ s, Run (step boolFormat 1000) (Survives boolFormat 1000) {}
        [(true, { sync := true, rename := true }), (false, {})] s ∧ load boolFormat s 2 = [true, false] := by
  have hworks (s : FaultyStore) (b sync rename : Bool) (h : (s.file.getD [] ++ lineOf boolFormat b).length < 1000) :
      Survives boolFormat 1000 s (b, { sync := sync, rename := rename }) := by
    have hshort : ∀ b, Short boolFormat b := by decide
    exact ⟨⟨boolFormat_faithful b, hshort b⟩, rfl, fun hfull => absurd h (not_lt.mpr hfull)⟩
  exact Run.exists_of_forall (fun _ hrun => (recovers_run boolFormat 1000 _ _ hrun).1 2)
    ⟨_, .cons (hworks _ true true true (by decide)) rfl (.cons (hworks _ false false false (by decide)) rfl (.nil _)), id⟩

/-- **One failing write, and a record appended later without any failure is lost.** -/
theorem lost_after_failing_write :
    ∃ s, Run (step boolFormat 1000) (fun _ _ => True) {} [(true, { write := some 0 }), (false, {})] s ∧
      ∀ limit, load boolFormat s limit = [] :=
  ⟨_, .cons trivial rfl (.cons trivial rfl (.nil _)), fun limit => by
    rw [load]
    exact drop_nil⟩

end CoreC.Engine.JsonlFaults
