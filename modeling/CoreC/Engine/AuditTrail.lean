import CoreC.Core.AuditJson
import CoreC.Engine.DeadLetters
import CoreC.Engine.Generations

/-! # The write audit trail

`writeAuditTrail` (`engine/write_audit_store.go`): a history of the latest 1000 write attempts, mirrored to a JSON Lines
store if `write-audit-path` is set. Every `Reload` configures the trail anew: the history is dropped, and what the store
of the new path holds is read back. Without a path nothing is (`lost_by_reload`). -/

namespace CoreC.Engine.AuditTrail

open Core.Types Core.AuditJson Core.PointJson Lib.Runs List
open Engine.Write Engine.JsonlStore Engine.Generations
open Engine.DeadLetters (defaultStoreBytes latest_latest)

/-! ### The entries on disk -/

def auditFormat (c : LineCodec) : JsonlStore.Format WriteAuditEntry where
  marshal := marshalAudit c.toCodec
  unmarshal := decodeAudit c.toCodec
  newline_notMem e line h hmem := printable_marshalAudit c h newline hmem (by decide)
  not_carriageReturn e line h hlast :=
    printable_marshalAudit c h carriageReturn (mem_of_getLast? hlast) (by decide)

theorem faithful_of_plain {c : LineCodec} {e : WriteAuditEntry} (htime : (c.formatTime e.timestamp).isSome = true)
    (hvalue : Plain c.toCodec e.value) : Faithful (auditFormat c) e := by
  obtain ⟨time, ht⟩ := Option.isSome_iff_exists.mp htime
  have hline : marshalAudit c.toCodec e = some (CoreC.Lib.Json.Parse.render (auditDoc c.toCodec e time)) := by
    rw [marshalAudit, ht, Option.map_some]
  exact ⟨_, hline, decodeAudit_marshalAudit hline hvalue.2 hvalue.1⟩

/-! ### The engine -/

section

variable {δ : Type}

/-- The writes of an engine, the files at every path, and the path of the store that is open; empty if none is. -/
structure Trail (δ : Type) where
  writes : WriteManager δ
  files : String → Store WriteAuditEntry := fun _ => {}
  path : String := ""

/-- The trail before the first start. -/
def new (writes : WriteManager δ) (files : String → Store WriteAuditEntry) : Trail δ :=
  { writes := { writes with writeAudits := [], auditLog := [] }, files }

/-- What happens to the engine. A reload may change everything but the trail: `rest` is what it leaves of the write
manager; `opens` if the store of the path can be opened. -/
inductive Op (δ : Type) where
  | writeTag (cmd : WriteCommand)
  | reload (path : String) (opens : Bool) (rest : WriteManager δ)

def writeHistory (w : WriteManager δ) : List WriteAuditEntry := w.writeAudits.reverse

variable (env : Env δ) (c : LineCodec)

def configure (path : String) (opens : Bool) (s : Trail δ) : Trail δ :=
  if path = "" ∨ opens = false then { s with writes := { s.writes with writeAudits := [] }, path := "" }
  else
    { s with
      writes := { s.writes with writeAudits := load (auditFormat c) (s.files path) writeAuditCapacity }
      path := path }

def mirror (entries : List WriteAuditEntry) (s : Trail δ) : Trail δ :=
  if s.path = "" then s
  else { s with files := Function.update s.files s.path
                  (entries.foldl (append (auditFormat c) defaultStoreBytes) (s.files s.path)) }

def step (s : Trail δ) : Op δ → Trail δ
  | .writeTag cmd =>
    let writes := (writeTag env cmd s.writes).2
    mirror c (writes.auditLog.drop s.writes.auditLog.length) { s with writes }
  | .reload path opens rest =>
    configure c path opens
      { s with writes := { rest with writeAudits := s.writes.writeAudits, auditLog := s.writes.auditLog } }

/-- The history is the latest writes of the log. -/
def Exact (s : Trail δ) : Prop :=
  writeHistory s.writes = (latest writeAuditCapacity s.writes.auditLog).reverse

/-- There is nothing in the files. -/
def Blank (files : String → Store WriteAuditEntry) (path : String) : Prop :=
  (files path).rotated.getD [] = [] ∧ (files path).file = []

def Covers (attempts : List WriteAuditEntry) : Prop :=
  min writeAuditCapacity attempts.length ≤ (kept (auditFormat c) defaultStoreBytes attempts).all.length

/-- A mirrored attempt can be read back, and the files hold the latest attempts with it; a reload keeps the path, or
comes before the first attempt and finds nothing at its path. -/
def Durable (s : Trail δ) : Op δ → Prop
  | .writeTag cmd => s.path ≠ "" → Plain c.toCodec cmd.value ∧
      ∀ e, (writeTag env cmd s.writes).2.auditLog = s.writes.auditLog ++ [e] →
        (c.formatTime e.timestamp).isSome = true ∧ Short (auditFormat c) e ∧ Covers c (s.writes.auditLog ++ [e])
  | .reload path opens _ => path = s.path ∧ path ≠ "" ∧ opens = true ∨
      s.writes.auditLog = [] ∧ (path = "" ∨ opens = false ∨ Blank s.files path)

end

/-! ### What holds after every operation -/

section

variable {δ : Type} {env : Env δ} {c : LineCodec} {s : Trail δ}

/-- The files hold the attempts since the rotation before the last one, all of which can be read back. -/
structure Stored (c : LineCodec) (attempts : List WriteAuditEntry) (store : Store WriteAuditEntry) : Prop where
  holds : Holds (auditFormat c) (kept (auditFormat c) defaultStoreBytes attempts) store
  readable : ∀ e ∈ attempts, Faithful (auditFormat c) e ∧ Short (auditFormat c) e
  covers : Covers c attempts

/-- The history is exact, and so is what an open store holds. -/
structure Inv (c : LineCodec) (s : Trail δ) : Prop where
  exact : s.writes.writeAudits = latest writeAuditCapacity s.writes.auditLog
  stored : s.path ≠ "" → Stored c s.writes.auditLog (s.files s.path)

variable {attempts : List WriteAuditEntry} {store : Store WriteAuditEntry}

theorem Stored.load (h : Stored c attempts store) :
    load (auditFormat c) store writeAuditCapacity = latest writeAuditCapacity attempts := by
  have hsuffix : (kept (auditFormat c) defaultStoreBytes attempts).all <:+ attempts := kept_suffix attempts
  have hcovers : min writeAuditCapacity attempts.length ≤
      (kept (auditFormat c) defaultStoreBytes attempts).all.length := h.covers
  have hindex : attempts.length - min writeAuditCapacity (kept (auditFormat c) defaultStoreBytes attempts).all.length =
      attempts.length - writeAuditCapacity := by omega
  rw [load_of_short h.holds fun e he => h.readable e (hsuffix.subset he), hindex, latest]

theorem stored_nil {path : String} {files : String → Store WriteAuditEntry} (h : Blank files path) :
    Stored c [] (files path) :=
  ⟨⟨h.1, h.2⟩, fun _ he => absurd he not_mem_nil, Nat.zero_le _⟩

theorem Stored.append {e : WriteAuditEntry}
    (h : Stored c attempts store) (he : Faithful (auditFormat c) e) (hshort : Short (auditFormat c) e)
    (hcovers : Covers c (attempts ++ [e])) :
    Stored c (attempts ++ [e]) (append (auditFormat c) defaultStoreBytes store e) where
  holds := by
    rw [kept_append_singleton]
    exact holds_append h.holds he
  readable := forall_mem_append.mpr ⟨h.readable, fun x hx => by rw [mem_singleton.mp hx]; exact ⟨he, hshort⟩⟩
  covers := hcovers

theorem inv_new (writes : WriteManager δ) (files : String → Store WriteAuditEntry) : Inv c (new writes files) where
  exact := by simp [new, latest]
  stored h := absurd rfl h

theorem inv_writeTag {cmd : WriteCommand} (h : Inv c s) (hdur : Durable env c s (.writeTag cmd)) :
    Inv c (step env c s (.writeTag cmd)) := by
  obtain ⟨success, err, w, haudited⟩ := writeTag_audited env cmd s.writes
  obtain ⟨e, hof, hlog, haudits⟩ : ∃ e, OfCommand cmd e ∧ (writeTag env cmd s.writes).2.auditLog =
      s.writes.auditLog ++ [e] ∧ (writeTag env cmd s.writes).2.writeAudits =
        latest writeAuditCapacity (s.writes.writeAudits ++ [e]) :=
    ⟨_, ofCommand_auditEntry env cmd success err w, haudited.auditLog, haudited.writeAudits⟩
  have hdrop : (writeTag env cmd s.writes).2.auditLog.drop s.writes.auditLog.length = [e] := by
    rw [hlog, drop_left]
  have hexact : (writeTag env cmd s.writes).2.writeAudits =
      latest writeAuditCapacity (writeTag env cmd s.writes).2.auditLog := by
    rw [haudits, hlog, h.exact, latest_latest]
  unfold step mirror
  dsimp only
  rw [hdrop]
  by_cases hpath : s.path = ""
  · rw [if_pos hpath]
    exact ⟨hexact, fun hne => absurd hpath hne⟩
  · rw [if_neg hpath]
    refine ⟨hexact, fun _ => ?_⟩
    obtain ⟨hplain, hentry⟩ := hdur hpath
    obtain ⟨htime, hshort, hcovers⟩ := hentry e hlog
    dsimp only
    rw [Function.update_self, hlog]
    exact (h.stored hpath).append (faithful_of_plain htime (hof.value ▸ hplain)) hshort hcovers

theorem inv_reload {path : String} {opens : Bool} {rest : WriteManager δ} (h : Inv c s)
    (hdur : Durable env c s (.reload path opens rest)) : Inv c (step env c s (.reload path opens rest)) := by
  unfold step configure
  dsimp only
  rcases hdur with ⟨rfl, hne, hopens⟩ | ⟨hnone, hpath⟩
  · have hstored := h.stored hne
    rw [if_neg (by simp [hne, hopens])]
    exact { exact := by dsimp only; exact hstored.load, stored := fun _ => hstored }
  · split_ifs with hclosed
    · exact ⟨by simp [hnone, latest], fun hne => absurd rfl hne⟩
    · have hblank : Blank s.files path := by
        rcases hpath with hpath | hpath | hpath
        · exact absurd (.inl hpath) hclosed
        · exact absurd (.inr hpath) hclosed
        · exact hpath
      have hstored : Stored c s.writes.auditLog (s.files path) := hnone ▸ stored_nil hblank
      exact { exact := by dsimp only; exact hstored.load, stored := fun _ => hstored }

end

/-! ### Whole runs -/

/-- **After every operation of a run whose operations are durable, `WriteHistory` is the latest attempts since the
engine was created, newest first and unchanged.** -/
theorem history_run {δ : Type} (env : Env δ) (c : LineCodec) (writes : WriteManager δ)
    (files : String → Store WriteAuditEntry) (ops : List (Op δ)) (s : Trail δ)
    (hrun : Run (fun s op => some (step env c s op)) (Durable env c) (new writes files) ops s) : Exact s := by
  have hinv : Inv c s := by
    refine hrun.invariant (I := Inv c) (fun s op s' hdur hstep h => ?_) (inv_new writes files)
    cases hstep
    cases op with
    | writeTag cmd => exact inv_writeTag h hdur
    | reload path opens rest => exact inv_reload h hdur
  rw [Exact, writeHistory, hinv.exact]

/-! ### With and without a path -/

theorem writes_writeTag {δ : Type} (env : Env δ) (c : LineCodec) (s : Trail δ) (cmd : WriteCommand) :
    (step env c s (.writeTag cmd)).writes = (writeTag env cmd s.writes).2 := by
  unfold step mirror
  dsimp only
  split_ifs <;> rfl

theorem not_exact_of_no_path {δ : Type} (env : Env δ) (c : LineCodec) (s : Trail δ) (cmd : WriteCommand) (opens : Bool)
    (rest : WriteManager δ) : ¬ Exact (step env c (step env c s (.writeTag cmd)) (.reload "" opens rest)) := by
  obtain ⟨success, err, w, haudited⟩ := writeTag_audited env cmd s.writes
  have hlog := haudited.auditLog
  rw [← writes_writeTag env c] at hlog
  generalize step env c s (.writeTag cmd) = t at hlog
  intro hexact
  have hhistory : [] = (latest writeAuditCapacity t.writes.auditLog).reverse := hexact
  have hlength := congrArg List.length hhistory
  rw [hlog, length_nil, length_reverse, latest, length_drop, length_append, length_singleton] at hlength
  have hcapacity : 0 < writeAuditCapacity := by decide
  omega

def stillEnv : Env Unit where
  now _ := 0
  write _ _ _ := (.ok [{ success := true }], ())
  forwardCommand _ _ _ := none
  wait _ _ := (false, ())
  quoted := id
  duration _ := ""

def epochLines : LineCodec where
  toCodec := epochCodec
  float_line _ := show CoreC.Lib.Json.Line.Printable [0x30] by decide
  float32_line _ := show CoreC.Lib.Json.Line.Printable [0x30] by decide

def plcWrites : WriteManager Unit where
  world := ()
  drivers := ["plc"]

def openValve : WriteCommand := { driver := "plc", tag := "valve", value := .bool true }

def valveEntry : WriteAuditEntry := auditEntry stillEnv openValve true "" ()

/-- The attempt is mirrored, and read back by a reload. -/
theorem history_run_mirrored : ∃ s, Run (fun s op => some (step stillEnv epochLines s op)) (Durable stillEnv epochLines)
      (new plcWrites fun _ => {})
      [.reload "audit" true plcWrites, .writeTag openValve, .reload "audit" true plcWrites] s ∧
    s.writes.auditLog = [valveEntry] ∧ Exact s := by
  have hdur : Durable stillEnv epochLines
      (step stillEnv epochLines (new plcWrites fun _ => {}) (.reload "audit" true plcWrites))
      (.writeTag openValve) := by
    refine fun _ => ⟨plain_bool _ true, fun e he => ?_⟩
    obtain rfl : valveEntry = e := List.cons.inj he |>.1
    exact ⟨by decide, by decide +kernel, by unfold Covers; decide +kernel⟩
  exact Run.exists_of_forall (history_run stillEnv epochLines plcWrites _ _)
    ⟨_, .cons (.inr ⟨rfl, .inr (.inr ⟨rfl, rfl⟩)⟩) rfl (.cons hdur rfl (.cons (.inl ⟨rfl, by decide, rfl⟩) rfl
      (.nil _))), fun hexact => ⟨rfl, hexact⟩⟩

/-- **A reload without `write-audit-path` loses the history.** -/
theorem lost_by_reload : ∃ s, Run (fun s op => some (step stillEnv epochLines s op)) (fun _ _ => True)
      (new plcWrites fun _ => {}) [.writeTag openValve, .reload "" true plcWrites] s ∧
    s.writes.auditLog = [valveEntry] ∧ writeHistory s.writes = [] ∧ ¬ Exact s :=
  ⟨_, .cons trivial rfl (.cons trivial rfl (.nil _)), rfl, rfl,
    not_exact_of_no_path stillEnv epochLines (new plcWrites fun _ => {}) openValve true plcWrites⟩

end CoreC.Engine.AuditTrail
