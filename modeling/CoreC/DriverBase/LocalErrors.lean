import CoreC.S7.BitWrite

/-! # Errors that look like a lost connection

`IsConnectionError` (`common/util`) looks for keywords in the text of an error. `Write` of the Modbus and the S7 driver
and `Read` of the Modbus driver call it for every error of a tag and give the connection up if it says so, also for
errors that were found before any request was sent, and most of these contain the name of the tag.

* `mentions_bitAreaError` and its neighbours: such a text has a keyword exactly if the name has one. -/

namespace CoreC.DriverBase.LocalErrors

open Core.Types Lib.GoText Modbus.Driver S7.Codec List
open S7.Write (S7Address)
open S7.BitWrite (S7Driver Answers plainHelper)
open Modbus.RoundTrip (amd64)

/-! ### Keywords -/

def connectionErrorKeywords : List String :=
  ["connection", "broken pipe", "EOF", "reset", "refused", "timeout", "closed", "aborted", "deadline exceeded"]

/-- `IsConnectionError`, of an error with this text. -/
def isConnectionError (err : String) : Bool :=
  connectionErrorKeywords.any fun kw => err.toList.tails.any kw.toList.isPrefixOf

/-- A keyword is part of the text. -/
def Mentions (s : List Char) : Prop := ∃ kw ∈ connectionErrorKeywords.map String.toList, kw <:+: s

theorem isConnectionError_iff {err : String} : isConnectionError err = true ↔ Mentions err.toList := by
  simp only [isConnectionError, Mentions, any_eq_true, mem_map, exists_exists_and_eq_and]
  exact exists_congr fun kw => and_congr_right fun _ => any_eq_true.symm.trans tails_any_isPrefixOf

/-- No keyword begins in the text. -/
def Clear (a : List Char) : Prop := ∀ kw ∈ connectionErrorKeywords.map String.toList, apart kw a = true

theorem mentions_append_of_clear {a : List Char} (h : Clear a) (t : List Char) : Mentions (a ++ t) ↔ Mentions t :=
  exists_congr fun _ => and_congr_right fun hkw => infix_append_of_apart (h _ hkw) t

theorem not_mentions_nil : ¬ Mentions [] := by
  rintro ⟨kw, hkw, hinfix⟩
  rw [infix_nil.mp hinfix] at hkw
  simp [connectionErrorKeywords] at hkw

theorem not_mentions_of_clear {a : List Char} (h : Clear a) : ¬ Mentions a := by
  rw [← append_nil a, mentions_append_of_clear h]
  exact not_mentions_nil

theorem mentions_append_right {s : List Char} (h : Mentions s) (t : List Char) : Mentions (s ++ t) := by
  obtain ⟨kw, hkw, hinfix⟩ := h
  exact ⟨kw, hkw, hinfix.trans (prefix_append s t).isInfix⟩

theorem mentions_append_colon (s t : List Char) : Mentions (s ++ ':' :: t) ↔ Mentions s ∨ Mentions t := by
  have hcolon : ∀ kw ∈ connectionErrorKeywords.map String.toList, ':' ∉ kw := by simp [connectionErrorKeywords]
  simp only [Mentions, ← exists_or, ← and_or_left]
  exact exists_congr fun kw => and_congr_right fun hkw => infix_append_cons (hcolon kw hkw) s t

theorem clear_digits (n : ℕ) : Clear (toString n).toList := by
  have hkw : ∀ kw ∈ connectionErrorKeywords.map String.toList, kw ≠ [] ∧ ∀ c ∈ kw, c.isDigit = false := by
    simp [connectionErrorKeywords]
  intro kw h
  refine apart_of_notMem (hkw kw h).1 fun c hc hmem => ?_
  have hchars : (toString n).toList = Nat.toDigits 10 n := String.toList_ofList
  have hdigit : c.isDigit = true := Nat.isDigit_of_mem_toDigits (by norm_num) (by norm_num) (hchars ▸ hc)
  rw [(hkw kw h).2 c hmem] at hdigit
  cases hdigit

def parts : List String :=
  ["tag ", " type ", " is not supported on ", "expected bool value for tag ", "unsupported write type: ",
    "unsupported data type: ", "s7 encode ", " s7: ", "address buffer too small for write type", " ", ": have ",
    " bytes, need ", " s7: bytes write requires []byte value, got "]

theorem clear_parts : ∀ a ∈ parts.map String.toList, Clear a := by
  simp only [Clear, parts, List.map, String.reduceToList]
  decide +kernel

theorem mentions_part {a : String} (h : a ∈ parts) (t : List Char) : Mentions (a.toList ++ t) ↔ Mentions t :=
  mentions_append_of_clear (clear_parts _ (mem_map_of_mem h)) t

theorem clear_name (dt : DataType) : Clear dt.name.toList := by
  rw [Clear]
  cases dt <;> decide +kernel

theorem clear_goType (v : GoValue) : Clear (goType v).toList := by
  rw [Clear]
  cases v with
  | int t x =>
    cases t <;> (simp only [goType]; decide +kernel)
  | _ =>
    simp only [goType]
    decide +kernel

/-! ### The texts of errors without a request -/

theorem mentions_bitAreaError (tag : String) (dt : DataType) {area : Area} (h : area.isBit = true) :
    Mentions (bitAreaError tag dt area).toList ↔ Mentions tag.toList := by
  have hcolon : ": type ".toList = ':' :: " type ".toList := rfl
  have htail : ¬ Mentions ((areaName area).toList ++
      " area (only bool is supported on coil/discrete-input areas)".toList) := by
    -- the area is read with the text behind it, because its last letter could begin a keyword
    refine not_mentions_of_clear ?_
    rw [Clear]
    cases area with
    | inputRegister | holdingRegister => cases h
    | coil | discreteInput =>
      simp only [String.reduceToList]
      decide +kernel
  simp only [bitAreaError, String.toList_append, append_assoc, hcolon, cons_append]
  rw [mentions_part (by decide), mentions_append_colon, mentions_part (by decide),
    mentions_append_of_clear (clear_name dt), mentions_part (by decide), or_iff_left htail]

theorem mentions_expectedBool (tag : String) :
    Mentions ("expected bool value for tag " ++ tag).toList ↔ Mentions tag.toList := by
  rw [String.toList_append, mentions_part (by decide)]

theorem not_mentions_unsupported {text : String} (h : text ∈ parts) (dt : DataType) :
    ¬ Mentions (text ++ dt.name).toList := by
  rw [String.toList_append, mentions_part h]
  exact not_mentions_of_clear (clear_name dt)

theorem not_mentions_sizeError (dt : DataType) (size need : ℕ) :
    ¬ Mentions (' ' :: (sizeError "address buffer too small for write type" dt size need).toList) := by
  have hblank : ' ' :: "s7: ".toList = " s7: ".toList := rfl
  simp only [sizeError, String.toList_append, append_assoc]
  rw [← cons_append, hblank, mentions_part (by decide), mentions_part (by decide), mentions_part (by decide),
    mentions_append_of_clear (clear_name dt), mentions_part (by decide), mentions_append_of_clear (clear_digits size),
    mentions_part (by decide)]
  exact not_mentions_of_clear (clear_digits need)

theorem not_mentions_encode {p : Platform} {h : Helper} {v : GoValue} {addr : S7Address} {dt : DataType} {e : String}
    (he : encodeS7Value p h v addr dt = .error e) : ¬ Mentions (' ' :: e.toList) := by
  unfold encodeS7Value at he
  by_cases hsmall : s7RequiredSize dt > 0 ∧ addr.size < s7RequiredSize dt
  · simp only [if_pos hsmall, Except.error.injEq] at he
    rw [← he]
    exact not_mentions_sizeError dt addr.size (s7RequiredSize dt)
  simp only [if_neg hsmall] at he
  cases dt with
  | bytes =>
    have hbytes : e = "s7: bytes write requires []byte value, got " ++ goType v := by
      cases v <;> simp_all [encodeS7TypedValue]
    have hblank : ' ' :: "s7: bytes write requires []byte value, got ".toList =
        " s7: bytes write requires []byte value, got ".toList := rfl
    rw [hbytes, String.toList_append, ← cons_append, hblank, mentions_part (by decide)]
    exact not_mentions_of_clear (clear_goType v)
  | string =>
    obtain rfl : "s7: writing string is not supported" = e := Except.error.inj he
    -- the last letter could begin a keyword, so the text is closed by a full stop
    refine fun hmentions => not_mentions_of_clear ?_ (mentions_append_right hmentions ['.'])
    rw [Clear]
    decide +kernel
  | _ => cases he

theorem mentions_encodeError (tag : String) {e : String} (he : ¬ Mentions (' ' :: e.toList)) :
    Mentions ("s7 encode " ++ tag ++ ": " ++ e).toList ↔ Mentions tag.toList := by
  have hcolon : ": ".toList = [':', ' '] := rfl
  simp only [String.toList_append, append_assoc, hcolon, cons_append, nil_append]
  rw [mentions_part (by decide), mentions_append_colon, or_iff_left he]

/-! ### Operations on one tag -/

/-- Clients are numbered. -/
abbrev Client := ℕ

/-- The end of the wait before a retry: the context is cancelled, or the time is over and the driver has this client. -/
inductive Wait where
  | cancelled (err : String)
  | elapsed (client : Option Client)
  deriving DecidableEq, Repr

/-- How a loop of retries ends. -/
inductive Ended (α : Type) where
  | value (a : α)
  | failed (err : String)
  | cancelled (err : String)

/-- The loop of `readBatchWithRetry` and `readTagWithRetry`: `left` attempts are left. Without any the value is the zero
value and there is no error. -/
def retryLoop {σ α : Type} (zero : α) (attempt : Option Client → σ → Option (Except String α × σ)) (wait : σ → Wait × σ)
    (onCancel : Option Client → σ → σ) : ℕ → Option Client → σ → Option (Ended α × Option Client × σ)
  | 0, client, s => some (.value zero, client, s)
  | left + 1, client, s =>
    (attempt client s).bind fun (result, s) =>
      match result with
      | .ok v => some (.value v, client, s)
      | .error e =>
        if 0 < left ∧ isConnectionError e then
          match wait s with
          | (.cancelled err, s) => some (.cancelled err, client, onCancel client s)
          | (.elapsed none, s) => some (.failed e, none, s)
          | (.elapsed (some c), s) => retryLoop zero attempt wait onCancel left (some c) s
        else some (.failed e, client, s)

/-- What an operation meets: the client it starts with, the client of the driver when it reports its error, the error of
each of its requests, and the ends of its waits. -/
structure Link where
  client : Option Client
  current : Option Client
  answer : ℕ → Option String := fun _ => none
  wait : ℕ → Wait := fun _ => .elapsed current

/-- What an operation did: its error, the number of its requests, and whether it called `HandleConnectionLost`. -/
structure Outcome where
  error : Option String := none
  requests : ℕ := 0
  lost : Bool := false
  deriving DecidableEq, Repr

/-- `handleConnLostIfCurrent`: whether it calls `HandleConnectionLost`. -/
def handleConnLostIfCurrent (l : Link) (captured : Option Client) : Bool := l.current = captured

def failed (l : Link) (captured : Option Client) (err : String) (requests : ℕ) : Outcome :=
  ⟨some err, requests, isConnectionError err && handleConnLostIfCurrent l captured⟩

def errModbusNotConnected : String := "modbus: client is not connected (connection lost)"

section

variable (p : Platform) (l : Link)

/-- The body of the loop of `Write` (`driver/modbus`). -/
def modbusWrite (d : ModbusBase) (m : Memory) (negZero : Bool) (cmd : WriteCommand) : Outcome :=
  match d.tags.lookup cmd.tag with
  | none => { error := some ("tag not found: " ++ cmd.tag) }
  | some (cfg, ai) =>
    if ai.area = .discreteInput ∨ ai.area = .inputRegister then
      { error := some ("tag " ++ cmd.tag ++ " is in a read-only area (discrete input/input register)") }
    else
      match writeTag p negZero m ai { cmd with value := writeValueForTag p cmd cfg } with
      | .error e => failed l l.client e 0
      | .ok _ =>
        match l.answer 0 with
        | some e => failed l l.client e 1
        | none => { requests := 1 }

/-- The body of the loop of `Write` (`driver/s7`), with `writeAddress`. A bit is read before it is written. -/
def s7Write (h : Helper) (d : S7Driver) (cmd : WriteCommand) : Outcome :=
  match d.tags.lookup cmd.tag with
  | none => { error := some ("tag not found: " ++ cmd.tag) }
  | some (cfg, addr) =>
    match encodeS7Value p h (writeValueForTag p cmd cfg) addr cmd.type with
    | .error e => failed l l.client ("s7 encode " ++ cmd.tag ++ ": " ++ e) 0
    | .ok _ =>
      let reads := if addr.isBit then 1 else 0
      match if addr.isBit then l.answer 0 else none with
      | some e => failed l l.client ("failed to read before bit-write: " ++ e) reads
      | none =>
        match l.answer reads with
        | some e => failed l l.client e (reads + 1)
        | none => { requests := reads + 1 }

/-- The waits and the requests of a read so far. -/
structure Progress where
  waits : ℕ := 0
  sent : ℕ := 0

/-- One call of `readTag`. -/
def readAttempt (m : Memory) (ai : AddrInfo) (dt : DataType) (tag : String) (client : Option Client) (s : Progress) :
    Option (Except String Unit × Progress) :=
  if client = none then some (.error errModbusNotConnected, s)
  else
    match readTag p m ai dt tag with
    | .error e => some (.error e, s)
    | .ok _ =>
      match l.answer s.sent with
      | some e => some (.error e, { s with sent := s.sent + 1 })
      | none => some (.ok (), { s with sent := s.sent + 1 })

/-- The loop of `readTagWithRetry`. -/
def readLoop (m : Memory) (ai : AddrInfo) (dt : DataType) (tag : String) :
    ℕ → Option Client → Progress → Option (Ended Unit × Option Client × Progress) :=
  retryLoop () (readAttempt p l m ai dt tag) (fun s => (l.wait s.waits, { s with waits := s.waits + 1 })) fun _ s => s

/-- What `Read` does with the end of the loop, and the loop itself when it is cancelled. -/
def report : Option (Ended Unit × Option Client × Progress) → Outcome
  | some (.failed e, client, s) => failed l client e s.sent
  | some (.cancelled err, client, s) => ⟨some err, s.sent, handleConnLostIfCurrent l client⟩
  | some (.value _, _, s) => { requests := s.sent }
  | none => {}

/-- `Read`, of a tag whose value no batch has brought. -/
def modbusRead (d : ModbusBase) (m : Memory) (tag : String) : Outcome :=
  match d.tags.lookup tag with
  | none => { error := some ("tag not found: " ++ tag) }
  | some (cfg, ai) =>
    report l (readLoop p l m ai ((parseDataType cfg.type).getD .bool) tag (d.maxRetry + 1).toNat l.client {})

end

/-- An operation of a driver on one tag. -/
inductive Op where
  | modbusWrite (d : ModbusBase) (m : Memory) (negZero : Bool) (cmd : WriteCommand)
  | s7Write (d : S7Driver) (cmd : WriteCommand)
  | modbusRead (d : ModbusBase) (m : Memory) (tag : String)

def Op.run (p : Platform) (h : Helper) (l : Link) : Op → Outcome
  | .modbusWrite d m negZero cmd => LocalErrors.modbusWrite p l d m negZero cmd
  | .s7Write d cmd => LocalErrors.s7Write p l h d cmd
  | .modbusRead d m tag => LocalErrors.modbusRead p l d m tag

def Op.tag : Op → String
  | .modbusWrite _ _ _ cmd | .s7Write _ cmd => cmd.tag
  | .modbusRead _ _ tag => tag

/-- The error of the operation has the name of the tag. -/
def Op.named : Op → Bool
  | .modbusWrite d _ _ cmd => (d.tags.lookup cmd.tag).any fun (_, ai) =>
      ai.area = .coil ∨ ai.area = .holdingRegister ∧ cmd.type = .bool
  | .s7Write d cmd => (d.tags.lookup cmd.tag).isSome
  | .modbusRead d _ tag => (d.tags.lookup tag).any fun (_, ai) => ai.area.isBit

/-- The client with which `readTagWithRetry` ends if every attempt fails with a connection error. -/
def lastClient (l : Link) : (left attempt : ℕ) → Option Client → Option Client
  | 0, _, client => client
  | left + 1, attempt, client =>
    match l.wait attempt with
    | .cancelled _ => client
    | .elapsed none => none
    | .elapsed (some c) => lastClient l left (attempt + 1) (some c)

/-- The client with which the operation ends. -/
def Op.client (l : Link) : Op → Option Client
  | .modbusRead d _ _ => lastClient l d.maxRetry.toNat 0 l.client
  | _ => l.client

theorem lost_failed {l : Link} {captured : Option Client} {err : String} {n : ℕ} :
    (failed l captured err n).lost = true ↔ Mentions err.toList ∧ l.current = captured := by
  rw [failed, Bool.and_eq_true, isConnectionError_iff, handleConnLostIfCurrent, decide_eq_true_iff]

section

variable {p : Platform} {l : Link} {m : Memory} {ai : AddrInfo} {dt : DataType} {tag : String} {e : String}

theorem exists_readAttempt (client : Option Client) (s : Progress) :
    ∃ result s', readAttempt p l m ai dt tag client s = some (result, s') ∧ s.sent ≤ s'.sent := by
  unfold readAttempt
  split_ifs
  · exact ⟨_, _, rfl, Nat.le_refl _⟩
  · split
    · exact ⟨_, _, rfl, Nat.le_refl _⟩
    · split <;> exact ⟨_, _, rfl, Nat.le_succ _⟩

theorem le_readLoop (left : ℕ) (client : Option Client) (s : Progress) :
    s.sent ≤ (report l (readLoop p l m ai dt tag left client s)).requests ∧
      (0 < left → ∀ result s', readAttempt p l m ai dt tag client s = some (result, s') →
        s'.sent ≤ (report l (readLoop p l m ai dt tag left client s)).requests) := by
  induction left generalizing client s with
  | zero => exact ⟨Nat.le_refl _, fun h => absurd h (Nat.lt_irrefl 0)⟩
  | succ left ih =>
    obtain ⟨result, s', hattempt, hle⟩ := exists_readAttempt client s
    have hfirst : s'.sent ≤ (report l (readLoop p l m ai dt tag (left + 1) client s)).requests := by
      rw [readLoop, retryLoop, hattempt, Option.bind_some]
      cases result with
      | ok => exact Nat.le_refl _
      | error e =>
        dsimp only
        split_ifs
        · rcases l.wait s'.waits with err | _ | c
          · exact Nat.le_refl _
          · exact Nat.le_refl _
          · exact (ih (some c) { s' with waits := s'.waits + 1 }).1
        · exact Nat.le_refl _
    refine ⟨hle.trans hfirst, fun _ result' s'' h => ?_⟩
    cases hattempt.symm.trans h
    exact hfirst

/-- An attempt that sends nothing fails, and so does every later one: the connection is given up in the end if the text
has a keyword and the client has not been replaced. -/
theorem lost_readLoop_iff (he : readTag p m ai dt tag = .error e) (left : ℕ) (c : Client) (s : Progress) :
    (report l (readLoop p l m ai dt tag (left + 1) (some c) s)).lost = true ↔
      Mentions e.toList ∧ l.current = lastClient l left s.waits (some c) := by
  have hattempt (c : Client) (s : Progress) : readAttempt p l m ai dt tag (some c) s = some (.error e, s) := by
    rw [readAttempt, if_neg nofun, he]
  induction left generalizing c s with
  | zero =>
    rw [readLoop, retryLoop, hattempt]
    exact lost_failed
  | succ left ih =>
    rw [readLoop, retryLoop, hattempt, Option.bind_some]
    dsimp only
    by_cases hkw : isConnectionError e = true
    · have hmentions : Mentions e.toList := isConnectionError_iff.mp hkw
      rw [if_pos ⟨Nat.succ_pos left, hkw⟩, lastClient]
      rcases l.wait s.waits with err | _ | c'
      · simp only [report, handleConnLostIfCurrent, decide_eq_true_iff]
        exact (and_iff_right hmentions).symm
      · exact lost_failed
      · exact ih c' { s with waits := s.waits + 1 }
    · have hmentions : ¬ Mentions e.toList := fun h => hkw (isConnectionError_iff.mpr h)
      rw [if_neg fun h => hkw h.2, report, lost_failed]
      exact iff_of_false (fun h => hmentions h.1) fun h => hmentions h.1

theorem readTag_error (he : readTag p m ai dt tag = .error e) : ai.area.isBit = true ∧ e = bitAreaError tag dt ai.area ∨
      ai.area.isBit = false ∧ e = "unsupported data type: " ++ dt.name := by
  unfold readTag at he
  split_ifs at he with hbit hbool
  · exact .inl ⟨hbit, (Except.error.inj he).symm⟩
  · dsimp only at he
    split at he
    · cases he
    · exact .inr ⟨Bool.not_eq_true _ ▸ hbit, (Except.error.inj he).symm⟩

theorem writeTag_error {negZero : Bool} {cmd : WriteCommand} (he : writeTag p negZero m ai cmd = .error e) :
    ai.area.isBit = true ∧ cmd.type ≠ .bool ∧ e = bitAreaError cmd.tag cmd.type ai.area ∨
      cmd.type = .bool ∧ e = "expected bool value for tag " ++ cmd.tag ∨
      ai.area.isBit = false ∧ cmd.type ≠ .bool ∧ e = "unsupported write type: " ++ cmd.type.name := by
  unfold writeTag at he
  by_cases hbit : ai.area.isBit = true ∧ cmd.type ≠ .bool
  · rw [if_pos hbit] at he
    exact .inl ⟨hbit.1, hbit.2, (Except.error.inj he).symm⟩
  rw [if_neg hbit] at he
  by_cases hbool : cmd.type = .bool
  · simp only [hbool] at he
    refine .inr (.inl ⟨hbool, ?_⟩)
    split at he
    · split at he <;> cases he
    · exact (Except.error.inj he).symm
  · have harea : ai.area.isBit = false := Bool.not_eq_true _ ▸ fun h => hbit ⟨h, hbool⟩
    refine .inr (.inr ⟨harea, hbool, ?_⟩)
    split at he
    · contradiction
    all_goals first | exact (Except.error.inj he).symm | cases he

/-- The text of an error of `writeTag` has a keyword if it has the name of the tag, and the name has one. -/
theorem mentions_writeTag_error {negZero : Bool} {cmd : WriteCommand}
    (hro : ¬ (ai.area = .discreteInput ∨ ai.area = .inputRegister)) (he : writeTag p negZero m ai cmd = .error e) :
    Mentions e.toList ↔
      (ai.area = .coil ∨ ai.area = .holdingRegister ∧ cmd.type = .bool) ∧ Mentions cmd.tag.toList := by
  have harea : ai.area = .coil ∨ ai.area = .holdingRegister := by
    cases harea : ai.area <;> simp [harea] at hro ⊢
  rcases writeTag_error he with ⟨hbit, _, rfl⟩ | ⟨hbool, rfl⟩ | ⟨hbit, hbool, rfl⟩
  · have hcoil : ai.area = .coil := by
      rcases harea with h | h
      · exact h
      · rw [h] at hbit
        cases hbit
    rw [mentions_bitAreaError _ _ hbit]
    exact (and_iff_right (.inl hcoil)).symm
  · rw [mentions_expectedBool]
    exact (and_iff_right (harea.imp_right fun h => ⟨h, hbool⟩)).symm
  · refine iff_of_false (not_mentions_unsupported (by decide) _) ?_
    rintro ⟨hcoil | ⟨_, h⟩, _⟩
    · rw [hcoil] at hbit
      cases hbit
    · exact hbool h

theorem mentions_readTag_error (he : readTag p m ai dt tag = .error e) :
    Mentions e.toList ↔ ai.area.isBit = true ∧ Mentions tag.toList := by
  rcases readTag_error he with ⟨hbit, rfl⟩ | ⟨hbit, rfl⟩
  · rw [mentions_bitAreaError _ _ hbit]
    exact (and_iff_right hbit).symm
  · rw [hbit]
    exact iff_of_false (not_mentions_unsupported (by decide) _) (fun h => nomatch h.1)

end

/-! ### Keeping the connection -/

section

variable {p : Platform} {h : Helper} {l : Link}

theorem lost_modbusWrite_iff (d : ModbusBase) (m : Memory) (negZero : Bool) (cmd : WriteCommand)
    (hsent : (modbusWrite p l d m negZero cmd).requests = 0) :
    (modbusWrite p l d m negZero cmd).lost = true ↔
      (Op.modbusWrite d m negZero cmd).named = true ∧ l.current = l.client ∧ Mentions cmd.tag.toList := by
  unfold modbusWrite at hsent ⊢
  unfold Op.named
  cases hlookup : d.tags.lookup cmd.tag with
  | none => simp [hlookup]
  | some entry =>
    obtain ⟨cfg, ai⟩ := entry
    simp only [hlookup, Option.any_some, decide_eq_true_iff] at hsent ⊢
    by_cases hro : ai.area = .discreteInput ∨ ai.area = .inputRegister
    · rcases hro with hro | hro <;> simp [hro]
    rw [if_neg hro] at hsent ⊢
    cases hwrite : writeTag p negZero m ai { cmd with value := writeValueForTag p cmd cfg } with
    | ok m' =>
      simp only [hwrite] at hsent
      cases hanswer : l.answer 0 <;> simp [hanswer, failed] at hsent
    | error e =>
      refine lost_failed.trans ?_
      rw [mentions_writeTag_error hro hwrite]
      exact and_assoc.trans (and_congr_right fun _ => and_comm)

theorem lost_s7Write_iff (d : S7Driver) (cmd : WriteCommand) (hsent : (s7Write p l h d cmd).requests = 0) :
    (s7Write p l h d cmd).lost = true ↔
      (Op.s7Write d cmd).named = true ∧ l.current = l.client ∧ Mentions cmd.tag.toList := by
  unfold s7Write at hsent ⊢
  unfold Op.named
  cases hlookup : d.tags.lookup cmd.tag with
  | none => simp [hlookup]
  | some entry =>
    obtain ⟨cfg, addr⟩ := entry
    simp only [hlookup, Option.isSome_some, true_and] at hsent ⊢
    cases hencode : encodeS7Value p h (writeValueForTag p cmd cfg) addr cmd.type with
    | ok buf =>
      simp only [hencode] at hsent
      cases hbit : addr.isBit <;> cases hread : l.answer 0 <;> cases hwrite : l.answer 1 <;>
        simp [hbit, hread, hwrite, failed] at hsent
    | error e =>
      refine lost_failed.trans ?_
      rw [mentions_encodeError cmd.tag (not_mentions_encode hencode)]
      exact and_comm

/-- The answers to the requests of a write. -/
def Link.answers (l : Link) (addr : S7Address) : Answers where
  read := l.answer 0
  write := l.answer (if addr.isBit then 1 else 0)

/-- **`s7Write` is `S7.BitWrite.writeCommand` with the counted requests**: the two report the same. -/
theorem writeCommand_s7Write {d : S7Driver} {cmd : WriteCommand} {cfg : TagConfig} {addr : S7Address}
    (hlookup : d.tags.lookup cmd.tag = some (cfg, addr)) (memory : S7.Write.Memory) :
    (S7.BitWrite.writeCommand p h (l.answers addr) d memory cmd).2 =
      match (s7Write p l h d cmd).error with
      | none => ⟨true, ""⟩
      | some e => ⟨false, e⟩ := by
  simp only [S7.BitWrite.writeCommand, s7Write, hlookup, S7.BitWrite.writeAddress, S7.BitWrite.request, Link.answers]
  cases encodeS7Value p h (writeValueForTag p cmd cfg) addr cmd.type with
  | error e => rfl
  | ok buf =>
    cases addr.isBit with
    | false => cases hwrite : l.answer 0 <;> simp [hwrite, failed]
    | true => cases l.answer 0 <;> cases hwrite : l.answer 1 <;> simp [hwrite, failed]

/-- **`modbusWrite` is `Modbus.Driver.writeCommand` with the counted requests**, on a link without errors. -/
theorem writeCommand_modbusWrite (hanswer : l.answer 0 = none) (d : ModbusBase) (m : Memory) (negZero : Bool)
    (cmd : WriteCommand) :
    (Modbus.Driver.writeCommand p negZero d m cmd).2 =
      match (modbusWrite p l d m negZero cmd).error with
      | none => ⟨true, ""⟩
      | some e => ⟨false, e⟩ := by
  simp only [Modbus.Driver.writeCommand, Modbus.Driver.writeCommandWith, modbusWrite]
  cases d.tags.lookup cmd.tag with
  | none => rfl
  | some entry =>
    dsimp only
    split_ifs
    · rfl
    · cases writeTag p negZero m entry.2 { cmd with value := writeValueForTag p cmd entry.1 } <;> simp [hanswer, failed]

theorem lost_modbusRead_iff (hclient : l.client ≠ none) (d : ModbusBase) (m : Memory) (tag : String)
    (hfail : (modbusRead p l d m tag).error ≠ none) (hsent : (modbusRead p l d m tag).requests = 0) :
    (modbusRead p l d m tag).lost = true ↔ (Op.modbusRead d m tag).named = true ∧
      l.current = (Op.modbusRead d m tag).client l ∧ Mentions tag.toList := by
  unfold modbusRead at hfail hsent ⊢
  unfold Op.named Op.client
  cases hlookup : d.tags.lookup tag with
  | none => simp [hlookup]
  | some entry =>
    obtain ⟨cfg, ai⟩ := entry
    obtain ⟨c, hc⟩ := Option.ne_none_iff_exists'.mp hclient
    simp only [hlookup, hc] at hfail hsent ⊢
    -- a negative setting makes no attempt and so no error
    obtain ⟨left, hleft⟩ : ∃ left, (d.maxRetry + 1).toNat = left + 1 := by
      refine Nat.exists_eq_succ_of_ne_zero fun hzero => ?_
      rw [hzero] at hfail
      exact hfail rfl
    have hretry : d.maxRetry.toNat = left := by omega
    rw [hleft] at hsent ⊢
    rw [hretry]
    cases hread : readTag p m ai ((parseDataType cfg.type).getD .bool) tag with
    | ok v =>
      obtain ⟨result, s', hattempt, hone⟩ : ∃ result s', readAttempt p l m ai ((parseDataType cfg.type).getD .bool) tag
          (some c) {} = some (result, s') ∧ s'.sent = 1 := by
        rw [readAttempt, if_neg nofun, hread]
        cases l.answer 0 <;> exact ⟨_, _, rfl, rfl⟩
      have hfirst := (le_readLoop (left + 1) (some c) {}).2 (Nat.succ_pos left) result s' hattempt
      omega
    | error e =>
      rw [lost_readLoop_iff hread, mentions_readTag_error hread]
      exact and_assoc.trans (and_congr_right fun _ => and_comm)

/-- **An error without a request leaves the connection alone exactly if its text has no name of a tag, the name has no
keyword, or the client has been replaced.** -/
theorem kept_iff (p : Platform) (h : Helper) (l : Link) (op : Op) (hclient : l.client ≠ none)
    (hfail : (op.run p h l).error ≠ none) (hsent : (op.run p h l).requests = 0) :
    (op.run p h l).lost = false ↔ (op.named = true → l.current = op.client l →
        ∀ kw ∈ connectionErrorKeywords, ¬ kw.toList <:+: op.tag.toList) := by
  have hlost : (op.run p h l).lost = true ↔ op.named = true ∧ l.current = op.client l ∧ Mentions op.tag.toList := by
    cases op with
    | modbusWrite d m negZero cmd => exact lost_modbusWrite_iff d m negZero cmd hsent
    | s7Write d cmd => exact lost_s7Write_iff d cmd hsent
    | modbusRead d m tag => exact lost_modbusRead_iff hclient d m tag hfail hsent
  rw [← Bool.not_eq_true, hlost]
  simp [Mentions, not_exists]

def coilDriver (tag : String) : ModbusBase where
  tags := AList.singleton tag ({ name := tag, address := "1", type := "int16" }, ⟨.coil, 0⟩)
  maxRetry := 3

def coilWrite (tag : String) : Op :=
  .modbusWrite (coilDriver tag) ⟨fun _ => false, fun _ => false, fun _ => 0, fun _ => 0⟩ false
    { tag, type := .int16, value := .int .int16 1 }

def steady : Link where
  client := some 0
  current := some 0

theorem kept_level : ∃ h : Helper, ((coilWrite "level").run amd64 h steady).error ≠ none ∧
    ((coilWrite "level").run amd64 h steady).requests = 0 ∧
    ((coilWrite "level").run amd64 h steady).lost = false := by
  let h := plainHelper
  have hfail : ((coilWrite "level").run amd64 h steady).error ≠ none := nofun
  have hsent : ((coilWrite "level").run amd64 h steady).requests = 0 := rfl
  have hname : ∀ kw ∈ connectionErrorKeywords, ¬ kw.toList <:+: "level".toList := by decide +kernel
  exact ⟨h, hfail, hsent, (kept_iff amd64 h steady (coilWrite "level") nofun hfail hsent).mpr fun _ _ => hname⟩

/-- A write to a tag named after a reset gives the connection up, without a request. -/
theorem given_up_by_name : ∃ h : Helper, ((coilWrite "reset_counter").run amd64 h steady).error ≠ none ∧
    ((coilWrite "reset_counter").run amd64 h steady).requests = 0 ∧
    ((coilWrite "reset_counter").run amd64 h steady).lost = true := by
  refine ⟨plainHelper, nofun, rfl, (lost_modbusWrite_iff _ _ _ _ rfl).mpr ⟨rfl, rfl, ?_⟩⟩
  exact ⟨"reset".toList, by decide, [], "_counter".toList, rfl⟩

end

end CoreC.DriverBase.LocalErrors
