import CoreC.S7.Codec

/-! # Writing a bit of an S7 controller

`Write` (`driver/s7/s7.go`) converts the value of a command, encodes it by the type of the command and, for the address
of a bit, throws the encoded bytes away: the bit is set to the value if that is a boolean, and to `false` otherwise. A
write that nothing disturbs is a run of the interleaved model of `CoreC.S7.Write` (`writeAddress_run`). -/

namespace CoreC.S7.BitWrite

open Core.Types Function Lib.Runs Modbus.Driver S7.Address S7.Codec S7.Write
open Modbus.RoundTrip (amd64)

/-! ### The driver -/

/-- `tags` and `addrs` of `S7Driver`, which have the same keys. -/
structure S7Driver where
  tags : AList fun _ : String => TagConfig × S7Address

/-- The errors of the requests. -/
structure Answers where
  read : Option String := none
  write : Option String := none

section

variable (p : Platform) (h : Helper) (answers : Answers)

/-- The last request of `writeAddress`. -/
def request (addr : S7Address) (buf : List UInt8) (memory : S7.Write.Memory) : Except String S7.Write.Memory :=
  match answers.write with
  | some e => .error e
  | none => .ok (agWrite addr buf memory)

def writeAddress (addr : S7Address) (cmd : WriteCommand) (memory : S7.Write.Memory) : Except String S7.Write.Memory :=
  match encodeS7Value p h cmd.value addr cmd.type with
  | .error e => .error ("s7 encode " ++ cmd.tag ++ ": " ++ e)
  | .ok buf =>
    if addr.isBit then
      match answers.read with
      | some e => .error ("failed to read before bit-write: " ++ e)
      | none => request answers addr [setBoolAt (agRead addr memory) addr.bit (valBool cmd.value)] memory
    else request answers addr buf memory

/-- The body of the loop of `Write`. -/
def writeCommand (d : S7Driver) (memory : S7.Write.Memory) (cmd : WriteCommand) : S7.Write.Memory × WriteResult :=
  match d.tags.lookup cmd.tag with
  | none => (memory, ⟨false, "tag not found: " ++ cmd.tag⟩)
  | some (cfg, addr) =>
    match writeAddress p h answers addr { cmd with value := writeValueForTag p cmd cfg } memory with
    | .ok memory' => (memory', ⟨true, ""⟩)
    | .error e => (memory, ⟨false, e⟩)

end

/-! ### Bits -/

theorem getBoolAt_setBoolAt (b : UInt8) {bit i : ℕ} (hbit : bit ≤ 7) (hi : i ≤ 7) (value : Bool) :
    getBoolAt (setBoolAt b bit value) i = if i = bit then value else getBoolAt b i := by
  have hget : ∀ x, getBoolAt x i = x.toBitVec.getLsbD i := fun _ => rfl
  have hmask : ((1 : UInt8) <<< UInt8.ofNat bit).toBitVec.getLsbD i = decide (i = bit) := by
    interval_cases bit <;> interval_cases i <;> rfl
  unfold setBoolAt
  cases value with
  | true =>
    rw [if_pos rfl, hget, hget, UInt8.toBitVec_or, BitVec.getLsbD_or, hmask]
    by_cases hib : i = bit
    · simp [hib]
    · simp [hib]
  | false =>
    rw [if_neg nofun, hget, hget, UInt8.toBitVec_and, UInt8.toBitVec_not, BitVec.getLsbD_and, BitVec.getLsbD_not, hmask]
    by_cases hib : i = bit
    · simp [hib]
    · simp [hib]
      omega

/-- The bit has the value, and all others are as before. -/
def BitSet (memory memory' : S7.Write.Memory) (addr : S7Address) (value : Bool) : Prop :=
  ∀ c, ∀ i ≤ 7, getBoolAt (memory' c) i = if c = addr.cell ∧ i = addr.bit then value else getBoolAt (memory c) i

theorem covers_one_iff {addr : S7Address} {c : Cell} : Covers addr 1 c ↔ c = addr.cell := by
  constructor
  · rintro ⟨harea, hdb, hle, hlt⟩
    have hoffset : c.offset = addr.start := by omega
    cases c
    simp only [S7Address.cell, Cell.mk.injEq]
    exact ⟨harea, hdb, hoffset⟩
  · rintro rfl
    exact ⟨rfl, rfl, Nat.le_refl _, Nat.lt_succ_self _⟩

theorem bitSet_agWrite {addr : S7Address} (hbit : addr.bit ≤ 7) (memory : S7.Write.Memory) (value : Bool) :
    BitSet memory (agWrite addr [setBoolAt (agRead addr memory) addr.bit value] memory) addr value := by
  intro c i hi
  unfold agWrite
  rw [List.length_singleton]
  by_cases hc : c = addr.cell
  · have hoffset : c.offset - addr.start = 0 := by
      rw [hc]
      exact Nat.sub_self _
    rw [if_pos (covers_one_iff.mpr hc), hoffset, List.getD_cons_zero, getBoolAt_setBoolAt _ hbit hi, agRead, ← hc]
    simp [true_and]
  · rw [if_neg (mt covers_one_iff.mp hc), if_neg fun h => hc h.1]

/-! ### What `Write` reports -/

section

variable {p : Platform} {h : Helper} {answers : Answers} {addr : S7Address} {cmd : WriteCommand} {cfg : TagConfig}

/-- The write reports an error. -/
def Refused (answers : Answers) (addr : S7Address) (cmd : WriteCommand) : Prop :=
  addr.size < s7RequiredSize cmd.type ∨ cmd.type = .string ∨ (cmd.type = .bytes ∧ ∀ b, cmd.value ≠ .bytes b) ∨
    answers.read ≠ none ∨ answers.write ≠ none

theorem writeValueForTag_eq_iff {v : GoValue} (hv : toFloat64OK v = none) :
    writeValueForTag p cmd cfg = v ↔ cmd.value = v := by
  unfold writeValueForTag invertTransform
  by_cases hraw : cmd.raw = true
  · rw [if_pos hraw]
  by_cases hunset : cfg.scale = 0 ∧ cfg.offset = 0
  · rw [if_neg hraw, if_pos hunset]
  rw [if_neg hraw, if_neg hunset]
  have hnumber : ∀ w, toFloat64OK w ≠ none → w ≠ v := fun w hw hwv => hw (hwv ▸ hv)
  cases cmd.value with
  | float32 | float64 | int => exact iff_of_false (hnumber _ nofun) (hnumber _ nofun)
  | _ => exact Iff.rfl

theorem encode_isOk_iff {v : GoValue} {dt : DataType} : (∃ buf, encodeS7Value p h v addr dt = .ok buf) ↔
    s7RequiredSize dt ≤ addr.size ∧ dt ≠ .string ∧ (dt = .bytes → ∃ b, v = .bytes b) := by
  constructor
  · rintro ⟨buf, hbuf⟩
    obtain ⟨hsize, hbuf⟩ := encode_ok hbuf
    refine ⟨hsize, ?_, ?_⟩
    · rintro rfl
      cases hbuf
    · rintro rfl
      cases v <;> first | exact ⟨_, rfl⟩ | cases hbuf
  · rintro ⟨hsize, hstring, hbytes⟩
    have hroom : ¬ (s7RequiredSize dt > 0 ∧ addr.size < s7RequiredSize dt) := by omega
    simp only [encodeS7Value, hroom]
    cases dt with
    | string => exact absurd rfl hstring
    | bytes =>
      obtain ⟨b, rfl⟩ := hbytes rfl
      exact ⟨_, rfl⟩
    | _ => exact ⟨_, rfl⟩

theorem writeAddress_bit (p : Platform) (h : Helper) (answers : Answers) (cmd : WriteCommand)
    (hisBit : addr.isBit = true) (memory : S7.Write.Memory) :
    (Refused answers addr cmd ∧ ∃ e, writeAddress p h answers addr cmd memory = .error e) ∨
      (¬ Refused answers addr cmd ∧ writeAddress p h answers addr cmd memory =
        .ok (agWrite addr [setBoolAt (agRead addr memory) addr.bit (valBool cmd.value)] memory)) := by
  have hencode : (∃ buf, encodeS7Value p h cmd.value addr cmd.type = .ok buf) ↔ _ := encode_isOk_iff
  unfold writeAddress Refused
  cases hbuf : encodeS7Value p h cmd.value addr cmd.type with
  | error e =>
    refine .inl ⟨?_, _, rfl⟩
    rw [hbuf] at hencode
    have hnot := mt hencode.mpr nofun
    by_contra hall
    push Not at hall
    exact hnot ⟨hall.1, hall.2.1, hall.2.2.1⟩
  | ok buf =>
    obtain ⟨hsize, hstring, hbytes⟩ := hencode.mp ⟨buf, hbuf⟩
    simp only [hisBit, request]
    cases hread : answers.read with
    | some e => exact .inl ⟨.inr (.inr (.inr (.inl nofun))), _, rfl⟩
    | none =>
      cases hwrite : answers.write with
      | some e => exact .inl ⟨.inr (.inr (.inr (.inr nofun))), _, rfl⟩
      | none =>
        refine .inr ⟨?_, rfl⟩
        rintro (hsmall | hstr | ⟨hb, hno⟩ | hr | hw)
        · omega
        · exact hstring hstr
        · obtain ⟨b, hb⟩ := hbytes hb
          exact hno b hb
        · exact hr rfl
        · exact hw rfl

/-- `encodeS7Value`, for the calls of the interleaved model. -/
def encoder (p : Platform) (h : Helper) (v : GoValue) (addr : S7Address) (dt : DataType) : Option (List UInt8) :=
  (encodeS7Value p h v addr dt).toOption

/-- Call `i` has the mutex and is in the phase. -/
def holding {n : ℕ} (s : State n) (i : Fin n) (phase : Phase) : State n :=
  { s with writeMu := some i, phase := update s.phase i phase }

/-- **`writeAddress` is a run of the interleaved model** in which only its own call takes steps. -/
theorem writeAddress_run {n : ℕ} {calls : Fin n → Call} {s : State n} {i : Fin n} (p : Platform) (h : Helper)
    (answers : Answers) (hidle : s.phase i = .idle) (hfree : s.writeMu = none) :
    ∃ acts s', (∀ a ∈ acts, a.call = i) ∧ Run (step (encoder p h) calls) (fun _ _ => True) s acts s' ∧
      match writeAddress p h answers (calls i).addr (calls i).cmd s.memory with
      | .ok memory' => s'.memory = memory' ∧ s'.phase i = .success
      | .error _ => s'.memory = s.memory ∧ s'.phase i = .failed := by
  unfold writeAddress
  cases hbuf : encodeS7Value p h (calls i).cmd.value (calls i).addr (calls i).cmd.type with
  | error e =>
    have hfail : step (encoder p h) calls s ⟨i, false⟩ = some { s with phase := update s.phase i .failed } := by
      simp [step, hidle, Call.buf, encoder, hbuf, Except.toOption]
    exact ⟨[_], _, by simp, .cons trivial hfail (.nil _), rfl, update_self ..⟩
  | ok buf =>
    have henc : (calls i).buf (encoder p h) = some buf := by simp [Call.buf, encoder, hbuf, Except.toOption]
    simp only [request]
    cases hisBit : (calls i).addr.isBit with
    | false =>
      cases answers.write with
      | some e =>
        have hfail : step (encoder p h) calls s ⟨i, true⟩ = some { s with phase := update s.phase i .failed } := by
          simp [step, hidle, henc, hisBit]
        exact ⟨[_], _, by simp, .cons trivial hfail (.nil _), rfl, update_self ..⟩
      | none =>
        have hwrite : step (encoder p h) calls s ⟨i, false⟩ =
            some { s with memory := agWrite (calls i).addr buf s.memory, phase := update s.phase i .success } := by
          simp [step, hidle, henc, hisBit]
        exact ⟨[_], _, by simp, .cons trivial hwrite (.nil _), rfl, update_self ..⟩
    | true =>
      have hlock : step (encoder p h) calls s ⟨i, false⟩ = some (holding s i .locked) := by
        simp [step, hidle, henc, hisBit, hfree, holding]
      cases answers.read with
      | some e =>
        have hfail : step (encoder p h) calls (holding s i .locked) ⟨i, true⟩ =
            some { s with writeMu := none, phase := update s.phase i .failed } := by
          simp [step, holding]
        exact ⟨[_, _], _, by simp, .cons trivial hlock (.cons trivial hfail (.nil _)), rfl, update_self ..⟩
      | none =>
        have hread : step (encoder p h) calls (holding s i .locked) ⟨i, false⟩ =
            some (holding s i (.read (agRead (calls i).addr s.memory))) := by
          simp [step, holding]
        cases answers.write with
        | some e =>
          have hfail : step (encoder p h) calls (holding s i (.read (agRead (calls i).addr s.memory))) ⟨i, true⟩ =
              some { s with writeMu := none, phase := update s.phase i .failed } := by
            simp [step, holding]
          exact ⟨[_, _, _], _, by simp, .cons trivial hlock (.cons trivial hread (.cons trivial hfail (.nil _))), rfl,
            update_self ..⟩
        | none =>
          have hwrite : step (encoder p h) calls (holding s i (.read (agRead (calls i).addr s.memory))) ⟨i, false⟩ =
              some {
                memory := agWrite (calls i).addr [setBoolAt (agRead (calls i).addr s.memory) (calls i).addr.bit
                  (valBool (calls i).cmd.value)] s.memory
                writeMu := none
                phase := update s.phase i .success } := by
            simp [step, holding]
          exact ⟨[_, _, _], _, by simp, .cons trivial hlock (.cons trivial hread (.cons trivial hwrite (.nil _))), rfl,
            update_self ..⟩

theorem execute_of_success {memory memory' : S7.Write.Memory}
    (hok : writeAddress p h answers addr cmd memory = .ok memory') :
    memory' = execute (encoder p h) memory ⟨addr, cmd⟩ := by
  unfold writeAddress at hok
  unfold execute Call.buf encoder
  cases hbuf : encodeS7Value p h cmd.value addr cmd.type with
  | error e =>
    rw [hbuf] at hok
    cases hok
  | ok buf =>
    simp only [hbuf, request] at hok
    cases hisBit : addr.isBit with
    | true =>
      simp only [hisBit] at hok
      cases hread : answers.read <;> cases hwrite : answers.write <;> simp only [hread, hwrite] at hok <;> cases hok
      simp [Except.toOption]
    | false =>
      simp only [hisBit, Bool.false_eq_true] at hok
      cases hwrite : answers.write <;> simp only [hwrite] at hok <;> cases hok
      simp [Except.toOption]

end

/-- **The commanded bit**: a bit write that succeeds has had a boolean, has set the addressed bit to it and has left
every other bit alone, exactly if the value is a boolean, cannot be encoded, or the controller refuses a request. -/
theorem bit_written_iff (p : Platform) (h : Helper) (answers : Answers) (d : S7Driver) (memory : S7.Write.Memory)
    (cmd : WriteCommand) (cfg : TagConfig) (addr : S7Address) (hlook : d.tags.lookup cmd.tag = some (cfg, addr))
    (hisBit : addr.isBit = true) (hbit : addr.bit ≤ 7) :
    ((writeCommand p h answers d memory cmd).2.success = true →
      ∃ b, cmd.value = .bool b ∧ BitSet memory (writeCommand p h answers d memory cmd).1 addr b) ↔
      (∃ b, cmd.value = .bool b) ∨ Refused answers addr cmd := by
  have hrefused : Refused answers addr { cmd with value := writeValueForTag p cmd cfg } ↔ Refused answers addr cmd := by
    simp [Refused, writeValueForTag_eq_iff (v := .bytes _) rfl]
  unfold writeCommand
  simp only [hlook]
  rcases writeAddress_bit p h answers { cmd with value := writeValueForTag p cmd cfg } hisBit memory with
    ⟨href, e, hwrite⟩ | ⟨href, hwrite⟩
  · simp only [hwrite, Bool.false_eq_true, false_imp_iff, true_iff]
    exact .inr (hrefused.mp href)
  · rw [hrefused] at href
    simp only [hwrite, true_imp_iff, href, or_false]
    constructor
    · rintro ⟨b, hb, -⟩
      exact ⟨b, hb⟩
    · rintro ⟨b, hb⟩
      refine ⟨b, hb, ?_⟩
      rw [(writeValueForTag_eq_iff rfl).mpr hb]
      exact bitSet_agWrite hbit memory b

def valve : S7Address := { area := .db, dbNumber := 1, start := 0, bit := 3, size := 1, isBit := true }

def valveDriver : S7Driver :=
  ⟨AList.singleton "valve" (⟨"valve", "DB1.DBX0.3", "bool", "", "", 0, 0, 0, "", "", "", "", ""⟩, valve)⟩

def plainHelper : Helper := ⟨fun b _ => b, fun b _ => b, fun _ => .nil, fun _ => .nil, fun _ => .nil⟩

def setValve (byte : UInt8) (value : GoValue) (type : DataType) : S7.Write.Memory × WriteResult :=
  writeCommand amd64 plainHelper {} valveDriver (fun _ => byte) { tag := "valve", value := value, type := type }

/-- The valve is opened. -/
theorem valve_opened : (setValve 0 (.bool true) .bool).2.success = true ∧
    ∃ b, GoValue.bool true = .bool b ∧ BitSet (fun _ => 0) (setValve 0 (.bool true) .bool).1 valve b := by
  have hsuccess : (setValve 0 (.bool true) .bool).2.success = true := rfl
  exact ⟨hsuccess, (bit_written_iff amd64 plainHelper {} valveDriver (fun _ => 0) { tag := "valve", value := .bool true }
    _ valve rfl rfl (by decide)).mpr (.inl ⟨true, rfl⟩) hsuccess⟩

/-- The number 7 closes the open valve, and is reported as a success. -/
theorem valve_closed_by_number : parseS7Address "DB1.DBX0.3" .bool = .ok valve ∧ getBoolAt 8 valve.bit = true ∧
    (setValve 8 (.int .int8 7) .int8).2.success = true ∧
    getBoolAt ((setValve 8 (.int .int8 7) .int8).1 valve.cell) valve.bit = false := by
  decide

/-! ### A bit and its word -/

/-- The bit `M0.0` is set, and the word `MW0` is written. -/
def markerCalls : Fin 2 → Call
  | 0 => { addr := { area := .m, start := 0, isBit := true }, cmd := { value := .bool true } }
  | 1 => { addr := { area := .m, start := 0, size := 2 }, cmd := { value := .int .uint16 0xF000, type := .uint16 } }

/-- A run of the two calls, on a memory of zeros. -/
abbrev MarkerRun (ok : State 2 → Act 2 → Prop) : List (Act 2) → State 2 → Prop :=
  Run (step (encoder amd64 plainHelper) markerCalls) ok { memory := fun _ => 0 }

/-- The word is written before the bit. -/
theorem serialisable_run_markers :
    ∃ s, MarkerRun (Undisturbed (encoder amd64 plainHelper) markerCalls)
        [⟨1, false⟩, ⟨0, false⟩, ⟨0, false⟩, ⟨0, false⟩] s ∧
      ∃ order : List (Fin 2), order.Perm (List.finRange 2) ∧
        s.memory = (order.map markerCalls).foldl (execute (encoder amd64 plainHelper)) fun _ => 0 := by
  exact Run.exists_of_forall (serialisable_run (encoder amd64 plainHelper) markerCalls _ _)
    ⟨_, .cons (fun _ j b hj => by cases hj) rfl (.cons (fun _ j b hj => by match j with | 0 => cases hj | 1 => cases hj)
      rfl (.cons (fun hidle => by cases hidle) rfl (.cons (fun hidle => by cases hidle) rfl (.nil _)))),
      fun hserial => hserial (by decide)⟩

/-- **A word that is written between the two requests of a bit write is lost**: both orders keep the upper half of its
first byte. -/
theorem lost_word_write : parseS7Address "M0.0" .bool = .ok (markerCalls 0).addr ∧
    parseS7Address "MW0" .uint16 = .ok (markerCalls 1).addr ∧
    ∃ s, MarkerRun (fun _ _ => True) [⟨0, false⟩, ⟨0, false⟩, ⟨1, false⟩, ⟨0, false⟩] s ∧
      (∀ i, s.phase i = .success) ∧
      ∀ order : List (Fin 2), order.Perm (List.finRange 2) →
        s.memory ≠ (order.map markerCalls).foldl (execute (encoder amd64 plainHelper)) fun _ => 0 := by
  refine ⟨by decide, by decide, _, .cons trivial rfl (.cons trivial rfl (.cons trivial rfl (.cons trivial rfl (.nil _)))),
    by decide, ?_⟩
  intro order hperm h
  obtain ⟨x, y, rfl⟩ := List.length_eq_two.mp hperm.length_eq
  have hne : x ≠ y := by simpa using hperm.nodup_iff.mpr (List.nodup_finRange 2)
  have hbyte := congrFun h ⟨.m, 0, 0⟩
  clear h hperm
  revert x y
  decide

end CoreC.S7.BitWrite
