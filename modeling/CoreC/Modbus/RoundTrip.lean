import Mathlib.Tactic.IntervalCases
import CoreC.Core.Json
import CoreC.Modbus.Driver

/-! # Writing an integer and reading it back

A JSON command with an integer literal passes three conversions: the decoder narrows it to the type of the command, the
conversion table makes a register word of it, and the read takes the registers apart by the type of the tag. None of them
checks a range, and the two types need not agree. -/

namespace CoreC.Modbus.RoundTrip

open Core.Types Core.Json Lib.GoInt Lib.Float64 Modbus.Driver List Option
open Lib.Json.Lex Lib.Json.Parse Lib.Json.Number Lib.Json.Struct
open Lib.Json.Text (quote)

/-! ### The patterns of integers in single precision -/

variable {n : ℕ}

/-- **One 16-bit number is the high word of its own pattern**, and one is up to the sign. -/
theorem pattern_high (hn : n ≠ 0) (h : n < 2 ^ 16) : (float32.pattern (roundNat32 n) / 2 ^ 16 = n ↔ n = 18061) ∧
      (float32.pattern (roundNat32 n) / 2 ^ 16 + n = 2 ^ 15 ↔ n = 14746) ∧
      float32.pattern (roundNat32 n) < 2 ^ 31 := by
  have hlow := Nat.log2_self_le hn
  have hhigh : n < 2 ^ (n.log2 + 1) := Nat.lt_log2_self
  have hlog : n.log2 < 16 := (Nat.log2_lt hn).mpr h
  rw [pattern_roundNat32 hn]
  generalize n.log2 = e at hlow hhigh hlog
  interval_cases e <;> norm_num at hlow hhigh ⊢ <;> omega

/-- **One 32-bit number is its own pattern**, and one is up to the sign. -/
theorem pattern_word (hn : n ≠ 0) (h : n < 2 ^ 32) : (float32.pattern (roundNat32 n) = n ↔ n = 1318926965) ∧
      (float32.pattern (roundNat32 n) + n = 2 ^ 31 ↔ n = 834214802) ∧
      float32.pattern (roundNat32 n) < 2 ^ 31 := by
  have hlow := Nat.log2_self_le hn
  have hhigh : n < 2 ^ (n.log2 + 1) := Nat.lt_log2_self
  have hlog : n.log2 < 32 := (Nat.log2_lt hn).mpr h
  rw [pattern_roundNat32 hn]
  generalize n.log2 = e at hlow hhigh hlog
  interval_cases e <;> norm_num [divRound] at hlow hhigh ⊢ <;> (try split_ifs) <;> omega

theorem pattern_lt (h : n < 2 ^ 32) : float32.pattern (roundNat32 n) < 2 ^ 31 := by
  rcases eq_or_ne n 0 with rfl | hn
  · decide +kernel
  · exact (pattern_word hn h).2.2

/-! ### Decoding a literal -/

/-- The literal `-0`. -/
def minusZero : Bytes := [0x2d, 0x30]

/-- The token is a JSON integer literal of the number `v`. -/
def IntLiteral (tok : Bytes) (v : ℤ) : Prop := tok = formatInt v ∨ tok = minusZero ∧ v = 0

variable {tok : Bytes} {v : ℤ}

section

variable (h : IntLiteral tok v)
include h

theorem isNumberToken_literal : isNumberToken tok = true := by
  rcases h with rfl | ⟨rfl, -⟩
  · exact isNumberToken_formatInt v
  · decide

theorem parseInt_literal : parseInt tok = if IntType.int64.InRange v then some v else none := by
  rcases h with rfl | ⟨rfl, rfl⟩
  · exact parseInt_formatInt v
  · decide

theorem parseUint_literal (hne : tok ≠ minusZero) :
    parseUint tok = if IntType.uint64.InRange v then some v else none := by
  rcases h with rfl | ⟨rfl, -⟩
  · exact parseUint_formatInt v
  · exact absurd rfl hne

theorem eq_zero_of_minusZero (hz : tok = minusZero) : v = 0 := by
  have hparse := parseInt_literal h
  have hzero : parseInt minusZero = some 0 := by decide
  rw [hz, hzero] at hparse
  split_ifs at hparse
  exact (some.inj hparse).symm

theorem decodeAny_literal (hv : v.natAbs < 2 ^ 53) :
    decodeAny (.scalar tok) = some (.float64 v) := by
  have hlt : v.natAbs < 2 ^ 200 := hv.trans (Nat.pow_lt_pow_right (by norm_num) (by norm_num))
  have hround : roundInt v = v := by
    unfold roundInt
    rw [roundNat_of_lt hv, Int.sign_mul_natAbs]
  have hparse : parseFloat float64 tok = some (v : ℚ) := by
    rcases h with rfl | ⟨rfl, rfl⟩
    · rw [parseFloat_formatInt hlt, hround]
    · decide +kernel
  unfold decodeAny
  rw [scalarAny_number (isNumberToken_literal h), hparse]
  rfl

theorem parseFloat32_literal (hv : v.natAbs < 2 ^ 32) : parseFloat float32 tok =
      some (if v < 0 then -(roundNat32 v.natAbs : ℚ) else (roundNat32 v.natAbs : ℚ)) := by
  have hlt : v.natAbs < 2 ^ 100 := hv.trans (Nat.pow_lt_pow_right (by norm_num) (by norm_num))
  rcases h with rfl | ⟨rfl, rfl⟩
  · rw [parseFloat_formatInt_eq, round_nat32 hlt]
    split_ifs <;> rfl
  · decide +kernel

theorem decodeSigned_literal (hv : v.natAbs < 2 ^ 32) (dt : DataType) :
    decodeSignedToken (.scalar tok) dt = ofInt64 dt v := by
  have hr : IntType.int64.InRange v := by
    rw [IntType.inRange_int64]
    omega
  unfold decodeSignedToken decodeToken
  dsimp only
  rw [if_pos (isNumberToken_literal h), parseInt_literal h, if_pos hr]
  cases dt <;> rfl

theorem decodeUnsigned_literal (hv : v.natAbs < 2 ^ 32) (dt : DataType) :
    decodeUnsignedToken (.scalar tok) dt =
      if 0 ≤ v ∧ tok ≠ minusZero then ofUint64 dt v else .float64 v := by
  have hdefault : decodeDefaultAny (.scalar tok) = .float64 v := by
    rw [decodeDefaultAny, decodeAny_literal h (hv.trans (by norm_num)), getD_some]
  unfold decodeUnsignedToken decodeToken
  dsimp only
  rw [if_pos (isNumberToken_literal h)]
  split_ifs with hc
  · have hr : IntType.uint64.InRange v := by
      show (0 : ℤ) ≤ v ∧ v < 18446744073709551616
      omega
    rw [parseUint_literal h hc.2, if_pos hr]
    cases dt <;> rfl
  · have hnone : parseUint tok = none := by
      by_cases hz : tok = minusZero
      · rw [hz]
        decide
      · rw [parseUint_literal h hz, if_neg]
        intro hr
        have h0 : (0 : ℤ) ≤ v := hr.1
        exact hc ⟨h0, hz⟩
    rw [hnone]
    exact hdefault

end

/-! ### Registers as numbers -/

def readBack (tagType : DataType) (hi lo : BitVec 16) : ℤ :=
  match tagType with
  | .int16 => hi.toInt
  | .uint16 => hi.toNat
  | .int32 => (hi ++ lo : BitVec 32).toInt
  | .uint32 => (hi ++ lo : BitVec 32).toNat
  | _ => 0

theorem toNat_append_words (hi lo : BitVec 16) : (hi ++ lo : BitVec 32).toNat = hi.toNat * 2 ^ 16 + lo.toNat := by
  rw [BitVec.toNat_append, ← Nat.shiftLeft_add_eq_or_of_lt lo.isLt, Nat.shiftLeft_eq]

theorem readBack_int16 (hi lo : BitVec 16) :
    readBack .int16 hi lo = if hi.toNat < 32768 then (hi.toNat : ℤ) else hi.toNat - 65536 := by
  show hi.toInt = _
  rw [BitVec.toInt_eq_toNat_cond]
  split_ifs <;> omega

theorem readBack_int32 (hi lo : BitVec 16) : readBack .int32 hi lo = if hi.toNat * 65536 + lo.toNat < 2147483648
      then (hi.toNat * 65536 + lo.toNat : ℤ) else hi.toNat * 65536 + lo.toNat - 4294967296 := by
  show (hi ++ lo : BitVec 32).toInt = _
  rw [BitVec.toInt_eq_toNat_cond, toNat_append_words]
  split_ifs <;> omega

theorem readBack_uint32 (hi lo : BitVec 16) : readBack .uint32 hi lo = hi.toNat * 65536 + lo.toNat := by
  show (((hi ++ lo : BitVec 32).toNat : ℕ) : ℤ) = _
  rw [toNat_append_words]
  omega

/-- The types of one or two registers. -/
def IsTagType (tagType : DataType) (t : IntType) : Prop :=
  tagType ∈ [DataType.int16, .uint16, .int32, .uint32] ∧ tagType.intType? = some t

theorem IsTagType.cases {tagType : DataType} {t : IntType} (h : IsTagType tagType t) :
    tagType = .int16 ∧ t = .int16 ∨ tagType = .uint16 ∧ t = .uint16 ∨ tagType = .int32 ∧ t = .int32 ∨
      tagType = .uint32 ∧ t = .uint32 := by
  obtain ⟨hmem, ht⟩ := h
  simp only [mem_cons, not_mem_nil, or_false] at hmem
  rcases hmem with rfl | rfl | rfl | rfl <;> cases ht <;> decide

/-- **The registers show `v`** if and only if it is a value of the type and they hold its words. -/
theorem readBack_iff {tagType : DataType} {t : IntType} (h : IsTagType tagType t) (hi lo : BitVec 16)
    (v : ℤ) : readBack tagType hi lo = v ↔ t.InRange v ∧
      if t.bits = 16 then (hi.toNat : ℤ) = v % 65536
      else (hi.toNat : ℤ) = v / 65536 % 65536 ∧ (lo.toNat : ℤ) = v % 65536 := by
  rcases h.cases with ⟨rfl, rfl⟩ | ⟨rfl, rfl⟩ | ⟨rfl, rfl⟩ | ⟨rfl, rfl⟩
  · rw [readBack_int16]
    show _ ↔ ((-32768 : ℤ) ≤ v ∧ v < 32768) ∧ (hi.toNat : ℤ) = v % 65536
    split_ifs <;> omega
  · show (hi.toNat : ℤ) = v ↔ ((0 : ℤ) ≤ v ∧ v < 65536) ∧ (hi.toNat : ℤ) = v % 65536
    omega
  · rw [readBack_int32]
    show _ ↔ ((-2147483648 : ℤ) ≤ v ∧ v < 2147483648) ∧ (hi.toNat : ℤ) = v / 65536 % 65536 ∧ (lo.toNat : ℤ) = v % 65536
    split_ifs <;> omega
  · rw [readBack_uint32]
    show _ ↔ ((0 : ℤ) ≤ v ∧ v < 4294967296) ∧ (hi.toNat : ℤ) = v / 65536 % 65536 ∧ (lo.toNat : ℤ) = v % 65536
    omega

/-! ### Reading one tag -/

section

variable {p : Platform} {d : ModbusBase} {m : Memory} {name : String} {cfg : TagConfig} {ai : AddrInfo}
  {tagType : DataType} {t : IntType}

def registers (m : Memory) (ai : AddrInfo) (n : ℕ) : List (BitVec 16) :=
  (List.range n).map fun i => m.register ai.area (ai.addr + i)

theorem extract_registers (h : IsTagType tagType t) (harea : ai.area = .holdingRegister) {n : ℕ}
    (hn : batchQuantity ai tagType = some n) :
    extractRegisterValue p (registers m ai n) 0 tagType =
      some (.int t (readBack tagType (m.holdingRegisters ai.addr) (m.holdingRegisters (ai.addr + 1)))) := by
  have hreg : ∀ a, m.register ai.area a = m.holdingRegisters a := by
    intro a
    rw [harea]
    rfl
  rcases h.cases with ⟨rfl, rfl⟩ | ⟨rfl, rfl⟩ | ⟨rfl, rfl⟩ | ⟨rfl, rfl⟩ <;>
    simp only [batchQuantity, harea] at hn <;> cases hn <;>
    simp [extractRegisterValue, registers, hreg, readBack]

theorem mapM_const {α β : Type} {f : α → Option β} {c : β} :
    ∀ {bs : List α}, (∀ b ∈ bs, f b = some c) → bs.mapM f = some (bs.map fun _ => c)
  | [], _ => rfl
  | b :: bs, h => by
    rw [mapM_cons, h b (by simp), mapM_const fun x hx => h x (by simp [hx])]
    rfl

theorem lookup_const {c : GoValue} : ∀ {l : List (ℕ × GoValue)}, (∀ x ∈ l, x = (0, c)) →
    l.lookup 0 = some c ∨ l.lookup 0 = none
  | [], _ => .inr rfl
  | x :: l, h => by
    rw [h x (by simp)]
    exact .inl rfl

theorem mergeBatches_single {r : BatchTagReq} {n : ℕ} (hn : r.qty = some n) (area : Area) :
    mergeBatches area modbusMaxBatchSize (batchable area [some r]) =
      if r.ai.area = area then [⟨area, r.ai.addr, n, [r]⟩] else [] := by
  unfold batchable
  by_cases h : r.ai.area = area
  · simp [h, hn, mergeBatches, mergeLoop]
  · simp [h, mergeBatches]

theorem readResult_single {r : BatchTagReq} {n : ℕ} (h : IsTagType r.dt t) (hscale : r.cfg.scale = 0)
    (hoffset : r.cfg.offset = 0) (harea : r.ai.area = .holdingRegister)
    (hn : batchQuantity r.ai r.dt = some n) (values : List (ℕ × GoValue)) :
    readResult p d m values r.name (some r) =
      ⟨r.name, (values.lookup r.index).getD (if d.maxRetry < 0 then .nil else .int t
        (readBack r.dt (m.holdingRegisters r.ai.addr) (m.holdingRegisters (r.ai.addr + 1)))),
        r.dt, .good⟩ := by
  have htransform : ∀ x, applyTransform p x r.cfg.scale r.cfg.offset = x := by
    intro x
    simp [applyTransform, hscale, hoffset]
  have hread : readTag p m r.ai r.dt r.name = .ok (.int t
      (readBack r.dt (m.holdingRegisters r.ai.addr) (m.holdingRegisters (r.ai.addr + 1)))) := by
    have hextract := @extract_registers p m r.ai r.dt t h harea n hn
    unfold registers at hextract
    unfold readTag
    simp only [hn, bind_some, hextract]
    rw [harea]
    rfl
  unfold readResult readTagWithRetry
  cases hl : values.lookup r.index with
  | some v => simp [hl, htransform]
  | none =>
    by_cases hretry : d.maxRetry < 0
    · simp [hl, hretry, htransform]
    · simp [hl, hretry, hread, htransform]

/-- **A read of one tag** returns what its registers show, or `nil` with a negative retry setting. -/
theorem read_single (areas : List Area) (hlook : d.tags.lookup name = some (cfg, ai))
    (hscale : cfg.scale = 0) (hoffset : cfg.offset = 0) (harea : ai.area = .holdingRegister)
    (htype : parseDataType cfg.type = some tagType) (h : IsTagType tagType t) :
    Driver.read p d areas m [name] = some [⟨name, if d.maxRetry < 0 then .nil else .int t
      (readBack tagType (m.holdingRegisters ai.addr) (m.holdingRegisters (ai.addr + 1))),
      tagType, .good⟩] := by
  obtain ⟨n, hn⟩ : ∃ n, batchQuantity ai tagType = some n := by
    rcases h.cases with ⟨rfl, -⟩ | ⟨rfl, -⟩ | ⟨rfl, -⟩ | ⟨rfl, -⟩ <;> simp [batchQuantity, harea, Area.isBit]
  have hextract := @extract_registers p m ai tagType t h harea n hn
  set value := GoValue.int t
    (readBack tagType (m.holdingRegisters ai.addr) (m.holdingRegisters (ai.addr + 1))) with hvalue
  set r : BatchTagReq := ⟨0, name, cfg, ai, tagType, batchQuantity ai tagType⟩ with hr
  have hresolve : resolve d [name] = [some r] := by
    simp [resolve, hlook, htype, hr]
  -- every batch is the range of the tag
  have hbatch : ∀ b ∈ areas.flatMap fun area =>
      mergeBatches area modbusMaxBatchSize (batchable area [some r]), readBatch p m b = some [(0, value)] := by
    intro b hb
    obtain ⟨area, -, hb⟩ := mem_flatMap.mp hb
    rw [mergeBatches_single hn] at hb
    split_ifs at hb with heq
    · obtain rfl := mem_singleton.mp hb
      have hoff : (ai.addr + 2 ^ 16 - ai.addr) % 2 ^ 16 = 0 := by omega
      have harea' : area = .holdingRegister := heq.symm.trans harea
      unfold registers at hextract
      rw [harea] at hextract
      unfold readBatch
      rw [harea', mapM_cons]
      simp only [readMember, hr, hoff, hextract]
      rfl
    · cases hb
  have hvalues : ∃ values, performBatchReads p d areas m [some r] = some values ∧
      (d.maxRetry < 0 → values = []) ∧ (values.lookup 0 = some value ∨ values.lookup 0 = none) := by
    unfold performBatchReads
    split_ifs with hretry
    · exact ⟨[], rfl, fun _ => rfl, .inr rfl⟩
    · rw [mapM_const hbatch]
      refine ⟨_, rfl, fun h => absurd h hretry, lookup_const fun x hx => ?_⟩
      obtain ⟨l, hl, hx⟩ := mem_flatten.mp hx
      obtain ⟨b, -, rfl⟩ := mem_map.mp hl
      exact mem_singleton.mp hx
  obtain ⟨values, hperform, hnil, hlookup⟩ := hvalues
  have hresult := @readResult_single p d m t r n h hscale hoffset harea hn values
  unfold Driver.read
  rw [hresolve]
  dsimp only
  rw [hperform]
  simp only [map_some, zip_cons_cons, zip_nil_right, map_cons]
  rw [show readResult p d m values name (some r) = _ from hresult]
  rcases hlookup with hl | hl
  · have hretry : ¬ d.maxRetry < 0 := by
      intro hneg
      rw [hnil hneg] at hl
      cases hl
    rw [show values.lookup r.index = some value from hl, if_neg hretry]
    rfl
  · rw [show values.lookup r.index = none from hl]
    rfl

/-! ### What a successful write leaves in the registers -/

theorem holding_writeRegisters (m : Memory) (a i : ℕ) (regs : List (BitVec 16)) :
    (m.writeRegisters a regs).holdingRegisters (a + i) = regs.getD i (m.holdingRegisters (a + i)) := by
  simp [Memory.writeRegisters]

theorem writeTag_of_success {cmd : WriteCommand} {negZero : Bool}
    (hlook : d.tags.lookup cmd.tag = some (cfg, ai)) (hscale : cfg.scale = 0)
    (hoffset : cfg.offset = 0) (hok : (writeCommand p negZero d m cmd).2.success = true) :
    writeTag p negZero m ai cmd = .ok (writeCommand p negZero d m cmd).1 := by
  have hvalue : writeValueForTag p cmd cfg = cmd.value := by
    simp [writeValueForTag, invertTransform, hscale, hoffset]
  unfold writeCommand writeCommandWith at hok ⊢
  rw [hlook] at hok ⊢
  dsimp only at hok ⊢
  rw [hvalue] at hok ⊢
  split_ifs at hok ⊢ with hro
  cases hw : writeTag p negZero m ai cmd with
  | ok m' => rfl
  | error e =>
    rw [hw] at hok
    cases hok

end

variable (p : Platform)

/-- One register: for a tag of 32 bits it is the high word, and the low word stays. -/
def SurvivesOne (t : IntType) (unsigned : Bool) (v : ℤ) (next : ℕ) : Prop :=
  t.InRange v ∧
    if t.bits = 16 then unsigned = true → v < 0 → p.floatToUint .uint16 v = v + 65536
    else (next : ℤ) = v % 65536 ∧
      if unsigned = true ∧ v < 0 then p.floatToUint .uint16 v = v / 65536 + 65536
      else v / 65536 % 65536 = v % 65536

/-- Two registers: a tag of 16 bits shows the high word only. -/
def SurvivesTwo (t : IntType) (unsigned : Bool) (v : ℤ) : Prop :=
  t.InRange v ∧
    if t.bits = 32 then unsigned = true → v < 0 → p.floatToUint .uint32 v = v + 4294967296
    else if unsigned = true ∧ v < 0 then p.floatToUint .uint32 v / 65536 = v + 65536
    else v = 0 ∨ v = -1

/-- Two registers with a single-precision number: the integers that are their own pattern. -/
def SurvivesFloat (t : IntType) (tok : Bytes) (v : ℤ) : Prop :=
  v = 0 ∧ tok ≠ minusZero ∨
    if t.bits = 16 then v = 18061 ∨ t.signed = true ∧ v = -14746
    else v = 1318926965 ∨ t.signed = true ∧ v = -834214802

/-- The number is read back. -/
def Survives (t : IntType) (cmdType : DataType) (tok : Bytes) (v : ℤ) (next : ℕ) : Prop :=
  match cmdType with
  | .int16 => SurvivesOne p t false v next
  | .uint16 => SurvivesOne p t true v next
  | .int32 => SurvivesTwo p t false v
  | .uint32 => SurvivesTwo p t true v
  | .float32 => SurvivesFloat t tok v
  | _ => True

section

variable {p : Platform} {tagType : DataType} {t : IntType} {hi lo : BitVec 16}

variable (h : IsTagType tagType t)
include h

theorem range_of_tag (hr : t.InRange v) :
    t.bits = 16 ∧ -32768 ≤ v ∧ v < 65536 ∨ t.bits = 32 ∧ -2147483648 ≤ v ∧ v < 4294967296 := by
  rcases h.cases with ⟨-, rfl⟩ | ⟨-, rfl⟩ | ⟨-, rfl⟩ | ⟨-, rfl⟩ <;> obtain ⟨hlo, hhi⟩ := hr <;>
    norm_num [IntType.lo, IntType.hi, IntType.bits, IntType.signed] at hlo hhi ⊢ <;> omega

theorem survivesOne_iff {unsigned : Bool} (hword : t.InRange v → (hi.toNat : ℤ) =
      if unsigned = true ∧ v < 0 then p.floatToUint .uint16 v else v % 65536) :
    readBack tagType hi lo = v ↔ SurvivesOne p t unsigned v lo.toNat := by
  rw [readBack_iff h]
  refine and_congr_right fun hr => ?_
  have hw := hword hr
  have hrange := range_of_tag h hr
  split_ifs at hw ⊢ with hbits hneg hneg
  · exact ⟨fun h _ _ => by omega, fun h => by have := h hneg.1 hneg.2; omega⟩
  · exact iff_of_true hw fun hu hv => absurd ⟨hu, hv⟩ hneg
  · omega
  · omega

theorem survivesTwo_iff {unsigned : Bool}
    (hword : t.InRange v → (hi.toNat * 65536 + lo.toNat : ℤ) =
      if unsigned = true ∧ v < 0 then p.floatToUint .uint32 v else v % 4294967296) :
    readBack tagType hi lo = v ↔ SurvivesTwo p t unsigned v := by
  rw [readBack_iff h]
  refine and_congr_right fun hr => ?_
  have hw := hword hr
  rcases range_of_tag h hr with ⟨hbits, hrange⟩ | ⟨hbits, hrange⟩
  · rw [if_pos hbits, if_neg (by omega)]
    split_ifs at hw ⊢
    · omega
    · -- the high word of a 16-bit number is its sign
      have hhigh : (hi.toNat : ℤ) = if v < 0 then 65535 else 0 := by split_ifs <;> omega
      split_ifs at hhigh <;> omega
  · rw [if_neg (by omega), if_pos hbits]
    split_ifs at hw with hneg
    · exact ⟨fun h _ _ => by omega, fun h => by have := h hneg.1 hneg.2; omega⟩
    · exact iff_of_true (by omega) fun hu hv => absurd ⟨hu, hv⟩ hneg

omit h in
theorem signed_of_neg (hr : t.InRange v) (hv : v < 0) : t.signed = true := by
  by_contra hs
  have hlo : t.lo ≤ v := hr.1
  rw [IntType.lo, if_neg hs] at hlo
  omega

theorem inRange_of_survivesFloat (hs : SurvivesFloat t tok v) : t.InRange v := by
  rcases h.cases with ⟨-, rfl⟩ | ⟨-, rfl⟩ | ⟨-, rfl⟩ | ⟨-, rfl⟩ <;>
    norm_num [SurvivesFloat, IntType.InRange, IntType.lo, IntType.hi, IntType.bits, IntType.signed] at hs ⊢ <;> omega

theorem survivesFloat_iff (hword : t.InRange v → hi.toNat * 65536 + lo.toNat =
      (if v < 0 ∨ v = 0 ∧ tok = minusZero then 2147483648 else 0) + float32.pattern (roundNat32 v.natAbs)) :
    readBack tagType hi lo = v ↔ SurvivesFloat t tok v := by
  by_cases hr : t.InRange v
  swap
  · refine iff_of_false (fun heq => hr ((readBack_iff h hi lo v).mp heq).1) fun hs => ?_
    exact hr (inRange_of_survivesFloat h hs)
  have hw := hword hr
  rw [readBack_iff h, and_iff_right hr]
  unfold SurvivesFloat
  rcases eq_or_ne v 0 with rfl | hv0
  · have hzero : float32.pattern (roundNat32 (0 : ℤ).natAbs) = 0 := by decide +kernel
    by_cases hz : tok = minusZero
    · rw [if_pos (.inr ⟨rfl, hz⟩)] at hw
      have hhigh : hi.toNat = 32768 := by omega
      simp only [hz, hhigh]
      split_ifs <;> norm_num
    · rw [if_neg (by simp [hz])] at hw
      have hhigh : hi.toNat = 0 := by omega
      have hlow : lo.toNat = 0 := by omega
      simp [hz, hhigh, hlow]
  · have hn : v.natAbs ≠ 0 := by omega
    have hcond : (v < 0 ∨ v = 0 ∧ tok = minusZero) ↔ v < 0 := by simp [hv0]
    simp only [hcond] at hw
    simp only [hv0, false_and, false_or]
    rcases range_of_tag h hr with ⟨hbits, hrange⟩ | ⟨hbits, hrange⟩
    on_goal 1 =>
      obtain ⟨hpos, hneg, hlt⟩ := pattern_high hn (by omega)
      rw [if_pos hbits, if_pos hbits]
    on_goal 2 =>
      obtain ⟨hpos, hneg, hlt⟩ := pattern_word hn (by omega)
      rw [if_neg (by omega), if_neg (by omega)]
    all_goals
      rcases lt_or_ge v 0 with hv | hv
      · rw [if_pos hv] at hw
        have hsigned := signed_of_neg hr hv
        constructor
        · exact fun h => .inr ⟨hsigned, by have := hneg.mp (by omega); omega⟩
        · rintro (h | ⟨-, h⟩) <;> omega
      · rw [if_neg (by omega)] at hw
        constructor
        · exact fun h => .inl (by have := hpos.mp (by omega); omega)
        · rintro (h | ⟨-, h⟩) <;> omega

end

/-! ### The words of a literal -/

theorem decodeValueByType_literal (h : IntLiteral tok v) (dt : DataType) :
    decodeValueByType (some (.scalar tok)) dt = decodeValueByType.byType dt (.scalar tok) := by
  simp [decodeValueByType, ne_nullTok_of_number (isNumberToken_literal h)]

theorem toUint16_literal (h : IntLiteral tok v) (hv : v.natAbs < 2 ^ 32) :
    toUint16 p (decodeValueByType (some (.scalar tok)) .int16) = v % 65536 ∧
      toUint16 p (decodeValueByType (some (.scalar tok)) .uint16) =
        if v < 0 then p.floatToUint .uint16 v else v % 65536 := by
  rw [decodeValueByType_literal h, decodeValueByType_literal h]
  refine ⟨?_, ?_⟩
  · show toUint16 p (decodeSignedToken (.scalar tok) .int16) = _
    rw [decodeSigned_literal h hv]
    show (((v + 32768) % 65536 - 32768) - 0) % 65536 + 0 = v % 65536
    omega
  · show toUint16 p (decodeUnsignedToken (.scalar tok) .uint16) = _
    rw [decodeUnsigned_literal h hv]
    split_ifs with hc hneg hneg
    · omega
    · show (v - 0) % 65536 + 0 = v % 65536
      omega
    · rfl
    · have hz : tok = minusZero := by
        by_contra hne
        exact hc ⟨by omega, hne⟩
      rw [eq_zero_of_minusZero h hz]
      exact p.trunc .uint16 ((0 : ℤ) : ℚ) (by decide)

theorem toUint32_literal (h : IntLiteral tok v) (hv : v.natAbs < 2 ^ 32) :
    toUint32 p (decodeValueByType (some (.scalar tok)) .int32) = v % 4294967296 ∧
      toUint32 p (decodeValueByType (some (.scalar tok)) .uint32) =
        if v < 0 then p.floatToUint .uint32 v else v % 4294967296 := by
  rw [decodeValueByType_literal h, decodeValueByType_literal h]
  refine ⟨?_, ?_⟩
  · show toUint32 p (decodeSignedToken (.scalar tok) .int32) = _
    rw [decodeSigned_literal h hv]
    show (((v + 2147483648) % 4294967296 - 2147483648) - 0) % 4294967296 + 0 = v % 4294967296
    omega
  · show toUint32 p (decodeUnsignedToken (.scalar tok) .uint32) = _
    rw [decodeUnsigned_literal h hv]
    split_ifs with hc hneg hneg
    · omega
    · show (v - 0) % 4294967296 + 0 = v % 4294967296
      omega
    · rfl
    · have hz : tok = minusZero := by
        by_contra hne
        exact hc ⟨by omega, hne⟩
      rw [eq_zero_of_minusZero h hz]
      exact p.trunc .uint32 ((0 : ℤ) : ℚ) (by decide)

theorem float32bits_literal (h : IntLiteral tok v) (hv : v.natAbs < 2 ^ 32) :
    float32bits (toFloat32 (tok = minusZero) (decodeValueByType (some (.scalar tok)) .float32)).1
        (toFloat32 (tok = minusZero) (decodeValueByType (some (.scalar tok)) .float32)).2 =
      (if v < 0 ∨ v = 0 ∧ tok = minusZero then 2147483648 else 0) + float32.pattern (roundNat32 v.natAbs) := by
  have hvalue : decodeValueByType (some (.scalar tok)) .float32 =
      .float32 (if v < 0 then -(roundNat32 v.natAbs : ℚ) else (roundNat32 v.natAbs : ℚ)) := by
    rw [decodeValueByType_literal h]
    show decodeFloatToken (.scalar tok) .float32 = _
    unfold decodeFloatToken decodeToken
    dsimp only
    rw [if_pos (isNumberToken_literal h), parseFloat32_literal h hv]
    rfl
  rw [hvalue]
  unfold toFloat32 float32bits
  rcases lt_trichotomy v 0 with hneg | rfl | hpos
  · have hr : (0 : ℚ) < roundNat32 v.natAbs := by exact_mod_cast roundNat32_pos (by omega)
    rw [if_pos hneg, if_pos (Or.inl hneg)]
    simp [hr]
  · have hr : roundNat32 0 = 0 := by decide
    simp [hr]
  · have hr : (0 : ℚ) < roundNat32 v.natAbs := by exact_mod_cast roundNat32_pos (by omega)
    have hv0 : ¬(v < 0 ∨ v = 0 ∧ tok = minusZero) := by
      rintro (hlt | ⟨hz, -⟩) <;> omega
    have hv1 : ¬ v < 0 := by omega
    simp only [if_neg hv1, if_neg hv0]
    simp [hr.ne']

theorem decodeBool_literal (h : IntLiteral tok v) (b : Bool) :
    decodeValueByType (some (.scalar tok)) .bool ≠ .bool b := by
  have hnumber := isNumberToken_literal h
  have hexpected : ¬(tok = trueTok ∨ tok = falseTok) := by
    rintro (rfl | rfl) <;> exact absurd hnumber (by decide)
  rw [decodeValueByType_literal h]
  show decodeBoolToken (.scalar tok) ≠ _
  unfold decodeBoolToken decodeToken
  dsimp only
  rw [if_neg (by simpa using hexpected)]
  unfold decodeDefaultAny decodeAny
  rw [scalarAny_number hnumber]
  cases parseFloat float64 tok <;> simp

/-! ### The round trip -/

section

variable {p : Platform} {m m' : Memory} {ai : AddrInfo} {cmd : WriteCommand} {tagType : DataType}
  {t : IntType}

theorem toNat_words_append (w : ℕ) (h : w < 2 ^ 32) :
    (BitVec.ofNat 16 (w / 2 ^ 16)).toNat * 65536 + (BitVec.ofNat 16 w).toNat = w := by
  simp only [BitVec.toNat_ofNat]
  omega

theorem readBack_one (h : IsTagType tagType t) {unsigned : Bool} {word : ℤ} (hword : v.natAbs < 2 ^ 32 → word =
      if unsigned = true ∧ v < 0 then p.floatToUint .uint16 v else v % 65536)
    (hm : m' = m.writeRegisters ai.addr [BitVec.ofInt 16 word]) :
    readBack tagType (m'.holdingRegisters ai.addr) (m'.holdingRegisters (ai.addr + 1)) = v ↔
      SurvivesOne p t unsigned v (m.holdingRegisters (ai.addr + 1)).toNat := by
  have hhi : m'.holdingRegisters ai.addr = BitVec.ofInt 16 word := by
    rw [hm]
    exact holding_writeRegisters m ai.addr 0 _
  have hlo : m'.holdingRegisters (ai.addr + 1) = m.holdingRegisters (ai.addr + 1) := by
    rw [hm]
    exact holding_writeRegisters m ai.addr 1 _
  rw [hhi, hlo]
  refine survivesOne_iff h fun hr => ?_
  have hrange := range_of_tag h hr
  have hw := hword (by omega)
  have hrange16 : 0 ≤ word ∧ word < 65536 := by
    rw [hw]
    split_ifs
    · exact p.inRange .uint16 v
    · omega
  rw [BitVec.toNat_ofInt]
  omega

theorem registers_two {word : ℕ} (hword : word < 2 ^ 32) (hm : m' = m.writeRegisters ai.addr (words word)) :
    (m'.holdingRegisters ai.addr).toNat * 65536 + (m'.holdingRegisters (ai.addr + 1)).toNat = word := by
  have hhi : m'.holdingRegisters ai.addr = BitVec.ofNat 16 (word / 2 ^ 16) := by
    rw [hm]
    exact holding_writeRegisters m ai.addr 0 _
  have hlo : m'.holdingRegisters (ai.addr + 1) = BitVec.ofNat 16 word := by
    rw [hm]
    exact holding_writeRegisters m ai.addr 1 _
  rw [hhi, hlo, toNat_words_append word hword]

theorem readBack_two (h : IsTagType tagType t) {unsigned : Bool} {word : ℤ} (hword : v.natAbs < 2 ^ 32 → word =
      if unsigned = true ∧ v < 0 then p.floatToUint .uint32 v else v % 4294967296)
    (hm : m' = m.writeRegisters ai.addr (words word.toNat)) :
    readBack tagType (m'.holdingRegisters ai.addr) (m'.holdingRegisters (ai.addr + 1)) = v ↔
      SurvivesTwo p t unsigned v := by
  refine survivesTwo_iff h fun hr => ?_
  have hrange := range_of_tag h hr
  have hw := hword (by omega)
  have hrange32 : 0 ≤ word ∧ word < 4294967296 := by
    rw [hw]
    split_ifs
    · exact p.inRange .uint32 v
    · omega
  have htwo := registers_two (by omega) hm
  omega

theorem readBack_of_writeTag (h : IsTagType tagType t) (harea : ai.area = .holdingRegister)
    (hlit : IntLiteral tok v) (hvalue : cmd.value = decodeValueByType (some (.scalar tok)) cmd.type)
    (hw : writeTag p (tok = minusZero) m ai cmd = .ok m') :
    readBack tagType (m'.holdingRegisters ai.addr) (m'.holdingRegisters (ai.addr + 1)) = v ↔
      Survives p t cmd.type tok v (m.holdingRegisters (ai.addr + 1)).toNat := by
  unfold writeTag at hw
  rw [harea, if_neg (by simp [Area.isBit])] at hw
  rw [hvalue] at hw
  cases htype : cmd.type with
  | int16 =>
    simp only [htype, Except.ok.injEq] at hw
    refine readBack_one h (fun hv => ?_) hw.symm
    rw [(toUint16_literal p hlit hv).1]
    simp
  | uint16 =>
    simp only [htype, Except.ok.injEq] at hw
    refine readBack_one h (fun hv => ?_) hw.symm
    rw [(toUint16_literal p hlit hv).2]
    simp
  | int32 =>
    simp only [htype, Except.ok.injEq] at hw
    refine readBack_two h (fun hv => ?_) hw.symm
    rw [(toUint32_literal p hlit hv).1]
    simp
  | uint32 =>
    simp only [htype, Except.ok.injEq] at hw
    refine readBack_two h (fun hv => ?_) hw.symm
    rw [(toUint32_literal p hlit hv).2]
    simp
  | float32 =>
    simp only [htype, Except.ok.injEq] at hw
    refine survivesFloat_iff h fun hr => ?_
    have hrange := range_of_tag h hr
    have hbits := float32bits_literal hlit (by omega)
    have hpattern := pattern_lt (show v.natAbs < 2 ^ 32 by omega)
    rw [registers_two (by rw [hbits]; split_ifs <;> omega) hw.symm, hbits]
  | bool =>
    simp only [htype] at hw
    split at hw
    · next b heq => exact absurd heq (decodeBool_literal hlit b)
    · cases hw
  | int8 | int64 | uint8 | uint64 | float64 | string | bytes =>
    simp only [htype] at hw
    cases hw

end

/-- **A written integer is read back** if and only if it survives the conversions: it is in the range of the tag, and
a command of another width or sign leaves the words of the integer in the registers. -/
theorem write_read_iff (p : Platform) (d : ModbusBase) (areas : List Area) (m m' : Memory) (doc : Doc)
    (cmd : WriteCommand) (tok : Bytes) (v : ℤ) (cfg : TagConfig) (ai : AddrInfo) (tagType : DataType)
    (t : IntType) (r : WriteResult)
    (hlook : d.tags.lookup cmd.tag = some (cfg, ai)) (harea : ai.area = .holdingRegister)
    (htype : parseDataType cfg.type = some tagType) (h : IsTagType tagType t)
    (hscale : cfg.scale = 0) (hoffset : cfg.offset = 0)
    (hcmd : unmarshalCommand doc = some cmd) (hraw : probeRawValue doc = some (.scalar tok))
    (hlit : IntLiteral tok v)
    (hwrite : write p d m [(cmd, tok = minusZero)] = (m', [r])) (hok : r.success = true) :
    Driver.read p d areas m' [cmd.tag] = some [⟨cmd.tag, .int t v, tagType, .good⟩] ↔
      0 ≤ d.maxRetry ∧ Survives p t cmd.type tok v (m.holdingRegisters (ai.addr + 1)).toNat := by
  have hone : writeCommand p (tok = minusZero) d m cmd = (m', r) := by
    simp only [write, Prod.mk.injEq, List.cons.injEq, and_true] at hwrite
    exact Prod.ext hwrite.1 hwrite.2
  have hw : writeTag p (tok = minusZero) m ai cmd = .ok m' := by
    have hw := @writeTag_of_success p d m cfg ai cmd (tok = minusZero) hlook hscale hoffset (by rw [hone]; exact hok)
    rw [hw, hone]
  have hvalue : cmd.value = decodeValueByType (some (.scalar tok)) cmd.type := by
    obtain ⟨fields, -, rfl⟩ := map_eq_some_iff.mp hcmd
    rw [hraw]
  have hread := readBack_of_writeTag h harea hlit hvalue hw
  rw [read_single areas hlook hscale hoffset harea htype h, ← hread]
  by_cases hretry : d.maxRetry < 0
  · rw [if_pos hretry]
    simp only [not_le.mpr hretry, false_and, iff_false]
    intro heq
    simp at heq
  · rw [if_neg hretry]
    simp [not_lt.mp hretry]

/-- The instruction that truncates to a signed integer; a number that does not fit gives the least one. -/
def truncateTo (t : IntType) (n : ℤ) : ℤ := if t.InRange n then n else t.lo

/-- A conversion on amd64, from the truncated number: the narrow types and `int32` are the low bits of an `int32`,
`uint32` and `int64` those of an `int64`, and `uint64` is taken in two halves. -/
def floatToInt (n : ℤ) : IntType → ℤ
  | .uint32 => IntType.uint32.wrap (truncateTo .int64 n)
  | .int64 => truncateTo .int64 n
  | .uint64 => IntType.uint64.wrap
      (if n < 2 ^ 63 then truncateTo .int64 n else truncateTo .int64 (n - 2 ^ 63) + 2 ^ 63)
  | t => t.wrap (truncateTo .int32 n)

theorem floatToInt_inRange (n : ℤ) (t : IntType) : t.InRange (floatToInt n t) := by
  cases t with
  | int64 =>
    show IntType.int64.InRange (truncateTo .int64 n)
    unfold truncateTo
    split_ifs with hfits
    · exact hfits
    · decide
  | _ => exact IntType.wrap_inRange _ _

theorem floatToInt_eq_self {n : ℤ} {t : IntType} (h : t.InRange n) : floatToInt n t = n := by
  -- a number of the type is a number of the type it is truncated to
  have hfits : ∀ u : IntType, u.lo ≤ t.lo → t.hi ≤ u.hi → truncateTo u n = n :=
    fun u hlo hhi => if_pos ⟨hlo.trans h.1, h.2.trans_le hhi⟩
  cases t with
  | int64 => exact hfits .int64 (by decide) (by decide)
  | uint32 => exact (congrArg _ (hfits .int64 (by decide) (by decide))).trans (IntType.wrap_eq_self h)
  | uint64 =>
    have hbound : 0 ≤ n ∧ n < 18446744073709551616 := h
    have hhalf : (if n < 2 ^ 63 then truncateTo .int64 n else truncateTo .int64 (n - 2 ^ 63) + 2 ^ 63) = n := by
      simp only [truncateTo, IntType.inRange_int64]
      split_ifs <;> omega
    exact (congrArg _ hhalf).trans (IntType.wrap_eq_self h)
  | _ => exact (congrArg _ (hfits .int32 (by decide) (by decide))).trans (IntType.wrap_eq_self h)

def amd64 : Platform where
  floatToUint t q := floatToInt (q.num.tdiv q.den) t
  inRange t _ := floatToInt_inRange _ t
  trunc _ _ h := floatToInt_eq_self h
  mulAdd
    | q, .finite scale, .finite offset => q * scale + offset
    | _, _, _ => 0
  subDiv
    | q, .finite offset, .finite scale => (q - offset) / scale
    | _, _, _ => 0
  float32frombits _ := .nil
  float64frombits _ := .nil

/-- A driver with one holding register of type `int16`. -/
def pumpDriver : ModbusBase where
  tags := (∅ : AList fun _ : String => TagConfig × AddrInfo).insert "speed"
    ({ name := "speed", address := "40001", type := "int16" }, ⟨.holdingRegister, 0⟩)
  maxRetry := 3

def zeroMemory : Memory := ⟨fun _ => false, fun _ => false, fun _ => 0, fun _ => 0⟩

def setSpeed (v : ℤ) : Doc :=
  .obj [(quote "driver", .scalar (quote "pump")), (quote "tag", .scalar (quote "speed")),
    (quote "value", .scalar (formatInt v)), (quote "type", .scalar (quote DataType.int16.name))]

def speedCommand (v : ℤ) : WriteCommand :=
  { driver := "pump", tag := "speed", value := .int .int16 (IntType.int16.wrap v), type := .int16 }

theorem probe_setSpeed (v : ℤ) : probeRawValue (setSpeed v) = some (.scalar (formatInt v)) :=
  rfl

theorem unmarshalCommand_setSpeed {v : ℤ} (hv : v.natAbs < 2 ^ 32) :
    unmarshalCommand (setSpeed v) = some (speedCommand v) := by
  have hlit : IntLiteral (formatInt v) v := .inl rfl
  have hdriver : commandSchema.set .driver (.scalar (quote "pump")) = some fun c => { c with driver := "pump" } := by
    simp [commandSchema, setString_quote]
  have htag : commandSchema.set .tag (.scalar (quote "speed")) = some fun c => { c with tag := "speed" } := by
    simp [commandSchema, setString_quote]
  have hvalue : commandSchema.set .value (.scalar (formatInt v)) = some fun c => { c with value := .float64 v } := by
    simp [commandSchema, decodeAny_literal hlit (hv.trans (by norm_num))]
  have htype : commandSchema.set .type (.scalar (quote DataType.int16.name)) =
      some fun c => { c with type := .int16 } := by
    simp [commandSchema, unmarshalDataType_name]
  have hfill : commandSchema.unmarshal (setSpeed v) {} = some
      { driver := "pump", tag := "speed", value := .float64 v, type := .int16 } := by
    calc commandSchema.fill _ {}
      _ = commandSchema.fill _ _ := Schema.fill_cons rfl hdriver
      _ = commandSchema.fill _ _ := Schema.fill_cons rfl htag
      _ = commandSchema.fill _ _ := Schema.fill_cons rfl hvalue
      _ = commandSchema.fill _ _ := Schema.fill_cons rfl htype
      _ = _ := rfl
  have hdecode : decodeValueByType (some (.scalar (formatInt v))) .int16 = .int .int16 (IntType.int16.wrap v) := by
    rw [decodeValueByType_literal hlit]
    exact decodeSigned_literal hlit hv .int16
  rw [unmarshalCommand, hfill, map_some, probe_setSpeed]
  rw [hdecode]
  rfl

theorem lookup_speed : pumpDriver.tags.lookup "speed" =
    some ({ name := "speed", address := "40001", type := "int16" }, ⟨.holdingRegister, 0⟩) :=
  AList.lookup_insert _

theorem write_setSpeed (v : ℤ) : write amd64 pumpDriver zeroMemory [(speedCommand v, false)] =
    (zeroMemory.writeRegisters 0 [BitVec.ofInt 16 (toUint16 amd64 (.int .int16 (IntType.int16.wrap v)))],
      [⟨true, ""⟩]) := by
  rfl

/-- 5 survives. -/
theorem speed_read_back : ∃ m', write amd64 pumpDriver zeroMemory [(speedCommand 5, false)] = (m', [⟨true, ""⟩]) ∧
    Driver.read amd64 pumpDriver [.holdingRegister] m' ["speed"] = some [⟨"speed", .int .int16 5, .int16, .good⟩] := by
  refine ⟨_, write_setSpeed 5, ?_⟩
  have hfalse : decide (formatInt 5 = minusZero) = false := by decide
  refine (write_read_iff amd64 pumpDriver [.holdingRegister] zeroMemory _ (setSpeed 5) (speedCommand 5)
    (formatInt 5) 5 _ _ .int16 .int16 ⟨true, ""⟩ lookup_speed rfl (by decide) ⟨by decide, rfl⟩ rfl rfl
    (unmarshalCommand_setSpeed (by decide)) (probe_setSpeed 5) (.inl rfl)
    (by rw [hfalse]; exact write_setSpeed 5) rfl).mpr ⟨by decide, ?_⟩
  exact ⟨by decide, fun h => absurd h (by decide)⟩

/-- 70000 is written to a register of type `int16` without an error, and reads back as 4464. -/
theorem speed_overflow : ∃ cmd m', unmarshalCommand (setSpeed 70000) = some cmd ∧
    write amd64 pumpDriver zeroMemory [(cmd, false)] = (m', [⟨true, ""⟩]) ∧
    Driver.read amd64 pumpDriver [.holdingRegister] m' ["speed"] =
      some [⟨"speed", .int .int16 4464, .int16, .good⟩] := by
  refine ⟨speedCommand 70000, _, unmarshalCommand_setSpeed (by decide), write_setSpeed 70000, ?_⟩
  rfl

end CoreC.Modbus.RoundTrip
