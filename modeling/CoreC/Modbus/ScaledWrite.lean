import CoreC.Modbus.RoundTrip

/-! # Scaled writes

A write to a tag with a scale or an offset goes through `InvertTransform`, which makes a `float64` of every number, and
then through `ToUint16` or `ToUint32`, also for the signed types. Go leaves the conversion of a negative number to an
unsigned type to the platform. The arithmetic here is exact: `invertExact` is `InvertTransform` on rational numbers
(`invertTransform_eq_exact`), and nothing but the conversion can lose the number. -/

namespace CoreC.Modbus.ScaledWrite

open Core.Types Lib.GoInt Lib.Yaml Modbus.Driver Modbus.RoundTrip

/-! ### Exact arithmetic -/

/-- `InvertTransform` on rational numbers. -/
def invertExact (value : GoValue) (scale offset : ℚ) : GoValue :=
  if scale = 0 ∧ offset = 0 then value
  else
    match value.number with
    | some v => .float64 ((v - offset) / if scale = 0 then 1 else scale)
    | none => value

/-- `WriteValueForTag` on rational numbers. -/
def writeValueExact (cmd : WriteCommand) (cfg : TagConfig) : GoValue :=
  if cmd.raw then cmd.value
  else
    match cfg.scale, cfg.offset with
    | .finite scale, .finite offset => invertExact cmd.value scale offset
    | _, _ => cmd.value

/-- `Write` with exact scaling. -/
def writeExact (p : Platform) : Bool → ModbusBase → Memory → WriteCommand → Memory × WriteResult :=
  writeCommandWith p writeValueExact

theorem invertTransform_eq_exact {p : Platform} {value : GoValue} {scale offset : ℚ}
    (hvalue : ∀ v, value.number = some v → toFloat64OK value = some v)
    (hexact : ∀ v s, value.number = some v → p.subDiv v (.finite offset) (.finite s) = (v - offset) / s) :
    invertTransform p value (.finite scale) (.finite offset) = invertExact value scale offset := by
  have hzero : ∀ q, GoFloat.finite q = 0 ↔ q = 0 := fun q => ⟨fun h => GoFloat.finite.inj h, fun h => h ▸ rfl⟩
  have hone : (if scale = 0 then (1 : GoFloat) else .finite scale) = .finite (if scale = 0 then 1 else scale) := by
    by_cases hs : scale = 0
    · rw [if_pos hs, if_pos hs]
      rfl
    · rw [if_neg hs, if_neg hs]
  unfold invertTransform invertExact
  simp only [hzero, hone]
  by_cases hunset : scale = 0 ∧ offset = 0
  · rw [if_pos hunset, if_pos hunset]
  rw [if_neg hunset, if_neg hunset]
  cases value with
  | float32 q | float64 q => exact congrArg GoValue.float64 (hexact q _ rfl)
  | int t v =>
    have hround : Lib.Float64.roundInt v = (v : ℚ) := Option.some.inj (hvalue v rfl)
    simp only [hround]
    exact congrArg GoValue.float64 (hexact v _ rfl)
  | _ => rfl

/-! ### What the registers hold -/

inductive SignedType : DataType → IntType → Prop
  | int16 : SignedType .int16 .int16
  | int32 : SignedType .int32 .int32

/-- The registers of a type hold the two's complement of a number. -/
def Holds (m : Memory) (addr : ℕ) : DataType → ℤ → Prop
  | .int16, r => m.holdingRegisters addr = BitVec.ofInt 16 r
  | .int32, r => (m.holdingRegisters addr ++ m.holdingRegisters (addr + 1) : BitVec 32) = BitVec.ofInt 32 r
  | _, _ => False

def unsignedType : IntType → IntType
  | .int16 => .uint16
  | .int32 => .uint32
  | t => t

section

variable {ai : AddrInfo} {cmd : WriteCommand} {t : IntType}

theorem holds_writeTag (p : Platform) (negZero : Bool) (m : Memory) (cmd : WriteCommand) (ht : SignedType cmd.type t)
    (harea : ai.area = .holdingRegister) {q : ℚ} (hq : cmd.value = .float64 q) (r : ℤ) :
    ∃ m', writeTag p negZero m ai cmd = .ok m' ∧
      (Holds m' ai.addr cmd.type r ↔ p.floatToUint (unsignedType t) q = r % 2 ^ t.bits) := by
  have hbit : ¬ (ai.area.isBit = true ∧ cmd.type ≠ .bool) := by simp [harea, Area.isBit]
  unfold writeTag
  rw [if_neg hbit, hq]
  generalize cmd.type = dt at ht
  cases ht with
  | int16 =>
    refine ⟨_, rfl, ?_⟩
    have hword : 0 ≤ p.floatToUint .uint16 q ∧ p.floatToUint .uint16 q < 65536 := p.inRange .uint16 q
    show (m.writeRegisters ai.addr _).holdingRegisters (ai.addr + 0) = _ ↔ p.floatToUint .uint16 q = r % 2 ^ 16
    rw [holding_writeRegisters, ← BitVec.toNat_inj]
    simp only [toUint16, List.getD_cons_zero, BitVec.toNat_ofInt]
    omega
  | int32 =>
    obtain ⟨m', hm⟩ : ∃ m', m' = m.writeRegisters ai.addr (words (p.floatToUint .uint32 q).toNat) := ⟨_, rfl⟩
    refine ⟨m', hm ▸ rfl, ?_⟩
    have hword : 0 ≤ p.floatToUint .uint32 q ∧ p.floatToUint .uint32 q < 4294967296 := p.inRange .uint32 q
    have hregs := registers_two (by omega) hm
    show (_ ++ _ : BitVec 32) = _ ↔ p.floatToUint .uint32 q = r % 2 ^ 32
    rw [← BitVec.toNat_inj, toNat_append_words, BitVec.toNat_ofInt]
    omega

theorem holds_writeExact (p : Platform) (negZero : Bool) (m : Memory) {d : ModbusBase} {cfg : TagConfig}
    {scale offset v : ℚ} {r : ℤ} (hlook : d.tags.lookup cmd.tag = some (cfg, ai)) (harea : ai.area = .holdingRegister)
    (hscale : cfg.scale = .finite scale) (hoffset : cfg.offset = .finite offset) (hset : scale ≠ 0 ∨ offset ≠ 0)
    (hraw : cmd.raw = false) (ht : SignedType cmd.type t) (hv : cmd.value.number = some v)
    (hr : (v - offset) / (if scale = 0 then 1 else scale) = r) :
    (writeExact p negZero d m cmd).2.success = true ∧ (Holds (writeExact p negZero d m cmd).1 ai.addr cmd.type r ↔
        p.floatToUint (unsignedType t) r = r % 2 ^ t.bits) := by
  have hvalue : writeValueExact cmd cfg = .float64 r := by
    have hsome : ¬ (scale = 0 ∧ offset = 0) := fun h => hset.elim (absurd h.1) (absurd h.2)
    simp [writeValueExact, hraw, hscale, hoffset, invertExact, hsome, hv, hr]
  obtain ⟨m', hwrite, hholds⟩ := holds_writeTag p negZero m { cmd with value := .float64 r } ht harea rfl r
  have hexact : writeExact p negZero d m cmd = (m', ⟨true, ""⟩) := by
    simp [writeExact, writeCommandWith, hlook, harea, hvalue, hwrite]
  rw [hexact]
  exact ⟨rfl, hholds⟩

end

/-! ### Platforms -/

/-- A platform that takes the nearest number of the type. -/
def saturating : Platform where
  floatToUint t q := max t.lo (min (t.hi - 1) (q.num.tdiv q.den))
  inRange t q := by
    have hwidth := t.width_pos
    constructor
    · exact le_max_left _ _
    · omega
  trunc t q h := by
    obtain ⟨hlo, hhi⟩ := h
    omega
  mulAdd := amd64.mulAdd
  subDiv := amd64.subDiv
  float32frombits := amd64.float32frombits
  float64frombits := amd64.float64frombits

/-- On linux/arm a conversion to `uint32` saturates; the narrower types go through `int32`. -/
def arm : Platform where
  floatToUint t q := if t = .uint32 then saturating.floatToUint t q else amd64.floatToUint t q
  inRange t q := by
    split_ifs
    · exact saturating.inRange t q
    · exact amd64.inRange t q
  trunc t q h := by
    split_ifs
    · exact saturating.trunc t q h
    · exact amd64.trunc t q h
  mulAdd := amd64.mulAdd
  subDiv := amd64.subDiv
  float32frombits := amd64.float32frombits
  float64frombits := amd64.float64frombits

theorem floatToUint_of_nonneg (p : Platform) {dt : DataType} {t : IntType} (ht : SignedType dt t) {r : ℤ}
    (hrange : t.InRange r) (hr : 0 ≤ r) : p.floatToUint (unsignedType t) r = r % 2 ^ t.bits := by
  have htrunc : (r : ℚ).num.tdiv (r : ℚ).den = r := by simp
  cases ht with
  | int16 =>
    have hbound : -32768 ≤ r ∧ r < 32768 := hrange
    have hfits : IntType.uint16.InRange r := ⟨hr, show r < 65536 by omega⟩
    have hword := p.trunc .uint16 r (by rwa [htrunc])
    show p.floatToUint .uint16 r = r % 65536
    omega
  | int32 =>
    have hbound : -2147483648 ≤ r ∧ r < 2147483648 := hrange
    have hfits : IntType.uint32.InRange r := ⟨hr, show r < 4294967296 by omega⟩
    have hword := p.trunc .uint32 r (by rwa [htrunc])
    show p.floatToUint .uint32 r = r % 4294967296
    omega

theorem saturating_of_neg {dt : DataType} {t : IntType} (ht : SignedType dt t) {r : ℤ} (hrange : t.InRange r)
    (hr : r < 0) : saturating.floatToUint (unsignedType t) r ≠ r % 2 ^ t.bits := by
  have htrunc : (r : ℚ).num.tdiv (r : ℚ).den = r := by simp
  cases ht with
  | int16 =>
    have hbound : -32768 ≤ r ∧ r < 32768 := hrange
    show max 0 (min (65536 - 1) ((r : ℚ).num.tdiv (r : ℚ).den)) ≠ r % 65536
    omega
  | int32 =>
    have hbound : -2147483648 ≤ r ∧ r < 2147483648 := hrange
    show max 0 (min (4294967296 - 1) ((r : ℚ).num.tdiv (r : ℚ).den)) ≠ r % 4294967296
    omega

/-- **The sign of a scaled write**: for a number that gives an integer of the type, a write that succeeds leaves the
two's complement of the integer in the registers, on every platform, exactly if the integer is not negative. -/
theorem sign_kept_iff (d : ModbusBase) (m : Memory) (negZero : Bool) (cmd : WriteCommand) (cfg : TagConfig)
    (ai : AddrInfo) (scale offset v : ℚ) (r : ℤ) (t : IntType)
    (hlook : d.tags.lookup cmd.tag = some (cfg, ai)) (harea : ai.area = .holdingRegister)
    (hscale : cfg.scale = .finite scale) (hoffset : cfg.offset = .finite offset) (hset : scale ≠ 0 ∨ offset ≠ 0)
    (hraw : cmd.raw = false) (ht : SignedType cmd.type t) (hv : cmd.value.number = some v)
    (hr : (v - offset) / (if scale = 0 then 1 else scale) = r) (hrange : t.InRange r) :
    (∀ p, (writeExact p negZero d m cmd).2.success = true →
      Holds (writeExact p negZero d m cmd).1 ai.addr cmd.type r) ↔ 0 ≤ r := by
  have hholds := fun p => holds_writeExact p negZero m hlook harea hscale hoffset hset hraw ht hv hr
  constructor
  · intro hall
    by_contra hneg
    obtain ⟨hsuccess, hword⟩ := hholds saturating
    exact saturating_of_neg ht hrange (Int.not_le.mp hneg) (hword.mp (hall saturating hsuccess))
  · intro hnonneg p _
    exact (hholds p).2.mpr (floatToUint_of_nonneg p ht hrange hnonneg)

def tankDriver : ModbusBase where
  tags := AList.singleton "level" (⟨"level", "40001", "int32", "", "", .finite (1 / 10), 0, 0, "", "", "", "", ""⟩,
    ⟨.holdingRegister, 0⟩)
  maxRetry := 3

def setLevel (q : ℚ) : WriteCommand := { tag := "level", value := .float64 q, type := .int32 }

/-- 2.5 arrives as 25. -/
theorem level_arrives : (5 / 2 - 0) / (1 / 10 : ℚ) = 25 ∧
    ∀ p, (writeExact p false tankDriver zeroMemory (setLevel (5 / 2))).2.success = true →
      Holds (writeExact p false tankDriver zeroMemory (setLevel (5 / 2))).1 0 .int32 25 :=
  ⟨by norm_num, (sign_kept_iff tankDriver zeroMemory false (setLevel (5 / 2)) _ ⟨.holdingRegister, 0⟩ (1 / 10) 0 (5 / 2)
    25 .int32 rfl rfl rfl rfl (by norm_num) rfl .int32 rfl (by norm_num) (by decide)).mpr (by decide)⟩

/-- -0.5 is -5 in the registers, but arrives as 0 on linux/arm. -/
theorem level_loses_sign : (writeExact arm false tankDriver zeroMemory (setLevel (-1 / 2))).2.success = true ∧
    (writeExact arm false tankDriver zeroMemory (setLevel (-1 / 2))).1.holdingRegisters 0 = 0 ∧
    (writeExact arm false tankDriver zeroMemory (setLevel (-1 / 2))).1.holdingRegisters 1 = 0 ∧
    ¬ Holds (writeExact arm false tankDriver zeroMemory (setLevel (-1 / 2))).1 0 .int32 (-5) := by
  have hhigh : (writeExact arm false tankDriver zeroMemory (setLevel (-1 / 2))).1.holdingRegisters 0 = 0 := by
    decide +kernel
  have hlow : (writeExact arm false tankDriver zeroMemory (setLevel (-1 / 2))).1.holdingRegisters 1 = 0 := by
    decide +kernel
  refine ⟨by decide +kernel, hhigh, hlow, fun h => ?_⟩
  have hwords : (_ ++ _ : BitVec 32) = BitVec.ofInt 32 (-5) := h
  rw [hhigh, hlow] at hwords
  exact absurd hwords (by decide)

end CoreC.Modbus.ScaledWrite
