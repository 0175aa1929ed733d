import CoreC.Lib.BigEndian
import CoreC.Modbus.RoundTrip
import CoreC.S7.Address

/-! # S7 values as bytes

`encodeS7Value` and `decodeS7Buffer` (`driver/s7/s7_codec.go`). The encoder converts integers by `ToUint16` and
`ToUint32` (`common/util`), which know no 8-bit types and give 0 for them, and it puts a boolean into the first bit of
the buffer, while the decoder takes the bit of the address.

`roundtrip_iff`: a value that was encoded is decoded again exactly if it is not one of these. -/

namespace CoreC.S7.Codec

open Core.Types Lib.BigEndian Lib.GoInt Modbus.Driver S7.Address S7.Write List

/-- The layouts of the client library for floating-point numbers and strings; the setters get the value that is
converted to a float of the width. -/
structure Helper where
  setRealAt : List UInt8 → GoValue → List UInt8
  setLRealAt : List UInt8 → GoValue → List UInt8
  getRealAt : List UInt8 → GoValue
  getLRealAt : List UInt8 → GoValue
  getStringAt : List UInt8 → GoValue

/-- `GetBoolAt` of the client library. -/
def getBoolAt (b : UInt8) (bit : ℕ) : Bool := b.toNat.testBit bit

def s7RequiredSize : DataType → ℕ
  | .bool | .uint8 | .int8 | .string => 1
  | .uint16 | .int16 => 2
  | .uint32 | .int32 | .float32 => 4
  | .uint64 | .int64 | .float64 => 8
  | .bytes => 0

def toUint64 (p : Platform) : GoValue → ℤ
  | .float64 q => p.floatToUint .uint64 q
  | .float32 q => p.floatToUint .uint64 q
  | .int .int64 v => IntType.uint64.wrap v
  | .int .uint64 v => v
  | .int .int32 v => IntType.uint64.wrap v
  | .int .uint32 v => v
  | .int .int16 v => IntType.uint64.wrap v
  | .int .uint16 v => v
  | _ => 0

/-- The name of the Go type of a value (`%T`). -/
def goType : GoValue → String
  | .nil => "<nil>"
  | .bool _ => "bool"
  | .int .int8 _ => "int8"
  | .int .int16 _ => "int16"
  | .int .int32 _ => "int32"
  | .int .int64 _ => "int64"
  | .int .uint8 _ => "uint8"
  | .int .uint16 _ => "uint16"
  | .int .uint32 _ => "uint32"
  | .int .uint64 _ => "uint64"
  | .float32 _ => "float32"
  | .float64 _ => "float64"
  | .string _ => "string"
  | .bytes _ => "[]uint8"
  | .slice _ => "[]interface \x7b\x7d"
  | .map _ => "map[string]interface \x7b\x7d"

def sizeError (what : String) (dt : DataType) (have_ need : ℕ) : String :=
  "s7: " ++ what ++ " " ++ dt.name ++ ": have " ++ toString have_ ++ " bytes, need " ++ toString need

section

variable (p : Platform) (h : Helper)

/-- The `switch` of `encodeS7Value`, which fills a buffer of zeros. -/
def encodeS7TypedValue (v : GoValue) (size : ℕ) (dt : DataType) : Except String (List UInt8) :=
  let buf := List.replicate size 0
  match dt with
  | .bool => .ok (if valBool v then put buf [1] else buf)
  | .uint8 | .int8 => .ok (put buf (toBytes 1 (toUint16 p v).toNat))
  | .uint16 | .int16 => .ok (put buf (toBytes 2 (toUint16 p v).toNat))
  | .uint32 | .int32 => .ok (put buf (toBytes 4 (toUint32 p v).toNat))
  | .uint64 | .int64 => .ok (put buf (toBytes 8 (toUint64 p v).toNat))
  | .float32 => .ok (h.setRealAt buf v)
  | .float64 => .ok (h.setLRealAt buf v)
  | .bytes =>
    match v with
    | .bytes b => .ok (put buf (b.take size))
    | v => .error ("s7: bytes write requires []byte value, got " ++ goType v)
  | .string => .error "s7: writing string is not supported"

def encodeS7Value (v : GoValue) (addr : S7Address) (dt : DataType) : Except String (List UInt8) :=
  let requiredSize := s7RequiredSize dt
  if requiredSize > 0 ∧ addr.size < requiredSize then
    .error (sizeError "address buffer too small for write type" dt addr.size requiredSize)
  else encodeS7TypedValue p h v addr.size dt

def decodeS7TypedValue (buf : List UInt8) (addr : S7Address) (dt : DataType) : Except String GoValue :=
  match dt with
  | .bool => .ok (.bool (getBoolAt (buf.headD 0) addr.bit))
  | .uint8 => .ok (.int .uint8 (ofBytes (buf.take 1)))
  | .int8 => .ok (.int .int8 (IntType.int8.wrap (ofBytes (buf.take 1))))
  | .uint16 => .ok (.int .uint16 (ofBytes (buf.take 2)))
  | .int16 => .ok (.int .int16 (IntType.int16.wrap (ofBytes (buf.take 2))))
  | .uint32 => .ok (.int .uint32 (ofBytes (buf.take 4)))
  | .int32 => .ok (.int .int32 (IntType.int32.wrap (ofBytes (buf.take 4))))
  | .float32 => .ok (h.getRealAt buf)
  | .float64 => .ok (h.getLRealAt buf)
  | .string => .ok (h.getStringAt buf)
  | _ => .error ("s7: unsupported read data type: " ++ dt.name)

def decodeS7Buffer (buf : List UInt8) (addr : S7Address) (dt : DataType) : Except String GoValue :=
  if addr.isBit then .ok (.bool (getBoolAt (buf.headD 0) addr.bit))
  else
    let requiredSize := s7RequiredSize dt
    if requiredSize > 0 ∧ buf.length < requiredSize then
      .error (sizeError "buffer too small for type" dt buf.length requiredSize)
    else decodeS7TypedValue h buf addr dt

end

/-! ### There and back -/

/-- A value of the Go type that `decodeValueByType` gives for the data type: a boolean, or a number of the integer type
of that name. -/
def Typed (dt : DataType) (v : GoValue) : Prop :=
  (dt = .bool ∧ ∃ b, v = .bool b) ∨ ∃ t x, dt.intType? = some t ∧ t.bits ≤ 32 ∧ t.InRange x ∧ v = .int t x

/-- A value that survives: no `true` at an address of a data block with another bit than the first, and no 8-bit number
but 0. -/
def Survives (addr : S7Address) : GoValue → Prop
  | .bool b => b = true → addr.area = .db → addr.bit = 0
  | .int t x => t.bits = 8 → x = 0
  | _ => True

section

variable {p : Platform} {h : Helper} {addr : S7Address} {dt : DataType} {v : GoValue} {buf : List UInt8}

theorem encode_ok (henc : encodeS7Value p h v addr dt = .ok buf) :
    s7RequiredSize dt ≤ addr.size ∧ encodeS7TypedValue p h v addr.size dt = .ok buf := by
  unfold encodeS7Value at henc
  by_cases hsmall : s7RequiredSize dt > 0 ∧ addr.size < s7RequiredSize dt
  · simp only [if_pos hsmall] at henc
    cases henc
  · simp only [if_neg hsmall] at henc
    exact ⟨by omega, henc⟩

theorem decode_of_length (hbit : addr.isBit = false) (hlength : s7RequiredSize dt ≤ buf.length) :
    decodeS7Buffer h buf addr dt = decodeS7TypedValue h buf addr dt := by
  unfold decodeS7Buffer
  rw [hbit, if_neg nofun, if_neg fun hsmall => absurd hsmall.2 (Nat.not_lt.mpr hlength)]

theorem ofBytes_take_put (size : ℕ) {n : ℕ} {y : ℤ} (hy : 0 ≤ y) (hlt : y < 256 ^ n) :
    (ofBytes ((put (List.replicate size 0) (toBytes n y.toNat)).take n) : ℤ) = y := by
  have hlt' : y.toNat < 256 ^ n := by
    rw [Int.toNat_lt hy]
    exact_mod_cast hlt
  rw [take_put, ofBytes_toBytes, Nat.mod_eq_of_lt hlt', Int.toNat_of_nonneg hy]

theorem decode_put {n : ℕ} (y : ℕ) (hbit : addr.isBit = false) (hdt : s7RequiredSize dt = n) (hsize : n ≤ addr.size) :
    decodeS7Buffer h (put (List.replicate addr.size 0) (toBytes n y)) addr dt =
      decodeS7TypedValue h (put (List.replicate addr.size 0) (toBytes n y)) addr dt := by
  refine decode_of_length hbit ?_
  rw [length_put (by rw [length_toBytes, length_replicate]; exact hsize), length_replicate, hdt]
  exact hsize

theorem roundtrip_bool {b : Bool} (hbit : addr.isBit = false) (henc : encodeS7Value p h (.bool b) addr .bool = .ok buf) :
    decodeS7Buffer h buf addr .bool = .ok (.bool b) ↔ (b = true → addr.bit = 0) := by
  obtain ⟨hsize, henc⟩ := encode_ok henc
  have hone : 1 ≤ addr.size := hsize
  obtain ⟨n, hn⟩ := Nat.exists_eq_add_of_le' hone
  cases henc
  cases b with
  | false =>
    have hlength : s7RequiredSize .bool ≤ (List.replicate addr.size (0 : UInt8)).length := by
      rw [length_replicate]; exact hsize
    rw [valBool, if_neg nofun, decode_of_length hbit hlength, decodeS7TypedValue, hn, replicate_succ, headD_cons]
    simp [getBoolAt]
  | true =>
    have hlength : s7RequiredSize .bool ≤ (put (List.replicate addr.size (0 : UInt8)) [1]).length := by
      rw [length_put (by simpa using hone), length_replicate]; exact hsize
    rw [valBool, if_pos rfl, decode_of_length hbit hlength, decodeS7TypedValue]
    simp [getBoolAt, put, Nat.testBit_one_eq_true_iff_self_eq_zero]

theorem roundtrip_int8 {t : IntType} {x : ℤ} (hbit : addr.isBit = false) (ht : dt.intType? = some t) (hbits : t.bits = 8)
    (henc : encodeS7Value p h (.int t x) addr dt = .ok buf) :
    decodeS7Buffer h buf addr dt = .ok (.int t 0) := by
  obtain ⟨hsize, henc⟩ := encode_ok henc
  have hzero := ofBytes_take_put addr.size (n := 1) (le_refl 0) (by norm_num)
  cases t with
  | int8 =>
    cases dt <;> cases ht
    cases henc
    rw [decode_put (n := 1) _ hbit rfl hsize]
    exact congrArg (fun y => Except.ok (GoValue.int .int8 (IntType.int8.wrap y))) hzero
  | uint8 =>
    cases dt <;> cases ht
    cases henc
    rw [decode_put (n := 1) _ hbit rfl hsize]
    exact congrArg (fun y => Except.ok (GoValue.int .uint8 y)) hzero
  | _ => cases hbits

theorem roundtrip_int {t : IntType} {x : ℤ} (hbit : addr.isBit = false) (ht : dt.intType? = some t) (hx : t.InRange x)
    (hbits : t.bits = 16 ∨ t.bits = 32) (henc : encodeS7Value p h (.int t x) addr dt = .ok buf) :
    decodeS7Buffer h buf addr dt = .ok (.int t x) := by
  obtain ⟨hsize, henc⟩ := encode_ok henc
  cases t with
  | int16 =>
    cases dt <;> cases ht
    cases henc
    rw [decode_put (n := 2) _ hbit rfl hsize]
    obtain ⟨hlo, hhi⟩ := IntType.wrap_inRange .uint16 x
    have hnumber := ofBytes_take_put addr.size (n := 2) hlo hhi
    refine (congrArg (fun y => Except.ok (GoValue.int .int16 (IntType.int16.wrap y))) hnumber).trans ?_
    rw [IntType.wrap_wrap (t := .int16) (u := .uint16) rfl, IntType.wrap_eq_self hx]
  | uint16 =>
    cases dt <;> cases ht
    cases henc
    rw [decode_put (n := 2) _ hbit rfl hsize]
    exact congrArg (fun y => Except.ok (GoValue.int .uint16 y)) (ofBytes_take_put addr.size (n := 2) hx.1 hx.2)
  | int32 =>
    cases dt <;> cases ht
    cases henc
    rw [decode_put (n := 4) _ hbit rfl hsize]
    obtain ⟨hlo, hhi⟩ := IntType.wrap_inRange .uint32 x
    have hnumber := ofBytes_take_put addr.size (n := 4) hlo hhi
    refine (congrArg (fun y => Except.ok (GoValue.int .int32 (IntType.int32.wrap y))) hnumber).trans ?_
    rw [IntType.wrap_wrap (t := .int32) (u := .uint32) rfl, IntType.wrap_eq_self hx]
  | uint32 =>
    cases dt <;> cases ht
    cases henc
    rw [decode_put (n := 4) _ hbit rfl hsize]
    exact congrArg (fun y => Except.ok (GoValue.int .uint32 y)) (ofBytes_take_put addr.size (n := 4) hx.1 hx.2)
  | _ => rcases hbits with h | h <;> cases h

/-- **There and back.** A value of the type that was encoded for an address that is no address of a bit is decoded again
exactly if it is no `true` for a data block and another bit than the first, and no 8-bit number but 0. -/
theorem roundtrip_iff {addrStr : String} {dt₀ : DataType} (hparse : parseS7Address addrStr dt₀ = .ok addr)
    (hbit : addr.isBit = false) (hv : Typed dt v) (henc : encodeS7Value p h v addr dt = .ok buf) :
    decodeS7Buffer h buf addr dt = .ok v ↔ Survives addr v := by
  rcases hv with ⟨rfl, b, rfl⟩ | ⟨t, x, ht, hbits, hx, rfl⟩
  · rw [roundtrip_bool hbit henc]
    refine ⟨fun hb htrue _ => hb htrue, fun hb htrue => ?_⟩
    by_cases harea : addr.area = .db
    · exact hb htrue harea
    · exact (parseS7Address_wellFormed hparse).plain hbit harea
  · by_cases height : t.bits = 8
    · rw [roundtrip_int8 hbit ht height henc]
      simp [Survives, height, eq_comm]
    · have hwide : t.bits = 16 ∨ t.bits = 32 := by
        cases t <;> simp_all [IntType.bits]
      exact iff_of_true (roundtrip_int hbit ht hx hwide henc) fun hb => absurd hb height

end

/-- A word comes back. -/
theorem roundtrip_word : ∃ (h : Helper) (addr : S7Address) (buf : List UInt8),
    parseS7Address "DB1.DBW2" .uint16 = .ok addr ∧
    encodeS7Value Modbus.RoundTrip.amd64 h (.int .uint16 513) addr .uint16 = .ok buf ∧
    decodeS7Buffer h buf addr .uint16 = .ok (.int .uint16 513) := by
  let h : Helper := ⟨fun b _ => b, fun b _ => b, fun _ => .nil, fun _ => .nil, fun _ => .nil⟩
  have hparse : parseS7Address "DB1.DBW2" .uint16 = .ok { area := .db, dbNumber := 1, start := 2, size := 2 } := by decide
  have henc : encodeS7Value Modbus.RoundTrip.amd64 h (.int .uint16 513)
      { area := .db, dbNumber := 1, start := 2, size := 2 } .uint16 = .ok [2, 1] := rfl
  refine ⟨h, _, _, hparse, henc, (roundtrip_iff hparse rfl ?_ henc).mpr fun hbits => ?_⟩
  · exact .inr ⟨.uint16, 513, rfl, by decide, by decide, rfl⟩
  · cases hbits

/-- An 8-bit number is written as 0, and a `true` for bit 3 of a byte of a data block into bit 0. -/
theorem lost_in_encoding : ∃ h : Helper, (∃ addr buf, parseS7Address "DB1.DBB0" .int8 = .ok addr ∧ addr.isBit = false ∧
      encodeS7Value Modbus.RoundTrip.amd64 h (.int .int8 5) addr .int8 = .ok buf ∧
      decodeS7Buffer h buf addr .int8 = .ok (.int .int8 0)) ∧
    (∃ addr buf, parseS7Address "DB1.DBB0.3" .bool = .ok addr ∧ addr.isBit = false ∧
      encodeS7Value Modbus.RoundTrip.amd64 h (.bool true) addr .bool = .ok buf ∧
      decodeS7Buffer h buf addr .bool = .ok (.bool false)) := by
  let h : Helper := ⟨fun b _ => b, fun b _ => b, fun _ => .nil, fun _ => .nil, fun _ => .nil⟩
  refine ⟨h, ⟨{ area := .db, dbNumber := 1, start := 0, size := 1 }, [0], by decide, rfl, rfl, rfl⟩, ?_⟩
  exact ⟨{ area := .db, dbNumber := 1, start := 0, bit := 3, size := 1 }, [1], by decide, rfl, rfl, rfl⟩

end CoreC.S7.Codec
