import Mathlib.Data.List.AList
import CoreC.Core.Types
import CoreC.Lib.FloatBits

/-! # The Modbus driver

Reading and writing of tags on a device that is a memory of coils and of 16-bit registers and on which every request
succeeds (`driver/modbus`, with the conversions of `common/util`). `Write` converts the value of a command by the type
of the command; `Read` takes the registers of a tag apart by the type of the tag, and fetches neighbouring tags with one
request (`mergeBatches`).

A value has no sign of zero in the model, so `Write` gets the sign of a floating-point zero as an argument. The
conversions that Go leaves to the implementation are in `Platform`. -/

namespace CoreC.Modbus.Driver

open Core.Types Lib.GoInt Lib.Float64 Lib.Yaml

/-! ### Addresses -/

/-- `areaType`. -/
inductive Area where
  | coil | discreteInput | inputRegister | holdingRegister
  deriving DecidableEq, Repr

def areaName : Area → String
  | .coil => "coil"
  | .discreteInput => "discrete-input"
  | .inputRegister => "input-register"
  | .holdingRegister => "holding-register"

def Area.isBit : Area → Bool
  | .coil | .discreteInput => true
  | _ => false

structure AddrInfo where
  area : Area
  addr : ℕ
  deriving DecidableEq, Repr

def parseModbusAddress (addr : String) : Option AddrInfo :=
  let num := Nat.ofDigitChars 10 addr.toList 0
  if addr.toList = [] ∨ ¬ addr.toList.all Char.isDigit ∨ 2 ^ 32 ≤ num then none
  else if 40001 ≤ num ∧ num ≤ 49999 then some ⟨.holdingRegister, num - 40001⟩
  else if 30001 ≤ num ∧ num ≤ 39999 then some ⟨.inputRegister, num - 30001⟩
  else if 10001 ≤ num ∧ num ≤ 19999 then some ⟨.discreteInput, num - 10001⟩
  else if 1 ≤ num ∧ num ≤ 9999 then some ⟨.coil, num - 1⟩
  else if 65535 < num then none
  else some ⟨.holdingRegister, num⟩

/-- The fields of `modbusBase` that reading and writing use. -/
structure ModbusBase where
  tags : AList fun _ : String => TagConfig × AddrInfo
  maxRetry : ℤ

/-! ### The device -/

structure Memory where
  coils : ℕ → Bool
  discreteInputs : ℕ → Bool
  inputRegisters : ℕ → BitVec 16
  holdingRegisters : ℕ → BitVec 16

/-- The register an area is read from (`regType`). -/
def Memory.register (m : Memory) (area : Area) (addr : ℕ) : BitVec 16 :=
  if area = .inputRegister then m.inputRegisters addr else m.holdingRegisters addr

def Memory.bit (m : Memory) (area : Area) (addr : ℕ) : Bool :=
  if area = .coil then m.coils addr else m.discreteInputs addr

def Memory.writeRegisters (m : Memory) (addr : ℕ) (regs : List (BitVec 16)) : Memory :=
  { m with holdingRegisters := fun a =>
      if addr ≤ a then regs.getD (a - addr) (m.holdingRegisters a) else m.holdingRegisters a }

def words (w : ℕ) : List (BitVec 16) := [BitVec.ofNat 16 (w / 2 ^ 16), BitVec.ofNat 16 w]

/-! ### Conversions -/

/-- What the platform decides. A conversion of a floating-point number to an unsigned type is only
determined if the truncated number fits. -/
structure Platform where
  floatToUint : IntType → ℚ → ℤ
  inRange : ∀ (t : IntType) (q : ℚ), t.InRange (floatToUint t q)
  trunc : ∀ (t : IntType) (q : ℚ), t.InRange (q.num.tdiv q.den) → floatToUint t q = q.num.tdiv q.den
  mulAdd : ℚ → GoFloat → GoFloat → ℚ
  subDiv : ℚ → GoFloat → GoFloat → ℚ
  float32frombits : BitVec 32 → GoValue
  float64frombits : BitVec 64 → GoValue

section

variable (p : Platform)

/-- `util.ToUint16`; the widths that are not listed give `0`. -/
def toUint16 : GoValue → ℤ
  | .float64 q => p.floatToUint .uint16 q
  | .float32 q => p.floatToUint .uint16 q
  | .int .int16 v => IntType.uint16.wrap v
  | .int .uint16 v => v
  | .int .int32 v => IntType.uint16.wrap v
  | .int .uint32 v => IntType.uint16.wrap v
  | _ => 0

def toUint32 : GoValue → ℤ
  | .float64 q => p.floatToUint .uint32 q
  | .int .int32 v => IntType.uint32.wrap v
  | .int .uint32 v => v
  | .int .int64 v => IntType.uint32.wrap v
  | .int .uint64 v => IntType.uint32.wrap v
  | _ => 0

/-- `util.ToFloat32`, as a sign and a magnitude (`none` for the infinity). -/
def toFloat32 (negZero : Bool) : GoValue → Bool × Option ℚ
  | .float64 q => (q < 0 || (q = 0 && negZero), float32.round q.num.natAbs q.den)
  | .float32 q => (q < 0 || (q = 0 && negZero), some |q|)
  | .int .int32 v => (v < 0, float32.round v.natAbs 1)
  | .int .uint32 v => (false, float32.round v.natAbs 1)
  | _ => (false, some 0)

def applyTransform (value : GoValue) (scale offset : GoFloat) : GoValue :=
  if scale = 0 ∧ offset = 0 then value
  else
    let scale := if scale = 0 then 1 else scale
    match value with
    | .float32 q => .float32 (p.mulAdd q scale offset)
    | .float64 q => .float64 (p.mulAdd q scale offset)
    | .int _ v => .float64 (p.mulAdd (roundInt v) scale offset)
    | v => v

def invertTransform (value : GoValue) (scale offset : GoFloat) : GoValue :=
  if scale = 0 ∧ offset = 0 then value
  else
    let scale := if scale = 0 then 1 else scale
    match value with
    | .float32 q => .float64 (p.subDiv q offset scale)
    | .float64 q => .float64 (p.subDiv q offset scale)
    | .int _ v => .float64 (p.subDiv (roundInt v) offset scale)
    | v => v

def writeValueForTag (cmd : WriteCommand) (cfg : TagConfig) : GoValue :=
  if cmd.raw then cmd.value else invertTransform p cmd.value cfg.scale cfg.offset

/-! ### Writing -/

def bitAreaError (tag : String) (dt : DataType) (area : Area) : String :=
  "tag " ++ tag ++ ": type " ++ dt.name ++ " is not supported on " ++ areaName area ++
    " area (only bool is supported on coil/discrete-input areas)"

def writeTag (negZero : Bool) (m : Memory) (ai : AddrInfo) (cmd : WriteCommand) :
    Except String Memory :=
  if ai.area.isBit ∧ cmd.type ≠ .bool then .error (bitAreaError cmd.tag cmd.type ai.area)
  else
    match cmd.type with
    | .bool =>
      match cmd.value with
      | .bool b =>
        if ai.area = .coil then .ok { m with coils := Function.update m.coils ai.addr b }
        else .ok (m.writeRegisters ai.addr [if b then 1 else 0])
      | _ => .error ("expected bool value for tag " ++ cmd.tag)
    | .uint16 | .int16 => .ok (m.writeRegisters ai.addr [BitVec.ofInt 16 (toUint16 p cmd.value)])
    | .float32 =>
      let (neg, mag) := toFloat32 negZero cmd.value
      .ok (m.writeRegisters ai.addr (words (float32bits neg mag)))
    | .uint32 | .int32 => .ok (m.writeRegisters ai.addr (words (toUint32 p cmd.value).toNat))
    | dt => .error ("unsupported write type: " ++ dt.name)

/-- The body of the loop of `Write`, by what it makes of the value of a command. -/
def writeCommandWith (convert : WriteCommand → TagConfig → GoValue) (negZero : Bool) (d : ModbusBase) (m : Memory)
    (cmd : WriteCommand) : Memory × WriteResult :=
  match d.tags.lookup cmd.tag with
  | none => (m, ⟨false, "tag not found: " ++ cmd.tag⟩)
  | some (cfg, ai) =>
    if ai.area = .discreteInput ∨ ai.area = .inputRegister then
      (m, ⟨false, "tag " ++ cmd.tag ++ " is in a read-only area (discrete input/input register)"⟩)
    else
      match writeTag p negZero m ai { cmd with value := convert cmd cfg } with
      | .ok m' => (m', ⟨true, ""⟩)
      | .error e => (m, ⟨false, e⟩)

def writeCommand : Bool → ModbusBase → Memory → WriteCommand → Memory × WriteResult :=
  writeCommandWith p (writeValueForTag p)

/-- `Write`, with the sign of a zero for every command. -/
def write (d : ModbusBase) : Memory → List (WriteCommand × Bool) → Memory × List WriteResult
  | m, [] => (m, [])
  | m, (cmd, negZero) :: cmds =>
    let (m, r) := writeCommand p negZero d m cmd
    let (m, rs) := write d m cmds
    (m, r :: rs)

/-! ### Reading -/

/-- The value of a type in a list of registers; `none` if an index is out of range. The type is one
that `batchQuantity` accepts. -/
def extractRegisterValue (regs : List (BitVec 16)) (offset : ℕ) (dt : DataType) : Option GoValue := do
  match dt with
  | .bool => return .bool ((← regs[offset]?) ≠ 0)
  | .uint16 => return .int .uint16 (← regs[offset]?).toNat
  | .int16 => return .int .int16 (← regs[offset]?).toInt
  | .uint32 => return .int .uint32 ((← regs[offset]?) ++ (← regs[offset + 1]?) : BitVec 32).toNat
  | .int32 => return .int .int32 ((← regs[offset]?) ++ (← regs[offset + 1]?) : BitVec 32).toInt
  | .float32 => return p.float32frombits ((← regs[offset]?) ++ (← regs[offset + 1]?) : BitVec 32)
  | .float64 =>
    return p.float64frombits ((← regs[offset]?) ++ (← regs[offset + 1]?) ++ (← regs[offset + 2]?) ++
      (← regs[offset + 3]?) : BitVec 64)
  | .uint64 =>
    return .int .uint64 ((← regs[offset]?) ++ (← regs[offset + 1]?) ++ (← regs[offset + 2]?) ++
      (← regs[offset + 3]?) : BitVec 64).toNat
  | .int64 =>
    return .int .int64 ((← regs[offset]?) ++ (← regs[offset + 1]?) ++ (← regs[offset + 2]?) ++
      (← regs[offset + 3]?) : BitVec 64).toInt
  | _ => none

/-- `batchQuantity`: the registers or bits of a tag, `none` if it cannot be in a batch. -/
def batchQuantity (ai : AddrInfo) (dt : DataType) : Option ℕ :=
  if ai.area.isBit then if dt = .bool then some 1 else none
  else
    match dt with
    | .bool | .uint16 | .int16 => some 1
    | .uint32 | .int32 | .float32 => some 2
    | .float64 | .uint64 | .int64 => some 4
    | _ => none

/-- `readTag`; the registers come with one request. -/
def readTag (m : Memory) (ai : AddrInfo) (dt : DataType) (tag : String) : Except String GoValue :=
  if ai.area.isBit then
    if dt = .bool then .ok (.bool (m.bit ai.area ai.addr)) else .error (bitAreaError tag dt ai.area)
  else
    let regs (n : ℕ) := (List.range n).map fun i => m.register ai.area (ai.addr + i)
    match (batchQuantity ai dt).bind fun n => extractRegisterValue p (regs n) 0 dt with
    | some v => .ok v
    | none => .error ("unsupported data type: " ++ dt.name)

/-- `batchTagReq`, with the position of the tag among the requested ones. -/
structure BatchTagReq where
  index : ℕ
  name : String
  cfg : TagConfig
  ai : AddrInfo
  dt : DataType
  qty : Option ℕ

/-- `readBatch`, the struct: a range of one area. -/
structure ReadBatch where
  area : Area
  start : ℕ
  qty : ℕ
  members : List BatchTagReq

/-- The loop of `mergeBatches`; addresses are `uint16`. -/
def mergeLoop (area : Area) (maxBatch : ℕ) : ReadBatch → ℕ → List BatchTagReq → List ReadBatch
  | cur, _, [] => [cur]
  | cur, curEnd, r :: rs =>
    let tEnd := (r.ai.addr + r.qty.getD 0) % 2 ^ 16
    let mergedEnd := if curEnd < tEnd then tEnd else curEnd
    let mergedQty := (mergedEnd + 2 ^ 16 - cur.start) % 2 ^ 16
    if r.ai.addr ≤ curEnd ∧ mergedQty ≤ maxBatch then
      mergeLoop area maxBatch { cur with qty := mergedQty, members := cur.members ++ [r] } mergedEnd rs
    else cur :: mergeLoop area maxBatch ⟨area, r.ai.addr, r.qty.getD 0, [r]⟩ tEnd rs

def mergeBatches (area : Area) (maxBatch : ℕ) : List BatchTagReq → List ReadBatch
  | [] => []
  | r :: rs =>
    mergeLoop area maxBatch ⟨area, r.ai.addr, r.qty.getD 0, [r]⟩ ((r.ai.addr + r.qty.getD 0) % 2 ^ 16) rs

/-- The body of the loop of `readBatch`. -/
def readMember (m : Memory) (b : ReadBatch) (r : BatchTagReq) : Option (ℕ × GoValue) :=
  let offset := (r.ai.addr + 2 ^ 16 - b.start) % 2 ^ 16
  if b.area.isBit then
    if offset < b.qty then some (r.index, .bool (m.bit b.area (b.start + offset))) else none
  else
    (extractRegisterValue p ((List.range b.qty).map fun i => m.register b.area (b.start + i)) offset
      r.dt).map fun v => (r.index, v)

/-- `readBatch`, the function: the values by position; `none` if an index is out of range. -/
def readBatch (m : Memory) (b : ReadBatch) : Option (List (ℕ × GoValue)) := b.members.mapM (readMember p m b)

def modbusMaxBatchSize : ℕ := 125

def batchable (area : Area) (reqs : List (Option BatchTagReq)) : List BatchTagReq :=
  ((reqs.filterMap id).filter fun r => r.ai.area = area ∧ r.qty.isSome).insertionSort fun a b => a.ai.addr ≤ b.ai.addr

variable (d : ModbusBase)

/-- `performBatchReads`, with the order in which the areas are visited. With a negative retry setting
no request is made. -/
def performBatchReads (areas : List Area) (m : Memory)
    (reqs : List (Option BatchTagReq)) : Option (List (ℕ × GoValue)) :=
  if d.maxRetry < 0 then some []
  else
    ((areas.flatMap fun area => mergeBatches area modbusMaxBatchSize (batchable area reqs)).mapM
      (readBatch p m)).map List.flatten

/-- Phase 1 of `Read`: look the requested tags up. -/
def resolve (names : List String) : List (Option BatchTagReq) :=
  names.zipIdx.map fun (name, i) => (d.tags.lookup name).map fun (cfg, ai) =>
    let dt := (parseDataType cfg.type).getD .bool
    ⟨i, name, cfg, ai, dt, batchQuantity ai dt⟩

/-- `readTagWithRetry`; with a negative retry setting the value is `nil` and there is no error. -/
def readTagWithRetry (m : Memory) (r : BatchTagReq) : Except String GoValue :=
  if d.maxRetry < 0 then .ok .nil else readTag p m r.ai r.dt r.name

/-- One result of `Read`. -/
def readResult (m : Memory) (values : List (ℕ × GoValue)) (name : String)
    (req : Option BatchTagReq) : TagValue :=
  match req with
  | none => ⟨name, .nil, .bool, .bad⟩
  | some r =>
    match values.lookup r.index with
    | some v => ⟨name, applyTransform p v r.cfg.scale r.cfg.offset, r.dt, .good⟩
    | none =>
      match readTagWithRetry p d m r with
      | .error _ => ⟨name, .nil, .bool, .bad⟩
      | .ok v => ⟨name, applyTransform p v r.cfg.scale r.cfg.offset, r.dt, .good⟩

/-- `Read`; `none` if an index is out of range. -/
def read (areas : List Area) (m : Memory) (names : List String) :
    Option (List TagValue) :=
  let reqs := resolve d names
  (performBatchReads p d areas m reqs).map fun values =>
    (names.zip reqs).map fun (name, req) => readResult p d m values name req

end

end CoreC.Modbus.Driver
