import CoreC.Lib.GoText
import CoreC.S7.Write

/-! # S7 addresses

`parseS7Address` (`driver/s7/s7_address.go`): the addresses of data blocks, merkers, inputs and outputs. The regular
expressions are read off as functions on characters; their letters match in either case. The numbers are read by
`strconv.Atoi`, whose error is ignored: what does not fit gives the greatest number.

`parseS7Address_wellFormed`: the bit of an address is one of the eight of a byte. -/

namespace CoreC.S7.Address

open Core.Types Lib.GoText S7.Write

/-- `strconv.Atoi` of digits, without the error. -/
def atoi (digits : List Char) : ℕ := min (Nat.ofDigitChars 10 digits 0) (2 ^ 63 - 1)

/-- `(\d+)` at the beginning, and the rest. -/
def digits (s : List Char) : Option (List Char × List Char) :=
  match s.span Char.isDigit with
  | ([], _) => none
  | (ds, rest) => some (ds, rest)

/-- `(?:\.(\d+))?$`: the digits of the bit, if there are any. -/
def bitSuffix : List Char → Option (List Char)
  | [] => some []
  | '.' :: rest =>
    match digits rest with
    | some (ds, []) => some ds
    | _ => none
  | _ => none

def letter (letters : List Char) : List Char → Option (Char × List Char)
  | c :: rest => if c.toUpper ∈ letters then some (c.toUpper, rest) else none
  | [] => none

/-- The groups of `reDB`. -/
def matchDB (s : List Char) : Option (List Char × Char × List Char × List Char) := do
  let (_, s) ← letter ['D'] s
  let (_, s) ← letter ['B'] s
  let (number, s) ← digits s
  let s ← match s with
    | '.' :: s => some s
    | _ => none
  let (_, s) ← letter ['D'] s
  let (_, s) ← letter ['B'] s
  let (kind, s) ← letter ['X', 'B', 'W', 'D'] s
  let (offset, s) ← digits s
  let bit ← bitSuffix s
  some (number, kind, offset, bit)

/-- The groups of `reM`, `reI` and `reQ`, by the letters of the area. -/
def matchArea (letters : List Char) (s : List Char) : Option (Option Char × List Char × List Char) := do
  let (_, s) ← letter letters s
  let (kind, s) := match letter ['B', 'W', 'D'] s with
    | some (kind, s) => (some kind, s)
    | none => (none, s)
  let (offset, s) ← digits s
  let bit ← bitSuffix s
  some (kind, offset, bit)

def dataSizeForKind (kind : Option Char) (dt : DataType) : ℕ :=
  match kind with
  | some 'X' => 1
  | some 'B' => 1
  | some 'W' => 2
  | some 'D' => 4
  | _ =>
    match dt with
    | .bool => 1
    | .int8 | .uint8 => 1
    | .int16 | .uint16 => 2
    | .int32 | .uint32 | .float32 => 4
    | .int64 | .uint64 | .float64 => 8
    | _ => 2

def validateBitOffset (bit : ℕ) : Except String Unit :=
  if bit > 7 then .error ("s7: bit offset " ++ toString bit ++ " out of range (must be 0–7)") else .ok ()

def dbAddress (number : List Char) (kind : Char) (offset bit : List Char) (dt : DataType) : Except String S7Address := do
  let bitOffset := if bit = [] then 0 else atoi bit
  validateBitOffset bitOffset
  return { area := .db, dbNumber := atoi number, start := atoi offset, bit := bitOffset
           size := dataSizeForKind (some kind) dt, isBit := kind = 'X' }

def areaAddress (area : S7Area) (kind : Option Char) (offset bit : List Char) (dt : DataType) :
    Except String S7Address := do
  let bitOffset := if bit = [] then 0 else atoi bit
  let isBit := bit ≠ [] || (kind = none && dt = .bool)
  validateBitOffset bitOffset
  return { area := area, start := atoi offset, bit := bitOffset, size := dataSizeForKind kind dt, isBit := isBit }

def parseS7Address (addrStr : String) (dt : DataType) : Except String S7Address :=
  let s := trimSpace addrStr.toList
  match matchDB s with
  | some (number, kind, offset, bit) => dbAddress number kind offset bit dt
  | none =>
    match matchArea ['M'] s with
    | some (kind, offset, bit) => areaAddress .m kind offset bit dt
    | none =>
      match matchArea ['I', 'E'] s with
      | some (kind, offset, bit) => areaAddress .i kind offset bit dt
      | none =>
        match matchArea ['Q', 'A'] s with
        | some (kind, offset, bit) => areaAddress .q kind offset bit dt
        | none => .error ("unrecognized s7 address format: " ++ String.ofList s)

theorem validateBitOffset_ok {bit : ℕ} {u : Unit} (h : validateBitOffset bit = .ok u) : bit ≤ 7 := by
  unfold validateBitOffset at h
  split_ifs at h with hbit
  exact Nat.not_lt.mp hbit

theorem dataSizeForKind_bounds (kind : Option Char) (dt : DataType) :
    1 ≤ dataSizeForKind kind dt ∧ dataSizeForKind kind dt ≤ 8 := by
  unfold dataSizeForKind
  split
  · decide
  · decide
  · decide
  · decide
  · cases dt <;> decide

/-- The bit of an address is one of the eight of a byte, and it has a byte at least. Only an address of a data block can
have a bit and be no address of a bit. -/
structure WellFormed (addr : S7Address) : Prop where
  bit : addr.bit ≤ 7
  size : 1 ≤ addr.size
  plain : addr.isBit = false → addr.area ≠ .db → addr.bit = 0

variable {dt : DataType} {addr : S7Address}

/-- What an accepted address is made of. -/
def Parsed (dt : DataType) (addr : S7Address) : Prop :=
  WellFormed addr ∧ (∃ offset, addr.start = atoi offset) ∧ ∃ kind, addr.size = dataSizeForKind kind dt

theorem dbAddress_parsed {number : List Char} {kind : Char} {offset bit : List Char}
    (h : dbAddress number kind offset bit dt = .ok addr) : Parsed dt addr := by
  unfold dbAddress at h
  cases hbit : validateBitOffset (if bit = [] then 0 else atoi bit) with
  | error e => simp only [hbit] at h; cases h
  | ok u =>
    simp only [hbit] at h
    cases h
    exact ⟨⟨validateBitOffset_ok hbit, (dataSizeForKind_bounds _ _).1, fun _ harea => absurd rfl harea⟩, ⟨_, rfl⟩, _, rfl⟩

theorem areaAddress_parsed {area : S7Area} {kind : Option Char} {offset bit : List Char}
    (h : areaAddress area kind offset bit dt = .ok addr) : Parsed dt addr := by
  unfold areaAddress at h
  cases hbit : validateBitOffset (if bit = [] then 0 else atoi bit) with
  | error e => simp only [hbit] at h; cases h
  | ok u =>
    simp only [hbit] at h
    cases h
    refine ⟨⟨validateBitOffset_ok hbit, (dataSizeForKind_bounds _ _).1, fun hplain _ => ?_⟩, ⟨_, rfl⟩, _, rfl⟩
    have hnil : bit = [] := by
      by_contra hne
      simp [hne] at hplain
    exact if_pos hnil

theorem parseS7Address_parsed {addrStr : String} (h : parseS7Address addrStr dt = .ok addr) : Parsed dt addr := by
  simp only [parseS7Address] at h
  split at h
  · exact dbAddress_parsed h
  · split at h
    · exact areaAddress_parsed h
    · split at h
      · exact areaAddress_parsed h
      · split at h
        · exact areaAddress_parsed h
        · cases h

theorem parseS7Address_wellFormed {addrStr : String} (h : parseS7Address addrStr dt = .ok addr) : WellFormed addr :=
  (parseS7Address_parsed h).1

example : parseS7Address "db1.dbb0.3" .bool = .ok { area := .db, dbNumber := 1, start := 0, bit := 3, size := 1 } := by
  decide

end CoreC.S7.Address
