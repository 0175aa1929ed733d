import CoreC.Core.Types
import CoreC.Lib.Base64
import CoreC.Lib.Json.Number
import CoreC.Lib.Json.Struct
import CoreC.Lib.SortedMap

/-! # Values and commands in JSON

`core/json_decode.go` and the JSON form of `DataType`: a value is rebuilt from its raw token with the
declared type, and a `WriteCommand` is decoded field by field, its value last. -/

namespace CoreC.Core.Json

open Core.Types Lib Lib.GoInt
open Lib.Json.Lex Lib.Json.Text Lib.Json.Parse
open Lib.Json.Number Lib.Json.Struct

/-! ### Decoding without a type -/

/-- A scalar decoded into `any`; `none` for a number that is too large for a float64. -/
def scalarAny (tok : Bytes) : Option GoValue :=
  if isString tok then some (.string (unquote tok))
  else if tok = nullTok then some .nil
  else if tok = trueTok then some (.bool true)
  else if tok = falseTok then some (.bool false)
  else (parseFloat Float64.float64 tok).map .float64

mutual

/-- `json.Unmarshal` into `any`. -/
def decodeAny : Doc → Option GoValue
  | .scalar tok => scalarAny tok
  | .arr xs => (decodeElems xs).map .slice
  | .obj kvs => (decodeMembers kvs).map fun l => .map (SortedMap.ofList l)

def decodeElems : List Doc → Option (List GoValue)
  | [] => some []
  | x :: xs => (decodeAny x).bind fun v => (decodeElems xs).map (v :: ·)

def decodeMembers : List (Bytes × Doc) → Option (List (String × GoValue))
  | [] => some []
  | (k, x) :: kvs => (decodeAny x).bind fun v => (decodeMembers kvs).map ((unquote k, v) :: ·)

end

variable (t : Doc)

def decodeDefaultAny : GoValue := (decodeAny t).getD .nil

/-! ### Decoding by the declared type -/

def isNumberToken (tok : Bytes) : Bool :=
  match tok.head? with
  | some b => b = minus || isDigit b
  | none => false

/-- The decoders of the types: a token of the form the type expects is read by `read`, and whatever that
does not accept is decoded without a type. -/
def decodeToken (expected : Bytes → Bool) (read : Bytes → Option GoValue) (t : Doc) : GoValue :=
  match t with
  | .scalar tok => if expected tok then (read tok).getD (decodeDefaultAny t) else decodeDefaultAny t
  | _ => decodeDefaultAny t

/-- The conversion of an `int64` to the signed type. -/
def ofInt64 (dt : DataType) (v : ℤ) : GoValue :=
  match dt with
  | .int8 => .int .int8 (IntType.int8.wrap v)
  | .int16 => .int .int16 (IntType.int16.wrap v)
  | .int32 => .int .int32 (IntType.int32.wrap v)
  | _ => .int .int64 v

/-- The conversion of a `uint64` to the unsigned type. -/
def ofUint64 (dt : DataType) (v : ℤ) : GoValue :=
  match dt with
  | .uint8 => .int .uint8 (IntType.uint8.wrap v)
  | .uint16 => .int .uint16 (IntType.uint16.wrap v)
  | .uint32 => .int .uint32 (IntType.uint32.wrap v)
  | _ => .int .uint64 v

def decodeSignedToken (dt : DataType) : GoValue :=
  decodeToken isNumberToken (fun tok => (parseInt tok).map (ofInt64 dt)) t

def decodeUnsignedToken (dt : DataType) : GoValue :=
  decodeToken isNumberToken (fun tok => (parseUint tok).map fun v => ofUint64 dt v) t

def decodeFloatToken (dt : DataType) : GoValue :=
  decodeToken isNumberToken (fun tok =>
    if dt = .float32 then (parseFloat Float64.float32 tok).map .float32
    else (parseFloat Float64.float64 tok).map .float64) t

def decodeBoolToken : GoValue :=
  decodeToken (fun tok => tok = trueTok ∨ tok = falseTok) (fun tok => some (.bool (tok = trueTok))) t

def decodeStringToken : GoValue :=
  decodeToken isString (fun tok => some (.string (unquote tok))) t

def decodeBytesToken : GoValue :=
  decodeToken isString (fun tok => (Base64.decode (unquote tok).toList).map .bytes) t

/-- `decodeValueByType`; `raw` is `none` if the message is empty. -/
def decodeValueByType (raw : Option Doc) (dt : DataType) : GoValue :=
  match raw with
  | none => .nil
  | some (.scalar tok) => if tok = nullTok then .nil else byType (.scalar tok)
  | some t => byType t
where
  /-- The decoder of the type. -/
  byType (t : Doc) : GoValue :=
    match dt with
    | .int8 | .int16 | .int32 | .int64 => decodeSignedToken t dt
    | .uint8 | .uint16 | .uint32 | .uint64 => decodeUnsignedToken t dt
    | .float32 | .float64 => decodeFloatToken t dt
    | .bool => decodeBoolToken t
    | .string => decodeStringToken t
    | .bytes => decodeBytesToken t

/-! ### Data types -/

def dataTypeOfCode (n : ℤ) : Option DataType := if n < 0 then none else DataType.all[n.toNat]?

/-- `DataType.UnmarshalJSON`. `null` decodes into the string, as the empty one. -/
def unmarshalDataType : Doc → Option DataType
  | .scalar tok =>
    if isString tok then parseDataType (unquote tok)
    else if tok = nullTok then parseDataType ""
    else (parseInt tok).bind dataTypeOfCode
  | _ => none

theorem unmarshalDataType_name (d : DataType) : unmarshalDataType (.scalar (quote d.name)) = some d := by
  simp [unmarshalDataType, parseDataType_name]

/-! ### Commands -/

/-- The fields of `WriteCommand`. -/
inductive CommandField where
  | driver | device | tag | value | type | source | remote | raw
  deriving DecidableEq, Repr

def CommandField.name : CommandField → String
  | driver => "driver" | device => "device" | tag => "tag" | value => "value" | type => "type"
  | source => "source" | remote => "remote" | raw => "raw"

/-- The struct `WriteCommand` without its methods. -/
def commandSchema : Schema WriteCommand CommandField where
  fields := [.driver, .device, .tag, .value, .type, .source, .remote, .raw]
  name := CommandField.name
  set
    | .driver => setString fun s c => { c with driver := s }
    | .device => setString fun s c => { c with device := s }
    | .tag => setString fun s c => { c with tag := s }
    | .value => fun t => (decodeAny t).map fun v c => { c with value := v }
    | .type => fun t => (unmarshalDataType t).map fun d c => { c with type := d }
    | .source => setString fun s c => { c with source := s }
    | .remote => setString fun s c => { c with remote := s }
    | .raw => setBool fun b c => { c with raw := b }

/-- The struct of `probeRawValue`: the raw `value` only. -/
def probeSchema : Schema (Option Doc) Unit where
  fields := [()]
  name _ := "value"
  set _ t := some fun _ => some t

def probeRawValue : Option Doc := (probeSchema.unmarshal t none).getD none

/-- `WriteCommand.UnmarshalJSON`. -/
def unmarshalCommand : Option WriteCommand :=
  (commandSchema.unmarshal t {}).map fun fields =>
    { fields with value := decodeValueByType (probeRawValue t) fields.type }

/-- `json.Unmarshal` into a `WriteCommand`. -/
def decodeCommand (data : Bytes) : Option WriteCommand := (parse data).bind unmarshalCommand

/-! ### Number tokens -/

theorem isNumberToken_formatInt (v : ℤ) : isNumberToken (formatInt v) = true := by
  by_cases hv : v < 0
  · rw [formatInt_neg hv]
    rfl
  · rw [formatInt_nonneg hv]
    cases h : formatNat v.natAbs with
    | nil => exact absurd h (formatNat_ne_nil _)
    | cons d ds =>
      have := isDigit_formatNat v.natAbs d (by simp [h])
      simp [isNumberToken, this]

variable {tok : Bytes} {i : CommandField} {t : Doc} {g : WriteCommand → WriteCommand}

theorem not_isString_of_number (h : isNumberToken tok = true) : isString tok = false := by
  rw [← Bool.not_eq_true]
  intro hs
  have hq : tok.head? = some quoteByte := by simpa [isString] using hs
  rw [isNumberToken, hq] at h
  exact absurd h (by decide)

theorem ne_nullTok_of_number (h : isNumberToken tok = true) : tok ≠ nullTok := by
  rintro rfl
  exact absurd h (by decide)

theorem scalarAny_number (h : isNumberToken tok = true) :
    scalarAny tok = (parseFloat Float64.float64 tok).map .float64 := by
  have h1 : tok ≠ trueTok := by
    rintro rfl
    exact absurd h (by decide)
  have h2 : tok ≠ falseTok := by
    rintro rfl
    exact absurd h (by decide)
  simp [scalarAny, not_isString_of_number h, ne_nullTok_of_number h, h1, h2]

/-! ### Decoding composite values -/

theorem decodeElems_eq : ∀ xs, decodeElems xs =
    if ∀ x ∈ xs, (decodeAny x).isSome then some (xs.map decodeDefaultAny) else none
  | [] => by simp [decodeElems]
  | x :: xs => by
    rw [decodeElems, decodeElems_eq xs]
    cases h : decodeAny x with
    | none => simp [h]
    | some v =>
      have hd : decodeDefaultAny x = v := by simp [decodeDefaultAny, h]
      by_cases hxs : ∀ x ∈ xs, (decodeAny x).isSome
      · simp [h, hd]
      · simp [hxs]

theorem decodeMembers_eq : ∀ kvs : List (Bytes × Doc), decodeMembers kvs =
    if ∀ kv ∈ kvs, (decodeAny kv.2).isSome then
      some (kvs.map fun kv => (unquote kv.1, decodeDefaultAny kv.2)) else none
  | [] => by simp [decodeMembers]
  | (k, x) :: kvs => by
    rw [decodeMembers, decodeMembers_eq kvs]
    cases h : decodeAny x with
    | none => simp [h]
    | some v =>
      have hd : decodeDefaultAny x = v := by simp [decodeDefaultAny, h]
      by_cases hkvs : ∀ kv ∈ kvs, (decodeAny kv.2).isSome
      · rw [if_pos hkvs, if_pos (List.forall_mem_cons.mpr ⟨by simp [h], hkvs⟩)]
        simp [hd]
      · rw [if_neg hkvs, if_neg fun hall => hkvs (List.forall_mem_cons.mp hall).2]
        rfl

theorem decodeAny_arr (xs : List Doc) : decodeAny (.arr xs) =
    if ∀ x ∈ xs, (decodeAny x).isSome then some (.slice (xs.map decodeDefaultAny)) else none := by
  rw [decodeAny, decodeElems_eq]
  split_ifs <;> rfl

theorem decodeAny_obj (kvs : List (Bytes × Doc)) : decodeAny (.obj kvs) =
    if ∀ kv ∈ kvs, (decodeAny kv.2).isSome then
      some (.map (SortedMap.ofList (kvs.map fun kv => (unquote kv.1, decodeDefaultAny kv.2))))
    else none := by
  rw [decodeAny, decodeMembers_eq]
  split_ifs <;> rfl

/-! ### The fields of a command -/

theorem fieldOf_command {key : String} : commandSchema.fieldOf key = some i ↔
    GoText.equalFold key.toList i.name.toList = true := by
  refine Schema.fieldOf_eq_some_iff (S := commandSchema) (fun i => ?_) fun i j => ?_
  · cases i <;> decide
  · cases i <;> cases j <;> first | exact fun _ => rfl | exact fun h => absurd h (by decide)

theorem fieldOf_probe {key : String} : probeSchema.fieldOf key = some () ↔ commandSchema.fieldOf key = some .value := by
  rw [fieldOf_command]
  exact Schema.fieldOf_eq_some_iff (S := probeSchema) (fun _ => by simp [probeSchema]) fun _ _ _ => rfl

def copyField (i : CommandField) (c s : WriteCommand) : WriteCommand :=
  match i with
  | .driver => { s with driver := c.driver }
  | .device => { s with device := c.device }
  | .tag => { s with tag := c.tag }
  | .value => { s with value := c.value }
  | .type => { s with type := c.type }
  | .source => { s with source := c.source }
  | .remote => { s with remote := c.remote }
  | .raw => { s with raw := c.raw }

theorem setString_cases {put : String → WriteCommand → WriteCommand} (hput : ∀ x, ∃ c, put x = copyField i c)
    (h : setString put t = some g) : g = id ∨ ∃ c, g = copyField i c := by
  cases t with
  | scalar tok =>
    simp only [setString] at h
    split_ifs at h <;> cases h
    · exact .inr (hput _)
    · exact .inl rfl
  | arr | obj => cases h

theorem setBool_cases {put : Bool → WriteCommand → WriteCommand} (hput : ∀ x, ∃ c, put x = copyField i c)
    (h : setBool put t = some g) : g = id ∨ ∃ c, g = copyField i c := by
  cases t with
  | scalar tok =>
    simp only [setBool] at h
    split_ifs at h <;> cases h
    · exact .inr (hput _)
    · exact .inr (hput _)
    · exact .inl rfl
  | arr | obj => cases h

theorem set_cases (h : commandSchema.set i t = some g) : g = id ∨ ∃ c, g = copyField i c := by
  cases i with
  | driver =>
    exact setString_cases (fun x => ⟨{ driver := x }, rfl⟩) h
  | device =>
    exact setString_cases (fun x => ⟨{ device := x }, rfl⟩) h
  | tag =>
    exact setString_cases (fun x => ⟨{ tag := x }, rfl⟩) h
  | value =>
    simp only [commandSchema, Option.map_eq_some_iff] at h
    obtain ⟨x, -, rfl⟩ := h
    exact .inr ⟨{ value := x }, rfl⟩
  | type =>
    simp only [commandSchema, Option.map_eq_some_iff] at h
    obtain ⟨x, -, rfl⟩ := h
    exact .inr ⟨{ type := x }, rfl⟩
  | source =>
    exact setString_cases (fun x => ⟨{ source := x }, rfl⟩) h
  | remote =>
    exact setString_cases (fun x => ⟨{ remote := x }, rfl⟩) h
  | raw =>
    exact setBool_cases (fun x => ⟨{ raw := x }, rfl⟩) h

theorem independent_command : commandSchema.Independent := by
  intro i j v w g g' hij hg hg' s
  rcases set_cases hg with rfl | ⟨c, rfl⟩
  · rfl
  · rcases set_cases hg' with rfl | ⟨c', rfl⟩
    · rfl
    · cases i <;> cases j <;> first | rfl | exact absurd rfl hij

end CoreC.Core.Json
