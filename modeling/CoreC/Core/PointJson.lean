import CoreC.Core.Json

/-! # Data points in JSON

`json.Marshal` of a `DataPoint` and `DataPoint.UnmarshalJSON`. The texts of times and of fractional
numbers are parameters (`Codec`); integers, and floating-point numbers that are integers below `10^21`,
are written in plain digits, the latter in the fewest that denote them. -/

namespace CoreC.Core.PointJson

open Core.Types Core.Json Lib Lib.GoInt Lib.Float64 List Option
open Lib.Json.Lex Lib.Json.Text Lib.Json.Parse
open Lib.Json.Number Lib.Json.Struct

def isTimeByte (b : UInt8) : Bool := isDigit b || b ∈ [0x2d, 0x3a, 0x2e, 0x2b, 0x54, 0x5a]

/-- The texts the standard library writes: `strconv.AppendFloat` for the numbers that are not written in
plain digits, and `time.Time` in RFC 3339 form, for the years that have one. -/
structure Codec where
  floatText : ℚ → Bytes
  float32Text : ℚ → Bytes
  formatTime : ℤ → Option Bytes
  parseTime : Bytes → Option ℤ
  parse_format : ∀ t b, formatTime t = some b → parseTime b = some t
  time_bytes : ∀ t b, formatTime t = some b → ∀ x ∈ b, isTimeByte x = true

/-! ### Writing -/

def floatToken (c : Codec) (q : ℚ) : Bytes :=
  if q.den = 1 ∧ q.num.natAbs < 10 ^ 21 then formatInt (shortestInt q.num) else c.floatText q

mutual

/-- `json.Marshal` of a value of type `any`. -/
def marshalValue (c : Codec) : GoValue → Doc
  | .nil => .scalar nullTok
  | .bool b => .scalar (if b then trueTok else falseTok)
  | .int _ v => .scalar (formatInt v)
  | .float32 q => .scalar (c.float32Text q)
  | .float64 q => .scalar (floatToken c q)
  | .string s => .scalar (quote s)
  | .bytes b => .scalar (quote (String.ofList (Base64.encode b)))
  | .slice xs => .arr (marshalElems c xs)
  | .map kvs => .obj (marshalMembers c kvs)

def marshalElems (c : Codec) : List GoValue → List Doc
  | [] => []
  | x :: xs => marshalValue c x :: marshalElems c xs

def marshalMembers (c : Codec) : List (String × GoValue) → List (Bytes × Doc)
  | [] => []
  | (k, v) :: kvs => (quote k, marshalValue c v) :: marshalMembers c kvs

end

def qualityCode : Quality → ℤ
  | .good => 0
  | .bad => 1
  | .uncertain => 2
  | .other n => n

def qualityOfCode (n : ℤ) : Quality :=
  if h : IntType.int64.InRange n ∧ n ≠ 0 ∧ n ≠ 1 ∧ n ≠ 2 then .other ⟨n, h⟩
  else if n = 1 then .bad else if n = 2 then .uncertain else .good

/-- The fields of `DataPoint`. -/
inductive PointField where
  | driver | device | group | tag | value | type | quality | timestamp | metadata | isStale
  deriving DecidableEq, Repr

def PointField.name : PointField → String
  | driver => "driver" | device => "device" | group => "group" | tag => "tag" | value => "value"
  | type => "type" | quality => "quality" | timestamp => "timestamp" | metadata => "metadata"
  | isStale => "is_stale"

def PointField.member (f : PointField) (t : Doc) : Bytes × Doc := (quote f.name, t)

def metadataMembers (m : List (String × String)) : List (Bytes × Doc) :=
  if m = [] then []
  else [PointField.metadata.member (.obj (m.map fun x => (quote x.1, .scalar (quote x.2))))]

def staleMembers (b : Bool) : List (Bytes × Doc) :=
  if b then [PointField.isStale.member (.scalar trueTok)] else []

/-- The JSON form of a point, `time` being the text of its timestamp. -/
def pointDoc (c : Codec) (p : DataPoint) (time : Bytes) : Doc :=
  .obj ([PointField.driver.member (.scalar (quote p.driver)), PointField.device.member (.scalar (quote p.device)),
    PointField.group.member (.scalar (quote p.group)),
    PointField.tag.member (.scalar (quote p.tag)),
    PointField.value.member (marshalValue c p.value),
    PointField.type.member (.scalar (quote p.type.name)),
    PointField.quality.member (.scalar (formatInt (qualityCode p.quality))),
    PointField.timestamp.member (.scalar (quoteByte :: (time ++ [quoteByte])))] ++
    (metadataMembers p.metadata ++ staleMembers p.isStale))

/-- `json.Marshal` of a point; it fails for a time without a text. -/
def marshalPoint (c : Codec) (p : DataPoint) : Option Bytes :=
  (c.formatTime p.timestamp).map fun time => render (pointDoc c p time)

/-! ### Reading -/

def setInt {σ : Type} (put : ℤ → σ → σ) : Doc → Option (σ → σ)
  | .scalar tok => if tok = nullTok then some id else (parseInt tok).map put
  | _ => none

/-- A field of type `time.Time`; the text between the quotes is parsed as it is. -/
def setTime {σ : Type} (c : Codec) (put : ℤ → σ → σ) : Doc → Option (σ → σ)
  | .scalar tok =>
    if tok = nullTok then some id
    else if isString tok then (c.parseTime (body tok)).map put
    else none
  | _ => none

/-- The entries of a `map[string]string`; `null` leaves the zero value. -/
def stringEntries : List (Bytes × Doc) → Option (List (String × String))
  | [] => some []
  | (k, .scalar tok) :: kvs =>
    if isString tok then (stringEntries kvs).map ((unquote k, unquote tok) :: ·)
    else if tok = nullTok then (stringEntries kvs).map ((unquote k, "") :: ·)
    else none
  | _ => none

/-- A field of type `map[string]string`: an object adds its entries to the map. -/
def setStringMap {σ : Type} (get : σ → List (String × String))
    (put : List (String × String) → σ → σ) : Doc → Option (σ → σ)
  | .obj kvs => (stringEntries kvs).map fun l s => put (SortedMap.ofList (get s ++ l)) s
  | .scalar tok => if tok = nullTok then some (put []) else none
  | .arr _ => none

/-- The struct `DataPoint` without its methods. -/
def pointSchema (c : Codec) : Schema DataPoint PointField where
  fields := [.driver, .device, .group, .tag, .value, .type, .quality, .timestamp, .metadata, .isStale]
  name := PointField.name
  set
    | .driver => setString fun s p => { p with driver := s }
    | .device => setString fun s p => { p with device := s }
    | .group => setString fun s p => { p with group := s }
    | .tag => setString fun s p => { p with tag := s }
    | .value => fun t => (decodeAny t).map fun v p => { p with value := v }
    | .type => fun t => (unmarshalDataType t).map fun d p => { p with type := d }
    | .quality => setInt fun n p => { p with quality := qualityOfCode n }
    | .timestamp => setTime c fun t p => { p with timestamp := t }
    | .metadata => setStringMap (·.metadata) fun m p => { p with metadata := m }
    | .isStale => setBool fun b p => { p with isStale := b }

/-- The zero `DataPoint`; the zero time is the first of January of the year 1. -/
def zeroPoint : DataPoint :=
  { driver := "", device := "", group := "", tag := "", value := .nil, type := .bool, quality := .good,
    timestamp := -62135596800 * 10 ^ 9, metadata := [], isStale := false }

/-- `DataPoint.UnmarshalJSON`. -/
def unmarshalPoint (c : Codec) (t : Doc) : Option DataPoint :=
  ((pointSchema c).unmarshal t zeroPoint).map fun fields =>
    { fields with value := decodeValueByType (probeRawValue t) fields.type }

/-- `json.Unmarshal` into a `DataPoint`. -/
def decodePoint (c : Codec) (data : Bytes) : Option DataPoint :=
  (parse data).bind (unmarshalPoint c)

/-! ### A point is read back -/

variable {c : Codec} {p : DataPoint} {time : Bytes} {q : DataPoint} {v : GoValue} {T : IntType} {f : PointField}
  {t w x : ℤ}

theorem fieldOf_name (c : Codec) (f : PointField) : (pointSchema c).fieldOf f.name = some f := by
  cases f <;> rfl

theorem fill_member {t : Doc} {g : DataPoint → DataPoint} {kvs : List (Bytes × Doc)}
    (h : (pointSchema c).set f t = some g) :
    (pointSchema c).fill (f.member t :: kvs) q = (pointSchema c).fill kvs (g q) :=
  Schema.fill_cons (fieldOf_name c f) h

theorem qualityOfCode_code (q : Quality) : qualityOfCode (qualityCode q) = q := by
  cases q with
  | other n => exact dif_pos n.2
  | _ => rfl

theorem qualityCode_inRange (q : Quality) : IntType.int64.InRange (qualityCode q) := by
  cases q with
  | other n => exact n.2.1
  | _ => decide

theorem setInt_formatInt {σ : Type} (put : ℤ → σ → σ) {v : ℤ} (hv : IntType.int64.InRange v) :
    setInt put (.scalar (formatInt v)) = some (put v) := by
  simp [setInt, ne_nullTok_of_number (isNumberToken_formatInt v), parseInt_formatInt, hv]

theorem setTime_text {σ : Type} (put : ℤ → σ → σ) (h : c.formatTime t = some time) :
    setTime c put (.scalar (quoteByte :: (time ++ [quoteByte]))) = some (put t) := by
  have hnull : quoteByte :: (time ++ [quoteByte]) ≠ nullTok := fun heq =>
    absurd (List.cons.inj heq).1 (by decide)
  simp [setTime, isString, c.parse_format t time h, hnull]

theorem stringEntries_quote : ∀ m : List (String × String),
    stringEntries (m.map fun x => (quote x.1, .scalar (quote x.2))) = some m
  | [] => rfl
  | x :: m => by simp [stringEntries, stringEntries_quote m]

theorem fill_metadata (m : List (String × String)) (kvs : List (Bytes × Doc))
    (hq : q.metadata = []) : (pointSchema c).fill (metadataMembers m ++ kvs) q =
      (pointSchema c).fill kvs { q with metadata := SortedMap.ofList m } := by
  unfold metadataMembers
  split_ifs with hm
  · subst hm
    cases q
    cases hq
    rfl
  · have hset : (pointSchema c).set .metadata (.obj (m.map fun x => (quote x.1, .scalar (quote x.2)))) =
          some fun p => { p with metadata := SortedMap.ofList (p.metadata ++ m) } := by
      simp [pointSchema, setStringMap, stringEntries_quote]
    rw [singleton_append, fill_member hset, hq, nil_append]

theorem fill_stale (b : Bool) (hq : q.isStale = false) :
    (pointSchema c).fill (staleMembers b) q = some { q with isStale := b } := by
  cases b with
  | false =>
    cases q
    cases hq
    rfl
  | true =>
    have hset : (pointSchema c).set .isStale (.scalar trueTok) = some fun p => { p with isStale := true } := rfl
    exact fill_member hset

theorem fill_pointDoc (ht : c.formatTime p.timestamp = some time) (hv : decodeAny (marshalValue c p.value) = some v) :
    (pointSchema c).unmarshal (pointDoc c p time) zeroPoint =
      some { p with value := v, metadata := SortedMap.ofList p.metadata } := by
  have hdriver : (pointSchema c).set .driver (.scalar (quote p.driver)) =
      some fun q => { q with driver := p.driver } := by
    simp [pointSchema, setString_quote]
  have hdevice : (pointSchema c).set .device (.scalar (quote p.device)) =
      some fun q => { q with device := p.device } := by
    simp [pointSchema, setString_quote]
  have hgroup : (pointSchema c).set .group (.scalar (quote p.group)) = some fun q => { q with group := p.group } := by
    simp [pointSchema, setString_quote]
  have htag : (pointSchema c).set .tag (.scalar (quote p.tag)) = some fun q => { q with tag := p.tag } := by
    simp [pointSchema, setString_quote]
  have hvalue : (pointSchema c).set .value (marshalValue c p.value) = some fun q => { q with value := v } := by
    simp [pointSchema, hv]
  have htype : (pointSchema c).set .type (.scalar (quote p.type.name)) = some fun q => { q with type := p.type } := by
    simp [pointSchema, unmarshalDataType_name]
  have hquality : (pointSchema c).set .quality (.scalar (formatInt (qualityCode p.quality))) =
      some fun q => { q with quality := p.quality } := by
    simp [pointSchema, setInt_formatInt _ (qualityCode_inRange p.quality), qualityOfCode_code]
  have htime : (pointSchema c).set .timestamp (.scalar (quoteByte :: (time ++ [quoteByte]))) =
      some fun q => { q with timestamp := p.timestamp } := by
    simp [pointSchema, setTime_text _ ht]
  calc (pointSchema c).fill _ zeroPoint
    _ = (pointSchema c).fill _ _ := fill_member hdriver
    _ = (pointSchema c).fill _ _ := fill_member hdevice
    _ = (pointSchema c).fill _ _ := fill_member hgroup
    _ = (pointSchema c).fill _ _ := fill_member htag
    _ = (pointSchema c).fill _ _ := fill_member hvalue
    _ = (pointSchema c).fill _ _ := fill_member htype
    _ = (pointSchema c).fill _ _ := fill_member hquality
    _ = (pointSchema c).fill _ _ := fill_member htime
    _ = (pointSchema c).fill _ _ := fill_metadata p.metadata _ rfl
    _ = _ := fill_stale p.isStale rfl

theorem probe_fieldOf (hf : f ≠ .value) : probeSchema.fieldOf f.name = none := by
  cases f <;> first | rfl | exact absurd rfl hf

theorem mem_optional {m : List (String × String)} {b : Bool} {kv : Bytes × Doc}
    (h : kv ∈ metadataMembers m ++ staleMembers b) : ∃ f t, f ≠ PointField.value ∧ kv = f.member t := by
  unfold metadataMembers staleMembers at h
  rcases mem_append.mp h with h | h
  · split_ifs at h
    · cases h
    · exact ⟨.metadata, _, by decide, mem_singleton.mp h⟩
  · split_ifs at h
    · exact ⟨.isStale, _, by decide, mem_singleton.mp h⟩
    · cases h

theorem probe_pointDoc : probeRawValue (pointDoc c p time) = some (marshalValue c p.value) := by
  have hskip : ∀ {f : PointField} {t : Doc} {kvs : List (Bytes × Doc)} {s : Option Doc}, f ≠ .value →
      probeSchema.fill (f.member t :: kvs) s = probeSchema.fill kvs s := fun hf =>
    Schema.fill_cons_skip (probe_fieldOf hf)
  have hvalue : ∀ {t : Doc} {kvs : List (Bytes × Doc)} {s : Option Doc},
      probeSchema.fill (PointField.value.member t :: kvs) s = probeSchema.fill kvs (some t) :=
    Schema.fill_cons (S := probeSchema) (i := ()) rfl rfl
  have hrest : ∀ s, probeSchema.fill (metadataMembers p.metadata ++ staleMembers p.isStale) s = some s := by
    refine fun s => Schema.fill_of_no_field fun kv hkv => ?_
    obtain ⟨f, t, hf, rfl⟩ := mem_optional hkv
    rw [PointField.member, unquote_quote]
    exact probe_fieldOf hf
  have hfill : probeSchema.unmarshal (pointDoc c p time) none = some (some (marshalValue c p.value)) := by
    unfold pointDoc Schema.unmarshal
    simp only [cons_append, nil_append]
    rw [hskip (by decide), hskip (by decide), hskip (by decide), hskip (by decide), hvalue,
      hskip (by decide), hskip (by decide), hskip (by decide), hrest]
  rw [probeRawValue, hfill, getD_some]

theorem plain_time (h : c.formatTime t = some time) : ∀ b ∈ time, b ≠ quoteByte ∧ b ≠ backslash ∧ ¬b < 0x20 := by
  intro b hb
  have htb := c.time_bytes _ _ h b hb
  simp only [isTimeByte, isDigit, Bool.or_eq_true, Bool.and_eq_true, decide_eq_true_eq, mem_cons,
    not_mem_nil, or_false] at htb
  rcases htb with ⟨hlo, hhi⟩ | rfl | rfl | rfl | rfl | rfl | rfl
  · simp only [UInt8.le_iff_toNat_le, UInt8.lt_iff_toNat_lt, ne_eq, ← UInt8.toNat_inj, quoteByte,
      backslash, UInt8.toNat_ofNat] at hlo hhi ⊢
    omega
  all_goals decide

theorem validScalar_time (h : c.formatTime t = some time) : ValidScalar (quoteByte :: (time ++ [quoteByte])) :=
  validScalar_quoted (strRun_plain (plain_time h))

theorem fits_string (d : ℕ) (s : String) : Fits d (.scalar (quote s)) := validScalar_quote s

theorem fits_member {d : ℕ} {t : Doc} (h : Fits d t) : ValidKey (f.member t).1 ∧ Fits d (f.member t).2 :=
  ⟨⟨validScalar_quote f.name, rfl⟩, h⟩

theorem fits_optional {d : ℕ} (hd : 1 ≤ d) (m : List (String × String)) (b : Bool) :
    ∀ kv ∈ metadataMembers m ++ staleMembers b, ValidKey kv.1 ∧ Fits d kv.2 := by
  intro kv hkv
  unfold metadataMembers staleMembers at hkv
  rcases mem_append.mp hkv with hkv | hkv
  · split_ifs at hkv
    · cases hkv
    · cases mem_singleton.mp hkv
      refine fits_member ⟨hd, (fitsMembers_iff _).mpr fun x hx => ?_⟩
      obtain ⟨y, -, rfl⟩ := mem_map.mp hx
      exact ⟨⟨validScalar_quote _, rfl⟩, validScalar_quote _⟩
  · split_ifs at hkv
    · cases mem_singleton.mp hkv
      exact fits_member (.inl rfl)
    · cases hkv

theorem fits_pointDoc (h : c.formatTime p.timestamp = some time)
    (hv : Fits (maxDepth - 1) (marshalValue c p.value)) : Fits maxDepth (pointDoc c p time) := by
  refine ⟨by decide, (fitsMembers_iff _).mpr ?_⟩
  simp only [cons_append, nil_append, forall_mem_cons]
  exact ⟨fits_member (fits_string _ _), fits_member (fits_string _ _), fits_member (fits_string _ _),
    fits_member (fits_string _ _), fits_member hv, fits_member (fits_string _ _), fits_member (validScalar_formatInt _),
    fits_member (validScalar_time h), fits_optional (by decide) _ _⟩

/-- **A point is read back with its value decoded by the declared type.** -/
theorem decodePoint_marshalPoint {data : Bytes} (h : marshalPoint c p = some data)
    (hv : decodeAny (marshalValue c p.value) = some v) (hfit : Fits (maxDepth - 1) (marshalValue c p.value)) :
    decodePoint c data = some { p with
      value := decodeValueByType (some (marshalValue c p.value)) p.type
      metadata := SortedMap.ofList p.metadata } := by
  obtain ⟨time, ht, rfl⟩ := map_eq_some_iff.mp h
  rw [decodePoint, parse_render (fits_pointDoc ht hfit), bind_some, unmarshalPoint,
    fill_pointDoc ht hv, map_some, probe_pointDoc]

/-! ### When the number is kept -/

/-- The value denotes the integer `x` and is written as the integer `w`: a Go integer, or a float64 that
is an integer below `10^21`. -/
inductive Printed : GoValue → ℤ → ℤ → Prop
  | int {t : IntType} {n : ℤ} (h : t.InRange n) : Printed (.int t n) n n
  | float {v : ℤ} (h : roundInt v = v) (hlt : v.natAbs < 10 ^ 21) :
    Printed (.float64 v) v (shortestInt v)

/-- The type in which a number is formatted. -/
def wide (T : IntType) : IntType := if T.signed then .int64 else .uint64

theorem Printed.marshalValue (h : Printed v x w) : marshalValue c v = .scalar (formatInt w) := by
  cases h with
  | int h => rfl
  | float h hlt =>
    have hcond : (x : ℚ).den = 1 ∧ (x : ℚ).num.natAbs < 10 ^ 21 := ⟨rfl, hlt⟩
    rw [PointJson.marshalValue, floatToken, if_pos hcond]
    rfl

theorem natAbs_lt_of_inRange {n : ℤ} (h : T.InRange n) : n.natAbs ≤ 2 ^ 64 := by
  cases T <;> simp [IntType.InRange, IntType.lo, IntType.hi, IntType.bits] at h <;> omega

theorem Printed.natAbs_lt (h : Printed v x w) : w.natAbs < 2 ^ 200 := by
  cases h with
  | int h =>
    have := natAbs_lt_of_inRange h
    omega
  | float h hlt =>
    have := natAbs_shortestInt_le h
    omega

theorem decodeAny_printed (h : Printed v x w) :
    decodeAny (PointJson.marshalValue c v) = some (.float64 (roundInt w)) := by
  rw [h.marshalValue, decodeAny, scalarAny_number (isNumberToken_formatInt w),
    parseFloat_formatInt h.natAbs_lt, map_some]

theorem decodeToken_number {read : Bytes → Option GoValue} (hw : w.natAbs < 2 ^ 200) :
    decodeToken isNumberToken read (.scalar (formatInt w)) = (read (formatInt w)).getD (.float64 (roundInt w)) := by
  have hdef : decodeDefaultAny (.scalar (formatInt w)) = .float64 (roundInt w) := by
    rw [decodeDefaultAny, decodeAny, scalarAny_number (isNumberToken_formatInt w),
      parseFloat_formatInt hw, map_some, getD_some]
  rw [decodeToken, hdef, isNumberToken_formatInt, if_pos rfl]

theorem decodeValueByType_formatInt {dt : DataType} (hT : dt.intType? = some T)
    (hw : w.natAbs < 2 ^ 200) : decodeValueByType (some (.scalar (formatInt w))) dt =
      if (wide T).InRange w then .int T (T.wrap w) else .float64 (roundInt w) := by
  have hnull := ne_nullTok_of_number (isNumberToken_formatInt w)
  by_cases hr : (wide T).InRange w <;> cases dt <;> cases hT
  all_goals
    simp only [wide, IntType.signed, if_true, Bool.false_eq_true, if_false] at hr
    simp [decodeValueByType, decodeValueByType.byType, hnull, decodeSignedToken, decodeUnsignedToken, ofInt64, ofUint64,
      decodeToken_number hw, parseInt_formatInt, parseUint_formatInt, wide, IntType.signed, hr, IntType.wrap_eq_self]

theorem Printed.number (h : Printed v x w) : v.number = some (x : ℚ) := by
  cases h <;> rfl

/-- Only a value of the declared type that is written exactly survives the narrowing: a float64 with other digits is
too large for the narrow types, and the wide ones do not narrow. -/
theorem Printed.wrap_eq_iff (h : Printed v x w) (hr : (wide T).InRange w) : T.wrap w = x ↔ w = x ∧ T.InRange x := by
  constructor
  · intro hwrap
    have hx : T.InRange x := hwrap ▸ IntType.wrap_inRange T w
    refine ⟨?_, hx⟩
    cases h with
    | int h => rfl
    | float h hlt =>
      by_cases hT : wide T = T
      · rw [hT] at hr
        rwa [IntType.wrap_eq_self hr] at hwrap
      · refine shortestInt_of_lt ?_
        cases T <;> first | exact absurd rfl hT | skip
        all_goals
          simp [IntType.InRange, IntType.lo, IntType.hi, IntType.signed, IntType.bits] at hx
          omega
  · rintro ⟨rfl, hx⟩
    exact IntType.wrap_eq_self hx

/-- **When a data point keeps its number through JSON.** The value is written as the integer `w`. If `w` fits the
64-bit type of the declared sign, exactly if it has the digits of the value, which is one of the declared type;
otherwise `w` is read as a float64, and exactly if rounding gives the value back. -/
theorem decodePoint_number_iff {data : Bytes} {x w : ℤ} {T : IntType}
    (h : marshalPoint c p = some data) (hval : Printed p.value x w) (hT : p.type.intType? = some T) :
    ∃ p', decodePoint c data = some p' ∧ (p'.value.number = p.value.number ↔
      if (wide T).InRange w then w = x ∧ T.InRange x else roundInt w = x) := by
  have hfit : Fits (maxDepth - 1) (PointJson.marshalValue c p.value) := by
    rw [hval.marshalValue]
    exact validScalar_formatInt w
  refine ⟨_, decodePoint_marshalPoint h (decodeAny_printed hval) hfit, ?_⟩
  rw [hval.marshalValue, decodeValueByType_formatInt hT hval.natAbs_lt, hval.number]
  split_ifs with hr
  · rw [← hval.wrap_eq_iff hr, GoValue.number, some.injEq]
    exact_mod_cast Iff.rfl
  · rw [GoValue.number, some.injEq]
    exact_mod_cast Iff.rfl

def epochCodec : Codec where
  floatText _ := [0x30]
  float32Text _ := [0x30]
  formatTime t := if t = 0 then some [0x30] else none
  parseTime b := if b = [0x30] then some 0 else none
  parse_format t b h := by
    split_ifs at h with ht
    cases h
    simp [ht]
  time_bytes t b h := by
    split_ifs at h
    cases h
    simp [isTimeByte, isDigit]

/-- A reading that was scaled: a float64 with the raw type `int16`. -/
def scaledPoint (v : ℤ) : DataPoint :=
  { driver := "plc", device := "", group := "", tag := "flow", value := .float64 v, type := .int16,
    quality := .good, timestamp := 0, metadata := [], isStale := false }

theorem decodePoint_number_iff_scaled : ∃ data p', marshalPoint epochCodec (scaledPoint 250) = some data ∧
    decodePoint epochCodec data = some p' ∧ p'.value.number = some 250 := by
  obtain ⟨p', h1, h2⟩ := decodePoint_number_iff (c := epochCodec) (p := scaledPoint 250) (w := 250) rfl
    (Printed.float (v := 250) (by decide) (by decide)) rfl
  exact ⟨_, p', rfl, h1, h2.mpr (by decide)⟩

/-- A scaled reading outside the range of its raw type comes back as another number. -/
theorem decodePoint_scaled_wraps : ∃ data p', marshalPoint epochCodec (scaledPoint 70000) = some data ∧
    decodePoint epochCodec data = some p' ∧ p'.value = .int .int16 4464 ∧
      p'.value.number ≠ (scaledPoint 70000).value.number := by
  have hval : Printed (scaledPoint 70000).value 70000 70000 :=
    Printed.float (v := 70000) (by decide) (by decide)
  have hfit : Fits (maxDepth - 1) (PointJson.marshalValue epochCodec (scaledPoint 70000).value) := by
    exact validScalar_formatInt 70000
  have hvalue : decodeValueByType (some (PointJson.marshalValue epochCodec (scaledPoint 70000).value))
      .int16 = .int .int16 4464 := by
    rw [hval.marshalValue, decodeValueByType_formatInt rfl hval.natAbs_lt]
    rfl
  refine ⟨_, _, rfl, decodePoint_marshalPoint rfl (decodeAny_printed hval) hfit, hvalue, ?_⟩
  simp only [scaledPoint] at hvalue ⊢
  rw [hvalue]
  decide

end CoreC.Core.PointJson
