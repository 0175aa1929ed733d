import CoreC.Config.Parse
import CoreC.Core.PointJson
import CoreC.Engine.Offline
import CoreC.Lib.OptionList

/-! # The entries of the offline buffer in JSON

`offlineEntry` as `Push` writes it and `Drain` reads it. A point of the pipeline has any integer for its
data type: that of a derived tag is the code of the configuration, which the YAML decoder does not check. A
code without a name is written as `unknown`, and no such type is read back. -/

namespace CoreC.Engine.OfflineEntry

open Config Core.Types Core.Json Core.PointJson List Option
open Engine.Offline Lib Lib.GoInt Lib.Float64 Lib.OptionList
open Lib.Json.Lex Lib.Json.Text Lib.Json.Parse
open Lib.Json.Number Lib.Json.Struct

/-! ### Values -/

def IsFloat (f : Format) (q : ℚ) : Prop := f.round q.num.natAbs q.den = some |q|

/-- The texts of the standard library, those of fractional numbers being JSON numbers that a float64 can be
read from. -/
structure NumberCodec extends Codec where
  float_text : ∀ q, IsFloat float64 q → ValidScalar (floatText q) ∧ isNumberToken (floatText q) = true ∧
    (parseFloat float64 (floatText q)).isSome = true
  float32_text : ∀ q, IsFloat float32 q → ValidScalar (float32Text q) ∧ isNumberToken (float32Text q) = true ∧
    (parseFloat float64 (float32Text q)).isSome = true

mutual

/-- The numbers are in the range of their types, and at most `d` containers are nested. -/
def Storable (d : ℕ) : GoValue → Prop
  | .int t v => t.InRange v
  | .float32 q => IsFloat float32 q
  | .float64 q => IsFloat float64 q
  | .slice xs => 1 ≤ d ∧ StorableElems (d - 1) xs
  | .map kvs => 1 ≤ d ∧ StorableMembers (d - 1) kvs
  | _ => True

def StorableElems (d : ℕ) : List GoValue → Prop
  | [] => True
  | x :: xs => Storable d x ∧ StorableElems d xs

def StorableMembers (d : ℕ) : List (String × GoValue) → Prop
  | [] => True
  | (_, v) :: kvs => Storable d v ∧ StorableMembers d kvs

end

variable {c : NumberCodec} {d : ℕ}

theorem roundInt_of_isFloat {q : ℚ} (h : IsFloat float64 q) (hden : q.den = 1) (hlt : q.num.natAbs < 10 ^ 21) :
    roundInt q.num = q.num := by
  have hsmall : q.num.natAbs < 2 ^ 200 := hlt.trans (by decide)
  rw [IsFloat, hden, round_nat hsmall, some.injEq] at h
  have habs : |q| = (q.num.natAbs : ℚ) := by
    rw [Nat.cast_natAbs, Int.cast_abs, (Rat.den_eq_one_iff q).mp hden]
  have hnat : roundNat q.num.natAbs = q.num.natAbs := by exact_mod_cast h.trans habs
  rw [roundInt, hnat, Int.sign_mul_natAbs]

theorem floatToken_spec {q : ℚ} (h : IsFloat float64 q) :
    ValidScalar (floatToken c.toCodec q) ∧ (scalarAny (floatToken c.toCodec q)).isSome = true := by
  rw [floatToken]
  split_ifs with hint
  · have hround := roundInt_of_isFloat h hint.1 hint.2
    have hlt : (shortestInt q.num).natAbs < 2 ^ 200 := by
      have := natAbs_shortestInt_le hround
      omega
    refine ⟨validScalar_formatInt _, ?_⟩
    rw [scalarAny_number (isNumberToken_formatInt _), parseFloat_formatInt hlt]
    rfl
  · obtain ⟨hvalid, htoken, hparse⟩ := c.float_text q h
    refine ⟨hvalid, ?_⟩
    rw [scalarAny_number htoken, isSome_map]
    exact hparse

mutual

/-- **A storable value is written as a document** that is not too deep. -/
theorem fits_marshalValue : ∀ {v : GoValue} {d : ℕ}, Storable d v → Fits d (marshalValue c.toCodec v)
  | .nil, _, _ => .inl rfl
  | .bool b, _, _ => by
    cases b
    · exact .inl rfl
    · exact .inl rfl
  | .int _ v, _, _ => validScalar_formatInt v
  | .float32 q, _, h => (c.float32_text q h).1
  | .float64 q, _, h => (floatToken_spec h).1
  | .string s, _, _ => validScalar_quote s
  | .bytes b, _, _ => validScalar_quote _
  | .slice xs, _, h => ⟨h.1, fits_marshalElems h.2⟩
  | .map kvs, _, h => ⟨h.1, fits_marshalMembers h.2⟩

theorem fits_marshalElems : ∀ {xs : List GoValue} {d : ℕ}, StorableElems d xs → FitsElems d (marshalElems c.toCodec xs)
  | [], _, _ => trivial
  | _ :: _, _, h => ⟨fits_marshalValue h.1, fits_marshalElems h.2⟩

theorem fits_marshalMembers : ∀ {kvs : List (String × GoValue)} {d : ℕ}, StorableMembers d kvs →
    FitsMembers d (marshalMembers c.toCodec kvs)
  | [], _, _ => trivial
  | (k, _) :: _, _, h => ⟨⟨validScalar_quote k, rfl⟩, fits_marshalValue h.1, fits_marshalMembers h.2⟩

end

mutual

/-- **A storable value is read back**, as some value. -/
theorem decodeAny_marshalValue : ∀ {v : GoValue} {d : ℕ}, Storable d v →
    (decodeAny (marshalValue c.toCodec v)).isSome = true
  | .nil, _, _ => rfl
  | .bool b, _, _ => by
    cases b
    · rfl
    · rfl
  | .int t v, _, h => by
    have hlt : v.natAbs < 2 ^ 200 := (natAbs_lt_of_inRange h).trans_lt (by decide)
    rw [marshalValue, decodeAny, scalarAny_number (isNumberToken_formatInt v), parseFloat_formatInt hlt]
    rfl
  | .float32 q, _, h => by
    obtain ⟨-, htoken, hparse⟩ := c.float32_text q h
    rw [marshalValue, decodeAny, scalarAny_number htoken, isSome_map]
    exact hparse
  | .float64 q, _, h => by
    rw [marshalValue, decodeAny]
    exact (floatToken_spec h).2
  | .string s, _, _ => rfl
  | .bytes b, _, _ => rfl
  | .slice xs, _, h => by
    rw [marshalValue, decodeAny, isSome_map]
    exact decodeElems_marshalElems h.2
  | .map kvs, _, h => by
    rw [marshalValue, decodeAny, isSome_map]
    exact decodeMembers_marshalMembers h.2

theorem decodeElems_marshalElems : ∀ {xs : List GoValue} {d : ℕ}, StorableElems d xs →
    (decodeElems (marshalElems c.toCodec xs)).isSome = true
  | [], _, _ => rfl
  | x :: xs, _, h => by
    obtain ⟨v, hv⟩ := isSome_iff_exists.mp (decodeAny_marshalValue h.1)
    rw [marshalElems, decodeElems, hv, bind_some, isSome_map]
    exact decodeElems_marshalElems h.2

theorem decodeMembers_marshalMembers : ∀ {kvs : List (String × GoValue)} {d : ℕ}, StorableMembers d kvs →
    (decodeMembers (marshalMembers c.toCodec kvs)).isSome = true
  | [], _, _ => rfl
  | (k, x) :: kvs, _, h => by
    obtain ⟨v, hv⟩ := isSome_iff_exists.mp (decodeAny_marshalValue h.1)
    rw [marshalMembers, decodeMembers, hv, bind_some, isSome_map]
    exact decodeMembers_marshalMembers h.2

end

/-! ### Points -/

def valueDepth : ℕ := maxDepth - 3

/-- A `core.DataPoint` of the pipeline: its data type is an int. -/
structure EnginePoint where
  driver : String
  device : String := ""
  group : String := ""
  tag : String
  value : GoValue
  type : ℤ
  quality : Quality := .good
  timestamp : ℤ
  metadata : List (String × String) := []
  isStale : Bool := false
  value_ok : Storable valueDepth value

def EnginePoint.named (p : EnginePoint) (d : DataType) : DataPoint where
  driver := p.driver
  device := p.device
  group := p.group
  tag := p.tag
  value := p.value
  type := d
  quality := p.quality
  timestamp := p.timestamp
  metadata := p.metadata
  isStale := p.isStale

/-- `DataType.String`. -/
def typeName (code : ℤ) : String := ((dataTypeOfCode code).map DataType.name).getD "unknown"

/-- The JSON form of a point, `time` being the text of its timestamp. -/
def engineDoc (c : Codec) (p : EnginePoint) (time : Bytes) : Doc :=
  .obj ([PointField.driver.member (.scalar (quote p.driver)), PointField.device.member (.scalar (quote p.device)),
    PointField.group.member (.scalar (quote p.group)),
    PointField.tag.member (.scalar (quote p.tag)),
    PointField.value.member (marshalValue c p.value),
    PointField.type.member (.scalar (quote (typeName p.type))),
    PointField.quality.member (.scalar (formatInt (qualityCode p.quality))),
    PointField.timestamp.member (.scalar (quoteByte :: (time ++ [quoteByte])))] ++
    (metadataMembers p.metadata ++ staleMembers p.isStale))

/-- `json.Marshal` of a point, as a document; it fails for a time without a text. -/
def marshalEnginePoint (c : Codec) (p : EnginePoint) : Option Doc :=
  (c.formatTime p.timestamp).map (engineDoc c p)

variable {p : EnginePoint} {time : Bytes}

theorem engineDoc_named {t : DataType} (h : dataTypeOfCode p.type = some t) :
    engineDoc c.toCodec p time = pointDoc c.toCodec (p.named t) time := by
  have hname : typeName p.type = t.name := by rw [typeName, h, map_some, getD_some]
  rw [engineDoc, hname]
  rfl

theorem unmarshalDataType_unknown : unmarshalDataType (.scalar (quote "unknown")) = none := by
  simp only [unmarshalDataType, isString_quote, unquote_quote]
  decide

/-- **The type of a point that is read back** is the one of its code. -/
theorem unmarshalPoint_engineDoc (h : c.formatTime p.timestamp = some time) :
    (unmarshalPoint c.toCodec (engineDoc c.toCodec p time)).map DataPoint.type = dataTypeOfCode p.type := by
  cases htype : dataTypeOfCode p.type with
  | some t =>
    obtain ⟨v, hv⟩ := isSome_iff_exists.mp (decodeAny_marshalValue (c := c) p.value_ok)
    rw [engineDoc_named htype, unmarshalPoint, fill_pointDoc (p := p.named t) h hv]
    rfl
  | none =>
    have hname : typeName p.type = "unknown" := by rw [typeName, htype]; rfl
    have hnone : (pointSchema c.toCodec).unmarshal (engineDoc c.toCodec p time) zeroPoint = none := by
      refine Schema.fill_eq_none_iff.mpr ⟨PointField.type.member (.scalar (quote (typeName p.type))), ?_, .type, ?_, ?_⟩
      · simp
      · rw [PointField.member]
        exact fieldOf_name c.toCodec .type
      · simp [PointField.member, pointSchema, hname, unmarshalDataType_unknown]
    rw [unmarshalPoint, hnone]
    rfl

theorem fits_engineDoc (h : c.formatTime p.timestamp = some time) :
    Fits (maxDepth - 2) (engineDoc c.toCodec p time) := by
  have hvalue : Fits (maxDepth - 2 - 1) (marshalValue c.toCodec p.value) := fits_marshalValue p.value_ok
  refine ⟨by decide, (fitsMembers_iff _).mpr ?_⟩
  simp only [cons_append, nil_append, forall_mem_cons]
  exact ⟨fits_member (fits_string _ _), fits_member (fits_string _ _), fits_member (fits_string _ _),
    fits_member (fits_string _ _), fits_member hvalue, fits_member (fits_string _ _),
    fits_member (validScalar_formatInt _), fits_member (validScalar_time h), fits_optional (by decide) _ _⟩

/-! ### Entries -/

/-- The fields of `offlineEntry`. -/
inductive EntryField where
  | seq | time | points | source
  deriving DecidableEq, Repr

def EntryField.name : EntryField → String
  | .seq => "seq" | .time => "time" | .points => "points" | .source => "source"

def EntryField.member (f : EntryField) (t : Doc) : Bytes × Doc := (quote f.name, t)

/-- The JSON form of an entry, `time` being the text of its time. -/
def entryDoc (seq : ℕ) (time : Bytes) (points : List Doc) (source : String) : Doc :=
  .obj [EntryField.seq.member (.scalar (formatInt seq)),
    EntryField.time.member (.scalar (quoteByte :: (time ++ [quoteByte]))),
    EntryField.points.member (.arr points),
    EntryField.source.member (.scalar (quote source))]

/-- `json.Marshal` of an entry. -/
def marshalEntry (c : Codec) (e : Entry EnginePoint) : Option Bytes := do
  let time ← c.formatTime e.time
  let points ← e.points.mapM (marshalEnginePoint c)
  return render (entryDoc e.seq time points e.source)

def setUint {σ : Type} (put : ℤ → σ → σ) : Doc → Option (σ → σ)
  | .scalar tok => if tok = nullTok then some id else (parseUint tok).map put
  | _ => none

/-- A field of type `[]DataPoint`. -/
def setPoints {σ : Type} (c : Codec) (put : List DataPoint → σ → σ) : Doc → Option (σ → σ)
  | .arr xs => (xs.mapM (unmarshalPoint c)).map put
  | .scalar tok => if tok = nullTok then some (put []) else none
  | .obj _ => none

/-- The struct `offlineEntry`. -/
def entrySchema (c : Codec) : Schema (Entry DataPoint) EntryField where
  fields := [.seq, .time, .points, .source]
  name := EntryField.name
  set
    | .seq => setUint fun n e => { e with seq := n.toNat }
    | .time => setTime c fun t e => { e with time := t }
    | .points => setPoints c fun ps e => { e with points := ps }
    | .source => setString fun s e => { e with source := s }

/-- The zero `offlineEntry`. -/
def zeroEntry : Entry DataPoint := ⟨0, zeroPoint.timestamp, [], ""⟩

/-- `json.Unmarshal` into an `offlineEntry`. -/
def unmarshalEntry (c : Codec) (data : Bytes) : Option (Entry DataPoint) :=
  (parse data).bind fun t => (entrySchema c).unmarshal t zeroEntry

theorem entry_fieldOf (c : Codec) (f : EntryField) : (entrySchema c).fieldOf f.name = some f := by
  cases f <;> rfl

variable {e : Entry EnginePoint} {e' : Entry DataPoint} {data : Bytes}

theorem marshalEntry_eq_some (h : marshalEntry c.toCodec e = some data) : ∃ time docs, c.formatTime e.time = some time ∧
      List.Forall₂ (fun p doc => marshalEnginePoint c.toCodec p = some doc) e.points docs ∧
      data = render (entryDoc e.seq time docs e.source) := by
  obtain ⟨time, htime, h⟩ := bind_eq_some_iff.mp h
  obtain ⟨docs, hdocs, h⟩ := bind_eq_some_iff.mp h
  exact ⟨time, docs, htime, mapM_eq_some hdocs, (some.inj h).symm⟩

variable {docs : List Doc}

theorem fits_entryDoc {source : String} {seq : ℕ} (htime : c.formatTime e.time = some time)
    (hdocs : ∀ doc ∈ docs, Fits (maxDepth - 2) doc) : Fits maxDepth (entryDoc seq time docs source) := by
  have hkey : ∀ f : EntryField, ValidKey (quote f.name) := fun f => ⟨validScalar_quote f.name, rfl⟩
  have htext : ValidScalar (quoteByte :: (time ++ [quoteByte])) :=
    validScalar_time htime
  exact ⟨by decide, hkey _, validScalar_formatInt _, hkey _, htext, hkey _,
    ⟨by decide, (fitsElems_iff _).mpr hdocs⟩, hkey _, validScalar_quote source, trivial⟩

variable {ps : List EnginePoint}

theorem fits_points
    (h : List.Forall₂ (fun p doc => marshalEnginePoint c.toCodec p = some doc) ps docs) :
    ∀ doc ∈ docs, Fits (maxDepth - 2) doc := by
  induction h with
  | nil => exact fun doc hdoc => absurd hdoc not_mem_nil
  | cons hp _ ih =>
    obtain ⟨t, ht, rfl⟩ := map_eq_some_iff.mp hp
    exact forall_mem_cons.mpr ⟨fits_engineDoc ht, ih⟩

/-- **What is read from a file** is read from the document that was written. -/
theorem unmarshalEntry_marshalEntry (h : marshalEntry c.toCodec e = some data) :
    ∃ time docs, c.formatTime e.time = some time ∧
      List.Forall₂ (fun p doc => marshalEnginePoint c.toCodec p = some doc) e.points docs ∧
      unmarshalEntry c.toCodec data =
        (entrySchema c.toCodec).unmarshal (entryDoc e.seq time docs e.source) zeroEntry := by
  obtain ⟨time, docs, htime, hdocs, rfl⟩ := marshalEntry_eq_some h
  refine ⟨time, docs, htime, hdocs, ?_⟩
  rw [unmarshalEntry, parse_render (fits_entryDoc htime (fits_points hdocs)), bind_some]

/-- **The source of an entry that is read back** is the one that was written. -/
theorem source_unmarshalEntry (h : marshalEntry c.toCodec e = some data)
    (h' : unmarshalEntry c.toCodec data = some e') : e'.source = e.source := by
  obtain ⟨time, docs, -, -, hread⟩ := unmarshalEntry_marshalEntry h
  rw [hread] at h'
  -- each member was accepted, and the last one is the source
  obtain ⟨g₁, -, h'⟩ := Schema.fill_cons_eq_some (entry_fieldOf c.toCodec .seq) h'
  obtain ⟨g₂, -, h'⟩ := Schema.fill_cons_eq_some (entry_fieldOf c.toCodec .time) h'
  obtain ⟨g₃, -, h'⟩ := Schema.fill_cons_eq_some (entry_fieldOf c.toCodec .points) h'
  obtain ⟨g₄, hg₄, h'⟩ := Schema.fill_cons_eq_some (entry_fieldOf c.toCodec .source) h'
  simp only [entrySchema, setString_quote, some.injEq] at hg₄
  subst hg₄
  cases h'
  rfl

def offlineCodec (c : NumberCodec) : EntryCodec EnginePoint DataPoint where
  marshal := marshalEntry c.toCodec
  unmarshal := unmarshalEntry c.toCodec
  source_kept _ _ _ h h' := source_unmarshalEntry h h'

theorem types_unmarshalPoints
    (h : List.Forall₂ (fun p doc => marshalEnginePoint c.toCodec p = some doc) ps docs) :
    (docs.mapM (unmarshalPoint c.toCodec)).map (List.map DataPoint.type) = ps.mapM fun p => dataTypeOfCode p.type := by
  induction h with
  | nil => rfl
  | @cons p doc ps docs hp _ ih =>
    obtain ⟨t, ht, rfl⟩ := map_eq_some_iff.mp hp
    rw [mapM_cons, mapM_cons, ← ih, ← unmarshalPoint_engineDoc ht]
    cases unmarshalPoint c.toCodec (engineDoc c.toCodec p t) with
    | none => rfl
    | some q =>
      cases docs.mapM (unmarshalPoint c.toCodec) with
      | none | some => rfl

theorem types_unmarshalEntry (hseq : e.seq < 2 ^ 64) (h : marshalEntry c.toCodec e = some data) :
    (unmarshalEntry c.toCodec data).map (fun e' => e'.points.map DataPoint.type) =
      e.points.mapM fun p => dataTypeOfCode p.type := by
  obtain ⟨time, docs, htime, hdocs, hread⟩ := unmarshalEntry_marshalEntry h
  have hseq' : (entrySchema c.toCodec).set .seq (.scalar (formatInt e.seq)) =
      some fun e' => { e' with seq := e.seq } := by
    have hrange : IntType.uint64.InRange (e.seq : ℤ) := by
      have hlo : IntType.uint64.lo = 0 := rfl
      have hhi : IntType.uint64.hi = 2 ^ 64 := rfl
      rw [IntType.InRange]
      omega
    simp [entrySchema, setUint, ne_nullTok_of_number (isNumberToken_formatInt _), parseUint_formatInt, hrange]
  have htime' : (entrySchema c.toCodec).set .time (.scalar (quoteByte :: (time ++ [quoteByte]))) =
      some fun e' => { e' with time := e.time } := by
    simp [entrySchema, setTime_text _ htime]
  have hsource : (entrySchema c.toCodec).set .source (.scalar (quote e.source)) =
      some fun e' => { e' with source := e.source } := by
    simp [entrySchema, setString_quote]
  have hfill : (entrySchema c.toCodec).unmarshal (entryDoc e.seq time docs e.source) zeroEntry =
      (entrySchema c.toCodec).fill
        [EntryField.points.member (.arr docs), EntryField.source.member (.scalar (quote e.source))]
        { zeroEntry with seq := e.seq, time := e.time } :=
    (Schema.fill_cons (entry_fieldOf c.toCodec .seq) hseq').trans
      (Schema.fill_cons (entry_fieldOf c.toCodec .time) htime')
  rw [hread, hfill, ← types_unmarshalPoints hdocs]
  cases hpoints : docs.mapM (unmarshalPoint c.toCodec) with
  | none =>
    have hnone : (entrySchema c.toCodec).set .points (.arr docs) = none := by
      simp [entrySchema, setPoints, hpoints]
    rw [Schema.fill_cons_none]
    · rfl
    · simp [Schema.member, EntryField.member, entry_fieldOf, hnone]
  | some qs =>
    have hpoints' : (entrySchema c.toCodec).set .points (.arr docs) = some fun e' => { e' with points := qs } := by
      simp [entrySchema, setPoints, hpoints]
    rw [EntryField.member, Schema.fill_cons (entry_fieldOf c.toCodec .points) hpoints', EntryField.member,
      Schema.fill_cons (entry_fieldOf c.toCodec .source) hsource]
    rfl

/-! ### What the engine produces -/

def derivedDriverName : String := "derived"

def tagType (tag : TagConfig) : DataType := (parseDataType tag.type).getD .bool

/-- A point of a driver, as `onDriverData` builds it. -/
structure DriverPoint (driver : DriverConfig) (tag : TagConfig) (p : EnginePoint) : Prop where
  driver_eq : p.driver = driver.name
  tag_eq : p.tag = tag.name
  type_eq : dataTypeOfCode p.type = some (tagType tag) ∨ dataTypeOfCode p.type = some .bool

/-- A point of a derived tag, as `evaluate` builds it. -/
structure DerivedPoint (t : DerivedTagConfig) (p : EnginePoint) : Prop where
  driver_eq : p.driver = derivedDriverName
  tag_eq : p.tag = t.name
  group_eq : p.group = t.group
  value_eq : ∃ q, p.value = .float64 q
  type_eq : p.type = t.type
  metadata_eq : p.metadata = if t.unit = "" then [] else [("unit", t.unit)]

/-- What `processPoint` leaves of a point on its way to a transport: `applyTransform` may rename the tag and compute
another value, a policy may take the value away, and `pointWithRule` adds the rule. -/
structure Routed (p q : EnginePoint) : Prop where
  driver : q.driver = p.driver
  device : q.device = p.device
  group : q.group = p.group
  type : q.type = p.type
  quality : q.quality = p.quality
  timestamp : q.timestamp = p.timestamp
  isStale : q.isStale = p.isStale

/-- A point of the derived tag is handed over. -/
def OfDerived (t : DerivedTagConfig) (q : EnginePoint) : Prop := ∃ p, DerivedPoint t p ∧ Routed p q

/-- **The points the engine hands to `Push`**, from a configuration. -/
inductive Produced (cfg : FullConfig) (q : EnginePoint) : Prop
  | driver {driver : DriverConfig} {tag : TagConfig} {p : EnginePoint} (hdriver : driver ∈ cfg.drivers)
      (htag : tag ∈ driver.tags) (hp : DriverPoint driver tag p) (hrouted : Routed p q)
  | derived {t : DerivedTagConfig} (ht : t ∈ cfg.derivedTags) (hq : OfDerived t q)

/-- The points are read back with their types. -/
def Replayed (c : NumberCodec) (e : Entry EnginePoint) (data : Bytes) : Prop :=
  ∃ e', (offlineCodec c).unmarshal data = some e' ∧
    e'.points.map (fun q => some q.type) = e.points.map fun p => dataTypeOfCode p.type

/-- **When what is stored can be replayed**: a batch of points that the engine produces decodes again, with
the same types, exactly if the type of every derived tag with a point in it has a name. -/
theorem replayable_iff (c : NumberCodec) (cfg : FullConfig) (e : Entry EnginePoint) (data : Bytes)
    (hseq : e.seq < 2 ^ 64) (hproduced : ∀ p ∈ e.points, Produced cfg p)
    (hdata : (offlineCodec c).marshal e = some data) :
    Replayed c e data ↔
      ∀ t ∈ cfg.derivedTags, (∃ p ∈ e.points, OfDerived t p) → ∃ d, dataTypeOfCode t.type = some d := by
  constructor
  · rintro ⟨e', -, hsame⟩ t - ⟨p, hp, built, hderived, hrouted⟩
    have hmem : dataTypeOfCode p.type ∈ e'.points.map fun q => some q.type := by
      rw [hsame]
      exact mem_map_of_mem hp
    obtain ⟨q, -, hq⟩ := mem_map.mp hmem
    exact ⟨q.type, by rw [← hderived.type_eq, ← hrouted.type, ← hq]⟩
  · intro hnamed
    have hall : ∀ p ∈ e.points, ∃ d, dataTypeOfCode p.type = some d := by
      intro p hp
      cases hproduced p hp with
      | driver _ _ hpoint hrouted =>
        rw [hrouted.type]
        rcases hpoint.type_eq with htype | htype
        · exact ⟨_, htype⟩
        · exact ⟨_, htype⟩
      | derived ht hof =>
        obtain ⟨d, hd⟩ := hnamed _ ht ⟨p, hp, hof⟩
        obtain ⟨built, hpoint, hrouted⟩ := hof
        exact ⟨d, by rw [hrouted.type, hpoint.type_eq, hd]⟩
    obtain ⟨types, hmap, hsame⟩ := mapM_of_forall hall
    have htypes := types_unmarshalEntry hseq hdata
    rw [hmap] at htypes
    obtain ⟨e', he', hpoints⟩ := map_eq_some_iff.mp htypes
    refine ⟨e', he', ?_⟩
    rw [← hsame, ← hpoints, List.map_map]
    rfl

/-! ### A type without a name -/

def zeroCodec : NumberCodec where
  toCodec := epochCodec
  float_text _ _ := ⟨validScalar_formatInt 0, rfl, by show (parseFloat float64 [0x30]).isSome = true; decide +kernel⟩
  float32_text _ _ := ⟨validScalar_formatInt 0, rfl, by show (parseFloat float64 [0x30]).isSome = true; decide +kernel⟩

def bareWorld : Parse.World Yaml.Tree where
  lookupEnv _ := none
  readFile _ := none
  parseFloat _ := none

def derivedDoc (type : Yaml.Scalar) : Yaml.Tree :=
  .map [("derived-tags", .seq [.map [("name", Parse.text "power"), ("expr", Parse.text "plc.u * plc.i"),
    ("type", .scalar type), ("interval", Parse.text "1s")]])]

variable (type : ℤ)

def derivedConfig : FullConfig where
  derivedTags := [{ name := "power", expr := "plc.u * plc.i", type := type, interval := "1s" }]

/-- The point of the derived tag. -/
def powerBuilt : EnginePoint where
  driver := "derived"
  tag := "power"
  value := .float64 5
  type := type
  timestamp := 0
  value_ok := by
    show float64.round 5 1 = some |5|
    decide +kernel

/-- The point as the rule `all` forwards it. -/
def powerPoint : EnginePoint := { powerBuilt type with metadata := [("rule", "all")] }

def powerEntry : Entry EnginePoint := ⟨1, 0, [powerPoint type], "cloud"⟩

theorem ofDerived_powerPoint : ∀ t ∈ (derivedConfig type).derivedTags, OfDerived t (powerPoint type) := by
  intro t ht
  rw [mem_singleton.mp ht]
  exact ⟨powerBuilt type, ⟨rfl, rfl, rfl, ⟨5, rfl⟩, rfl, rfl⟩, ⟨rfl, rfl, rfl, rfl, rfl, rfl, rfl⟩⟩

theorem produced_powerEntry : ∀ p ∈ (powerEntry type).points, Produced (derivedConfig type) p := by
  intro p hp
  rw [mem_singleton.mp hp]
  exact .derived (mem_singleton_self _) (ofDerived_powerPoint type _ (mem_singleton_self _))

/-- A derived tag of type `float64` is replayed. -/
theorem replayable_iff_power : ∃ data, (offlineCodec zeroCodec).marshal (powerEntry 10) = some data ∧
    Replayed zeroCodec (powerEntry 10) data := by
  refine ⟨_, rfl, (replayable_iff zeroCodec (derivedConfig 10) (powerEntry 10) _ (by decide)
    (produced_powerEntry 10) rfl).mpr fun t ht _ => ⟨.float64, ?_⟩⟩
  rw [mem_singleton.mp ht]
  decide

/-- **A batch that CoreC wrote is removed as corrupt**: the configuration with `type: 99` is accepted, the
point of its derived tag is written, and the file does not decode. -/
theorem unnamed_type_corrupt : Parse.load bareWorld Parse.exactConv Parse.treeText (fun _ => some 1) Parse.plantRegistry
        (derivedDoc (.int 99)) = some (derivedConfig 99) ∧
      (∀ p ∈ (powerEntry 99).points, Produced (derivedConfig 99) p) ∧
      ∃ data, (offlineCodec zeroCodec).marshal (powerEntry 99) = some data ∧
        (offlineCodec zeroCodec).unmarshal data = none := by
  have hsome : ((offlineCodec zeroCodec).marshal (powerEntry 99)).isSome = true := rfl
  obtain ⟨data, hdata⟩ := isSome_iff_exists.mp hsome
  have htypes := types_unmarshalEntry (by decide) hdata
  exact ⟨by decide +kernel, produced_powerEntry 99, data, hdata, map_eq_none_iff.mp htypes⟩

end CoreC.Engine.OfflineEntry
