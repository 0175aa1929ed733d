import CoreC.Core.PointJson
import CoreC.Lib.Json.Line

/-! # Audit entries in JSON

`json.Marshal` and `json.Unmarshal` of a `WriteAuditEntry`. The type has no decoder of its own, so its value is read
back without a type.

* `printable_marshalAudit`: the text of an entry is one line. -/

namespace CoreC.Core.AuditJson

open Core.Types Core.Json Core.PointJson List
open Lib.Json.Lex Lib.Json.Text Lib.Json.Parse Lib.Json.Struct
open Lib.Json.Line

/-! ### Writing and reading -/

/-- The fields of `WriteAuditEntry`. -/
inductive AuditField where
  | timestamp | driver | device | tag | value | type | success | error | source | remote | raw
  deriving DecidableEq, Repr

def AuditField.name : AuditField → String
  | timestamp => "timestamp" | driver => "driver" | device => "device" | tag => "tag" | value => "value"
  | type => "type" | success => "success" | error => "error" | source => "source" | remote => "remote" | raw => "raw"

def AuditField.member (f : AuditField) (t : Doc) : Bytes × Doc := (quote f.name, t)

def AuditField.text (f : AuditField) (s : String) : Bytes × Doc := f.member (.scalar (quote s))

def AuditField.omitEmpty (f : AuditField) (s : String) : List (Bytes × Doc) := if s = "" then [] else [f.text s]

def boolTok (b : Bool) : Bytes := if b then trueTok else falseTok

def rawMembers (b : Bool) : List (Bytes × Doc) := if b then [AuditField.raw.member (.scalar trueTok)] else []

variable (c : Codec)

/-- The JSON form of an entry, `time` being the text of its timestamp. -/
def auditDoc (e : WriteAuditEntry) (time : Bytes) : Doc :=
  .obj ([AuditField.timestamp.member (.scalar (quoteByte :: (time ++ [quoteByte]))), AuditField.driver.text e.driver,
    AuditField.device.text e.device,
    AuditField.tag.text e.tag,
    AuditField.value.member (marshalValue c e.value),
    AuditField.type.text e.type.name,
    AuditField.success.member (.scalar (boolTok e.success))] ++
    (AuditField.error.omitEmpty e.error ++
      (AuditField.source.text e.source :: (AuditField.remote.omitEmpty e.remote ++ rawMembers e.raw))))

/-- `json.Marshal` of an entry; it fails for a time without a text. -/
def marshalAudit (e : WriteAuditEntry) : Option Bytes :=
  (c.formatTime e.timestamp).map fun time => render (auditDoc c e time)

/-- The struct `WriteAuditEntry`. -/
def auditSchema : Schema WriteAuditEntry AuditField where
  fields := [.timestamp, .driver, .device, .tag, .value, .type, .success, .error, .source, .remote, .raw]
  name := AuditField.name
  set
    | .timestamp => setTime c fun t e => { e with timestamp := t }
    | .driver => setString fun s e => { e with driver := s }
    | .device => setString fun s e => { e with device := s }
    | .tag => setString fun s e => { e with tag := s }
    | .value => fun t => (decodeAny t).map fun v e => { e with value := v }
    | .type => fun t => (unmarshalDataType t).map fun d e => { e with type := d }
    | .success => setBool fun b e => { e with success := b }
    | .error => setString fun s e => { e with error := s }
    | .source => setString fun s e => { e with source := s }
    | .remote => setString fun s e => { e with remote := s }
    | .raw => setBool fun b e => { e with raw := b }

/-- The zero `WriteAuditEntry`. -/
def zeroAudit : WriteAuditEntry :=
  { timestamp := -62135596800 * 10 ^ 9, driver := "", device := "", tag := "", value := .nil, type := .bool,
    success := false, error := "", source := "", remote := "", raw := false }

/-- `json.Unmarshal` into a `WriteAuditEntry`. -/
def decodeAudit (data : Bytes) : Option WriteAuditEntry :=
  (parse data).bind fun t => (auditSchema c).unmarshal t zeroAudit

/-! ### An entry is read back -/

section

variable {c : Codec} {e : WriteAuditEntry} {time : Bytes} {f : AuditField} {kvs : List (Bytes × Doc)}
  {q : WriteAuditEntry}

theorem fieldOf_audit (c : Codec) (f : AuditField) : (auditSchema c).fieldOf f.name = some f := by
  cases f <;> rfl

theorem fill_audit {t : Doc} {g : WriteAuditEntry → WriteAuditEntry} (h : (auditSchema c).set f t = some g) :
    (auditSchema c).fill (f.member t :: kvs) q = (auditSchema c).fill kvs (g q) :=
  Schema.fill_cons (fieldOf_audit c f) h

variable {put : String → WriteAuditEntry → WriteAuditEntry}

theorem fill_text {s : String}
    (h : (auditSchema c).set f = setString put) :
    (auditSchema c).fill (f.text s :: kvs) q = (auditSchema c).fill kvs (put s q) :=
  fill_audit (by rw [h, setString_quote])

theorem fill_omitEmpty {s : String}
    (h : (auditSchema c).set f = setString put) (hq : put "" q = q) :
    (auditSchema c).fill (f.omitEmpty s ++ kvs) q = (auditSchema c).fill kvs (put s q) := by
  unfold AuditField.omitEmpty
  split_ifs with hs
  · rw [hs, hq, nil_append]
  · exact fill_text h

theorem setBool_boolTok (put : Bool → WriteAuditEntry → WriteAuditEntry) (b : Bool) :
    setBool put (.scalar (boolTok b)) = some (put b) := by
  cases b <;> rfl

theorem fill_raw (b : Bool) (hq : q.raw = false) :
    (auditSchema c).fill (rawMembers b) q = some { q with raw := b } := by
  cases b with
  | false =>
    cases q
    cases hq
    rfl
  | true =>
    have hset : (auditSchema c).set .raw (.scalar trueTok) = some fun e => { e with raw := true } := rfl
    exact fill_audit hset

theorem fill_auditDoc {v : GoValue} (ht : c.formatTime e.timestamp = some time)
    (hv : decodeAny (marshalValue c e.value) = some v) :
    (auditSchema c).unmarshal (auditDoc c e time) zeroAudit = some { e with value := v } := by
  have htime : (auditSchema c).set .timestamp (.scalar (quoteByte :: (time ++ [quoteByte]))) =
      some fun q => { q with timestamp := e.timestamp } := by
    simp [auditSchema, setTime_text _ ht]
  have hvalue : (auditSchema c).set .value (marshalValue c e.value) = some fun q => { q with value := v } := by
    simp [auditSchema, hv]
  have htype : (auditSchema c).set .type (.scalar (quote e.type.name)) = some fun q => { q with type := e.type } := by
    simp [auditSchema, unmarshalDataType_name]
  have hsuccess : (auditSchema c).set .success (.scalar (boolTok e.success)) =
      some fun q => { q with success := e.success } := by
    simp [auditSchema, setBool_boolTok]
  have hdriver : (auditSchema c).set .driver = setString fun s q => { q with driver := s } := rfl
  have hdevice : (auditSchema c).set .device = setString fun s q => { q with device := s } := rfl
  have htag : (auditSchema c).set .tag = setString fun s q => { q with tag := s } := rfl
  have herror : (auditSchema c).set .error = setString fun s q => { q with error := s } := rfl
  have hsource : (auditSchema c).set .source = setString fun s q => { q with source := s } := rfl
  have hremote : (auditSchema c).set .remote = setString fun s q => { q with remote := s } := rfl
  unfold auditDoc Schema.unmarshal
  simp only [cons_append, nil_append]
  rw [fill_audit htime, fill_text hdriver, fill_text hdevice, fill_text htag, fill_audit hvalue,
    AuditField.text, fill_audit htype, fill_audit hsuccess, fill_omitEmpty herror rfl, fill_text hsource,
    fill_omitEmpty hremote rfl, fill_raw e.raw rfl]

theorem validScalar_boolTok (b : Bool) : ValidScalar (boolTok b) := by
  cases b
  · exact .inl rfl
  · exact .inl rfl

/-- What holds of every text and bool, and of the time and the value, holds of every member of an entry. -/
theorem forall_auditDoc {P : Doc → Prop} {kv : Bytes × Doc} (htext : ∀ s, P (.scalar (quote s)))
    (hbool : ∀ b, P (.scalar (boolTok b))) (htime : P (.scalar (quoteByte :: (time ++ [quoteByte]))))
    (hvalue : P (marshalValue c e.value)) (hdoc : auditDoc c e time = .obj kvs)
    (hkv : kv ∈ kvs) : (∃ f : AuditField, kv.1 = quote f.name) ∧ P kv.2 := by
  obtain rfl := Doc.obj.inj hdoc
  have hmember : ∀ {f : AuditField} {t : Doc}, kv = f.member t → P t →
      (∃ f : AuditField, kv.1 = quote f.name) ∧ P kv.2 := by
    rintro f t rfl ht
    exact ⟨⟨f, rfl⟩, ht⟩
  have homit : ∀ {f : AuditField} {s : String}, kv ∈ f.omitEmpty s →
      (∃ f : AuditField, kv.1 = quote f.name) ∧ P kv.2 := by
    intro f s h
    unfold AuditField.omitEmpty at h
    split_ifs at h
    · exact absurd h not_mem_nil
    · exact hmember (mem_singleton.mp h) (htext s)
  have hraw : kv ∈ rawMembers e.raw → (∃ f : AuditField, kv.1 = quote f.name) ∧ P kv.2 := by
    intro h
    unfold rawMembers at h
    split_ifs at h
    · exact hmember (mem_singleton.mp h) (hbool true)
    · exact absurd h not_mem_nil
  simp only [mem_append, mem_cons, not_mem_nil, or_false] at hkv
  rcases hkv with (h | h | h | h | h | h | h) | h | h | h | h
  · exact hmember h htime
  · exact hmember h (htext _)
  · exact hmember h (htext _)
  · exact hmember h (htext _)
  · exact hmember h hvalue
  · exact hmember h (htext _)
  · exact hmember h (hbool _)
  · exact homit h
  · exact hmember h (htext _)
  · exact homit h
  · exact hraw h

theorem fits_auditDoc (h : c.formatTime e.timestamp = some time) (hv : Fits (maxDepth - 1) (marshalValue c e.value)) :
    Fits maxDepth (auditDoc c e time) := by
  refine ⟨by decide, (fitsMembers_iff _).mpr fun kv hkv => ?_⟩
  obtain ⟨⟨f, hf⟩, hfit⟩ := forall_auditDoc (P := Fits (maxDepth - 1)) validScalar_quote validScalar_boolTok
    (validScalar_time h) hv rfl hkv
  exact ⟨hf ▸ ⟨validScalar_quote f.name, rfl⟩, hfit⟩

/-- **An entry is read back with its value decoded without a type.** -/
theorem decodeAudit_marshalAudit {v : GoValue} {data : Bytes} (h : marshalAudit c e = some data)
    (hv : decodeAny (marshalValue c e.value) = some v) (hfit : Fits (maxDepth - 1) (marshalValue c e.value)) :
    decodeAudit c data = some { e with value := v } := by
  obtain ⟨time, ht, rfl⟩ := Option.map_eq_some_iff.mp h
  rw [decodeAudit, parse_render (fits_auditDoc ht hfit), Option.bind_some, fill_auditDoc ht hv]

/-- The value is written as a document that is decoded, without a type, to the value itself. -/
def Plain (c : Codec) (v : GoValue) : Prop :=
  Fits (maxDepth - 1) (marshalValue c v) ∧ decodeAny (marshalValue c v) = some v

theorem plain_bool (c : Codec) (b : Bool) : Plain c (.bool b) := by
  cases b
  · exact ⟨.inl rfl, rfl⟩
  · exact ⟨.inl rfl, rfl⟩

end

/-! ### One line -/

/-- A codec whose numbers are written without control characters. -/
structure LineCodec extends Codec where
  float_line : ∀ q, Printable (floatText q)
  float32_line : ∀ q, Printable (float32Text q)

section

variable (c : LineCodec)

theorem printable_boolTok (b : Bool) : Printable (boolTok b) := by
  cases b <;> decide

theorem printable_floatToken (q : ℚ) : Printable (floatToken c.toCodec q) := by
  unfold floatToken
  split_ifs
  · exact printable_formatInt _
  · exact c.float_line q

mutual

theorem printable_marshalValue : ∀ v, PrintableDoc (marshalValue c.toCodec v)
  | .nil => printable_scalar (by decide)
  | .bool b => printable_scalar (printable_boolTok b)
  | .int _ v => printable_scalar (printable_formatInt v)
  | .float32 q => printable_scalar (c.float32_line q)
  | .float64 q => printable_scalar (printable_floatToken c q)
  | .string s => printable_scalar (printable_quote s)
  | .bytes b => printable_scalar (printable_quote _)
  | .slice xs => printable_arr (printable_marshalElems xs)
  | .map kvs => printable_obj (printable_marshalMembers kvs)

theorem printable_marshalElems : ∀ xs, ∀ x ∈ marshalElems c.toCodec xs, PrintableDoc x
  | [] => fun _ h => absurd h not_mem_nil
  | x :: xs => forall_mem_cons.mpr ⟨printable_marshalValue x, printable_marshalElems xs⟩

theorem printable_marshalMembers : ∀ kvs : List (String × GoValue), ∀ kv ∈ marshalMembers c.toCodec kvs,
    Printable kv.1 ∧ PrintableDoc kv.2
  | [] => fun _ h => absurd h not_mem_nil
  | (k, v) :: kvs =>
    forall_mem_cons.mpr ⟨⟨printable_quote k, printable_marshalValue v⟩, printable_marshalMembers kvs⟩

end

theorem printable_marshalAudit {e : WriteAuditEntry} {data : Bytes} (h : marshalAudit c.toCodec e = some data) :
    Printable data := by
  obtain ⟨time, ht, rfl⟩ := Option.map_eq_some_iff.mp h
  refine printable_render (printable_obj fun kv hkv => ?_)
  have htime : Printable (quoteByte :: (time ++ [quoteByte])) := printable_quoted fun b hb => (plain_time ht b hb).2.2
  obtain ⟨⟨f, hf⟩, hdoc⟩ := forall_auditDoc (P := PrintableDoc) (fun s => printable_scalar (printable_quote s))
    (fun b => printable_scalar (printable_boolTok b)) (printable_scalar htime) (printable_marshalValue c e.value)
    rfl hkv
  exact ⟨hf ▸ printable_quote f.name, hdoc⟩

end

end CoreC.Core.AuditJson
