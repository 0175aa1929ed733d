import CoreC.Core.Json

/-! # The signed form of a command

`commandSigningBytes` and `canonicalRawJSON` (`transport/mqtt/command_handler.go`): the payload as a map from its decoded
keys to raw values, without the signature fields, every nested object canonicalised the same way, written by
`json.Marshal`, which copies a raw value with the characters escaped that are special in HTML (`escapeDoc`).

* `canonical_canonical`: canonical values stay as they are. -/

namespace CoreC.Mqtt.Signing

open Lib Lib.Json.Lex Lib.Json.Text Lib.Json.Escape Lib.Json.Parse List
open Lib.Json.Struct

mutual

/-- A raw value as `json.Marshal` copies it. -/
def escapeDoc : Doc → Doc
  | .scalar tok => .scalar (escapeTok tok)
  | .arr xs => .arr (escapeElems xs)
  | .obj kvs => .obj (escapeMembers kvs)

def escapeElems : List Doc → List Doc
  | [] => []
  | x :: xs => escapeDoc x :: escapeElems xs

def escapeMembers : List (Bytes × Doc) → List (Bytes × Doc)
  | [] => []
  | (k, v) :: kvs => (escapeTok k, escapeDoc v) :: escapeMembers kvs

end

variable (m : List (String × Doc))

/-- `json.Marshal` of a `map[string]json.RawMessage`. -/
def marshalMap : Doc := .obj (m.map fun x => (quote x.1, escapeDoc x.2))

/-- `json.Marshal` of a `[]json.RawMessage`. -/
def marshalSlice (xs : List Doc) : Doc := .arr (xs.map escapeDoc)

mutual

/-- `canonicalRawJSON`. The literal `null` decodes into a nil map, which is written `null` again. -/
def canonicalRawJSON : Doc → Doc
  | .scalar tok => .scalar tok
  | .arr xs => marshalSlice (canonicalElems xs)
  | .obj kvs => marshalMap (SortedMap.ofList (canonicalMembers kvs))

def canonicalElems : List Doc → List Doc
  | [] => []
  | x :: xs => canonicalRawJSON x :: canonicalElems xs

def canonicalMembers : List (Bytes × Doc) → List (String × Doc)
  | [] => []
  | (k, v) :: kvs => (unquote k, canonicalRawJSON v) :: canonicalMembers kvs

end

def isSignatureKey (k : String) : Bool := k = "X-Signature" || k = "signature"

/-- The map `commandSigningBytes` marshals. -/
def signedMap (kvs : List (Bytes × Doc)) : List (String × Doc) :=
  (SortedMap.ofList (canonicalMembers kvs)).filter fun x => !isSignatureKey x.1

/-- `commandSigningBytes`. A payload that does not decode into a map is returned as it is. -/
def commandSigningBytes (payload : Bytes) : Bytes :=
  match parse payload with
  | some (.obj kvs) => render (marshalMap (signedMap kvs))
  | some (.scalar tok) => if tok = nullTok then nullTok else payload
  | _ => payload

/-! ### Lists of values -/

theorem escapeElems_eq : ∀ xs, escapeElems xs = xs.map escapeDoc
  | [] => rfl
  | x :: xs => by rw [escapeElems, escapeElems_eq xs, map_cons]

theorem escapeMembers_eq : ∀ kvs : List (Bytes × Doc),
    escapeMembers kvs = kvs.map fun kv => (escapeTok kv.1, escapeDoc kv.2)
  | [] => rfl
  | (k, v) :: kvs => by rw [escapeMembers, escapeMembers_eq kvs, map_cons]

theorem canonicalElems_eq : ∀ xs, canonicalElems xs = xs.map canonicalRawJSON
  | [] => rfl
  | x :: xs => by rw [canonicalElems, canonicalElems_eq xs, map_cons]

theorem canonicalMembers_eq : ∀ kvs : List (Bytes × Doc),
    canonicalMembers kvs = kvs.map fun kv => (unquote kv.1, canonicalRawJSON kv.2)
  | [] => rfl
  | (k, v) :: kvs => by rw [canonicalMembers, canonicalMembers_eq kvs, map_cons]

/-! ### A value in the signed bytes -/

def canonical (t : Doc) : Doc := escapeDoc (canonicalRawJSON t)

theorem escapeDoc_escapeDoc (t : Doc) : escapeDoc (escapeDoc t) = escapeDoc t := by
  induction t using Doc.induction with
  | scalar tok => simp [escapeDoc, escapeTok_escapeTok]
  | arr xs ih =>
    simp only [escapeDoc, escapeElems_eq, map_map, Doc.arr.injEq]
    exact map_congr_left ih
  | obj kvs ih =>
    simp only [escapeDoc, escapeMembers_eq, map_map, Doc.obj.injEq]
    refine map_congr_left fun kv hkv => ?_
    simp [escapeTok_escapeTok, ih kv hkv]

theorem canonical_scalar (tok : Bytes) : canonical (.scalar tok) = .scalar (escapeTok tok) := rfl

theorem canonical_arr (xs : List Doc) : canonical (.arr xs) = .arr (xs.map canonical) := by
  simp only [canonical, canonicalRawJSON, marshalSlice, escapeDoc, escapeElems_eq, canonicalElems_eq,
    map_map, Doc.arr.injEq]
  exact map_congr_left fun x _ => escapeDoc_escapeDoc _

def canonicalMap (kvs : List (Bytes × Doc)) : List (String × Doc) :=
  SortedMap.ofList (kvs.map fun kv => (unquote kv.1, canonical kv.2))

theorem escape_canonicalMembers (kvs : List (Bytes × Doc)) :
    (SortedMap.ofList (canonicalMembers kvs)).map (fun x => (x.1, escapeDoc x.2)) = canonicalMap kvs := by
  rw [← SortedMap.ofList_map, canonicalMembers_eq, map_map]
  rfl

theorem canonical_obj (kvs : List (Bytes × Doc)) :
    canonical (.obj kvs) = .obj ((canonicalMap kvs).map fun x => (quote x.1, x.2)) := by
  rw [← escape_canonicalMembers]
  simp only [canonical, canonicalRawJSON, marshalMap, escapeDoc, escapeMembers_eq, map_map, Doc.obj.injEq]
  refine map_congr_left fun x _ => ?_
  simp [escapeDoc_escapeDoc]

def rawMembers (kvs : List (Bytes × Doc)) : List (String × Doc) := kvs.map fun kv => (unquote kv.1, kv.2)

theorem canonicalMap_eq (kvs : List (Bytes × Doc)) :
    canonicalMap kvs = (SortedMap.ofList (rawMembers kvs)).map fun x => (x.1, canonical x.2) := by
  rw [← SortedMap.ofList_map, rawMembers, map_map]
  rfl

variable {kvs : List (Bytes × Doc)}

theorem mem_canonicalMap {k : String} {d : Doc} :
    (k, d) ∈ canonicalMap kvs ↔ ∃ v, SortedMap.last k (rawMembers kvs) = some v ∧ canonical v = d := by
  rw [canonicalMap_eq, mem_map]
  constructor
  · rintro ⟨⟨k', v⟩, hx, heq⟩
    cases heq
    exact ⟨v, (SortedMap.mem_ofList _).mp hx, rfl⟩
  · rintro ⟨v, hlast, rfl⟩
    exact ⟨(k, v), (SortedMap.mem_ofList _).mpr hlast, rfl⟩

theorem sorted_canonicalMap (kvs : List (Bytes × Doc)) : SortedMap.Sorted (canonicalMap kvs) :=
  SortedMap.sorted_ofList _

theorem mem_of_canonicalMap {x : String × Doc} (hx : x ∈ canonicalMap kvs) :
    ∃ kv ∈ kvs, unquote kv.1 = x.1 ∧ canonical kv.2 = x.2 := by
  obtain ⟨v, hlast, hv⟩ := mem_canonicalMap.mp hx
  obtain ⟨kv, hkv, heq⟩ := mem_map.mp (SortedMap.mem_of_last _ hlast)
  rw [Prod.mk.injEq] at heq
  exact ⟨kv, hkv, heq.1, heq.2 ▸ hv⟩

theorem rawMembers_quote : rawMembers (m.map fun x => (quote x.1, x.2)) = m := by
  simp [rawMembers, Function.comp_def]

theorem canonicalMap_quote {m : List (String × Doc)} (hm : SortedMap.Sorted m)
    (hc : ∀ x ∈ m, canonical x.2 = x.2) : canonicalMap (m.map fun x => (quote x.1, x.2)) = m := by
  rw [canonicalMap_eq, rawMembers_quote, SortedMap.ofList_sorted hm]
  refine (map_congr_left fun x hx => ?_).trans (map_id m)
  rw [hc x hx]
  rfl

theorem canonical_canonical (t : Doc) : canonical (canonical t) = canonical t := by
  induction t using Doc.induction with
  | scalar tok => rw [canonical_scalar, canonical_scalar, escapeTok_escapeTok]
  | arr xs ih =>
    rw [canonical_arr, canonical_arr, map_map]
    exact congrArg Doc.arr (map_congr_left ih)
  | obj kvs ih =>
    rw [canonical_obj, canonical_obj, canonicalMap_quote (sorted_canonicalMap kvs)]
    intro x hx
    obtain ⟨kv, hkv, -, hv⟩ := mem_of_canonicalMap hx
    rw [← hv, ih kv hkv]

theorem fits_canonical (t : Doc) : ∀ {d : ℕ}, Fits d t → Fits d (canonical t) := by
  induction t using Doc.induction with
  | scalar tok => exact fun h => validScalar_escapeTok h
  | arr xs ih =>
    intro d h
    rw [canonical_arr]
    refine ⟨h.1, (fitsElems_iff _).mpr fun y hy => ?_⟩
    obtain ⟨x, hx, rfl⟩ := mem_map.mp hy
    exact ih x hx ((fitsElems_iff xs).mp h.2 x hx)
  | obj kvs ih =>
    intro d h
    rw [canonical_obj]
    refine ⟨h.1, (fitsMembers_iff _).mpr fun y hy => ?_⟩
    obtain ⟨x, hx, rfl⟩ := mem_map.mp hy
    obtain ⟨kv, hkv, -, hv⟩ := mem_of_canonicalMap hx
    refine ⟨⟨validScalar_quote x.1, rfl⟩, ?_⟩
    rw [← hv]
    exact ih kv hkv ((fitsMembers_iff kvs).mp h.2 kv hkv).2

/-! ### The signed map -/

def signed (kvs : List (Bytes × Doc)) : List (String × Doc) :=
  (canonicalMap kvs).filter fun x => !isSignatureKey x.1

def objOf : Doc := .obj (m.map fun x => (quote x.1, x.2))

theorem marshalMap_signedMap (kvs : List (Bytes × Doc)) : marshalMap (signedMap kvs) = objOf (signed kvs) := by
  rw [signed, ← escape_canonicalMembers, filter_map]
  simp only [objOf, map_map]
  rfl

theorem mem_signed {k : String} {d : Doc} : (k, d) ∈ signed kvs ↔
    isSignatureKey k = false ∧ ∃ v, SortedMap.last k (rawMembers kvs) = some v ∧ canonical v = d := by
  rw [signed, mem_filter, mem_canonicalMap]
  simp [and_comm]

theorem sorted_signed (kvs : List (Bytes × Doc)) : SortedMap.Sorted (signed kvs) :=
  SortedMap.sorted_filter (sorted_canonicalMap kvs) _

theorem objOf_injective {m m' : List (String × Doc)} (h : objOf m = objOf m') : m = m' := by
  have heq := congrArg rawMembers (Doc.obj.inj h)
  rwa [rawMembers_quote, rawMembers_quote] at heq

theorem fits_signed (h : Fits maxDepth (.obj kvs)) : Fits maxDepth (objOf (signed kvs)) := by
  refine ⟨h.1, (fitsMembers_iff _).mpr fun y hy => ?_⟩
  obtain ⟨x, hx, rfl⟩ := mem_map.mp hy
  obtain ⟨kv, hkv, -, hv⟩ := mem_of_canonicalMap (mem_filter.mp hx).1
  refine ⟨⟨validScalar_quote x.1, rfl⟩, ?_⟩
  rw [← hv]
  exact fits_canonical _ ((fitsMembers_iff kvs).mp h.2 kv hkv).2

theorem signingBytes_obj {payload : Bytes} (h : parse payload = some (.obj kvs)) :
    commandSigningBytes payload = render (objOf (signed kvs)) := by
  rw [commandSigningBytes, h, ← marshalMap_signedMap]

/-- **Two objects have the same signing bytes exactly if their signed maps agree.** -/
theorem signingBytes_eq_iff {P Q : Bytes} {kvs' : List (Bytes × Doc)} (hP : parse P = some (.obj kvs))
    (hQ : parse Q = some (.obj kvs')) :
    commandSigningBytes P = commandSigningBytes Q ↔ signed kvs = signed kvs' := by
  rw [signingBytes_obj hP, signingBytes_obj hQ]
  constructor
  · intro h
    exact objOf_injective (render_injective (fits_signed (fits_of_parse hP)) (fits_signed (fits_of_parse hQ)) h)
  · intro h
    rw [h]

end CoreC.Mqtt.Signing
