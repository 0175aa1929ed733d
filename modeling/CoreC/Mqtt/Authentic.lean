import CoreC.Mqtt.Signing

/-! # What a signature authenticates

A command is executed from the payload itself, decoded into a `WriteCommand` member by member, while the
signature covers the canonical map of the payload. Two payloads with the same signing bytes may decode
differently: the map keeps the last of several equal keys only, and it does not keep the order of keys
that differ in case only, though both go to the same field. -/

namespace CoreC.Mqtt.Authentic

open Core.Types Core.Json Lib Mqtt.Signing List Option
open Lib.Json.Lex Lib.Json.Text Lib.Json.Escape Lib.Json.Parse
open Lib.Json.Number Lib.Json.Struct

/-- What is executed of a command. -/
structure Executed where
  driver : String
  device : String
  tag : String
  type : DataType
  value : GoValue
  raw : Bool

def executed (c : WriteCommand) : Executed :=
  { driver := c.driver, device := c.device, tag := c.tag, type := c.type, value := c.value, raw := c.raw }

/-- The outcome of decoding a payload: `none` if it fails. -/
def outcome (payload : Bytes) : Option Executed := (decodeCommand payload).map executed

/-! ### The fields of a command -/

theorem fieldOf_signatureKey {key : String} (h : isSignatureKey key = true) : commandSchema.fieldOf key = none := by
  simp only [isSignatureKey, Bool.or_eq_true, decide_eq_true_eq] at h
  rcases h with rfl | rfl <;> decide

/-! ### Reading canonical values -/

theorem isString_escapeTok (tok : Bytes) : isString (escapeTok tok) = isString tok := by
  simp [isString, head_escapeTok]

variable {P tok : Bytes} {kv : Bytes × Doc} {i : CommandField} {t v : Doc} {kvs : List (Bytes × Doc)} {d : ℕ}

theorem escapeTok_of_not_string (h : isString tok = false) : escapeTok tok = tok := by
  refine if_neg fun hq => ?_
  simp [isString, hq] at h

theorem ne_of_isString {lit : Bytes} (h : isString tok = true) (hlit : isString lit = false) : tok ≠ lit := by
  rintro rfl
  rw [h] at hlit
  cases hlit

theorem escapeTok_congr {β : Type} {f : Bytes → β} (hv : ValidScalar tok)
    (hf : ∀ s s', isString s = true → isString s' = true → unquote s = unquote s' → f s = f s') :
    f (escapeTok tok) = f tok := by
  cases h : isString tok with
  | false => rw [escapeTok_of_not_string h]
  | true =>
    refine hf _ _ (by rw [isString_escapeTok, h]) h (unquote_escapeTok hv ?_)
    simpa [isString] using h

theorem setString_canonical {σ : Type} {put : String → σ → σ} (h : Fits d t) :
    setString put (canonical t) = setString put t := by
  cases t with
  | scalar tok =>
    refine escapeTok_congr (f := fun tok => setString put (.scalar tok)) h fun s s' hs hs' heq => ?_
    simp [setString, hs, hs', heq]
  | arr xs => rw [canonical_arr]; rfl
  | obj kvs => rw [canonical_obj]; rfl

theorem setBool_canonical {σ : Type} {put : Bool → σ → σ} (h : Fits d t) :
    setBool put (canonical t) = setBool put t := by
  cases t with
  | scalar tok =>
    refine escapeTok_congr (f := fun tok => setBool put (.scalar tok)) h fun s s' hs hs' _ => ?_
    simp [setBool, ne_of_isString hs, ne_of_isString hs', show isString trueTok = false from rfl,
      show isString falseTok = false from rfl, show isString nullTok = false from rfl]
  | arr xs => rw [canonical_arr]; rfl
  | obj kvs => rw [canonical_obj]; rfl

theorem unmarshalDataType_canonical (h : Fits d t) : unmarshalDataType (canonical t) = unmarshalDataType t := by
  cases t with
  | scalar tok =>
    refine escapeTok_congr (f := fun tok => unmarshalDataType (.scalar tok)) h fun s s' hs hs' heq => ?_
    simp [unmarshalDataType, hs, hs', heq]
  | arr xs => rw [canonical_arr]; rfl
  | obj kvs => rw [canonical_obj]; rfl

/-- **Fields other than the value read the same from a canonical value.** -/
theorem set_canonical (hi : i ≠ .value) (h : Fits d t) : commandSchema.set i (canonical t) = commandSchema.set i t := by
  cases i with
  | value => exact absurd rfl hi
  | type => simp [commandSchema, unmarshalDataType_canonical h]
  | raw => simp [commandSchema, setBool_canonical h]
  | _ => simp [commandSchema, setString_canonical h]

theorem scalarAny_escapeTok (h : ValidScalar tok) : scalarAny (escapeTok tok) = scalarAny tok :=
  escapeTok_congr h fun s s' hs hs' heq => by simp [scalarAny, hs, hs', heq]

theorem decodeAny_canonical_obj (kvs : List (Bytes × Doc)) : decodeAny (canonical (.obj kvs)) =
    if ∀ x ∈ canonicalMap kvs, (decodeAny x.2).isSome then
      some (.map (SortedMap.ofList (kvs.map fun kv => (unquote kv.1, decodeDefaultAny (canonical kv.2)))))
    else none := by
  have hmap : SortedMap.ofList ((canonicalMap kvs).map fun x => (x.1, decodeDefaultAny x.2)) =
      SortedMap.ofList (kvs.map fun kv => (unquote kv.1, decodeDefaultAny (canonical kv.2))) := by
    rw [SortedMap.ofList_sorted (SortedMap.sorted_map (sorted_canonicalMap kvs) _), canonicalMap,
      ← SortedMap.ofList_map, List.map_map]
    rfl
  rw [canonical_obj, decodeAny_obj, List.map_map]
  simp only [List.forall_mem_map, Function.comp_def, unquote_quote, hmap]

theorem decodeDefaultAny_congr {t' : Doc} (h : decodeAny t = decodeAny t') :
    decodeDefaultAny t = decodeDefaultAny t' := by
  rw [decodeDefaultAny, h, decodeDefaultAny]

theorem decodeAny_canonical_of_isSome (t : Doc) : ∀ {d : ℕ}, Fits d t → (decodeAny t).isSome →
    decodeAny (canonical t) = decodeAny t := by
  induction t using Doc.induction with
  | scalar tok => exact fun h _ => scalarAny_escapeTok h
  | arr xs ih =>
    intro d h hsome
    rw [decodeAny_arr] at hsome
    split_ifs at hsome with hall
    · have heq : ∀ x ∈ xs, decodeAny (canonical x) = decodeAny x := fun x hx =>
        ih x hx ((fitsElems_iff xs).mp h.2 x hx) (hall x hx)
      have hall' : ∀ y ∈ xs.map canonical, (decodeAny y).isSome := by
        simpa using fun x hx => by rw [heq x hx]; exact hall x hx
      rw [canonical_arr, decodeAny_arr, decodeAny_arr, if_pos hall, if_pos hall', List.map_map]
      refine congrArg (fun l => some (GoValue.slice l)) (map_congr_left fun x hx => ?_)
      exact decodeDefaultAny_congr (heq x hx)
    · cases hsome
  | obj kvs ih =>
    intro d h hsome
    rw [decodeAny_obj] at hsome
    split_ifs at hsome with hall
    · have heq : ∀ kv ∈ kvs, decodeAny (canonical kv.2) = decodeAny kv.2 := fun kv hkv =>
        ih kv hkv ((fitsMembers_iff kvs).mp h.2 kv hkv).2 (hall kv hkv)
      have hall' : ∀ x ∈ canonicalMap kvs, (decodeAny x.2).isSome := by
        intro x hx
        obtain ⟨kv, hkv, -, hv⟩ := mem_of_canonicalMap hx
        rw [← hv, heq kv hkv]
        exact hall kv hkv
      rw [decodeAny_canonical_obj, decodeAny_obj, if_pos hall, if_pos hall']
      refine congrArg (fun l => some (GoValue.map (SortedMap.ofList l))) (map_congr_left fun kv hkv => ?_)
      rw [decodeDefaultAny_congr (heq kv hkv)]
    · cases hsome

mutual

/-- No object has a key twice. -/
def Distinct : Doc → Prop
  | .scalar _ => True
  | .arr xs => DistinctElems xs
  | .obj kvs => (kvs.map fun kv => unquote kv.1).Nodup ∧ DistinctMembers kvs

def DistinctElems : List Doc → Prop
  | [] => True
  | x :: xs => Distinct x ∧ DistinctElems xs

def DistinctMembers : List (Bytes × Doc) → Prop
  | [] => True
  | (_, v) :: kvs => Distinct v ∧ DistinctMembers kvs

end

theorem distinctElems_iff : ∀ xs, DistinctElems xs ↔ ∀ x ∈ xs, Distinct x
  | [] => by simp [DistinctElems]
  | x :: xs => by simp [DistinctElems, distinctElems_iff xs]

theorem distinctMembers_iff : ∀ kvs : List (Bytes × Doc), DistinctMembers kvs ↔ ∀ kv ∈ kvs, Distinct kv.2
  | [] => by simp [DistinctMembers]
  | (k, v) :: kvs => by simp [DistinctMembers, distinctMembers_iff kvs]

theorem mem_canonicalMap_of_mem (h : (kvs.map fun kv => unquote kv.1).Nodup)
    (hkv : kv ∈ kvs) : (unquote kv.1, canonical kv.2) ∈ canonicalMap kvs := by
  have hn : ((rawMembers kvs).map Prod.fst).Nodup := by
    rwa [rawMembers, List.map_map]
  refine mem_canonicalMap.mpr ⟨kv.2, (SortedMap.last_eq_some_iff hn).mpr ?_, rfl⟩
  exact mem_map.mpr ⟨kv, hkv, rfl⟩

theorem isSome_of_canonical (t : Doc) : Distinct t → ∀ {d : ℕ}, Fits d t →
    (decodeAny (canonical t)).isSome → (decodeAny t).isSome := by
  induction t using Doc.induction with
  | scalar tok =>
    intro _ d h hsome
    rwa [canonical_scalar, decodeAny, scalarAny_escapeTok h] at hsome
  | arr xs ih =>
    intro hdist d h hsome
    rw [canonical_arr, decodeAny_arr] at hsome
    split_ifs at hsome with hall
    · have hall' : ∀ x ∈ xs, (decodeAny x).isSome := fun x hx =>
        ih x hx ((distinctElems_iff xs).mp hdist x hx) ((fitsElems_iff xs).mp h.2 x hx) (hall _ (mem_map_of_mem hx))
      rw [decodeAny_arr, if_pos hall']
      rfl
    · cases hsome
  | obj kvs ih =>
    intro hdist d h hsome
    rw [decodeAny_canonical_obj] at hsome
    split_ifs at hsome with hall
    · have hall' : ∀ kv ∈ kvs, (decodeAny kv.2).isSome := fun kv hkv =>
        ih kv hkv ((distinctMembers_iff kvs).mp hdist.2 kv hkv) ((fitsMembers_iff kvs).mp h.2 kv hkv).2
          (hall _ (mem_canonicalMap_of_mem hdist.1 hkv))
      rw [decodeAny_obj, if_pos hall']
      rfl
    · cases hsome

/-- **A value with distinct keys reads the same once it is canonical.** -/
theorem decodeAny_canonical (hdist : Distinct t) (h : Fits d t) : decodeAny (canonical t) = decodeAny t := by
  by_cases hsome : (decodeAny t).isSome
  · exact decodeAny_canonical_of_isSome t h hsome
  · have hnone : ¬(decodeAny (canonical t)).isSome := fun hc => hsome (isSome_of_canonical t hdist h hc)
    rw [not_isSome_iff_eq_none] at hsome hnone
    rw [hsome, hnone]

theorem isNumberToken_of_string (h : isString tok = true) : isNumberToken tok = false := by
  rw [← Bool.not_eq_true]
  intro hn
  rw [not_isString_of_number hn] at h
  cases h

theorem decodeValueByType_string {s s' : Bytes} (hs : isString s = true) (hs' : isString s' = true)
    (heq : unquote s = unquote s') (dt : DataType) :
    decodeValueByType (some (.scalar s)) dt = decodeValueByType (some (.scalar s')) dt := by
  have hlit : ∀ lit ∈ [nullTok, trueTok, falseTok], s ≠ lit ∧ s' ≠ lit := by
    intro lit hmem
    have hl : isString lit = false := by
      simp only [mem_cons, not_mem_nil, or_false] at hmem
      rcases hmem with rfl | rfl | rfl <;> rfl
    exact ⟨ne_of_isString hs hl, ne_of_isString hs' hl⟩
  have hdef : decodeDefaultAny (.scalar s) = decodeDefaultAny (.scalar s') :=
    decodeDefaultAny_congr (by simp [decodeAny, scalarAny, hs, hs', heq])
  have hnull := hlit nullTok (by simp)
  have htrue := hlit trueTok (by simp)
  have hfalse := hlit falseTok (by simp)
  rw [decodeValueByType, decodeValueByType, if_neg hnull.1, if_neg hnull.2]
  cases dt <;>
    simp [decodeValueByType.byType, decodeSignedToken, decodeUnsignedToken, decodeFloatToken, decodeBoolToken,
      decodeStringToken, decodeBytesToken, decodeToken, isNumberToken_of_string, hs, hs', heq, hdef, htrue,
      hfalse]

theorem decodeValueByType_arr (xs : List Doc) (dt : DataType) :
    decodeValueByType (some (.arr xs)) dt = decodeDefaultAny (.arr xs) := by
  cases dt <;> rfl

theorem decodeValueByType_obj (kvs : List (Bytes × Doc)) (dt : DataType) :
    decodeValueByType (some (.obj kvs)) dt = decodeDefaultAny (.obj kvs) := by
  cases dt <;> rfl

theorem decodeValueByType_canonical (hdist : Distinct t) (h : Fits d t) (dt : DataType) :
    decodeValueByType (some (canonical t)) dt = decodeValueByType (some t) dt := by
  have hany := decodeDefaultAny_congr (decodeAny_canonical hdist h)
  cases t with
  | scalar tok =>
    exact escapeTok_congr (f := fun tok => decodeValueByType (some (.scalar tok)) dt) h
      fun s s' hs hs' heq => decodeValueByType_string hs hs' heq dt
  | arr xs =>
    rw [canonical_arr] at hany ⊢
    rw [decodeValueByType_arr, decodeValueByType_arr, hany]
  | obj kvs =>
    rw [canonical_obj] at hany ⊢
    rw [decodeValueByType_obj, decodeValueByType_obj, hany]

/-! ### Members that name fields -/

/-- No member is read. -/
def NamesNoField (kvs : List (Bytes × Doc)) : Prop :=
  ∀ kv ∈ kvs, commandSchema.fieldOf (unquote kv.1) = none

/-- The last member with some key names a field that does not accept its canonical value. -/
def Rejected (kvs : List (Bytes × Doc)) : Prop :=
  ∃ k v i, SortedMap.last k (rawMembers kvs) = some v ∧ commandSchema.fieldOf k = some i ∧
    commandSchema.set i (canonical v) = none

/-- No two members name the same field, and the value has no repeated keys. -/
def Unambiguous (kvs : List (Bytes × Doc)) : Prop :=
  (kvs.filterMap fun kv => commandSchema.fieldOf (unquote kv.1)).Nodup ∧
    ∀ kv ∈ kvs, commandSchema.fieldOf (unquote kv.1) = some .value → Distinct kv.2

theorem mem_signed_field {k : String} {d : Doc} (hi : commandSchema.fieldOf k = some i) : (k, d) ∈ signed kvs ↔
      ∃ v, SortedMap.last k (rawMembers kvs) = some v ∧ canonical v = d := by
  rw [mem_signed]
  refine and_iff_right ?_
  rw [← Bool.not_eq_true]
  intro hk
  rw [fieldOf_signatureKey hk] at hi
  cases hi

theorem mem_of_last_raw {k : String}
    (h : SortedMap.last k (rawMembers kvs) = some v) : ∃ kv ∈ kvs, unquote kv.1 = k ∧ kv.2 = v := by
  obtain ⟨kv, hkv, heq⟩ := mem_map.mp (SortedMap.mem_of_last _ h)
  rw [Prod.mk.injEq] at heq
  exact ⟨kv, hkv, heq⟩

theorem exists_last (h : kv ∈ kvs) : ∃ v, SortedMap.last (unquote kv.1) (rawMembers kvs) = some v := by
  cases hl : SortedMap.last (unquote kv.1) (rawMembers kvs) with
  | none => exact absurd rfl ((SortedMap.last_eq_none_iff _).mp hl _ (mem_map_of_mem h))
  | some v => exact ⟨v, rfl⟩

section SameSigned

variable {kvs kvs' : List (Bytes × Doc)} (hs : signed kvs = signed kvs')

include hs

theorem last_of_signed_eq {k : String} (hi : commandSchema.fieldOf k = some i)
    (hv : SortedMap.last k (rawMembers kvs) = some v) :
    ∃ v', SortedMap.last k (rawMembers kvs') = some v' ∧ canonical v' = canonical v := by
  have hmem : (k, canonical v) ∈ signed kvs := (mem_signed_field hi).mpr ⟨v, hv, rfl⟩
  rw [hs] at hmem
  exact (mem_signed_field hi).mp hmem

theorem namesNoField_of_signed_eq (h : NamesNoField kvs) : NamesNoField kvs' := by
  intro kv hkv
  cases hi : commandSchema.fieldOf (unquote kv.1) with
  | none => rfl
  | some i =>
    obtain ⟨v, hv⟩ := exists_last hkv
    obtain ⟨v', hv', -⟩ := last_of_signed_eq hs.symm hi hv
    obtain ⟨kv', hkv', hk, -⟩ := mem_of_last_raw hv'
    rw [← hk, h kv' hkv'] at hi
    cases hi

theorem rejected_of_signed_eq (h : Rejected kvs) : Rejected kvs' := by
  obtain ⟨k, v, i, hv, hi, hset⟩ := h
  obtain ⟨v', hv', heq⟩ := last_of_signed_eq hs hi hv
  exact ⟨k, v', i, hv', hi, by rw [heq, hset]⟩

end SameSigned

/-! ### Outcomes -/

section

variable (hP : parse P = some (.obj kvs))
include hP

theorem outcome_obj : outcome P = (unmarshalCommand (.obj kvs)).map executed := by
  rw [outcome, decodeCommand, hP, bind_some]

omit hP in
theorem probe_of_no_value (h : ∀ kv ∈ kvs, commandSchema.fieldOf (unquote kv.1) ≠ some .value) :
    probeRawValue (.obj kvs) = none := by
  have hfill : probeSchema.fill kvs none = some none := by
    refine Schema.fill_of_no_field fun kv hkv => ?_
    cases hf : probeSchema.fieldOf (unquote kv.1) with
    | none => rfl
    | some u => exact absurd (fieldOf_probe.mp hf) (h kv hkv)
  rw [probeRawValue, Schema.unmarshal, hfill, getD_some]

theorem outcome_of_namesNoField
    (h : NamesNoField kvs) : outcome P = some (executed {}) := by
  have hprobe := probe_of_no_value fun kv hkv => by rw [h kv hkv]; simp
  rw [outcome_obj hP, unmarshalCommand, Schema.unmarshal, Schema.fill_of_no_field h, hprobe]
  rfl

theorem outcome_eq_none_iff :
    outcome P = none ↔ ∃ kv ∈ kvs, ∃ i, commandSchema.fieldOf (unquote kv.1) = some i ∧
      commandSchema.set i kv.2 = none := by
  rw [outcome_obj hP, unmarshalCommand, Schema.unmarshal, map_eq_none_iff, map_eq_none_iff, Schema.fill_eq_none_iff]

omit hP in
theorem set_eq_none_of_canonical (hfit : Fits d v)
    (h : commandSchema.set i (canonical v) = none) : commandSchema.set i v = none := by
  by_cases hi : i = .value
  · subst hi
    simp only [commandSchema, map_eq_none_iff] at h ⊢
    by_contra hne
    rw [decodeAny_canonical_of_isSome v hfit (isSome_iff_ne_none.mpr hne)] at h
    exact hne h
  · rwa [set_canonical hi hfit] at h

theorem outcome_of_rejected (h : Rejected kvs) : outcome P = none := by
  obtain ⟨k, v, i, hv, hi, hset⟩ := h
  obtain ⟨kv, hkv, rfl, rfl⟩ := mem_of_last_raw hv
  have hfit := ((fitsMembers_iff kvs).mp (fits_of_parse hP).2 kv hkv).2
  exact (outcome_eq_none_iff hP).mpr ⟨kv, hkv, i, hi, set_eq_none_of_canonical hfit hset⟩

end

/-! ### Payloads with the same signing bytes -/

abbrev membersOf (m : List (String × Doc)) : List (Bytes × Doc) := m.map fun x => (quote x.1, x.2)

variable {x : String × Doc}

theorem canonical_of_mem_signed (hx : x ∈ signed kvs) : canonical x.2 = x.2 := by
  obtain ⟨-, v, -, hv⟩ := mem_signed.mp hx
  rw [← hv, canonical_canonical]

theorem canonicalMap_signed (kvs : List (Bytes × Doc)) : canonicalMap (membersOf (signed kvs)) = signed kvs :=
  canonicalMap_quote (sorted_signed kvs) fun _ hx => canonical_of_mem_signed hx

theorem signed_signed (kvs : List (Bytes × Doc)) : signed (membersOf (signed kvs)) = signed kvs := by
  rw [signed, canonicalMap_signed, signed]
  simp

theorem signed_cons (hx : x ∈ signed kvs) (t : Doc) :
    signed ((quote x.1, t) :: membersOf (signed kvs)) = signed kvs := by
  have hmap : canonicalMap ((quote x.1, t) :: membersOf (signed kvs)) = canonicalMap (membersOf (signed kvs)) := by
    rw [canonicalMap, map_cons, unquote_quote]
    refine SortedMap.ofList_cons_of_mem ⟨(x.1, canonical x.2), ?_, rfl⟩
    refine mem_map.mpr ⟨(quote x.1, x.2), mem_map_of_mem hx, ?_⟩
    rw [unquote_quote]
  rw [signed, hmap, ← signed, signed_signed]

def unacceptable : CommandField → Doc
  | .value => .scalar [0x31, 0x65, 0x39, 0x39, 0x39]
  | _ => .arr []

theorem set_unacceptable (i : CommandField) : commandSchema.set i (unacceptable i) = none := by
  have hover : parseFloat Float64.float64 [0x31, 0x65, 0x39, 0x39, 0x39] = none := by decide +kernel
  cases i with
  | value =>
    have hscalar : scalarAny [0x31, 0x65, 0x39, 0x39, 0x39] = none := by
      rw [scalarAny_number (by decide), hover]
      rfl
    simp [commandSchema, unacceptable, decodeAny, hscalar]
  | _ => rfl

theorem fits_unacceptable (hd : 1 ≤ d) (i : CommandField) : Fits d (unacceptable i) := by
  cases i with
  | value => exact .inr ⟨.expInt, rfl, rfl⟩
  | _ => exact ⟨hd, trivial⟩

section Twins

variable {P : Bytes} {kvs : List (Bytes × Doc)} (hP : parse P = some (.obj kvs))

include hP

theorem exists_accepted_twin (h : ¬Rejected kvs) : ∃ Q kvs', parse Q = some (.obj kvs') ∧
    signed kvs = signed kvs' ∧ outcome Q ≠ none := by
  have hparse := parse_render (fits_signed (fits_of_parse hP))
  refine ⟨_, _, hparse, (signed_signed kvs).symm, fun hnone => ?_⟩
  obtain ⟨kv, hkv, i, hi, hset⟩ := (outcome_eq_none_iff hparse).mp hnone
  obtain ⟨x, hx, rfl⟩ := mem_map.mp hkv
  rw [unquote_quote] at hi
  obtain ⟨v, hv, heq⟩ := (mem_signed_field hi).mp hx
  exact h ⟨x.1, v, i, hv, hi, by rw [heq, hset]⟩

theorem exists_rejected_twin (h : ¬NamesNoField kvs) : ∃ Q kvs', parse Q = some (.obj kvs') ∧
    signed kvs = signed kvs' ∧ outcome Q = none := by
  unfold NamesNoField at h
  push Not at h
  obtain ⟨kv, hkv, hne⟩ := h
  obtain ⟨i, hi⟩ := ne_none_iff_exists'.mp hne
  obtain ⟨v, hv⟩ := exists_last hkv
  have hx : (unquote kv.1, canonical v) ∈ signed kvs := (mem_signed_field hi).mpr ⟨v, hv, rfl⟩
  have hfit : Fits maxDepth (.obj ((quote (unquote kv.1), unacceptable i) :: membersOf (signed kvs))) := by
    have hs := fits_signed (fits_of_parse hP)
    exact ⟨hs.1, ⟨validScalar_quote _, rfl⟩, fits_unacceptable (by decide) i, hs.2⟩
  have hparse := parse_render hfit
  refine ⟨_, _, hparse, (signed_cons hx _).symm, (outcome_eq_none_iff hparse).mpr ?_⟩
  exact ⟨_, mem_cons_self, i, by rw [unquote_quote, hi], set_unacceptable i⟩

end Twins

/-! ### Payloads without repeated fields -/

section Unambiguous

variable {kvs kvs' : List (Bytes × Doc)} (hu : Unambiguous kvs) (hu' : Unambiguous kvs')
  (hfit : Fits maxDepth (.obj kvs)) (hfit' : Fits maxDepth (.obj kvs')) (hs : signed kvs = signed kvs')
  {kv : Bytes × Doc} {i : CommandField}

include hu

theorem last_of_unambiguous (hkv : kv ∈ kvs) (hi : commandSchema.fieldOf (unquote kv.1) = some i) :
    SortedMap.last (unquote kv.1) (rawMembers kvs) = some kv.2 := by
  obtain ⟨v, hv⟩ := exists_last hkv
  obtain ⟨kv', hkv', hk, rfl⟩ := mem_of_last_raw hv
  rw [hv, Schema.eq_of_named hu.1 hkv' hkv (by rw [hk, hi]) hi]

include hs

theorem exists_member (hkv : kv ∈ kvs) (hi : commandSchema.fieldOf (unquote kv.1) = some i) : ∃ kv' ∈ kvs',
      commandSchema.fieldOf (unquote kv'.1) = some i ∧ canonical kv'.2 = canonical kv.2 := by
  obtain ⟨v', hv', heq⟩ := last_of_signed_eq hs hi (last_of_unambiguous hu hkv hi)
  obtain ⟨kv', hkv', hk, rfl⟩ := mem_of_last_raw hv'
  exact ⟨kv', hkv', by rw [hk, hi], heq⟩

include hu' hfit hfit'

theorem exists_twin (hkv : kv ∈ kvs) (hi : commandSchema.fieldOf (unquote kv.1) = some i) : ∃ kv' ∈ kvs',
      commandSchema.fieldOf (unquote kv'.1) = some i ∧ commandSchema.set i kv'.2 = commandSchema.set i kv.2 ∧
        (i = .value → ∀ dt, decodeValueByType (some kv'.2) dt = decodeValueByType (some kv.2) dt) := by
  obtain ⟨kv', hkv', hi', heq⟩ := exists_member hu hs hkv hi
  have h1 := ((fitsMembers_iff kvs).mp hfit.2 kv hkv).2
  have h2 := ((fitsMembers_iff kvs').mp hfit'.2 kv' hkv').2
  refine ⟨kv', hkv', hi', ?_, fun hv dt => ?_⟩
  · by_cases hv : i = .value
    · subst hv
      simp only [commandSchema]
      rw [← decodeAny_canonical (hu'.2 kv' hkv' hi') h2, heq, decodeAny_canonical (hu.2 kv hkv hi) h1]
    · rw [← set_canonical hv h2, heq, set_canonical hv h1]
  · subst hv
    rw [← decodeValueByType_canonical (hu'.2 kv' hkv' hi') h2, heq, decodeValueByType_canonical (hu.2 kv hkv hi) h1]

end Unambiguous

theorem probe_of_unique
    (h : ∀ kv ∈ kvs, commandSchema.fieldOf (unquote kv.1) = some .value → kv.2 = v) : ∀ s,
    (s = some v ∨ ∃ kv ∈ kvs, commandSchema.fieldOf (unquote kv.1) = some .value) →
      probeSchema.fill kvs s = some (some v) := by
  induction kvs with
  | nil =>
    intro s hs
    rcases hs with rfl | ⟨kv, hkv, -⟩
    · rfl
    · cases hkv
  | cons kv kvs ih =>
    intro s hs
    have hrest := ih fun kv' hkv' => h kv' (mem_cons_of_mem kv hkv')
    by_cases hv : commandSchema.fieldOf (unquote kv.1) = some .value
    · have hm : probeSchema.member s kv = some (some v) := by
        rw [Schema.member, fieldOf_probe.mpr hv, ← h kv mem_cons_self hv]
        rfl
      rw [Schema.fill_cons_some hm]
      exact hrest _ (.inl rfl)
    · have hnone : probeSchema.fieldOf (unquote kv.1) = none := by
        cases hf : probeSchema.fieldOf (unquote kv.1) with
        | none => rfl
        | some u => exact absurd (fieldOf_probe.mp hf) hv
      have hm : probeSchema.member s kv = some s := by rw [Schema.member, hnone]
      rw [Schema.fill_cons_some hm]
      refine hrest s (hs.imp_right ?_)
      rintro ⟨kv', hkv', hv'⟩
      rcases mem_cons.mp hkv' with rfl | hmem
      · exact absurd hv' hv
      · exact ⟨kv', hmem, hv'⟩

theorem probe_of_mem (hu : Unambiguous kvs) (hkv : kv ∈ kvs) (hv : commandSchema.fieldOf (unquote kv.1) = some .value) :
    probeRawValue (.obj kvs) = some kv.2 := by
  have hunique : ∀ kv' ∈ kvs, commandSchema.fieldOf (unquote kv'.1) = some .value → kv'.2 = kv.2 :=
    fun kv' hkv' hv' => by rw [Schema.eq_of_named hu.1 hkv' hkv hv' hv]
  have hfill := probe_of_unique hunique none (.inr ⟨kv, hkv, hv⟩)
  rw [probeRawValue, Schema.unmarshal, hfill, getD_some]

/-- **Without repeated fields the signing bytes fix the command.** -/
theorem unmarshalCommand_eq_of_unambiguous {kvs' : List (Bytes × Doc)} (hu : Unambiguous kvs) (hu' : Unambiguous kvs')
    (hfit : Fits maxDepth (.obj kvs)) (hfit' : Fits maxDepth (.obj kvs'))
    (hs : signed kvs = signed kvs') : unmarshalCommand (.obj kvs) = unmarshalCommand (.obj kvs') := by
  have hfill : commandSchema.fill kvs {} = commandSchema.fill kvs' {} := by
    refine Schema.fill_congr independent_command hu.1 hu'.1 (fun u => ?_) {}
    constructor
    · intro hmem
      obtain ⟨kv, hkv, hi, hset⟩ := Schema.mem_updates.mp hmem
      obtain ⟨kv', hkv', hi', hset', -⟩ := exists_twin hu hu' hfit hfit' hs hkv hi
      exact Schema.mem_updates.mpr ⟨kv', hkv', hi', hset'.trans hset⟩
    · intro hmem
      obtain ⟨kv, hkv, hi, hset⟩ := Schema.mem_updates.mp hmem
      obtain ⟨kv', hkv', hi', hset', -⟩ := exists_twin hu' hu hfit' hfit hs.symm hkv hi
      exact Schema.mem_updates.mpr ⟨kv', hkv', hi', hset'.trans hset⟩
  have hvalue : ∀ dt, decodeValueByType (probeRawValue (.obj kvs)) dt =
      decodeValueByType (probeRawValue (.obj kvs')) dt := by
    intro dt
    by_cases h : ∃ kv ∈ kvs, commandSchema.fieldOf (unquote kv.1) = some .value
    · obtain ⟨kv, hkv, hv⟩ := h
      obtain ⟨kv', hkv', hv', -, heq⟩ := exists_twin hu hu' hfit hfit' hs hkv hv
      rw [probe_of_mem hu hkv hv, probe_of_mem hu' hkv' hv', heq rfl dt]
    · have h' : ¬∃ kv ∈ kvs', commandSchema.fieldOf (unquote kv.1) = some .value := by
        rintro ⟨kv, hkv, hv⟩
        obtain ⟨kv', hkv', hv', -⟩ := exists_twin hu' hu hfit' hfit hs.symm hkv hv
        exact h ⟨kv', hkv', hv'⟩
      rw [probe_of_no_value fun kv hkv hv => h ⟨kv, hkv, hv⟩, probe_of_no_value fun kv hkv hv => h' ⟨kv, hkv, hv⟩]
  simp [unmarshalCommand, Schema.unmarshal, hfill, hvalue]

/-! ### What a signature authenticates -/

/-- **Which signatures fix the command.** Every object with the signing bytes of `P` has the outcome of `P` exactly if
no member of `P` names a field, or the last member with some key names a field that rejects its value; among objects
without repeated fields the signing bytes fix the outcome. -/
theorem authentic_iff {P : Bytes} {kvs : List (Bytes × Doc)} (hP : parse P = some (.obj kvs)) :
    ((∀ Q kvs', parse Q = some (.obj kvs') → commandSigningBytes P = commandSigningBytes Q →
        outcome P = outcome Q) ↔ NamesNoField kvs ∨ Rejected kvs) ∧
      (Unambiguous kvs → ∀ Q kvs', parse Q = some (.obj kvs') → Unambiguous kvs' →
        commandSigningBytes P = commandSigningBytes Q → outcome P = outcome Q) := by
  refine ⟨⟨fun h => ?_, ?_⟩, fun hu Q kvs' hQ hu' hsign => ?_⟩
  · by_contra hnot
    push Not at hnot
    obtain ⟨Q, kvs1, hQ, hs, hsome⟩ := exists_accepted_twin hP hnot.2
    obtain ⟨R, kvs2, hR, hs', hnone⟩ := exists_rejected_twin hP hnot.1
    have h1 := h Q kvs1 hQ ((signingBytes_eq_iff hP hQ).mpr hs)
    have h2 := h R kvs2 hR ((signingBytes_eq_iff hP hR).mpr hs')
    exact hsome (by rw [← h1, h2, hnone])
  · rintro (hno | hrej) Q kvs' hQ hsign
    · have hs := (signingBytes_eq_iff hP hQ).mp hsign
      rw [outcome_of_namesNoField hP hno, outcome_of_namesNoField hQ (namesNoField_of_signed_eq hs hno)]
    · have hs := (signingBytes_eq_iff hP hQ).mp hsign
      rw [outcome_of_rejected hP hrej, outcome_of_rejected hQ (rejected_of_signed_eq hs hrej)]
  · have hs := (signingBytes_eq_iff hP hQ).mp hsign
    rw [outcome_obj hP, outcome_obj hQ, unmarshalCommand_eq_of_unambiguous hu hu' (fits_of_parse hP)
      (fits_of_parse hQ) hs]

def pumpPayload : Bytes := utf8 "\x7b\"tag\":\"pump\"\x7d"

def signedPumpPayload : Bytes := utf8 "\x7b \"signature\" : \"00\", \"tag\" : \"pump\" \x7d"

theorem unambiguous_of_no_value (h : (kvs.filterMap fun kv => commandSchema.fieldOf (unquote kv.1)).Nodup)
    (hv : ∀ kv ∈ kvs, commandSchema.fieldOf (unquote kv.1) ≠ some .value) : Unambiguous kvs :=
  ⟨h, fun kv hkv hf => absurd hf (hv kv hkv)⟩

theorem authentic_iff_pump : commandSigningBytes pumpPayload = commandSigningBytes signedPumpPayload ∧
    outcome pumpPayload = outcome signedPumpPayload := by
  have hsign : commandSigningBytes pumpPayload = commandSigningBytes signedPumpPayload := by decide +kernel
  refine ⟨hsign, ?_⟩
  obtain ⟨kvs, hP, hu⟩ : ∃ kvs, parse pumpPayload = some (.obj kvs) ∧ Unambiguous kvs :=
    ⟨_, rfl, unambiguous_of_no_value (by decide) (by decide)⟩
  obtain ⟨kvs', hQ, hu'⟩ : ∃ kvs, parse signedPumpPayload = some (.obj kvs) ∧ Unambiguous kvs :=
    ⟨_, rfl, unambiguous_of_no_value (by decide) (by decide)⟩
  exact (authentic_iff hP).2 hu _ kvs' hQ hu' hsign

def valvePayload : Bytes := utf8 "\x7b\"tag\":\"pump\",\"Tag\":\"valve\"\x7d"

def swappedPayload : Bytes := utf8 "\x7b\"Tag\":\"valve\",\"tag\":\"pump\"\x7d"

/-- Two payloads with the same signing bytes write to different tags. -/
theorem valve_swapped_not_authentic : ∃ kvs kvs', parse valvePayload = some (.obj kvs) ∧
    parse swappedPayload = some (.obj kvs') ∧
    commandSigningBytes valvePayload = commandSigningBytes swappedPayload ∧
    (outcome valvePayload).map Executed.tag = some "valve" ∧
    (outcome swappedPayload).map Executed.tag = some "pump" ∧
    outcome valvePayload ≠ outcome swappedPayload := by
  have h1 : (outcome valvePayload).map Executed.tag = some "valve" := by decide +kernel
  have h2 : (outcome swappedPayload).map Executed.tag = some "pump" := by decide +kernel
  refine ⟨_, _, rfl, rfl, by decide +kernel, h1, h2, fun heq => ?_⟩
  rw [heq] at h1
  exact absurd h1 (by decide)

end CoreC.Mqtt.Authentic
