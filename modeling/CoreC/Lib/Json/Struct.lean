import Mathlib.Data.List.Nodup
import Mathlib.Data.List.Pairwise
import CoreC.Lib.GoText
import CoreC.Lib.Json.Escape
import CoreC.Lib.Json.Parse

/-! # Decoding into a struct

The way `encoding/json` fills a struct from an object: the members are taken in document order; a member
goes to the field with its name or else to the first field whose name differs in case only, and is
skipped if there is none. A value that the field does not accept makes the whole decoding fail (the
error is kept while the decoding goes on, and returned at its end). -/

namespace CoreC.Lib.Json.Struct

open Lib.Json.Lex Lib.Json.Text Lib.Json.Parse List

/-- The literal `null`. -/
def nullTok : Bytes := [0x6e, 0x75, 0x6c, 0x6c]

/-- The literal `true`. -/
def trueTok : Bytes := [0x74, 0x72, 0x75, 0x65]

/-- The literal `false`. -/
def falseTok : Bytes := [0x66, 0x61, 0x6c, 0x73, 0x65]

/-- The fields `ι` of a struct `σ`: their order, their names, and what a value does to the struct if
the field accepts it. -/
structure Schema (σ ι : Type) where
  fields : List ι
  name : ι → String
  set : ι → Doc → Option (σ → σ)

variable {σ ι : Type}

namespace Schema

variable (S : Schema σ ι)

def fieldOf (key : String) : Option ι :=
  match S.fields.find? fun i => S.name i = key with
  | some i => some i
  | none => S.fields.find? fun i => GoText.equalFold key.toList (S.name i).toList

def member (s : σ) (kv : Bytes × Doc) : Option σ :=
  match S.fieldOf (unquote kv.1) with
  | some i => (S.set i kv.2).map (· s)
  | none => some s

def fill (kvs : List (Bytes × Doc)) (s : σ) : Option σ :=
  kvs.foldl (fun o kv => o.bind (S.member · kv)) (some s)

/-- `json.Unmarshal` into a struct. -/
def unmarshal (t : Doc) (s : σ) : Option σ :=
  match t with
  | .obj kvs => S.fill kvs s
  | .arr _ => none
  | .scalar tok => if tok = nullTok then some s else none

end Schema

/-! ### Fields of the basic types -/

def setString (put : String → σ → σ) : Doc → Option (σ → σ)
  | .scalar tok =>
    if isString tok then some (put (unquote tok)) else if tok = nullTok then some id else none
  | _ => none

@[simp] theorem isString_quote (s : String) : isString (quote s) = true := rfl

theorem setString_quote (put : String → σ → σ) (s : String) : setString put (.scalar (quote s)) = some (put s) := by
  simp [setString]

def setBool (put : Bool → σ → σ) : Doc → Option (σ → σ)
  | .scalar tok =>
    if tok = trueTok then some (put true) else if tok = falseTok then some (put false)
    else if tok = nullTok then some id else none
  | _ => none

/-! ### The updates of a document -/

namespace Schema

variable (S : Schema σ ι)

variable (kvs : List (Bytes × Doc))

def updates : List (ι × Option (σ → σ)) :=
  kvs.filterMap fun kv => (S.fieldOf (unquote kv.1)).map fun i => (i, S.set i kv.2)

def update (o : Option σ) (u : ι × Option (σ → σ)) : Option σ := o.bind fun s => u.2.map (· s)

variable {S} {kv : Bytes × Doc} {t : Doc} {kvs : List (Bytes × Doc)} {key : String} {i : ι} {s : σ}

/-- **A key goes to the field whose name it spells, whatever the case.** -/
theorem fieldOf_eq_some_iff (hall : ∀ i, i ∈ S.fields)
    (hinj : ∀ i j, GoText.equalFold (S.name i).toList (S.name j).toList = true → i = j) :
    S.fieldOf key = some i ↔ GoText.equalFold key.toList (S.name i).toList = true := by
  have huniq : ∀ j, GoText.equalFold key.toList (S.name j).toList = true →
      GoText.equalFold key.toList (S.name i).toList = true → j = i := by
    intro j hj hi
    simp only [GoText.equalFold, decide_eq_true_eq] at hj hi
    exact hinj j i (by simp [GoText.equalFold, ← hj, hi])
  have hsome : ∀ j, (S.fields.find? fun i => GoText.equalFold key.toList (S.name i).toList) = some j →
      GoText.equalFold key.toList (S.name j).toList = true := fun j h =>
    List.find?_some (p := fun i => GoText.equalFold key.toList (S.name i).toList) h
  unfold fieldOf
  split
  · next j hj =>
    have hname : S.name j = key := by simpa using List.find?_some hj
    subst hname
    rw [Option.some.injEq]
    constructor
    · rintro rfl
      simp [GoText.equalFold]
    · exact huniq j (by simp [GoText.equalFold])
  · constructor
    · exact hsome i
    · intro hi
      cases hfind : S.fields.find? fun i => GoText.equalFold key.toList (S.name i).toList with
      | none => exact absurd hi (List.find?_eq_none.mp hfind i (hall i))
      | some j => rw [huniq j (hsome j hfind) hi]

theorem foldl_member : ∀ kvs o,
    kvs.foldl (fun o kv => o.bind (S.member · kv)) o = (S.updates kvs).foldl update o
  | [], o => rfl
  | kv :: kvs, o => by
    rw [foldl_cons, foldl_member kvs]
    unfold updates
    rw [filterMap_cons]
    cases hf : S.fieldOf (unquote kv.1) with
    | none =>
      have hm : ∀ s, S.member s kv = some s := fun s => by simp [member, hf]
      simp [hm]
    | some i =>
      have hm : ∀ s, S.member s kv = (S.set i kv.2).map (· s) := fun s => by simp [member, hf]
      simp [hm, update]

theorem fill_eq_updates (s : σ) : S.fill kvs s = (S.updates kvs).foldl update (some s) :=
  foldl_member kvs (some s)

theorem mem_updates {u : Option (σ → σ)} :
    (i, u) ∈ S.updates kvs ↔ ∃ kv ∈ kvs, S.fieldOf (unquote kv.1) = some i ∧ S.set i kv.2 = u := by
  simp only [updates, mem_filterMap, Option.map_eq_some_iff, Prod.mk.injEq]
  constructor
  · rintro ⟨kv, hkv, j, hj, rfl, rfl⟩
    exact ⟨kv, hkv, hj, rfl⟩
  · rintro ⟨kv, hkv, hi, rfl⟩
    exact ⟨kv, hkv, i, hi, rfl, rfl⟩

theorem foldl_update_eq_none : ∀ {us : List (ι × Option (σ → σ))} {o : Option σ},
    us.foldl update o = none ↔ o = none ∨ ∃ u ∈ us, u.2 = none
  | [], o => by simp
  | u :: us, o => by
    have h : update o u = none ↔ o = none ∨ u.2 = none := by
      cases o <;> cases hu : u.2 <;> simp [update, hu]
    rw [foldl_cons, foldl_update_eq_none, h, or_assoc]
    simp [or_and_right, exists_or]

/-- **The decoding fails exactly if some member is not accepted.** -/
theorem fill_eq_none_iff : S.fill kvs s = none ↔
    ∃ kv ∈ kvs, ∃ i, S.fieldOf (unquote kv.1) = some i ∧ S.set i kv.2 = none := by
  rw [fill_eq_updates, foldl_update_eq_none]
  constructor
  · rintro (h | ⟨⟨i, u⟩, hmem, rfl⟩)
    · cases h
    · obtain ⟨kv, hkv, hi, hu⟩ := mem_updates.mp hmem
      exact ⟨kv, hkv, i, hi, hu⟩
  · rintro ⟨kv, hkv, i, hi, hu⟩
    exact .inr ⟨(i, none), mem_updates.mpr ⟨kv, hkv, hi, hu⟩, rfl⟩

theorem fill_of_no_field (h : ∀ kv ∈ kvs, S.fieldOf (unquote kv.1) = none) : S.fill kvs s = some s := by
  have hnil : S.updates kvs = [] := by
    refine filterMap_eq_nil_iff.mpr fun kv hkv => ?_
    rw [h kv hkv]
    rfl
  rw [fill_eq_updates, hnil]
  rfl

theorem fill_filter {keep : Bytes × Doc → Bool} (h : ∀ kv ∈ kvs, keep kv = false → S.fieldOf (unquote kv.1) = none) :
    S.fill (kvs.filter keep) s = S.fill kvs s := by
  have hupdates : S.updates (kvs.filter keep) = S.updates kvs := by
    unfold updates
    rw [filterMap_filter]
    refine filterMap_congr fun kv hkv => ?_
    cases hk : keep kv with
    | true => simp
    | false => simp [h kv hkv hk]
  rw [fill_eq_updates, fill_eq_updates, hupdates]

theorem fill_cons_some {s' : σ} (h : S.member s kv = some s') : S.fill (kv :: kvs) s = S.fill kvs s' := by
  simp [fill, h]

theorem fill_cons_none (h : S.member s kv = none) : S.fill (kv :: kvs) s = none := by
  have hnone : kvs.foldl (fun o kv => o.bind (S.member · kv)) none = none := by
    induction kvs with
    | nil => rfl
    | cons kv kvs ih => exact ih
  simpa [fill, h] using hnone

theorem fill_cons {g : σ → σ} (hi : S.fieldOf key = some i) (hg : S.set i t = some g) :
    S.fill ((quote key, t) :: kvs) s = S.fill kvs (g s) :=
  fill_cons_some (by simp [member, hi, hg])

theorem fill_cons_eq_some {s' : σ} (hi : S.fieldOf key = some i) (h : S.fill ((quote key, t) :: kvs) s = some s') :
    ∃ g, S.set i t = some g ∧ S.fill kvs (g s) = some s' := by
  cases hg : S.set i t with
  | some g => exact ⟨g, rfl, by rwa [fill_cons hi hg] at h⟩
  | none =>
    rw [fill_cons_none (by simp [member, hi, hg])] at h
    cases h

theorem fill_cons_skip (hi : S.fieldOf key = none) : S.fill ((quote key, t) :: kvs) s = S.fill kvs s :=
  fill_cons_some (by simp [member, hi])

theorem map_fst_updates : (S.updates kvs).map Prod.fst = kvs.filterMap fun kv => S.fieldOf (unquote kv.1) := by
  simp [updates, map_filterMap, Function.comp_def]

theorem eq_of_named (h : (kvs.filterMap fun kv => S.fieldOf (unquote kv.1)).Nodup) {kv' : Bytes × Doc} (hkv : kv ∈ kvs)
    (hkv' : kv' ∈ kvs) (hi : S.fieldOf (unquote kv.1) = some i)
    (hi' : S.fieldOf (unquote kv'.1) = some i) : kv = kv' := by
  by_contra hne
  have hsymm : Std.Symm fun a b : Bytes × Doc => ∀ x, S.fieldOf (unquote a.1) = some x →
      ∀ y, S.fieldOf (unquote b.1) = some y → x ≠ y :=
    ⟨fun a b hab x hx y hy => (hab y hy x hx).symm⟩
  exact (pairwise_filterMap.mp h).forall hkv hkv' hne i hi i hi' rfl

def Independent (S : Schema σ ι) : Prop := ∀ i j v w g g', i ≠ j → S.set i v = some g →
  S.set j w = some g' → ∀ s, g (g' s) = g' (g s)

/-- **If no field is named twice, the order of the members does not matter.** -/
theorem fill_congr (hS : S.Independent) {kvs' : List (Bytes × Doc)}
    (hnamed : (kvs.filterMap fun kv => S.fieldOf (unquote kv.1)).Nodup)
    (hnamed' : (kvs'.filterMap fun kv => S.fieldOf (unquote kv.1)).Nodup)
    (hmem : ∀ u, u ∈ S.updates kvs ↔ u ∈ S.updates kvs') (s : σ) : S.fill kvs s = S.fill kvs' s := by
  have hn : ((S.updates kvs).map Prod.fst).Nodup := by rwa [map_fst_updates]
  have hn' : ((S.updates kvs').map Prod.fst).Nodup := by rwa [map_fst_updates]
  have hperm : (S.updates kvs).Perm (S.updates kvs') :=
    (perm_ext_iff_of_nodup (List.Nodup.of_map _ hn) (List.Nodup.of_map _ hn')).mpr hmem
  rw [fill_eq_updates, fill_eq_updates]
  refine hperm.foldl_eq' (fun x hx y hy o => ?_) (some s)
  by_cases hxy : x.1 = y.1
  · rw [inj_on_of_nodup_map hn hx hy hxy]
  · obtain ⟨kv, -, -, hu⟩ := mem_updates.mp hx
    obtain ⟨kv', -, -, hu'⟩ := mem_updates.mp hy
    cases o with
    | none => rfl
    | some s =>
      cases hg : x.2 with
      | none => cases hg' : y.2 <;> simp [update, hg]
      | some g =>
        cases hg' : y.2 with
        | none => simp [update, hg']
        | some g' =>
          have := hS x.1 y.1 kv.2 kv'.2 g g' hxy (hu.trans hg) (hu'.trans hg') s
          simp [update, hg, hg', this]

end Schema

end CoreC.Lib.Json.Struct
