import CoreC.Lib.Buckets
import CoreC.Lib.Greedy
import CoreC.Lib.KeyOrder
import CoreC.S7.Codec

/-! # Merged reads of an S7 controller: the plan

`planS7ReadSegments` (`driver/s7/s7_merge.go`) groups the tags by area and data block, sorts each group by its first
byte, and appends the tags one by one: a tag extends the newest segment if that is of its area and block, the gap is at
most 32 bytes and the segment stays within 480. The numbers are of type `int`.

* `planS7ReadSegments_eq`: the plan is a greedy grouping of the ordered tags;
* `covering_plan`: every tag is in one segment, of its area and block and with its bytes in it. -/

namespace CoreC.S7.Segments

open Core.Types Lib.Buckets Lib.GoInt Lib.Greedy Lib.KeyOrder S7.Address List Option
open Lib.Yaml (GoFloat)
open S7.Write

/-! ### The planner -/

def s7MergeGapLimit : ℤ := 32

def s7MaxPDUReadLen : ℤ := 480

structure S7ReadTag where
  index : ℕ
  name : String
  addr : S7Address
  dt : DataType
  scale : GoFloat
  offset : GoFloat

structure S7ReadSegment where
  area : S7Area
  dbNumber : ℕ
  start : ℕ
  length : ℕ
  entries : List S7ReadTag

abbrev GroupKey := S7Area × ℕ

def S7ReadTag.key (tag : S7ReadTag) : GroupKey := (tag.addr.area, tag.addr.dbNumber)

def areaNumber : S7Area → ℕ
  | .db => 0
  | .m => 1
  | .i => 2
  | .q => 3

def keyLe (a b : GroupKey) : Bool :=
  if a.1 ≠ b.1 then areaNumber a.1 < areaNumber b.1 else a.2 ≤ b.2

variable (cur : S7ReadSegment)

/-- `gap` of `appendMergedSegment`. -/
def gap (tag : S7ReadTag) : ℤ :=
  IntType.int64.wrap (tag.addr.start - IntType.int64.wrap (cur.start + cur.length))

/-- `mergedLen` of `appendMergedSegment`. -/
def mergedLen (tag : S7ReadTag) : ℤ :=
  IntType.int64.wrap (IntType.int64.wrap (tag.addr.start + tag.addr.size) - cur.start)

def extend (key : GroupKey) (tag : S7ReadTag) : Option S7ReadSegment :=
  if (cur.area = key.1 ∧ cur.dbNumber = key.2) ∧ gap cur tag ≤ s7MergeGapLimit ∧ mergedLen cur tag ≤ s7MaxPDUReadLen then
    some { cur with length := if mergedLen cur tag > cur.length then (mergedLen cur tag).toNat else cur.length
                    entries := cur.entries ++ [tag] }
  else none

def single (key : GroupKey) (tag : S7ReadTag) : S7ReadSegment :=
  ⟨key.1, key.2, tag.addr.start, tag.addr.size, [tag]⟩

def appendMergedSegment (segments : List S7ReadSegment) (key : GroupKey) (tag : S7ReadTag) : List S7ReadSegment :=
  match segments.getLast?.bind fun cur => extend cur key tag with
  | some cur => segments.dropLast ++ [cur]
  | none => segments ++ [single key tag]

def sortedGroup (groups : AList fun _ : GroupKey => List S7ReadTag) (k : GroupKey) : List S7ReadTag :=
  byKey (fun tag => tag.addr.start) (get groups k)

def planS7ReadSegments (tags : List S7ReadTag) : List S7ReadSegment :=
  let groups := buckets (fun tag => some tag.key) tags
  let keys := groups.keys.insertionSort fun a b => keyLe a b
  keys.foldl (fun segments k =>
    (sortedGroup groups k).foldl (fun segments tag => appendMergedSegment segments k tag) segments) []

/-! ### The order of the tags -/

def ordered (tags : List S7ReadTag) : List S7ReadTag :=
  let groups := buckets (fun tag => some tag.key) tags
  (groups.keys.insertionSort fun a b => keyLe a b).flatMap (sortedGroup groups)

def InOrder (q r : S7ReadTag) : Prop := q.key = r.key → q.addr.start ≤ r.addr.start

variable {dt : DataType} {tags : List S7ReadTag} {addr : S7Address}

theorem mem_sortedGroup {k : GroupKey} {tag : S7ReadTag} :
    tag ∈ sortedGroup (buckets (fun tag => some tag.key) tags) k ↔ tag ∈ tags ∧ tag.key = k := by
  unfold sortedGroup
  rw [(byKey_perm _ _).mem_iff, get_buckets]
  simp

theorem ordered_perm (tags : List S7ReadTag) : (ordered tags).Perm tags := by
  have hperm := flatMap_buckets_perm (fun tag : S7ReadTag => some tag.key) (fun tag => [tag])
    (AList.keys_nodup (buckets (fun tag : S7ReadTag => some tag.key) tags)) tags fun tag htag k hk =>
      AList.mem_keys.mp (mem_buckets.mpr ⟨tag, htag, hk⟩)
  simp only [flatMap_singleton', isSome_some, filter_true] at hperm
  refine Perm.trans ?_ hperm
  refine ((perm_insertionSort _ _).flatMap_right _).trans (Perm.flatMap_left _ fun k hk => ?_)
  unfold sortedGroup
  rw [get_buckets]
  exact byKey_perm _ _

theorem ordered_inOrder (tags : List S7ReadTag) : (ordered tags).Pairwise InOrder := by
  refine pairwise_flatMap.mpr ⟨fun k hk => ?_, ?_⟩
  · have hsorted := byKey_sorted (fun tag : S7ReadTag => tag.addr.start)
      (get (buckets (fun tag => some tag.key) tags) k)
    exact hsorted.imp fun {q r} hle (_ : q.key = r.key) => hle
  · have hnodup : ((buckets (fun tag : S7ReadTag => some tag.key) tags).keys.insertionSort fun a b => keyLe a b).Nodup :=
      (perm_insertionSort _ _).nodup_iff.mpr (AList.keys_nodup _)
    refine hnodup.imp fun hne q hq r hr heq => ?_
    exact absurd ((mem_sortedGroup.mp hq).2.symm.trans (heq.trans (mem_sortedGroup.mp hr).2)) hne

/-! ### The plan as a grouping -/

theorem foldl_appendMergedSegment (closed : List S7ReadSegment) : ∀ rest cur,
    rest.foldl (fun segments tag => appendMergedSegment segments tag.key tag) (closed ++ [cur]) =
      closed ++ groups (fun tag => single tag.key tag) (fun cur tag => extend cur tag.key tag) cur rest
  | [], cur => rfl
  | tag :: rest, cur => by
    have happend : appendMergedSegment (closed ++ [cur]) tag.key tag =
        match extend cur tag.key tag with
        | some cur' => closed ++ [cur']
        | none => (closed ++ [cur]) ++ [single tag.key tag] := by
      unfold appendMergedSegment
      simp
    rw [foldl_cons, happend]
    cases h : extend cur tag.key tag with
    | some cur' =>
      rw [groups_cons_of_some h]
      exact foldl_appendMergedSegment closed rest cur'
    | none =>
      rw [groups_cons_of_none h]
      rw [foldl_appendMergedSegment (closed ++ [cur]) rest, append_assoc]
      rfl

def grouping : List S7ReadTag → List S7ReadSegment
  | [] => []
  | tag :: rest =>
    groups (fun tag => single tag.key tag) (fun cur tag => extend cur tag.key tag) (single tag.key tag) rest

theorem planS7ReadSegments_eq (tags : List S7ReadTag) : planS7ReadSegments tags = grouping (ordered tags) := by
  have hkeys : planS7ReadSegments tags =
      (ordered tags).foldl (fun segments tag => appendMergedSegment segments tag.key tag) [] := by
    unfold planS7ReadSegments ordered
    rw [foldl_flatMap]
    refine foldl_ext _ _ _ fun segments k _ => foldl_ext _ _ _ fun segments tag htag => ?_
    rw [(mem_sortedGroup.mp htag).2]
  rw [hkeys]
  cases h : ordered tags with
  | nil => rfl
  | cons tag rest => exact foldl_appendMergedSegment [] rest (single tag.key tag)

/-! ### The segments -/

structure Bounded (addr : S7Address) : Prop where
  start : addr.start < 2 ^ 63
  size : addr.size ≤ 8

theorem atoi_lt (digits : List Char) : atoi digits < 2 ^ 63 := by
  unfold atoi
  omega

theorem parseS7Address_bounded {addrStr : String} (h : parseS7Address addrStr dt = .ok addr) : Bounded addr := by
  obtain ⟨-, ⟨offset, hstart⟩, kind, hsize⟩ := parseS7Address_parsed h
  exact ⟨hstart ▸ atoi_lt offset, hsize ▸ (dataSizeForKind_bounds kind dt).2⟩

structure Inside (seg : S7ReadSegment) (tag : S7ReadTag) : Prop where
  area : tag.addr.area = seg.area
  dbNumber : tag.addr.dbNumber = seg.dbNumber
  low : seg.start ≤ tag.addr.start
  high : tag.addr.start + tag.addr.size ≤ seg.start + seg.length

/-- What holds of the newest segment: its tags are inside, it is not too long, and it begins with one of the tags. -/
structure Inv (done : List S7ReadTag) (seg : S7ReadSegment) : Prop where
  inside : ∀ tag ∈ seg.entries, Inside seg tag
  length : seg.length ≤ 480
  start : ∃ tag ∈ done, tag.key = (seg.area, seg.dbNumber) ∧ tag.addr.start = seg.start

variable {done : List S7ReadTag} {cur cur' : S7ReadSegment} {tag : S7ReadTag}

theorem extend_eq_some_iff : extend cur tag.key tag = some cur' ↔
    ((cur.area = tag.addr.area ∧ cur.dbNumber = tag.addr.dbNumber) ∧ gap cur tag ≤ 32 ∧ mergedLen cur tag ≤ 480) ∧
      { cur with length := if mergedLen cur tag > cur.length then (mergedLen cur tag).toNat else cur.length
                 entries := cur.entries ++ [tag] } = cur' := by
  unfold extend
  rw [ite_none_right_eq_some, some.injEq]
  rfl

theorem gap_eq (hlength : cur.length ≤ 480) (hstart : tag.addr.start < 2 ^ 63) (hlow : cur.start ≤ tag.addr.start) :
    gap cur tag = tag.addr.start - (cur.start + cur.length) := by
  unfold gap
  rw [IntType.wrap_int64, IntType.wrap_int64]
  omega

theorem mergedLen_eq (hsize : tag.addr.size ≤ 8) (hlow : cur.start ≤ tag.addr.start)
    (hnear : tag.addr.start ≤ cur.start + 512) : mergedLen cur tag = tag.addr.start + tag.addr.size - cur.start := by
  unfold mergedLen
  rw [IntType.wrap_int64, IntType.wrap_int64]
  omega

/-- **No overflow.** A tag that is taken is near, and the segment reaches over it. -/
theorem extend_eq_some (hlength : cur.length ≤ 480) (hbound : Bounded tag.addr) (hlow : cur.start ≤ tag.addr.start)
    (h : extend cur tag.key tag = some cur') : ∃ length, length ≤ 480 ∧ cur.length ≤ length ∧
      tag.addr.start + tag.addr.size ≤ cur.start + length ∧
      cur' = { cur with length := length, entries := cur.entries ++ [tag] } := by
  obtain ⟨⟨-, hgap, hmerged⟩, heq⟩ := extend_eq_some_iff.mp h
  rw [gap_eq hlength hbound.start hlow] at hgap
  have hsize := hbound.size
  rw [mergedLen_eq hsize hlow (by omega)] at hmerged heq
  refine ⟨_, ?_, ?_, ?_, heq.symm⟩ <;> split_ifs <;> omega

theorem le_of_inv (h : Inv done cur) (hdone : ∀ q ∈ done, InOrder q tag)
    (hkey : cur.area = tag.addr.area ∧ cur.dbNumber = tag.addr.dbNumber) : cur.start ≤ tag.addr.start := by
  obtain ⟨q, hq, hqkey, hstart⟩ := h.start
  rw [← hstart]
  refine hdone q hq (hqkey.trans ?_)
  rw [hkey.1, hkey.2]
  rfl

theorem inv_extend (h : Inv done cur) (htag : Bounded tag.addr) (hdone : ∀ q ∈ done, InOrder q tag)
    (hjoin : extend cur tag.key tag = some cur') : Inv (done ++ [tag]) cur' := by
  have hkey := (extend_eq_some_iff.mp hjoin).1.1
  have hlow := le_of_inv h hdone hkey
  obtain ⟨length, hmax, hmono, hhigh, rfl⟩ := extend_eq_some h.length htag hlow hjoin
  refine ⟨fun q hq => ?_, hmax, ?_⟩
  · rcases mem_append.mp hq with hq | hq
    · obtain ⟨harea, hdb, hqlow, hqhigh⟩ := h.inside q hq
      exact ⟨harea, hdb, hqlow, by dsimp only; omega⟩
    · rw [mem_singleton.mp hq]
      exact ⟨hkey.1.symm, hkey.2.symm, hlow, hhigh⟩
  · obtain ⟨q, hq, hrest⟩ := h.start
    exact ⟨q, mem_append_left _ hq, hrest⟩

theorem inv_single (htag : Bounded tag.addr) (hmem : tag ∈ done) : Inv done (single tag.key tag) := by
  refine ⟨fun q hq => ?_, Nat.le_trans htag.size (by decide), tag, hmem, rfl, rfl⟩
  rw [mem_singleton.mp hq]
  exact ⟨rfl, rfl, Nat.le_refl _, Nat.le_refl _⟩

theorem flatMap_grouping : ∀ tags, (grouping tags).flatMap S7ReadSegment.entries = tags
  | [] => rfl
  | tag :: rest => by
    refine flatMap_groups (fun tag => rfl) (fun {cur tag cur'} hjoin => ?_) rest (single tag.key tag)
    rw [← (extend_eq_some_iff.mp hjoin).2]

theorem inv_of_mem (htags : ∀ tag ∈ tags, Bounded tag.addr) (horder : tags.Pairwise InOrder) {seg : S7ReadSegment}
    (hseg : seg ∈ grouping tags) : ∃ done, Inv done seg := by
  cases tags with
  | nil => exact absurd hseg not_mem_nil
  | cons tag rest =>
    have hfirst : Inv [tag] (single tag.key tag) :=
      inv_single (htags tag (mem_cons_self ..)) (mem_singleton.mpr rfl)
    exact groups_invariant inv_extend (fun _ htag _ _ => inv_single htag (mem_append_right _ (mem_singleton.mpr rfl)))
      hfirst (fun q hq => htags q (mem_cons_of_mem _ hq)) horder seg hseg

/-- What a plan is for: every tag is in one segment, inside it, and no segment is too long. -/
structure Covering (tags : List S7ReadTag) (segments : List S7ReadSegment) : Prop where
  entries : (segments.flatMap S7ReadSegment.entries).Perm tags
  inside : ∀ seg ∈ segments, ∀ tag ∈ seg.entries, Inside seg tag
  length : ∀ seg ∈ segments, seg.length ≤ 480

theorem covering_plan (htags : ∀ tag ∈ tags, Bounded tag.addr) : Covering tags (planS7ReadSegments tags) := by
  have hperm := ordered_perm tags
  have hinv : ∀ seg ∈ grouping (ordered tags), ∃ done, Inv done seg := fun seg hseg =>
    inv_of_mem (fun tag htag => htags tag (hperm.mem_iff.mp htag)) (ordered_inOrder tags) hseg
  rw [planS7ReadSegments_eq]
  refine ⟨?_, fun seg hseg => ?_, fun seg hseg => ?_⟩
  · rwa [flatMap_grouping]
  · obtain ⟨done, hI⟩ := hinv seg hseg
    exact hI.inside
  · obtain ⟨done, hI⟩ := hinv seg hseg
    exact hI.length

end CoreC.S7.Segments
