import CoreC.Lib.Greedy
import CoreC.Lib.OptionList
import CoreC.Modbus.Driver

/-! # Merged reads

`performBatchReads` sorts the tags of an area by address and cuts the list into ranges (`mergeBatches`), of which each
is fetched with one request and taken apart by offset (`readBatch`). Addresses and the ends of ranges are `uint16`: the
end of a tag at the top of the address space is 0. Such a tag joins a range that reaches its address without making it
longer, and is then looked for behind the end of the response; to a range that starts with it no tag joins.

* `mergeLoop_eq_groups`: the loop is a greedy grouping;
* `inv_extend`, `inv_openBatch`: what holds of the range that is open and of all tags so far. -/

namespace CoreC.Modbus.Merge

open Core.Types Lib.Greedy Lib.OptionList Modbus.Driver List Option

/-! ### The loop -/

def finish (r : BatchTagReq) : ℕ := r.ai.addr + r.qty.getD 0

def openBatch (area : Area) (r : BatchTagReq) : ReadBatch × ℕ :=
  (⟨area, r.ai.addr, r.qty.getD 0, [r]⟩, finish r % 2 ^ 16)

def mergedEnd (curEnd : ℕ) (r : BatchTagReq) : ℕ :=
  if curEnd < finish r % 2 ^ 16 then finish r % 2 ^ 16 else curEnd

def mergedQty (s : ReadBatch × ℕ) (r : BatchTagReq) : ℕ := (mergedEnd s.2 r + 2 ^ 16 - s.1.start) % 2 ^ 16

def extend (maxBatch : ℕ) (s : ReadBatch × ℕ) (r : BatchTagReq) : Option (ReadBatch × ℕ) :=
  if r.ai.addr ≤ s.2 ∧ mergedQty s r ≤ maxBatch then
    some ({ s.1 with qty := mergedQty s r, members := s.1.members ++ [r] }, mergedEnd s.2 r)
  else none

variable {area : Area} {r : BatchTagReq} {dt : DataType} {s : ReadBatch × ℕ} {maxBatch : ℕ} (p : Platform)

theorem extend_eq_some_iff {s' : ReadBatch × ℕ} :
    extend maxBatch s r = some s' ↔ (r.ai.addr ≤ s.2 ∧ mergedQty s r ≤ maxBatch) ∧
      s' = ({ s.1 with qty := mergedQty s r, members := s.1.members ++ [r] }, mergedEnd s.2 r) := by
  unfold extend
  split_ifs with hjoin
  · simp [hjoin, eq_comm]
  · simp [hjoin]

/-- The range after a tag has joined. Its end and its length are named, so that its other fields can be read without
computing the two. -/
theorem extend_eq_some {s' : ReadBatch × ℕ} (h : extend maxBatch s r = some s') :
    ∃ qty curEnd, r.ai.addr ≤ s.2 ∧ qty ≤ maxBatch ∧ qty = mergedQty s r ∧ curEnd = mergedEnd s.2 r ∧
      s' = ({ s.1 with qty := qty, members := s.1.members ++ [r] }, curEnd) := by
  obtain ⟨⟨hreach, hqty⟩, hs'⟩ := extend_eq_some_iff.mp h
  exact ⟨_, _, hreach, hqty, rfl, rfl, hs'⟩

theorem extend_eq_none_iff : extend maxBatch s r = none ↔ (r.ai.addr ≤ s.2 → maxBatch < mergedQty s r) := by
  unfold extend
  split_ifs with hjoin
  · simp [hjoin]
  · simpa using hjoin

theorem mergeLoop_eq_groups (area : Area) (maxBatch : ℕ) : ∀ rest cur curEnd,
    mergeLoop area maxBatch cur curEnd rest =
      (groups (openBatch area) (extend maxBatch) (cur, curEnd) rest).map Prod.fst
  | [], cur, curEnd => rfl
  | r :: rest, cur, curEnd => by
    by_cases hjoin : r.ai.addr ≤ curEnd ∧ mergedQty (cur, curEnd) r ≤ maxBatch
    · rw [groups_cons_of_some (extend_eq_some_iff.mpr ⟨hjoin, rfl⟩), ← mergeLoop_eq_groups area maxBatch rest]
      exact if_pos hjoin
    · rw [groups_cons_of_none (if_neg hjoin), map_cons, openBatch, ← mergeLoop_eq_groups area maxBatch rest]
      exact if_neg hjoin

theorem mergeBatches_cons (area : Area) (maxBatch : ℕ) (r : BatchTagReq) (rest : List BatchTagReq) :
    mergeBatches area maxBatch (r :: rest) =
      (groups (openBatch area) (extend maxBatch) (openBatch area r) rest).map Prod.fst :=
  mergeLoop_eq_groups area maxBatch rest _ _

theorem flatMap_mergeBatches (area : Area) (maxBatch : ℕ) (l : List BatchTagReq) :
    (mergeBatches area maxBatch l).flatMap ReadBatch.members = l := by
  cases l with
  | nil => rfl
  | cons r rest =>
    have hjoin : ∀ {s r s'}, extend maxBatch s r = some s' → s'.1.members = s.1.members ++ [r] := by
      intro s r s' h
      rw [(extend_eq_some_iff.mp h).2]
    rw [mergeBatches_cons, flatMap_map]
    exact flatMap_groups (fun _ => rfl) hjoin rest _

/-! ### What holds of the open range -/

/-- The request has a place and a length. -/
structure Batchable (area : Area) (r : BatchTagReq) : Prop where
  area : r.ai.area = area
  qty : r.qty = batchQuantity r.ai r.dt
  some : r.qty ≠ none
  top : finish r ≤ 2 ^ 16

/-- A tag of the area that can be in a batch; its address is a `uint16`. -/
structure Placed (area : Area) (r : BatchTagReq) : Prop where
  area : r.ai.area = area
  qty : r.qty = batchQuantity r.ai r.dt
  some : r.qty ≠ none
  addr : r.ai.addr < 2 ^ 16

theorem quantity_bounds (hqty : r.qty = batchQuantity r.ai r.dt) (hsome : r.qty ≠ none) :
    finish r = r.ai.addr + r.qty.getD 0 ∧ 1 ≤ r.qty.getD 0 ∧ r.qty.getD 0 ≤ 4 := by
  refine ⟨rfl, ?_⟩
  rw [hqty] at hsome ⊢
  unfold batchQuantity at hsome ⊢
  split_ifs at hsome ⊢ with hbit hbool
  · decide
  · exact absurd rfl hsome
  · cases hdt : r.dt <;> simp_all

theorem Batchable.quantity (h : Batchable area r) :
    finish r = r.ai.addr + r.qty.getD 0 ∧ 1 ≤ r.qty.getD 0 ∧ r.qty.getD 0 ≤ 4 := quantity_bounds h.qty h.some

theorem Batchable.placed (h : Batchable area r) : Placed area r := by
  obtain ⟨hfin, hone, -⟩ := h.quantity
  have htop := h.top
  exact ⟨h.area, h.qty, h.some, by omega⟩

def Inside (b : ReadBatch) (r : BatchTagReq) : Prop := b.start ≤ r.ai.addr ∧ finish r ≤ b.start + b.qty

/-- **The invariant.** The tags of the open range are inside it. The end is that of the range, and no tag so far goes
beyond it; or the range is a tag at the top of the address space, and its end is 0. -/
structure Inv (area : Area) (done : List BatchTagReq) (s : ReadBatch × ℕ) : Prop where
  area : s.1.area = area
  size : s.1.qty ≤ modbusMaxBatchSize
  inside : ∀ r ∈ s.1.members, r ∈ done ∧ Inside s.1 r
  first : ∃ q ∈ done, q.ai.addr = s.1.start
  ends : (s.2 = s.1.start + s.1.qty ∧ s.2 < 2 ^ 16 ∧ (∀ q ∈ done, finish q < 2 ^ 16 → finish q ≤ s.2) ∧
      ∃ q ∈ done, finish q = s.2) ∨
    (s.2 = 0 ∧ s.1.start + s.1.qty = 2 ^ 16 ∧ ∀ q ∈ done, finish q < 2 ^ 16 → finish q < s.1.start)

/-- In the order of the addresses. -/
def Sorted (q r : BatchTagReq) : Prop := q.ai.addr ≤ r.ai.addr

/-- No tag at the top of the address space comes after one that reaches it. -/
def Apart (q r : BatchTagReq) : Prop := finish r = 2 ^ 16 → finish q < 2 ^ 16 → finish q < r.ai.addr

section

variable {area : Area} {done : List BatchTagReq} {s s' : ReadBatch × ℕ} {r : BatchTagReq}

theorem le_of_inv (h : Inv area done s) (hdone : ∀ q ∈ done, Sorted q r) : s.1.start ≤ r.ai.addr := by
  obtain ⟨q, hq, hstart⟩ := h.first
  exact hstart ▸ hdone q hq

theorem mergedQty_of_plain (hend : s.2 = s.1.start + s.1.qty) (hlt : s.2 < 2 ^ 16) :
    mergedEnd s.2 r < 2 ^ 16 ∧ s.2 ≤ mergedEnd s.2 r ∧ s.1.start + mergedQty s r = mergedEnd s.2 r ∧
      (mergedEnd s.2 r = s.2 ∨ mergedEnd s.2 r = finish r % 2 ^ 16) ∧ finish r % 2 ^ 16 ≤ mergedEnd s.2 r := by
  unfold mergedQty mergedEnd
  split_ifs <;> omega

theorem inv_extend (h : Inv area done s) (hr : Batchable area r) (hdone : ∀ q ∈ done, Sorted q r ∧ Apart q r)
    (hjoin : extend modbusMaxBatchSize s r = some s') : Inv area (done ++ [r]) s' := by
  obtain ⟨qty, curEnd, hreach, hqty, hqty', hend', rfl⟩ := extend_eq_some hjoin
  have hle := le_of_inv h fun q hq => (hdone q hq).1
  have hsize : s.1.qty ≤ 125 := h.size
  have htop := hr.top
  rcases h.ends with ⟨hend, hlt, hmax, q₁, hq₁, hattained⟩ | ⟨hend, hwrap, -⟩
  · have hfin : finish r < 2 ^ 16 := by
      by_contra hnot
      have hafter := (hdone q₁ hq₁).2 (by omega) (by omega)
      omega
    obtain ⟨hlt', hgrow, hsum, hcases, hown⟩ := mergedQty_of_plain (r := r) hend hlt
    rw [← hqty', ← hend'] at hsum
    rw [← hend'] at hlt' hgrow hcases hown
    rw [Nat.mod_eq_of_lt hfin] at hcases hown
    refine ⟨h.area, hqty, fun q hq => ?_, ?_, .inl ⟨hsum.symm, hlt', fun q hq hq' => ?_, ?_⟩⟩
    · rcases mem_append.mp hq with hq | hq
      · obtain ⟨hmem, hlow, hhigh⟩ := h.inside q hq
        exact ⟨mem_append_left _ hmem, hlow, by dsimp only; omega⟩
      · obtain rfl := mem_singleton.mp hq
        exact ⟨mem_append_right _ hq, hle, by dsimp only; omega⟩
    · obtain ⟨q, hq, hstart⟩ := h.first
      exact ⟨q, mem_append_left _ hq, hstart⟩
    · rcases mem_append.mp hq with hq | hq
      · exact (hmax q hq hq').trans hgrow
      · rwa [mem_singleton.mp hq]
    · rcases hcases with heq | heq
      · exact ⟨q₁, mem_append_left _ hq₁, hattained.trans heq.symm⟩
      · exact ⟨r, mem_append_right _ (mem_singleton.mpr rfl), heq.symm⟩
  · omega

theorem inv_of_mem (hr : Batchable area r) (hself : r ∈ done)
    (hplain : finish r < 2 ^ 16 → ∀ q ∈ done, finish q < 2 ^ 16 → finish q ≤ finish r)
    (hlast : finish r = 2 ^ 16 → ∀ q ∈ done, finish q < 2 ^ 16 → finish q < r.ai.addr) :
    Inv area done (openBatch area r) := by
  obtain ⟨hfin, hone, hfour⟩ := hr.quantity
  have htop := hr.top
  refine ⟨rfl, show r.qty.getD 0 ≤ 125 by omega, fun q hq => ?_, ⟨r, hself, rfl⟩, ?_⟩
  · obtain rfl := mem_singleton.mp hq
    exact ⟨hself, Nat.le_refl _, Nat.le_of_eq hfin⟩
  by_cases hwrap : finish r = 2 ^ 16
  · exact .inr ⟨by rw [openBatch, hwrap]; rfl, by rw [← hwrap]; rfl, hlast hwrap⟩
  · have hlt : finish r < 2 ^ 16 := by omega
    have hend : (openBatch area r).2 = finish r := Nat.mod_eq_of_lt hlt
    refine .inl ⟨hend, by rwa [hend], fun q hq hq' => ?_, r, hself, hend.symm⟩
    rw [hend]
    exact hplain hlt q hq hq'

theorem inv_openBatch (h : Inv area done s) (hr : Batchable area r) (hdone : ∀ q ∈ done, Sorted q r ∧ Apart q r)
    (hjoin : extend modbusMaxBatchSize s r = none) : Inv area (done ++ [r]) (openBatch area r) := by
  have hgap : r.ai.addr ≤ s.2 → 125 < mergedQty s r := extend_eq_none_iff.mp hjoin
  have hle := le_of_inv h fun q hq => (hdone q hq).1
  have hsize : s.1.qty ≤ 125 := h.size
  obtain ⟨hfin, hone, hfour⟩ := hr.quantity
  refine inv_of_mem hr (mem_append_right _ (mem_singleton.mpr rfl)) (fun hlt q hq hq' => ?_) fun hwrap q hq hq' => ?_
  · rcases mem_append.mp hq with hq | hq
    · rcases h.ends with ⟨hend, hlt', hmax, -⟩ | ⟨hend, hwrap, hmax⟩
      · -- not joined for a gap or for the size: in both cases the tag ends behind the range
        have hq'' := hmax q hq hq'
        obtain ⟨-, -, hsum, hcases, -⟩ := mergedQty_of_plain (r := r) hend hlt'
        omega
      · have hq'' := hmax q hq hq'
        omega
    · rw [mem_singleton.mp hq]
  · rcases mem_append.mp hq with hq | hq
    · exact (hdone q hq).2 hwrap hq'
    · rw [mem_singleton.mp hq] at hq'
      omega

theorem inv_first (hr : Batchable area r) : Inv area [r] (openBatch area r) := by
  refine inv_of_mem hr (mem_singleton.mpr rfl) (fun _ q hq _ => ?_) fun hwrap q hq hq' => ?_
  · rw [mem_singleton.mp hq]
  · rw [mem_singleton.mp hq] at hq'
    omega

/-! ### The two directions -/

/-- The range ends below the top, but has a tag there. -/
def Broken (s : ReadBatch × ℕ) : Prop :=
  s.2 = s.1.start + s.1.qty ∧ s.2 < 2 ^ 16 ∧ ∃ r ∈ s.1.members, finish r = 2 ^ 16

theorem broken_extend (h : Broken s) (hjoin : extend modbusMaxBatchSize s r = some s') : Broken s' := by
  obtain ⟨qty, curEnd, -, -, hqty, hend', rfl⟩ := extend_eq_some hjoin
  obtain ⟨hend, hlt, q, hq, htop⟩ := h
  obtain ⟨hlt', -, hsum, -⟩ := mergedQty_of_plain (r := r) hend hlt
  rw [← hqty, ← hend'] at hsum
  rw [← hend'] at hlt'
  exact ⟨hsum.symm, hlt', q, mem_append_left _ hq, htop⟩

theorem broken_of_not_apart (h : Inv area done s) (hdone : ∀ q ∈ done, Sorted q r)
    {q : BatchTagReq} (hq : q ∈ done) (hnot : ¬ Apart q r) :
    ∃ s', extend modbusMaxBatchSize s r = some s' ∧ Broken s' := by
  have hle := le_of_inv h hdone
  have hsize : s.1.qty ≤ 125 := h.size
  unfold Apart at hnot
  push Not at hnot
  obtain ⟨htop, hfin, hreach⟩ := hnot
  rcases h.ends with ⟨hend, hlt, hmax, -⟩ | ⟨-, -, hmax⟩
  · have hq' := hmax q hq hfin
    obtain ⟨hlt', hgrow, hsum, hcases, -⟩ := mergedQty_of_plain (r := r) hend hlt
    have hqty : mergedQty s r ≤ modbusMaxBatchSize := show mergedQty s r ≤ 125 by omega
    have hjoin := extend_eq_some_iff.mpr ⟨⟨(by omega : r.ai.addr ≤ s.2), hqty⟩, rfl⟩
    refine ⟨_, hjoin, ?_⟩
    obtain ⟨qty, curEnd, -, -, hqty', hend', heq⟩ := extend_eq_some hjoin
    rw [heq]
    rw [← hqty', ← hend'] at hsum
    rw [← hend'] at hlt'
    exact ⟨hsum.symm, hlt', r, mem_append_right _ (mem_singleton.mpr rfl), htop⟩
  · have hq' := hmax q hq hfin
    omega

end

/-! ### Where a range starts -/

/-- The open range starts at a tag so far, and none of its tags begins before it. -/
def Started (area : Area) (done : List BatchTagReq) (s : ReadBatch × ℕ) : Prop :=
  s.1.area = area ∧ (∃ q ∈ done, q.ai.addr = s.1.start) ∧ ∀ r ∈ s.1.members, s.1.start ≤ r.ai.addr

section

variable {area : Area} {maxBatch : ℕ} {done : List BatchTagReq} {s s' : ReadBatch × ℕ} {r : BatchTagReq}

theorem started_extend (h : Started area done s) (hdone : ∀ q ∈ done, Sorted q r)
    (hjoin : extend maxBatch s r = some s') : Started area (done ++ [r]) s' := by
  obtain ⟨harea, ⟨q, hq, hstart⟩, hmembers⟩ := h
  obtain ⟨qty, curEnd, -, -, -, -, rfl⟩ := extend_eq_some hjoin
  refine ⟨harea, ⟨q, mem_append_left _ hq, hstart⟩, fun r' hr' => ?_⟩
  rcases mem_append.mp hr' with hr' | hr'
  · exact hmembers r' hr'
  · rw [mem_singleton.mp hr']
    exact hstart ▸ hdone q hq

theorem started_openBatch (area : Area) (hself : r ∈ done) : Started area done (openBatch area r) := by
  refine ⟨rfl, ⟨r, hself, rfl⟩, fun q hq => ?_⟩
  rw [mem_singleton.mp hq]
  exact Nat.le_refl _

theorem start_le_of_mem {l : List BatchTagReq} (hsorted : l.Pairwise Sorted) {b : ReadBatch}
    (hb : b ∈ mergeBatches area maxBatch l) : b.area = area ∧ ∀ r ∈ b.members, r ∈ l ∧ b.start ≤ r.ai.addr := by
  have hflat := flatMap_mergeBatches area maxBatch l
  have hmem : ∀ r ∈ b.members, r ∈ l := fun r hr => hflat ▸ mem_flatMap.mpr ⟨b, hb, hr⟩
  cases l with
  | nil => cases hb
  | cons r rest =>
    rw [mergeBatches_cons] at hb
    obtain ⟨s, hs, rfl⟩ := mem_map.mp hb
    obtain ⟨done, harea, -, hstart⟩ := groups_invariant (I := Started area) (P := fun _ => True)
      (fun h _ hdone hjoin => started_extend h hdone hjoin)
      (fun _ _ _ _ => started_openBatch area (mem_append_right _ (mem_singleton.mpr rfl)))
      (started_openBatch area (mem_singleton.mpr rfl)) (fun _ _ => trivial) hsorted s hs
    exact ⟨harea, fun q hq => ⟨hmem q hq, hstart q hq⟩⟩

end

/-! ### Reading a range -/

def width : DataType → ℕ
  | .bool | .uint16 | .int16 => 1
  | .uint32 | .int32 | .float32 => 2
  | .float64 | .uint64 | .int64 => 4
  | _ => 0

theorem batchQuantity_register {ai : AddrInfo} {n : ℕ} (hbit : ai.area.isBit = false) :
    batchQuantity ai dt = some n ↔ n = width dt ∧ 0 < n := by
  unfold batchQuantity
  rw [hbit]
  cases dt <;> simp [width] <;> omega

theorem extract_congr {regs regs' : List (BitVec 16)} {offset offset' : ℕ}
    (hregs : ∀ k < width dt, regs[offset + k]? = regs'[offset' + k]?) :
    extractRegisterValue p regs offset dt = extractRegisterValue p regs' offset' dt := by
  have h0 : 0 < width dt → regs[offset]? = regs'[offset']? := hregs 0
  have h1 := hregs 1
  have h2 := hregs 2
  have h3 := hregs 3
  unfold extractRegisterValue
  cases dt with
  | string | bytes | int8 | uint8 => rfl
  | bool | uint16 | int16 => rw [h0 (by decide)]
  | uint32 | int32 | float32 => rw [h0 (by decide), h1 (by decide)]
  | _ => rw [h0 (by decide), h1 (by decide), h2 (by decide), h3 (by decide)]

theorem extract_isSome (f : ℕ → BitVec 16) (hdt : 0 < width dt) :
    (extractRegisterValue p ((List.range (width dt)).map f) 0 dt).isSome = true := by
  cases dt <;> first | exact absurd hdt (by decide) | rfl

theorem extract_eq_none {regs : List (BitVec 16)} {offset : ℕ}
    (hshort : regs.length < offset + width dt) : extractRegisterValue p regs offset dt = none := by
  have hlast : ∀ {k}, width dt = k + 1 → regs[offset + k]? = none := by
    intro k hk
    exact List.getElem?_eq_none (by omega)
  unfold extractRegisterValue
  cases dt with
  | string => rfl
  | bytes => rfl
  | int8 => rfl
  | uint8 => rfl
  | bool | uint16 | int16 =>
    have h0 : regs[offset]? = none := hlast rfl
    simp [h0]
  | uint32 | int32 | float32 =>
    have h1 : regs[offset + 1]? = none := hlast rfl
    cases regs[offset]? <;> simp [h1]
  | float64 | uint64 | int64 =>
    have h3 : regs[offset + 3]? = none := hlast rfl
    cases regs[offset]? <;> cases regs[offset + 1]? <;> cases regs[offset + 2]? <;> simp [h3]

theorem extract_range (m : Memory) {b : ReadBatch} (hinside : Inside b r) (hqty : r.qty.getD 0 = width r.dt) :
    extractRegisterValue p ((List.range b.qty).map fun i => m.register b.area (b.start + i)) (r.ai.addr - b.start) r.dt =
      extractRegisterValue p ((List.range (width r.dt)).map fun i => m.register b.area (r.ai.addr + i)) 0 r.dt := by
  obtain ⟨hlow, hhigh⟩ := hinside
  unfold finish at hhigh
  refine extract_congr p fun k hk => ?_
  have hk' : r.ai.addr - b.start + k < b.qty := by omega
  have haddr : b.start + (r.ai.addr - b.start + k) = r.ai.addr + k := by omega
  rw [List.getElem?_map, List.getElem?_range hk', List.getElem?_map, Nat.zero_add, List.getElem?_range hk,
    map_some, map_some, haddr]

theorem exists_extract (p : Platform) (hdt : 0 < width dt) (regs : ℕ → BitVec 16) :
    ∃ v, extractRegisterValue p ((List.range (width dt)).map regs) 0 dt = some v := by
  cases dt with
  | string | bytes | int8 | uint8 => cases hdt
  | _ => exact ⟨_, rfl⟩

theorem readTag_register (m : Memory) {ai : AddrInfo} {v : GoValue} (hbit : ai.area.isBit = false) (hdt : 0 < width dt)
    (tag : String)
    (hv : extractRegisterValue p ((List.range (width dt)).map fun i => m.register ai.area (ai.addr + i)) 0 dt = some v) :
    readTag p m ai dt tag = .ok v := by
  unfold readTag
  rw [hbit, if_neg nofun, (batchQuantity_register hbit).mpr ⟨rfl, hdt⟩]
  simp [hv]

section

variable {b : ReadBatch} {r : BatchTagReq} (p : Platform) (m : Memory)

theorem offset_eq (hr : Placed b.area r) (hlow : b.start ≤ r.ai.addr) :
    (r.ai.addr + 2 ^ 16 - b.start) % 2 ^ 16 = r.ai.addr - b.start := by
  have haddr := hr.addr
  omega

theorem readMember_bit (hr : Placed b.area r) (hlow : b.start ≤ r.ai.addr) (hbit : b.area.isBit = true) :
    (Inside b r ∧ ∃ v, readMember p m b r = some (r.index, v) ∧ readTag p m r.ai r.dt r.name = .ok v) ∨
      (¬ Inside b r ∧ readMember p m b r = none) := by
  have hdt : r.dt = .bool := by
    by_contra hne
    refine hr.some ?_
    rw [hr.qty]
    unfold batchQuantity
    rw [hr.area, hbit, if_pos rfl, if_neg hne]
  have hone : finish r = r.ai.addr + 1 := by
    unfold finish
    rw [hr.qty]
    unfold batchQuantity
    rw [hr.area, hbit, if_pos rfl, if_pos hdt, getD_some]
  have haddr : b.start + (r.ai.addr - b.start) = r.ai.addr := by omega
  simp only [readMember, offset_eq hr hlow, hbit, if_true]
  by_cases hlt : r.ai.addr - b.start < b.qty
  · refine .inl ⟨⟨hlow, by omega⟩, .bool (m.bit b.area r.ai.addr), by rw [if_pos hlt, haddr], ?_⟩
    rw [readTag, hr.area, hbit, if_pos rfl, if_pos hdt]
  · refine .inr ⟨fun hinside => ?_, if_neg hlt⟩
    have hhigh := hinside.2
    omega

theorem readMember_register (hr : Placed b.area r) (hlow : b.start ≤ r.ai.addr) (hbit : b.area.isBit = false) :
    (Inside b r ∧ ∃ v, readMember p m b r = some (r.index, v) ∧ readTag p m r.ai r.dt r.name = .ok v) ∨
      (¬ Inside b r ∧ readMember p m b r = none) := by
  have hbit' : r.ai.area.isBit = false := hr.area.symm ▸ hbit
  obtain ⟨n, hn⟩ := ne_none_iff_exists'.mp hr.some
  obtain ⟨hwidth, hpos⟩ := (batchQuantity_register hbit').mp (hr.qty ▸ hn)
  have hqty : r.qty.getD 0 = width r.dt := by rw [hn, hwidth, getD_some]
  simp only [readMember, offset_eq hr hlow, hbit, Bool.false_eq_true, if_false]
  by_cases hinside : Inside b r
  · obtain ⟨v, hv⟩ := isSome_iff_exists.mp
      (extract_isSome p (fun i => m.register b.area (r.ai.addr + i)) (hwidth ▸ hpos))
    refine .inl ⟨hinside, v, ?_, readTag_register p m hbit' (hwidth ▸ hpos) r.name (hr.area.symm ▸ hv)⟩
    rw [extract_range p m hinside hqty, hv, map_some]
  · refine .inr ⟨hinside, map_eq_none_iff.mpr (extract_eq_none p ?_)⟩
    unfold Inside finish at hinside
    rw [length_map, length_range]
    omega

/-- **A member of a range**: it is inside and has the value that `readTag` gives for it alone, or the index is out of
range. -/
theorem readMember_spec (hr : Placed b.area r) (hlow : b.start ≤ r.ai.addr) :
    (Inside b r ∧ ∃ v, readMember p m b r = some (r.index, v) ∧ readTag p m r.ai r.dt r.name = .ok v) ∨
      (¬ Inside b r ∧ readMember p m b r = none) := by
  cases hbit : b.area.isBit with
  | true => exact readMember_bit p m hr hlow hbit
  | false => exact readMember_register p m hr hlow hbit

theorem exists_readBatch (hb : ∀ r ∈ b.members, Placed b.area r ∧ Inside b r) :
    ∃ values, readBatch p m b = some values := by
  have hall : ∀ r ∈ b.members, ∃ v, readMember p m b r = some v := by
    intro r hr
    obtain ⟨hplaced, hinside⟩ := hb r hr
    rcases readMember_spec p m hplaced hinside.1 with ⟨-, v, hv, -⟩ | ⟨hnot, -⟩
    · exact ⟨_, hv⟩
    · exact absurd hinside hnot
  obtain ⟨values, hvalues, -⟩ := mapM_of_forall hall
  exact ⟨values, hvalues⟩

/-- **The values of a range are those of its tags.** -/
theorem mem_readBatch_iff {p : Platform} {m : Memory} {values : List (ℕ × GoValue)}
    (hb : ∀ r ∈ b.members, Placed b.area r ∧ b.start ≤ r.ai.addr) (h : readBatch p m b = some values) (i : ℕ)
    (v : GoValue) : (i, v) ∈ values ↔
      ∃ r ∈ b.members, r.index = i ∧ Inside b r ∧ readTag p m r.ai r.dt r.name = .ok v := by
  rw [mem_of_mapM_eq_some h]
  refine exists_congr fun r => and_congr_right fun hr => ?_
  obtain ⟨hplaced, hlow⟩ := hb r hr
  show readMember p m b r = some (i, v) ↔ _
  rcases readMember_spec p m hplaced hlow with ⟨hinside, v', hv', hread⟩ | ⟨hnot, hnone⟩
  · rw [hv', hread]
    simp [hinside]
  · rw [hnone]
    simp [hnot]

end

/-! ### All tags are inside their ranges -/

/-- What the requests rely on: each tag is in one range and inside it, a range is not too long, and reading it does not
look behind the end of the response. -/
structure InBounds (area : Area) (l : List BatchTagReq) (batches : List ReadBatch) : Prop where
  members : batches.flatMap ReadBatch.members = l
  area : ∀ b ∈ batches, b.area = area
  size : ∀ b ∈ batches, b.qty ≤ modbusMaxBatchSize
  inside : ∀ b ∈ batches, ∀ r ∈ b.members, Inside b r
  total : ∀ b ∈ batches, ∀ p m, (readBatch p m b).isSome = true

theorem inBounds_of_apart {l : List BatchTagReq} (hl : ∀ r ∈ l, Batchable area r) (hsorted : l.Pairwise Sorted)
    (hapart : l.Pairwise Apart) :
    InBounds area l (mergeBatches area modbusMaxBatchSize l) := by
  have hflat := flatMap_mergeBatches area modbusMaxBatchSize l
  have hall : ∀ b ∈ mergeBatches area modbusMaxBatchSize l, ∃ done s, Inv area done s ∧ s.1 = b := by
    intro b hb
    cases l with
    | nil => cases hb
    | cons r rest =>
      rw [mergeBatches_cons] at hb
      obtain ⟨s, hs, rfl⟩ := mem_map.mp hb
      obtain ⟨done, hI⟩ := groups_invariant inv_extend inv_openBatch (inv_first (hl r (mem_cons_self ..)))
        (fun q hq => hl q (mem_cons_of_mem _ hq)) (hsorted.and hapart) s hs
      exact ⟨done, s, hI, rfl⟩
  refine ⟨hflat, fun b hb => ?_, fun b hb => ?_, fun b hb q hq => ?_, fun b hb p m => ?_⟩
  · obtain ⟨done, s, hI, rfl⟩ := hall b hb
    exact hI.area
  · obtain ⟨done, s, hI, rfl⟩ := hall b hb
    exact hI.size
  · obtain ⟨done, s, hI, rfl⟩ := hall b hb
    exact (hI.inside q hq).2
  · obtain ⟨done, s, hI, rfl⟩ := hall b hb
    obtain ⟨values, hvalues⟩ := exists_readBatch p m fun q hq => by
      have hmem : q ∈ l := hflat ▸ mem_flatMap.mpr ⟨s.1, hb, hq⟩
      exact ⟨hI.area.symm ▸ (hl q hmem).placed, (hI.inside q hq).2⟩
    rw [hvalues]
    rfl

/-- **Merged reads in bounds**: for the batchable tags of an area, by address, exactly if no tag that ends at the top of
the address space comes after one that reaches it and ends below. -/
theorem merge_in_bounds_iff (area : Area) (l : List BatchTagReq) (hl : ∀ r ∈ l, Batchable area r)
    (hsorted : l.Pairwise Sorted) :
    InBounds area l (mergeBatches area modbusMaxBatchSize l) ↔ l.Pairwise Apart := by
  refine ⟨fun h => ?_, inBounds_of_apart hl hsorted⟩
  cases l with
  | nil => exact .nil
  | cons r rest =>
    refine pairwise_of_groups (I := Inv area) (R := Sorted) (C := Apart) (P := Batchable area) (B := Broken) inv_extend
      inv_openBatch (fun hI _ hR hq hnot => broken_of_not_apart hI hR hq hnot) broken_extend
      (inv_first (hl r (mem_cons_self ..))) (fun q hq => hl q (mem_cons_of_mem _ hq)) hsorted
      (pairwise_singleton _ _) fun s hs hbroken => ?_
    obtain ⟨hend, hlt, q, hq, htop⟩ := hbroken
    have hmem : s.1 ∈ mergeBatches area modbusMaxBatchSize (r :: rest) := by
      rw [mergeBatches_cons]
      exact mem_map_of_mem hs
    have hinside := (h.inside s.1 hmem q hq).2
    omega

def requestAt (index addr : ℕ) (dt : DataType) : BatchTagReq :=
  ⟨index, "t", { name := "t", address := toString addr, type := dt.name }, ⟨.holdingRegister, addr⟩, dt,
    batchQuantity ⟨.holdingRegister, addr⟩ dt⟩

/-- The last register of all, after a tag that does not reach it. -/
theorem merge_last_register : InBounds .holdingRegister [requestAt 0 65530 .uint32, requestAt 1 65535 .uint16]
      (mergeBatches .holdingRegister modbusMaxBatchSize [requestAt 0 65530 .uint32, requestAt 1 65535 .uint16]) := by
  refine (merge_in_bounds_iff .holdingRegister _ (fun r hr => ?_) ?_).mpr ?_
  · rcases mem_pair.mp hr with rfl | rfl
    · exact ⟨rfl, rfl, nofun, by decide⟩
    · exact ⟨rfl, rfl, nofun, by decide⟩
  · exact pairwise_pair.mpr (show 65530 ≤ 65535 by decide)
  · exact pairwise_pair.mpr fun _ _ => show 65532 < 65535 by decide

/-- The last four registers join the two before them, in a range of two. -/
theorem merge_past_top : parseModbusAddress "65530" = some ⟨.holdingRegister, 65530⟩ ∧
    parseModbusAddress "65532" = some ⟨.holdingRegister, 65532⟩ ∧
    finish (requestAt 1 65532 .uint64) = 65536 ∧
    ∃ b, mergeBatches .holdingRegister modbusMaxBatchSize [requestAt 0 65530 .uint32, requestAt 1 65532 .uint64] = [b] ∧
      b.start + b.qty = 65532 ∧ ∀ p m, readBatch p m b = none := by
  refine ⟨by decide, by decide, by decide, _, rfl, by decide, fun p m => ?_⟩
  rfl

end CoreC.Modbus.Merge
