import CoreC.Lib.OptionList
import CoreC.Lib.Scatter
import CoreC.S7.BitWrite
import CoreC.S7.Segments

/-! # Merged reads of an S7 controller: the values

`Read` (`driver/s7/s7.go`) takes the names in batches of 220. In a batch (`readS7Batch`, `driver/s7/s7_merge.go`) the
tags that are no bits are decoded out of the segments of the plan, and the bits are read one by one; the results are
written to the positions of the names. On a controller whose memory does not change this gives what `readAddress` gives
for each tag alone, except that an error of decoding begins with `s7 read error: ` in a segment. -/

namespace CoreC.S7.Reading

open Core.Types Lib.OptionList Lib.Scatter Modbus.Driver S7.Address S7.BitWrite List Option
open S7.Codec S7.Segments S7.Write
open Modbus.RoundTrip (amd64)

/-! ### The driver -/

def s7MaxBatchSize : ℕ := 220

/-- The answers of the controller to area reads: area, number of the data block, first byte and length. -/
abbrev Client := S7Area → ℕ → ℕ → ℕ → Except String (List UInt8)

def readError (e : String) : String := "s7 read error: " ++ e

def zeroResult : TagResult := ⟨⟨"", .nil, .bool, .good⟩, none⟩

/-- `buf[off : off+size]`; `none` if it is out of range. -/
def slice (buf : List UInt8) (off : ℤ) (size : ℕ) : Option (List UInt8) :=
  if 0 ≤ off ∧ off + size ≤ buf.length then some ((buf.drop off.toNat).take size) else none

section

variable (p : Platform) (h : Helper) (client : Client)

def s7GoodTagValue (tag : S7ReadTag) (val : GoValue) : TagResult :=
  .good tag.name (applyTransform p val tag.scale tag.offset) tag.dt

def readAddress (addr : S7Address) (dt : DataType) : Except String GoValue :=
  match client addr.area addr.dbNumber addr.start addr.size with
  | .error e => .error (readError e)
  | .ok buf => decodeS7Buffer h buf addr dt

def readBitTag (tag : S7ReadTag) : TagResult :=
  match readAddress h client tag.addr tag.dt with
  | .error e => .bad tag.name e
  | .ok val => s7GoodTagValue p tag val

def decodeEntry (buf : List UInt8) (seg : S7ReadSegment) (tag : S7ReadTag) : Option (ℕ × TagResult) :=
  (slice buf (tag.addr.start - seg.start) tag.addr.size).map fun sub =>
    (tag.index,
      match decodeS7Buffer h sub tag.addr tag.dt with
      | .error e => .bad tag.name (readError e)
      | .ok val => s7GoodTagValue p tag val)

/-- `readMergedSegment`; `none` if a slice is out of range. -/
def readMergedSegment (values : List TagResult) (seg : S7ReadSegment) : Option (List TagResult) :=
  match client seg.area seg.dbNumber seg.start seg.length with
  | .error e => some (scatter values (seg.entries.map fun tag => (tag.index, .bad tag.name (readError e))))
  | .ok buf => (seg.entries.mapM (decodeEntry p h buf seg)).map (scatter values)

def resolveOne (d : S7Driver) (name : String) (i : ℕ) : Option S7ReadTag :=
  (d.tags.lookup name).map fun (cfg, addr) =>
    ⟨i, name, addr, (parseDataType cfg.type).getD .bool, cfg.scale, cfg.offset⟩

def readS7Batch (d : S7Driver) (batch : List String) : Option (List TagResult) :=
  let values := batch.map fun name =>
    if (d.tags.lookup name).isSome then zeroResult else .bad name ("tag not found: " ++ name)
  let tags := batch.zipIdx.filterMap fun (name, i) => resolveOne d name i
  let wordTags := tags.filter fun tag => !tag.addr.isBit
  let bitTags := tags.filter fun tag => tag.addr.isBit
  ((planS7ReadSegments wordTags).foldlM (readMergedSegment p h client) values).map fun values =>
    scatter values (bitTags.map fun tag => (tag.index, readBitTag p h client tag))

/-- The loop of `Read` over the batches. -/
def readBatches (d : S7Driver) (tags : List String) : Option (List TagResult) :=
  if _hnil : tags = [] then some []
  else
    (readS7Batch p h client d (tags.take s7MaxBatchSize)).bind fun values =>
      (readBatches d (tags.drop s7MaxBatchSize)).map fun rest => values ++ rest
termination_by tags.length
decreasing_by
  have hpos := length_pos_of_ne_nil _hnil
  rw [length_drop]
  unfold s7MaxBatchSize
  omega

end

/-- `Read` of the driver with the name; there is a client if the driver is connected. -/
def read (p : Platform) (h : Helper) (name : String) (client : Option Client) (d : S7Driver) (tags : List String) :
    Option (Except String (List TagResult)) :=
  match client with
  | none => some (.error ("driver " ++ name ++ " is not connected"))
  | some client => (readBatches p h client d tags).map .ok

/-! ### A controller that does not change -/

def bytes (memory : S7.Write.Memory) (area : S7Area) (dbNumber start size : ℕ) : List UInt8 :=
  (List.range size).map fun i => memory (S7Address.cell { area := area, dbNumber := dbNumber, start := start + i })

/-- The client reads the memory. -/
def Serves (client : Client) (memory : S7.Write.Memory) : Prop :=
  ∀ area dbNumber start size, client area dbNumber start size = .ok (bytes memory area dbNumber start size)

/-- What `readAddress` and the transform give for a tag alone. -/
def readAlone (p : Platform) (h : Helper) (client : Client) (d : S7Driver) (name : String) : TagResult :=
  match d.tags.lookup name with
  | none => .bad name ("tag not found: " ++ name)
  | some (cfg, addr) =>
    let dt := (parseDataType cfg.type).getD .bool
    match readAddress h client addr dt with
    | .error e => .bad name e
    | .ok val => .good name (applyTransform p val cfg.scale cfg.offset) dt

/-- The error of a tag that the driver knows, as a segment reports it. -/
def merged (d : S7Driver) (res : TagResult) : TagResult :=
  if (d.tags.lookup res.tag).isSome then { res with error := res.error.map readError } else res

/-- The tags have addresses that were read from texts, and no tag is a string. -/
def Table (d : S7Driver) : Prop := ∀ name cfg addr, d.tags.lookup name = some (cfg, addr) →
  (parseDataType cfg.type).getD .bool ≠ .string ∧
    ∃ addrStr, parseS7Address addrStr ((parseDataType cfg.type).getD .bool) = .ok addr

section

variable {p : Platform} {h : Helper} {client : Client} {memory : S7.Write.Memory} {d : S7Driver} {tag : S7ReadTag}
  {name : String}

theorem slice_bytes (memory : S7.Write.Memory) {seg : S7ReadSegment} (hinside : Inside seg tag) :
    slice (bytes memory seg.area seg.dbNumber seg.start seg.length) (tag.addr.start - seg.start) tag.addr.size =
      some (bytes memory tag.addr.area tag.addr.dbNumber tag.addr.start tag.addr.size) := by
  obtain ⟨harea, hdb, hlow, hhigh⟩ := hinside
  have hlength : (bytes memory seg.area seg.dbNumber seg.start seg.length).length = seg.length := by
    rw [bytes, length_map, length_range]
  have hoff : ((tag.addr.start : ℤ) - seg.start).toNat = tag.addr.start - seg.start := by omega
  unfold slice
  rw [if_pos (by omega), hoff, harea, hdb]
  congr 1
  refine ext_getElem ?_ fun i hi hi' => ?_
  · rw [length_take, length_drop, hlength, bytes, length_map, length_range]
    omega
  · have hstart : seg.start + (tag.addr.start - seg.start + i) = tag.addr.start + i := by omega
    simp [bytes, hstart]

def result (p : Platform) (h : Helper) (memory : S7.Write.Memory) (tag : S7ReadTag) : TagResult :=
  match decodeS7Buffer h (bytes memory tag.addr.area tag.addr.dbNumber tag.addr.start tag.addr.size) tag.addr tag.dt with
  | .error e => .bad tag.name (readError e)
  | .ok val => s7GoodTagValue p tag val

variable (hserves : Serves client memory)
include hserves

theorem readMergedSegment_eq {seg : S7ReadSegment}
    (hinside : ∀ tag ∈ seg.entries, Inside seg tag) (values : List TagResult) :
    readMergedSegment p h client values seg =
      some (scatter values (seg.entries.map fun tag => (tag.index, result p h memory tag))) := by
  have hentries : seg.entries.mapM (decodeEntry p h (bytes memory seg.area seg.dbNumber seg.start seg.length) seg) =
      some (seg.entries.map fun tag => (tag.index, result p h memory tag)) := by
    have hentry : ∀ tag ∈ seg.entries, decodeEntry p h (bytes memory seg.area seg.dbNumber seg.start seg.length) seg tag =
        some (tag.index, result p h memory tag) := by
      intro tag htag
      rw [decodeEntry, slice_bytes memory (hinside tag htag)]
      rfl
    obtain ⟨writes, hwrites, hmap⟩ := mapM_of_forall fun tag htag => ⟨_, hentry tag htag⟩
    rw [hwrites, some.injEq]
    refine map_injective_iff.mpr (some_injective _) ?_
    rw [hmap, List.map_map]
    exact map_congr_left hentry
  unfold readMergedSegment
  rw [hserves]
  simp [hentries]

theorem foldlM_readMergedSegment :
    ∀ (segments : List S7ReadSegment) (values : List TagResult),
      (∀ seg ∈ segments, ∀ tag ∈ seg.entries, Inside seg tag) →
      segments.foldlM (readMergedSegment p h client) values =
        some (scatter values ((segments.flatMap S7ReadSegment.entries).map fun tag => (tag.index, result p h memory tag)))
  | [], values, _ => rfl
  | seg :: segments, values, hinside => by
    have hseg := readMergedSegment_eq (p := p) (h := h) hserves (hinside seg (mem_cons_self ..)) values
    have hrest := foldlM_readMergedSegment segments
      (scatter values (seg.entries.map fun tag => (tag.index, result p h memory tag)))
      fun seg hseg => hinside seg (mem_cons_of_mem _ hseg)
    rw [foldlM_cons, hseg, bind_eq_bind, bind_some, hrest, ← scatter_append, ← map_append, flatMap_cons]

/-! ### A batch -/

omit hserves in
theorem mem_tags_iff {batch : List String} : tag ∈ batch.zipIdx.filterMap (fun (name, i) => resolveOne d name i) ↔
      ∃ name, batch[tag.index]? = some name ∧ resolveOne d name tag.index = some tag := by
  rw [mem_filterMap]
  constructor
  · rintro ⟨⟨name, i⟩, hmem, htag⟩
    have hindex : tag.index = i := by
      obtain ⟨-, -, rfl⟩ := map_eq_some_iff.mp htag
      rfl
    exact ⟨name, hindex ▸ mk_mem_zipIdx_iff_getElem?.mp hmem, hindex ▸ htag⟩
  · rintro ⟨name, hname, htag⟩
    exact ⟨(name, tag.index), mk_mem_zipIdx_iff_getElem?.mpr hname, htag⟩

theorem readBitTag_eq (hbit : tag.addr.isBit = true) :
    readBitTag p h client tag = result p h memory tag := by
  unfold readBitTag readAddress result decodeS7Buffer
  simp [hserves _ _ _ _, hbit]

omit hserves in
theorem merged_of_known (res : TagResult) (hknown : (d.tags.lookup res.tag).isSome = true) :
    merged d res = { res with error := res.error.map readError } := if_pos hknown

theorem result_eq {i : ℕ}
    (htag : resolveOne d name i = some tag) : result p h memory tag = merged d (readAlone p h client d name) := by
  obtain ⟨⟨cfg, addr⟩, hlook, rfl⟩ := map_eq_some_iff.mp htag
  have hknown : (d.tags.lookup name).isSome = true := by rw [hlook]; rfl
  unfold result readAlone readAddress
  rw [hlook]
  simp only [hserves _ _ _ _]
  cases decodeS7Buffer h (bytes memory addr.area addr.dbNumber addr.start addr.size) addr
      ((parseDataType cfg.type).getD .bool) with
  | error e => exact (merged_of_known (.bad name e) hknown).symm
  | ok val => exact (merged_of_known (.good name (applyTransform p val cfg.scale cfg.offset) _) hknown).symm

omit hserves in
theorem merged_of_unknown (hlook : d.tags.lookup name = none) :
    merged d (readAlone p h client d name) = .bad name ("tag not found: " ++ name) := by
  have halone : readAlone p h client d name = .bad name ("tag not found: " ++ name) := by
    rw [readAlone, hlook]
  rw [halone]
  exact if_neg (by rw [TagResult.bad, hlook]; nofun)

omit hserves in
theorem bounded_of_table (htable : Table d) {i : ℕ} (htag : resolveOne d name i = some tag) : Bounded tag.addr := by
  obtain ⟨⟨cfg, addr⟩, hlook, rfl⟩ := map_eq_some_iff.mp htag
  obtain ⟨-, addrStr, hparse⟩ := htable name cfg addr hlook
  exact parseS7Address_bounded hparse

theorem mem_writes_iff {tags : List S7ReadTag} {segments : List S7ReadSegment}
    (hcover : Covering (tags.filter fun tag => !tag.addr.isBit) segments) (i : ℕ) (res : TagResult) :
    (i, res) ∈ (segments.flatMap S7ReadSegment.entries).map (fun tag => (tag.index, result p h memory tag)) ++
        (tags.filter fun tag => tag.addr.isBit).map (fun tag => (tag.index, readBitTag p h client tag)) ↔
      ∃ tag ∈ tags, tag.index = i ∧ result p h memory tag = res := by
  rw [List.mem_append, List.mem_map, List.mem_map]
  constructor
  · rintro (⟨tag, htag, heq⟩ | ⟨tag, htag, heq⟩)
    · have hword := (mem_filter.mp (hcover.entries.mem_iff.mp htag)).1
      exact ⟨tag, hword, congrArg Prod.fst heq, congrArg Prod.snd heq⟩
    · obtain ⟨htag, hbit⟩ := mem_filter.mp htag
      rw [readBitTag_eq hserves hbit] at heq
      exact ⟨tag, htag, congrArg Prod.fst heq, congrArg Prod.snd heq⟩
  · rintro ⟨tag, htag, rfl, rfl⟩
    by_cases hbit : tag.addr.isBit = true
    · exact .inr ⟨tag, mem_filter.mpr ⟨htag, hbit⟩, by rw [readBitTag_eq hserves hbit]⟩
    · refine .inl ⟨tag, hcover.entries.mem_iff.mpr (mem_filter.mpr ⟨htag, ?_⟩), rfl⟩
      rw [Bool.eq_false_iff.mpr hbit]
      rfl

/-- **The results of a batch** are those of the tags alone. -/
theorem readS7Batch_eq (htable : Table d) (batch : List String) :
    readS7Batch p h client d batch = some (batch.map fun name => merged d (readAlone p h client d name)) := by
  unfold readS7Batch
  generalize htags : batch.zipIdx.filterMap (fun (name, i) => resolveOne d name i) = tags
  have hmem : ∀ tag, tag ∈ tags ↔ ∃ name, batch[tag.index]? = some name ∧ resolveOne d name tag.index = some tag :=
    fun tag => htags ▸ mem_tags_iff
  have hcover : Covering (tags.filter fun tag => !tag.addr.isBit)
      (planS7ReadSegments (tags.filter fun tag => !tag.addr.isBit)) := by
    refine covering_plan fun tag htag => ?_
    obtain ⟨name, -, hr⟩ := (hmem tag).mp (mem_filter.mp htag).1
    exact bounded_of_table htable hr
  have hwrites := mem_writes_iff (p := p) (h := h) hserves hcover
  simp only [foldlM_readMergedSegment hserves _ _ hcover.inside, map_some, ← scatter_append, some.injEq]
  refine ext_getElem? fun i => ?_
  rw [List.getElem?_map]
  cases hname : batch[i]? with
  | none =>
    rw [map_none, List.getElem?_eq_none_iff, length_scatter, length_map]
    exact List.getElem?_eq_none_iff.mp hname
  | some name =>
    -- a tag at this position is the one of this name
    have hposition : ∀ {tag}, tag ∈ tags → tag.index = i → resolveOne d name i = some tag := by
      intro tag htag hindex
      obtain ⟨name', hname', hr⟩ := (hmem tag).mp htag
      rw [hindex, hname] at hname'
      rw [some.inj hname', ← hindex]
      exact hr
    rw [map_some]
    cases htag : resolveOne d name i with
    | none =>
      have hlook : d.tags.lookup name = none := map_eq_none_iff.mp htag
      rw [scatter_of_notMem, List.getElem?_map, hname, map_some, merged_of_unknown hlook, hlook]
      · rfl
      · intro hi
        obtain ⟨⟨j, res⟩, hmem, rfl⟩ := mem_map.mp hi
        obtain ⟨tag, htag', hindex, -⟩ := (hwrites _ _).mp hmem
        exact nomatch htag.symm.trans (hposition htag' hindex)
    | some tag =>
      have hindex : tag.index = i := by
        obtain ⟨-, -, rfl⟩ := map_eq_some_iff.mp htag
        rfl
      have htags' : tag ∈ tags := (hmem tag).mpr ⟨name, hindex ▸ hname, hindex ▸ htag⟩
      rw [← result_eq hserves htag]
      refine scatter_of_mem ?_ ((hwrites _ _).mpr ⟨tag, htags', hindex, rfl⟩) fun res hres => ?_
      · rw [length_map]
        exact (List.getElem?_eq_some_iff.mp hname).1
      · obtain ⟨tag', htag', hindex', rfl⟩ := (hwrites _ _).mp hres
        rw [some.inj ((hposition htag' hindex').symm.trans htag)]

theorem readBatches_eq (htable : Table d) (tags : List String) :
    readBatches p h client d tags = some (tags.map fun name => merged d (readAlone p h client d name)) := by
  induction hlength : tags.length using Nat.strong_induction_on generalizing tags with
  | _ n ih =>
    rw [readBatches]
    by_cases hnil : tags = []
    · rw [hnil]
      rfl
    · have hpos := length_pos_of_ne_nil hnil
      have hlt : (tags.drop s7MaxBatchSize).length < n := by
        rw [length_drop]
        unfold s7MaxBatchSize
        omega
      rw [dif_neg hnil, readS7Batch_eq hserves htable, bind_some, ih _ hlt _ rfl, map_some,
        ← map_append, take_append_drop]

end

/-- **Merged reads are reads tag by tag**, up to what the error of a tag that cannot be decoded begins with: on every
memory, for every table and every list of names. Every plan covers its tags. -/
theorem read_eq_merged (p : Platform) (h : Helper) (name : String) (d : S7Driver) (client : Client)
    (memory : S7.Write.Memory) (tags : List String) (hserves : Serves client memory) (htable : Table d) :
    read p h name (some client) d tags = some (.ok (tags.map fun tag => merged d (readAlone p h client d tag))) ∧
      ∀ plan : List S7ReadTag, (∀ tag ∈ plan, ∃ addrStr dt, parseS7Address addrStr dt = .ok tag.addr) →
        Covering plan (planS7ReadSegments plan) := by
  refine ⟨?_, fun plan hplan => covering_plan fun tag htag => ?_⟩
  · rw [read, readBatches_eq hserves htable]
    rfl
  · obtain ⟨addrStr, dt, hparse⟩ := hplan tag htag
    exact parseS7Address_bounded hparse

/-- A tag whose address is too short for its type, and one that can be decoded. -/
def tankDriver : S7Driver where
  tags := (AList.singleton "pressure" ({ name := "pressure", address := "DB1.DBW2", type := "uint16" },
      { area := .db, dbNumber := 1, start := 2, size := 2 })).insert "level"
    ({ name := "level", address := "DB1.DBB0", type := "uint16" }, { area := .db, dbNumber := 1, start := 0 })

def zeroClient : Client := fun area dbNumber start size => .ok (bytes (fun _ => 0) area dbNumber start size)

theorem table_tankDriver : Table tankDriver := by
  intro name cfg addr hlook
  by_cases hname : name = "level"
  · rw [hname, tankDriver] at hlook
    cases hlook
    exact ⟨by decide, "DB1.DBB0", by decide⟩
  · rw [tankDriver, AList.lookup_insert_ne hname] at hlook
    have hpressure : name = "pressure" := by
      have hmem := AList.lookup_isSome.mp (isSome_of_eq_some hlook)
      rwa [AList.mem_keys, AList.keys_singleton, mem_singleton] at hmem
    rw [hpressure] at hlook
    cases hlook
    exact ⟨by decide, "DB1.DBW2", by decide⟩

/-- The value of a tag, the error of another one, and a name that is not in the table. -/
theorem read_tank :
    readAlone amd64 plainHelper zeroClient tankDriver "pressure" = .good "pressure" (.int .uint16 0) .uint16 ∧
    read amd64 plainHelper "tank" (some zeroClient) tankDriver ["level", "pressure", "flow"] =
      some (.ok (["level", "pressure", "flow"].map fun tag =>
        merged tankDriver (readAlone amd64 plainHelper zeroClient tankDriver tag))) ∧
    ∀ plan : List S7ReadTag, (∀ tag ∈ plan, ∃ addrStr dt, parseS7Address addrStr dt = .ok tag.addr) →
      Covering plan (planS7ReadSegments plan) :=
  ⟨rfl, read_eq_merged amd64 plainHelper "tank" tankDriver zeroClient (fun _ => 0) ["level", "pressure", "flow"]
    (fun _ _ _ _ => rfl) table_tankDriver⟩

/-- The error of the segment, and that of the tag alone. -/
theorem level_error_differs : parseS7Address "DB1.DBB0" .uint16 = .ok { area := .db, dbNumber := 1, start := 0 } ∧
    read amd64 plainHelper "tank" (some zeroClient) tankDriver ["level"] =
      some (.ok [.bad "level" "s7 read error: s7: buffer too small for type uint16: have 1 bytes, need 2"]) ∧
    readAlone amd64 plainHelper zeroClient tankDriver "level" =
      .bad "level" "s7: buffer too small for type uint16: have 1 bytes, need 2" := by
  have hbatch : readS7Batch amd64 plainHelper zeroClient tankDriver (["level"].take s7MaxBatchSize) =
      some [.bad "level" "s7 read error: s7: buffer too small for type uint16: have 1 bytes, need 2"] := rfl
  have hrest : readBatches amd64 plainHelper zeroClient tankDriver (["level"].drop s7MaxBatchSize) = some [] := by
    rw [readBatches]
    rfl
  refine ⟨by decide, ?_, rfl⟩
  rw [read, readBatches, hbatch, hrest]
  rfl

end CoreC.S7.Reading
