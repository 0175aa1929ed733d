import Mathlib.Data.List.Sort
import Mathlib.Data.Nat.Digits.Defs
import CoreC.Lib.Json.Text
import CoreC.Lib.Runs

/-! # The offline buffer

`OfflineBuffer` (`engine/offlinebuffer.go`) as a directory of numbered files, shared by the `Push` and `Drain` calls of
all transports. A step is one section of `mu`: a whole `Push`, or the listing, one read or one removal of the `Drain`
that holds `drainMu`; the answer of `tryPublish` is a step of its own. What the disk refuses is part of the step.

* `Trans`, `trans_of_step`: everything a step can do;
* `Inv`, `inv_step`: what the directory, the numbers and the running `Drain` say about the past.

Left out are the temporary files, which neither a listing nor a count sees, and the runs of more than `2^64` pushes, in
which the counter comes round. A restart finds no call in progress. -/

namespace CoreC.Engine.Offline

open Lib.Json.Lex Lib.Runs List Option

/-! ### File names -/

def suffix : List Char := ".json".toList

/-- `seqFileName`: at least ten digits. -/
def seqFileName (seq : ℕ) : List Char :=
  let digits := Nat.toDigits 10 seq
  List.replicate (10 - digits.length) '0' ++ digits ++ suffix

def trimSuffix (name : List Char) : List Char :=
  if suffix.isSuffixOf name then name.take (name.length - suffix.length) else name

/-- The number that the digits of a name stand for. -/
def seqDigits (name : List Char) : Option ℕ :=
  let base := trimSuffix name
  if base ≠ [] ∧ base.all Char.isDigit then some (Nat.ofDigitChars 10 base 0) else none

/-- `parseSeqFile`: `strconv.ParseUint` refuses a number of more than 64 bits. -/
def parseSeqFile (name : List Char) : Option ℕ := (seqDigits name).filter (· < 2 ^ 64)

theorem trimSuffix_append (base : List Char) : trimSuffix (base ++ suffix) = base := by
  have hsuffix : suffix.isSuffixOf (base ++ suffix) = true := by
    rw [isSuffixOf_iff_suffix]
    exact suffix_append base suffix
  rw [trimSuffix, if_pos hsuffix, length_append, Nat.add_sub_cancel, take_left]

theorem seqDigits_seqFileName (seq : ℕ) : seqDigits (seqFileName seq) = some seq := by
  have hdigit : (List.replicate (10 - (Nat.toDigits 10 seq).length) '0' ++ Nat.toDigits 10 seq).all
      Char.isDigit = true := by
    rw [List.all_eq_true]
    intro c hc
    rcases mem_append.mp hc with hc | hc
    · rw [eq_of_mem_replicate hc]
      rfl
    · exact Nat.isDigit_of_mem_toDigits (by decide) (by decide) hc
  have hne : List.replicate (10 - (Nat.toDigits 10 seq).length) '0' ++ Nat.toDigits 10 seq ≠ [] := by
    intro hnil
    exact Nat.toDigits_ne_nil (append_eq_nil_iff.mp hnil).2
  simp only [seqDigits, seqFileName, trimSuffix_append, hdigit, ne_eq, hne, not_false_eq_true,
    and_self, if_true, Nat.ofDigitChars_append, Nat.ofDigitChars_replicate_zero, mul_zero,
    Nat.ofDigitChars_ten_toDigits]

theorem seqFileName_injective {a b : ℕ} (h : seqFileName a = seqFileName b) : a = b := by
  have := seqDigits_seqFileName a
  rw [h, seqDigits_seqFileName] at this
  exact (some.inj this).symm

/-! ### The buffer -/

/-- `offlineEntry`. -/
structure Entry (α : Type) where
  seq : ℕ
  time : ℤ
  points : List α
  source : String

/-- `json.Marshal` of an entry with points of the pipeline, and `json.Unmarshal` to one with points that were
read back; an entry that is read back names its source. -/
structure EntryCodec (α β : Type) where
  marshal : Entry α → Option Bytes
  unmarshal : Bytes → Option (Entry β)
  source_kept : ∀ e e' data, marshal e = some data → unmarshal data = some e' → e'.source = e.source

/-- A file, with the number of the `Push` that wrote it. -/
structure File where
  name : List Char
  data : Bytes
  id : ℕ
  deriving DecidableEq

/-- The number of a file. -/
def File.seq (f : File) : ℕ := (seqDigits f.name).getD 0

/-- Where a `Drain` is: before the next file; before the removal of a file that does not decode; in
`tryPublish`; or before the removal of a file that was published. -/
inductive Phase (β : Type) where
  | next
  | corrupt (seq id : ℕ)
  | publishing (seq id : ℕ) (entry : Entry β)
  | published (seq id : ℕ)

/-- A `Drain` call: the numbers of its listing it has still to look at, and those it gave to
`tryPublish`. -/
structure DrainCall (β : Type) where
  source : String
  seqs : List ℕ
  drained : ℕ := 0
  phase : Phase β := .next
  handed : List ℕ := []

/-- The buffer and its directory. The history: the entries stored by a `Push`, in order; the source and the
number of every batch that a `tryPublish` took; the numbers of those evicted. -/
structure Buffer (α β : Type) where
  files : List File := []
  maxEntries : ℕ
  nextSeq : ℕ := 1
  drainCount : ℕ := 0
  evictCount : ℕ := 0
  drain : Option (DrainCall β) := none
  pushes : List (Entry α) := []
  published : List (String × ℕ) := []
  evicted : List ℕ := []

/-- `core.DefaultOfflineBufferMaxEntries`. -/
def defaultMaxEntries : ℕ := 10000

def limitOf (maxEntries : ℤ) : ℕ := if maxEntries ≤ 0 then defaultMaxEntries else maxEntries.toNat

def scanMaxSeq (files : List File) : ℕ := (files.filterMap fun f => parseSeqFile f.name).foldl max 0

/-- `NewOfflineBuffer` on an empty directory. -/
def newBuffer (α β : Type) (maxEntries : ℤ) : Buffer α β := { maxEntries := limitOf maxEntries }

/-- `os.ReadDir`, the numbers sorted. -/
def listing (files : List File) : List ℕ :=
  (files.filterMap fun f => parseSeqFile f.name).insertionSort (· ≤ ·)

/-- Without the file of the name. -/
def remove (path : List Char) (files : List File) : List File := files.filter (·.name ≠ path)

variable {α β : Type}

/-- The removal of the oldest file, unless it is gone or the disk refuses. -/
def evictOne (refused : List ℕ) (oldest : ℕ) (s : Buffer α β) : Buffer α β :=
  match s.files.find? (·.name = seqFileName oldest) with
  | none => s
  | some f =>
    if oldest ∈ refused then s
    else { s with
      files := remove (seqFileName oldest) s.files
      evictCount := s.evictCount + 1
      evicted := s.evicted ++ [f.id] }

/-- The loop of `evictIfNeeded` over the sorted numbers. -/
def evictLoop (refused : List ℕ) : List ℕ → Buffer α β → Buffer α β
  | [], s => s
  | oldest :: seqs, s =>
    if s.maxEntries ≤ seqs.length + 1 then evictLoop refused seqs (evictOne refused oldest s) else s

/-- What the disk does in a `Push`: whether the directory can be read, the removals it refuses, and whether
the file can be written. -/
structure Disk where
  listed : Bool := true
  refused : List ℕ := []
  written : Bool := true

def evictIfNeeded (disk : Disk) (s : Buffer α β) : Buffer α β :=
  if disk.listed then evictLoop disk.refused (listing s.files) s else s

def push (c : EntryCodec α β) (points : List α) (source : String) (time : ℤ) (disk : Disk) (s : Buffer α β) :
    Buffer α β :=
  if points.isEmpty then s
  else
    let s := evictIfNeeded disk s
    let entry : Entry α := ⟨s.nextSeq, time, points, source⟩
    let s := { s with nextSeq := s.nextSeq + 1 }
    match c.marshal entry with
    | none => s
    | some data =>
      if disk.written then
        { s with
          files := remove (seqFileName entry.seq) s.files ++ [⟨seqFileName entry.seq, data, s.pushes.length⟩]
          pushes := s.pushes ++ [entry] }
      else s

/-- `Drain` returns. -/
def finish (d : DrainCall β) (s : Buffer α β) : Buffer α β :=
  { s with drainCount := s.drainCount + d.drained, drain := none }

/-- `Drain` looks at the next number, `ok` telling whether the file can be read if it is there. -/
def readNext (c : EntryCodec α β) (ok : Bool) (d : DrainCall β) (s : Buffer α β) : Buffer α β :=
  match d.seqs with
  | [] => finish d s
  | seq :: seqs =>
    match s.files.find? (·.name = seqFileName seq) with
    | none => { s with drain := some { d with seqs := seqs } }
    | some f =>
      if ok then
        match c.unmarshal f.data with
        | none => { s with drain := some { d with seqs := seqs, phase := .corrupt seq f.id } }
        | some entry =>
          if entry.source = d.source then
            { s with
              drain := some { d with
                seqs := seqs, phase := .publishing seq f.id entry, handed := d.handed ++ [seq] } }
          else { s with drain := some { d with seqs := seqs } }
      else finish d s

/-- A step: a `Push`; the beginning of a `Drain`, with its listing; its next read; an answer of `tryPublish`;
a removal; a restart with a new limit. -/
inductive Op (α : Type) where
  | push (points : List α) (source : String) (time : ℤ) (disk : Disk)
  | list (source : String) (ok : Bool)
  | read (ok : Bool)
  | answer (ok : Bool)
  | remove (ok : Bool)
  | restart (maxEntries : ℤ)

/-- One step, if it is possible. -/
def step (c : EntryCodec α β) (s : Buffer α β) : Op α → Option (Buffer α β)
  | .push points source time disk => if s.nextSeq < 2 ^ 64 then some (push c points source time disk s) else none
  | .list source ok =>
    match s.drain with
    | some _ => none
    | none => some (if ok then { s with drain := some { source := source, seqs := listing s.files } } else s)
  | .read ok =>
    match s.drain with
    | some d =>
      match d.phase with
      | .next => some (readNext c ok d s)
      | _ => none
    | none => none
  | .answer ok =>
    match s.drain with
    | some d =>
      match d.phase with
      | .publishing seq id _ =>
        if ok then
          some { s with
            drain := some { d with phase := .published seq id }, published := s.published ++ [(d.source, id)] }
        else some (finish d s)
      | _ => none
    | none => none
  | .remove ok =>
    match s.drain with
    | some d =>
      match d.phase with
      | .corrupt seq _ =>
        some { s with
          files := if ok then remove (seqFileName seq) s.files else s.files
          drain := some { d with phase := .next } }
      | .published seq _ =>
        some { s with
          files := if ok then remove (seqFileName seq) s.files else s.files
          drain := some { d with phase := .next, drained := d.drained + 1 } }
      | _ => none
    | none => none
  | .restart maxEntries =>
    match s.drain with
    | some _ => none
    | none => some { s with
        maxEntries := limitOf maxEntries, nextSeq := scanMaxSeq s.files + 1, drainCount := 0, evictCount := 0 }

/-- `Len`. -/
def pendingCount (s : Buffer α β) : ℕ := (s.files.filter (suffix.isSuffixOf ·.name)).length

/-! ### Everything a step can do -/

variable {c : EntryCodec α β} {s s' : Buffer α β} {d : DrainCall β} {path : List Char} {refused : List ℕ} {seq : ℕ}

/-- **The cases of a step**, with what it found. -/
inductive Trans (c : EntryCodec α β) (s : Buffer α β) : Op α → Buffer α β → Prop
  | push (points : List α) (source : String) (time : ℤ) (disk : Disk) (hseq : s.nextSeq < 2 ^ 64) :
      Trans c s (.push points source time disk) (push c points source time disk s)
  | unlisted (source : String) (hd : s.drain = none) : Trans c s (.list source false) s
  | listed (source : String) (hd : s.drain = none) :
      Trans c s (.list source true) { s with drain := some { source := source, seqs := listing s.files } }
  | ended {d : DrainCall β} {ok : Bool} (hd : s.drain = some d) (hphase : d.phase = .next) :
      Trans c s (.read ok) (finish d s)
  | skipped {d : DrainCall β} {ok : Bool} {seq : ℕ} {seqs : List ℕ} (hd : s.drain = some d)
      (hphase : d.phase = .next) (hseqs : d.seqs = seq :: seqs) :
      Trans c s (.read ok) { s with drain := some { d with seqs := seqs } }
  | corrupt {d : DrainCall β} {ok : Bool} {seq : ℕ} {seqs : List ℕ} {f : File} (hd : s.drain = some d)
      (hphase : d.phase = .next) (hseqs : d.seqs = seq :: seqs) (hf : f ∈ s.files)
      (hname : f.name = seqFileName seq) (hdata : c.unmarshal f.data = none) :
      Trans c s (.read ok) { s with drain := some { d with seqs := seqs, phase := .corrupt seq f.id } }
  | handed {d : DrainCall β} {ok : Bool} {seq : ℕ} {seqs : List ℕ} {f : File} {entry : Entry β}
      (hd : s.drain = some d) (hphase : d.phase = .next) (hseqs : d.seqs = seq :: seqs) (hf : f ∈ s.files)
      (hname : f.name = seqFileName seq) (hdata : c.unmarshal f.data = some entry)
      (hsource : entry.source = d.source) :
      Trans c s (.read ok) { s with
        drain := some { d with
          seqs := seqs, phase := .publishing seq f.id entry, handed := d.handed ++ [seq] } }
  | paused {d : DrainCall β} {seq id : ℕ} {entry : Entry β} (hd : s.drain = some d)
      (hphase : d.phase = .publishing seq id entry) : Trans c s (.answer false) (finish d s)
  | took {d : DrainCall β} {seq id : ℕ} {entry : Entry β} (hd : s.drain = some d)
      (hphase : d.phase = .publishing seq id entry) :
      Trans c s (.answer true) { s with
        drain := some { d with phase := .published seq id }, published := s.published ++ [(d.source, id)] }
  | removedCorrupt {d : DrainCall β} {ok : Bool} {seq id : ℕ} (hd : s.drain = some d)
      (hphase : d.phase = .corrupt seq id) :
      Trans c s (.remove ok) { s with
        files := if ok then remove (seqFileName seq) s.files else s.files
        drain := some { d with phase := .next } }
  | removedPublished {d : DrainCall β} {ok : Bool} {seq id : ℕ} (hd : s.drain = some d)
      (hphase : d.phase = .published seq id) :
      Trans c s (.remove ok) { s with
        files := if ok then remove (seqFileName seq) s.files else s.files
        drain := some { d with phase := .next, drained := d.drained + 1 } }
  | restart (maxEntries : ℤ) (hd : s.drain = none) :
      Trans c s (.restart maxEntries) { s with
        maxEntries := limitOf maxEntries, nextSeq := scanMaxSeq s.files + 1, drainCount := 0, evictCount := 0 }

theorem find_spec {files : List File} {f : File}
    (h : files.find? (·.name = path) = some f) : f ∈ files ∧ f.name = path := by
  have hname := List.find?_some h
  exact ⟨mem_of_find?_eq_some h, of_decide_eq_true hname⟩

theorem trans_readNext {ok : Bool} (hd : s.drain = some d) (hphase : d.phase = .next) :
    Trans c s (.read ok) (readNext c ok d s) := by
  rw [readNext]
  cases hseqs : d.seqs with
  | nil => exact .ended hd hphase
  | cons seq seqs =>
    cases hfind : s.files.find? (·.name = seqFileName seq) with
    | none =>
      simp only [hfind]
      exact .skipped hd hphase hseqs
    | some f =>
      obtain ⟨hf, hname⟩ := find_spec hfind
      simp only [hfind]
      by_cases hok : ok = true
      · rw [if_pos hok]
        cases hdata : c.unmarshal f.data with
        | none => exact .corrupt hd hphase hseqs hf hname hdata
        | some entry =>
          by_cases hsource : entry.source = d.source
          · simp only [if_pos hsource]
            exact .handed hd hphase hseqs hf hname hdata hsource
          · simp only [if_neg hsource]
            exact .skipped hd hphase hseqs
      · rw [if_neg hok]
        exact .ended hd hphase

theorem trans_of_step {op : Op α} (h : step c s op = some s') : Trans c s op s' := by
  cases op with
  | push points source time disk =>
    simp only [step, ite_none_right_eq_some, some.injEq] at h
    obtain ⟨hseq, rfl⟩ := h
    exact .push _ _ _ _ hseq
  | list source ok =>
    cases hd : s.drain with
    | some d => simp [step, hd] at h
    | none =>
      simp only [step, hd, some.injEq] at h
      subst h
      cases ok with
      | false => exact .unlisted source hd
      | true => exact .listed source hd
  | read ok =>
    cases hd : s.drain with
    | none => simp [step, hd] at h
    | some d =>
      cases hphase : d.phase with
      | next =>
        simp only [step, hd, hphase, some.injEq] at h
        subst h
        exact trans_readNext hd hphase
      | _ => simp [step, hd, hphase] at h
  | answer ok =>
    cases hd : s.drain with
    | none => simp [step, hd] at h
    | some d =>
      cases hphase : d.phase with
      | publishing seq id entry =>
        cases ok with
        | false =>
          simp only [step, hd, hphase, Bool.false_eq_true, if_false, some.injEq] at h
          subst h
          exact .paused hd hphase
        | true =>
          simp only [step, hd, hphase, if_true, some.injEq] at h
          subst h
          exact .took hd hphase
      | _ => simp [step, hd, hphase] at h
  | remove ok =>
    cases hd : s.drain with
    | none => simp [step, hd] at h
    | some d =>
      cases hphase : d.phase with
      | corrupt seq id =>
        simp only [step, hd, hphase, some.injEq] at h
        subst h
        exact .removedCorrupt hd hphase
      | published seq id =>
        simp only [step, hd, hphase, some.injEq] at h
        subst h
        exact .removedPublished hd hphase
      | next | publishing => simp [step, hd, hphase] at h
  | restart maxEntries =>
    cases hd : s.drain with
    | some d => simp [step, hd] at h
    | none =>
      simp only [step, hd, some.injEq] at h
      subst h
      have := Trans.restart (c := c) maxEntries hd
      rwa [hd] at this

/-! ### The directory -/

/-- **The directory and the pushes**: a file holds the entry of the push that wrote it, under the name of its
number; the files are in the order of the pushes and of the numbers, all of which were given out. -/
structure DirInv (c : EntryCodec α β) (files : List File) (pushes : List (Entry α)) (nextSeq : ℕ) : Prop where
  stored : ∀ f ∈ files, ∃ e, pushes[f.id]? = some e ∧ f.name = seqFileName e.seq ∧ c.marshal e = some f.data
  sorted : files.Pairwise fun f g => f.id < g.id ∧ f.seq < g.seq
  bound : ∀ f ∈ files, f.seq < nextSeq
  width : nextSeq ≤ 2 ^ 64

variable {files files' : List File} {pushes : List (Entry α)} {nextSeq : ℕ} {f : File}

theorem File.seq_of_name (h : f.name = seqFileName seq) : f.seq = seq := by
  rw [File.seq, h, seqDigits_seqFileName, getD_some]

section

variable (h : DirInv c files pushes nextSeq)
include h

theorem DirInv.name (hf : f ∈ files) : f.name = seqFileName f.seq := by
  obtain ⟨e, -, hname, -⟩ := h.stored f hf
  rw [File.seq_of_name hname, hname]

theorem DirInv.parse (hf : f ∈ files) : parseSeqFile f.name = some f.seq := by
  have hfits : f.seq < 2 ^ 64 := (h.bound f hf).trans_le h.width
  rw [parseSeqFile, h.name hf, seqDigits_seqFileName, filter_some, if_pos (decide_eq_true hfits)]

theorem DirInv.sublist (hsub : files'.Sublist files) :
    DirInv c files' pushes nextSeq where
  stored f hf := h.stored f (hsub.subset hf)
  sorted := h.sorted.sublist hsub
  bound f hf := h.bound f (hsub.subset hf)
  width := h.width

theorem DirInv.filterMap_parse :
    (files.filterMap fun f => parseSeqFile f.name) = files.map File.seq := by
  rw [← filterMap_eq_map]
  exact filterMap_congr fun f hf => h.parse hf

/-- **A listing**: the numbers of the files, in their order. -/
theorem DirInv.listing : listing files = files.map File.seq := by
  have hsorted : (files.map File.seq).Pairwise (· ≤ ·) :=
    pairwise_map.mpr (h.sorted.imp fun hfg => hfg.2.le)
  rw [Offline.listing, h.filterMap_parse, hsorted.insertionSort_eq]

theorem DirInv.seqs_sorted : (files.map File.seq).Pairwise (· < ·) :=
  pairwise_map.mpr (h.sorted.imp fun hfg => hfg.2)

theorem DirInv.eq_of_seq {g : File} (hf : f ∈ files) (hg : g ∈ files)
    (hseq : f.seq = g.seq) : f = g :=
  inj_on_of_nodup_map (h.seqs_sorted.imp fun hlt => Nat.ne_of_lt hlt) hf hg hseq

omit h in
theorem remove_sublist (path : List Char) (files : List File) : (remove path files).Sublist files :=
  filter_sublist

omit h in
theorem mem_remove : f ∈ remove path files ↔ f ∈ files ∧ f.name ≠ path := by
  rw [remove, mem_filter, decide_eq_true_eq]

theorem DirInv.append {e : Entry α} {data : Bytes} (hseq : e.seq = nextSeq) (hfits : nextSeq < 2 ^ 64)
    (hdata : c.marshal e = some data) :
    DirInv c (files ++ [⟨seqFileName nextSeq, data, pushes.length⟩]) (pushes ++ [e]) (nextSeq + 1) := by
  have hnew : File.seq ⟨seqFileName nextSeq, data, pushes.length⟩ = nextSeq := File.seq_of_name rfl
  constructor
  · simp only [forall_mem_append, forall_mem_singleton]
    refine ⟨fun f hf => ?_, e, List.getElem?_concat_length, by rw [hseq], hdata⟩
    obtain ⟨e', he', hrest⟩ := h.stored f hf
    exact ⟨e', List.getElem?_append_left (List.getElem?_eq_some_iff.mp he').1 ▸ he', hrest⟩
  · refine pairwise_append.mpr ⟨h.sorted, pairwise_singleton _ _, fun f hf g hg => ?_⟩
    rw [mem_singleton.mp hg, hnew]
    obtain ⟨e', he', -⟩ := h.stored f hf
    exact ⟨(List.getElem?_eq_some_iff.mp he').1, h.bound f hf⟩
  · simp only [forall_mem_append, forall_mem_singleton, hnew]
    exact ⟨fun f hf => (h.bound f hf).trans (Nat.lt_succ_self _), Nat.lt_succ_self _⟩
  · exact hfits

theorem DirInv.remove_next : remove (seqFileName nextSeq) files = files := by
  refine filter_eq_self.mpr fun f hf => decide_eq_true fun hname => ?_
  have := h.bound f hf
  rw [File.seq_of_name hname] at this
  exact Nat.lt_irrefl _ this

omit h in
theorem le_foldl_max {n : ℕ} : ∀ (ns : List ℕ) {m : ℕ}, n ∈ ns ∨ n ≤ m → n ≤ ns.foldl max m
  | [], m, h => by simpa using h
  | k :: ns, m, h => by
    refine le_foldl_max ns ?_
    rcases h with h | h
    · rcases mem_cons.mp h with rfl | h
      · exact .inr (le_max_right _ _)
      · exact .inl h
    · exact .inr (h.trans (le_max_left _ _))

/-- **A restart** goes on above the highest number there is. -/
theorem DirInv.restart : DirInv c files pushes (scanMaxSeq files + 1) where
  stored := h.stored
  sorted := h.sorted
  bound f hf := by
    rw [scanMaxSeq, h.filterMap_parse, Nat.lt_succ_iff]
    exact le_foldl_max _ (.inl (mem_map_of_mem hf))
  width := by
    rw [scanMaxSeq, h.filterMap_parse, Nat.add_one_le_iff]
    refine List.foldlRecOn (motive := (· < 2 ^ 64)) _ _ (by decide) fun m hm q hq => max_lt hm ?_
    obtain ⟨f, hf, rfl⟩ := mem_map.mp hq
    exact (h.bound f hf).trans_le h.width

end

/-! ### Eviction -/

theorem evictOne_frame (refused : List ℕ) (oldest : ℕ) (s : Buffer α β) :
    ∃ files n ids, evictOne refused oldest s = { s with files := files, evictCount := n, evicted := ids } ∧
      files.Sublist s.files := by
  rw [evictOne]
  cases s.files.find? (·.name = seqFileName oldest) with
  | none => exact ⟨_, _, _, rfl, Sublist.refl _⟩
  | some f =>
    by_cases href : oldest ∈ refused
    · simp only [if_pos href]
      exact ⟨_, _, _, rfl, Sublist.refl _⟩
    · simp only [if_neg href]
      exact ⟨_, _, _, rfl, remove_sublist _ _⟩

theorem evictLoop_frame (refused : List ℕ) : ∀ (seqs : List ℕ) (s : Buffer α β),
    ∃ files n ids, evictLoop refused seqs s = { s with files := files, evictCount := n, evicted := ids } ∧
      files.Sublist s.files
  | [], s => ⟨_, _, _, rfl, Sublist.refl _⟩
  | oldest :: seqs, s => by
    rw [evictLoop]
    by_cases hfull : s.maxEntries ≤ seqs.length + 1
    · rw [if_pos hfull]
      obtain ⟨files₁, n₁, ids₁, heq₁, hsub₁⟩ := evictOne_frame refused oldest s
      obtain ⟨files₂, n₂, ids₂, heq₂, hsub₂⟩ := evictLoop_frame refused seqs (evictOne refused oldest s)
      rw [heq₂, heq₁]
      rw [heq₁] at hsub₂
      exact ⟨_, _, _, rfl, hsub₂.trans hsub₁⟩
    · rw [if_neg hfull]
      exact ⟨_, _, _, rfl, Sublist.refl _⟩

theorem evictIfNeeded_frame (disk : Disk) (s : Buffer α β) :
    ∃ files n ids, evictIfNeeded disk s = { s with files := files, evictCount := n, evicted := ids } ∧
      files.Sublist s.files := by
  rw [evictIfNeeded]
  by_cases hlisted : disk.listed = true
  · rw [if_pos hlisted]
    exact evictLoop_frame _ _ s
  · rw [if_neg hlisted]
    exact ⟨_, _, _, rfl, Sublist.refl _⟩

theorem mem_evictOne {oldest : ℕ} : f ∈ (evictOne refused oldest s).files ↔
    f ∈ s.files ∧ (oldest ∈ refused ∨ f.name ≠ seqFileName oldest) := by
  rw [evictOne]
  cases hfind : s.files.find? (·.name = seqFileName oldest) with
  | none =>
    have hne : ∀ f ∈ s.files, f.name ≠ seqFileName oldest := by simpa using find?_eq_none.mp hfind
    exact ⟨fun hf => ⟨hf, .inr (hne f hf)⟩, And.left⟩
  | some g => by_cases href : oldest ∈ refused <;> simp [href, mem_remove]

/-- **What an eviction takes**: a file that goes had at least as many numbers after it as the limit leaves
room for, and those before it went too, unless the disk refused. -/
theorem evictLoop_gone : ∀ {seqs : List ℕ} {s : Buffer α β}, f ∈ s.files →
    f ∉ (evictLoop refused seqs s).files → ∃ before after, seqs = before ++ f.seq :: after ∧
      s.maxEntries ≤ after.length + 1 ∧
      ∀ g ∈ (evictLoop refused seqs s).files, ∀ q ∈ before, g.name = seqFileName q → q ∈ refused
  | [], s, hf, hgone => absurd hf hgone
  | oldest :: seqs, s, hf, hgone => by
    rw [evictLoop] at hgone ⊢
    by_cases hfull : s.maxEntries ≤ seqs.length + 1
    · rw [if_pos hfull] at hgone ⊢
      by_cases hone : f ∈ (evictOne refused oldest s).files
      · obtain ⟨before, after, hseqs, hroom, hrefused⟩ := evictLoop_gone hone hgone
        obtain ⟨files₁, n₁, ids₁, heq₁, -⟩ := evictOne_frame refused oldest s
        refine ⟨oldest :: before, after, by rw [hseqs, cons_append], ?_, ?_⟩
        · rw [heq₁] at hroom
          exact hroom
        · intro g hg q hq hname
          rcases mem_cons.mp hq with rfl | hq
          · obtain ⟨_, _, _, heq₂, hsub₂⟩ := evictLoop_frame refused seqs (evictOne refused q s)
            rw [heq₂] at hg
            exact (mem_evictOne.mp (hsub₂.subset hg)).2.resolve_right fun hne => hne hname
          · exact hrefused g hg q hq hname
      · have hname : f.name = seqFileName oldest := by_contra fun hne => hone (mem_evictOne.mpr ⟨hf, .inr hne⟩)
        refine ⟨[], seqs, by rw [nil_append, File.seq_of_name hname], hfull, ?_⟩
        exact fun _ _ _ hq => absurd hq not_mem_nil
    · rw [if_neg hfull] at hgone
      exact absurd hf hgone

/-- **An eviction from a directory**: a file that goes is not among the newest ones the limit leaves room
for, and no older one stays, unless the disk refused to remove it. -/
theorem evict_gone {disk : Disk} (h : DirInv c s.files pushes nextSeq) (hf : f ∈ s.files)
    (hgone : f ∉ (evictIfNeeded disk s).files) :
    s.maxEntries ≤ (s.files.filter (f.seq ≤ ·.seq)).length ∧
      ∀ g ∈ s.files, g.seq < f.seq → g ∈ (evictIfNeeded disk s).files → g.seq ∈ disk.refused := by
  rw [evictIfNeeded] at hgone ⊢
  by_cases hlisted : disk.listed = true
  · rw [if_pos hlisted, h.listing] at hgone ⊢
    obtain ⟨before, after, hseqs, hroom, hrefused⟩ := evictLoop_gone hf hgone
    have hsorted := h.seqs_sorted
    rw [hseqs] at hsorted
    have hafter : ∀ q ∈ after, f.seq < q :=
      (pairwise_cons.mp (pairwise_append.mp hsorted).2.1).1
    constructor
    · have hcount : (s.files.filter (f.seq ≤ ·.seq)).length = ((s.files.map File.seq).filter (f.seq ≤ ·)).length := by
        rw [List.filter_map, List.length_map]
        rfl
      have hkeep : after.filter (f.seq ≤ ·) = after :=
        filter_eq_self.mpr fun q hq => decide_eq_true (hafter q hq).le
      rw [hcount, hseqs, filter_append, filter_cons_of_pos (by simp), hkeep, length_append, length_cons]
      omega
    · intro g hg hlt hstays
      have hmem : g.seq ∈ before ++ f.seq :: after := hseqs ▸ mem_map_of_mem hg
      refine hrefused g hstays g.seq ?_ (h.name hg)
      rcases mem_append.mp hmem with hmem | hmem
      · exact hmem
      · rcases mem_cons.mp hmem with heq | hmem
        · omega
        · have := hafter _ hmem
          omega
  · rw [if_neg hlisted] at hgone
    exact absurd hf hgone

/-- **An eviction on a disk that obeys** drops the oldest files, until there is room for one more. -/
theorem evictLoop_eq : ∀ {files : List File} {s : Buffer α β}, DirInv c files pushes nextSeq → s.files = files →
    0 < s.maxEntries → evictLoop [] (files.map File.seq) s = { s with
      files := files.drop (files.length + 1 - s.maxEntries)
      evictCount := s.evictCount + (files.length + 1 - s.maxEntries)
      evicted := s.evicted ++ (files.take (files.length + 1 - s.maxEntries)).map File.id }
  | [], s, _, hfiles, hpos => by
    have hzero : 0 + 1 - s.maxEntries = 0 := by omega
    rw [map_nil, evictLoop, length_nil, hzero, ← hfiles]
    simp
  | f :: files, s, h, hfiles, hpos => by
    rw [map_cons, evictLoop, length_map, length_cons]
    by_cases hfull : s.maxEntries ≤ files.length + 1
    · rw [if_pos hfull]
      have hrest : DirInv c files pushes nextSeq := h.sublist (sublist_cons_self _ _)
      have hname := h.name mem_cons_self
      have hfind : s.files.find? (·.name = seqFileName f.seq) = some f := by
        rw [hfiles]
        exact List.find?_cons_of_pos (decide_eq_true hname)
      -- the other files have other names
      have hremove : remove (seqFileName f.seq) s.files = files := by
        have hkeep : remove (seqFileName f.seq) files = files :=
          filter_eq_self.mpr fun g hg => decide_eq_true fun hgname => by
            have hlt := ((pairwise_cons.mp h.sorted).1 g hg).2
            rw [File.seq_of_name hgname] at hlt
            exact Nat.lt_irrefl _ hlt
        rw [hfiles, remove, filter_cons_of_neg (by simp [hname])]
        exact hkeep
      have hone : evictOne [] f.seq s =
          { s with files := files, evictCount := s.evictCount + 1, evicted := s.evicted ++ [f.id] } := by
        rw [evictOne, hfind]
        simp [hremove]
      have hk : files.length + 1 + 1 - s.maxEntries = files.length + 1 - s.maxEntries + 1 := by omega
      have hloop := evictLoop_eq (s := { s with
        files := files, evictCount := s.evictCount + 1, evicted := s.evicted ++ [f.id] }) hrest rfl hpos
      rw [hone, hloop, hk]
      simp only [drop_succ_cons, take_succ_cons, map_cons, append_assoc, singleton_append]
      congr 1
      omega
    · have hzero : files.length + 1 + 1 - s.maxEntries = 0 := by omega
      rw [if_neg hfull, hzero, ← hfiles]
      simp

/-! ### The running `Drain` -/

/-- The file of a number that was read: it was written by the push, and no other file has its name. -/
structure InHand (s : Buffer α β) (seq id : ℕ) (p : Entry α) : Prop where
  push : s.pushes[id]? = some p
  seq_eq : p.seq = seq
  bound : seq < s.nextSeq
  only : ∀ f ∈ s.files, f.name = seqFileName seq → f.id = id

/-- **What a `Drain` has in hand**: a batch that does not decode; one of its own source, decoded; or one that
its `tryPublish` took. -/
def HandOk (c : EntryCodec α β) (s : Buffer α β) (source : String) : Phase β → Prop
  | .next => True
  | .corrupt seq id => ∃ p data, InHand s seq id p ∧ c.marshal p = some data ∧ c.unmarshal data = none
  | .publishing seq id entry => ∃ p data, InHand s seq id p ∧ p.source = source ∧
      c.marshal p = some data ∧ c.unmarshal data = some entry
  | .published seq id => ∃ p, InHand s seq id p ∧ p.source = source ∧ (source, id) ∈ s.published

/-- **The invariant** of the buffer. -/
structure Inv (c : EntryCodec α β) (s : Buffer α β) : Prop where
  limit : 0 < s.maxEntries
  dir : DirInv c s.files s.pushes s.nextSeq
  hand : ∀ d, s.drain = some d → HandOk c s d.source d.phase
  order : ∀ d, s.drain = some d → (d.handed ++ d.seqs).Pairwise (· < ·)

/-- What a step of another call leaves: the history grows, and a new file has a new number. -/
structure Grows (s s' : Buffer α β) : Prop where
  pushes : s.pushes <+: s'.pushes
  published : s.published <+: s'.published
  nextSeq : s.nextSeq ≤ s'.nextSeq
  files : ∀ f ∈ s'.files, f ∈ s.files ∨ s.nextSeq ≤ f.seq

theorem InHand.grows {id : ℕ} {p : Entry α} (h : InHand s seq id p) (hg : Grows s s') : InHand s' seq id p where
  push := by
    obtain ⟨rest, hrest⟩ := hg.pushes
    rw [← hrest, List.getElem?_append_left (List.getElem?_eq_some_iff.mp h.push).1]
    exact h.push
  seq_eq := h.seq_eq
  bound := h.bound.trans_le hg.nextSeq
  only f hf hname := by
    rcases hg.files f hf with hf | hnew
    · exact h.only f hf hname
    · have := h.bound
      rw [File.seq_of_name hname] at hnew
      omega

theorem HandOk.grows {source : String} : ∀ {phase : Phase β}, HandOk c s source phase → Grows s s' →
    HandOk c s' source phase
  | .next, _, _ => trivial
  | .corrupt .., ⟨p, data, hhand, hrest⟩, hg => ⟨p, data, hhand.grows hg, hrest⟩
  | .publishing .., ⟨p, data, hhand, hrest⟩, hg => ⟨p, data, hhand.grows hg, hrest⟩
  | .published .., ⟨p, hhand, hsource, hmem⟩, hg => ⟨p, hhand.grows hg, hsource, hg.published.subset hmem⟩

theorem Grows.of_sublist (hpushes : s'.pushes = s.pushes) (hpub : s.published <+: s'.published)
    (hseq : s'.nextSeq = s.nextSeq) (hfiles : s'.files.Sublist s.files) : Grows s s' where
  pushes := hpushes ▸ prefix_rfl
  published := hpub
  nextSeq := hseq.ge
  files _ hf := .inl (hfiles.subset hf)

/-! ### Each step keeps the invariant -/

theorem inv_newBuffer (c : EntryCodec α β) (maxEntries : ℤ) : Inv c (newBuffer α β maxEntries) where
  limit := by
    show 0 < limitOf maxEntries
    rw [limitOf]
    split_ifs
    · decide
    · omega
  dir := ⟨fun f hf => absurd hf not_mem_nil, Pairwise.nil, fun f hf => absurd hf not_mem_nil,
    (by decide : 1 ≤ 2 ^ 64)⟩
  hand _ hd := by cases hd
  order _ hd := by cases hd

/-- **What a `Push` does**: nothing for no points; otherwise it evicts, takes a number and stores the entry,
unless that cannot be written. -/
theorem push_cases (h : DirInv c s.files s.pushes s.nextSeq) (points : List α) (source : String) (time : ℤ)
    (disk : Disk) :
    (points = [] ∧ push c points source time disk s = s) ∨
      (points ≠ [] ∧ (push c points source time disk s = { evictIfNeeded disk s with nextSeq := s.nextSeq + 1 } ∨
        ∃ data, c.marshal ⟨s.nextSeq, time, points, source⟩ = some data ∧
          push c points source time disk s = { evictIfNeeded disk s with
            nextSeq := s.nextSeq + 1
            files := (evictIfNeeded disk s).files ++ [⟨seqFileName s.nextSeq, data, s.pushes.length⟩]
            pushes := s.pushes ++ [⟨s.nextSeq, time, points, source⟩] })) := by
  obtain ⟨files, n, ids, heq, hsub⟩ := evictIfNeeded_frame disk s
  have hnext := (h.sublist hsub).remove_next
  cases points with
  | nil => exact .inl ⟨rfl, rfl⟩
  | cons p ps =>
    refine .inr ⟨cons_ne_nil _ _, ?_⟩
    rw [push, heq]
    cases hdata : c.marshal ⟨s.nextSeq, time, p :: ps, source⟩ with
    | none => exact .inl (by simp [hdata])
    | some data =>
      by_cases hwritten : disk.written = true
      · exact .inr ⟨data, rfl, by simp [hdata, hwritten, hnext]⟩
      · exact .inl (by simp [hdata, hwritten])

section

variable (h : Inv c s)
include h

theorem inv_push {points : List α} {source : String} {time : ℤ} {disk : Disk} (hseq : s.nextSeq < 2 ^ 64) :
    Inv c (push c points source time disk s) := by
  obtain ⟨files, n, ids, heq, hsub⟩ := evictIfNeeded_frame disk s
  have hdir := h.dir.sublist hsub
  rcases push_cases h.dir points source time disk with ⟨-, hpush⟩ | ⟨-, hpush | ⟨data, hdata, hpush⟩⟩
  · rw [hpush]
    exact h
  · rw [hpush, heq]
    have hg : Grows s { s with files := files, evictCount := n, evicted := ids, nextSeq := s.nextSeq + 1 } :=
      ⟨prefix_rfl, prefix_rfl, Nat.le_succ _, fun f hf => .inl (hsub.subset hf)⟩
    have hbound : ∀ f ∈ files, f.seq < s.nextSeq + 1 := fun f hf => (hdir.bound f hf).trans (Nat.lt_succ_self _)
    refine ⟨h.limit, { hdir with bound := hbound, width := hseq },
      fun d hd => (h.hand d hd).grows hg, h.order⟩
  · rw [hpush, heq]
    have hg : Grows s { s with
        files := files ++ [⟨seqFileName s.nextSeq, data, s.pushes.length⟩]
        evictCount := n
        evicted := ids
        nextSeq := s.nextSeq + 1
        pushes := s.pushes ++ [⟨s.nextSeq, time, points, source⟩] } := by
      refine ⟨prefix_append _ _, prefix_rfl, Nat.le_succ _, ?_⟩
      simp only [forall_mem_append, forall_mem_singleton]
      exact ⟨fun f hf => .inl (hsub.subset hf), .inr (File.seq_of_name rfl).ge⟩
    exact ⟨h.limit, hdir.append rfl hseq hdata, fun d hd => (h.hand d hd).grows hg, h.order⟩

theorem Inv.handAt {phase : Phase β} (hd : s.drain = some d) (hphase : d.phase = phase) : HandOk c s d.source phase :=
  hphase ▸ h.hand d hd

theorem inv_finish : Inv c (finish d s) :=
  ⟨h.limit, h.dir, fun _ hd => (by cases hd), fun _ hd => (by cases hd)⟩

theorem Inv.drain (hhand : HandOk c s d.source d.phase)
    (horder : (d.handed ++ d.seqs).Pairwise (· < ·)) : Inv c { s with drain := some d } where
  limit := h.limit
  dir := h.dir
  hand d' hd' := by
    cases hd'
    exact hhand.grows ⟨prefix_rfl, prefix_rfl, le_rfl, fun f hf => .inl hf⟩
  order d' hd' := by
    cases hd'
    exact horder

theorem Inv.inHand (hf : f ∈ s.files) (hname : f.name = seqFileName seq) :
    ∃ p, InHand s seq f.id p ∧ c.marshal p = some f.data := by
  obtain ⟨p, hp, hpname, hdata⟩ := h.dir.stored f hf
  refine ⟨p, ⟨hp, seqFileName_injective (hpname.symm.trans hname), ?_, fun g hg hgname => ?_⟩, hdata⟩
  · have := h.dir.bound f hf
    rwa [File.seq_of_name hname] at this
  · rw [h.dir.eq_of_seq hg hf (by rw [File.seq_of_name hgname, File.seq_of_name hname])]

theorem Inv.order_tail {seqs : List ℕ} (hd : s.drain = some d)
    (hseqs : d.seqs = seq :: seqs) : (d.handed ++ seqs).Pairwise (· < ·) := by
  have horder := h.order d hd
  rw [hseqs] at horder
  exact horder.sublist ((sublist_cons_self _ _).append_left _)

theorem inv_remove {ok : Bool} {n : ℕ} (horder : (d.handed ++ d.seqs).Pairwise (· < ·)) : Inv c { s with
      files := if ok then remove path s.files else s.files
      drain := some { d with phase := .next, drained := n } } := by
  have hsub : (if ok then remove path s.files else s.files).Sublist s.files := by
    split_ifs
    · exact remove_sublist _ _
    · exact Sublist.refl _
  refine ⟨h.limit, h.dir.sublist hsub, ?_, ?_⟩
  · intro d' hd'
    cases hd'
    trivial
  · intro d' hd'
    cases hd'
    exact horder

theorem inv_step {op : Op α} (hstep : step c s op = some s') : Inv c s' := by
  cases trans_of_step hstep with
  | push points source time disk hseq => exact inv_push h hseq
  | unlisted source hd => exact h
  | listed source hd =>
    refine h.drain trivial ?_
    rw [h.dir.listing]
    exact h.dir.seqs_sorted
  | @skipped d ok seq seqs hd hphase hseqs =>
    have htail := h.order_tail hd hseqs
    refine h.drain ?_ htail
    rw [hphase]
    trivial
  | corrupt hd hphase hseqs hf hname hdata =>
    obtain ⟨p, hin, hp⟩ := h.inHand hf hname
    have htail := h.order_tail hd hseqs
    exact h.drain ⟨p, _, hin, hp, hdata⟩ htail
  | @handed d ok seq seqs f entry hd hphase hseqs hf hname hdata hsource =>
    obtain ⟨p, hin, hp⟩ := h.inHand hf hname
    refine h.drain ⟨p, _, hin, ?_, hp, hdata⟩ ?_
    · rw [← c.source_kept p entry f.data hp hdata, hsource]
    · rw [append_assoc, singleton_append, ← hseqs]
      exact h.order d hd
  | @took d seq id entry hd hphase =>
    obtain ⟨p, data, hin, hsource, -⟩ := h.handAt hd hphase
    have hg : Grows s { s with
        drain := some { d with phase := .published seq id }
        published := s.published ++ [(d.source, id)] } :=
      .of_sublist rfl (prefix_append _ _) rfl (Sublist.refl _)
    refine ⟨h.limit, h.dir, ?_, ?_⟩
    · intro d' hd'
      cases hd'
      exact ⟨p, hin.grows hg, hsource, mem_append_right _ (mem_singleton_self _)⟩
    · intro d' hd'
      cases hd'
      exact h.order d hd
  | removedCorrupt hd _ | removedPublished hd _ => exact inv_remove h (h.order _ hd)
  | restart maxEntries hd =>
    refine ⟨(inv_newBuffer c maxEntries).limit, h.dir.restart, ?_, ?_⟩
    all_goals
      intro d' hd'
      rw [show s.drain = some d' from hd'] at hd
      cases hd
  | ended | paused => exact inv_finish h

end

theorem inv_run {P : Buffer α β → Op α → Prop} {ops : List (Op α)} (hrun : Run (step c) P s ops s')
    (h : Inv c s) : Inv c s' :=
  hrun.invariant (fun _ _ _ _ hstep h => inv_step h hstep) h

end CoreC.Engine.Offline
