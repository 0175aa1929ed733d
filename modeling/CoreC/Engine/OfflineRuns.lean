import CoreC.Engine.OfflineEntry

/-! # Runs of the offline buffer

What holds of the offline buffer over every interleaving of `Push` and `Drain` calls. -/

namespace CoreC.Engine.Offline

open Lib.Json.Lex Lib.Runs List Option

variable {α β : Type} {c : EntryCodec α β} {s s' : Buffer α β} {f : File} {disk : Disk} {d : DrainCall β}
  {points : List α} {op : Op α} {source : String} {id n seq : ℕ} {time : ℤ}

/-! ### Ownership -/

/-- **How a stored batch may disappear** in a step: its own source published it; an eviction that leaves none of the
older ones, unless the disk refuses, and finds at least as many as the limit from it on; it does not decode. -/
inductive Gone (c : EntryCodec α β) (s : Buffer α β) (f : File) : Op α → Buffer α β → Prop
  | published {ok : Bool} {s' : Buffer α β} {p : Entry α} (hpush : s.pushes[f.id]? = some p)
      (htook : (p.source, f.id) ∈ s.published) : Gone c s f (.remove ok) s'
  | evicted {points : List α} {source : String} {time : ℤ} {disk : Disk} {s' : Buffer α β}
      (hfull : s.maxEntries ≤ (s.files.filter (f.seq ≤ ·.seq)).length)
      (holder : ∀ g ∈ s.files, g.seq < f.seq → g ∈ s'.files → g.seq ∈ disk.refused) :
      Gone c s f (.push points source time disk) s'
  | corrupt {ok : Bool} {s' : Buffer α β} (hdata : c.unmarshal f.data = none) : Gone c s f (.remove ok) s'

theorem push_gone (h : Inv c s) (hf : f ∈ s.files) (hgone : f ∉ (push c points source time disk s).files) :
    Gone c s f (.push points source time disk) (push c points source time disk s) := by
  rcases push_cases h.dir points source time disk with ⟨-, hpush⟩ | ⟨-, hpush | ⟨data, -, hpush⟩⟩
  · rw [hpush] at hgone
    exact absurd hf hgone
  · rw [hpush] at hgone ⊢
    obtain ⟨hfull, holder⟩ := evict_gone h.dir hf hgone
    exact .evicted hfull holder
  · rw [hpush] at hgone ⊢
    obtain ⟨hfull, holder⟩ := evict_gone h.dir hf fun hmem => hgone (mem_append_left _ hmem)
    refine .evicted hfull fun g hg hlt hstays => holder g hg hlt ?_
    -- the file the push wrote is newer than every other
    rcases mem_append.mp hstays with hstays | hnew
    · exact hstays
    · have hseq : g.seq = s.nextSeq := by
        rw [mem_singleton.mp hnew]
        exact File.seq_of_name rfl
      have := h.dir.bound g hg
      omega

theorem InHand.of_gone {p : Entry α} {ok : Bool} (h : InHand s seq id p) (hf : f ∈ s.files)
    (hgone : f ∉ if ok then remove (seqFileName seq) s.files else s.files) : f.id = id := by
  cases ok with
  | false => exact absurd hf hgone
  | true =>
    by_contra hne
    exact hgone (mem_remove.mpr ⟨hf, fun hname => hne (h.only f hf hname)⟩)

theorem Inv.corrupt_data (h : Inv c s) (hd : s.drain = some d) (hphase : d.phase = .corrupt seq id) (hf : f ∈ s.files)
    (hid : f.id = id) : c.unmarshal f.data = none := by
  obtain ⟨p, data, hin, hdata, hbad⟩ := h.handAt hd hphase
  obtain ⟨e, he, -, hfdata⟩ := h.dir.stored f hf
  rw [hid, hin.push] at he
  cases he
  rw [hdata] at hfdata
  exact some.inj hfdata ▸ hbad

theorem step_gone (h : Inv c s) (hstep : step c s op = some s') (hf : f ∈ s.files)
    (hgone : f ∉ s'.files) : Gone c s f op s' := by
  cases trans_of_step hstep with
  | push points source time disk _ => exact push_gone h hf hgone
  | removedCorrupt hd hphase =>
    obtain ⟨p, data, hin, -⟩ := h.handAt hd hphase
    exact .corrupt (h.corrupt_data hd hphase hf (hin.of_gone hf hgone))
  | removedPublished hd hphase =>
    obtain ⟨p, hin, hsource, htook⟩ := h.handAt hd hphase
    have hid := hin.of_gone hf hgone
    exact .published (hid ▸ hin.push) (by rw [hid, hsource]; exact htook)
  -- the other steps change no file
  | _ => exact absurd hf hgone

/-- **Batches go back only through their owner**: in every state that any `Push` and `Drain` calls lead to, a `Drain`
has given decoded batches of its source to `tryPublish`, in the order of their numbers, and the next step removes a
stored batch only because its source published it, as one of the oldest of a full buffer, or because it does not
decode. -/
theorem owned_ordered_kept (c : EntryCodec α β) (maxEntries : ℤ) (ops : List (Op α)) (s : Buffer α β)
    (hrun : Run (step c) (fun _ _ => True) (newBuffer α β maxEntries) ops s) :
    (∀ d, s.drain = some d →
      (∀ seq id entry, d.phase = .publishing seq id entry → ∃ p data, s.pushes[id]? = some p ∧ p.seq = seq ∧
        p.source = d.source ∧ c.marshal p = some data ∧ c.unmarshal data = some entry) ∧
      d.handed.Pairwise (· < ·)) ∧
    ∀ op s', step c s op = some s' → ∀ f ∈ s.files, f ∉ s'.files → Gone c s f op s' := by
  have h : Inv c s := inv_run hrun (inv_newBuffer c maxEntries)
  refine ⟨fun d hd => ⟨fun seq id entry hphase => ?_, ?_⟩, ?_⟩
  · obtain ⟨p, data, hin, hsource, hdata, hentry⟩ := h.handAt hd hphase
    exact ⟨p, data, hin.push, hin.seq_eq, hsource, hdata, hentry⟩
  · exact (pairwise_append.mp (h.order d hd)).1
  · exact fun op s' hstep f hf hgone => step_gone h hstep hf hgone

/-! ### The counters -/

/-- The disk does what it is asked to. -/
def Disk.Obeys (disk : Disk) : Prop := disk.listed = true ∧ disk.refused = [] ∧ disk.written = true

/-- No I/O error in the step. -/
def Op.Obeyed : Op α → Prop
  | .push _ _ _ disk => disk.Obeys
  | .list _ ok => ok = true
  | .read ok => ok = true
  | .remove ok => ok = true
  | .answer _ => True
  | .restart _ => True

/-- How many files a `Push` evicts. -/
def surplus (s : Buffer α β) : ℕ := s.files.length + 1 - s.maxEntries

theorem evictIfNeeded_eq (h : Inv c s) (hdisk : disk.Obeys) : evictIfNeeded disk s = { s with
      files := s.files.drop (surplus s)
      evictCount := s.evictCount + surplus s
      evicted := s.evicted ++ (s.files.take (surplus s)).map File.id } := by
  rw [evictIfNeeded, if_pos hdisk.1, hdisk.2.1, h.dir.listing]
  exact evictLoop_eq h.dir rfl h.limit

theorem surplus_le (h : Inv c s) : surplus s ≤ s.files.length := by
  have := h.limit
  unfold surplus
  omega

/-- What the running `Drain` has counted. -/
def inFlight (s : Buffer α β) : ℕ :=
  match s.drain with
  | none => 0
  | some d => d.drained

/-- What the counters say, with the running `Drain`. -/
def counted (s : Buffer α β) : ℕ := s.drainCount + inFlight s + s.evictCount + s.files.length

/-- A removal after a `tryPublish` finds its file. -/
def FindsFile (s : Buffer α β) (op : Op α) : Prop :=
  ∀ ok d seq id, op = .remove ok → s.drain = some d → d.phase = .published seq id →
    ∃ f ∈ s.files, f.name = seqFileName seq

/-- No I/O error, no restart, and every file decodes. -/
def Faultless (c : EntryCodec α β) (s : Buffer α β) (op : Op α) : Prop :=
  op.Obeyed ∧ (∀ f ∈ s.files, c.unmarshal f.data ≠ none) ∧ ∀ maxEntries, op ≠ .restart maxEntries

theorem DirInv.length_remove {files : List File} {pushes : List (Entry α)} {nextSeq : ℕ}
    (h : DirInv c files pushes nextSeq) (hf : f ∈ files) :
    (remove f.name files).length + 1 = files.length := by
  have hnodup : files.Nodup := h.sorted.imp fun hlt heq => by
    rw [heq] at hlt
    exact Nat.lt_irrefl _ hlt.1
  have hcongr : remove f.name files = files.filter (· != f) := by
    refine filter_congr fun g hg => ?_
    have hiff : g.name ≠ f.name ↔ g ≠ f :=
      not_congr ⟨fun hname => h.eq_of_seq hg hf (by rw [File.seq, hname, File.seq]), congrArg File.name⟩
    rw [Bool.eq_iff_iff, decide_eq_true_eq, bne_iff_ne, hiff]
  rw [hcongr, ← hnodup.erase_eq_filter, length_erase_of_mem hf]
  have := length_pos_of_mem hf
  omega

theorem remove_eq_self {files : List File} {path : List Char} (h : ¬ ∃ f ∈ files, f.name = path) :
    remove path files = files :=
  filter_eq_self.mpr fun f hf => decide_eq_true fun hname => h ⟨f, hf, hname⟩

theorem length_evicted (h : Inv c s) : (s.files.drop (surplus s)).length + surplus s = s.files.length := by
  rw [length_drop]
  have := surplus_le h
  omega

theorem Inv.corrupt_absent (h : Inv c s) (hdecodes : ∀ f ∈ s.files, c.unmarshal f.data ≠ none) (hd : s.drain = some d)
    (hphase : d.phase = .corrupt seq id) :
    ¬ ∃ f ∈ s.files, f.name = seqFileName seq := by
  rintro ⟨f, hf, hname⟩
  obtain ⟨p, data, hin, -⟩ := h.handAt hd hphase
  exact hdecodes f hf (h.corrupt_data hd hphase hf (hin.only f hf hname))

/-- **A step that finds its file** counts as many batches as it stores. -/
theorem counted_step (h : Inv c s) (hfree : Faultless c s op) (hfinds : FindsFile s op)
    (hstep : step c s op = some s') : counted s' + s.pushes.length = counted s + s'.pushes.length := by
  obtain ⟨hobeyed, hdecodes, hsame⟩ := hfree
  cases trans_of_step hstep with
  | push points source time disk _ =>
    have heq := evictIfNeeded_eq h hobeyed
    have hlen := length_evicted h
    rcases push_cases h.dir points source time disk with ⟨-, hpush⟩ | ⟨-, hpush | ⟨data, -, hpush⟩⟩
    · rw [hpush]
    all_goals
      rw [hpush, heq]
      simp only [counted, inFlight, length_append, length_singleton]
      omega
  | unlisted source hd => rfl
  | listed _ hd | skipped hd _ _ | handed hd _ _ _ _ _ _ | took hd _ => simp [counted, inFlight, hd]
  | corrupt hd hphase hseqs hf hname hdata => exact absurd hdata (hdecodes _ hf)
  | removedCorrupt hd hphase =>
    have habsent := h.corrupt_absent hdecodes hd hphase
    simp [counted, inFlight, hd, remove_eq_self habsent]
  | @removedPublished d ok seq id hd hphase =>
    obtain ⟨f, hf, hname⟩ := hfinds ok d seq id rfl hd hphase
    have hlen := h.dir.length_remove hf
    have hok : ok = true := hobeyed
    rw [hname] at hlen
    simp only [counted, inFlight, hd, hok, if_true]
    omega
  | restart maxEntries hd => exact absurd rfl (hsame maxEntries)
  | ended hd hphase | paused hd hphase =>
    simp only [counted, inFlight, finish, hd]
    omega

/-- **A removal that does not find its file** counts a batch too many. -/
theorem counted_missed (hmissed : ¬ FindsFile s op) (hstep : step c s op = some s') :
    counted s' + s.pushes.length = counted s + s'.pushes.length + 1 := by
  simp only [FindsFile, not_forall] at hmissed
  obtain ⟨ok, d, seq, id, rfl, hd, hphase, habsent⟩ := hmissed
  simp only [step, hd, hphase, some.injEq] at hstep
  subst hstep
  simp only [counted, inFlight, hd, remove_eq_self habsent, ite_self]
  omega

theorem counted_mono (h : Inv c s) (hfree : Faultless c s op) (hstep : step c s op = some s') :
    counted s + s'.pushes.length ≤ counted s' + s.pushes.length := by
  by_cases hfinds : FindsFile s op
  · exact (counted_step h hfree hfinds hstep).ge
  · have := counted_missed hfinds hstep
    omega

theorem pendingCount_eq (h : Inv c s) : pendingCount s = s.files.length := by
  rw [pendingCount, filter_eq_self.mpr]
  intro f hf
  rw [h.dir.name hf, isSuffixOf_iff_suffix]
  exact suffix_append _ _

/-- **When the counters balance**: between the calls on a buffer that began empty, with no I/O error and every file
decoding, exactly if every removal after a successful `tryPublish` found its file, that is, if no batch was evicted
while a `Drain` published it. -/
theorem counters_balance_iff (c : EntryCodec α β) (maxEntries : ℤ) (ops : List (Op α)) (s : Buffer α β)
    (hrun : Run (step c) (Faultless c) (newBuffer α β maxEntries) ops s) (hidle : s.drain = none) :
    s.pushes.length = s.drainCount + s.evictCount + pendingCount s ↔
      Run (step c) FindsFile (newBuffer α β maxEntries) ops s := by
  have hinv := inv_newBuffer c maxEntries
  have hcounted : counted s = s.drainCount + s.evictCount + pendingCount s := by
    rw [counted, inFlight, hidle, pendingCount_eq (inv_run hrun hinv), Nat.add_zero]
  rw [← hcounted]
  constructor
  · intro hbalance
    rcases hrun.all_or_exists FindsFile with hall | ⟨ops₁, ops₂, s₁, s₂, op, hpre, hmissed, hstep, hpost⟩
    · exact hall
    · -- from the removal that missed its file on, a batch is counted too many
      have hpre' := hpre.invariant (I := fun s => Inv c s ∧ s.pushes.length ≤ counted s)
        (fun s₁ op s₂ hfree hstep h => ⟨inv_step h.1 hstep, by
          have := counted_mono h.1 hfree hstep
          omega⟩) ⟨hinv, Nat.zero_le _⟩
      have hexcess : s₂.pushes.length < counted s₂ := by
        have := counted_missed hmissed hstep
        omega
      have hpost' := hpost.invariant (I := fun s => Inv c s ∧ s.pushes.length < counted s)
        (fun s₁ op s₂ hfree hstep h => ⟨inv_step h.1 hstep, by
          have := counted_mono h.1 hfree hstep
          omega⟩) ⟨inv_step hpre'.1 hstep, hexcess⟩
      omega
  · intro hfinds
    have hboth := (hrun.and hfinds).invariant (I := fun s => Inv c s ∧ s.pushes.length = counted s)
      (fun s₁ op s₂ hcond hstep h => ⟨inv_step h.1 hstep, by
        have := counted_step h.1 hcond.1 hcond.2 hstep
        omega⟩) ⟨hinv, rfl⟩
    exact hboth.2

/-! ### The newest batches -/

/-- **A `Push` that loses nothing**: its entry, once written, decodes; and if it brings no points, the
directory is not above the limit. -/
def Lossless (c : EntryCodec α β) (s : Buffer α β) : Op α → Prop
  | .push points source time _ =>
    (∀ data, c.marshal ⟨s.nextSeq, time, points, source⟩ = some data → c.unmarshal data ≠ none) ∧
      (points = [] → s.files.length ≤ s.maxEntries)
  | _ => True

/-- A `Drain` has published the batch and not yet removed it. -/
def Removing (s : Buffer α β) (id : ℕ) : Prop := ∃ d seq, s.drain = some d ∧ d.phase = .published seq id

/-- **What is stored**: everything decodes; the batches there are exactly those pushed and neither evicted nor
published, but for the one a `Drain` is about to remove; and all of them are newer than any evicted. -/
structure Kept (c : EntryCodec α β) (s : Buffer α β) : Prop where
  decodes : ∀ f ∈ s.files, c.unmarshal f.data ≠ none
  exact : ∀ id, (∃ f ∈ s.files, f.id = id) ↔
    id < s.pushes.length ∧ id ∉ s.evicted ∧ (id ∈ s.published.map Prod.snd → Removing s id)
  newest : ∀ e ∈ s.evicted, ∀ f ∈ s.files, e < f.id
  evictedPast : ∀ e ∈ s.evicted, e < s.pushes.length
  publishedPast : ∀ id ∈ s.published.map Prod.snd, id < s.pushes.length
  fresh : ∀ d seq id entry, s.drain = some d → d.phase = .publishing seq id entry → id ∉ s.published.map Prod.snd

theorem kept_newBuffer (c : EntryCodec α β) (maxEntries : ℤ) : Kept c (newBuffer α β maxEntries) := by
  constructor <;> simp [newBuffer]

theorem removing_iff (hd : s.drain = some d) : Removing s id ↔ ∃ seq, d.phase = .published seq id := by
  simp [Removing, hd]

theorem Kept.drain {drain : Option (DrainCall β)} (h : Kept c s) (hbefore : ∀ id, ¬ Removing s id)
    (hafter : ∀ d seq id, drain = some d → d.phase ≠ .published seq id)
    (hfresh : ∀ d seq id entry, drain = some d → d.phase = .publishing seq id entry →
      id ∉ s.published.map Prod.snd) : Kept c { s with drainCount := n, drain := drain } where
  decodes := h.decodes
  exact id := by
    have hremoving : Removing { s with drainCount := n, drain := drain } id ↔ Removing s id :=
      iff_of_false (fun ⟨d, seq, hd, hphase⟩ => hafter d seq id hd hphase) (hbefore id)
    rw [hremoving]
    exact h.exact id
  newest := h.newest
  evictedPast := h.evictedPast
  publishedPast := h.publishedPast
  fresh := hfresh

theorem Kept.idle {drain : Option (DrainCall β)} (h : Kept c s) (hbefore : ∀ id, ¬ Removing s id)
    (hafter : ∀ d, drain = some d → d.phase = .next) : Kept c { s with drainCount := n, drain := drain } :=
  h.drain hbefore (fun d _ _ hd hphase => absurd ((hafter d hd).symm.trans hphase) nofun)
    fun d _ _ _ hd hphase => absurd ((hafter d hd).symm.trans hphase) nofun

section

variable (h : Inv c s)
include h

theorem Inv.id_lt (hf : f ∈ s.files) : f.id < s.pushes.length := by
  obtain ⟨e, he, -⟩ := h.dir.stored f hf
  exact (List.getElem?_eq_some_iff.mp he).1

theorem Inv.ids_sorted : (s.files.map File.id).Pairwise (· < ·) :=
  pairwise_map.mpr (h.dir.sorted.imp fun hlt => hlt.1)

theorem Inv.take_lt_drop (k : ℕ) :
    ∀ e ∈ (s.files.take k).map File.id, ∀ f ∈ s.files.drop k, e < f.id := by
  intro e he f hf
  have hsorted := h.ids_sorted
  rw [← take_append_drop k s.files, map_append] at hsorted
  exact (pairwise_append.mp hsorted).2.2 e he f.id (mem_map_of_mem hf)

theorem kept_evict {k : ℕ} (hkept : Kept c s) : Kept c { s with
    files := s.files.drop k
    evictCount := n
    evicted := s.evicted ++ (s.files.take k).map File.id } := by
  have hids : ∀ id, (∃ f ∈ s.files, f.id = id) ↔
      (∃ f ∈ s.files.take k, f.id = id) ∨ ∃ f ∈ s.files.drop k, f.id = id := by
    intro id
    conv_lhs => rw [← take_append_drop k s.files]
    simp only [mem_append, or_and_right, exists_or]
  constructor
  · exact fun f hf => hkept.decodes f (mem_of_mem_drop hf)
  · intro id
    have hold := hkept.exact id
    rw [hids id] at hold
    rw [List.mem_append, List.mem_map, not_or]
    constructor
    · intro hdrop
      obtain ⟨hpast, hev, hpub⟩ := hold.mp (.inr hdrop)
      refine ⟨hpast, ⟨hev, ?_⟩, hpub⟩
      rintro ⟨g, hg, hgid⟩
      obtain ⟨f, hf, hfid⟩ := hdrop
      have := h.take_lt_drop k g.id (mem_map_of_mem hg) f hf
      omega
    · rintro ⟨hpast, ⟨hev, htake⟩, hpub⟩
      rcases hold.mpr ⟨hpast, hev, hpub⟩ with hin | hin
      · exact absurd hin htake
      · exact hin
  · intro e he f hf
    rcases mem_append.mp he with he | he
    · exact hkept.newest e he f (mem_of_mem_drop hf)
    · exact h.take_lt_drop k e he f hf
  · intro e he
    rcases mem_append.mp he with he | he
    · exact hkept.evictedPast e he
    · obtain ⟨g, hg, rfl⟩ := mem_map.mp he
      exact h.id_lt (mem_of_mem_take hg)
  · exact hkept.publishedPast
  · exact hkept.fresh

omit h in
theorem kept_store {e : Entry α} {name : List Char} {data : Bytes} (hkept : Kept c s)
    (hdata : c.unmarshal data ≠ none) : Kept c { s with
      nextSeq := n
      files := s.files ++ [⟨name, data, s.pushes.length⟩]
      pushes := s.pushes ++ [e] } := by
  constructor
  · simp only [forall_mem_append, forall_mem_singleton]
    exact ⟨hkept.decodes, hdata⟩
  · intro id
    have hold := hkept.exact id
    simp only [mem_append, mem_singleton, or_and_right, exists_or, exists_eq_left, hold,
      length_append, length_singleton]
    constructor
    · rintro (⟨hpast, hrest⟩ | rfl)
      · exact ⟨by omega, hrest⟩
      · refine ⟨by omega, fun hev => ?_, fun hpub => ?_⟩
        · exact absurd (hkept.evictedPast _ hev) (Nat.lt_irrefl _)
        · exact absurd (hkept.publishedPast _ hpub) (Nat.lt_irrefl _)
    · rintro ⟨hpast, hrest⟩
      by_cases hlast : id = s.pushes.length
      · exact .inr hlast.symm
      · exact .inl ⟨by omega, hrest⟩
  · simp only [forall_mem_append, forall_mem_singleton]
    exact fun x hx => ⟨hkept.newest x hx, hkept.evictedPast x hx⟩
  · intro x hx
    have := hkept.evictedPast x hx
    simp only [length_append]
    omega
  · intro x hx
    have := hkept.publishedPast x hx
    simp only [length_append]
    omega
  · exact hkept.fresh

theorem kept_push (hdisk : disk.Obeys) (hkept : Kept c s)
    (hdecodes : ∀ data, c.marshal ⟨s.nextSeq, time, points, source⟩ = some data → c.unmarshal data ≠ none) :
    Kept c (push c points source time disk s) := by
  have heq := evictIfNeeded_eq h hdisk
  have hevict := kept_evict (n := s.evictCount + surplus s) (k := surplus s) h hkept
  rcases push_cases h.dir points source time disk with ⟨-, hpush⟩ | ⟨-, hpush | ⟨data, hdata, hpush⟩⟩
  · rw [hpush]
    exact hkept
  · rw [hpush, heq]
    exact { hevict with }
  · rw [hpush, heq]
    exact kept_store hevict (hdecodes data hdata)

theorem kept_removed (hkept : Kept c s) (hd : s.drain = some d)
    (hphase : d.phase = .published seq id) : Kept c { s with
      files := remove (seqFileName seq) s.files
      drain := some { d with phase := .next, drained := n } } := by
  obtain ⟨p, hin, -, htook⟩ := h.handAt hd hphase
  have hremoving : ∀ x, Removing s x ↔ x = id := by simp [removing_iff hd, hphase, eq_comm]
  have hfile : ∀ f ∈ s.files, f.name = seqFileName seq ↔ f.id = id := by
    intro f hf
    refine ⟨hin.only f hf, fun hid => ?_⟩
    obtain ⟨e, he, hname, -⟩ := h.dir.stored f hf
    rw [hid, hin.push] at he
    cases he
    rw [hname, hin.seq_eq]
  constructor
  · exact fun f hf => hkept.decodes f (mem_remove.mp hf).1
  · intro x
    have hold := hkept.exact x
    rw [hremoving] at hold
    have hnone : ¬ Removing (β := β) { s with
        files := remove (seqFileName seq) s.files
        drain := some { d with phase := .next, drained := n } } x := by
      simp [Removing]
    constructor
    · rintro ⟨f, hf, rfl⟩
      obtain ⟨hf, hname⟩ := mem_remove.mp hf
      have hne : f.id ≠ id := fun hid => hname ((hfile f hf).mpr hid)
      obtain ⟨hpast, hev, hpub⟩ := hold.mp ⟨f, hf, rfl⟩
      exact ⟨hpast, hev, fun hmem => absurd (hpub hmem) hne⟩
    · rintro ⟨hpast, hev, hpub⟩
      obtain ⟨f, hf, rfl⟩ := hold.mpr ⟨hpast, hev, fun hmem => absurd (hpub hmem) hnone⟩
      refine ⟨f, mem_remove.mpr ⟨hf, fun hname => ?_⟩, rfl⟩
      have hmem : f.id ∈ s.published.map Prod.snd :=
        mem_map.mpr ⟨(d.source, id), htook, ((hfile f hf).mp hname).symm⟩
      exact hnone (hpub hmem)
  · exact fun e he f hf => hkept.newest e he f (mem_remove.mp hf).1
  · exact hkept.evictedPast
  · exact hkept.publishedPast
  · intro d' seq' id' entry hd' hphase'
    cases hd'
    cases hphase'

theorem kept_took {entry : Entry β} (hkept : Kept c s) (hd : s.drain = some d)
    (hphase : d.phase = .publishing seq id entry) : Kept c { s with
      drain := some { d with phase := .published seq id }
      published := s.published ++ [(d.source, id)] } := by
  obtain ⟨p, data, hin, -⟩ := h.handAt hd hphase
  have hfresh := hkept.fresh d seq id entry hd hphase
  have hnone : ∀ x, ¬ Removing s x := by simp [removing_iff hd, hphase]
  constructor
  · exact hkept.decodes
  · intro x
    have hold := hkept.exact x
    simp only [hnone x] at hold
    rw [hold, map_append, mem_append]
    refine and_congr_right fun _ => and_congr_right fun _ => ?_
    constructor
    · rintro hpub (hmem | hmem)
      · exact absurd hmem hpub
      · rw [mem_singleton.mp hmem]
        exact ⟨_, _, rfl, rfl⟩
    · intro himp hmem
      obtain ⟨d', seq', hd', hphase'⟩ := himp (.inl hmem)
      cases hd'
      cases hphase'
      exact hfresh hmem
  · exact hkept.newest
  · exact hkept.evictedPast
  · intro x hx
    rw [map_append, mem_append] at hx
    rcases hx with hx | hx
    · exact hkept.publishedPast x hx
    · rw [mem_singleton.mp hx]
      exact (List.getElem?_eq_some_iff.mp hin.push).1
  · intro d' seq' id' entry' hd' hphase'
    cases hd'
    cases hphase'

/-- **A step that loses nothing** keeps what is stored. -/
theorem kept_step (hkept : Kept c s) (hobeyed : op.Obeyed) (hlossless : Lossless c s op)
    (hstep : step c s op = some s') : Kept c s' := by
  cases trans_of_step hstep with
  | push points source time disk _ => exact kept_push h hobeyed hkept hlossless.1
  | unlisted source hd => exact hkept
  | listed source hd =>
    refine hkept.idle (by simp [Removing, hd]) ?_
    rintro d ⟨⟩
    rfl
  | skipped hd hphase hseqs =>
    refine hkept.idle (by simp [removing_iff hd, hphase]) ?_
    rintro d ⟨⟩
    exact hphase
  | corrupt hd hphase hseqs hf hname hdata => exact absurd hdata (hkept.decodes _ hf)
  | @handed d ok seq seqs f entry hd hphase hseqs hf hname hdata hsource =>
    have hbefore : ∀ id, ¬ Removing s id := by simp [removing_iff hd, hphase]
    refine hkept.drain hbefore ?_ ?_
    · rintro d seq id ⟨⟩ ⟨⟩
    · -- the file was there, so its batch was not published
      rintro d seq id entry ⟨⟩ ⟨⟩
      exact fun hmem => hbefore f.id (((hkept.exact f.id).mp ⟨f, hf, rfl⟩).2.2 hmem)
  | took hd hphase => exact kept_took h hkept hd hphase
  | removedCorrupt hd hphase =>
    have habsent := h.corrupt_absent hkept.decodes hd hphase
    simp only [remove_eq_self habsent, ite_self]
    refine hkept.idle (by simp [removing_iff hd, hphase]) ?_
    rintro d ⟨⟩
    rfl
  | @removedPublished d ok seq id hd hphase =>
    have hok : ok = true := hobeyed
    simp only [hok]
    exact kept_removed h hkept hd hphase
  | restart maxEntries hd => exact { hkept with }
  | ended hd hphase | paused hd hphase => exact hkept.idle (by simp [removing_iff hd, hphase]) nofun

/-- **After a `Push`** there are no more batches than the limit. -/
theorem push_bounded (hdisk : disk.Obeys) (hempty : points = [] → s.files.length ≤ s.maxEntries) :
    (push c points source time disk s).files.length ≤ (push c points source time disk s).maxEntries := by
  have heq := evictIfNeeded_eq h hdisk
  have hroom : (s.files.drop (surplus s)).length + 1 ≤ s.maxEntries := by
    have := h.limit
    rw [length_drop, surplus]
    omega
  rcases push_cases h.dir points source time disk with ⟨hnil, hpush⟩ | ⟨-, hpush | ⟨data, -, hpush⟩⟩
  · rw [hpush]
    exact hempty hnil
  · rw [hpush, heq]
    exact (Nat.le_succ _).trans hroom
  · rw [hpush, heq, length_append]
    exact hroom

end

/-- No I/O error, and no loss. -/
def Sound (c : EntryCodec α β) (s : Buffer α β) (op : Op α) : Prop := op.Obeyed ∧ Lossless c s op

/-- **The newest batches are kept across restarts**: along every run without I/O errors, each `Push` of which loses
nothing, the numbers of the stored batches are distinct and below `nextSeq`; a `Push` leaves no more than the limit;
between `Drain` calls those are stored that were pushed and neither drained nor evicted; and none that is older than
an evicted one is. -/
theorem newest_kept (c : EntryCodec α β) (maxEntries : ℤ) (ops : List (Op α)) (s : Buffer α β)
    (hrun : Run (step c) (Sound c) (newBuffer α β maxEntries) ops s) :
    ((s.files.map File.seq).Nodup ∧ ∀ f ∈ s.files, parseSeqFile f.name = some f.seq ∧ f.seq < s.nextSeq) ∧
      (∀ points source time disk s', Sound c s (.push points source time disk) →
        step c s (.push points source time disk) = some s' → s'.files.length ≤ s'.maxEntries) ∧
      (s.drain = none → ∀ id, (∃ f ∈ s.files, f.id = id) ↔
        id < s.pushes.length ∧ id ∉ s.published.map Prod.snd ∧ id ∉ s.evicted) ∧
      ∀ e ∈ s.evicted, ∀ id ≤ e, ¬ ∃ f ∈ s.files, f.id = id := by
  obtain ⟨hinv, hkept⟩ := hrun.invariant (I := fun s => Inv c s ∧ Kept c s)
    (fun _ _ _ hsound hstep h => ⟨inv_step h.1 hstep, kept_step h.1 h.2 hsound.1 hsound.2 hstep⟩)
    ⟨inv_newBuffer c maxEntries, kept_newBuffer c maxEntries⟩
  refine ⟨⟨?_, fun f hf => ⟨hinv.dir.parse hf, hinv.dir.bound f hf⟩⟩, ?_, ?_, ?_⟩
  · exact hinv.dir.seqs_sorted.imp fun hlt => Nat.ne_of_lt hlt
  · intro points source time disk s' hsound hstep
    simp only [step, ite_none_right_eq_some, some.injEq] at hstep
    obtain ⟨-, rfl⟩ := hstep
    exact push_bounded hinv hsound.1 hsound.2.2
  · intro hidle id
    have hnone : ¬ Removing s id := by simp [Removing, hidle]
    rw [hkept.exact id, and_comm (a := id ∉ s.published.map Prod.snd)]
    simp [hnone]
  · rintro e he id hle ⟨f, hf, rfl⟩
    have := hkept.newest e he f hf
    omega

/-! ### Runs of a small buffer -/

/-- `Op.Obeyed`, checked. -/
def Op.obeyed : Op α → Bool
  | .push _ _ _ disk => disk.listed && disk.refused.isEmpty && disk.written
  | .list _ ok | .read ok | .remove ok => ok
  | .answer _ | .restart _ => true

theorem Op.obeyed_spec (h : op.obeyed = true) : op.Obeyed := by
  cases op with
  | push points source time disk =>
    rw [Op.obeyed, Bool.and_eq_true, Bool.and_eq_true, List.isEmpty_iff] at h
    exact ⟨h.1.1, h.1.2, h.2⟩
  | answer | restart => trivial
  | _ => exact h

/-- `Faultless`, checked. -/
def faultless (c : EntryCodec α β) (s : Buffer α β) (op : Op α) : Bool :=
  s.files.all (fun f => (c.unmarshal f.data).isSome) && op.obeyed &&
    match op with
    | .restart _ => false
    | _ => true

theorem faultless_spec (s : Buffer α β) (op : Op α) (h : faultless c s op = true) : Faultless c s op := by
  unfold faultless at h
  rw [Bool.and_eq_true, Bool.and_eq_true, List.all_eq_true] at h
  refine ⟨Op.obeyed_spec h.1.2, fun f hf => Option.isSome_iff_ne_none.mp (h.1.1 f hf), ?_⟩
  rintro n rfl
  cases h.2

/-- `Sound`, checked. -/
def sound (c : EntryCodec α β) (s : Buffer α β) (op : Op α) : Bool :=
  op.obeyed &&
    match op with
    | .push points source time _ =>
      (match c.marshal ⟨s.nextSeq, time, points, source⟩ with
        | some data => (c.unmarshal data).isSome
        | none => true) && (!points.isEmpty || s.files.length ≤ s.maxEntries)
    | _ => true

theorem sound_spec (s : Buffer α β) (op : Op α) (h : sound c s op = true) : Sound c s op := by
  unfold sound at h
  rw [Bool.and_eq_true] at h
  refine ⟨Op.obeyed_spec h.1, ?_⟩
  cases op with
  | push points source time disk =>
    simp only [Bool.and_eq_true, Bool.or_eq_true, decide_eq_true_eq] at h
    refine ⟨fun data hdata => ?_, fun hempty => ?_⟩
    · rw [hdata] at h
      exact isSome_iff_ne_none.mp h.2.1
    · rw [hempty] at h
      exact h.2.2.resolve_left nofun
  | _ => trivial

open Core.Types Engine.OfflineEntry

abbrev EngineBuffer : Type := Buffer EnginePoint DataPoint

abbrev runCodec : EntryCodec EnginePoint DataPoint := offlineCodec zeroCodec

def pushPower (type : ℤ) : Op EnginePoint := .push [powerPoint type] "cloud" 0 {}

def summary (s : EngineBuffer) : List ℕ := [s.pushes.length, s.drainCount, s.evictCount, pendingCount s]

theorem exists_run {ρ : Type} {P : EngineBuffer → Op EnginePoint → Prop} (n : ℤ) (ops : List (Op EnginePoint))
    (check : EngineBuffer → Op EnginePoint → Bool) (h : ∀ s op, check s op = true → P s op)
    (f : EngineBuffer → ρ) (r : ρ)
    (hrun : (checkedRun (step runCodec) check (newBuffer _ _ n) ops).map f = some r) :
    ∃ s, Run (step runCodec) P (newBuffer _ _ n) ops s ∧ f s = r :=
  Run.exists_of_checkedRun h f r hrun fun _ _ hs => hs

/-- Two batches are pushed, and the `Drain` of their source has given both to `tryPublish`, the older one first. -/
theorem owned_ordered_kept_power : ∃ (s : EngineBuffer) (d : DrainCall DataPoint),
    Run (step runCodec) (fun _ _ => True) (newBuffer _ _ 2)
        [pushPower 10, pushPower 10, .list "cloud" true, .read true, .answer true, .remove true, .read true] s ∧
      s.drain = some d ∧ d.handed = [1, 2] ∧ d.handed.Pairwise (· < ·) := by
  obtain ⟨s, hrun, hs⟩ := exists_run (P := fun _ _ => True) 2
    [pushPower 10, pushPower 10, .list "cloud" true, .read true, .answer true, .remove true, .read true]
    (fun _ _ => true) (fun _ _ _ => trivial) (fun s => s.drain.map DrainCall.handed) (some [1, 2]) (by decide +kernel)
  obtain ⟨d, hd, hhanded⟩ := map_eq_some_iff.mp hs
  exact ⟨s, d, hrun, hd, hhanded, ((owned_ordered_kept runCodec 2 _ s hrun).1 d hd).2⟩

/-- A batch is pushed and drained: the removal finds its file. -/
theorem counters_balance_iff_power : ∃ s : EngineBuffer, Run (step runCodec) FindsFile (newBuffer _ _ 1)
      [pushPower 10, .list "cloud" true, .read true, .answer true, .remove true, .read true] s ∧
    s.pushes.length = 1 := by
  obtain ⟨s, hrun, hs⟩ := exists_run 1
    [pushPower 10, .list "cloud" true, .read true, .answer true, .remove true, .read true] (faultless runCodec)
    faultless_spec (fun s => (summary s, s.drain.isNone)) ([1, 1, 0, 0], true) (by decide +kernel)
  simp only [summary, Prod.mk.injEq, List.cons.injEq, isNone_iff_eq_none] at hs
  obtain ⟨⟨hpushes, hdrained, hevicted, hpending, -⟩, hidle⟩ := hs
  exact ⟨s, (counters_balance_iff runCodec 1 _ s hrun hidle).mp (by omega), hpushes⟩

/-- **A batch is counted twice**: with room for one batch, a second one is pushed while the first is being
published. -/
theorem evicted_while_published : ∃ s : EngineBuffer, Run (step runCodec) (Faultless runCodec) (newBuffer _ _ 1)
      [pushPower 10, .list "cloud" true, .read true, pushPower 10, .answer true, .remove true, .read true] s ∧
    s.drain = none ∧ s.pushes.length ≠ s.drainCount + s.evictCount + pendingCount s := by
  refine Run.exists_of_checkedRun faultless_spec (fun s => (summary s, s.drain.isNone)) ([2, 1, 1, 1], true)
    (by decide +kernel) fun s _ hs => ?_
  simp only [summary, Prod.mk.injEq, List.cons.injEq, isNone_iff_eq_none] at hs
  obtain ⟨⟨hpushes, hdrained, hevicted, hpending, -⟩, hidle⟩ := hs
  exact ⟨hidle, by omega⟩

/-- Two batches, the second after a restart with room for one: the first is evicted and no longer stored. -/
theorem newest_kept_restart : ∃ s : EngineBuffer,
    Run (step runCodec) (Sound runCodec) (newBuffer _ _ 2) [pushPower 10, .restart 1, pushPower 10] s ∧
      s.evicted = [0] ∧ ¬ ∃ f ∈ s.files, f.id = 0 := by
  refine Run.exists_of_checkedRun sound_spec (fun s => s.evicted) [0] (by decide +kernel) fun s hrun hs =>
    ⟨hs, (newest_kept runCodec 2 _ s hrun).2.2.2 0 ?_ 0 le_rfl⟩
  rw [hs]
  exact mem_singleton_self 0

/-- **A stored batch is neither drained nor evicted and yet gone**, because its type has no name and its file
does not decode; and **a `Push` of no points leaves more than the limit** after a restart with a lower one. -/
theorem kept_fails : (∃ s : EngineBuffer, Run (step runCodec) (fun _ op => op.Obeyed) (newBuffer _ _ 1)
        [pushPower 99, .list "cloud" true, .read true, .remove true, .read true] s ∧ s.drain = none ∧
      s.pushes.length = 1 ∧ s.published = [] ∧ s.evicted = [] ∧ s.files = []) ∧
    ∃ s : EngineBuffer, Run (step runCodec) (fun _ op => op.Obeyed) (newBuffer _ _ 2)
        [pushPower 10, pushPower 10, .restart 1, .push [] "cloud" 0 {}] s ∧ s.maxEntries = 1 ∧ s.files.length = 2 := by
  constructor
  · refine Run.exists_of_checkedRun (fun _ _ => Op.obeyed_spec)
      (fun s => (s.drain.isNone, s.pushes.length, [s.published.length, s.evicted.length, s.files.length]))
      (true, 1, [0, 0, 0]) (by decide +kernel) fun s _ hs => ?_
    simp only [Prod.mk.injEq, isNone_iff_eq_none, List.cons.injEq, length_eq_zero_iff] at hs
    obtain ⟨hidle, hpushes, hpublished, hevicted, hfiles, -⟩ := hs
    exact ⟨hidle, hpushes, hpublished, hevicted, hfiles⟩
  · exact Run.exists_of_checkedRun (fun _ _ => Op.obeyed_spec) (fun s => (s.maxEntries, s.files.length)) (1, 2)
      (by decide +kernel) fun s _ hs => Prod.mk.inj hs

/-! ### A push that fails -/

/-- `Push` returns an error: the entry cannot be encoded, or its file cannot be written, synced or renamed. -/
def pushFails (c : EntryCodec α β) (points : List α) (source : String) (time : ℤ) (disk : Disk) (s : Buffer α β) : Prop :=
  points ≠ [] ∧ (c.marshal ⟨s.nextSeq, time, points, source⟩ = none ∨ disk.written = false)

/-- An eviction keeps all files exactly if none of its victims can be removed. -/
theorem evictLoop_keeps_iff (refused : List ℕ) : ∀ (seqs : List ℕ) (s : Buffer α β),
    (∀ f ∈ s.files, f ∈ (evictLoop refused seqs s).files) ↔
      ∀ q ∈ seqs.take (seqs.length + 1 - s.maxEntries), q ∈ refused ∨ ∀ f ∈ s.files, f.name ≠ seqFileName q
  | [], s => by simp [evictLoop]
  | oldest :: seqs, s => by
    rw [evictLoop, length_cons]
    by_cases hfull : s.maxEntries ≤ seqs.length + 1
    · have hsucc : seqs.length + 1 + 1 - s.maxEntries = seqs.length + 1 - s.maxEntries + 1 := by omega
      rw [if_pos hfull, hsucc, take_succ_cons, forall_mem_cons]
      by_cases hstays : oldest ∈ refused ∨ ∀ f ∈ s.files, f.name ≠ seqFileName oldest
      · have hsame : evictOne refused oldest s = s := by
          unfold evictOne
          split
          · rfl
          · next f hfind =>
            obtain ⟨hmem, hname⟩ := find_spec hfind
            rw [if_pos (hstays.resolve_right fun h => h f hmem hname)]
        rw [hsame, evictLoop_keeps_iff refused seqs s]
        exact (and_iff_right hstays).symm
      · refine iff_of_false (fun hkeeps => ?_) fun h => hstays h.1
        obtain ⟨href, f, hf, hname⟩ : oldest ∉ refused ∧ ∃ f ∈ s.files, f.name = seqFileName oldest := by
          simpa [not_forall] using hstays
        obtain ⟨files, n, ids, heq, hsub⟩ := evictLoop_frame refused seqs (evictOne refused oldest s)
        have hmem := hkeeps f hf
        rw [heq] at hmem
        exact (mem_evictOne.mp (hsub.subset hmem)).2.elim href fun hne => hne hname
    · have hzero : seqs.length + 1 + 1 - s.maxEntries = 0 := by omega
      rw [if_neg hfull, hzero]
      simp

/-- **A push that fails** keeps all stored batches exactly if no batch can be evicted for it: the directory cannot be
listed, or it has room for one more, or the disk refuses to remove its oldest files. -/
theorem push_failed_iff {points : List α} {source : String} {time : ℤ} (hfails : pushFails c points source time disk s) :
    (∀ f ∈ s.files, f ∈ (push c points source time disk s).files) ↔
      (disk.listed = true → ∀ q ∈ (listing s.files).take ((listing s.files).length + 1 - s.maxEntries),
        q ∈ disk.refused ∨ ∀ f ∈ s.files, f.name ≠ seqFileName q) := by
  have hfiles : (push c points source time disk s).files = (evictIfNeeded disk s).files := by
    obtain ⟨files, n, ids, heq, -⟩ := evictIfNeeded_frame disk s
    obtain ⟨hpoints, hmarshal | hwritten⟩ := hfails
    · simp [push, hpoints, heq, hmarshal]
    · cases hmarshal : c.marshal ⟨s.nextSeq, time, points, source⟩ <;> simp [push, hpoints, heq, hmarshal, hwritten]
  rw [hfiles, evictIfNeeded]
  split_ifs with hlisted
  · rw [evictLoop_keeps_iff]
    exact ⟨fun h _ => h, fun h => h hlisted⟩
  · exact iff_of_true (fun _ => id) fun h => absurd h hlisted

/-- A batch is stored in a directory with room for two, beside a file whose number is too large for `parseSeqFile`. -/
def roomy : EngineBuffer where
  files := [⟨"0000000001.json".toList, [], 0⟩, ⟨"99999999999999999999.json".toList, [], 1⟩]
  maxEntries := 2
  nextSeq := 2

theorem push_failed_iff_room : pushFails runCodec [powerPoint 10] "cloud" 0 { written := false } roomy ∧
    ∀ f ∈ roomy.files, f ∈ (push runCodec [powerPoint 10] "cloud" 0 { written := false } roomy).files := by
  refine ⟨⟨cons_ne_nil _ _, .inr rfl⟩, (push_failed_iff ⟨cons_ne_nil _ _, .inr rfl⟩).mpr fun _ q hq => ?_⟩
  -- only one of the two files is listed
  have hlisting : (listing roomy.files).take ((listing roomy.files).length + 1 - roomy.maxEntries) = [] := by
    decide +kernel
  rw [hlisting] at hq
  cases hq

/-- With room for one batch, a push that cannot write its file has evicted the batch that was stored. -/
theorem evicted_for_nothing : ∃ s : EngineBuffer, step runCodec (newBuffer _ _ 1) (pushPower 10) = some s ∧
    s.files ≠ [] ∧ pushFails runCodec [powerPoint 10] "cloud" 0 { written := false } s ∧
    (push runCodec [powerPoint 10] "cloud" 0 { written := false } s).files = [] :=
  ⟨_, rfl, by decide +kernel, ⟨cons_ne_nil _ _, .inr rfl⟩, by decide +kernel⟩

end CoreC.Engine.Offline
