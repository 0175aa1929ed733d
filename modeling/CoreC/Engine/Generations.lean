import Mathlib.Algebra.GroupWithZero.Nat
import Mathlib.Data.List.Induction
import CoreC.Engine.JsonlStore

/-! # The records that a JSON Lines store keeps

Without crashes and failing operations the two files of a `jsonlStore` hold the records since the rotation before
the last one: `kept`. `load` reads them with a line scanner that gives up at a line of more than 1 MiB, so a long
record hides itself and every later record of its file. -/

namespace CoreC.Engine.Generations

open Engine.JsonlStore List

section

variable {T : Type} (fmt : Format T) (maxBytes : ℕ)

/-- The line of a record. -/
def lineOf (e : T) : List UInt8 := (fmt.marshal e).getD [] ++ [newline]

def fileOf (es : List T) : List UInt8 := es.flatMap (lineOf fmt)

/-- The records between the last two rotations, and those since the last one. -/
structure Kept (T : Type) where
  previous : List T := []
  current : List T := []

def Kept.all (k : Kept T) : List T := k.previous ++ k.current

/-- An append, with the rotation. -/
def keep (k : Kept T) (e : T) : Kept T :=
  if ((k.current ++ [e]).map fun e => (lineOf fmt e).length).sum < maxBytes then
    { k with current := k.current ++ [e] }
  else { previous := k.current ++ [e], current := [] }

/-- What a store keeps of the records. -/
def kept (es : List T) : Kept T := es.foldl (keep fmt maxBytes) {}

/-- The scanner reads the line. -/
def Short (e : T) : Prop := (lineOf fmt e).length ≤ maxLine

instance (e : T) : Decidable (Short fmt e) := inferInstanceAs (Decidable (_ ≤ _))

def readable (k : Kept T) : List T :=
  (k.previous.takeWhile fun e => Short fmt e) ++ k.current.takeWhile fun e => Short fmt e

structure Holds (k : Kept T) (s : Store T) : Prop where
  rotated : s.rotated.getD [] = fileOf fmt k.previous
  file : s.file = fileOf fmt k.current

end

section

variable {T : Type} {fmt : Format T} {maxBytes : ℕ} {k : Kept T} {es : List T} {s : Store T}

/-! ### The content of the files -/

theorem fileOf_append_singleton (es : List T) (e : T) : fileOf fmt (es ++ [e]) = fileOf fmt es ++ lineOf fmt e := by
  simp [fileOf]

theorem length_fileOf (es : List T) : (fileOf fmt es).length = (es.map fun e => (lineOf fmt e).length).sum := by
  simp [fileOf]

/-- **One append keeps the files in step with the records.** -/
theorem holds_append (h : Holds fmt k s) {e : T} (he : Faithful fmt e) :
    Holds fmt (keep fmt maxBytes k e) (append fmt maxBytes s e) := by
  obtain ⟨line, hline, -⟩ := he
  have hlineOf : lineOf fmt e = line ++ [newline] := by rw [lineOf, hline, Option.getD_some]
  have hfile : s.file ++ (line ++ [newline]) = fileOf fmt (k.current ++ [e]) := by
    rw [fileOf_append_singleton, hlineOf, h.file]
  unfold append keep rotateLocked
  rw [hline]
  dsimp only
  rw [hfile, length_fileOf]
  split_ifs
  · exact ⟨h.rotated, rfl⟩
  · exact ⟨rfl, rfl⟩

theorem holds_foldl (h : Holds fmt k s) : ∀ es : List T, (∀ e ∈ es, Faithful fmt e) →
    Holds fmt (es.foldl (keep fmt maxBytes) k) (es.foldl (append fmt maxBytes) s) := by
  intro es hes
  induction es generalizing k s with
  | nil => exact h
  | cons e es ih =>
    rw [forall_mem_cons] at hes
    exact ih (holds_append h hes.1) hes.2

theorem kept_append_singleton (es : List T) (e : T) :
    kept fmt maxBytes (es ++ [e]) = keep fmt maxBytes (kept fmt maxBytes es) e := by
  rw [kept, foldl_append, foldl_cons, foldl_nil, kept]

theorem kept_suffix (es : List T) : (kept fmt maxBytes es).all <:+ es := by
  induction es using List.reverseRecOn with
  | nil => exact suffix_rfl
  | append_singleton es e ih =>
    rw [kept_append_singleton]
    generalize kept fmt maxBytes es = k at ih ⊢
    obtain ⟨older, rfl⟩ := ih
    unfold keep
    split_ifs
    · exact ⟨older, by simp [Kept.all]⟩
    · exact ⟨older ++ k.previous, by simp [Kept.all]⟩

/-! ### Reading them back -/

/-- **What is read of one file**: the records before the first line that is too long. -/
theorem loadFile_fileOf (hes : ∀ e ∈ es, Faithful fmt e) :
    loadFile fmt (fileOf fmt es) = es.takeWhile fun e => Short fmt e := by
  induction es with
  | nil => rfl
  | cons e es ih =>
    rw [forall_mem_cons] at hes
    obtain ⟨line, hline, hread⟩ := hes.1
    have hfile : fileOf fmt (e :: es) = line ++ newline :: fileOf fmt es := by
      simp [fileOf, lineOf, hline]
    have hlength : line.length < maxLine ↔ Short fmt e := by
      rw [Short, lineOf, hline, Option.getD_some, length_append, length_singleton, Nat.lt_iff_add_one_le]
    have ih := ih hes.2
    unfold loadFile at ih ⊢
    rw [hfile, scanLines_of_notMem (fmt.newline_notMem e line hline), nil_append, takeWhile_cons, takeWhile_cons]
    by_cases hshort : Short fmt e
    · have hdecode : fmt.unmarshal (dropCR line) = some e := by
        rw [dropCR, if_neg (fmt.not_carriageReturn e line hline), hread]
      rw [if_pos (decide_eq_true (hlength.mpr hshort)), if_pos (decide_eq_true hshort), filterMap_cons, hdecode, ih]
    · have hlong : ¬ line.length < maxLine := fun h => hshort (hlength.mp h)
      rw [if_neg (by simpa using hlong), if_neg (by simpa using hshort), filterMap_nil]

theorem load_of_holds (h : Holds fmt k s) (hk : ∀ e ∈ k.all, Faithful fmt e) (limit : ℕ) :
    load fmt s limit = (readable fmt k).drop ((readable fmt k).length - limit) := by
  have hprevious := loadFile_fileOf fun e he => hk e (mem_append_left _ he)
  have hcurrent := loadFile_fileOf fun e he => hk e (mem_append_right _ he)
  unfold load
  rw [h.rotated, h.file, hprevious, hcurrent]
  rfl

theorem readable_of_short (h : ∀ e ∈ k.all, Short fmt e) : readable fmt k = k.all := by
  have hself : ∀ l : List T, (∀ e ∈ l, Short fmt e) → (l.takeWhile fun e => Short fmt e) = l :=
    fun l hl => takeWhile_eq_self_iff.mpr fun e he => decide_eq_true (hl e he)
  rw [readable, hself _ fun e he => h e (mem_append_left _ he),
    hself _ fun e he => h e (mem_append_right _ he), Kept.all]

theorem load_of_short (hs : Holds fmt (kept fmt maxBytes es) s)
    (hes : ∀ e ∈ (kept fmt maxBytes es).all, Faithful fmt e ∧ Short fmt e) (limit : ℕ) :
    load fmt s limit = es.drop (es.length - min limit (kept fmt maxBytes es).all.length) := by
  obtain ⟨older, holder⟩ : (kept fmt maxBytes es).all <:+ es := kept_suffix es
  have hlength : es.length = older.length + (kept fmt maxBytes es).all.length := by
    rw [← length_append, holder]
  have hindex : es.length - min limit (kept fmt maxBytes es).all.length =
      older.length + ((kept fmt maxBytes es).all.length - limit) := by omega
  have hdrop : es.drop older.length = (kept fmt maxBytes es).all := by
    conv_lhs => rw [← holder, drop_left]
  rw [load_of_holds hs (fun e he => (hes e he).1), readable_of_short fun e he => (hes e he).2, hindex,
    ← drop_drop, hdrop]

theorem short_of_takeWhile (h : es.length ≤ (es.takeWhile fun e => Short fmt e).length) : ∀ e ∈ es, Short fmt e := by
  have hall := ( takeWhile_prefix fun e => decide (Short fmt e)).eq_of_length_le h
  exact fun e he => by simpa using takeWhile_eq_self_iff.mp hall e he

end

section

variable {T : Type} {fmt : Format T} {maxBytes : ℕ}

/-- A new store after these appends. -/
def stored (fmt : Format T) (maxBytes : ℕ) (es : List T) : Store T :=
  es.foldl (append fmt maxBytes) { isOpen := true }

theorem holds_stored {es : List T} (hes : ∀ e ∈ es, Faithful fmt e) :
    Holds fmt (kept fmt maxBytes es) (stored fmt maxBytes es) :=
  holds_foldl ⟨rfl, rfl⟩ es hes

end

/-- **A load returns the last `min limit k` records, for every limit, exactly if every line of the `k` kept records
is at most 1 MiB long**, with its terminator. -/
theorem load_kept_iff {T : Type} (fmt : Format T) (maxBytes : ℕ) (es : List T)
    (hes : ∀ e ∈ es, Faithful fmt e) :
    (∀ limit, load fmt (stored fmt maxBytes es) limit =
        es.drop (es.length - min limit (kept fmt maxBytes es).all.length)) ↔
      ∀ e ∈ (kept fmt maxBytes es).all, (lineOf fmt e).length ≤ maxLine := by
  have hsuffix : (kept fmt maxBytes es).all <:+ es := kept_suffix es
  have hfaithful : ∀ e ∈ (kept fmt maxBytes es).all, Faithful fmt e :=
    fun e he => hes e (hsuffix.subset he)
  generalize hk : kept fmt maxBytes es = k at hsuffix hfaithful ⊢
  have hholds : Holds fmt k (stored fmt maxBytes es) := hk ▸ holds_stored hes
  constructor
  · intro hload
    have hall := (load_of_holds hholds hfaithful k.all.length).symm.trans (hload k.all.length)
    -- all kept records are read, so no file is cut
    have hcount := congrArg List.length hall
    have hle := hsuffix.length_le
    have hprev := ( takeWhile_prefix (l := k.previous) fun e => decide (Short fmt e)).length_le
    have hcur := ( takeWhile_prefix (l := k.current) fun e => decide (Short fmt e)).length_le
    simp only [readable, Kept.all, length_append, length_drop] at hcount hle
    intro e he
    rcases mem_append.mp he with he | he <;> exact short_of_takeWhile (by omega) e he
  · subst hk
    exact fun hshort => load_of_short hholds fun e he => ⟨hfaithful e he, hshort e he⟩

/-- Four records in files of ten bytes: the second rotation leaves the last two. -/
theorem load_kept_iff_booleans : (kept boolFormat 10 [true, true, false, true]).all = [false, true] ∧
    load boolFormat (stored boolFormat 10 [true, true, false, true]) 3 = [false, true] := by
  refine ⟨by decide, ?_⟩
  exact (load_kept_iff boolFormat 10 [true, true, false, true] fun b _ => boolFormat_faithful b).mpr (by decide) 3

/-! ### A long record -/

/-- A fmt that writes `true` as a number of 2^20 digits. -/
def digitFormat : Format Bool where
  marshal b := some (if b then List.replicate maxLine 49 else [48])
  unmarshal line := some (line ≠ [48])
  newline_notMem e line h := by
    cases h
    cases e with
    | true => simp [mem_replicate, newline]
    | false => decide
  not_carriageReturn e line h := by
    cases h
    cases e with
    | true =>
      have hpos : maxLine ≠ 0 := by decide
      simp [List.getLast?_replicate, hpos, carriageReturn]
    | false => decide

theorem digitFormat_faithful (b : Bool) : Faithful digitFormat b := by
  refine ⟨_, rfl, ?_⟩
  cases b with
  | true =>
    have hne : List.replicate maxLine (49 : UInt8) ≠ [48] := fun h => by
      have hlength := congrArg List.length h
      rw [length_replicate] at hlength
      exact absurd hlength (by decide)
    simp [digitFormat, hne]
  | false => rfl

/-- **A record after a long one is not loaded**, although both are in the file. -/
theorem hidden_by_long_line : (kept digitFormat 5242880 [true, false]).all = [true, false] ∧
      load digitFormat (stored digitFormat 5242880 [true, false]) 2 = [] := by
  have hlong : (lineOf digitFormat true).length = maxLine + 1 := by
    simp [lineOf, digitFormat]
  have hkept : kept digitFormat 5242880 [true, false] = { current := [true, false] } := by
    have hshort : (lineOf digitFormat false).length = 2 := rfl
    simp [kept, keep, hlong, hshort, maxLine]
  have hholds : Holds _ (kept digitFormat 5242880 [true, false])
      (stored digitFormat 5242880 [true, false]) :=
    holds_stored fun b _ => digitFormat_faithful b
  rw [hkept] at hholds
  refine ⟨by rw [hkept]; rfl, ?_⟩
  have hnone : readable digitFormat { current := [true, false] } = [] := by
    simp [readable, Short, hlong]
  rw [load_of_holds hholds (fun b _ => digitFormat_faithful b) 2, hnone, drop_nil]

end CoreC.Engine.Generations
