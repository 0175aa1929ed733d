import Mathlib.Data.Rat.Defs
import Mathlib.Data.List.Sort
import Mathlib.Data.String.Basic

/-! # YAML trees

A document as the tree its parser builds: scalars, sequences and mappings. A mapping keeps the order of
the document; a Go map has no order, so a tree that is read into a Go value of type `any` is put into
key order first (`canon`), and two such values are equal as Go maps if they are equal as trees.

`mapLeaf` replaces scalars and keeps the shape; it commutes with `canon` (`canon_mapLeaf`). -/

namespace CoreC.Lib.Yaml

open List

/-- A `float64`. A NaN differs from every other one, also from the one that a second evaluation of the same
text makes, so it carries the number of the evaluation it comes from. -/
inductive GoFloat where
  | finite (q : ℚ)
  | inf (negative : Bool)
  | nan (origin : ℕ)
  deriving DecidableEq, Repr

namespace GoFloat

instance : Zero GoFloat := ⟨.finite 0⟩

instance : One GoFloat := ⟨.finite 1⟩

/-- `x > 0`. -/
def isPos : GoFloat → Bool
  | finite q => 0 < q
  | inf negative => !negative
  | nan _ => false

/-- `x <= 0`; of a NaN neither this nor `x > 0` holds. -/
def isNonPos : GoFloat → Bool
  | finite q => q ≤ 0
  | inf negative => negative
  | nan _ => false

def isNaN : GoFloat → Bool
  | nan _ => true
  | _ => false

def restamp (n : ℕ) : GoFloat → GoFloat
  | nan _ => nan n
  | x => x

theorem restamp_eq_iff {m n : ℕ} (h : m ≠ n) (x : GoFloat) : x.restamp m = x.restamp n ↔ x.isNaN = false := by
  cases x <;> simp [restamp, isNaN, h]

end GoFloat

inductive Scalar where
  | null
  | bool (b : Bool)
  | int (n : ℤ)
  | float (x : GoFloat)
  | str (s : String)
  deriving DecidableEq, Repr

def Scalar.restamp (n : ℕ) : Scalar → Scalar
  | .float x => .float (x.restamp n)
  | s => s

def Scalar.isNaN : Scalar → Bool
  | .float x => x.isNaN
  | _ => false

theorem Scalar.restamp_eq_iff {a b : ℕ} (h : a ≠ b) (s : Scalar) : s.restamp a = s.restamp b ↔ s.isNaN = false := by
  cases s <;> simp [Scalar.restamp, Scalar.isNaN, GoFloat.restamp_eq_iff h]

/-- A YAML document. -/
inductive Tree where
  | scalar (s : Scalar)
  | seq (ys : List Tree)
  | map (kvs : List (String × Tree))
  deriving Repr

/-! ### Equality is decidable -/

mutual

def decEq : (a b : Tree) → Decidable (a = b)
  | .scalar s, .scalar t => decidable_of_iff (s = t) (by simp)
  | .seq xs, .seq ys =>
    have := decEqList xs ys
    decidable_of_iff (xs = ys) (by simp)
  | .map xs, .map ys =>
    have := decEqEntries xs ys
    decidable_of_iff (xs = ys) (by simp)
  | .scalar _, .seq _ => isFalse (by simp)
  | .scalar _, .map _ => isFalse (by simp)
  | .seq _, .scalar _ => isFalse (by simp)
  | .seq _, .map _ => isFalse (by simp)
  | .map _, .scalar _ => isFalse (by simp)
  | .map _, .seq _ => isFalse (by simp)

def decEqList : (xs ys : List Tree) → Decidable (xs = ys)
  | [], [] => isTrue rfl
  | x :: xs, y :: ys =>
    have := decEq x y
    have := decEqList xs ys
    decidable_of_iff (x = y ∧ xs = ys) (by simp)
  | [], _ :: _ => isFalse (by simp)
  | _ :: _, [] => isFalse (by simp)

def decEqEntries : (xs ys : List (String × Tree)) → Decidable (xs = ys)
  | [], [] => isTrue rfl
  | (k, x) :: xs, (l, y) :: ys =>
    have := decEq x y
    have := decEqEntries xs ys
    decidable_of_iff ((k = l ∧ x = y) ∧ xs = ys) (by simp)
  | [], _ :: _ => isFalse (by simp)
  | _ :: _, [] => isFalse (by simp)

end

instance : DecidableEq Tree := decEq

/-! ### Rebuilding a tree -/

section

variable (f : Scalar → Scalar) (order : List (String × Tree) → List (String × Tree))

mutual

/-- Replace the scalars by `f` and reorder the entries of every mapping by `order`. -/
def rebuild : Tree → Tree
  | .scalar s => .scalar (f s)
  | .seq ys => .seq (rebuildList ys)
  | .map kvs => .map (order (rebuildEntries kvs))

/-- `rebuild` on items. -/
def rebuildList : List Tree → List Tree
  | [] => []
  | y :: ys => rebuild y :: rebuildList ys

/-- `rebuild` on entries. -/
def rebuildEntries : List (String × Tree) → List (String × Tree)
  | [] => []
  | (k, y) :: kvs => (k, rebuild y) :: rebuildEntries kvs

end

theorem rebuildList_eq (ys : List Tree) : rebuildList f order ys = ys.map (rebuild f order) := by
  induction ys with
  | nil => simp [rebuildList]
  | cons y ys ih => simp [rebuildList, ih]

theorem rebuildEntries_eq (kvs : List (String × Tree)) :
    rebuildEntries f order kvs = kvs.map fun x => (x.1, rebuild f order x.2) := by
  induction kvs with
  | nil => simp [rebuildEntries]
  | cons x kvs ih => simp [rebuildEntries, ih]

end

theorem Tree.ind {P : Tree → Prop} (scalar : ∀ s, P (.scalar s)) (seq : ∀ ys, (∀ y ∈ ys, P y) → P (.seq ys))
    (map : ∀ kvs, (∀ x ∈ kvs, P x.2) → P (.map kvs)) (y : Tree) : P y := by
  refine @Tree.rec P (fun ys => ∀ y ∈ ys, P y) (fun kvs => ∀ x ∈ kvs, P x.2) (fun x => P x.2)
    scalar seq map ?_ ?_ ?_ ?_ ?_ y
  · simp
  · intro y ys hy hys z hz
    rcases mem_cons.mp hz with rfl | hz
    · exact hy
    · exact hys z hz
  · simp
  · intro x kvs hx hkvs z hz
    rcases mem_cons.mp hz with rfl | hz
    · exact hx
    · exact hkvs z hz
  · exact fun _ _ h => h

def mapLeaf (f : Scalar → Scalar) (y : Tree) : Tree := rebuild f id y

/-- `mapLeaf` on the entries of a mapping. -/
def mapLeafEntries (f : Scalar → Scalar) (kvs : List (String × Tree)) : List (String × Tree) :=
  kvs.map fun x => (x.1, mapLeaf f x.2)

variable (f : Scalar → Scalar)

@[simp] theorem mapLeaf_scalar (s : Scalar) : mapLeaf f (.scalar s) = .scalar (f s) := by
  simp [mapLeaf, rebuild]

@[simp] theorem mapLeaf_seq (ys : List Tree) : mapLeaf f (.seq ys) = .seq (ys.map (mapLeaf f)) := by
  simp [mapLeaf, rebuild, rebuildList_eq]

@[simp] theorem mapLeaf_map (kvs : List (String × Tree)) : mapLeaf f (.map kvs) = .map (mapLeafEntries f kvs) := by
  simp [mapLeaf, rebuild, rebuildEntries_eq, mapLeafEntries]

mutual

def leaves : Tree → List Scalar
  | .scalar s => [s]
  | .seq ys => leavesList ys
  | .map kvs => leavesEntries kvs

def leavesList : List Tree → List Scalar
  | [] => []
  | y :: ys => leaves y ++ leavesList ys

def leavesEntries : List (String × Tree) → List Scalar
  | [] => []
  | (_, y) :: kvs => leaves y ++ leavesEntries kvs

end

theorem mem_leavesList {s : Scalar} {ys : List Tree} : s ∈ leavesList ys ↔ ∃ y ∈ ys, s ∈ leaves y := by
  induction ys with
  | nil => simp [leavesList]
  | cons y ys ih => simp [leavesList, ih]

variable {kvs : List (String × Tree)}

theorem mem_leavesEntries {s : Scalar} :
    s ∈ leavesEntries kvs ↔ ∃ x ∈ kvs, s ∈ leaves x.2 := by
  induction kvs with
  | nil => simp [leavesEntries]
  | cons x kvs ih => simp [leavesEntries, ih]

/-- **Two replacements agree on a tree if and only if they agree on every scalar of it.** -/
theorem mapLeaf_eq_iff {f g : Scalar → Scalar} (y : Tree) : mapLeaf f y = mapLeaf g y ↔ ∀ s ∈ leaves y, f s = g s := by
  induction y using Tree.ind with
  | scalar s => simp [leaves]
  | seq ys ih =>
    rw [mapLeaf_seq, mapLeaf_seq, Tree.seq.injEq, map_inj_left]
    constructor
    · intro h s hs
      obtain ⟨y, hy, hs⟩ := mem_leavesList.mp hs
      exact (ih y hy).mp (h y hy) s hs
    · intro h y hy
      exact (ih y hy).mpr fun s hs => h s (mem_leavesList.mpr ⟨y, hy, hs⟩)
  | map kvs ih =>
    rw [mapLeaf_map, mapLeaf_map, Tree.map.injEq, mapLeafEntries, mapLeafEntries, map_inj_left, leaves]
    constructor
    · intro h s hs
      obtain ⟨x, hx, hs⟩ := mem_leavesEntries.mp hs
      exact (ih x hx).mp (congrArg Prod.snd (h x hx)) s hs
    · intro h x hx
      rw [(ih x hx).mpr fun s hs => h s (mem_leavesEntries.mpr ⟨x, hx, hs⟩)]

variable {α : Type}

theorem map_eq_self {g : α → α} {l : List α} (h : ∀ x ∈ l, g x = x) : l.map g = l := by
  rw [map_congr_left h, map_id']

@[simp] theorem mapLeaf_id (y : Tree) : mapLeaf id y = y := by
  induction y using Tree.ind with
  | scalar s => simp
  | seq ys ih => rw [mapLeaf_seq, map_eq_self ih]
  | map kvs ih =>
    rw [mapLeaf_map, mapLeafEntries, map_eq_self]
    intro x hx
    rw [ih x hx]

theorem mapLeaf_eq_self_iff {f : Scalar → Scalar} (y : Tree) : mapLeaf f y = y ↔ ∀ s ∈ leaves y, f s = s := by
  have h := @mapLeaf_eq_iff f id y
  rw [mapLeaf_id] at h
  exact h

/-! ### Key order -/

def sortKeys {α : Type} (kvs : List (String × α)) : List (String × α) :=
  kvs.insertionSort fun x y => x.1 ≤ y.1

theorem pairwise_sortKeys (kvs : List (String × α)) : (sortKeys kvs).Pairwise fun x y => x.1 ≤ y.1 := by
  exact pairwise_insertionSort _ _

theorem sortKeys_of_pairwise {kvs : List (String × α)}
    (h : kvs.Pairwise fun x y => x.1 ≤ y.1) : sortKeys kvs = kvs :=
  h.insertionSort_eq

theorem sortKeys_map {β : Type} (g : α → β) (kvs : List (String × α)) :
    sortKeys (kvs.map fun x => (x.1, g x.2)) = (sortKeys kvs).map fun x => (x.1, g x.2) :=
  (map_insertionSort (fun x y : String × α => x.1 ≤ y.1) (fun x y : String × β => x.1 ≤ y.1)
    (fun x : String × α => (x.1, g x.2)) kvs (by simp)).symm

def canon (y : Tree) : Tree := rebuild id sortKeys y

@[simp] theorem canon_scalar (s : Scalar) : canon (.scalar s) = .scalar s := by
  simp [canon, rebuild]

@[simp] theorem canon_seq (ys : List Tree) : canon (.seq ys) = .seq (ys.map canon) := by
  simp [canon, rebuild, rebuildList_eq]

@[simp] theorem canon_map (kvs : List (String × Tree)) :
    canon (.map kvs) = .map (sortKeys (kvs.map fun x => (x.1, canon x.2))) := by
  simp [canon, rebuild, rebuildEntries_eq]

theorem canon_map_sortKeys (h : ∀ x ∈ kvs, canon x.2 = x.2) :
    canon (.map (sortKeys kvs)) = .map (sortKeys kvs) := by
  have hmap : (kvs.map fun x => (x.1, canon x.2)) = kvs := map_eq_self fun x hx => by rw [h x hx]
  rw [canon_map, ← sortKeys_map, hmap, sortKeys_of_pairwise (pairwise_sortKeys _)]

@[simp] theorem canon_canon (y : Tree) : canon (canon y) = canon y := by
  induction y using Tree.ind with
  | scalar s => simp
  | seq ys ih =>
    rw [canon_seq, canon_seq, map_map]
    exact congrArg Tree.seq (map_congr_left ih)
  | map kvs ih =>
    rw [canon_map]
    refine canon_map_sortKeys fun x hx => ?_
    obtain ⟨z, hz, rfl⟩ := mem_map.mp hx
    exact ih z hz

/-- **The order of the mappings does not depend on the scalars.** -/
theorem canon_mapLeaf (y : Tree) : canon (mapLeaf f y) = mapLeaf f (canon y) := by
  induction y using Tree.ind with
  | scalar s => simp
  | seq ys ih =>
    simp only [mapLeaf_seq, canon_seq, map_map]
    exact congrArg Tree.seq (map_congr_left ih)
  | map kvs ih =>
    simp only [mapLeaf_map, canon_map, mapLeafEntries, ← sortKeys_map, map_map]
    refine congrArg (fun l => Tree.map (sortKeys l)) (map_congr_left fun x hx => ?_)
    exact congrArg (Prod.mk x.1) (ih x hx)

/-! ### Go maps -/

/-- A Go value of type `map[string]any`: the entries in key order, and so at every level below. -/
def GoMap : Type := { kvs : List (String × Tree) // canon (.map kvs) = .map kvs }

namespace GoMap

instance : DecidableEq GoMap :=
  inferInstanceAs (DecidableEq { kvs : List (String × Tree) // canon (.map kvs) = .map kvs })

instance : Repr GoMap := ⟨fun m n => reprPrec m.1 n⟩

instance : EmptyCollection GoMap := ⟨[], by simp [sortKeys]⟩

/-- `m[key]`. -/
def lookup (m : GoMap) (key : String) : Option Tree := m.1.lookup key

def ofEntries (kvs : List (String × Tree)) : GoMap :=
  ⟨sortKeys (kvs.map fun x => (x.1, canon x.2)), by
    refine canon_map_sortKeys fun x hx => ?_
    obtain ⟨z, -, rfl⟩ := mem_map.mp hx
    exact canon_canon z.2⟩

/-- `m[key] = value`. -/
def set (m : GoMap) (key : String) (value : Tree) : GoMap :=
  ofEntries ((key, value) :: m.1.filter fun x => x.1 ≠ key)

variable (m : GoMap)

theorem ofEntries_self : ofEntries m.1 = m := by
  have h := m.2
  rw [canon_map, Tree.map.injEq] at h
  exact Subtype.ext h

theorem lookup_isSome_iff (key : String) : (m.lookup key).isSome = true ↔ key ∈ m.1.map Prod.fst := by
  simp [lookup]

theorem lookup_set_isSome (key k : String) (value : Tree) :
    ((m.set key value).lookup k).isSome = true ↔ k = key ∨ (m.lookup k).isSome = true := by
  have hperm := perm_insertionSort (fun x y : String × Tree => x.1 ≤ y.1)
    (((key, value) :: m.1.filter fun x => x.1 ≠ key).map fun x => (x.1, canon x.2))
  rw [lookup_isSome_iff, lookup_isSome_iff]
  have hkeys : k ∈ (m.set key value).1.map Prod.fst ↔
      k ∈ ((key, value) :: m.1.filter fun x => x.1 ≠ key).map Prod.fst := by
    have hmem := (hperm.map Prod.fst).mem_iff (a := k)
    rwa [map_map] at hmem
  rw [hkeys, map_cons, mem_cons]
  refine or_congr_right' fun hne => ?_
  simp only [mem_map, mem_filter, decide_eq_true_eq]
  constructor
  · rintro ⟨x, ⟨hx, -⟩, rfl⟩
    exact ⟨x, hx, rfl⟩
  · rintro ⟨x, hx, rfl⟩
    exact ⟨x, ⟨hx, hne⟩, rfl⟩

def restamp (n : ℕ) (m : GoMap) : GoMap :=
  ⟨mapLeafEntries (Scalar.restamp n) m.1, by rw [← mapLeaf_map, canon_mapLeaf, m.2]⟩

theorem eq_iff_map {m m' : GoMap} : m = m' ↔ Tree.map m.1 = Tree.map m'.1 := by
  rw [Tree.map.injEq]
  exact ⟨fun h => congrArg Subtype.val h, fun h => Subtype.ext h⟩

theorem map_restamp (n : ℕ) (m : GoMap) : Tree.map (m.restamp n).1 = mapLeaf (Scalar.restamp n) (.map m.1) := by
  rw [mapLeaf_map]
  rfl

@[simp] theorem lookup_restamp_isSome (n : ℕ) (m : GoMap) (key : String) :
    ((m.restamp n).lookup key).isSome = (m.lookup key).isSome := by
  rw [Bool.eq_iff_iff, lookup_isSome_iff, lookup_isSome_iff]
  simp only [restamp, mapLeafEntries, map_map]
  rfl

def NoNaN (m : GoMap) : Prop := ∀ s ∈ leaves (.map m.1), s.isNaN = false

theorem restamp_eq_iff {a b : ℕ} (h : a ≠ b) (m : GoMap) : m.restamp a = m.restamp b ↔ m.NoNaN := by
  rw [eq_iff_map, map_restamp, map_restamp, mapLeaf_eq_iff]
  exact forall₂_congr fun s _ => Scalar.restamp_eq_iff h s

end GoMap

end CoreC.Lib.Yaml
