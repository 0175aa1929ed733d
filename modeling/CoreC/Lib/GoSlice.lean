import Mathlib.Data.List.Basic

/-! # Go slices over shared backing arrays

A slice is a window on a backing array: where it starts, how long it is, and how far it may grow in
place. Copying a slice header shares the array, so an `append` that fits in the capacity of one slice
writes through every other slice of the same array. `read_append_reslice` says what the original slice
shows after `append(s[:k], xs...)`.

The spare capacity a growing `append` reserves is not modelled. -/

namespace CoreC.Lib.GoSlice

open List

variable {α : Type}

abbrev Heap (α : Type) := List (List α)

structure Slice where
  arr : ℕ
  off : ℕ
  len : ℕ
  cap : ℕ
  deriving DecidableEq, Repr

def cells (h : Heap α) (a : ℕ) : List α := h.getD a []

def read (h : Heap α) (s : Slice) : List α := ((cells h s.arr).drop s.off).take s.len

/-- `s[lo:hi]`. -/
def Slice.reslice (s : Slice) (lo hi : ℕ) : Slice := ⟨s.arr, s.off + lo, hi - lo, s.cap - lo⟩

def alloc (h : Heap α) (xs : List α) : Heap α × Slice :=
  (h ++ [xs], ⟨h.length, 0, xs.length, xs.length⟩)

/-- Write `xs` into `l` from position `i` on. -/
def overwrite (l : List α) (i : ℕ) (xs : List α) : List α :=
  l.take i ++ xs ++ l.drop (i + xs.length)

/-- `append(s, xs...)`: in place if the capacity suffices. -/
def append (h : Heap α) (s : Slice) (xs : List α) : Heap α × Slice :=
  if s.len + xs.length ≤ s.cap then
    (h.set s.arr (overwrite (cells h s.arr) (s.off + s.len) xs), { s with len := s.len + xs.length })
  else alloc h (read h s ++ xs)

structure Slice.Valid (h : Heap α) (s : Slice) : Prop where
  arr_lt : s.arr < h.length
  len_le : s.len ≤ s.cap
  cap_le : s.off + s.cap ≤ (cells h s.arr).length

variable {h : Heap α} {xs : List α} {s : Slice} {k : ℕ}

theorem length_read (hs : s.Valid h) : (read h s).length = s.len := by
  have := hs.len_le
  have := hs.cap_le
  simp only [read, length_take, length_drop]
  omega

theorem read_reslice (h : Heap α) (s : Slice) {lo hi : ℕ} (hhi : hi ≤ s.len) :
    read h (s.reslice lo hi) = ((read h s).take hi).drop lo := by
  simp [read, Slice.reslice, take_take, drop_take, Nat.min_eq_left hhi]

theorem cells_set {a : ℕ} (ha : a < h.length) (l : List α) : cells (h.set a l) a = l := by
  simp [cells, ha]

theorem take_drop_overwrite {l : List α} {o n : ℕ} (hn : k + xs.length ≤ n) (hl : o + n ≤ l.length) :
    ((overwrite l (o + k) xs).drop o).take n =
      ((l.drop o).take n).take k ++ xs ++ ((l.drop o).take n).drop (k + xs.length) := by
  have h1 : (overwrite l (o + k) xs).drop o = (l.drop o).take k ++ xs ++ l.drop (o + k + xs.length) := by
    unfold overwrite
    rw [append_assoc, drop_append_of_le_length (by rw [length_take]; omega),
      drop_take, Nat.add_sub_cancel_left, append_assoc]
  have h2 : ((l.drop o).take k ++ xs).length = k + xs.length := by
    simp only [length_append, length_take, length_drop]
    omega
  rw [h1, take_append, take_of_length_le (by omega), h2, take_take,
    Nat.min_eq_left (by omega : k ≤ n), drop_take, drop_drop, Nat.add_assoc]

/-- **Appending to a prefix of a slice overwrites what follows the prefix in the slice itself.** -/
theorem read_append_reslice (hs : s.Valid h) (hk : k + xs.length ≤ s.len) :
    ∃ h', append h (s.reslice 0 k) xs = (h', { s with len := k + xs.length }) ∧
      read h' { s with len := k + xs.length } = (read h s).take k ++ xs ∧
      read h' s = (read h s).take k ++ xs ++ (read h s).drop (k + xs.length) := by
  have hlen := hs.len_le
  have hcap := hs.cap_le
  refine ⟨h.set s.arr (overwrite (cells h s.arr) (s.off + k) xs), ?_, ?_, ?_⟩
  · have hfit : k + xs.length ≤ s.cap := by omega
    simp [append, Slice.reslice, hfit]
  · have h2 : ((cells h s.arr).drop s.off).take (k + xs.length) =
        (((cells h s.arr).drop s.off).take s.len).take (k + xs.length) := by
      rw [take_take, Nat.min_eq_left hk]
    unfold read
    rw [cells_set hs.arr_lt, take_drop_overwrite (Nat.le_refl _) (by dsimp only; omega), h2, take_take,
      Nat.min_eq_left (Nat.le_add_right _ _), drop_take, Nat.sub_self, take_zero,
      append_nil]
  · unfold read
    rw [cells_set hs.arr_lt, take_drop_overwrite hk (by omega)]

theorem read_alloc (h : Heap α) (xs : List α) : read (alloc h xs).1 (alloc h xs).2 = xs := by
  simp [alloc, read, cells]

theorem valid_alloc (h : Heap α) (xs : List α) : (alloc h xs).2.Valid (alloc h xs).1 :=
  ⟨by simp [alloc], Nat.le_refl _, by simp [alloc, cells]⟩

theorem valid_append_reslice (hs : s.Valid h)
    (hk : k + xs.length ≤ s.len) : s.Valid (append h (s.reslice 0 k) xs).1 := by
  have hlen := hs.len_le
  have hcap := hs.cap_le
  have hfit : k + xs.length ≤ s.cap := by omega
  have hset : (append h (s.reslice 0 k) xs).1 = h.set s.arr (overwrite (cells h s.arr) (s.off + k) xs) := by
    simp [append, Slice.reslice, hfit]
  rw [hset]
  refine ⟨by rw [length_set]; exact hs.arr_lt, hlen, ?_⟩
  rw [cells_set hs.arr_lt]
  simp only [overwrite, length_append, length_take, length_drop]
  omega

end CoreC.Lib.GoSlice
