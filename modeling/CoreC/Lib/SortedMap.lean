import Mathlib.Data.List.Induction
import Mathlib.Data.List.Sort

/-! # Maps in key order

A map as the list of its entries in increasing key order, which is how `encoding/json` writes a Go map;
two maps are equal as maps if they are equal as lists. `ofList` fills a map from a list of entries, a
later entry replacing an earlier one with the same key (`mem_ofList`).

* `eq_of_mem_iff`: maps with the same entries are equal. -/

namespace CoreC.Lib.SortedMap

open List

variable {κ α β : Type} [LinearOrder κ] {kvs m : List (κ × α)} {v : α} {k : κ}

def insert (k : κ) (v : α) : List (κ × α) → List (κ × α)
  | [] => [(k, v)]
  | x :: m =>
    if k < x.1 then (k, v) :: x :: m
    else if k = x.1 then (k, v) :: m
    else x :: insert k v m

def ofList (kvs : List (κ × α)) : List (κ × α) := kvs.foldl (fun m x => insert x.1 x.2 m) []

def last (k : κ) (kvs : List (κ × α)) : Option α :=
  kvs.foldl (fun o x => if x.1 = k then some x.2 else o) none

def Sorted (m : List (κ × α)) : Prop := m.Pairwise fun x y => x.1 < y.1

/-! ### Putting an entry -/

theorem mem_insert {x : κ × α} : ∀ {m : List (κ × α)}, Sorted m → (x ∈ insert k v m ↔ x = (k, v) ∨ x ∈ m ∧ x.1 ≠ k)
  | [], _ => by simp [insert]
  | y :: m, h => by
    obtain ⟨hy, hm⟩ := pairwise_cons.mp h
    unfold insert
    split_ifs with h1 h2
    · have hne : ∀ z ∈ y :: m, z.1 ≠ k := by
        intro z hz
        rcases mem_cons.mp hz with rfl | hz
        · exact h1.ne'
        · exact (h1.trans (hy z hz)).ne'
      constructor
      · intro hx
        rcases mem_cons.mp hx with rfl | hx
        · exact .inl rfl
        · exact .inr ⟨hx, hne x hx⟩
      · rintro (rfl | ⟨hx, -⟩)
        · exact mem_cons_self
        · exact mem_cons_of_mem _ hx
    · subst h2
      constructor
      · intro hx
        rcases mem_cons.mp hx with rfl | hx
        · exact .inl rfl
        · exact .inr ⟨mem_cons_of_mem _ hx, (hy x hx).ne'⟩
      · rintro (rfl | ⟨hx, hne⟩)
        · exact mem_cons_self
        · rcases mem_cons.mp hx with rfl | hx
          · exact absurd rfl hne
          · exact mem_cons_of_mem _ hx
    · rw [mem_cons, mem_insert hm, mem_cons]
      constructor
      · rintro (rfl | rfl | ⟨hx, hne⟩)
        · exact .inr ⟨.inl rfl, fun h => h2 h.symm⟩
        · exact .inl rfl
        · exact .inr ⟨.inr hx, hne⟩
      · rintro (rfl | ⟨rfl | hx, hne⟩)
        · exact .inr (.inl rfl)
        · exact .inl rfl
        · exact .inr (.inr ⟨hx, hne⟩)

theorem sorted_insert : ∀ {m : List (κ × α)}, Sorted m → Sorted (insert k v m)
  | [], _ => pairwise_singleton _ _
  | y :: m, h => by
    obtain ⟨hy, hm⟩ := pairwise_cons.mp h
    unfold insert
    split_ifs with h1 h2
    · refine pairwise_cons.mpr ⟨fun z hz => ?_, h⟩
      rcases mem_cons.mp hz with rfl | hz
      · exact h1
      · exact h1.trans (hy z hz)
    · subst h2
      exact pairwise_cons.mpr ⟨hy, hm⟩
    · refine pairwise_cons.mpr ⟨fun z hz => ?_, sorted_insert hm⟩
      rcases (mem_insert hm).mp hz with rfl | ⟨hz, -⟩
      · exact lt_of_le_of_ne (not_lt.mp h1) fun h => h2 h.symm
      · exact hy z hz

/-! ### Filling a map -/

theorem ofList_concat (kvs : List (κ × α)) (x : κ × α) : ofList (kvs ++ [x]) = insert x.1 x.2 (ofList kvs) := by
  simp [ofList]

theorem last_concat (k : κ) (kvs : List (κ × α)) (x : κ × α) :
    last k (kvs ++ [x]) = if x.1 = k then some x.2 else last k kvs := by
  simp [last]

theorem sorted_ofList (kvs : List (κ × α)) : Sorted (ofList kvs) := by
  induction kvs using List.reverseRecOn with
  | nil => exact Pairwise.nil
  | append_singleton kvs x ih =>
    rw [ofList_concat]
    exact sorted_insert ih

/-- **The entries of a map are the last ones of their keys.** -/
theorem mem_ofList (kvs : List (κ × α)) : (k, v) ∈ ofList kvs ↔ last k kvs = some v := by
  induction kvs using List.reverseRecOn with
  | nil => simp [ofList, last]
  | append_singleton kvs x ih =>
    rw [ofList_concat, last_concat, mem_insert (sorted_ofList kvs), ih]
    split_ifs with hx
    · subst hx
      simp [Prod.ext_iff, eq_comm]
    · have hne : k ≠ x.1 := fun h => hx h.symm
      simp [Prod.ext_iff, hne]

theorem Sorted.nodup (h : Sorted m) : m.Nodup :=
  h.imp fun hlt heq => absurd (heq ▸ hlt) (lt_irrefl _)

theorem eq_of_mem_iff {m' : List (κ × α)} (h : Sorted m) (h' : Sorted m') (hmem : ∀ x, x ∈ m ↔ x ∈ m') : m = m' := by
  have hperm : m.Perm m' := (perm_ext_iff_of_nodup h.nodup h'.nodup).mpr hmem
  exact hperm.eq_of_pairwise (fun x y _ _ hxy hyx => absurd hyx (lt_asymm hxy)) h h'

/-- **Lists with the same last entries fill the same map.** -/
theorem ofList_eq_iff {kvs' : List (κ × α)} : ofList kvs = ofList kvs' ↔ ∀ k, last k kvs = last k kvs' := by
  constructor
  · intro h k
    ext v
    rw [← mem_ofList, h, mem_ofList]
  · intro h
    refine eq_of_mem_iff (sorted_ofList _) (sorted_ofList _) fun x => ?_
    rw [mem_ofList, h, mem_ofList]

theorem last_eq_none_iff (kvs : List (κ × α)) : last k kvs = none ↔ ∀ x ∈ kvs, x.1 ≠ k := by
  induction kvs using List.reverseRecOn with
  | nil => simp [last]
  | append_singleton kvs x ih =>
    rw [last_concat, forall_mem_append, forall_mem_singleton]
    split_ifs with hx
    · simp [hx]
    · rw [ih, and_iff_left hx]

theorem last_append (k : κ) (a b : List (κ × α)) : last k (a ++ b) = (last k b).or (last k a) := by
  induction b using List.reverseRecOn with
  | nil => simp [last]
  | append_singleton b x ih =>
    rw [← append_assoc, last_concat, last_concat]
    split_ifs
    · rfl
    · exact ih

theorem mem_of_last (kvs : List (κ × α)) (h : last k kvs = some v) : (k, v) ∈ kvs := by
  induction kvs using List.reverseRecOn with
  | nil => cases h
  | append_singleton kvs x ih =>
    rw [last_concat] at h
    split_ifs at h with hx
    · cases h
      subst hx
      simp
    · exact mem_append_left _ (ih h)

theorem last_eq_some_iff (h : (kvs.map Prod.fst).Nodup) : last k kvs = some v ↔ (k, v) ∈ kvs := by
  refine ⟨mem_of_last kvs, fun hmem => ?_⟩
  cases hl : last k kvs with
  | none => exact absurd rfl ((last_eq_none_iff kvs).mp hl _ hmem)
  | some w =>
    have := inj_on_of_nodup_map h hmem (mem_of_last kvs hl) rfl
    simp_all

theorem Sorted.nodup_keys (h : Sorted m) : (m.map Prod.fst).Nodup :=
  pairwise_map.mpr (h.imp fun hlt => hlt.ne)

theorem ofList_sorted (h : Sorted m) : ofList m = m := by
  refine eq_of_mem_iff (sorted_ofList m) h fun x => ?_
  rw [mem_ofList, last_eq_some_iff h.nodup_keys]

theorem ofList_cons_of_mem (h : ∃ x ∈ kvs, x.1 = k) : ofList ((k, v) :: kvs) = ofList kvs := by
  refine ofList_eq_iff.mpr fun k' => ?_
  rw [← singleton_append, last_append]
  by_cases hk : k = k'
  · subst hk
    obtain ⟨x, hx, hxk⟩ := h
    cases hl : last k kvs with
    | none => exact absurd hxk ((last_eq_none_iff kvs).mp hl x hx)
    | some w => rfl
  · have hnone : last k' [(k, v)] = none := (last_eq_none_iff _).mpr (by simpa using hk)
    rw [hnone, Option.or_none]

theorem insert_map (f : α → β) (k : κ) (v : α) : ∀ m : List (κ × α),
    insert k (f v) (m.map fun x => (x.1, f x.2)) = (insert k v m).map fun x => (x.1, f x.2)
  | [] => rfl
  | y :: m => by
    simp only [map_cons, insert]
    split_ifs
    · rfl
    · rfl
    · rw [insert_map f k v m, map_cons]

theorem ofList_map (f : α → β) (kvs : List (κ × α)) :
    ofList (kvs.map fun x => (x.1, f x.2)) = (ofList kvs).map fun x => (x.1, f x.2) := by
  induction kvs using List.reverseRecOn with
  | nil => rfl
  | append_singleton kvs x ih =>
    rw [map_append, map_singleton, ofList_concat, ih, ofList_concat]
    exact insert_map f x.1 x.2 (ofList kvs)

theorem sorted_filter (h : Sorted m) (p : κ × α → Bool) : Sorted (m.filter p) :=
  Pairwise.filter p h

theorem sorted_map (h : Sorted m) (f : α → β) : Sorted (m.map fun x => (x.1, f x.2)) :=
  pairwise_map.mpr h

end CoreC.Lib.SortedMap
