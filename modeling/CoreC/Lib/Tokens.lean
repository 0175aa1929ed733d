import Mathlib.Data.List.Nodup
import Mathlib.Data.List.Range
import Mathlib.Data.List.Perm.Subperm

/-! # Tokens that are in one place

Numbered tokens move between a stock and the hands of threads. `Placed n stock hands`: each of the tokens `0, .., n - 1`
is in one place, once, and there are no others. Making a token (`Placed.mint`), putting one into the stock
(`Placed.put`) and taking one out of it (`Placed.take`) keep that; when all hands are empty the stock has every token
(`Placed.length_eq`). -/

namespace CoreC.Lib.Tokens

open Function List

/-- Every token below `n` is in the stock or in the hands of one thread, once. -/
structure Placed (n : ℕ) (stock : List ℕ) (hands : ℕ → List ℕ) : Prop where
  stock_nodup : stock.Nodup
  hands_nodup : ∀ i, (hands i).Nodup
  apart : ∀ i, ∀ x ∈ hands i, x ∉ stock
  unique : ∀ i j x, x ∈ hands i → x ∈ hands j → i = j
  all : ∀ x, x < n ↔ x ∈ stock ∨ ∃ i, x ∈ hands i

variable {n : ℕ} {stock stock' : List ℕ} {hands : ℕ → List ℕ}

theorem placed_nil : Placed 0 [] fun _ => [] :=
  ⟨nodup_nil, fun _ => nodup_nil, fun _ _ h => absurd h not_mem_nil,
    fun _ _ _ h => absurd h not_mem_nil, fun x => by simp⟩

theorem Placed.perm (h : Placed n stock hands) (hperm : stock.Perm stock') : Placed n stock' hands :=
  ⟨hperm.nodup_iff.mp h.stock_nodup, h.hands_nodup, fun i x hx hmem => h.apart i x hx (hperm.mem_iff.mpr hmem),
    h.unique, fun x => by rw [h.all x, hperm.mem_iff]⟩

theorem mem_update {i j x : ℕ} {new : List ℕ} :
    x ∈ update hands i new j ↔ (j = i ∧ x ∈ new) ∨ (j ≠ i ∧ x ∈ hands j) := by
  by_cases hj : j = i
  · subst hj; simp
  · simp [hj]

theorem mem_give {i j x y : ℕ} : y ∈ update hands i (x :: hands i) j ↔ (j = i ∧ y = x) ∨ y ∈ hands j := by
  by_cases hj : j = i
  · subst hj; simp
  · simp [hj]

theorem give {i x : ℕ} (hnodup : ∀ i, (hands i).Nodup) (hunique : ∀ i j x, x ∈ hands i → x ∈ hands j → i = j)
    (hfresh : ∀ j, x ∉ hands j) :
    (∀ j, (update hands i (x :: hands i) j).Nodup) ∧
      ∀ j k y, y ∈ update hands i (x :: hands i) j → y ∈ update hands i (x :: hands i) k → j = k := by
  refine ⟨fun j => ?_, fun j k y hj hk => ?_⟩
  · by_cases hj : j = i
    · subst hj
      rw [update_self]
      exact nodup_cons.mpr ⟨hfresh j, hnodup j⟩
    · rw [update_of_ne hj]
      exact hnodup j
  · rw [mem_give] at hj hk
    rcases hj with ⟨hji, rfl⟩ | hj
    · rcases hk with ⟨hki, -⟩ | hk
      · rw [hji, hki]
      · exact absurd hk (hfresh k)
    · rcases hk with ⟨-, rfl⟩ | hk
      · exact absurd hj (hfresh j)
      · exact hunique j k y hj hk

theorem Placed.mint (h : Placed n stock hands) (i : ℕ) : Placed (n + 1) stock (update hands i (n :: hands i)) := by
  have hfresh : ∀ j, n ∉ hands j := fun j hj => absurd ((h.all n).mpr (.inr ⟨j, hj⟩)) (Nat.lt_irrefl n)
  have hstock : n ∉ stock := fun hmem => absurd ((h.all n).mpr (.inl hmem)) (Nat.lt_irrefl n)
  obtain ⟨hnodup, hunique⟩ := give (i := i) h.hands_nodup h.unique hfresh
  refine ⟨h.stock_nodup, hnodup, fun j x hx => ?_, hunique, fun x => ?_⟩
  · rcases mem_give.mp hx with ⟨-, rfl⟩ | hx
    · exact hstock
    · exact h.apart j x hx
  · have hall := h.all x
    constructor
    · intro hx
      by_cases hxn : x = n
      · exact .inr ⟨i, mem_give.mpr (.inl ⟨rfl, hxn⟩)⟩
      · rcases hall.mp (by omega) with hx | ⟨j, hx⟩
        · exact .inl hx
        · exact .inr ⟨j, mem_give.mpr (.inr hx)⟩
    · rintro (hx | ⟨j, hx⟩)
      · have := hall.mpr (.inl hx)
        omega
      · rcases mem_give.mp hx with ⟨-, hxn⟩ | hx
        · omega
        · have := hall.mpr (.inr ⟨j, hx⟩)
          omega

theorem Placed.put (h : Placed n stock hands) {i x : ℕ} {rest : List ℕ} (hi : (hands i).Perm (x :: rest)) :
    Placed n (x :: stock) (update hands i rest) := by
  have hx : x ∈ hands i := hi.mem_iff.mpr mem_cons_self
  obtain ⟨hnot, hrest⟩ := nodup_cons.mp (hi.nodup_iff.mp (h.hands_nodup i))
  have hsub : ∀ j y, y ∈ update hands i rest j → y ∈ hands j ∧ y ≠ x := by
    intro j y hy
    rcases mem_update.mp hy with ⟨rfl, hrest⟩ | ⟨hj, hy⟩
    · exact ⟨hi.mem_iff.mpr (mem_cons_of_mem _ hrest), fun hyx => hnot (hyx ▸ hrest)⟩
    · exact ⟨hy, fun hyx => hj (h.unique j i y hy (hyx ▸ hx))⟩
  refine ⟨nodup_cons.mpr ⟨h.apart i x hx, h.stock_nodup⟩, fun j => ?_, fun j y hy hmem => ?_,
    fun j k y hj hk => h.unique j k y (hsub j y hj).1 (hsub k y hk).1, fun y => ?_⟩
  · by_cases hj : j = i
    · subst hj
      rw [update_self]
      exact hrest
    · rw [update_of_ne hj]
      exact h.hands_nodup j
  · obtain ⟨hy, hne⟩ := hsub j y hy
    rcases mem_cons.mp hmem with rfl | hmem
    · exact hne rfl
    · exact h.apart j y hy hmem
  · rw [h.all y]
    constructor
    · rintro (hy | ⟨j, hy⟩)
      · exact .inl (mem_cons_of_mem _ hy)
      · by_cases hj : j = i
        · subst hj
          rcases mem_cons.mp (hi.mem_iff.mp hy) with rfl | hy
          · exact .inl mem_cons_self
          · exact .inr ⟨j, mem_update.mpr (.inl ⟨rfl, hy⟩)⟩
        · exact .inr ⟨j, mem_update.mpr (.inr ⟨hj, hy⟩)⟩
    · rintro (hy | ⟨j, hy⟩)
      · rcases mem_cons.mp hy with rfl | hy
        · exact .inr ⟨i, hx⟩
        · exact .inl hy
      · exact .inr ⟨j, (hsub j y hy).1⟩

theorem Placed.take {x : ℕ} (h : Placed n (x :: stock) hands) (i : ℕ) :
    Placed n stock (update hands i (x :: hands i)) := by
  obtain ⟨hnot, hstock⟩ := nodup_cons.mp h.stock_nodup
  have hfree : ∀ j, x ∉ hands j := fun j hj => h.apart j x hj mem_cons_self
  obtain ⟨hnodup, hunique⟩ := give (i := i) h.hands_nodup h.unique hfree
  refine ⟨hstock, hnodup, fun j y hy => ?_, hunique, fun y => ?_⟩
  · rcases mem_give.mp hy with ⟨-, rfl⟩ | hy
    · exact hnot
    · exact fun hmem => h.apart j y hy (mem_cons_of_mem _ hmem)
  · rw [h.all y]
    constructor
    · rintro (hy | ⟨j, hy⟩)
      · rcases mem_cons.mp hy with hyx | hy
        · exact .inr ⟨i, mem_give.mpr (.inl ⟨rfl, hyx⟩)⟩
        · exact .inl hy
      · exact .inr ⟨j, mem_give.mpr (.inr hy)⟩
    · rintro (hy | ⟨j, hy⟩)
      · exact .inl (mem_cons_of_mem _ hy)
      · rcases mem_give.mp hy with ⟨-, hyx⟩ | hy
        · exact .inl (mem_cons.mpr (.inl hyx))
        · exact .inr ⟨j, hy⟩

theorem Placed.length_eq (h : Placed n stock hands) (hempty : ∀ i, hands i = []) : stock.length = n := by
  have hperm : stock.Perm (List.range n) := by
    refine (perm_ext_iff_of_nodup h.stock_nodup nodup_range).mpr fun x => ?_
    rw [mem_range, h.all x]
    refine ⟨.inl, fun hx => ?_⟩
    rcases hx with hx | ⟨i, hx⟩
    · exact hx
    · exact absurd (hempty i ▸ hx) not_mem_nil
  rw [hperm.length_eq, length_range]

end CoreC.Lib.Tokens
