import Mathlib.Data.List.Basic

/-! # Writing to positions of a list

Entries that are written one after another to positions of a list: what is there afterwards (`scatter_of_mem`,
`scatter_of_notMem`). -/

namespace CoreC.Lib.Scatter

open List

variable {α : Type} {ws : List (ℕ × α)} {xs : List α}

def scatter (xs : List α) (writes : List (ℕ × α)) : List α := writes.foldl (fun l w => l.set w.1 w.2) xs

@[simp] theorem scatter_nil (xs : List α) : scatter xs [] = xs := rfl

theorem scatter_cons (xs : List α) (w : ℕ × α) (ws : List (ℕ × α)) :
    scatter xs (w :: ws) = scatter (xs.set w.1 w.2) ws := rfl

theorem scatter_append (xs : List α) (ws ws' : List (ℕ × α)) :
    scatter xs (ws ++ ws') = scatter (scatter xs ws) ws' := foldl_append

@[simp] theorem length_scatter (xs : List α) (ws : List (ℕ × α)) : (scatter xs ws).length = xs.length := by
  induction ws generalizing xs with
  | nil => rfl
  | cons w ws ih => rw [scatter_cons, ih, length_set]

theorem mem_or_mem_of_mem_scatter {a : α} (h : a ∈ scatter xs ws) : a ∈ xs ∨ a ∈ ws.map Prod.snd := by
  induction ws generalizing xs with
  | nil => exact .inl h
  | cons w ws ih =>
    rcases ih h with hset | hlater
    · rcases mem_or_eq_of_mem_set hset with hold | rfl
      · exact .inl hold
      · exact .inr (mem_cons_self ..)
    · exact .inr (mem_cons_of_mem _ hlater)

theorem scatter_of_notMem {i : ℕ} (h : i ∉ ws.map Prod.fst) : (scatter xs ws)[i]? = xs[i]? := by
  induction ws generalizing xs with
  | nil => rfl
  | cons w ws ih =>
    rw [map_cons, mem_cons, not_or] at h
    rw [scatter_cons, ih h.2, List.getElem?_set_ne (Ne.symm h.1)]

theorem scatter_of_mem {i : ℕ} {a : α} (hi : i < xs.length) (hmem : (i, a) ∈ ws)
    (honly : ∀ b, (i, b) ∈ ws → b = a) : (scatter xs ws)[i]? = some a := by
  induction ws generalizing xs with
  | nil => cases hmem
  | cons w ws ih =>
    have hi' : i < (xs.set w.1 w.2).length := by rwa [length_set]
    have honly' : ∀ b, (i, b) ∈ ws → b = a := fun b hb => honly b (mem_cons_of_mem _ hb)
    rw [scatter_cons]
    by_cases hlater : (i, a) ∈ ws
    · exact ih hi' hlater honly'
    · -- the last write to the position is this one
      obtain rfl : (i, a) = w := (mem_cons.mp hmem).resolve_right hlater
      have hnot : i ∉ ws.map Prod.fst := by
        intro h
        obtain ⟨⟨j, b⟩, hb, rfl⟩ := mem_map.mp h
        exact hlater (honly' b hb ▸ hb)
      rw [scatter_of_notMem hnot]
      exact List.getElem?_set_self hi

end CoreC.Lib.Scatter
