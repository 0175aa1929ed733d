import Mathlib.Data.List.Induction
import Mathlib.Data.List.Sort

/-! # Orders by keys

A list sorted by keys: what comes before an element (`key_le_of_split`, `mem_of_key_lt`), and the value that the last
element with an effect leaves (`lastEffect_eq`, `lastEffect_eq_default`). -/

namespace CoreC.Lib.KeyOrder

open List

variable {ι K β : Type} [LinearOrder K] {key : ι → K}

def byKey (key : ι → K) (l : List ι) : List ι := l.insertionSort fun a b => key a ≤ key b

theorem byKey_perm (key : ι → K) (l : List ι) : (byKey key l).Perm l := perm_insertionSort _ l

theorem byKey_sorted (key : ι → K) (l : List ι) : (byKey key l).Pairwise fun a b => key a ≤ key b := by
  exact pairwise_insertionSort _ l

theorem key_le_of_split {pre post : List ι} {x : ι} (h : (pre ++ x :: post).Pairwise fun a b => key a ≤ key b) :
    (∀ y ∈ pre, key y ≤ key x) ∧ ∀ y ∈ post, key x ≤ key y := by
  obtain ⟨-, htail, hcross⟩ := pairwise_append.mp h
  exact ⟨fun y hy => hcross y hy x mem_cons_self, (pairwise_cons.mp htail).1⟩

theorem mem_of_key_lt {pre post : List ι} {x y : ι} (h : (pre ++ x :: post).Pairwise fun a b => key a ≤ key b)
    (hy : y ∈ pre ++ x :: post) (hlt : key y < key x) : y ∈ pre := by
  rcases mem_append.mp hy with hy | hy
  · exact hy
  · rcases mem_cons.mp hy with rfl | hy
    · exact absurd hlt (lt_irrefl _)
    · exact absurd hlt (not_lt.mpr ((key_le_of_split h).2 y hy))

/-! ### The last effect -/

def lastEffect (f : ι → Option β) (d : β) (l : List ι) : β := l.foldl (fun acc x => (f x).getD acc) d

variable {f : ι → Option β} {d : β}

theorem lastEffect_concat (l : List ι) (x : ι) : lastEffect f d (l ++ [x]) = (f x).getD (lastEffect f d l) := by
  rw [lastEffect, foldl_append]
  rfl

theorem lastEffect_cases (l : List ι) : (∀ x ∈ l, f x = none) ∧ lastEffect f d l = d ∨
    ∃ pre x post, l = pre ++ x :: post ∧ (∀ y ∈ post, f y = none) ∧ f x = some (lastEffect f d l) := by
  induction l using List.reverseRecOn with
  | nil => exact .inl ⟨nofun, rfl⟩
  | append_singleton l x ih =>
    rw [lastEffect_concat]
    cases hx : f x with
    | some v => exact .inr ⟨l, x, [], rfl, nofun, hx⟩
    | none =>
      rcases ih with ⟨hnone, hdefault⟩ | ⟨pre, y, post, hl, hnone, hy⟩
      · refine .inl ⟨fun z hz => ?_, hdefault⟩
        rcases mem_append.mp hz with hz | hz
        · exact hnone z hz
        · exact mem_singleton.mp hz ▸ hx
      · refine .inr ⟨pre, y, post ++ [x], by rw [hl]; simp, fun z hz => ?_, hy⟩
        rcases mem_append.mp hz with hz | hz
        · exact hnone z hz
        · exact mem_singleton.mp hz ▸ hx

theorem not_key_lt_of_split {pre post : List ι} {x y : ι} (hl : (pre ++ y :: post).Pairwise fun a b => key a ≤ key b)
    (hx : x ∈ pre ++ y :: post) (hpost : x ∉ post) : ¬ key y < key x := by
  rcases mem_append.mp hx with h | h
  · exact not_lt.mpr ((key_le_of_split hl).1 x h)
  · rcases mem_cons.mp h with rfl | h
    · exact lt_irrefl _
    · exact absurd h hpost

/-- **The effect with the greatest key is the last one.** -/
theorem lastEffect_eq {l : List ι} (hl : l.Pairwise fun a b => key a ≤ key b) {x : ι} {v : β} (hx : x ∈ l)
    (hv : f x = some v) (hmax : ∀ y ∈ l, f y ≠ none → y = x ∨ key y < key x) : lastEffect f d l = v := by
  rcases lastEffect_cases (f := f) (d := d) l with ⟨hnone, -⟩ | ⟨pre, y, post, rfl, hnone, hy⟩
  · rw [hnone x hx] at hv
    cases hv
  · have hxpost : x ∉ post := fun h => by
      rw [hnone x h] at hv
      cases hv
    rcases hmax y (by simp) (by rw [hy]; nofun) with rfl | hlt
    · rw [hv] at hy
      exact (Option.some.inj hy).symm
    · exact absurd hlt (not_key_lt_of_split hl hx hxpost)

theorem lastEffect_eq_default {l : List ι} (hl : l.Pairwise fun a b => key a ≤ key b)
    (h : ∀ y ∈ l, f y = none ∨ f y = some d ∨ ∃ z ∈ l, f z ≠ none ∧ key y < key z) :
    lastEffect f d l = d := by
  rcases lastEffect_cases (f := f) (d := d) l with ⟨-, hdefault⟩ | ⟨pre, y, post, rfl, hnone, hy⟩
  · exact hdefault
  · rcases h y (by simp) with hnot | hdefault | ⟨z, hz, heffect, hlt⟩
    · rw [hnot] at hy
      cases hy
    · rw [hdefault] at hy
      exact (Option.some.inj hy).symm
    · exact absurd hlt (not_key_lt_of_split hl hz fun h => heffect (hnone z h))

end CoreC.Lib.KeyOrder
