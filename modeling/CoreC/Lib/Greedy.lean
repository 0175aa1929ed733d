import Mathlib.Data.List.Basic

/-! # Greedy grouping

A list is cut into groups from left to right: an entry joins the open group, or it closes the group and starts the next
one. What a group is made of is up to `start` and `join`.

* `exists_mem_groups`: what stays with a group that is open holds of one of the groups. -/

namespace CoreC.Lib.Greedy

open List

variable {α σ : Type} {start : α → σ} {join : σ → α → Option σ}

def groups (start : α → σ) (join : σ → α → Option σ) : σ → List α → List σ
  | cur, [] => [cur]
  | cur, a :: rest =>
    match join cur a with
    | some cur' => groups start join cur' rest
    | none => cur :: groups start join (start a) rest

theorem groups_cons_of_some {cur cur' : σ} {a : α} (h : join cur a = some cur') (rest : List α) :
    groups start join cur (a :: rest) = groups start join cur' rest := by
  rw [groups, h]

theorem groups_cons_of_none {cur : σ} {a : α} (h : join cur a = none) (rest : List α) :
    groups start join cur (a :: rest) = cur :: groups start join (start a) rest := by
  rw [groups, h]

/-- **No entry is lost, and none is in two groups.** -/
theorem flatMap_groups {members : σ → List α} (hstart : ∀ a, members (start a) = [a])
    (hjoin : ∀ {cur a cur'}, join cur a = some cur' → members cur' = members cur ++ [a]) :
    ∀ rest cur, (groups start join cur rest).flatMap members = members cur ++ rest
  | [], cur => by simp [groups]
  | a :: rest, cur => by
    cases h : join cur a with
    | some cur' =>
      rw [groups_cons_of_some h, flatMap_groups hstart hjoin rest cur', hjoin h, append_assoc]
      rfl
    | none =>
      rw [groups_cons_of_none h, flatMap_cons, flatMap_groups hstart hjoin rest (start a), hstart]
      rfl

/-- **The invariant rule.** The invariant is about the open group and all entries so far; it is kept by an entry that
joins, and by one that starts a group. -/
theorem groups_invariant {I : List α → σ → Prop} {R : α → α → Prop} {P : α → Prop}
    (hjoin : ∀ {done cur a cur'}, I done cur → P a → (∀ q ∈ done, R q a) → join cur a = some cur' →
      I (done ++ [a]) cur')
    (hstart : ∀ {done cur a}, I done cur → P a → (∀ q ∈ done, R q a) → join cur a = none → I (done ++ [a]) (start a)) :
    ∀ {rest done : List α} {cur : σ}, I done cur → (∀ a ∈ rest, P a) → (done ++ rest).Pairwise R →
      ∀ s ∈ groups start join cur rest, ∃ done', I done' s
  | [], done, cur, hI, _, _, s, hs => by
    obtain rfl : s = cur := mem_singleton.mp hs
    exact ⟨done, hI⟩
  | a :: rest, done, cur, hI, hP, hR, s, hs => by
    have hPa : P a := hP a (mem_cons_self ..)
    have hRa : ∀ q ∈ done, R q a := fun q hq => (pairwise_append.mp hR).2.2 q hq a (mem_cons_self ..)
    have hP' : ∀ b ∈ rest, P b := fun b hb => hP b (mem_cons_of_mem _ hb)
    have hR' : ((done ++ [a]) ++ rest).Pairwise R := by rwa [append_assoc]
    cases h : join cur a with
    | some cur' =>
      rw [groups_cons_of_some h] at hs
      exact groups_invariant hjoin hstart (hjoin hI hPa hRa h) hP' hR' s hs
    | none =>
      rw [groups_cons_of_none h] at hs
      rcases mem_cons.mp hs with rfl | hs
      · exact ⟨done, hI⟩
      · exact groups_invariant hjoin hstart (hstart hI hPa hRa h) hP' hR' s hs

theorem exists_mem_groups {B : σ → Prop} (hjoin : ∀ {cur a cur'}, B cur → join cur a = some cur' → B cur') :
    ∀ rest {cur : σ}, B cur → ∃ s ∈ groups start join cur rest, B s
  | [], cur, hB => ⟨cur, mem_singleton.mpr rfl, hB⟩
  | a :: rest, cur, hB => by
    cases h : join cur a with
    | some cur' =>
      rw [groups_cons_of_some h]
      exact exists_mem_groups hjoin rest (hjoin hB h)
    | none =>
      rw [groups_cons_of_none h]
      exact ⟨cur, mem_cons_self .., hB⟩

/-- **The converse rule.** The invariant is kept by entries that are in the relation `C` with all before them, and any
other entry leaves the open group bad; without a bad group all entries are in the relation. -/
theorem pairwise_of_groups {I : List α → σ → Prop} {R C : α → α → Prop} {P : α → Prop} {B : σ → Prop}
    (hjoin : ∀ {done cur a cur'}, I done cur → P a → (∀ q ∈ done, R q a ∧ C q a) → join cur a = some cur' →
      I (done ++ [a]) cur')
    (hstart : ∀ {done cur a}, I done cur → P a → (∀ q ∈ done, R q a ∧ C q a) → join cur a = none →
      I (done ++ [a]) (start a))
    (hbreak : ∀ {done cur a q}, I done cur → P a → (∀ q ∈ done, R q a) → q ∈ done → ¬ C q a →
      ∃ cur', join cur a = some cur' ∧ B cur')
    (hbad : ∀ {cur a cur'}, B cur → join cur a = some cur' → B cur') :
    ∀ {rest done : List α} {cur : σ}, I done cur → (∀ a ∈ rest, P a) → (done ++ rest).Pairwise R → done.Pairwise C →
      (∀ s ∈ groups start join cur rest, ¬ B s) → (done ++ rest).Pairwise C
  | [], done, cur, _, _, _, hC, _ => by rwa [append_nil]
  | a :: rest, done, cur, hI, hP, hR, hC, hgood => by
    have hPa : P a := hP a (mem_cons_self ..)
    have hRa : ∀ q ∈ done, R q a := fun q hq => (pairwise_append.mp hR).2.2 q hq a (mem_cons_self ..)
    have hP' : ∀ b ∈ rest, P b := fun b hb => hP b (mem_cons_of_mem _ hb)
    have hR' : ((done ++ [a]) ++ rest).Pairwise R := by rwa [append_assoc]
    have hCa : ∀ q ∈ done, C q a := by
      intro q hq
      by_contra hnot
      obtain ⟨cur', h, hB⟩ := hbreak hI hPa hRa hq hnot
      obtain ⟨s, hs, hBs⟩ := exists_mem_groups hbad rest hB
      exact hgood s (by rwa [groups_cons_of_some h]) hBs
    have hC' : (done ++ [a]).Pairwise C := by
      refine pairwise_append.mpr ⟨hC, pairwise_singleton _ _, fun q hq b hb => ?_⟩
      rw [mem_singleton.mp hb]
      exact hCa q hq
    rw [show done ++ a :: rest = (done ++ [a]) ++ rest by simp]
    cases h : join cur a with
    | some cur' =>
      rw [groups_cons_of_some h] at hgood
      exact pairwise_of_groups hjoin hstart hbreak hbad (hjoin hI hPa (fun q hq => ⟨hRa q hq, hCa q hq⟩) h) hP' hR' hC'
        hgood
    | none =>
      rw [groups_cons_of_none h] at hgood
      exact pairwise_of_groups hjoin hstart hbreak hbad (hstart hI hPa (fun q hq => ⟨hRa q hq, hCa q hq⟩) h) hP' hR' hC'
        fun s hs => hgood s (mem_cons_of_mem _ hs)

end CoreC.Lib.Greedy
