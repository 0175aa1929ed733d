import Mathlib.Data.List.AList
import Mathlib.Data.List.Perm.Basic

/-! # Maps and buckets

A Go map is an `AList`; a `range` loop visits its keys in some order, which is an arbitrary list `ks` with
`ks.Perm m.keys`. A list is distributed over the buckets of a key function by appending each element to the bucket of
its key (`bucket`, `buckets`); visiting the buckets in any order visits the elements with a key once each
(`flatMap_buckets_perm`). -/

namespace CoreC.Lib.Buckets

open List

variable {κ ν α β : Type} [DecidableEq κ]

/-- `m[k]` for a map to lists: the empty list where the key is absent. -/
def get (m : AList fun _ : κ => List ν) (k : κ) : List ν := (m.lookup k).getD []

/-- `m[k] = append(m[k], v)`. -/
def bucket (m : AList fun _ : κ => List ν) (k : κ) (v : ν) : AList fun _ : κ => List ν :=
  m.insert k (get m k ++ [v])

theorem get_bucket (m : AList fun _ : κ => List ν) (k k' : κ) (v : ν) :
    get (bucket m k v) k' = if k' = k then get m k' ++ [v] else get m k' := by
  unfold get bucket
  split_ifs with h
  · subst h; simp [get]
  · rw [AList.lookup_insert_ne h]

theorem mem_bucket {m : AList fun _ : κ => List ν} {k k' : κ} {v : ν} : k' ∈ bucket m k v ↔ k' = k ∨ k' ∈ m := by
  unfold bucket; exact AList.mem_insert m

/-- **Inserting a list of entries**: for every key the last entry counts, then the map before. -/
theorem lookup_foldl_insert (key : α → κ) (val : α → ν) (k : κ) : ∀ (l : List α) (m : AList fun _ : κ => ν),
      (l.foldl (fun m a => m.insert (key a) (val a)) m).lookup k =
        (((l.filter fun a => key a = k).getLast?).map val).or (m.lookup k)
  | [], m => by simp
  | a :: l, m => by
    rw [foldl_cons, lookup_foldl_insert key val k l]
    by_cases h : key a = k
    · subst h
      rw [filter_cons_of_pos (by simp), List.getLast?_cons]
      cases (l.filter fun x => key x = key a).getLast? <;> simp
    · rw [filter_cons_of_neg (by simpa using h), AList.lookup_insert_ne (Ne.symm h)]

def bucketStep (key : α → Option κ) (m : AList fun _ : κ => List α) (a : α) :
    AList fun _ : κ => List α :=
  match key a with
  | some k => bucket m k a
  | none => m

/-- Distribute a list over the buckets of `key`. -/
def buckets (key : α → Option κ) (l : List α) : AList fun _ : κ => List α :=
  l.foldl (bucketStep key) ∅

theorem get_foldl_bucketStep (key : α → Option κ) (k : κ) : ∀ (l : List α) (m : AList fun _ : κ => List α),
      get (l.foldl (bucketStep key) m) k = get m k ++ l.filter fun a => key a = some k
  | [], m => by simp
  | a :: l, m => by
    rw [foldl_cons, get_foldl_bucketStep key k l]
    unfold bucketStep
    cases h : key a with
    | none => simp [h]
    | some k' =>
      simp only [get_bucket]
      by_cases hk : k = k'
      · subst hk; simp [h]
      · simp [h, hk, Ne.symm hk]

theorem get_buckets (key : α → Option κ) (l : List α) (k : κ) :
    get (buckets key l) k = l.filter fun a => key a = some k := by
  unfold buckets
  rw [get_foldl_bucketStep]
  simp [get]

theorem mem_foldl_bucketStep (key : α → Option κ) (k : κ) : ∀ (l : List α) (m : AList fun _ : κ => List α),
      k ∈ l.foldl (bucketStep key) m ↔ k ∈ m ∨ ∃ a ∈ l, key a = some k
  | [], m => by simp
  | a :: l, m => by
    rw [foldl_cons, mem_foldl_bucketStep key k l]
    unfold bucketStep
    cases h : key a with
    | none => simp [h]
    | some k' =>
      simp only [mem_bucket, exists_mem_cons_iff, h, Option.some.injEq]
      constructor
      · rintro ((rfl | h1) | h1)
        · exact .inr (.inl rfl)
        · exact .inl h1
        · exact .inr (.inr h1)
      · rintro (h1 | rfl | h1)
        · exact .inl (.inr h1)
        · exact .inl (.inl rfl)
        · exact .inr h1

theorem mem_buckets {key : α → Option κ} {l : List α} {k : κ} : k ∈ buckets key l ↔ ∃ a ∈ l, key a = some k := by
  unfold buckets
  rw [mem_foldl_bucketStep]
  simp

/-! ### Visiting the buckets -/

omit [DecidableEq κ] in
theorem flatMap_update_perm {ks : List κ} (hnd : ks.Nodup) {k : κ} (hk : k ∈ ks) (b : List β)
    (f g : κ → List β) (hk' : g k = b ++ f k) (hne : ∀ k' ∈ ks, k' ≠ k → g k' = f k') :
    (ks.flatMap g).Perm (b ++ ks.flatMap f) := by
  obtain ⟨l, r, rfl⟩ := append_of_mem hk
  rw [nodup_append] at hnd
  obtain ⟨-, hr, hlr⟩ := hnd
  have hl : l.flatMap g = l.flatMap f := by
    refine flatMap_congr fun k' hk'' => hne k' (by simp [hk'']) ?_
    exact hlr k' hk'' k (by simp)
  have hr' : r.flatMap g = r.flatMap f := by
    refine flatMap_congr fun k' hk'' => hne k' (by simp [hk'']) ?_
    rintro rfl
    exact (nodup_cons.mp hr).1 hk''
  simp only [flatMap_append, flatMap_cons, hl, hr', hk', append_assoc]
  exact (perm_append_comm_assoc _ _ _)

/-- **Visiting the buckets visits every element with a key once.** -/
theorem flatMap_buckets_perm (key : α → Option κ) (f : α → List β) {ks : List κ}
    (hnd : ks.Nodup) : ∀ (l : List α), (∀ a ∈ l, ∀ k, key a = some k → k ∈ ks) →
      (ks.flatMap fun k => (l.filter fun a => key a = some k).flatMap f).Perm
        ((l.filter fun a => (key a).isSome).flatMap f)
  | [], _ => by simp
  | a :: l, h => by
    have ih := flatMap_buckets_perm key f hnd l fun x hx => h x (by simp [hx])
    cases hk : key a with
    | none => simpa [hk] using ih
    | some k =>
      refine (flatMap_update_perm hnd (h a (by simp) k hk) (f a)
        (fun k => (l.filter fun a => key a = some k).flatMap f) _ (by simp [hk]) ?_).trans ?_
      · intro k' _ hne
        simp [hk, Ne.symm hne]
      · simpa [hk] using ih.append_left (f a)

end CoreC.Lib.Buckets
