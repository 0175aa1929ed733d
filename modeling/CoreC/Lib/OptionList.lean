import Mathlib.Data.List.Forall2

/-! # Lists under a partial function

`List.mapM` in `Option`: when it succeeds, and what it then gives. -/

namespace CoreC.Lib.OptionList

open List Option

variable {α β γ : Type} {f : α → Option β}

theorem mapM_eq_some : ∀ {l : List α} {l' : List β}, l.mapM f = some l' → List.Forall₂ (fun a b => f a = some b) l l'
  | [], l', h => by
    cases some.inj h
    exact .nil
  | a :: l, l', h => by
    rw [mapM_cons] at h
    obtain ⟨b, hb, h⟩ := bind_eq_some_iff.mp h
    obtain ⟨bs, hbs, h⟩ := bind_eq_some_iff.mp h
    cases some.inj h
    exact .cons hb (mapM_eq_some hbs)

theorem mem_of_mapM_eq_some {l : List α} {l' : List β} (h : l.mapM f = some l') (b : β) :
    b ∈ l' ↔ ∃ a ∈ l, f a = some b := by
  induction mapM_eq_some h with
  | nil => simp
  | cons hab htail ih =>
    rw [mapM_cons] at h
    obtain ⟨b', hb', h⟩ := bind_eq_some_iff.mp h
    obtain ⟨bs, hbs, h⟩ := bind_eq_some_iff.mp h
    cases some.inj h
    rw [mem_cons, ih hbs]
    simp [hab, eq_comm]

theorem mapM_of_forall : ∀ {l : List α}, (∀ a ∈ l, ∃ b, f a = some b) → ∃ l', l.mapM f = some l' ∧ l'.map some = l.map f
  | [], _ => ⟨[], rfl, rfl⟩
  | a :: l, h => by
    obtain ⟨⟨b, hb⟩, hl⟩ := forall_mem_cons.mp h
    obtain ⟨l', hl', hmap⟩ := mapM_of_forall hl
    refine ⟨b :: l', ?_, ?_⟩
    · rw [mapM_cons, hb, hl']
      rfl
    · rw [map_cons, map_cons, hb, hmap]

theorem mapM_isSome (f : α → Option β) : ∀ l : List α, (l.mapM f).isSome = l.all fun a => (f a).isSome
  | [] => rfl
  | a :: l => by
    rw [mapM_cons, all_cons, ← mapM_isSome f l]
    cases f a with
    | none => rfl
    | some b =>
      cases l.mapM f with
      | none | some => rfl

theorem mapM_bind_mapM (f : α → Option β) (g : β → Option γ) : ∀ l : List α,
    ((l.mapM f).bind fun bs => bs.mapM g) = l.mapM fun a => (f a).bind g
  | [] => rfl
  | a :: l => by
    have ih := mapM_bind_mapM f g l
    simp only [mapM_cons, ← ih]
    cases f a with
    | none => rfl
    | some b =>
      cases l.mapM f with
      | none | some => simp

end CoreC.Lib.OptionList
