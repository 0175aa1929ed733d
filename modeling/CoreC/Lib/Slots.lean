import Mathlib.Data.List.Basic
import Mathlib.Data.List.Pairwise

/-! # Instances that are registered under names

A manager starts instances, registers them in a map by name, and stops the ones it finds in the map. An instance that
runs and is no longer in the map can never be stopped; `Covered base`: none of those from the number `base` on is like
that. A manager that waits for a stop only so long forgets an instance that `lingers`.

* `covered_installAll_iff`: registering instances keeps the property exactly if no running one is written over;
* `stopAll_live_iff`: with it `stopAll` stops what was started since `base`, but for the instances that linger;
* `stopAll_swapAll_iff`, `stopAll_renewAll_iff`: when none of a sequence of instances is left. -/

namespace CoreC.Lib.Slots

open List

/-- The registered and the running instances, each with its name and number, and the number of the next one. -/
structure Table (κ : Type) where
  map : List (κ × ℕ) := []
  live : List (κ × ℕ) := []
  next : ℕ := 0
  map_lt : ∀ x ∈ map, x.2 < next := by simp
  live_lt : ∀ x ∈ live, x.2 < next := by simp

section

variable {κ : Type} [DecidableEq κ]

/-- A map without a name. -/
def erase (name : κ) (map : List (κ × ℕ)) : List (κ × ℕ) := map.filter (·.1 ≠ name)

theorem mem_erase {name : κ} {map : List (κ × ℕ)} {x : κ × ℕ} : x ∈ erase name map ↔ x ∈ map ∧ x.1 ≠ name := by
  simp [erase]

/-- A new instance is registered; whether it runs is up to the instance. -/
def install (s : Table κ) (name : κ) (runs : Bool) : Table κ where
  map := (name, s.next) :: erase name s.map
  live := if runs then (name, s.next) :: s.live else s.live
  next := s.next + 1
  map_lt x hx := by
    rcases mem_cons.mp hx with rfl | hx
    · exact Nat.lt_succ_self _
    · exact Nat.lt_succ_of_lt (s.map_lt x (mem_erase.mp hx).1)
  live_lt x hx := by
    cases runs with
    | false => exact Nat.lt_succ_of_lt (s.live_lt x hx)
    | true =>
      rcases mem_cons.mp hx with rfl | hx
      · exact Nat.lt_succ_self _
      · exact Nat.lt_succ_of_lt (s.live_lt x hx)

/-- The instance of a name is stopped and forgotten. -/
def remove (lingers : κ × ℕ → Bool) (s : Table κ) (name : κ) : Table κ where
  map := erase name s.map
  live := s.live.filter fun x => x.1 = name ∧ x ∈ s.map → lingers x = true
  next := s.next
  map_lt x hx := s.map_lt x (mem_erase.mp hx).1
  live_lt x hx := s.live_lt x (mem_of_mem_filter hx)

/-- The instance of a name is replaced when it has stopped. -/
def swap (s : Table κ) (name : κ) : Table κ := install (remove (fun _ => false) s name) name true

/-- Every instance is forgotten. -/
def clear (s : Table κ) : Table κ where
  live := s.live
  next := s.next
  live_lt := s.live_lt

/-- Every registered instance is stopped and forgotten. -/
def stopAll (lingers : κ × ℕ → Bool) (s : Table κ) : Table κ where
  live := s.live.filter fun x => x ∈ s.map → lingers x = true
  next := s.next
  live_lt x hx := s.live_lt x (mem_of_mem_filter hx)

/-- Every instance since the one with the number `base` that runs is registered. -/
def Covered (base : ℕ) (s : Table κ) : Prop := ∀ x ∈ s.live, base ≤ x.2 → x ∈ s.map

variable {s : Table κ} {base : ℕ}

theorem mem_install_live {name : κ} {runs : Bool} {x : κ × ℕ} :
    x ∈ (install s name runs).live ↔ runs = true ∧ x = (name, s.next) ∨ x ∈ s.live := by
  cases runs with
  | false | true => simp [install]

omit [DecidableEq κ] in
theorem covered_next (s : Table κ) : Covered s.next s :=
  fun x hx hbase => absurd (s.live_lt x hx) (Nat.not_lt.mpr hbase)

theorem mem_remove_live {lingers : κ × ℕ → Bool} {name : κ} {x : κ × ℕ} :
    x ∈ (remove lingers s name).live ↔ x ∈ s.live ∧ (x.1 = name ∧ x ∈ s.map → lingers x = true) := by
  rw [remove, mem_filter, decide_eq_true_eq]

theorem covered_install_iff {name : κ} {runs : Bool} :
    Covered base (install s name runs) ↔ ∀ x ∈ s.live, base ≤ x.2 → x ∈ s.map ∧ x.1 ≠ name := by
  constructor
  · intro h x hx hbase
    rcases mem_cons.mp (h x (mem_install_live.mpr (.inr hx)) hbase) with rfl | hx'
    · exact absurd (s.live_lt _ hx) (Nat.lt_irrefl _)
    · exact mem_erase.mp hx'
  · intro h x hx hbase
    rcases mem_install_live.mp hx with ⟨-, rfl⟩ | hx
    · exact mem_cons_self
    · exact mem_cons_of_mem _ (mem_erase.mpr (h x hx hbase))

theorem remove_of_forall_ne {lingers : κ × ℕ → Bool} {name : κ} (h : ∀ x ∈ s.map, x.1 ≠ name) :
    remove lingers s name = s := by
  have hmap : erase name s.map = s.map := filter_eq_self.mpr fun x hx => by simpa using h x hx
  have hlive : (s.live.filter fun x => x.1 = name ∧ x ∈ s.map → lingers x = true) = s.live :=
    filter_eq_self.mpr fun x _ => decide_eq_true fun hx => absurd hx.1 (h x hx.2)
  cases s
  simp only [remove, Table.mk.injEq]
  exact ⟨hmap, hlive, trivial⟩

/-- **Replacing an instance that is stopped loses none.** -/
theorem covered_swap (h : Covered base s) (name : κ) : Covered base (swap s name) := by
  refine covered_install_iff.mpr fun x hx hbase => ?_
  obtain ⟨hlive, hkept⟩ := mem_remove_live.mp hx
  have hmap := h x hlive hbase
  have hname : x.1 ≠ name := fun hname => absurd (hkept ⟨hname, hmap⟩) Bool.false_ne_true
  exact ⟨mem_erase.mpr ⟨hmap, hname⟩, hname⟩

/-- A sequence of new instances. -/
def installAll (s : Table κ) (news : List (κ × Bool)) : Table κ :=
  news.foldl (fun s new => install s new.1 new.2) s

/-- **A sequence of instances loses none exactly if it writes over none that runs.** -/
theorem covered_installAll_iff (hbase : base ≤ s.next) (news : List (κ × Bool)) : Covered base (installAll s news) ↔
      (∀ x ∈ s.live, base ≤ x.2 → x ∈ s.map ∧ ∀ new ∈ news, x.1 ≠ new.1) ∧
        news.Pairwise fun a b => a.2 = true → a.1 ≠ b.1 := by
  induction news generalizing s with
  | nil =>
    constructor
    · exact fun h => ⟨fun x hx hx' => ⟨h x hx hx', nofun⟩, Pairwise.nil⟩
    · exact fun h x hx hx' => (h.1 x hx hx').1
  | cons new news ih =>
    have hnext : base ≤ (install s new.1 new.2).next := Nat.le_succ_of_le hbase
    change Covered base (installAll (install s new.1 new.2) news) ↔ _
    rw [ih hnext, pairwise_cons]
    constructor
    · rintro ⟨hlive, hpairs⟩
      have hold := covered_install_iff.mp fun x hx hx' => (hlive x hx hx').1
      refine ⟨fun x hx hx' => ⟨(hold x hx hx').1, forall_mem_cons.mpr ⟨(hold x hx hx').2, ?_⟩⟩, ?_, hpairs⟩
      · exact (hlive x (mem_install_live.mpr (.inr hx)) hx').2
      · intro a ha hruns
        exact (hlive (new.1, s.next) (mem_install_live.mpr (.inl ⟨hruns, rfl⟩)) hbase).2 a ha
    · rintro ⟨hlive, hnew, hpairs⟩
      have hall : ∀ x ∈ s.live, base ≤ x.2 → (x ∈ s.map ∧ x.1 ≠ new.1) ∧ ∀ a ∈ news, x.1 ≠ a.1 := by
        intro x hx hx'
        obtain ⟨hmap, hnames⟩ := hlive x hx hx'
        exact ⟨⟨hmap, hnames new mem_cons_self⟩, fun a ha => hnames a (mem_cons_of_mem _ ha)⟩
      refine ⟨fun x hx hx' => ⟨covered_install_iff.mpr (fun y hy hy' => (hall y hy hy').1) x hx hx', ?_⟩, hpairs⟩
      rcases mem_install_live.mp hx with ⟨hruns, rfl⟩ | hx
      · exact fun a ha => hnew a ha hruns
      · exact (hall x hx hx').2

variable {lingers : κ × ℕ → Bool}

/-- **Stopping what is registered** stops everything since `base` exactly if it is covered and does not linger. -/
theorem stopAll_live_iff : (∀ x ∈ (stopAll lingers s).live, x.2 < base) ↔
    ∀ x ∈ s.live, base ≤ x.2 → x ∈ s.map ∧ lingers x = false := by
  have hmem : ∀ x, x ∈ (stopAll lingers s).live ↔ x ∈ s.live ∧ (x ∈ s.map → lingers x = true) := by
    intro x
    rw [stopAll, mem_filter, decide_eq_true_eq]
  constructor
  · intro h x hx hbase
    by_contra hnot
    refine absurd (h x ((hmem x).mpr ⟨hx, fun hmap => ?_⟩)) (Nat.not_lt.mpr hbase)
    exact Bool.not_eq_false _ ▸ fun hlingers => hnot ⟨hmap, hlingers⟩
  · intro h x hx
    obtain ⟨hlive, hlingers⟩ := (hmem x).mp hx
    by_contra hbase
    obtain ⟨hmap, hstops⟩ := h x hlive (Nat.not_lt.mp hbase)
    exact absurd (hlingers hmap) (hstops ▸ Bool.false_ne_true)

theorem stopAll_waiting_live_iff : (∀ x ∈ (stopAll (fun _ => false) s).live, x.2 < base) ↔ Covered base s := by
  rw [stopAll_live_iff]
  simp [Covered]

/-! ### Which instances of a sequence run -/

/-- The last instance of each name, where the first one has the number `next`. -/
def lasts (next : ℕ) : List κ → List (κ × ℕ)
  | [] => []
  | name :: names => (if name ∈ names then [] else [(name, next)]) ++ lasts (next + 1) names

theorem le_of_mem_lasts {x : κ × ℕ} : ∀ {next : ℕ} {names : List κ}, x ∈ lasts next names → next ≤ x.2
  | _, [], h => absurd h not_mem_nil
  | next, name :: names, h => by
    rcases mem_append.mp h with h | h
    · split_ifs at h
      · cases h
      · exact (mem_singleton.mp h) ▸ Nat.le_refl _
    · exact Nat.le_of_succ_le (le_of_mem_lasts h)

/-- A sequence of replacements. -/
def swapAll (s : Table κ) (names : List κ) : Table κ := names.foldl swap s

/-- **Of a sequence of replacements the last ones run**, besides what ran and was not replaced. -/
theorem mem_swapAll_live {x : κ × ℕ} : ∀ {s : Table κ} {names : List κ}, x ∈ (swapAll s names).live ↔
    x ∈ s.live ∧ ¬ (x ∈ s.map ∧ x.1 ∈ names) ∨ x ∈ lasts s.next names
  | s, [] => by simp [swapAll, lasts]
  | s, name :: names => by
    have hlive : x ∈ (swap s name).live ↔ x = (name, s.next) ∨ x ∈ s.live ∧ ¬ (x.1 = name ∧ x ∈ s.map) := by
      rw [swap, mem_install_live, mem_remove_live]
      simp [remove]
    have hmap : x ∈ (swap s name).map ↔ x = (name, s.next) ∨ x ∈ s.map ∧ x.1 ≠ name := by
      simp [swap, install, remove, mem_erase]
    have hold : x ∈ s.live → x ≠ (name, s.next) := fun hx h => absurd (s.live_lt x hx) (h ▸ Nat.lt_irrefl _)
    refine (mem_swapAll_live (s := swap s name)).trans ?_
    rw [hlive, hmap, lasts, mem_append, show (swap s name).next = s.next + 1 from rfl]
    by_cases hx : x = (name, s.next)
    · subst hx
      have hnot : (name, s.next) ∉ s.live := fun h => hold h rfl
      by_cases hname : name ∈ names <;> simp [hname, hnot]
    · have hnew : x ∉ if name ∈ names then [] else [(name, s.next)] := by split_ifs <;> simp [hx]
      simp only [hx, hnew, false_or, mem_cons]
      tauto

theorem covered_swapAll : ∀ {s : Table κ} {names : List κ}, Covered base s → Covered base (swapAll s names)
  | _, [], h => h
  | s, name :: _, h => covered_swapAll (s := swap s name) (covered_swap h name)

/-- **After a sequence of replacements nothing is left** exactly if the last ones do not linger. -/
theorem stopAll_swapAll_iff (lingers : κ × ℕ → Bool) (s : Table κ) (names : List κ) :
    (∀ x ∈ (stopAll lingers (swapAll (clear s) names)).live, x.2 < s.next) ↔
      ∀ x ∈ lasts s.next names, lingers x = false := by
  rw [stopAll_live_iff]
  constructor
  · intro h x hx
    exact (h x (mem_swapAll_live.mpr (.inr hx)) (le_of_mem_lasts hx)).2
  · intro h x hx hbase
    refine ⟨covered_swapAll (covered_next (clear s)) x hx hbase, ?_⟩
    rcases mem_swapAll_live.mp hx with ⟨hold, -⟩ | hlast
    · exact absurd (s.live_lt x hold) (Nat.not_lt.mpr hbase)
    · exact h x hlast

/-- The instance of a name is stopped, and a new one starts unless the name does without. -/
def renew (lingers : κ × ℕ → Bool) (s : Table κ) (new : κ × Bool) : Table κ :=
  if new.2 then install (remove lingers s new.1) new.1 true else remove lingers s new.1

/-- A sequence of such steps. -/
def renewAll (lingers : κ × ℕ → Bool) (s : Table κ) (news : List (κ × Bool)) : Table κ := news.foldl (renew lingers) s

/-- The instances that such a sequence starts. -/
def renewed (next : ℕ) (news : List (κ × Bool)) : List (κ × ℕ) := ((news.filter (·.2)).map (·.1)).zipIdx next

theorem mem_renew_live {new : κ × Bool} {x : κ × ℕ} : x ∈ (renew lingers s new).live ↔
    new.2 = true ∧ x = (new.1, s.next) ∨ x ∈ s.live ∧ (x.1 = new.1 ∧ x ∈ s.map → lingers x = true) := by
  unfold renew
  split_ifs with hnew
  · rw [mem_install_live, mem_remove_live]
    simp only [hnew, remove]
  · rw [mem_remove_live]
    simp [hnew]

theorem mem_renew_map {new : κ × Bool} {x : κ × ℕ} : x ∈ (renew lingers s new).map ↔
    (new.2 = true ∧ x = (new.1, s.next)) ∨ x ∈ s.map ∧ x.1 ≠ new.1 := by
  unfold renew
  split_ifs with hnew
  · simp [install, remove, mem_erase, hnew]
  · simp [remove, mem_erase, hnew]

/-- **Whoever of a sequence lingers, runs.** -/
theorem mem_renewAll_live {x : κ × ℕ} (hx : lingers x = true) : ∀ {s : Table κ} {news : List (κ × Bool)},
    x ∈ (renewAll lingers s news).live ↔ x ∈ s.live ∨ x ∈ renewed s.next news
  | s, [] => by simp [renewAll, renewed]
  | s, new :: news => by
    refine (mem_renewAll_live hx (s := renew lingers s new)).trans ?_
    obtain ⟨name, runs⟩ := new
    rw [mem_renew_live]
    cases runs with
    | false => simp [renew, renewed, remove, hx]
    | true =>
      simp only [renew, renewed, if_true, install, remove, hx, filter_cons, map_cons, zipIdx_cons, mem_cons]
      tauto

theorem covered_renew {new : κ × Bool} (h : ∀ x ∈ s.live, base ≤ x.2 → x ∈ s.map ∨ lingers x = true) :
    ∀ x ∈ (renew lingers s new).live, base ≤ x.2 → x ∈ (renew lingers s new).map ∨ lingers x = true := by
  intro x hx hbase
  rcases mem_renew_live.mp hx with ⟨hnew, rfl⟩ | ⟨hlive, hkept⟩
  · exact .inl (mem_renew_map.mpr (.inl ⟨hnew, rfl⟩))
  · refine (h x hlive hbase).elim (fun hmap => ?_) .inr
    by_cases hname : x.1 = new.1
    · exact .inr (hkept ⟨hname, hmap⟩)
    · exact .inl (mem_renew_map.mpr (.inr ⟨hmap, hname⟩))

theorem covered_renewAll : ∀ {s : Table κ} {news : List (κ × Bool)},
    (∀ x ∈ s.live, base ≤ x.2 → x ∈ s.map ∨ lingers x = true) →
      ∀ x ∈ (renewAll lingers s news).live, base ≤ x.2 → x ∈ (renewAll lingers s news).map ∨ lingers x = true
  | _, [], h => h
  | s, new :: _, h => covered_renewAll (s := renew lingers s new) (covered_renew h)

/-- **After such a sequence nothing is left** exactly if none that it started lingers. -/
theorem stopAll_renewAll_iff (lingers : κ × ℕ → Bool) (s : Table κ) (news : List (κ × Bool)) :
    (∀ x ∈ (stopAll lingers (renewAll lingers (clear s) news)).live, x.2 < s.next) ↔
      ∀ x ∈ renewed s.next news, lingers x = false := by
  have hcovered : ∀ x ∈ (renewAll lingers (clear s) news).live, s.next ≤ x.2 → x ∈ _ ∨ lingers x = true :=
    covered_renewAll fun x hx hbase => absurd (s.live_lt x hx) (Nat.not_lt.mpr hbase)
  rw [stopAll_live_iff]
  constructor
  · intro h x hx
    rw [← Bool.not_eq_true]
    intro hlingers
    have hlive : x ∈ (renewAll lingers (clear s) news).live := (mem_renewAll_live hlingers).mpr (.inr hx)
    exact absurd hlingers ((h x hlive (le_snd_of_mem_zipIdx hx)).2 ▸ Bool.false_ne_true)
  · intro h x hx hbase
    have hstops : lingers x = false := by
      rw [← Bool.not_eq_true]
      intro hlingers
      rcases (mem_renewAll_live hlingers).mp hx with hold | hnew
      · exact absurd (s.live_lt x hold) (Nat.not_lt.mpr hbase)
      · exact absurd hlingers (h x hnew ▸ Bool.false_ne_true)
    exact ⟨(hcovered x hx hbase).resolve_right (hstops ▸ Bool.false_ne_true), hstops⟩

end

/-! ### Maps as functions -/

section

variable {κ β : Type} [DecidableEq κ] {f : κ → Option β} {k k' : κ} {x y : β}

theorem of_update_none (h : Function.update f k none k' = some y) : k' ≠ k ∧ f k' = some y := by
  by_cases hk : k' = k
  · simp [hk] at h
  · exact ⟨hk, by simpa [hk] using h⟩

theorem of_update_some (h : Function.update f k (some x) k' = some y) : k' = k ∧ x = y ∨ k' ≠ k ∧ f k' = some y := by
  by_cases hk : k' = k
  · exact .inl ⟨hk, by simpa [hk] using h⟩
  · exact .inr ⟨hk, by simpa [hk] using h⟩

end

end CoreC.Lib.Slots
