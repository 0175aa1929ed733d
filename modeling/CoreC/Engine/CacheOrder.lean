import Mathlib.Data.Prod.Lex
import CoreC.Engine.CacheSteps
import CoreC.Lib.KeyOrder

/-! # The latest-value cache is linearisable

Every call that has returned has a place in time: a write where it can first be seen, a `GetByDriver` where what it
returns could be seen, a `DeleteDriver` where it takes the object out, and a call that finds no object where it looks; a
call on an object that was taken out just before that. Ordered by these places (`placed_of_done`), the calls give every
`GetByDriver` what it returned (`lastEffect_read`, `lastEffect_absent`). -/

namespace CoreC.Engine.Cache

open Core.Types Lib.Runs Lib.KeyOrder Function List Option

/-! ### What a call does to one tag -/

def Call.effect (driver tag : String) : Call → Option (Option DataPoint)
  | .update point => if point.driver = driver ∧ point.tag = tag then some (some point) else none
  | .deleteTag d t => if d = driver ∧ t = tag then some none else none
  | .deleteDriver d => if d = driver then some none else none
  | .getByDriver _ => none

theorem update_eq_getD (v : Values) (t tag : String) (point : Option DataPoint) :
    update v t point tag = (if t = tag then some point else none).getD (v tag) := by
  by_cases h : t = tag
  · subst h
    rw [update_self, if_pos rfl, getD_some]
  · rw [update_of_ne (Ne.symm h), if_neg h, getD_none]

theorem write_eq_effect {c : Call} (hwrite : c.isWrite = true) (v : Values) (tag : String) :
    c.write v tag = (c.effect c.driver tag).getD (v tag) := by
  cases c with
  | update | deleteTag => simp [Call.write, Call.effect, Call.driver, update_eq_getD]
  | _ => cases hwrite

theorem driver_of_effect {c : Call} {driver tag : String} (h : c.effect driver tag ≠ none) : c.driver = driver := by
  by_contra hne
  cases c <;> simp_all [Call.effect, Call.driver]

theorem apply_eq_effect (c : Call) (m : String → Values) (driver tag : String) :
    c.apply m driver tag = (c.effect driver tag).getD (m driver tag) := by
  by_cases hd : c.driver = driver
  · subst hd
    cases c with
    | deleteDriver d => simp [Call.apply, Call.effect, Call.driver]
    | getByDriver d => rfl
    | update | deleteTag => simp [Call.apply, Call.effect, Call.driver, update_eq_getD]
  · have hnone : c.effect driver tag = none := by
      by_contra h
      exact hd (driver_of_effect h)
    rw [hnone]
    cases c with
    | getByDriver d => rfl
    | _ => exact congrFun (update_of_ne (Ne.symm hd) _ _) tag

variable {ι : Type} {calls : ι → Call}

theorem replay_eq_lastEffect (l : List ι) (driver tag : String) :
    replay (l.map calls) driver tag = lastEffect (fun c => (calls c).effect driver tag) none l := by
  induction l using List.reverseRecOn with
  | nil => rfl
  | append_singleton l c ih =>
    rw [lastEffect_concat, ← ih, ← apply_eq_effect, map_append, replay, foldl_append]
    rfl

theorem fold_eq_lastEffect {driver : String} (tag : String) (cs : List ι)
    (h : ∀ c ∈ cs, (calls c).isWrite = true ∧ (calls c).driver = driver) :
    fold calls cs tag = lastEffect (fun c => (calls c).effect driver tag) none cs := by
  induction cs using List.reverseRecOn with
  | nil => rfl
  | append_singleton cs c ih =>
    obtain ⟨hwrite, rfl⟩ := h c (by simp)
    rw [lastEffect_concat, fold_append, write_eq_effect hwrite, ih fun c hc => h c (by simp [hc])]

/-! ### Places -/

def History.clip (g : History ι) (dc τ : ℕ) : ℕ :=
  match g.closed dc with
  | some (_, δ) => min τ δ
  | none => τ

section

variable {s : State ι} {g : History ι} {c y z : ι} {dc τ δ : ℕ} {result : Values} {a t : ℕ} {key : ℕ ×ₗ ℕ}

theorem clip_le (g : History ι) (dc τ : ℕ) : g.clip dc τ ≤ τ := by
  unfold History.clip
  split
  · exact Nat.min_le_left _ _
  · exact Nat.le_refl _

theorem clip_le_closed (h : g.closed dc = some (z, δ)) (τ : ℕ) : g.clip dc τ ≤ δ := by
  unfold History.clip
  rw [h]
  exact Nat.min_le_right _ _

theorem le_clip (hτ : a ≤ τ) (h : ∀ z δ, g.closed dc = some (z, δ) → a ≤ δ) : a ≤ g.clip dc τ := by
  unfold History.clip
  split
  · next hclosed => exact Nat.le_min.mpr ⟨hτ, h _ _ hclosed⟩
  · exact hτ

theorem clip_mono {τ' : ℕ} (h : τ ≤ τ') : g.clip dc τ ≤ g.clip dc τ' :=
  le_clip ((clip_le g dc τ).trans h) fun _ _ hclosed => clip_le_closed hclosed τ

/-- The place of a call: twice the step, so that what takes an object out comes after what happens to it with the same
step, and for one object the number of writes before. -/
inductive Place (calls : ι → Call) (s : State ι) (g : History ι) (c : ι) (result : Values) : ℕ ×ₗ ℕ → Prop
  | write {dc k τ : ℕ} (hcall : (calls c).isWrite = true) (hdc : dc < s.cache.allocated)
    (howner : g.owner dc = (calls c).driver) (hk : (g.writes dc)[k]? = some (c, τ)) :
    Place calls s g c result (toLex (2 * g.clip dc τ, 2 * k + 1))
  | read {dc p τ : ℕ} (hcall : (calls c).isGet = true) (hdc : dc < s.cache.allocated)
    (howner : g.owner dc = (calls c).driver) (hseen : SeenAt calls g dc p τ result) :
    Place calls s g c result (toLex (2 * g.clip dc τ, 2 * p))
  | absent {t : ℕ} (hcall : (∃ d tag, calls c = .deleteTag d tag) ∧ (∀ dc, c ∉ g.all dc) ∨
      (calls c).isGet = true ∧ result = fun _ => none)
    (habsent : Absent calls s g c t) : Place calls s g c result (toLex (2 * t, 0))
  | delete {t : ℕ} (hcall : ∃ d, calls c = .deleteDriver d) (hstarted : s.started c = some t)
    (hclosed : (∃ dc, g.closed dc = some (c, t)) ∨ Absent calls s g c t) :
    Place calls s g c result (toLex (2 * t + 1, 0))

/-- **A call that has returned has a place**, between its first step and its last one. -/
theorem place_of_done (hinv : Inv calls s g) (hphase : s.phase c = .done result) :
    ∃ key t r, Place calls s g c result key ∧ s.started c = some t ∧ s.returned c = some r ∧
      2 * t ≤ (ofLex key).1 ∧ (ofLex key).1 ≤ 2 * r + 1 := by
  have hat := hinv.calls c
  rw [hphase] at hat
  obtain ⟨r, hreturned, -, hfinished⟩ := hat
  unfold Finished at hfinished
  have hwrote : (calls c).isWrite = true → Wrote calls s g c r → ∃ key t r, Place calls s g c result key ∧
      s.started c = some t ∧ s.returned c = some r ∧ 2 * t ≤ (ofLex key).1 ∧ (ofLex key).1 ≤ 2 * r + 1 := by
    rintro hcall ⟨dc, t, τ, huses, hmem, htτ, hτr⟩
    obtain ⟨k, hk⟩ := mem_iff_getElem?.mp hmem
    have hle := clip_le g dc τ
    have hge : t ≤ g.clip dc τ := le_clip htτ fun z δ hz => (huses.before z δ hz).le
    exact ⟨_, t, r, .write hcall huses.allocated huses.owner hk, huses.started, hreturned,
      by change 2 * t ≤ 2 * _; omega, by change 2 * _ ≤ _; omega⟩
  cases hcall : calls c with
  | update point =>
    simp only [hcall] at hfinished
    exact hwrote (by rw [hcall]; rfl) hfinished
  | deleteTag d tag =>
    simp only [hcall] at hfinished
    rcases hfinished with hfinished | ⟨habsent, hnot⟩
    · exact hwrote (by rw [hcall]; rfl) hfinished
    · exact ⟨_, r, r, .absent (.inl ⟨⟨d, tag, hcall⟩, hnot⟩) habsent, habsent.started, hreturned, Nat.le_refl _,
        Nat.le_succ _⟩
  | getByDriver d =>
    simp only [hcall] at hfinished
    rcases hfinished with ⟨dc, t, p, τ, huses, hseen, htτ, hτr⟩ | ⟨habsent, hresult⟩
    · have hle := clip_le g dc τ
      have hge : t ≤ g.clip dc τ := le_clip htτ fun z δ hz => (huses.before z δ hz).le
      exact ⟨_, t, r, .read (by rw [hcall]; rfl) huses.allocated huses.owner hseen, huses.started, hreturned,
        by change 2 * t ≤ 2 * _; omega, by change 2 * _ ≤ _; omega⟩
    · exact ⟨_, r, r, .absent (.inr ⟨by rw [hcall]; rfl, hresult⟩) habsent, habsent.started, hreturned, Nat.le_refl _,
        Nat.le_succ _⟩
  | deleteDriver d =>
    simp only [hcall] at hfinished
    obtain ⟨t, hstarted, htr, hclosed⟩ := hfinished
    exact ⟨_, t, r, .delete ⟨d, hcall⟩ hstarted hclosed, hstarted, hreturned, by change 2 * t ≤ 2 * t + 1; omega,
      by change 2 * t + 1 ≤ _; omega⟩

def Placed (calls : ι → Call) (s : State ι) (g : History ι) (key : ι → ℕ ×ₗ ℕ) : Prop :=
  ∀ c, ∃ result t r, s.phase c = .done result ∧ Place calls s g c result (key c) ∧ s.started c = some t ∧
    s.returned c = some r ∧ 2 * t ≤ (ofLex (key c)).1 ∧ (ofLex (key c)).1 ≤ 2 * r + 1

theorem placed_of_done (hinv : Inv calls s g) (hdone : ∀ c, ∃ result, s.phase c = .done result) :
    ∃ key, Placed calls s g key := by
  choose result hresult using hdone
  choose key t r hkey using fun c => place_of_done hinv (hresult c)
  exact ⟨key, fun c => ⟨result c, t c, r c, hresult c, hkey c⟩⟩

theorem key_lt_of_precedes {key : ι → ℕ ×ₗ ℕ} (hplaced : Placed calls s g key) (h : Precedes s y c) :
    key y < key c := by
  obtain ⟨r, t, hr, ht, hlt⟩ := h
  obtain ⟨-, -, r', -, -, -, hr', -, hle⟩ := hplaced y
  obtain ⟨-, t', -, -, -, ht', -, hge, -⟩ := hplaced c
  cases hr.symm.trans hr'
  cases ht.symm.trans ht'
  exact Prod.Lex.lt_iff.mpr (.inl (by omega))

/-! ### Places of calls of one driver -/

def Inside (g : History ι) (dc a : ℕ) : Prop :=
  2 * g.created dc < a ∧ ∀ z δ, g.closed dc = some (z, δ) → a ≤ 2 * δ

def Outside (g : History ι) (dc a : ℕ) : Prop :=
  a < 2 * g.created dc ∨ ∃ z δ, g.closed dc = some (z, δ) ∧ 2 * δ < a

theorem inside_clip (hinv : Inv calls s g) (h : g.created dc < τ) : Inside g dc (2 * g.clip dc τ) := by
  have hlt : g.created dc + 1 ≤ g.clip dc τ := le_clip h fun z δ hz => (hinv.gens.closed dc z δ hz).2.2.2.1
  refine ⟨by omega, fun z δ hz => ?_⟩
  have hle := clip_le_closed hz τ
  omega

theorem lt_of_outside {a' : ℕ} (hin : Inside g dc a) (hout : Outside g dc a') (hle : a' ≤ a) :
    a' < 2 * g.created dc := by
  rcases hout with hlt | ⟨z, δ, hz, hlt⟩
  · exact hlt
  · have hδ := hin.2 z δ hz
    omega

theorem outside_of_inside (hinv : Inv calls s g) {dc' : ℕ} (hdc : dc < s.cache.allocated)
    (hdc' : dc' < s.cache.allocated) (hne : dc' ≠ dc) (howner : g.owner dc' = g.owner dc) (hin : Inside g dc' a) :
    Outside g dc a := by
  rcases hinv.gens.disjoint dc' hdc' dc hdc hne howner with ⟨z, δ, hz, hlt⟩ | ⟨z, δ, hz, hlt⟩
  · have hle := hin.2 z δ hz
    exact .inl (by omega)
  · have hgt := hin.1
    exact .inr ⟨z, δ, hz, by omega⟩

theorem outside_of_absent (hdc : dc < s.cache.allocated) (howner : g.owner dc = (calls c).driver)
    (habsent : Absent calls s g c t) : Outside g dc (2 * t) ∧ Outside g dc (2 * t + 1) := by
  rcases habsent.absent dc hdc howner with hlt | ⟨z, δ, hz, hlt⟩
  · exact ⟨.inl (by omega), .inl (by omega)⟩
  · exact ⟨.inr ⟨z, δ, hz, by omega⟩, .inr ⟨z, δ, hz, by omega⟩⟩

theorem outside_of_closed (hinv : Inv calls s g) {dc' : ℕ} (hdc : dc < s.cache.allocated)
    (howner : g.owner dc' = g.owner dc) (hclosed : g.closed dc' = some (c, t)) : Outside g dc (2 * t + 1) := by
  by_cases h : dc' = dc
  · subst h
    exact .inr ⟨c, t, hclosed, by omega⟩
  · obtain ⟨hdc', -, -, hlt, -⟩ := hinv.gens.closed dc' c t hclosed
    rcases hinv.gens.disjoint dc' hdc' dc hdc h howner with ⟨z, δ, hz, hδ⟩ | ⟨z, δ, hz, hδ⟩
    · cases hz.symm.trans hclosed
      exact .inl (by omega)
    · exact .inr ⟨z, δ, hz, by omega⟩

theorem isGet_of_effect {driver tag : String} (h : (calls c).effect driver tag ≠ none) : (calls c).isGet = false := by
  cases hc : calls c with
  | getByDriver d =>
    rw [hc] at h
    exact absurd rfl h
  | _ => rfl

/-- **A call of the driver is a write to the object, or it is outside.** -/
theorem place_cases (hinv : Inv calls s g) {driver tag : String} (hdc : dc < s.cache.allocated)
    (howner : g.owner dc = driver) (heffect : (calls c).effect driver tag ≠ none)
    (hplace : Place calls s g c result key) :
    (∃ k τ, (g.writes dc)[k]? = some (c, τ) ∧ key = toLex (2 * g.clip dc τ, 2 * k + 1)) ∨ Outside g dc (ofLex key).1 := by
  have hdriver := driver_of_effect heffect
  cases hplace with
  | @write dc' k τ hcall hdc' howner' hk =>
    by_cases h : dc' = dc
    · subst h
      exact .inl ⟨k, τ, hk, rfl⟩
    · have htime := (hinv.lists.times dc' (c, τ) (mem_of_getElem? hk)).1
      exact .inr (outside_of_inside hinv hdc hdc' h (howner'.trans (hdriver.trans howner.symm)) (inside_clip hinv htime))
  | read hcall _ _ _ =>
    rw [isGet_of_effect heffect] at hcall
    cases hcall
  | absent _ habsent => exact .inr (outside_of_absent hdc (howner.trans hdriver.symm) habsent).1
  | delete hcall _ hclosed =>
    rcases hclosed with ⟨dc', hclosed⟩ | habsent
    · obtain ⟨-, hcall', -⟩ := hinv.gens.closed dc' c _ hclosed
      rw [hcall'] at hdriver
      exact .inr (outside_of_closed hinv hdc (hdriver.trans howner.symm) hclosed)
    · exact .inr (outside_of_absent hdc (howner.trans hdriver.symm) habsent).2

theorem place_of_write (hinv : Inv calls s g) {k : ℕ} (hk : (g.writes dc)[k]? = some (c, τ))
    (hplace : Place calls s g c result key) : (calls c).isWrite = true ∧ (calls c).driver = g.owner dc ∧
      key = toLex (2 * g.clip dc τ, 2 * k + 1) := by
  have hmem : c ∈ g.all dc := mem_append_left _ (mem_map_of_mem (mem_of_getElem? hk))
  have hwrite : (calls c).isWrite = true := (hinv.lists.listed dc c hmem).1
  cases hplace with
  | @write dc' k' τ' _ _ howner hk' =>
    have hmem' : c ∈ g.all dc' := mem_append_left _ (mem_map_of_mem (mem_of_getElem? hk'))
    cases hinv.lists.apart dc dc' c hmem hmem'
    have hnodup : ((g.writes dc).map Prod.fst).Nodup := (nodup_append.mp (hinv.lists.nodup dc)).1
    have hlt : k < ((g.writes dc).map Prod.fst).length := by
      rw [length_map]
      exact (List.getElem?_eq_some_iff.mp hk).1
    have heq : k = k' := by
      refine (List.getElem?_inj hlt hnodup).mp ?_
      rw [List.getElem?_map, List.getElem?_map, hk, hk']
      rfl
    subst heq
    cases hk.symm.trans hk'
    exact ⟨hwrite, howner.symm, rfl⟩
  | read hcall _ _ _ => cases hc : calls c <;> simp [hc, Call.isWrite, Call.isGet] at hwrite hcall
  | absent hcall _ =>
    rcases hcall with ⟨-, hnot⟩ | ⟨hcall, -⟩
    · exact absurd hmem (hnot dc)
    · cases hc : calls c <;> simp [hc, Call.isWrite, Call.isGet] at hwrite hcall
  | delete hcall _ _ =>
    obtain ⟨d, hd⟩ := hcall
    rw [hd] at hwrite
    cases hwrite

theorem place_of_update (hupdate : (calls c).isUpdate = true) (hplace : Place calls s g c result key) :
    ∃ dc k τ, dc < s.cache.allocated ∧ g.owner dc = (calls c).driver ∧ (g.writes dc)[k]? = some (c, τ) ∧
      key = toLex (2 * g.clip dc τ, 2 * k + 1) := by
  cases hplace with
  | @write dc k τ _ hdc howner hk => exact ⟨dc, k, τ, hdc, howner, hk, rfl⟩
  | read hcall _ _ _ => cases hc : calls c <;> simp [hc, Call.isUpdate, Call.isGet] at hupdate hcall
  | absent hcall _ =>
    rcases hcall with ⟨⟨d, tag, hd⟩, -⟩ | ⟨hcall, -⟩
    · rw [hd] at hupdate
      cases hupdate
    · cases hc : calls c <;> simp [hc, Call.isUpdate, Call.isGet] at hupdate hcall
  | delete hcall _ _ =>
    obtain ⟨d, hd⟩ := hcall
    rw [hd] at hupdate
    cases hupdate

theorem place_of_deleteDriver {d : String} (hdelete : calls c = .deleteDriver d) (hstarted : s.started c = some δ)
    (hplace : Place calls s g c result key) : key = toLex (2 * δ + 1, 0) := by
  cases hplace with
  | absent hcall _ =>
    rcases hcall with ⟨⟨d', tag, hd⟩, -⟩ | ⟨hcall, -⟩
    · cases hdelete.symm.trans hd
    · rw [hdelete] at hcall
      cases hcall
  | delete _ hstarted' _ =>
    cases hstarted.symm.trans hstarted'
    rfl
  | write hcall _ _ _ | read hcall _ _ _ =>
    rw [hdelete] at hcall
    cases hcall

/-- **The writes to an object that was taken out are undone**, by the call that took it out. -/
theorem exists_closer (hinv : Inv calls s g) {key : ι → ℕ ×ₗ ℕ} (hplaced : Placed calls s g key)
    (hends : EndsBefore g dc t) (tag : String) :
    ∃ z, (calls z).effect (g.owner dc) tag ≠ none ∧ (∀ τ k, toLex (2 * g.clip dc τ, k) < key z) ∧
      (ofLex (key z)).1 < 2 * t := by
  obtain ⟨z, δ, hz, hlt⟩ := hends
  obtain ⟨-, hdelete, hstarted, -, -⟩ := hinv.gens.closed dc z δ hz
  obtain ⟨result, -, -, -, hplace, -⟩ := hplaced z
  have hkey := place_of_deleteDriver hdelete hstarted hplace
  refine ⟨z, ?_, fun τ k => ?_, ?_⟩
  · rw [hdelete]
    simp [Call.effect]
  · have hle := clip_le_closed hz τ
    rw [hkey, Prod.Lex.toLex_lt_toLex]
    exact .inl (by change 2 * _ < 2 * δ + 1; omega)
  · rw [hkey]
    change 2 * δ + 1 < 2 * t
    omega

/-! ### What a call reads -/

theorem effect_cases (c : Call) (driver tag : String) : c.effect driver tag = none ∨ c.effect driver tag = some none ∨
    c.isUpdate = true ∧ c.effect driver tag ≠ none := by
  cases c with
  | update point => exact (em _).imp_right fun h => .inr ⟨rfl, h⟩
  | getByDriver d => exact .inl rfl
  | deleteTag d t =>
    by_cases h : d = driver ∧ t = tag
    · exact .inr (.inl (if_pos h))
    · exact .inl (if_neg h)
  | deleteDriver d =>
    by_cases h : d = driver
    · exact .inr (.inl (if_pos h))
    · exact .inl (if_neg h)

theorem fst_le_of_le {a b : ℕ ×ₗ ℕ} (h : a ≤ b) : (ofLex a).1 ≤ (ofLex b).1 := by
  rcases Prod.Lex.le_iff.mp h with hlt | ⟨heq, -⟩
  · exact hlt.le
  · exact heq.le

section

variable {key : ι → ℕ ×ₗ ℕ} {l : List ι} {w : ι × ℕ} {k p : ℕ}

theorem lastEffect_absent (hinv : Inv calls s g) (hplaced : Placed calls s g key)
    (hsorted : l.Pairwise fun a b => key a ≤ key b) {t : ℕ} (habsent : Absent calls s g c t)
    (hle : ∀ y ∈ l, key y ≤ toLex (2 * t, 0)) (hmem : ∀ y, key y < toLex (2 * t, 0) → y ∈ l) (tag : String) :
    lastEffect (fun y => (calls y).effect (calls c).driver tag) none l = none := by
  refine lastEffect_eq_default hsorted fun y hy => ?_
  rcases effect_cases (calls y) (calls c).driver tag with hnone | hdefault | ⟨hupdate, heffect⟩
  · exact .inl hnone
  · exact .inr (.inl hdefault)
  · obtain ⟨result, -, -, -, hplace, -⟩ := hplaced y
    obtain ⟨dc, k, τ, hdc, howner, hk, hkey⟩ := place_of_update hupdate hplace
    have hdriver : g.owner dc = (calls c).driver := howner.trans (driver_of_effect heffect)
    have htime : g.created dc < τ := (hinv.lists.times dc (y, τ) (mem_of_getElem? hk)).1
    have hfst : 2 * g.clip dc τ ≤ 2 * t := by
      have h := fst_le_of_le (hle y hy)
      rw [hkey] at h
      exact h
    have hinside := inside_clip hinv htime
    rcases habsent.absent dc hdc hdriver with hlt | hends
    · have hgt := hinside.1
      omega
    · obtain ⟨z, hz, hlt, hbefore⟩ := exists_closer hinv hplaced hends tag
      exact .inr (.inr ⟨z, hmem z (Prod.Lex.lt_iff.mpr (.inl hbefore)), hdriver ▸ hz, hkey ▸ hlt τ _⟩)

theorem write_lt_read (hseen : SeenAt calls g dc p τ result) (hk : (g.writes dc)[k]? = some w)
    (hlt : k < p) : toLex (2 * g.clip dc w.2, 2 * k + 1) < toLex (2 * g.clip dc τ, 2 * p) := by
  have hmem : w ∈ (g.writes dc).take p := mem_of_getElem? (i := k) (by rw [List.getElem?_take_of_lt hlt, hk])
  have hle : g.clip dc w.2 ≤ g.clip dc τ := clip_mono (hseen.before w hmem)
  rw [Prod.Lex.toLex_lt_toLex]
  omega

theorem lt_of_write_le_read (hseen : SeenAt calls g dc p τ result) (hk : (g.writes dc)[k]? = some w)
    (hle : toLex (2 * g.clip dc w.2, 2 * k + 1) ≤ toLex (2 * g.clip dc τ, 2 * p)) : k < p := by
  by_contra hge
  have hmem : w ∈ (g.writes dc).drop p :=
    mem_of_getElem? (i := k - p) (by rw [List.getElem?_drop, Nat.add_sub_cancel' (Nat.le_of_not_lt hge), hk])
  have hge' : g.clip dc τ ≤ g.clip dc w.2 := clip_mono (hseen.after w hmem)
  rw [Prod.Lex.toLex_le_toLex] at hle
  omega

theorem write_lt_write (hinv : Inv calls s g) {k' : ℕ} {w' : ι × ℕ} (hk : (g.writes dc)[k]? = some w)
    (hk' : (g.writes dc)[k']? = some w') (hlt : k < k') :
    toLex (2 * g.clip dc w.2, 2 * k + 1) < toLex (2 * g.clip dc w'.2, 2 * k' + 1) := by
  obtain ⟨hlen, rfl⟩ := List.getElem?_eq_some_iff.mp hk
  obtain ⟨hlen', rfl⟩ := List.getElem?_eq_some_iff.mp hk'
  have hle : g.clip dc (g.writes dc)[k].2 ≤ g.clip dc (g.writes dc)[k'].2 :=
    clip_mono (pairwise_iff_getElem.mp (hinv.lists.sorted dc) k k' hlen hlen' hlt)
  rw [Prod.Lex.toLex_lt_toLex]
  omega

theorem fold_seen (hinv : Inv calls s g) (hplaced : Placed calls s g key) (hseen : SeenAt calls g dc p τ result)
    (tag : String) :
    result tag =
      lastEffect (fun y => (calls y).effect (g.owner dc) tag) none (((g.writes dc).take p).map Prod.fst) := by
  rw [← hseen.result]
  refine fold_eq_lastEffect tag _ fun c hc => ?_
  obtain ⟨⟨c, τ'⟩, hw, rfl⟩ := mem_map.mp hc
  obtain ⟨k, hk⟩ := mem_iff_getElem?.mp (mem_of_mem_take hw)
  obtain ⟨_, -, -, -, hplace, -⟩ := hplaced c
  obtain ⟨hwrite, hdriver, -⟩ := place_of_write hinv hk hplace
  exact ⟨hwrite, hdriver⟩

theorem exists_undone (hinv : Inv calls s g) (hplaced : Placed calls s g key) {tag : String} {a : ℕ}
    (hdc : dc < s.cache.allocated) (hin : Inside g dc a) (hupdate : (calls y).isUpdate = true)
    (heffect : (calls y).effect (g.owner dc) tag ≠ none) (hout : Outside g dc (ofLex (key y)).1)
    (hle : (ofLex (key y)).1 ≤ a) :
    ∃ z, (calls z).effect (g.owner dc) tag ≠ none ∧ key y < key z ∧ (ofLex (key z)).1 < a := by
  have hlt := lt_of_outside hin hout hle
  obtain ⟨_, -, -, -, hplace, -⟩ := hplaced y
  obtain ⟨dc', k, τ', hdc', howner', hk, hkey⟩ := place_of_update hupdate hplace
  have htime : g.created dc' < τ' := (hinv.lists.times dc' (y, τ') (mem_of_getElem? hk)).1
  have hin' : Inside g dc' (ofLex (key y)).1 := hkey ▸ inside_clip hinv htime
  have howner : g.owner dc' = g.owner dc := howner'.trans (driver_of_effect heffect)
  have hne : dc' ≠ dc := by
    rintro rfl
    exact absurd hin'.1 (by omega)
  rcases hinv.gens.disjoint dc' hdc' dc hdc hne howner with hends | ⟨z, δ, hz, hδ⟩
  · obtain ⟨z, hz, hafter, hbefore⟩ := exists_closer hinv hplaced hends tag
    have hgt := hin.1
    exact ⟨z, howner ▸ hz, hkey ▸ hafter τ' _, by omega⟩
  · have hcreated := (hinv.gens.closed dc z δ hz).2.2.2.1
    have hgt := hin'.1
    omega

theorem lastEffect_read (hinv : Inv calls s g) (hplaced : Placed calls s g key)
    (hsorted : l.Pairwise fun a b => key a ≤ key b) (hdc : dc < s.cache.allocated)
    (hseen : SeenAt calls g dc p τ result) (hle : ∀ y ∈ l, key y ≤ toLex (2 * g.clip dc τ, 2 * p))
    (hmem : ∀ y, key y < toLex (2 * g.clip dc τ, 2 * p) → y ∈ l) (tag : String) :
    lastEffect (fun y => (calls y).effect (g.owner dc) tag) none l = result tag := by
  have hin : Inside g dc (2 * g.clip dc τ) := inside_clip hinv hseen.created
  have hfst : ∀ y ∈ l, (ofLex (key y)).1 ≤ 2 * g.clip dc τ := fun y hy => fst_le_of_le (hle y hy)
  -- a write to the object that comes before the read is one of those it has seen
  have hindex : ∀ {y k τ'}, y ∈ l → (g.writes dc)[k]? = some (y, τ') → key y = toLex (2 * g.clip dc τ', 2 * k + 1) →
      k < p ∧ (((g.writes dc).take p).map Prod.fst)[k]? = some y := fun {y k τ'} hy hk hkey => by
    have hlt : k < p := lt_of_write_le_read hseen hk (hkey ▸ hle y hy)
    exact ⟨hlt, by rw [List.getElem?_map, List.getElem?_take_of_lt hlt, hk]; rfl⟩
  have hfold := fold_seen hinv hplaced hseen tag
  rcases lastEffect_cases (f := fun y => (calls y).effect (g.owner dc) tag) (d := none)
    (((g.writes dc).take p).map Prod.fst) with ⟨hnone, hdefault⟩ | ⟨pre, x, post, hsplit, hnone, hx⟩
  · -- nothing was written to the tag
    rw [hfold, hdefault]
    refine lastEffect_eq_default hsorted fun y hy => ?_
    rcases effect_cases (calls y) (g.owner dc) tag with hno | hno | ⟨hupdate, heffect⟩
    · exact .inl hno
    · exact .inr (.inl hno)
    · obtain ⟨_, -, -, -, hplace, -⟩ := hplaced y
      rcases place_cases hinv hdc rfl heffect hplace with ⟨k, τ', hk, hkey⟩ | hout
      · exact absurd (hnone y (mem_of_getElem? (hindex hy hk hkey).2)) heffect
      · obtain ⟨z, hz, hafter, hbefore⟩ := exists_undone hinv hplaced hdc hin hupdate heffect hout (hfst y hy)
        exact .inr (.inr ⟨z, hmem z (Prod.Lex.lt_iff.mpr (.inl hbefore)), hz, hafter⟩)
  · -- `x` was the last to write to it
    have hxk : (((g.writes dc).take p).map Prod.fst)[pre.length]? = some x := by rw [hsplit]; simp
    have hlt : pre.length < p := by
      have hlen := (List.getElem?_eq_some_iff.mp hxk).1
      rw [length_map, length_take] at hlen
      omega
    rw [List.getElem?_map, List.getElem?_take_of_lt hlt] at hxk
    obtain ⟨⟨c, τx⟩, hk, rfl⟩ := map_eq_some_iff.mp hxk
    obtain ⟨_, -, -, -, hplace, -⟩ := hplaced c
    obtain ⟨-, -, hkeyx⟩ := place_of_write hinv hk hplace
    have htime : g.created dc < τx := (hinv.lists.times dc (c, τx) (mem_of_getElem? hk)).1
    have hinx : Inside g dc (ofLex (key c)).1 := hkeyx ▸ inside_clip hinv htime
    refine lastEffect_eq hsorted (hmem c (hkeyx ▸ write_lt_read hseen hk hlt)) (hfold ▸ hx) fun y hy heffect => ?_
    obtain ⟨_, -, -, -, hplacey, -⟩ := hplaced y
    rcases place_cases hinv hdc rfl heffect hplacey with ⟨j, τy, hj, hkeyy⟩ | hout
    · rcases Nat.lt_trichotomy j pre.length with hjk | rfl | hjk
      · exact .inr (hkeyx ▸ hkeyy ▸ write_lt_write hinv hj hk hjk)
      · cases hj.symm.trans hk
        exact .inl rfl
      · have hyj := (hindex hy hj hkeyy).2
        rw [hsplit, List.getElem?_append_right hjk.le, List.getElem?_cons, if_neg (by omega)] at hyj
        exact absurd (hnone y (mem_of_getElem? hyj)) heffect
    · have hlow := lt_of_outside hin hout (hfst y hy)
      have hhigh := hinx.1
      exact .inr (Prod.Lex.lt_iff.mpr (.inl (by omega)))

end

end

/-! ### The order -/

/-- **The cache is linearisable**: when all calls have returned, there is an order of them in which a call that
returned before another one started comes first, and every `GetByDriver` returns what the calls before it make of its
driver. -/
theorem linearisable {n : ℕ} {calls : Fin n → Call} {events : List (Fin n)} {s : State (Fin n)}
    (hrun : Run (step calls) (fun _ _ => True) {} events s) (hdone : ∀ i, ∃ result, s.phase i = .done result) :
    ∃ order : List (Fin n), order.Perm (List.finRange n) ∧ ∀ pre b post, order = pre ++ b :: post →
      (∀ a, Precedes s a b → a ∈ pre) ∧
      ∀ driver, calls b = .getByDriver driver → s.phase b = .done (replay (pre.map calls) driver) := by
  obtain ⟨g, hinv⟩ := inv_run hrun
  obtain ⟨key, hplaced⟩ := placed_of_done hinv hdone
  refine ⟨byKey key (List.finRange n), byKey_perm key _, fun pre b post hsplit => ?_⟩
  have hsorted := byKey_sorted key (List.finRange n)
  have hall : ∀ c, c ∈ pre ++ b :: post := fun c =>
    hsplit ▸ (byKey_perm key (List.finRange n)).mem_iff.mpr (mem_finRange c)
  rw [hsplit] at hsorted
  have hmem : ∀ y, key y < key b → y ∈ pre := fun y hlt => mem_of_key_lt hsorted (hall y) hlt
  refine ⟨fun a ha => hmem a (key_lt_of_precedes hplaced ha), fun driver hget => ?_⟩
  obtain ⟨result, -, -, hphase, hplace, -⟩ := hplaced b
  have hpre : pre.Pairwise fun a b => key a ≤ key b := (pairwise_append.mp hsorted).1
  have hle : ∀ y ∈ pre, key y ≤ key b := (key_le_of_split hsorted).1
  have hdriver : (calls b).driver = driver := by rw [hget]; rfl
  rw [hphase]
  congr 1
  funext tag
  rw [replay_eq_lastEffect]
  generalize hkey : key b = k at hplace hmem hle
  cases hplace with
  | write hcall _ _ _ =>
    rw [hget] at hcall
    cases hcall
  | read _ hdc howner hseen =>
    rw [← hdriver, ← howner]
    exact (lastEffect_read hinv hplaced hpre hdc hseen hle hmem tag).symm
  | absent hcall habsent =>
    rcases hcall with ⟨⟨d, t, hd⟩, -⟩ | ⟨-, hresult⟩
    · cases hget.symm.trans hd
    · rw [hresult, ← hdriver]
      exact (lastEffect_absent hinv hplaced hpre habsent hle hmem tag).symm
  | delete hcall _ _ =>
    obtain ⟨d, hd⟩ := hcall
    cases hget.symm.trans hd

def meterPoint : DataPoint := ⟨"meter", "", "", "power", .bool true, .bool, .good, 0, [], false⟩

/-- A value is stored and read while the driver is deleted. -/
def meterCalls : Fin 3 → Call
  | 0 => .update meterPoint
  | 1 => .getByDriver "meter"
  | 2 => .deleteDriver "meter"

/-- `Update` and `GetByDriver` have the object when `DeleteDriver` takes it out, and use it after that. -/
def meterEvents : List (Fin 3) := [0, 0, 1, 2, 2, 2, 2, 2, 0, 1, 1, 1, 1, 1, 1, 0]

theorem exists_of_over {q : Phase} (h : q.over = true) : ∃ result, q = .done result := by
  cases q with
  | done result => exact ⟨result, rfl⟩
  | _ => cases h

theorem linearisable_meter : ∃ s, Run (step meterCalls) (fun _ _ => True) {} meterEvents s ∧
    (∀ i, ∃ result, s.phase i = .done result) ∧ ∃ order : List (Fin 3), order.Perm (List.finRange 3) ∧
      ∀ pre b post, order = pre ++ b :: post → (∀ a, Precedes s a b → a ∈ pre) ∧
        ∀ driver, meterCalls b = .getByDriver driver → s.phase b = .done (replay (pre.map meterCalls) driver) := by
  refine Run.exists_of_checkedRun (c := fun _ _ => true) (fun _ _ _ => trivial)
    (fun s => [(s.phase 0).over, (s.phase 1).over, (s.phase 2).over])
    [true, true, true] (by decide +kernel) fun s hrun hover => ?_
  simp only [List.cons.injEq, and_true] at hover
  have hdone : ∀ i, ∃ result, s.phase i = .done result := by
    intro i
    match i with
    | 0 => exact exists_of_over hover.1
    | 1 => exact exists_of_over hover.2.1
    | 2 => exact exists_of_over hover.2.2
  exact ⟨hdone, linearisable hrun hdone⟩

end CoreC.Engine.Cache
