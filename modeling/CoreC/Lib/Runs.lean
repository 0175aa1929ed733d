import Mathlib.Data.List.Basic

/-! # Runs of a step function

A run applies a partial step function to a list of events, every one of which meets a condition on the state it is
applied in. What each such step preserves, the run preserves (`Run.invariant`); the condition can be strengthened by an
invariant (`Run.strengthen`), two conditions can be joined (`Run.and`), and if not all steps meet one there is a first
step that does not (`Run.all_or_exists`). A property that each step keeps exactly under a condition tells whether every
step met it (`Run.exact`). -/

namespace CoreC.Lib.Runs

variable {σ α : Type} {step : σ → α → Option σ} {P : σ → α → Prop} {as : List α} {s s' : σ} {I : σ → Prop}
  {Q : σ → α → Prop}

/-- From `s`, through the events, to a state; `P` holds at every step. -/
inductive Run (step : σ → α → Option σ) (P : σ → α → Prop) : σ → List α → σ → Prop
  | nil (s : σ) : Run step P s [] s
  | cons {s s' s'' : σ} {a : α} {as : List α} (hP : P s a) (hstep : step s a = some s')
      (hrun : Run step P s' as s'') : Run step P s (a :: as) s''

theorem Run.invariant (h : ∀ s a s', P s a → step s a = some s' → I s → I s')
    (hrun : Run step P s as s') : I s → I s' := by
  induction hrun with
  | nil s => exact id
  | cons hP hstep _ ih => exact fun hI => ih (h _ _ _ hP hstep hI)

theorem Run.append {s'' : σ} {bs : List α} (hrun : Run step P s as s') (htail : Run step P s' bs s'') :
    Run step P s (as ++ bs) s'' := by
  induction hrun with
  | nil s => exact htail
  | cons hP hstep _ ih => exact .cons hP hstep (ih htail)

theorem Run.strengthen (h : ∀ s a s', P s a → step s a = some s' → I s → I s' ∧ Q s a)
    (hrun : Run step P s as s') : I s → Run step Q s as s' := by
  induction hrun with
  | nil s => exact fun _ => .nil s
  | cons hP hstep _ ih =>
    intro hI
    obtain ⟨hI', hQ⟩ := h _ _ _ hP hstep hI
    exact .cons hQ hstep (ih hI')

theorem Run.and {s'' : σ} (hP : Run step P s as s')
    (hQ : Run step Q s as s'') : Run step (fun s a => P s a ∧ Q s a) s as s' := by
  induction hP with
  | nil s => exact .nil s
  | cons ha hstep _ ih =>
    cases hQ with
    | cons hb hstep' htail =>
      rw [hstep] at hstep'
      cases hstep'
      exact .cons ⟨ha, hb⟩ hstep (ih htail)

theorem Run.all_or_exists (Q : σ → α → Prop) (hrun : Run step P s as s') :
    Run step Q s as s' ∨ ∃ as₁ as₂ s₁ s₂ a, Run step P s as₁ s₁ ∧ ¬ Q s₁ a ∧ step s₁ a = some s₂ ∧
      Run step P s₂ as₂ s' := by
  induction hrun with
  | nil s => exact .inl (.nil s)
  | @cons s s₁ s' a as hP hstep htail ih =>
    by_cases hQ : Q s a
    · rcases ih with hall | ⟨as₁, as₂, t₁, t₂, b, hpre, hnot, hb, hpost⟩
      · exact .inl (.cons hQ hstep hall)
      · exact .inr ⟨a :: as₁, as₂, t₁, t₂, b, .cons hP hstep hpre, hnot, hb, hpost⟩
    · exact .inr ⟨[], as, s, s₁, a, .nil s, hQ, hstep, htail⟩

theorem Run.exact (h : ∀ s a s', P s a → step s a = some s' → (I s' ↔ I s ∧ Q s a))
    (hrun : Run step P s as s') : I s' ↔ I s ∧ Run step Q s as s' := by
  induction hrun with
  | nil s => exact ⟨fun hI => ⟨hI, .nil s⟩, And.left⟩
  | cons hP hstep _ ih =>
    rw [ih, h _ _ _ hP hstep]
    constructor
    · rintro ⟨⟨hI, hQ⟩, htail⟩
      exact ⟨hI, .cons hQ hstep htail⟩
    · rintro ⟨hI, hall⟩
      cases hall with
      | cons hQ hstep' htail =>
        rw [hstep] at hstep'
        cases hstep'
        exact ⟨⟨hI, hQ⟩, htail⟩

/-- A property of states that a step keeps exactly under a condition, as long as an invariant holds: it holds after
every step of a run exactly if every step meets the condition. -/
theorem Run.iff_of_step {J : σ → Prop} (hJ : ∀ s a s', step s a = some s' → J s → J s')
    (h : ∀ s a s', step s a = some s' → I s → J s → (I s' ↔ Q s a)) (hrun : Run step P s as s') (hI : I s) (hJs : J s) :
    Run step (fun s a => ∀ s', step s a = some s' → I s') s as s' ↔ Run step Q s as s' := by
  induction hrun with
  | nil s => exact ⟨fun _ => .nil s, fun _ => .nil s⟩
  | @cons s s₁ s' a as _ hstep _ ih =>
    have hiff := h s a s₁ hstep hI hJs
    constructor
    · intro hall
      cases hall with
      | cons ha hstep' htail =>
        have hI₁ := ha s₁ hstep
        rw [hstep] at hstep'
        cases hstep'
        exact .cons (hiff.mp hI₁) hstep ((ih hI₁ (hJ s a s₁ hstep hJs)).mp htail)
    · intro hall
      cases hall with
      | cons ha hstep' htail =>
        rw [hstep] at hstep'
        cases hstep'
        have hI₁ := hiff.mpr ha
        refine .cons (fun s₂ hs₂ => ?_) hstep ((ih hI₁ (hJ s a s₁ hstep hJs)).mpr htail)
        rw [hstep] at hs₂
        cases hs₂
        exact hI₁

/-- What is true of every run is true of the one that is given. -/
theorem Run.exists_of_forall {R T : σ → Prop} (hT : ∀ s', Run step P s as s' → T s')
    (h : ∃ s', Run step P s as s' ∧ (T s' → R s')) : ∃ s', Run step P s as s' ∧ R s' := by
  obtain ⟨s', hrun, hR⟩ := h
  exact ⟨s', hrun, hR (hT s' hrun)⟩

/-! ### Runs that are computed -/

/-- The state at the end of a run, if every event meets the check. -/
def checkedRun (step : σ → α → Option σ) (check : σ → α → Bool) : σ → List α → Option σ
  | s, [] => some s
  | s, a :: as => if check s a then (step s a).bind (checkedRun step check · as) else none

theorem Run.of_checkedRun {check : σ → α → Bool} (h : ∀ s a, check s a = true → P s a) :
    ∀ {as : List α} {s s' : σ}, checkedRun step check s as = some s' → Run step P s as s'
  | [], s, s', hrun => by
    cases Option.some.inj hrun
    exact .nil s
  | a :: as, s, s', hrun => by
    rw [checkedRun] at hrun
    by_cases hcheck : check s a = true
    · rw [if_pos hcheck] at hrun
      obtain ⟨t, ht, htail⟩ := Option.bind_eq_some_iff.mp hrun
      exact .cons (h s a hcheck) ht (Run.of_checkedRun h htail)
    · rw [if_neg hcheck] at hrun
      cases hrun

/-- A run is computed, and of its last state the value `b` of `f`. -/
theorem Run.exists_of_checkedRun {β : Type} {R : σ → Prop} {c : σ → α → Bool}
    (h : ∀ s a, c s a = true → P s a) (f : σ → β) (b : β) (hb : (checkedRun step c s as).map f = some b)
    (hR : ∀ s', Run step P s as s' → f s' = b → R s') : ∃ s', Run step P s as s' ∧ R s' := by
  obtain ⟨s', hs', hf⟩ := Option.map_eq_some_iff.mp hb
  exact ⟨s', Run.of_checkedRun h hs', hR s' (Run.of_checkedRun h hs') hf⟩

end CoreC.Lib.Runs
