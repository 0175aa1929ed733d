import Mathlib.Data.List.Basic

/-! # Loops with an early return

A `range` loop whose body may return an error: the body is a step on a state, and the first error ends
the loop with the state the failing step leaves. The rule for such a loop (`loop_outcome`) is the one
of a `while` loop with two postconditions: an invariant, which may speak about the elements visited so
far, for the steps that succeed, and a condition on the state and the error for the step that does
not. -/

namespace CoreC.Lib.RangeLoop

variable {α σ ε : Type}

def loop (step : σ → α → σ × Option ε) : List α → σ → σ × Option ε
  | [], s => (s, none)
  | a :: l, s =>
    match step s a with
    | (s', none) => loop step l s'
    | (s', some e) => (s', some e)

/-- The two postconditions of a step: `P` if it succeeds, `Q` if it fails. -/
def Outcome (P : σ → Prop) (Q : ε → σ → Prop) : σ × Option ε → Prop
  | (s, none) => P s
  | (s, some e) => Q e s

@[simp] theorem outcome_ok {P : σ → Prop} {Q : ε → σ → Prop} {s : σ} : Outcome P Q (s, none) ↔ P s := Iff.rfl

variable {step : σ → α → σ × Option ε} {P : List α → σ → Prop} {Q : ε → σ → Prop}

/-- **The loop rule.** In the step for `a`, `d` are the elements already visited. -/
theorem loop_outcome : ∀ l d {s : σ},
    (∀ d' a r s, d ++ l = d' ++ a :: r → P d' s → Outcome (P (d' ++ [a])) Q (step s a)) →
      P d s → Outcome (P (d ++ l)) Q (loop step l s)
  | [], d, s, _, hP => by simpa [loop] using hP
  | a :: l, d, s, h, hP => by
    have hs := h d a l s rfl hP
    rw [loop]
    split
    · next s' heq =>
      rw [heq, outcome_ok] at hs
      have := loop_outcome l (d ++ [a]) (fun d' a' r s hd => h d' a' r s (by simpa using hd)) hs
      simpa using this
    · next s' e heq =>
      rw [heq] at hs
      exact hs

theorem loop_skip {s : σ} (h : ∀ a, step s a = (s, none)) : ∀ l, loop step l s = (s, none)
  | [] => rfl
  | a :: l => by rw [loop, h a]; exact loop_skip h l

theorem loop_fails {a : α} (h : ∀ s, (step s a).2 ≠ none) : ∀ {l : List α}, a ∈ l → ∀ s, (loop step l s).2 ≠ none
  | b :: l, hmem, s => by
    rw [loop]
    split
    · next s' heq =>
      rcases List.mem_cons.mp hmem with rfl | hmem
      · exact absurd (congrArg Prod.snd heq) (h s)
      · exact loop_fails h hmem s'
    · nofun

end CoreC.Lib.RangeLoop
