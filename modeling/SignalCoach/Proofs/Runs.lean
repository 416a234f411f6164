import Mathlib.Tactic.Common

/-! Runs of a system step by step, under a rule for what may be done next. -/
namespace SignalCoach

variable {σ ι : Type}

/-- Every step is allowed after those before it. -/
def Follows (step : σ → ι → σ) (allowed : σ → ι → Prop) : σ → List ι → Prop
  | _, [] => True
  | s, i :: rest => allowed s i ∧ Follows step allowed (step s i) rest

namespace Follows

variable {step : σ → ι → σ} {allowed : σ → ι → Prop} {s : σ}

theorem append_iff {first second : List ι} : Follows step allowed s (first ++ second) ↔
    Follows step allowed s first ∧ Follows step allowed (first.foldl step s) second := by
  induction first generalizing s with
  | nil => simp [Follows]
  | cons i rest ih => simp [Follows, ih, and_assoc]

/-- What every allowed step preserves, a run preserves. -/
theorem induction {P : σ → Prop} (hstep : ∀ s i, allowed s i → P s → P (step s i)) {steps : List ι}
    (hsteps : Follows step allowed s steps) (hP : P s) : P (steps.foldl step s) := by
  induction steps generalizing s with
  | nil => exact hP
  | cons i rest ih => exact ih hsteps.2 (hstep s i hsteps.1 hP)

end Follows

end SignalCoach
