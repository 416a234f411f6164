import SignalCoach.Proofs.Crossings
import SignalCoach.Score

/-! What a score can be: a number from zero to one, whatever doubles it is made from. -/
namespace SignalCoach

namespace Double

theorem le_refl {x : Double} (hx : x.isNaN = false) : x ≤ x := ⟨hx, hx, Int.le_refl _⟩

theorem lt_irrefl (x : Double) : ¬ x < x := fun h => Int.lt_irrefl _ h.2.2

theorem le_of_lt {x y : Double} (h : x < y) : x ≤ y := ⟨h.1, h.2.1, Int.le_of_lt h.2.2⟩

theorem le_trans {x y z : Double} (hxy : x ≤ y) (hyz : y ≤ z) : x ≤ z :=
  ⟨hxy.1, hyz.2.1, Int.le_trans hxy.2.2 hyz.2.2⟩

theorem lt_of_le_of_lt {x y z : Double} (hxy : x ≤ y) (hyz : y < z) : x < z :=
  ⟨hxy.1, hyz.2.1, Int.lt_of_le_of_lt hxy.2.2 hyz.2.2⟩

theorem lt_of_lt_of_le {x y z : Double} (hxy : x < y) (hyz : y ≤ z) : x < z :=
  ⟨hxy.1, hyz.2.1, Int.lt_of_lt_of_le hxy.2.2 hyz.2.2⟩

end Double

namespace Score

open Feature

/-- What a double becomes in the unit interval: it stays inside, and goes to the end on its side from
outside. What is not a number is on no side, and goes to zero. -/
inductive Clamped (x : Double) : Double → Prop where
  | inside (hzero : .zero < x) (hone : x < .one) : Clamped x x
  | above (hone : .one ≤ x) : Clamped x .one
  | below (hzero : ¬ .zero < x) : Clamped x .zero

theorem clamped_clamp (x : Double) : Clamped x (clamp x) := by
  unfold clamp
  dsimp only
  by_cases hzero : Double.zero < x
  · rw [if_pos hzero]
    by_cases hone : x < Double.one
    · rw [if_pos hone]
      exact .inside hzero hone
    · rw [if_neg hone]
      exact .above (Double.le_of_not_lt hzero.2.1 (by decide) hone)
  · rw [if_neg hzero, if_pos (by decide)]
    exact .below hzero

structure InUnit (x : Double) : Prop where
  number : x.isNaN = false
  nonneg : .zero ≤ x
  le_one : x ≤ .one

theorem inUnit_zero : InUnit .zero := ⟨by decide, by decide, by decide⟩

theorem Clamped.inUnit {x y : Double} (h : Clamped x y) : InUnit y := by
  cases h with
  | inside hzero hone => exact ⟨hone.1, Double.le_of_lt hzero, Double.le_of_lt hone⟩
  | above => exact ⟨by decide, by decide, by decide⟩
  | below => exact inUnit_zero

def decayed (spec : Rule.ScoreSpec) (candles : Option Double) : Double :=
  match decay? spec, candles with
  | some decay, some candles => base spec - decay * candles
  | _, _ => base spec

theorem compute_satisfied (spec : Option Rule.ScoreSpec) {context : Context}
    {candles : Option Double}
    (hcandles : context.numberAt ["meta", "candlesSinceCross"] = .ok candles) :
    compute spec true context = .ok (clamp (decayed (spec.getD {}) candles)) := by
  unfold compute decayed
  rw [hcandles, if_neg (by decide)]
  dsimp only
  cases decay? (spec.getD {}) <;> cases candles <;> rfl

theorem decay?_eq_none {spec : Option Rule.ScoreSpec}
    (h : ∀ decay, spec.bind (·.decay) = some decay → decay.isZero) : decay? (spec.getD {}) = none := by
  cases spec with
  | none => rfl
  | some spec =>
    refine Option.filter_eq_none_iff.2 fun decay hdecay => ?_
    simp [h decay hdecay]

theorem decayed_of_undecayed {spec : Option Rule.ScoreSpec} {candles : Option Double}
    (h : (∀ decay, spec.bind (·.decay) = some decay → decay.isZero) ∨ candles = none) :
    decayed (spec.getD {}) candles = (spec.bind (·.base)).getD .one := by
  have hbase : base (spec.getD {}) = (spec.bind (·.base)).getD .one := by cases spec <;> rfl
  unfold decayed
  rcases h with hdecay | rfl
  · rw [decay?_eq_none hdecay, hbase]
  · cases decay? (spec.getD {}) <;> exact hbase

/-- Where the number of candles can be read, there is a score, and it is a number from zero to one. It
is zero for an unsatisfied rule. For a satisfied one it is the clamped base unless there are a decay
other than zero and a number of candles. -/
theorem compute_inUnit (spec : Option Rule.ScoreSpec) (satisfied : Bool) (context : Context)
    (candles : Option Double)
    (hcandles : context.numberAt ["meta", "candlesSinceCross"] = .ok candles) :
    ∃ score, compute spec satisfied context = .ok score ∧
      InUnit score ∧
      (satisfied = false → score = .zero) ∧
      (satisfied = true →
        (∀ decay, spec.bind (·.decay) = some decay → decay.isZero) ∨ candles = none →
        score = clamp ((spec.bind (·.base)).getD .one)) := by
  cases satisfied with
  | false => exact ⟨.zero, rfl, inUnit_zero, fun _ => rfl, nofun⟩
  | true =>
    refine ⟨_, compute_satisfied spec hcandles, (clamped_clamp _).inUnit, nofun, fun _ h => ?_⟩
    rw [decayed_of_undecayed h]

/-- An infinite base loses an infinite decay for no candle: what is left is not a number. A decay of
negative zero takes nothing from it. -/
theorem compute_inUnit_infinite :
    let infinity := Double.infinity false
    let context : Context :=
      { features := .object [("meta", .object [("candlesSinceCross", .int 0)])], payload := .null }
    let endless : Rule.ScoreSpec := { base := some infinity, decay := some infinity }
    let steady : Rule.ScoreSpec := { base := some infinity, decay := some (.ofMagnitude true 0) }
    context.numberAt ["meta", "candlesSinceCross"] = .ok (some .zero) ∧
      (decayed endless (some .zero)).isNaN ∧
      (∃ score, compute (some endless) true context = .ok score ∧ InUnit score) ∧
      (∀ decay, steady.decay = some decay → decay.isZero) ∧
      ∃ score, compute (some steady) true context = .ok score ∧ score = clamp infinity := by
  intro infinity context endless steady
  have hcandles : context.numberAt ["meta", "candlesSinceCross"] = .ok (some .zero) := rfl
  have hsteady : ∀ decay, steady.decay = some decay → decay.isZero := by
    intro decay hdecay
    obtain rfl : Double.ofMagnitude true 0 = decay := Option.some.inj hdecay
    decide
  obtain ⟨score, hscore, hunit, -⟩ := compute_inUnit (some endless) true context _ hcandles
  obtain ⟨score', hscore', -, -, hbase⟩ := compute_inUnit (some steady) true context _ hcandles
  exact ⟨hcandles, by decide +kernel, ⟨score, hscore, hunit⟩, hsteady, score', hscore',
    hbase rfl (.inl hsteady)⟩

end Score

end SignalCoach
