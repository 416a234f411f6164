import SignalCoach.Feature.Resolve
import SignalCoach.Rule.Basic

/-! Scores of satisfied rules, between zero and one. -/
namespace SignalCoach.Score

open Feature

/-- Into the range from zero to one. What is not a number becomes zero, and so does negative zero. -/
def clamp (x : Double) : Double :=
  let atLeastZero := if Double.zero < x then x else .zero
  if atLeastZero < Double.one then atLeastZero else .one

def base (spec : Rule.ScoreSpec) : Double := spec.base.getD .one

/-- The decay, unless it is absent or zero. -/
def decay? (spec : Rule.ScoreSpec) : Option Double := spec.decay.filter (!·.isZero)

/-- An unsatisfied rule scores zero. A satisfied one starts at the base and loses the decay for
every candle since the cross. -/
def compute (spec : Option Rule.ScoreSpec) (satisfied : Bool) (context : Context) :
    Except Overflow Double :=
  if !satisfied then .ok .zero
  else
    let spec := spec.getD {}
    match decay? spec with
    | none => .ok (clamp (base spec))
    | some decay => do
      match ← context.numberAt ["meta", "candlesSinceCross"] with
      | none => pure (clamp (base spec))
      | some candles => pure (clamp (base spec - decay * candles))

end SignalCoach.Score
