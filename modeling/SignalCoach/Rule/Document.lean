import SignalCoach.Json.Value
import SignalCoach.Rule.Basic

/-! Rules as documents, in the folded form: every condition carries its kind, and every member is
written out. -/
namespace SignalCoach.Rule

def Operand.document : Operand → Value
  | .number x => .double x
  | .path p => .str p
  | .reference r => .object [("value", .ofOption .double r.value),
      ("path", .ofOption .str r.path)]

def Timeframe.document : Timeframe → Value
  | .minutes n => .int n
  | .label s => .str s

def Condition.document : Condition → Value
  | .compare left op right => .object [("kind", .str Kind.compare.name),
      ("left", left.document), ("op", .str op), ("right", right.document)]
  | .touch series band tolerance => .object [("kind", .str Kind.touch.name),
      ("series", series.document), ("band", band.document), ("tolerance_pct", .double tolerance)]
  | .cross a b direction lookback => .object [("kind", .str Kind.cross.name), ("a", .str a),
      ("b", .str b), ("direction", .str direction.name), ("lookback_candles", .int lookback)]
  | .marketOpen minutes => .object [("kind", .str Kind.marketOpen.name),
      ("minutes", .double minutes)]
  | .higherTimeframe timeframe inner => .object [("kind", .str Kind.higherTimeframe.name),
      ("timeframe", timeframe.document), ("condition", inner.document)]

def conditions : Option (List Condition) → Value :=
  .ofOption fun cs => .arr (cs.map Condition.document)

def Group.document (group : Group) : Value :=
  .object [("all_of", conditions group.allOf), ("any_of", conditions group.anyOf)]

def ScoreSpec.document (spec : ScoreSpec) : Value :=
  .object [("base", .ofOption .double spec.base), ("decay_per_candle_since_cross", .ofOption .double spec.decay)]

def TrafficSpec.document (traffic : TrafficSpec) : Value :=
  .object [("green_if_score_gte", .ofOption .double traffic.green),
    ("yellow_if_score_between",
      .ofOption (fun (low, high) => .arr [.double low, .double high]) traffic.yellow)]

def document (rule : Rule) : Value :=
  .object [("when", .ofOption Group.document rule.when), ("score", .ofOption ScoreSpec.document rule.score),
    ("traffic", .ofOption TrafficSpec.document rule.traffic)]

end SignalCoach.Rule
