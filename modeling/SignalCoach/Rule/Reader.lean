import SignalCoach.Check.Scalar
import SignalCoach.Json.Reader
import SignalCoach.Rule.Wire

/-! Rules from documents. -/
namespace SignalCoach.Rule

open Check

def Reference.read (v : Value) : Checked Reference :=
  record v fun fields =>
    Reference.mk <$> optional double "value" fields <*> optional string "path" fields

def Operand.read (v : Value) : Checked Operand :=
  match v with
  | .str s => .valid (.path s)
  | v => Checked.firstOf [
      ("float", (double v).map .number),
      ("str", (string v).map .path),
      ("RefObject", (Reference.read v).map .reference)]

def Direction.read : Value → Checked Direction
  | .str s =>
    match Direction.ofName? s with
    | some d => .valid d
    | none => .fault .notAWord
  | _ => .fault .notAWord

def Timeframe.read (v : Value) : Checked Timeframe :=
  match v with
  | .str s => .valid (.label s)
  | v => Checked.firstOf [("int", (int v).map .minutes), ("str", (string v).map .label)]

def defaultTolerance : Double := Numeral.toDouble { negative := false, coefficient := 1, exponent := -2 }

/-- The members of a condition of a kind. The condition inside another is read by `inner`. -/
def Condition.readFields (kind : Kind) (inner : Value → Checked Condition) (fields : Fields) :
    Checked Condition :=
  match kind with
  | .compare => .compare <$> required Operand.read "left" fields <*>
      required string "op" fields <*> required Operand.read "right" fields
  | .touch => .touch <$> required Operand.read "series" fields <*>
      required Operand.read "band" fields <*>
      withDefault double "tolerance_pct" defaultTolerance fields
  | .cross => .cross <$> required string "a" fields <*> required string "b" fields <*>
      withDefault Direction.read "direction" .any fields <*>
      withDefault nat "lookback_candles" 1 fields
  | .marketOpen => .marketOpen <$> required double "minutes" fields
  | .higherTimeframe => .higherTimeframe <$> required Timeframe.read "timeframe" fields <*>
      required inner "condition" fields

/-- A condition nested at most `depth` containers deep, folded first. The kind selects the form. -/
def Condition.readAt : Nat → Value → Checked Condition
  | 0, _ => .fault .notACondition
  | depth + 1, v =>
    match unwrap v with
    | .obj fields =>
      match Fields.get? fields "kind" with
      | none => .fault .kindMissing
      | some (.str name) =>
        match Kind.ofName? name with
        | some kind => (readFields kind (readAt depth) fields).within (.name name)
        | none => .fault .kindUnknown
      | some _ => .fault .kindUnknown
    | _ => .fault .notACondition

/-- Every condition inside another lies deeper in the document, so its depth is enough. -/
def Condition.read (v : Value) : Checked Condition := Condition.readAt (v.depth + 1) v

def Group.read (v : Value) : Checked Group :=
  record v fun fields =>
    Group.mk <$> optional (list Condition.read) "all_of" fields <*>
      optional (list Condition.read) "any_of" fields

def ScoreSpec.read (v : Value) : Checked ScoreSpec :=
  record v fun fields =>
    ScoreSpec.mk <$> optional double "base" fields <*>
      optional double "decay_per_candle_since_cross" fields

def TrafficSpec.read (v : Value) : Checked TrafficSpec :=
  record v fun fields =>
    TrafficSpec.mk <$> optional double "green_if_score_gte" fields <*>
      optional (pair double) "yellow_if_score_between" fields

end SignalCoach.Rule

namespace SignalCoach.Rule

inductive Rejection where
  | empty
  | notJson
  | notObject (kind : String)
  | invalid (issues : List Issue)

def Rejection.message? : Rejection → Option String
  | .empty => some "rule is empty"
  | .notJson => some "rule is not valid JSON"
  | .notObject kind => some s!"rule must be an object, got {kind}"
  | .invalid _ => none

open Check

def readFields (fields : Fields) : Checked Rule :=
  Rule.mk <$> optional Group.read "when" fields <*> optional ScoreSpec.read "score" fields <*>
    optional TrafficSpec.read "traffic" fields

def ofDocument : Value → Except Rejection Rule
  | .obj fields =>
    match readFields fields with
    | .valid rule => .ok rule
    | .invalid issues => .error (.invalid issues)
  | v => .error (.notObject v.kindName)

def ofJson (document : Option Value) : Except Rejection Rule :=
  match document with
  | some v => ofDocument v
  | none => .error .notJson

/-- A rule as a tag stores it: an object, or the JSON text of one. -/
def read : Value → Except Rejection Rule
  | .null => .error .empty
  | .str text => ofJson (Json.read? .strict text)
  | v => ofDocument v

def readBytes (bytes : List UInt8) : Except Rejection Rule := ofJson (Json.readBytes? .strict bytes)

end SignalCoach.Rule
