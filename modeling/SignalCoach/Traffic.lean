import SignalCoach.Check.Scalar
import SignalCoach.Feature.Resolve
import SignalCoach.Rule.Basic

/-! Traffic lights: thresholds and the status they give to a score. -/
namespace SignalCoach

inductive Status where
  | red | yellow | green
deriving DecidableEq

namespace Status

def all : List Status := [.red, .yellow, .green]

def name : Status → String
  | .red => "RED"
  | .yellow => "YELLOW"
  | .green => "GREEN"

def ofName? (s : String) : Option Status := all.find? (·.name = s)

/-- Red is the lowest status and green the highest. -/
def level : Status → Nat
  | .red => 0
  | .yellow => 1
  | .green => 2

end Status

/-- Green starts at a score; yellow is a range that holds its lower bound and not its upper. -/
structure Thresholds where
  green : Double
  yellow : Double × Double
deriving DecidableEq

namespace Thresholds

/-- A decimal with a number of places. -/
def places (coefficient places : Nat) : Double :=
  Numeral.toDouble { negative := false, coefficient, exponent := -(places : Int) }

def standard : Thresholds := { green := places 85 2, yellow := (places 6 1, places 85 2) }

def read (v : Value) : Checked Thresholds :=
  Check.record v fun fields =>
    Thresholds.mk <$> Check.withDefault Check.double "green_gte" standard.green fields <*>
      Check.withDefault (Check.pair Check.double) "yellow_range" standard.yellow fields

/-- The number that a threshold reads as. Booleans and text that writes a number count too. -/
def number? : Value → Except Feature.Overflow (Option Double)
  | .bool b => .ok (some (if b then .one else .zero))
  | .int n =>
    match Double.ofInt? n with
    | some x => .ok (some x)
    | none => .error (.integerTooLarge n)
  | .double x => .ok (some x)
  | .str s => .ok (Text.readDouble? s)
  | _ => .ok none

/-- The member under the authoring key, else under the other spelling. -/
def member (fields : Fields) (authoring other : String) : Value :=
  ((fields.get? authoring).or (fields.get? other)).getD .null

def range? : Value → Except Feature.Overflow (Option (Double × Double))
  | .arr [low, high] => do
    match ← number? low with
    | none => pure none
    | some low => pure ((← number? high).map (low, ·))
  | _ => .ok none

/-- The thresholds that a rule set stores. What is missing or malformed falls back, each component
on its own. -/
def ofDocument (document : Value) (fallback : Thresholds) : Except Feature.Overflow Thresholds :=
  match document with
  | .obj fields => do
    let green ← number? (member fields "green_if_score_gte" "greenGte")
    let yellow ← range? (member fields "yellow_if_score_between" "yellowRange")
    pure { green := green.getD fallback.green, yellow := yellow.getD fallback.yellow }
  | _ => .ok fallback

/-- A tag's own thresholds over the defaults. -/
def overridden (traffic : Option Rule.TrafficSpec) (defaults : Thresholds) : Thresholds :=
  match traffic with
  | none => defaults
  | some traffic =>
    { green := traffic.green.getD defaults.green, yellow := traffic.yellow.getD defaults.yellow }

end Thresholds

/-- Green comes before yellow; what is not satisfied is red. -/
def classify (score : Double) (satisfied : Bool) (thresholds : Thresholds) : Status :=
  if satisfied ∧ thresholds.green ≤ score then .green
  else if satisfied ∧ thresholds.yellow.1 ≤ score ∧ score < thresholds.yellow.2 then .yellow
  else .red

end SignalCoach
