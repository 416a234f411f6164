import SignalCoach.Double

/-! Tag rules: a group of conditions, a score and traffic-light thresholds. -/
namespace SignalCoach.Rule

/-- A reference by object; a number wins over a path. -/
structure Reference where
  value : Option Double
  path : Option String

inductive Operand where
  | number (x : Double)
  | path (path : String)
  | reference (r : Reference)

inductive Direction where
  | up | down | any
deriving DecidableEq

def Direction.name : Direction → String
  | .up => "up"
  | .down => "down"
  | .any => "any"

def Direction.ofName? : String → Option Direction
  | "up" => some .up
  | "down" => some .down
  | "any" => some .any
  | _ => none

inductive Timeframe where
  | minutes (n : Int)
  | label (s : String)

def Timeframe.text : Timeframe → String
  | .minutes n => toString n
  | .label s => s

inductive Condition where
  | compare (left : Operand) (op : String) (right : Operand)
  /-- The series is within a fraction of the band. -/
  | touch (series band : Operand) (tolerance : Double)
  /-- Series `a` crosses series `b` within the last candles. -/
  | cross (a b : String) (direction : Direction) (lookback : Nat)
  | marketOpen (minutes : Double)
  /-- The inner condition holds on the features of another timeframe. -/
  | higherTimeframe (timeframe : Timeframe) (inner : Condition)

/-- The kinds of conditions, in the order in which a key is looked for. -/
inductive Kind where
  | compare | touch | cross | marketOpen | higherTimeframe
deriving DecidableEq

namespace Kind

def all : List Kind := [.compare, .touch, .cross, .marketOpen, .higherTimeframe]

def name : Kind → String
  | .compare => "compare"
  | .touch => "touch"
  | .cross => "cross"
  | .marketOpen => "market_open_within_min"
  | .higherTimeframe => "higher_tf_confirms"

def ofName? (s : String) : Option Kind := all.find? (·.name = s)

end Kind

def Condition.kind : Condition → Kind
  | .compare .. => .compare
  | .touch .. => .touch
  | .cross .. => .cross
  | .marketOpen _ => .marketOpen
  | .higherTimeframe .. => .higherTimeframe

/-- Conditions that must all hold, or of which one must; the first list wins over the second. -/
structure Group where
  allOf : Option (List Condition)
  anyOf : Option (List Condition)

structure ScoreSpec where
  base : Option Double := none
  decay : Option Double := none

structure TrafficSpec where
  green : Option Double
  yellow : Option (Double × Double)

end SignalCoach.Rule

namespace SignalCoach

structure Rule where
  when : Option Rule.Group
  score : Option Rule.ScoreSpec
  traffic : Option Rule.TrafficSpec

end SignalCoach
