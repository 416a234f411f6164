import SignalCoach.Feature.Resolve
import SignalCoach.Rule.Crossing

/-! Whether conditions hold. What cannot be resolved to a number makes its condition fail; an
integer beyond the range of doubles stops the evaluation, and so does a timeframe with too many
digits. -/
namespace SignalCoach.Rule

open Feature

inductive Relation where
  | greater | greaterEqual | less | lessEqual | equal | notEqual
deriving DecidableEq

def Relation.ofSymbol? : String → Option Relation
  | ">" => some .greater
  | ">=" => some .greaterEqual
  | "<" => some .less
  | "<=" => some .lessEqual
  | "==" => some .equal
  | "!=" => some .notEqual
  | _ => none

def Relation.holds : Relation → Double → Double → Bool
  | .greater, x, y => y < x
  | .greaterEqual, x, y => y ≤ x
  | .less, x, y => x < y
  | .lessEqual, x, y => x ≤ y
  | .equal, x, y => x.numEq y
  | .notEqual, x, y => !x.numEq y

/-- A number that is not NaN stands for itself; without one a nonempty path is walked. -/
def Reference.resolve (r : Reference) (context : Context) : Except Overflow (Option Double) :=
  match r.value.filter (!·.isNaN), r.path with
  | some x, _ => .ok (some x)
  | none, some path => context.resolvePath path
  | none, none => .ok none

def Operand.resolve (operand : Operand) (context : Context) : Except Overflow (Option Double) :=
  match operand with
  | .number x => .ok (if x.isNaN then none else some x)
  | .path p => context.resolvePath p
  | .reference r => r.resolve context

/-- The segment under which the features of a timeframe are looked up. -/
def Timeframe.segment : Timeframe → Except Overflow String
  | .minutes n => if Text.isPrintable n then .ok (toString n) else .error (.integerTooLong n)
  | .label s => .ok s

/-- The distance is measured in units of the band, or as it is when the band is zero. -/
def withinBand (price band tolerance : Double) : Bool :=
  let unit := if band.isZero then Double.one else band.abs
  (price - band).abs / unit ≤ tolerance

namespace Condition

def compareHolds (left : Operand) (op : String) (right : Operand) (context : Context) :
    Except Overflow Bool := do
  let x ← left.resolve context
  let y ← right.resolve context
  match x, y, Relation.ofSymbol? op with
  | some x, some y, some relation => pure (relation.holds x y)
  | _, _, _ => pure false

def touchHolds (series band : Operand) (tolerance : Double) (context : Context) :
    Except Overflow Bool := do
  let price ← series.resolve context
  let band ← band.resolve context
  match price, band with
  | some price, some band => pure (withinBand price band tolerance)
  | _, _ => pure false

def crossHolds (a b : String) (direction : Direction) (lookback : Nat) (context : Context) :
    Except Overflow Bool := do
  let a ← context.series a
  let b ← context.series b
  match a, b with
  | some a, some b => pure (findCross a b direction lookback)
  | _, _ => pure false

def marketOpenHolds (minutes : Double) (context : Context) : Except Overflow Bool := do
  match ← context.numberAt ["meta", "minutesSinceMarketOpen"] with
  | some sinceOpen => pure (sinceOpen ≤ minutes)
  | none => pure false

def holds : Condition → Context → Except Overflow Bool
  | .compare left op right, context => compareHolds left op right context
  | .touch series band tolerance, context => touchHolds series band tolerance context
  | .cross a b direction lookback, context => crossHolds a b direction lookback context
  | .marketOpen minutes, context => marketOpenHolds minutes context
  | .higherTimeframe timeframe inner, context => do
    let segment ← timeframe.segment
    match context.subtree ["higherTimeframes", segment] with
    | .obj fields => inner.holds (context.withFeatures (.obj fields))
    | _ => pure false

/-- All of the conditions hold; none is evaluated after the first that does not. -/
def allHold (context : Context) : List Condition → Except Overflow Bool
  | [] => .ok true
  | c :: rest => do
    if ← c.holds context then allHold context rest else pure false

/-- One of the conditions holds; none is evaluated after it. -/
def anyHolds (context : Context) : List Condition → Except Overflow Bool
  | [] => .ok false
  | c :: rest => do
    if ← c.holds context then pure true else anyHolds context rest

end Condition

/-- No group, and a group without lists, holds. -/
def Group.holds (group : Option Group) (context : Context) : Except Overflow Bool :=
  match group with
  | none => .ok true
  | some { allOf := some conditions, .. } => Condition.allHold context conditions
  | some { allOf := none, anyOf := some conditions } => Condition.anyHolds context conditions
  | some { allOf := none, anyOf := none } => .ok true

end SignalCoach.Rule
