import SignalCoach.Feature.Lookup

/-! Numbers found in the two documents that a rule is evaluated against. -/
namespace SignalCoach.Feature

/-- An evaluation met an integer that it could not use. -/
inductive Overflow where
  /-- Beyond the range of doubles, where a number was wanted. -/
  | integerTooLarge (n : Int)
  /-- With too many digits, where text was wanted. -/
  | integerTooLong (n : Int)
deriving DecidableEq

structure Context where
  features : Value
  payload : Value

/-- The number that a value is. Booleans are no numbers, and neither is what is not a number. -/
def number? : Value → Except Overflow (Option Double)
  | .int n =>
    match Double.ofInt? n with
    | some x => .ok (some x)
    | none => .error (.integerTooLarge n)
  | .double x => .ok (if x.isNaN then none else some x)
  | _ => .ok none

namespace Context

def withFeatures (context : Context) (features : Value) : Context := { context with features }

/-- Features come before payload; the first root that has a value there decides. -/
def resolvePath (context : Context) (path : String) : Except Overflow (Option Double) :=
  match splitPath path with
  | [] => .ok none
  | segments =>
    match lookup context.features segments with
    | .null => number? (lookup context.payload segments)
    | v => number? v

def numberAt (context : Context) (segments : List String) : Except Overflow (Option Double) :=
  number? (lookup context.features segments)

def subtree (context : Context) (segments : List String) : Value :=
  lookup context.features segments

/-- An entry of a series: a number, or text that writes one. -/
def entry? : Value → Except Overflow (Option Double)
  | .str s => .ok ((Text.readDouble? s).filter fun x => !x.isNaN)
  | v => number? v

def numbers : List Value → Except Overflow (List Double)
  | [] => .ok []
  | v :: rest => do
    let x ← entry? v
    let xs ← numbers rest
    pure (x.toList ++ xs)

/-- The list `series.<name>` of the features without the entries that are no numbers. -/
def series (context : Context) (name : String) : Except Overflow (Option (List Double)) :=
  match lookup context.features ["series", name] with
  | .arr items => (numbers items).map some
  | _ => .ok none

/-- A reference as it was written: a number, a path, or an object with `value` or `path`. -/
def resolveValue (context : Context) : Value → Except Overflow (Option Double)
  | .obj fields => do
    match ← number? ((Fields.get? fields "value").getD .null) with
    | some x => pure (some x)
    | none =>
      match Fields.get? fields "path" with
      | some (.str path) => context.resolvePath path
      | _ => pure none
  | .str path => context.resolvePath path
  | v => number? v

end Context

end SignalCoach.Feature
