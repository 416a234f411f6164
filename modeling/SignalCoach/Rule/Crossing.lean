import SignalCoach.Rule.Basic

/-! Crossings of two series. -/
namespace SignalCoach.Rule

def crossedUp (prevA prevB currA currB : Double) : Bool := prevA < prevB ∧ currB ≤ currA

def crossedDown (prevA prevB currA currB : Double) : Bool := prevB < prevA ∧ currA ≤ currB

def Direction.crossed (direction : Direction) (prevA prevB currA currB : Double) : Bool :=
  match direction with
  | .up => crossedUp prevA prevB currA currB
  | .down => crossedDown prevA prevB currA currB
  | .any => crossedUp prevA prevB currA currB || crossedDown prevA prevB currA currB

def anyStep (related : α → α → Bool) : List α → Bool
  | x :: y :: rest => related x y || anyStep related (y :: rest)
  | _ => false

def lastOf (n : Nat) (xs : List α) : List α := xs.drop (xs.length - n)

/-- The series are read over their common length, in the last `lookback` steps from one entry to
the next. -/
def findCross (a b : List Double) (direction : Direction) (lookback : Nat) : Bool :=
  anyStep (fun prev curr => direction.crossed prev.1 prev.2 curr.1 curr.2)
    (lastOf (lookback + 1) (a.zip b))

end SignalCoach.Rule
