import SignalCoach.Double

/-! The shortest decimal that reads back as a given double. -/
namespace SignalCoach.Decimal

def fraction (coefficient : Nat) (exponent : Int) : Nat × Nat :=
  (coefficient * power 10 exponent, power 10 (-exponent))

/-- The least power of ten above `num / den`, searched near the estimate from its power of two. -/
def decimalExponent (num den : Nat) : Int :=
  let estimate := (Double.binaryExponent num den * 1233).fdiv 4096
  let above (k : Int) : Bool := num * power 10 (-k) < den * power 10 k
  ([estimate, estimate + 1].find? above).getD (estimate + 2)

/-- The points of the grid of step `10 ^ exponent` next to the number that read back as it, the
nearer of two first, a tie to the even one. -/
def candidate? (magnitude num den : Nat) (exponent : Int) : Option Nat :=
  let scaledNum := num * power 10 (-exponent)
  let scaledDen := den * power 10 exponent
  let low := scaledNum / scaledDen
  let readsBack (c : Nat) : Bool :=
    let (n, d) := fraction c exponent
    Double.nearestMagnitude n d = magnitude
  let nearest := Double.roundDiv scaledNum scaledDen
  let other := if nearest = low then low + 1 else low
  [nearest, other].find? readsBack

/-- Tries ever finer grids, one digit more each time. -/
def search (magnitude num den : Nat) (top : Int) : Nat → Nat → Nat × Int
  | _, 0 => (0, 0)
  | digits, fuel + 1 =>
    let exponent := top - digits
    match candidate? magnitude num den exponent with
    | some c => (c, exponent)
    | none => search magnitude num den top (digits + 1) fuel

/-- Coefficient and exponent of ten of the shortest decimal that reads back as a finite magnitude.
Seventeen digits always do. -/
def shortest (magnitude : Nat) : Nat × Int :=
  let (num, den) := Double.ratio magnitude
  search magnitude num den (decimalExponent num den) 1 17

end SignalCoach.Decimal
