/-! The integers of 64-bit words, and powers with a sign in the exponent, by which fractions are
scaled. -/
namespace SignalCoach

/-- Whether an integer fits a signed word. -/
def isSignedWord (n : Int) : Bool := -0x8000000000000000 ≤ n && n < 0x8000000000000000

/-- Whether an integer fits a word, signed or unsigned. -/
def isWord (n : Int) : Bool := -0x8000000000000000 ≤ n && n < 0x10000000000000000

/-- A power of a natural number; one for a negative exponent, where the other side of a fraction is
scaled instead. -/
def power (base : Nat) (exponent : Int) : Nat := Nat.pow base exponent.toNat

end SignalCoach
