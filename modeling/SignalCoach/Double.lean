import SignalCoach.Word

/-! Binary floating-point numbers of 64 bits. A number is its bits; the order is a comparison of
integers read off the bits, so it can be reasoned about, and rounding is exact. -/
namespace SignalCoach

structure Double where
  bits : UInt64
deriving DecidableEq, Inhabited

namespace Double

def signBit : Nat := 0x8000000000000000

def exponentBit : Nat := 0x10000000000000

def magnitude (x : Double) : Nat := x.bits.toNat % signBit

def isNegative (x : Double) : Bool := signBit ≤ x.bits.toNat

/-- The magnitude of infinity; greater ones are not numbers. -/
def infiniteMagnitude : Nat := 0x7ff0000000000000

def isNaN (x : Double) : Bool := infiniteMagnitude < x.magnitude

def isFinite (x : Double) : Bool := x.magnitude < infiniteMagnitude

/-- Both zeros have rank zero; numbers are ordered as their ranks are. -/
def rank (x : Double) : Int :=
  if x.isNegative then -(x.magnitude : Int) else x.magnitude

instance : LE Double := ⟨fun x y => x.isNaN = false ∧ y.isNaN = false ∧ x.rank ≤ y.rank⟩
instance : LT Double := ⟨fun x y => x.isNaN = false ∧ y.isNaN = false ∧ x.rank < y.rank⟩

instance (x y : Double) : Decidable (x ≤ y) :=
  inferInstanceAs (Decidable (_ ∧ _ ∧ _))

instance (x y : Double) : Decidable (x < y) :=
  inferInstanceAs (Decidable (_ ∧ _ ∧ _))

/-- Equality of numbers: the zeros are equal, and what is not a number equals nothing. -/
def numEq (x y : Double) : Bool :=
  !x.isNaN && !y.isNaN && x.rank == y.rank

def ofMagnitude (negative : Bool) (magnitude : Nat) : Double :=
  ⟨UInt64.ofNat ((if negative then signBit else 0) + magnitude % signBit)⟩

def zero : Double := ⟨0⟩
def one : Double := ⟨0x3ff0000000000000⟩
def nan : Double := ⟨0x7ff8000000000000⟩
def infinity (negative : Bool) : Double := ofMagnitude negative infiniteMagnitude

def isZero (x : Double) : Bool := x.magnitude = 0

def abs (x : Double) : Double := ofMagnitude false x.magnitude

def toFloat (x : Double) : Float := Float.ofBits x.bits
def ofFloat (f : Float) : Double := ⟨f.toBits⟩

instance : Sub Double := ⟨fun x y => ofFloat (x.toFloat - y.toFloat)⟩
instance : Mul Double := ⟨fun x y => ofFloat (x.toFloat * y.toFloat)⟩
instance : Div Double := ⟨fun x y => ofFloat (x.toFloat / y.toFloat)⟩

def roundDiv (num den : Nat) : Nat :=
  let q := num / den
  let r := num % den
  if 2 * r < den then q
  else if den < 2 * r then q + 1
  else q + q % 2

/-- The exponent of the power of two at or below `num / den`. -/
def binaryExponent (num den : Nat) : Int :=
  let e : Int := (num.log2 : Int) - (den.log2 : Int)
  if num * power 2 (-e) < den * power 2 e then e - 1 else e

/-- The magnitude nearest to `num / den`, a half to the even one, and infinity from half a unit
above the greatest finite one. The bits count units in the last place, so the carry out of the
significand is the next exponent. -/
def nearestMagnitude (num den : Nat) : Nat :=
  if num = 0 then 0
  else
    let unit := max (binaryExponent num den - 52) (-1074)
    let significand := roundDiv (num * power 2 (-unit)) (den * power 2 unit)
    min infiniteMagnitude ((unit + 1074).toNat * exponentBit + significand)

def ofInt? (n : Int) : Option Double :=
  let m := nearestMagnitude n.natAbs 1
  if m < infiniteMagnitude then some (ofMagnitude (n < 0) m) else none

/-- A finite magnitude as significand and exponent of two. -/
def decompose (magnitude : Nat) : Nat × Int :=
  let exponent : Nat := magnitude / exponentBit
  let fraction := magnitude % exponentBit
  if exponent = 0 then (fraction, -1074) else (exponentBit + fraction, (exponent : Int) - 1075)

def ratio (magnitude : Nat) : Nat × Nat :=
  let (significand, exponent) := decompose magnitude
  (significand * power 2 exponent, power 2 (-exponent))

/-- The integer part, toward zero; none for infinities and what is not a number. -/
def truncate? (x : Double) : Option Int :=
  if x.isFinite then
    let (num, den) := ratio x.magnitude
    let n := Int.ofNat (num / den)
    some (if x.isNegative then -n else n)
  else none

def isIntegral (x : Double) : Bool :=
  x.isFinite && (let (num, den) := ratio x.magnitude; num % den = 0)

end Double

end SignalCoach
