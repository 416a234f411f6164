import SignalCoach.Decimal.Shortest

/-! Numbers as text. -/
namespace SignalCoach.Decimal

def digits (n : Nat) : List Char := (Nat.repr n).toList

def significant (coefficient : Nat) : List Char :=
  ((digits coefficient).reverse.dropWhile (· = '0')).reverse

structure Layout where
  /-- The least power of ten of a first digit that is written positionally. -/
  lowest : Int
  /-- The first power of ten that is written with an exponent. -/
  highest : Int
  /-- The exponent has a sign and two digits at least. -/
  wideExponent : Bool

def zeros (n : Nat) : List Char := List.replicate n '0'

def Layout.exponentText (layout : Layout) (e : Int) : List Char :=
  let d := digits e.natAbs
  if layout.wideExponent then
    (if e < 0 then '-' else '+') :: (zeros (2 - d.length) ++ d)
  else if e < 0 then '-' :: d else d

/-- Digits `d₁d₂…` of the number `d₁.d₂… * 10 ^ e`. A number written positionally has a point and a
digit on each side of it. -/
def Layout.positional (ds : List Char) (e : Int) : List Char :=
  if e < 0 then '0' :: '.' :: (zeros (-e - 1).toNat ++ ds)
  else
    let whole := e.toNat + 1
    if ds.length ≤ whole then ds ++ zeros (whole - ds.length) ++ ['.', '0']
    else ds.take whole ++ '.' :: ds.drop whole

def Layout.scientific (layout : Layout) (ds : List Char) (e : Int) : List Char :=
  let mantissa := match ds with
    | first :: second :: rest => first :: '.' :: second :: rest
    | ds => ds
  mantissa ++ 'e' :: layout.exponentText e

def Layout.body (layout : Layout) (coefficient : Nat) (exponent : Int) : List Char :=
  let ds := significant coefficient
  let e := exponent + ((digits coefficient).length : Int) - 1
  if layout.lowest ≤ e ∧ e < layout.highest then Layout.positional ds e
  else layout.scientific ds e

/-- A finite double in its shortest form. -/
def Layout.write (layout : Layout) (x : Double) : String :=
  let sign := if x.isNegative then ['-'] else []
  let body :=
    if x.isZero then ['0', '.', '0']
    else layout.body (shortest x.magnitude).1 (shortest x.magnitude).2
  String.ofList (sign ++ body)

/-- A double with a fixed number of places, the exact value rounded, a half to the even digit. -/
def fixed (places : Nat) (x : Double) : String :=
  let sign := if x.isNegative then "-" else ""
  if x.isNaN then "nan"
  else if !x.isFinite then sign ++ "inf"
  else
    let (num, den) := Double.ratio x.magnitude
    let ds := digits (Double.roundDiv (num * power 10 places) den)
    let ds := zeros (places + 1 - ds.length) ++ ds
    let whole := ds.length - places
    sign ++ String.ofList (ds.take whole) ++ "." ++ String.ofList (ds.drop whole)

/-- The form of a bare double in running text: positional from 0.0001 to 10¹⁶. -/
def plain : Layout := { lowest := -4, highest := 16, wideExponent := true }

def display (x : Double) : String :=
  if x.isNaN then "nan"
  else if !x.isFinite then (if x.isNegative then "-inf" else "inf")
  else plain.write x

end SignalCoach.Decimal
