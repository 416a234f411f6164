import SignalCoach.Double
import SignalCoach.Text.Digit
import SignalCoach.Text.Blank

/-! Decimal numerals and the numbers that texts write. -/
namespace SignalCoach

/-- The number `± coefficient * 10 ^ exponent`. -/
structure Numeral where
  negative : Bool
  coefficient : Nat
  exponent : Int
deriving DecidableEq

namespace Numeral

/-- The nearest double. Numerals that are beyond every finite double, or below half of the least
one, are settled without the power of ten. -/
def toDouble (n : Numeral) : Double :=
  let size := (n.coefficient.log2 : Int)
  if n.coefficient = 0 then .ofMagnitude n.negative 0
  else if 0 ≤ n.exponent ∧ 1030 ≤ size + 3 * n.exponent then .infinity n.negative
  else if n.exponent < 0 ∧ size + 1 + 3 * n.exponent ≤ -1080 then .ofMagnitude n.negative 0
  else .ofMagnitude n.negative <|
    Double.nearestMagnitude (n.coefficient * power 10 n.exponent) (power 10 (-n.exponent))

def takeSign : List Char → Bool × List Char
  | '-' :: rest => (true, rest)
  | '+' :: rest => (false, rest)
  | rest => (false, rest)

def readExponent : List Char → Option Int
  | [] => some 0
  | c :: rest =>
    if c = 'e' ∨ c = 'E' then
      let (negative, digits) := takeSign rest
      if digits.isEmpty ∨ !digits.all Char.isDigit then none
      else
        let n : Int := Text.natOfDigits digits
        some (if negative then -n else n)
    else none

/-- Sign, digits with at most one point among them, exponent; at least one digit. -/
def ofText? (s : List Char) : Option Numeral :=
  let (negative, s) := takeSign s
  let whole := s.takeWhile Char.isDigit
  let afterWhole := s.dropWhile Char.isDigit
  let (fraction, tail) := match afterWhole with
    | '.' :: r => (r.takeWhile Char.isDigit, r.dropWhile Char.isDigit)
    | r => ([], r)
  if whole.isEmpty ∧ fraction.isEmpty then none
  else (readExponent tail).map fun e =>
    { negative, coefficient := Text.natOfDigits (whole ++ fraction), exponent := e - fraction.length }

end Numeral

namespace Double

def lowercase (s : List Char) : List Char := s.map Char.toLower

/-- A numeral, or a signed word for infinity or not a number, in any case. -/
def ofText? (s : List Char) : Option Double :=
  let (negative, rest) := Numeral.takeSign s
  let word := String.ofList (lowercase rest)
  if word = "inf" ∨ word = "infinity" then some (infinity negative)
  else if word = "nan" then some nan
  else (Numeral.ofText? s).map Numeral.toDouble

end Double

namespace Text

/-- Drops underscores that stand between two digits; any other underscore spoils the text. -/
def joinDigits? : List Char → Option (List Char)
  | [] => some []
  | '_' :: _ => none
  | [c] => some [c]
  | c :: '_' :: d :: rest =>
    if c.isDigit && d.isDigit then (joinDigits? (d :: rest)).map (c :: ·) else none
  | c :: rest => (joinDigits? rest).map (c :: ·)

/-- What a number in running text comes down to: spacing around it gone, the digits of every script
spelled in ASCII, groups of digits joined. -/
def plainNumber? (s : String) : Option (List Char) :=
  joinDigits? ((trim isSpacing s.toList).map asciiDigit)

def readDouble? (s : String) : Option Double :=
  (plainNumber? s).bind Double.ofText?

def maxIntDigits : Nat := 4300

/-- Whether an integer has few enough digits to be written as text. The bound is no number for the
elaborator to compute with. -/
@[irreducible]
def isPrintable (n : Int) : Bool := n.natAbs < Nat.pow 10 maxIntDigits

def readInt? (s : String) : Option Int :=
  (plainNumber? s).bind fun cs =>
    let (negative, digits) := Numeral.takeSign cs
    if digits.isEmpty ∨ maxIntDigits < digits.length ∨ !digits.all Char.isDigit then none
    else
      let n : Int := natOfDigits digits
      some (if negative then -n else n)

end Text

end SignalCoach
