import SignalCoach.Decimal.Numeral
import SignalCoach.Json.Token
import SignalCoach.Json.Value
import SignalCoach.Text.Split

/-! What a plain scalar means: null, a boolean, a number, or its own text. -/
namespace SignalCoach.Yaml

def nullWords : List String := ["", "~", "null", "Null", "NULL"]

def trueWords : List String :=
  ["yes", "Yes", "YES", "true", "True", "TRUE", "on", "On", "ON"]

def falseWords : List String :=
  ["no", "No", "NO", "false", "False", "FALSE", "off", "Off", "OFF"]

/-- Words that stand for no value. -/
def markWords : List String := ["<<", "="]

def infinityWords : List String := [".inf", ".Inf", ".INF"]
def nanWords : List String := [".nan", ".NaN", ".NAN"]

def withoutUnderscores (s : List Char) : List Char := s.filter (· ≠ '_')

def isDigitOrUnderscore (c : Char) : Bool := c.isDigit || c = '_'

def natOfBase (base : Nat) (digits : List Char) : Nat :=
  digits.foldl (fun n c => n * base + (Json.hexDigit? c).getD 0) 0

/-- Digits of a base after their mark, at least one of them no underscore. -/
def based? (base : Nat) (isDigit : Char → Bool) (s : List Char) : Option Nat :=
  let digits := withoutUnderscores s
  if digits.isEmpty ∨ !digits.all isDigit then none else some (natOfBase base digits)

/-- Sixty of one place make one of the place before. -/
def sixties (parts : List Nat) : Nat := parts.foldl (fun n part => n * 60 + part) 0

/-- A place after the first: one digit, or two up to 59. -/
def sixtieth? (s : List Char) : Option Nat :=
  match s with
  | [b] => if b.isDigit then some (Text.natOfDigits s) else none
  | [a, b] => if '0' ≤ a ∧ a ≤ '5' ∧ b.isDigit then some (Text.natOfDigits s) else none
  | _ => none

def isOctal (c : Char) : Bool := '0' ≤ c && c ≤ '7'
def isBinary (c : Char) : Bool := c = '0' || c = '1'

def nat? (s : List Char) : Option Nat :=
  match s with
  | '0' :: 'b' :: rest => based? 2 isBinary rest
  | '0' :: 'x' :: rest => based? 16 (fun c => (Json.hexDigit? c).isSome) rest
  | ['0'] => some 0
  | '0' :: rest =>
    if rest.all (· = '_') then some 0 else based? 8 isOctal rest
  | c :: _ =>
    match Text.pieces ':' s with
    | first :: others =>
      if c.isDigit && first.all isDigitOrUnderscore then do
        let others ← others.mapM sixtieth?
        pure (sixties (Text.natOfDigits (withoutUnderscores first) :: others))
      else none
    | [] => none
  | [] => none

def int? (s : List Char) : Option Int :=
  let (negative, digits) := Numeral.takeSign s
  (nat? digits).map fun n => if negative then -(n : Int) else n

def isExponent (s : List Char) : Bool :=
  match s with
  | [] => true
  | e :: sign :: digits =>
    (e = 'e' || e = 'E') && (sign = '-' || sign = '+') && !digits.isEmpty && digits.all Char.isDigit
  | _ => false

/-- Digits, a point, more digits or none, an exponent or none. Without a sign the digits in front
may be missing. -/
def isDecimal (signed : Bool) (s : List Char) : Bool :=
  let whole := s.takeWhile isDigitOrUnderscore
  match s.dropWhile isDigitOrUnderscore with
  | '.' :: rest =>
    let fraction := rest.takeWhile isDigitOrUnderscore
    isExponent (rest.dropWhile isDigitOrUnderscore) &&
      match whole, fraction with
      | [], c :: _ => !signed && c.isDigit
      | [], [] => false
      | c :: _, _ => c.isDigit
  | _ => false

/-- Places of sixty before a point; digits after it. -/
def sixtyDecimal? (s : List Char) : Option Double :=
  let whole := s.takeWhile (· ≠ '.')
  match s.dropWhile (· ≠ '.'), Text.pieces ':' whole with
  | '.' :: fraction, first :: second :: others => do
    if !(first.head?.any Char.isDigit) ∨ !first.all isDigitOrUnderscore ∨
        !fraction.all isDigitOrUnderscore then none
    else
      let others ← (second :: others).mapM sixtieth?
      let n := sixties (Text.natOfDigits (withoutUnderscores first) :: others)
      let fraction := withoutUnderscores fraction
      pure { negative := false, coefficient := Text.natOfDigits ((Nat.repr n).toList ++ fraction),
             exponent := -fraction.length : Numeral }.toDouble
  | _, _ => none

def double? (s : List Char) : Option Double :=
  let text := String.ofList s
  let (negative, rest) := Numeral.takeSign s
  let sign (x : Double) : Double := if negative then .ofMagnitude (!x.isNegative) x.magnitude else x
  if text ∈ nanWords then some .nan
  else if String.ofList rest ∈ infinityWords then some (.infinity negative)
  else if isDecimal (rest.length < s.length) rest then
    (Numeral.ofText? (withoutUnderscores rest)).map fun n => sign n.toDouble
  else (sixtyDecimal? rest).map sign

/-- The value of a plain scalar; none for the words that stand for no value. -/
def wordValue? (s : List Char) : Option Value :=
  let text := String.ofList s
  if text ∈ nullWords then some .null
  else if text ∈ trueWords then some (.bool true)
  else if text ∈ falseWords then some (.bool false)
  else if text ∈ markWords then none
  else
    match double? s, int? s with
    | some x, _ => some (.double x)
    | none, some n => some (.int n)
    | none, none => some (.str text)

end SignalCoach.Yaml
