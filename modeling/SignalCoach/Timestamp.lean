import SignalCoach.Check.Issue
import SignalCoach.Json.Value
import SignalCoach.Text.Digit

/-! Points in time, to the microsecond, in universal time. -/
namespace SignalCoach

structure Timestamp where
  /-- Microseconds since the start of 1970. -/
  micros : Int
deriving DecidableEq

namespace Timestamp

instance : LE Timestamp := ⟨fun a b => a.micros ≤ b.micros⟩
instance : LT Timestamp := ⟨fun a b => a.micros < b.micros⟩
instance (a b : Timestamp) : Decidable (a ≤ b) := inferInstanceAs (Decidable (a.micros ≤ b.micros))
instance (a b : Timestamp) : Decidable (a < b) := inferInstanceAs (Decidable (a.micros < b.micros))

/-- Days from the start of 1970 to a date. Years are counted from March, in eras of 400. -/
def daysOfDate (year month day : Int) : Int :=
  let year := if month ≤ 2 then year - 1 else year
  let era := year.fdiv 400
  let yearOfEra := year - era * 400
  let dayOfYear := ((153 * ((month + 9) % 12) + 2) / 5) + day - 1
  let dayOfEra := yearOfEra * 365 + yearOfEra / 4 - yearOfEra / 100 + dayOfYear
  era * 146097 + dayOfEra - 719468

def dateOfDays (days : Int) : Int × Int × Int :=
  let days := days + 719468
  let era := days.fdiv 146097
  let dayOfEra := days - era * 146097
  let yearOfEra := (dayOfEra - dayOfEra / 1460 + dayOfEra / 36524 - dayOfEra / 146096) / 365
  let dayOfYear := dayOfEra - (365 * yearOfEra + yearOfEra / 4 - yearOfEra / 100)
  let shifted := (5 * dayOfYear + 2) / 153
  let day := dayOfYear - (153 * shifted + 2) / 5 + 1
  let month := (shifted + 2) % 12 + 1
  (yearOfEra + era * 400 + (if month ≤ 2 then 1 else 0), month, day)

def secondsPerDay : Int := 86400

def ofParts (year month day hour minute second micro : Int) : Timestamp :=
  ⟨((daysOfDate year month day * secondsPerDay + hour * 3600 + minute * 60 + second) * 1000000)
    + micro⟩

def padLeft (width : Nat) (n : Int) : String :=
  let s := toString n
  String.ofList (List.replicate (width - s.length) '0') ++ s

/-- The form `YYYY-MM-DDTHH:MM:SS.ffffffZ`; whole seconds have no fraction. -/
def text (t : Timestamp) : String :=
  let seconds := t.micros.fdiv 1000000
  let micro := t.micros - seconds * 1000000
  let days := seconds.fdiv secondsPerDay
  let ofDay := seconds - days * secondsPerDay
  let (year, month, day) := dateOfDays days
  padLeft 4 year ++ "-" ++ padLeft 2 month ++ "-" ++ padLeft 2 day ++ "T" ++
    padLeft 2 (ofDay / 3600) ++ ":" ++ padLeft 2 (ofDay / 60 % 60) ++ ":" ++ padLeft 2 (ofDay % 60) ++
    (if micro = 0 then "" else "." ++ padLeft 6 micro) ++ "Z"

/-- A number of exactly `n` digits in front. -/
def takeNumber (n : Nat) (s : List Char) : Option (Int × List Char) :=
  let ds := s.take n
  if ds.length = n ∧ ds.all Char.isDigit then some (Text.natOfDigits ds, s.drop n) else none

def takeMark (marks : List Char) : List Char → Option (List Char)
  | c :: rest => if marks.contains c then some rest else none
  | [] => none

/-- A fraction of a second; digits after the sixth are dropped. -/
def takeFraction (s : List Char) : Option (Int × List Char) :=
  match s with
  | '.' :: rest =>
    let ds := rest.takeWhile Char.isDigit
    if ds.isEmpty then none
    else
      let six := ds.take 6 ++ List.replicate (6 - ds.length) '0'
      some (Text.natOfDigits six, rest.dropWhile Char.isDigit)
  | s => some (0, s)

def takeSeconds (s : List Char) : Option ((Int × Int) × List Char) :=
  match s with
  | ':' :: rest => do
    let (second, s) ← takeNumber 2 rest
    let (micro, s) ← takeFraction s
    pure ((second, micro), s)
  | s => some ((0, 0), s)

/-- The minutes that a zone is ahead of universal time. -/
def readZone : List Char → Option Int
  | [] => some 0
  | ['Z'] => some 0
  | ['z'] => some 0
  | sign :: rest => do
    let (hours, s) ← takeNumber 2 rest
    let s := match s with
      | ':' :: r => r
      | r => r
    let (minutes, s) ← takeNumber 2 s
    if !s.isEmpty ∨ 23 < hours ∨ 59 < minutes then none
    else if sign = '+' then some (hours * 60 + minutes)
    else if sign = '-' then some (-(hours * 60 + minutes))
    else none

def isLeap (year : Int) : Bool := year % 4 = 0 ∧ (year % 100 ≠ 0 ∨ year % 400 = 0)

def daysInMonth (year month : Int) : Int :=
  if month = 2 then (if isLeap year then 29 else 28)
  else if month = 4 ∨ month = 6 ∨ month = 9 ∨ month = 11 then 30
  else 31

def takeDate (s : List Char) : Option ((Int × Int × Int) × List Char) := do
  let (year, s) ← takeNumber 4 s
  let s ← takeMark ['-'] s
  let (month, s) ← takeNumber 2 s
  let s ← takeMark ['-'] s
  let (day, s) ← takeNumber 2 s
  if 1 ≤ month ∧ month ≤ 12 ∧ 1 ≤ day ∧ day ≤ daysInMonth year month then
    some ((year, month, day), s)
  else none

/-- A date, or a date and a time with an optional zone. -/
def ofText? (text : String) : Option Timestamp := do
  let ((year, month, day), s) ← takeDate text.toList
  if s.isEmpty then pure (ofParts year month day 0 0 0 0)
  else
    let s ← takeMark ['T', 't', ' ', '_'] s
    let (hour, s) ← takeNumber 2 s
    let s ← takeMark [':'] s
    let (minute, s) ← takeNumber 2 s
    let ((second, micro), s) ← takeSeconds s
    let zone ← readZone s
    if 23 < hour ∨ 59 < minute ∨ 59 < second then none
    else pure ⟨(ofParts year month day hour minute second micro).micros - zone * 60000000⟩

def read : Value → Checked Timestamp
  | .str s =>
    match ofText? s with
    | some t => .valid t
    | none => .fault .malformedTime
  | _ => .fault .notATime

def document (t : Timestamp) : Value := .str t.text

end Timestamp

end SignalCoach
