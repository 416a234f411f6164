import SignalCoach.Check.Issue
import SignalCoach.Decimal.Numeral
import SignalCoach.Decimal.Text
import SignalCoach.Json.Value

/-! Readers of the fields of records. Numbers are read from their text too, and booleans count as
numbers. -/
namespace SignalCoach.Check

def string : Value → Checked String
  | .str s => .valid s
  | _ => .fault .notText

/-- Removes single underscores; they may not stand at an end. -/
def withoutUnderscores? (s : List Char) : Option (List Char) :=
  if !s.contains '_' || s.head? = some '_' || s.getLast? = some '_' || doubled s then none
  else some (s.filter (· ≠ '_'))
where
  doubled : List Char → Bool
    | '_' :: '_' :: _ => true
    | _ :: rest => doubled rest
    | [] => false

/-- White space around the number, or underscores in it, but not both. -/
def doubleText? (s : String) : Option Double :=
  (Double.ofText? (Text.trim Text.isBlank s.toList)).or <|
    (withoutUnderscores? s.toList).bind Double.ofText?

def double : Value → Checked Double
  | .double x => .valid x
  | .bool b => .valid (if b then .one else .zero)
  | .int n =>
    match Double.ofInt? n with
    | some x => .valid x
    | none => .fault .notADouble
  | .str s =>
    match doubleText? s with
    | some x => .valid x
    | none => .fault .malformedDouble
  | _ => .fault .notADouble

def withoutZeros (s : List Char) : List Char :=
  match s.dropWhile (· ≠ '.') with
  | '.' :: '0' :: rest => if rest.all (· = '0') then s.takeWhile (· ≠ '.') else s
  | _ => s

def intText (s : String) : Checked Int :=
  let s := withoutZeros (Text.trim Text.isBlank s.toList)
  let (negative, digits) := Numeral.takeSign ((withoutUnderscores? s).getD s)
  if digits.isEmpty || !digits.all Char.isDigit then .fault .malformedInteger
  else if Text.maxIntDigits < digits.length then .fault .integerTooLarge
  else
    let n := Int.ofNat (Text.natOfDigits digits)
    .valid (if negative then -n else n)

/-- A double must be integral and fit a signed word. -/
def intOfDouble (x : Double) : Checked Int :=
  match x.truncate? with
  | none => .fault .notFinite
  | some n =>
    if !x.isIntegral then .fault .notIntegral
    else if isSignedWord n then .valid n
    else .fault .integerTooLarge

def int : Value → Checked Int
  | .int n => .valid n
  | .bool b => .valid (if b then 1 else 0)
  | .double x => intOfDouble x
  | .str s => intText s
  | _ => .fault .notAnInteger

def nat (v : Value) : Checked Nat :=
  (int v).andThen fun n => if 0 ≤ n then .valid n.toNat else .fault .belowLeast

def trueWords : List String := ["1", "true", "yes", "on", "t", "y"]
def falseWords : List String := ["0", "false", "no", "off", "f", "n"]

def boolText (s : String) : Checked Bool :=
  let s := s.toLower
  if s ∈ trueWords then .valid true
  else if s ∈ falseWords then .valid false
  else .fault .malformedBoolean

def nullable (read : Value → Checked α) : Value → Checked (Option α)
  | .null => .valid none
  | v => (read v).map some

def list (read : Value → Checked α) : Value → Checked (List α)
  | .arr items => Checked.each read 0 items
  | _ => .fault .notAList

/-- Absent elements of a pair are missing; a longer list is refused as a whole. -/
def pair (read : Value → Checked α) : Value → Checked (α × α)
  | .arr [] =>
    .invalid [⟨[.index 0], .missing⟩, ⟨[.index 1], .missing⟩]
  | .arr [a] =>
    ((read a).within (.index 0)).both ((Checked.fault .missing).within (.index 1))
  | .arr [a, b] => ((read a).within (.index 0)).both ((read b).within (.index 1))
  | .arr _ => .fault .tooLong
  | _ => .fault .notAPair

/-- The place of a key: integers and booleans by number, other keys by their text. -/
def keyPlace : Key → Place
  | .text s => .name s
  | .null => .name "None"
  | .bool b => .index (if b then 1 else 0)
  | .int n => .index n
  | .double x => .name (Decimal.display x)

def textKeyed : Value → Checked Fields
  | .obj fields =>
    let faults := fields.filterMap fun (k, _) => match k with
      | .text _ => none
      | k => some { place := [keyPlace k, .name "[key]"], cause := .notText : Issue }
    if faults.isEmpty then .valid fields else .invalid faults
  | _ => .fault .notAnObject

def record (v : Value) (read : Fields → Checked α) : Checked α :=
  match v with
  | .obj fields => read fields
  | _ => .fault .notARecord

/-- The spelling of a member that a document uses; the wire spelling wins. -/
def spelling (wire plain : String) (fields : Fields) : String :=
  if !fields.has wire && fields.has plain then plain else wire

def required (read : Value → Checked α) (name : String) (fields : Fields) : Checked α :=
  match fields.get? name with
  | some v => (read v).within (.name name)
  | none => (Checked.fault .missing).within (.name name)

def withDefault (read : Value → Checked α) (name : String) (default : α) (fields : Fields) :
    Checked α :=
  match fields.get? name with
  | some v => (read v).within (.name name)
  | none => .valid default

def optional (read : Value → Checked α) (name : String) (fields : Fields) : Checked (Option α) :=
  withDefault (nullable read) name none fields

end SignalCoach.Check
