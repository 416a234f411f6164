/-! Why a document is rejected: causes with the places where they arise, all of them at once. -/
namespace SignalCoach

/-- A step into a document on the way to a fault. -/
inductive Place where
  | name (s : String)
  | index (n : Int)
deriving DecidableEq

inductive Cause where
  | missing
  | notADouble
  | malformedDouble
  | notAnInteger
  | malformedInteger
  | integerTooLarge
  | notIntegral
  | notFinite
  | notABoolean
  | malformedBoolean
  | notText
  | notAMember
  | notAWord
  | belowLeast
  | tooLong
  | notAPair
  | notAList
  | notAnObject
  | notARecord
  | notACondition
  | kindMissing
  | kindUnknown
  | notATime
  | malformedTime
  /-- A rule of the record itself. -/
  | rule (message : String)
deriving DecidableEq

def Cause.code : Cause → String
  | .missing => "missing"
  | .notADouble => "float_type"
  | .malformedDouble => "float_parsing"
  | .notAnInteger => "int_type"
  | .malformedInteger => "int_parsing"
  | .integerTooLarge => "int_parsing_size"
  | .notIntegral => "int_from_float"
  | .notFinite => "finite_number"
  | .notABoolean => "bool_type"
  | .malformedBoolean => "bool_parsing"
  | .notText => "string_type"
  | .notAMember => "enum"
  | .notAWord => "literal_error"
  | .belowLeast => "greater_than_equal"
  | .tooLong => "too_long"
  | .notAPair => "tuple_type"
  | .notAList => "list_type"
  | .notAnObject => "dict_type"
  | .notARecord => "model_type"
  | .notACondition => "model_attributes_type"
  | .kindMissing => "union_tag_not_found"
  | .kindUnknown => "union_tag_invalid"
  | .notATime => "datetime_type"
  | .malformedTime => "datetime_from_date_parsing"
  | .rule _ => "value_error"

structure Issue where
  place : List Place
  cause : Cause
deriving DecidableEq

def Issue.within (step : Place) (issue : Issue) : Issue :=
  { issue with place := step :: issue.place }

inductive Checked (α : Type) where
  | valid (a : α)
  | invalid (issues : List Issue)

namespace Checked

def fault (cause : Cause) : Checked α := .invalid [⟨[], cause⟩]

def map (f : α → β) : Checked α → Checked β
  | .valid a => .valid (f a)
  | .invalid issues => .invalid issues

def both : Checked α → Checked β → Checked (α × β)
  | .valid a, .valid b => .valid (a, b)
  | .valid _, .invalid issues => .invalid issues
  | .invalid issues, .valid _ => .invalid issues
  | .invalid issues, .invalid more => .invalid (issues ++ more)

instance : Applicative Checked where
  pure := .valid
  seq f x := (both f (x ())).map fun (f, a) => f a

def within (step : Place) : Checked α → Checked α
  | .valid a => .valid a
  | .invalid issues => .invalid (issues.map (Issue.within step))

/-- A second check on a value that passed the first. -/
def andThen (x : Checked α) (check : α → Checked β) : Checked β :=
  match x with
  | .valid a => check a
  | .invalid issues => .invalid issues

def toExcept : Checked α → Except (List Issue) α
  | .valid a => .ok a
  | .invalid issues => .error issues

/-- The first reader that accepts; if none does, the issues of all, each under its name. -/
def firstOf : List (String × Checked α) → Checked α
  | [] => .invalid []
  | (name, x) :: rest =>
    match x with
    | .valid a => .valid a
    | .invalid issues =>
      match firstOf rest with
      | .valid a => .valid a
      | .invalid more => .invalid (issues.map (Issue.within (.name name)) ++ more)

def each (check : α → Checked β) (index : Nat) : List α → Checked (List β)
  | [] => .valid []
  | a :: rest =>
    ((check a).within (.index index)).both (each check (index + 1) rest) |>.map fun (b, bs) => b :: bs

end Checked

end SignalCoach
