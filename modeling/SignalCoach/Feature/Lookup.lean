import SignalCoach.Decimal.Numeral
import SignalCoach.Feature.Key
import SignalCoach.Json.Value
import SignalCoach.Text.Split

/-! Walks into documents. A step into an object takes the exact key, else the first key of the same
canonical form; a step into a list takes an index. Null and absent are the same. -/
namespace SignalCoach.Feature

def sameCanonical (wanted : String) : Key → Bool
  | .text s => canonical s = wanted
  | _ => false

def fieldAt? (fields : Fields) (segment : String) : Option Value :=
  (fields.get? segment).or <|
    (fields.find? fun entry => sameCanonical (canonical segment) entry.1).map Prod.snd

def itemAt? (items : List Value) (segment : String) : Option Value :=
  match Text.readInt? segment with
  | some i => if 0 ≤ i then items[i.toNat]? else none
  | none => none

def step (v : Value) (segment : String) : Value :=
  match v with
  | .obj fields => (fieldAt? fields segment).getD .null
  | .arr items => (itemAt? items segment).getD .null
  | _ => .null

def lookup (root : Value) (segments : List String) : Value := segments.foldl step root

@[simp] theorem lookup_nil (root : Value) : lookup root [] = root := rfl

@[simp] theorem lookup_cons (root : Value) (segment : String) (segments : List String) :
    lookup root (segment :: segments) = lookup (step root segment) segments := rfl

/-- A walk can be broken off and taken up again. -/
theorem lookup_append (root : Value) (p q : List String) :
    lookup root (p ++ q) = lookup (lookup root p) q := by
  simp [lookup]

/-- The segments of a dotted path; empty ones do not count. -/
def splitPath (path : String) : List String :=
  ((Text.pieces '.' path.toList).filter fun s => !s.isEmpty).map String.ofList

end SignalCoach.Feature
