import SignalCoach.Double

/-! Documents: JSON values whose objects keep the order in which their keys were written. -/
namespace SignalCoach

/-- A key of an object. JSON has text keys only; the other kinds come from mappings of files. -/
inductive Key where
  | text (s : String)
  | null
  | bool (b : Bool)
  | int (n : Int)
  | double (x : Double)
deriving DecidableEq

/-- Integers of any size and doubles are told apart. -/
inductive Value where
  | null
  | bool (b : Bool)
  | int (n : Int)
  | double (x : Double)
  | str (s : String)
  | arr (items : List Value)
  | obj (fields : List (Key × Value))
deriving Inhabited

abbrev Fields := List (Key × Value)

/-- Keys that stand for the same number are the same key, whatever their kind. -/
def Key.same : Key → Key → Bool
  | .text s, .text t => s = t
  | .null, .null => true
  | a, b =>
    match number? a, number? b with
    | some m, some n => m = n
    | none, none => (match a, b with | .double x, .double y => x.numEq y | _, _ => false)
    | _, _ => false
where
  /-- The integer that a key is equal to. -/
  number? : Key → Option Int
    | .bool b => some (if b then 1 else 0)
    | .int n => some n
    | .double x => if x.isIntegral then x.truncate? else none
    | _ => none

namespace Fields

def get? (fields : Fields) (name : String) : Option Value :=
  (fields.find? fun entry => entry.1 = .text name).map Prod.snd

def has (fields : Fields) (name : String) : Bool :=
  fields.any fun entry => entry.1 = .text name

/-- A repeated key keeps its first place and takes the last value. -/
def put : Fields → Key → Value → Fields
  | [], k, v => [(k, v)]
  | (k', v') :: rest, k, v =>
    if k'.same k then (k', v) :: rest else (k', v') :: put rest k v

@[simp] theorem get?_nil (name : String) : Fields.get? [] name = none := rfl

theorem get?_cons (k : Key) (v : Value) (rest : Fields) (name : String) :
    Fields.get? ((k, v) :: rest) name = if k = .text name then some v else get? rest name := by
  unfold Fields.get?
  by_cases h : k = .text name <;> simp [h]

theorem same_text (k : Key) (name : String) : k.same (.text name) = true ↔ k = .text name := by
  cases k with
  | double x =>
    cases h : Key.same.number? (.double x) <;>
      simp [Key.same, h, show Key.same.number? (.text name) = none from rfl]
  | _ => simp [Key.same, Key.same.number?]

@[simp] theorem get?_put_self (fields : Fields) (name : String) (v : Value) :
    Fields.get? (fields.put (.text name) v) name = some v := by
  induction fields with
  | nil => simp [put, get?_cons]
  | cons entry rest ih =>
    obtain ⟨k, w⟩ := entry
    by_cases h : k = .text name
    · simp [put, h, get?_cons, (same_text (.text name) name).2]
    · have : k.same (.text name) = false := by simpa using mt (same_text k name).1 h
      simp [put, this, get?_cons, h, ih]

def ofList (entries : List (String × Value)) : Fields :=
  entries.map fun (name, v) => (.text name, v)

end Fields

namespace Value

def object (entries : List (String × Value)) : Value := .obj (Fields.ofList entries)

def ofOption (f : α → Value) : Option α → Value
  | some a => f a
  | none => .null

def isObject : Value → Bool
  | .obj _ => true
  | _ => false

def member (name : String) : Value → Value
  | .obj fields => (Fields.get? fields name).getD .null
  | _ => .null

mutual
/-- Containers on the longest way to a leaf. -/
def depth : Value → Nat
  | .arr items => depthList items + 1
  | .obj fields => depthFields fields + 1
  | _ => 0

def depthList : List Value → Nat
  | [] => 0
  | v :: rest => max (depth v) (depthList rest)

def depthFields : List (Key × Value) → Nat
  | [] => 0
  | (_, v) :: rest => max (depth v) (depthFields rest)
end

def kindName : Value → String
  | .null => "NoneType"
  | .bool _ => "bool"
  | .int _ => "int"
  | .double _ => "float"
  | .str _ => "str"
  | .arr _ => "list"
  | .obj _ => "dict"

def isFalsy : Value → Bool
  | .null => true
  | .bool b => !b
  | .int n => n = 0
  | .double x => x.isZero
  | .str s => s.isEmpty
  | .arr items => items.isEmpty
  | .obj fields => fields.isEmpty

end Value

end SignalCoach
