import SignalCoach.Check.Scalar

/-! Ids of records, and readers that draw one for a record without its own. -/
namespace SignalCoach

/-- Ids that were not drawn before. -/
structure IdSupply where
  next : Nat := 1
deriving DecidableEq

namespace IdSupply

def nameOf (n : Nat) : String :=
  let s := Nat.repr n
  "id-" ++ String.ofList (List.replicate (6 - s.length) '0') ++ s

def draw (ids : IdSupply) : String × IdSupply := (nameOf ids.next, ⟨ids.next + 1⟩)

end IdSupply

/-- A check that may draw ids. An id stays drawn when the check fails. -/
def Draft (α : Type) := IdSupply → Checked α × IdSupply

namespace Draft

instance : Applicative Draft where
  pure a := fun ids => (.valid a, ids)
  seq f x := fun ids =>
    let (f, ids) := f ids
    let (x, ids) := x () ids
    (f <*> x, ids)

def check (c : Checked α) : Draft α := fun ids => (c, ids)

def within (step : Place) (d : Draft α) : Draft α := fun ids =>
  let (a, ids) := d ids
  (a.within step, ids)

def nullable (read : Value → Draft α) : Value → Draft (Option α)
  | .null => pure none
  | v => some <$> read v

def each (read : Value → Draft α) (index : Nat) : List Value → Draft (List α)
  | [] => pure []
  | v :: rest => List.cons <$> (read v).within (.index index) <*> each read (index + 1) rest

def list (read : Value → Draft α) : Value → Draft (List α)
  | .arr items => each read 0 items
  | _ => check (.fault .notAList)

def withDefault (read : Value → Draft α) (name : String) (default : α) (fields : Fields) :
    Draft α :=
  match fields.get? name with
  | some v => (read v).within (.name name)
  | none => pure default

def record (v : Value) (read : Fields → Draft α) : Draft α :=
  match v with
  | .obj fields => read fields
  | _ => check (.fault .notARecord)

def id (fields : Fields) : Draft String :=
  match fields.get? "id" with
  | some v => check ((Check.string v).within (.name "id"))
  | none => fun ids =>
    let (id, ids) := ids.draw
    (.valid id, ids)

end Draft

namespace Check

def enum (ofName? : String → Option α) : Value → Checked α
  | .str s =>
    match ofName? s with
    | some a => .valid a
    | none => .fault .notAMember
  | _ => .fault .notAMember

end Check

end SignalCoach
