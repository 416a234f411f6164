import SignalCoach.Store.Basic

/-! Transactions from documents of writes. The writes are read one after the other, each when its
turn comes. -/
namespace SignalCoach

namespace Write

inductive Fault where
  | failed (failure : Failure)
  | invalid (issues : List Issue)
  | unknownMember
  /-- The transaction was given up at its end. -/
  | abandoned

def checked (c : Checked α) : Except Fault α :=
  match c with
  | .valid a => .ok a
  | .invalid issues => .error (.invalid issues)

/-- A session write: the id, the state, and the time. -/
def readSession (v : Value) : Except Fault Write :=
  match v.member "id", v.member "state", Timestamp.read (v.member "at") with
  | .str id, .str state, .valid evaluatedAt =>
    match SessionState.ofName? state with
    | some state => .ok (.session id state evaluatedAt)
    | none => .error .unknownMember
  | _, _, _ => .error .unknownMember

def read (now : Timestamp) (v : Value) (ids : IdSupply) : Except Fault Write × IdSupply :=
  match v with
  | .arr [.str "evaluation", record] =>
    let (e, ids) := Evaluation.read now record ids
    ((checked e).map .evaluation, ids)
  | .arr [.str "advice", record] =>
    let (a, ids) := AdviceRecord.read now record ids
    ((checked a).map .advice, ids)
  | .arr [.str "session", record] => (readSession record, ids)
  | _ => (.error .unknownMember, ids)

end Write

namespace Store

/-- The store after the writes, and how many there were. -/
def write (now : Timestamp) : List Value → Store → IdSupply → Except Write.Fault (Nat × Store) × IdSupply
  | [], store, ids => (.ok (0, store), ids)
  | v :: rest, store, ids =>
    match Write.read now v ids with
    | (.error fault, ids) => (.error fault, ids)
    | (.ok w, ids) =>
      match store.apply w with
      | .error failure => (.error (.failed failure), ids)
      | .ok store =>
        let (outcome, ids) := write now rest store ids
        (outcome.map fun (n, store) => (n + 1, store), ids)

/-- All writes, or none if one of them fails or the transaction is abandoned. -/
def transact (now : Timestamp) (writes : List Value) (abandon : Bool) (store : Store)
    (ids : IdSupply) : Except Write.Fault (Nat × Store) × IdSupply :=
  let (outcome, ids) := write now writes store ids
  (if abandon then outcome.bind fun _ => .error .abandoned else outcome, ids)

end Store

end SignalCoach
