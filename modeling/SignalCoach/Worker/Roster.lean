import SignalCoach.Work

/-! Sessions and snapshots that a process holds, with the evaluations that were committed. -/
namespace SignalCoach

structure Roster where
  /-- With their rule sets. -/
  sessions : List Session := []
  snapshots : List Snapshot := []
  evaluations : List Evaluation := []

namespace Roster

/-- Replaces the element that passes a test, or adds one at the end. -/
def put (same : α → Bool) (a : α) : List α → List α
  | [] => [a]
  | b :: rest => if same b then a :: rest else b :: put same a rest

def putSession (session : Session) (r : Roster) : Roster :=
  { r with sessions := put (·.id = session.id) session r.sessions }

def dropSession (id : String) (r : Roster) : Option Roster :=
  if r.sessions.any (·.id = id) then
    some { r with sessions := r.sessions.filter (·.id ≠ id) }
  else none

def putSnapshot (snapshot : Snapshot) (r : Roster) : Roster :=
  { r with snapshots := put (·.id = snapshot.id) snapshot r.snapshots }

/-- The later of two snapshots; at one time, the first. -/
def later (a : Option Snapshot) (b : Snapshot) : Option Snapshot :=
  match a with
  | some a => if a.capturedAt < b.capturedAt then some b else some a
  | none => some b

def apply (r : Roster) : Write → Roster
  | .evaluation record => { r with evaluations := r.evaluations ++ [record] }
  | .advice _ => r
  | .session id state evaluatedAt =>
    { r with sessions := r.sessions.map fun session =>
        if session.id = id then { session with state, lastEvaluatedAt := some evaluatedAt }
        else session }

def gateway : Gateway Roster where
  session? r id := r.sessions.find? (·.id = id)
  snapshot? r id := r.snapshots.find? (·.id = id)
  latestSnapshot? r id := (r.snapshots.filter (·.sessionId = id)).foldl later none
  hasEvaluations r jobId := r.evaluations.any (·.jobId = some jobId)
  apply write r := .ok (r.apply write)

end Roster

end SignalCoach
