import SignalCoach.File
import SignalCoach.Queue.Delivery
import SignalCoach.Store.Basic

/-! A demonstration: a rule set, a session and a snapshot are stored, and the session is evaluated,
either at once or by a job for a worker. -/
namespace SignalCoach.Demo

structure Inputs where
  ruleSet : Option String
  snapshot : Option String
  symbol : Value
  timeframe : Value

inductive Fault where
  | file (fault : FileFault)
  | invalid (issues : List Issue)
  | refused (refusal : Store.Refusal)
  | failed (failure : Failure)
  | queue (fault : Queue.Fault)

/-- What was stored before the session is evaluated. -/
structure Stage where
  ruleSet : RuleSet
  session : Session
  snapshot : Snapshot
  store : Store
  ids : IdSupply

def checked (draft : Draft α) (ids : IdSupply) : Except Fault (α × IdSupply) :=
  match draft ids with
  | (.valid a, ids) => .ok (a, ids)
  | (.invalid issues, _) => .error (.invalid issues)

/-- Stores the rule set, a session on it, and the snapshot as one that an alert brought. -/
def prepare (inputs : Inputs) (now : Timestamp) : Except Fault Stage := do
  let (set, ids) ← (RuleSet.ofFile inputs.ruleSet {}).mapError .file
  let (ruleSet, store) ← (({} : Store).createRuleSet set).mapError .refused
  let (session, ids) ← checked (Session.read now (.object
    [("rule_set_id", .str ruleSet.id), ("symbol", inputs.symbol),
     ("timeframe_minutes", inputs.timeframe)])) ids
  let store ← (store.createSession session).mapError .refused
  let (features, payload) ← (snapshotOfFile inputs.snapshot).mapError .file
  let (id, ids) := ids.draw
  let snapshot : Snapshot :=
    { id, sessionId := session.id, source := .alert, capturedAt := now, features, payload }
  let store ← (store.saveSnapshot snapshot).mapError .refused
  pure { ruleSet, session, snapshot, store, ids }

def Stage.job (stage : Stage) : Job :=
  { sessionId := stage.session.id, snapshotId := some stage.snapshot.id, trigger := some .alert }

def bar : String := String.ofList (List.replicate 60 '=')

def evaluationLine (e : Evaluation) : String :=
  "  " ++ Text.padRight 7 e.status.name ++ " " ++ Decimal.fixed 2 e.score ++ "  tag=" ++ e.tagId

def report (stage : Stage) (result : JobResult) (store : Store) : String :=
  let state := match result.state with
    | some state => state.name
    | none => "-"
  let lines :=
    [bar, "  " ++ stage.ruleSet.name ++ " v" ++ toString stage.ruleSet.version ++ " on " ++
        stage.session.symbol ++ ": " ++ result.outcome.name,
     "  Session state: " ++ state, bar] ++
    (store.listEvaluations stage.session.id 50 none).map evaluationLine
  String.join (lines.map (· ++ "\n"))

def evaluate (stage : Stage) (now : Timestamp) : Except Fault (JobResult × Store) :=
  match stage.job.handle Store.gateway .standard now { store := stage.store, ids := stage.ids } with
  | .ok result desk => .ok (result, desk.store)
  | .error failure _ => .error (.failed failure)

def run (inputs : Inputs) (now : Timestamp) : Except Fault String := do
  let stage ← prepare inputs now
  let (result, store) ← evaluate stage now
  pure (report stage result store)

/-- Leaves the job to a worker; what is printed, and the queue. -/
def enqueue (inputs : Inputs) (now : Timestamp) (retries : Queue.Retries) (clock : Int) :
    Except Fault (String × Queue.Contents) := do
  let stage ← prepare inputs now
  match Queue.enqueueEvaluation retries clock stage.job { ids := stage.ids } with
  | .ok envelope broker =>
    pure ("Enqueued evaluate job " ++ envelope.id ++ " for session " ++ stage.session.id ++ "\n",
      broker.contents)
  | .error fault _ => .error (.queue fault)

end SignalCoach.Demo
