import SignalCoach.Assessment
import SignalCoach.Record.Evaluation
import SignalCoach.Record.Job

/-! Jobs carried out against a store: the session and a snapshot are loaded, the tags are assessed,
and what follows from them is written in one transaction. -/
namespace SignalCoach

inductive Write where
  | evaluation (record : Evaluation)
  | advice (record : AdviceRecord)
  | session (id : String) (state : SessionState) (evaluatedAt : Timestamp)

inductive Failure where
  | connectionLost
  /-- The store has such a record already, or does not take its value. -/
  | conflict
  /-- A number of a document is beyond every double. -/
  | overflow
  /-- A number of a document has too many digits to be written. -/
  | overlong
deriving DecidableEq

def Failure.ofOverflow : Feature.Overflow → Failure
  | .integerTooLarge _ => .overflow
  | .integerTooLong _ => .overlong

/-- The text under which a failure is kept with its job. -/
def Failure.text : Failure → String
  | .connectionLost => "RuntimeError('connection lost')"
  | .conflict => "IntegrityError"
  | .overflow => "OverflowError('int too large to convert to float')"
  | .overlong => "ValueError('Exceeds the limit (4300 digits) for integer string conversion; " ++
      "use sys.set_int_max_str_digits() to increase the limit')"

/-- What a job needs of a store with states `σ`. -/
structure Gateway (σ : Type) where
  session? : σ → String → Option Session
  snapshot? : σ → String → Option Snapshot
  latestSnapshot? : σ → String → Option Snapshot
  hasEvaluations : σ → String → Bool
  apply : Write → σ → Except Failure σ

/-- A store at work, with the ids it draws. -/
structure Desk (σ : Type) where
  store : σ
  ids : IdSupply := {}
  /-- The number of writes that are still let through; all of them if there is no number. -/
  allowance : Option Nat := none
  /-- The failure with which the next commit is refused. -/
  refusal : Option Failure := none

/-- Work at a desk. What was done before a failure stays done. -/
abbrev Work (σ : Type) := EStateM Failure (Desk σ)

namespace Work

variable {σ : Type}

def freshId : Work σ String := fun desk =>
  let (id, ids) := desk.ids.draw
  .ok id { desk with ids }

def write (gateway : Gateway σ) (w : Write) : Work σ Unit := fun desk =>
  match desk.allowance with
  | some 0 => .error .connectionLost desk
  | allowance =>
    match gateway.apply w desk.store with
    | .ok store => .ok () { desk with store, allowance := allowance.map (· - 1) }
    | .error failure => .error failure desk

def commit : Work σ Unit := fun desk =>
  match desk.refusal with
  | some failure => .error failure desk
  | none => .ok () desk

/-- All writes, or none: on a failure the store is what it was before. -/
def transaction (work : Work σ α) : Work σ α := fun desk =>
  match (work <* commit) desk with
  | .ok a desk => .ok a desk
  | .error failure desk' => .error failure { desk' with store := desk.store }

end Work

inductive Outcome where
  | completed | sessionNotFound | snapshotNotFound | noResults | duplicate
deriving DecidableEq

def Outcome.name : Outcome → String
  | .completed => "completed"
  | .sessionNotFound => "session_not_found"
  | .snapshotNotFound => "snapshot_not_found"
  | .noResults => "no_results"
  | .duplicate => "duplicate"

structure JobResult where
  outcome : Outcome
  state : Option SessionState := none
  results : List TagResult := []
  evaluationIds : List String := []

/-- Only a completed job writes. -/
def JobResult.wrote (r : JobResult) : Bool := r.outcome = .completed

namespace Job

variable {σ : Type}

/-- The snapshot that the job names, if it is of this session; the latest one if it names none. -/
def snapshot? (gateway : Gateway σ) (store : σ) (session : Session) (job : Job) : Option Snapshot :=
  match job.snapshotId with
  | some id =>
    if id.isEmpty then gateway.latestSnapshot? store session.id
    else (gateway.snapshot? store id).filter fun snapshot => snapshot.sessionId = session.id
  | none => gateway.latestSnapshot? store session.id

def evaluationOf (session : Session) (snapshot : Snapshot) (jobId : Option String) (now : Timestamp)
    (id : String) (r : TagResult) : Evaluation where
  id
  sessionId := session.id
  snapshotId := snapshot.id
  tagId := r.tag.id
  status := r.status
  score := r.score
  context := r.context
  jobId
  createdAt := now

def adviceOf (now : Timestamp) (id evaluationId : String) (r : TagResult) : AdviceRecord where
  id
  evaluationId
  state := r.advice.state
  headline := r.advice.headline
  body := r.advice.body
  createdAt := now

/-- Writes an evaluation with its advice; the id of the evaluation. -/
def recordResult (gateway : Gateway σ) (session : Session) (snapshot : Snapshot)
    (jobId : Option String) (now : Timestamp) (r : TagResult) : Work σ String := do
  let id ← Work.freshId
  Work.write gateway (.evaluation (evaluationOf session snapshot jobId now id r))
  let adviceId ← Work.freshId
  Work.write gateway (.advice (adviceOf now adviceId id r))
  pure id

/-- Writes a batch of results, and last the state of the session. -/
def record (gateway : Gateway σ) (session : Session) (snapshot : Snapshot) (jobId : Option String)
    (now : Timestamp) (state : SessionState) (results : List TagResult) : Work σ (List String) :=
  Work.transaction do
    let ids ← results.mapM (recordResult gateway session snapshot jobId now)
    Work.write gateway (.session session.id state now)
    pure ids

/-- Whether an earlier delivery of the job has written its evaluations. -/
def isDuplicate (gateway : Gateway σ) (store : σ) (job : Job) : Bool :=
  job.jobId.any fun id => !id.isEmpty && gateway.hasEvaluations store id

def assess (ruleSet : RuleSet) (snapshot : Snapshot) (defaults : Thresholds) :
    Except Feature.Overflow (List TagResult) := do
  let thresholds ← ruleSet.defaultThresholds defaults
  Assessment.ofTags { features := snapshot.features, payload := snapshot.payload } thresholds
    ruleSet.tags

def settle (gateway : Gateway σ) (session : Session) (snapshot : Snapshot) (job : Job)
    (now : Timestamp) (results : List TagResult) : Work σ JobResult := do
  let desk ← get
  if results.isEmpty then pure { outcome := .noResults }
  else if job.isDuplicate gateway desk.store then pure { outcome := .duplicate, results }
  else
    let state := Assessment.sessionState results
    let evaluationIds ← record gateway session snapshot job.jobId now state results
    pure { outcome := .completed, state := some state, results, evaluationIds }

/-- Carries out a job. It fails only if a write fails or a number overflows. -/
def handle (gateway : Gateway σ) (defaults : Thresholds) (now : Timestamp) (job : Job) :
    Work σ JobResult := do
  let desk ← get
  match gateway.session? desk.store job.sessionId with
  | none => pure { outcome := .sessionNotFound }
  | some session =>
    match session.ruleSet with
    | none => pure { outcome := .sessionNotFound }
    | some ruleSet =>
      match job.snapshot? gateway desk.store session with
      | none => pure { outcome := .snapshotNotFound }
      | some snapshot =>
        match assess ruleSet snapshot defaults with
        | .error overflow => throw (.ofOverflow overflow)
        | .ok results => settle gateway session snapshot job now results

end Job

end SignalCoach
