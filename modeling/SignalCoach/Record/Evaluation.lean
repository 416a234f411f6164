import SignalCoach.Record.Session

/-! What a job writes: one evaluation a tag, with one advice each. -/
namespace SignalCoach

structure Evaluation where
  id : String
  sessionId : String
  snapshotId : String
  tagId : String
  status : Status
  score : Double
  context : Fields
  jobId : Option String
  createdAt : Timestamp

structure AdviceRecord where
  id : String
  evaluationId : String
  state : SessionState
  headline : String
  body : String
  createdAt : Timestamp

open Check

namespace Evaluation

def read (now : Timestamp) (v : Value) : Draft Evaluation :=
  Draft.record v fun fields =>
    Evaluation.mk <$> Draft.id fields <*>
      Draft.check (required string "session_id" fields) <*>
      Draft.check (required string "snapshot_id" fields) <*>
      Draft.check (required string "tag_id" fields) <*>
      Draft.check (required (enum Status.ofName?) "status" fields) <*>
      Draft.check (required double "score" fields) <*>
      Draft.check (withDefault textKeyed "context" [] fields) <*>
      Draft.check (optional string "job_id" fields) <*>
      Draft.check (withDefault Timestamp.read "created_at" now fields)

def document (e : Evaluation) : Value :=
  .object [("id", .str e.id), ("session_id", .str e.sessionId), ("snapshot_id", .str e.snapshotId),
    ("tag_id", .str e.tagId), ("status", .str e.status.name), ("score", .double e.score),
    ("context", .obj e.context), ("job_id", .ofOption .str e.jobId),
    ("created_at", e.createdAt.document)]

end Evaluation

namespace AdviceRecord

def read (now : Timestamp) (v : Value) : Draft AdviceRecord :=
  Draft.record v fun fields =>
    AdviceRecord.mk <$> Draft.id fields <*>
      Draft.check (required string "evaluation_id" fields) <*>
      Draft.check (required (enum SessionState.ofName?) "session_state" fields) <*>
      Draft.check (required string "headline" fields) <*>
      Draft.check (required string "body" fields) <*>
      Draft.check (withDefault Timestamp.read "created_at" now fields)

def document (a : AdviceRecord) : Value :=
  .object [("id", .str a.id), ("evaluation_id", .str a.evaluationId),
    ("session_state", .str a.state.name), ("headline", .str a.headline), ("body", .str a.body),
    ("created_at", a.createdAt.document)]

end AdviceRecord

end SignalCoach
