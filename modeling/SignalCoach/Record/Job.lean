import SignalCoach.Record.Id

/-! Evaluation jobs as messages of the queue. -/
namespace SignalCoach

inductive Trigger where
  | alert | snapshot | heartbeat
deriving DecidableEq

namespace Trigger

def all : List Trigger := [.alert, .snapshot, .heartbeat]

def name : Trigger → String
  | .alert => "alert"
  | .snapshot => "snapshot"
  | .heartbeat => "heartbeat"

def ofName? (s : String) : Option Trigger := all.find? (·.name = s)

end Trigger

structure Job where
  sessionId : String
  snapshotId : Option String := none
  trigger : Option Trigger := none
  jobId : Option String := none
deriving DecidableEq

namespace Job

open Check

/-- A job from its message, in either spelling. -/
def read (v : Value) : Checked Job :=
  record v fun fields =>
    Job.mk <$> required string (spelling "sessionId" "session_id" fields) fields <*>
      optional string (spelling "snapshotId" "snapshot_id" fields) fields <*>
      optional (enum Trigger.ofName?) "trigger" fields <*>
      optional string (spelling "jobId" "job_id" fields) fields

def entry (name : String) (value : Option String) : List (String × Value) :=
  value.toList.map fun s => (name, .str s)

def message (job : Job) : Value :=
  .object (("sessionId", .str job.sessionId) :: entry "snapshotId" job.snapshotId ++
    entry "trigger" (job.trigger.map Trigger.name) ++ entry "jobId" job.jobId)

def document (job : Job) : Value :=
  .object [("session_id", .str job.sessionId), ("snapshot_id", .ofOption .str job.snapshotId),
    ("trigger", .ofOption (fun t => .str t.name) job.trigger), ("job_id", .ofOption .str job.jobId)]

end Job

end SignalCoach
