import SignalCoach.Worker.Heartbeat
import SignalCoach.Worker.Lock

/-! The processing of a reserved envelope: its job is carried out under the lock of the session, then
the session's heartbeat is told, and the envelope is acknowledged or fails. -/
namespace SignalCoach.Worker

inductive Progress where
  | suspended (stage : Stage)
  | finished (outcome : Processed)

namespace Turn

def handledNames : List String := [Queue.evaluateName, Queue.heartbeatName]

def envelope? (slot : Slot) : Turn (Option Envelope) := do
  pure (((← get).envelopes.find? (·.1 = slot)).map (·.2))

/-- Records a failed attempt. The envelope counts it also if the queue refuses a command. -/
def failEnvelope (slot : Slot) (e : Envelope) (error : String) (retry : Bool) :
    Turn (Except Queue.Fault Bool) := do
  match ← act (Queue.fail (← get).clock e error retry) with
  | .ok (delayed, e) =>
    setEnvelope slot e
    pure (.ok delayed)
  | .error fault =>
    setEnvelope slot (e.failed error)
    pure (.error fault)

def countFailed : Turn Unit := modify fun w => { w with failed := w.failed + 1 }

/-- An envelope that can never be carried out is laid aside. -/
def reject (slot : Slot) (e : Envelope) (error : String) : Turn Progress := do
  match ← failEnvelope slot e error false with
  | .ok _ =>
    countFailed
    pure (.finished (.ok none))
  | .error fault => pure (.finished (.error fault))

def settle (slot : Slot) (e : Envelope) : Settlement → Turn Progress
  | .acknowledge result => do
    match ← act (Queue.complete e) with
    | .ok _ =>
      modify fun w => { w with processed := w.processed + 1 }
      pure (.finished (.ok (some result)))
    | .error fault => pure (.finished (.error fault))
  | .fail error => do
    match ← failEnvelope slot e error true with
    | .ok _ => pure (.finished (.ok none))
    | .error fault => pure (.finished (.error fault))

/-- Stops the heartbeat of a session first, which may take a while. -/
def haltAndSettle (id : TaskId) (slot : Slot) (e : Envelope) (session : String)
    (settlement : Settlement) : Turn Progress := do
  if ← haltBeat id session then pure (.suspended (.halting settlement))
  else settle slot e settlement

/-- A failed job ends the heartbeat that enqueued it. -/
def afterFailure (id : TaskId) (slot : Slot) (e : Envelope) (job : Job) (error : String) :
    Turn Progress := do
  countFailed
  if (← get).config.heartbeat.isSome && e.name = Queue.heartbeatName then
    haltAndSettle id slot e job.sessionId (.fail error)
  else settle slot e (.fail error)

/-- A session that is gone loses its heartbeat; one that was evaluated gets a heartbeat; and the job
of a heartbeat is reported. -/
def afterResult (id : TaskId) (slot : Slot) (e : Envelope) (job : Job) (result : JobResult) :
    Turn Progress := do
  if (← get).config.heartbeat.isNone then settle slot e (.acknowledge result)
  else if result.outcome = .sessionNotFound then
    haltAndSettle id slot e job.sessionId (.acknowledge result)
  else
    if e.name = Queue.heartbeatName then reportBeat job.sessionId
    if result.outcome = .completed then
      let _ ← startBeat job.sessionId
    settle slot e (.acknowledge result)

def handle (d : Delivery) : Turn (Except Failure JobResult) := do
  let w ← get
  let desk : Desk Roster := { store := w.roster, ids := w.broker.ids, allowance := w.allowance }
  let keep (desk : Desk Roster) (outcome : Except Failure JobResult) : World :=
    { w with roster := desk.store, allowance := desk.allowance,
             broker := { w.broker with ids := desk.ids },
             deliveries := w.deliveries ++ [(d, outcome)] }
  match d.job.handle Roster.gateway w.config.defaults w.config.recordTime desk with
  | .ok result desk =>
    set (keep desk (.ok result))
    if result.wrote then note (.commit d.job.sessionId)
    pure (.ok result)
  | .error failure desk =>
    set (keep desk (.error failure))
    pure (.error failure)

/-- The session was loaded: the job is carried out, and the lock is free again. -/
def carryOut (id : TaskId) (slot : Slot) (e : Envelope) (d : Delivery) : Turn Progress := do
  let outcome ← handle d
  unlock d.job.sessionId
  match outcome with
  | .ok result => afterResult id slot e d.job result
  | .error failure => afterFailure id slot e d.job failure.text

/-- Loads the session; the lock is held. -/
def load (id : TaskId) (slot : Slot) (e : Envelope) (d : Delivery) : Turn Progress := do
  note (.load d.job.sessionId)
  let delay := (← get).config.gatewayDelay
  if delay = 0 then carryOut id slot e d
  else
    sleep id delay
    pure (.suspended (.loading d))

/-- The job of an envelope. All deliveries of an envelope have the same job id. -/
def jobOf (e : Envelope) : Option Job :=
  match Job.read (.obj e.data) with
  | .valid job => some { job with jobId := job.jobId.or (some e.id) }
  | .invalid _ => none

def invalidData : String := "Invalid job data"

def enter (id : TaskId) (slot : Slot) (e : Envelope) : Turn Progress := do
  if !handledNames.contains e.name then reject slot e ("Unknown job name: " ++ e.name)
  else
    match jobOf e with
    | none => reject slot e invalidData
    | some job =>
      let d : Delivery := { envelope := e.id, job }
      if ← lock id job.sessionId then load id slot e d else pure (.suspended (.locking d))

def proceed (id : TaskId) (slot : Slot) (stage : Stage) : Turn Progress := do
  match ← envelope? slot with
  | none => pure (.finished (.ok none))
  | some e =>
    match stage with
    | .entering => enter id slot e
    | .locking d =>
      lockAfterWait id d.job.sessionId
      load id slot e d
    | .loading d => carryOut id slot e d
    | .halting settlement => settle slot e settlement

end Turn

end SignalCoach.Worker
