import SignalCoach.Queue.Action
import SignalCoach.Record.Job

/-! The operations of the queue. A job goes from ready to processing when it is reserved; it leaves
processing when it is complete, or when it failed and is delayed for a retry or laid aside. -/
namespace SignalCoach.Queue

open Queue.Action

structure Retries where
  maxAttempts : Int
  backoff : Int

def evaluateName : String := "evaluate"
def heartbeatName : String := "heartbeat"

/-- Puts an entry on the schedule. Its due time is written in decimal before the command is sent. -/
def delay (due : Int) (entry : Entry) : Action Unit :=
  if Text.isPrintable due then perform (Contents.delay due entry) else throw .overlong

/-- Adds a job, ready at once or after a delay. The envelope has one attempt at least. -/
def enqueue (now : Int) (name : String) (data : Fields) (maxAttempts backoff delay : Int) :
    Action Envelope := do
  let id ← freshId
  let envelope : Envelope :=
    { name, data, id, maxAttempts := max 1 maxAttempts, backoff, enqueuedAt := now }
  let entry ← encode envelope
  if 0 < delay then Queue.delay (now + delay) entry
  else perform (Contents.pushReady entry)
  pure envelope

def messageFields (job : Job) : Fields :=
  match job.message with
  | .obj fields => fields
  | _ => []

def enqueueEvaluation (retries : Retries) (now : Int) (job : Job) : Action Envelope :=
  enqueue now evaluateName (messageFields job) retries.maxAttempts retries.backoff 0

/-- Adds a heartbeat job of one attempt; none if the queue cannot be reached. -/
def scheduleHeartbeat (now : Int) (sessionId : String) (delay : Int) : Action (Option Envelope) :=
  let job : Job := { sessionId, trigger := some .heartbeat }
  tryCatch (some <$> enqueue now heartbeatName (messageFields job) 1 0 delay) fun fault =>
    if fault = .unreachable then pure none else throw fault

/-- Only the one who takes an entry off the schedule makes it ready. -/
def promote : List Entry → Action Nat
  | [] => pure 0
  | entry :: rest => do
    if ← command (Contents.undelay entry) then
      perform (Contents.pushReady entry)
      pure ((← promote rest) + 1)
    else promote rest

def promoteDue (now : Int) : Action Nat := do promote (← ask (Contents.due now))

/-- Promotes what is due and takes the oldest ready entry, if there is one. -/
def take (now : Int) : Action (Option Entry) := do
  let _ ← promoteDue now
  command Contents.take

/-- A second look at the ready entries, at the end of a wait. -/
def takeAfterWait : Action (Option Entry) := fun broker =>
  let (entry, contents) := broker.contents.take
  .ok entry { broker with contents }

/-- What a look for the next job came to. -/
inductive Reservation where
  | nothing
  | unreadable
  | job (e : Envelope)

/-- The envelope of an entry that was taken. One that cannot be read is laid aside. -/
def opened (entry : Entry) : Action Reservation := do
  match ← decode entry with
  | .ok envelope => pure (.job envelope)
  | .error _ =>
    perform (Contents.settle entry)
    perform (Contents.pushFailed entry)
    pure .unreadable

def openedOrNothing : Option Entry → Action Reservation
  | some entry => opened entry
  | none => pure .nothing

def reserve (now : Int) : Action Reservation := do openedOrNothing (← take now)

def reserveAfterWait : Action Reservation := do openedOrNothing (← takeAfterWait)

def held (e : Envelope) : Action Entry :=
  match e.stored with
  | some entry => pure entry
  | none => encode e

/-- Acknowledges a job: it is gone for good. -/
def complete (e : Envelope) : Action Unit := do perform (Contents.settle (← held e))

/-- Delays a failed job for its retry, true, or lays it aside, false. -/
def reschedule (now : Int) (e : Envelope) (entry : Entry) (retry : Bool) : Action Bool := do
  if retry && !e.exhausted then
    delay (now + e.retryDelay) entry
    pure true
  else
    perform (Contents.pushFailed entry)
    pure false

/-- Records a failed attempt: whether the job was delayed, and its new envelope. -/
def fail (now : Int) (e : Envelope) (error : String) (retry : Bool) : Action (Bool × Envelope) := do
  let before ← held e
  let e := e.failed error
  let entry ← encode e
  perform (Contents.settle before)
  let delayed ← reschedule now e entry retry
  pure (delayed, { e with stored := some entry })

def recover : Nat → Action Nat
  | 0 => pure 0
  | fuel + 1 => do
    if ← command Contents.restore then pure ((← recover fuel) + 1) else pure 0

/-- Moves what is left in processing back to ready, one entry after the other; their number. -/
def recoverStalled : Action Nat := do
  let broker ← get
  recover (broker.contents.processing.length + 1)

def openedAll : List Entry → Action (List Envelope)
  | [] => pure []
  | entry :: rest => do
    match ← decode entry with
    | .ok envelope => pure (envelope :: (← openedAll rest))
    | .error _ => openedAll rest

def failedJobs (limit : Int) : Action (List Envelope) := do
  openedAll (← ask (Contents.failedUpTo (limit - 1)))

def counts : Action Counts := do
  let ready ← ask fun c => c.ready.length
  let processing ← ask fun c => c.processing.length
  let delayed ← ask fun c => c.delayed.length
  let failed ← ask fun c => c.failed.length
  pure { ready, processing, delayed, failed }

def key (keyspace queue part : String) : String := keyspace ++ ":" ++ queue ++ ":" ++ part

def parts : List String := ["ready", "processing", "delayed", "failed"]

end SignalCoach.Queue
