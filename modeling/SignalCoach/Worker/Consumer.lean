import SignalCoach.Worker.Delivery

/-! Consumers: tasks that take one job after the other from the queue. -/
namespace SignalCoach.Worker.Turn

/-- Waits at the empty queue, or after a failure. -/
def rest (id : TaskId) (consuming : Consuming) : Turn Unit := do
  setBody id (.consumer consuming)
  sleep id (← get).config.poll

def lookAgain (id : TaskId) : Turn Unit := do
  setBody id (.consumer .looking)
  goOn id

/-- After a part of the processing: wait, or look for the next job. A failure of the queue leaves the
envelope where it is. -/
def continueWith (id : TaskId) : Progress → Turn Unit
  | .suspended stage => setBody id (.consumer (.delivering stage))
  | .finished (.ok _) => lookAgain id
  | .finished (.error _) => rest id .pausing

def deliver (id : TaskId) (stage : Stage) : Turn Unit := do
  continueWith id (← proceed id (.consumer id) stage)

/-- After a look at the queue: a job is processed, and where there is none the consumer waits. -/
def takeUp (id : TaskId) : Except Queue.Fault Queue.Reservation → Turn Unit
  | .ok (.job e) => do
    setEnvelope (.consumer id) e
    deliver id .entering
  | .ok .unreadable => lookAgain id
  | .ok .nothing => rest id .polling
  | .error _ => rest id .pausing

def look (id : TaskId) : Turn Unit := do
  if !(← get).running then finish id else takeUp id (← act (Queue.reserve (← get).clock))

/-- At the end of a wait, where nothing is no reason to wait on. -/
def lookAfterWait (id : TaskId) : Turn Unit := do
  match ← act Queue.reserveAfterWait with
  | .ok .nothing => lookAgain id
  | outcome => takeUp id outcome

/-- A consumer that is cancelled gives back the lock that it has or waits for. -/
def abandon (id : TaskId) : Consuming → Turn Unit
  | .delivering (.locking d) => do
    abandonLock id d.job.sessionId
    finish id
  | .delivering (.loading d) => do
    unlock d.job.sessionId
    finish id
  | _ => finish id

def consumerTurn (id : TaskId) (cancelled : Bool) (consuming : Consuming) : Turn Unit :=
  if cancelled then abandon id consuming
  else
    match consuming with
    | .looking => look id
    | .polling => lookAfterWait id
    | .pausing => lookAgain id
    | .delivering stage => deliver id stage

def startWorker : Turn Unit := do
  let w ← get
  if !w.running then
    set { w with running := true }
    let ids ← (List.replicate w.config.concurrency ()).mapM fun _ => spawn (.consumer .looking)
    modify fun w => { w with consumers := ids }

/-- The end of a heartbeat is waited for in any case. -/
def isHalting : Body → Bool
  | .consumer (.delivering (.halting _)) => true
  | _ => false

def cancelConsumer (id : TaskId) : Turn Unit := do
  match (← get).task? id with
  | some task => if !isHalting task.body then cancel id
  | none => pure ()

/-- Makes the consumers end; how many there are to wait for. -/
def stopWorker : Turn Nat := do
  let ids := (← get).consumers
  modify fun w => { w with running := false }
  for id in ids do cancelConsumer id
  for id in ids do join id .group
  modify fun w => { w with consumers := [] }
  pure ids.length

end SignalCoach.Worker.Turn
