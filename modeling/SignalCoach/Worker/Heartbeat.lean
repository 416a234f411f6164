import SignalCoach.Worker.World

/-! Heartbeats: a task for each live session that enqueues a job, waits until the job was reported,
and begins again after a while. -/
namespace SignalCoach.Worker.Turn

def beat? (session : String) : Turn (Option Beat) := do
  pure ((← get).beats.find? (·.session = session))

def isBeating (session : String) : Turn Bool := do pure (← beat? session).isSome

def isOutstanding (session : String) : Turn Bool := do
  pure ((← get).outstanding.contains session)

/-- Starts the heartbeat of a session; false if it is running. -/
def startBeat (session : String) : Turn Bool := do
  if ← isBeating session then pure false
  else
    let task ← spawn (.heartbeat session .starting)
    modify fun w => { w with beats := w.beats ++ [{ session, task }] }
    pure true

def isWaiting (w : World) (id : TaskId) : Bool :=
  match w.task? id with
  | some { body := .heartbeat _ .waiting, .. } => !w.ready.contains (.turn id)
  | _ => false

def reportBeat (session : String) : Turn Unit := do
  match ← beat? session with
  | some { signalled := false, task, .. } =>
    modify fun w => { w with
      beats := w.beats.map fun b => if b.session = session then { b with signalled := true } else b }
    if isWaiting (← get) task then schedule (.turn task)
  | _ => pure ()

def forgetOutstanding (session : String) : Turn Unit :=
  modify fun w => { w with outstanding := w.outstanding.filter (· ≠ session) }

/-- Stops the heartbeat of a session; true if a task has to wait for its end. -/
def haltBeat (waiter : TaskId) (session : String) : Turn Bool := do
  let beat ← beat? session
  modify fun w => { w with beats := w.beats.filter (·.session ≠ session) }
  forgetOutstanding session
  match beat with
  | none => pure false
  | some beat =>
    cancel beat.task
    join beat.task (.task waiter)
    pure true

/-- The next round begins after the delay. -/
def sleepBeat (id : TaskId) (session : String) : Turn Unit := do
  setBody id (.heartbeat session .sleeping)
  sleep id ((← get).config.heartbeat.getD 0)

/-- Enqueues the job of a round. If that fails, the next round has another try. -/
def tick (id : TaskId) (session : String) : Turn Unit := do
  modify fun w => { w with
    beats := w.beats.map fun b => if b.task = id then { b with signalled := false } else b }
  match ← act (Queue.scheduleHeartbeat (← get).clock session 0) with
  | .ok (some _) =>
    modify fun w => { w with outstanding := w.outstanding.filter (· ≠ session) ++ [session] }
    setBody id (.heartbeat session .waiting)
  | _ => sleepBeat id session

def beatTurn (id : TaskId) (session : String) (cancelled : Bool) (beating : Beating) :
    Turn Unit := do
  if beating = .waiting then forgetOutstanding session
  if cancelled then finish id
  else if beating = .sleeping then tick id session
  else sleepBeat id session

end SignalCoach.Worker.Turn
