import SignalCoach.Worker.Consumer

/-! What a scenario does with a worker: reserve and process jobs itself, let time pass, and stop the
tasks. An errand may have to wait, and then the other tasks take their turns. -/
namespace SignalCoach.Worker.Turn

def own : TaskId := 0

def setErrand (errand : Errand) : Turn Unit := modify fun w => { w with errand }

def answer (answer : Answer) : Turn Unit := modify fun w => { w with answer, errand := .none }

def continueErrand (name : String) : Progress → Turn Unit
  | .suspended stage => setErrand (.processing name stage)
  | .finished outcome => answer (.processed outcome)

def process (name : String) : Turn Unit := do
  continueErrand name (← proceed own (.named name) .entering)

/-- The end of a reservation: a job is processed or not. -/
def takeUpFor (name : String) (processes : Bool) : Except Queue.Fault Queue.Reservation → Turn Unit
  | .ok (.job e) => do
    setEnvelope (.named name) e
    if processes then process name else answer (.reserved (.ok (some e)))
  | .ok _ => answer (if processes then .processed (.ok none) else .reserved (.ok none))
  | .error fault =>
    answer (if processes then .processed (.error fault) else .reserved (.error fault))

/-- Takes a job, and waits for one if there is none. -/
def reserve (name : String) (processes : Bool) (timeout : Nat) : Turn Unit := do
  match ← act (Queue.reserve (← get).clock) with
  | .ok .nothing =>
    setErrand (.reserving name processes)
    sleep own timeout
  | outcome => takeUpFor name processes outcome

def reserveAfterWait (name : String) (processes : Bool) : Turn Unit := do
  takeUpFor name processes (← act Queue.reserveAfterWait)

def gather (count : Nat) (stopsBeats : Bool) (done : Turn Unit) : Turn Unit :=
  if count = 0 then done else setErrand (.gathering count stopsBeats)

def spawnMembers (index : Nat) : List String → Turn Unit
  | [] => pure ()
  | name :: rest => do
    let id ← spawn (.member index name .entering)
    join id .group
    spawnMembers (index + 1) rest

def processAll (names : List String) : Turn Unit := do
  modify fun w => { w with members := [], answer := .none }
  spawnMembers 0 names
  gather names.length false (setErrand .none)

def memberTurn (id : TaskId) (index : Nat) (name : String) (stage : Stage) : Turn Unit := do
  match ← proceed id (.named name) stage with
  | .suspended stage => setBody id (.member index name stage)
  | .finished outcome =>
    modify fun w => { w with members := w.members ++ [(index, outcome)] }
    finish id

def pass (time : Nat) : Turn Unit := do
  answer .none
  setErrand .passing
  sleep own time

def drain : Turn Unit := do
  if (← get).ready.isEmpty then setErrand .none
  else
    setErrand .draining
    schedule (.turn own)

def haltBeats : List String → Turn Unit
  | [] => setErrand .none
  | session :: rest => do
    if ← haltBeat own session then setErrand (.halting rest) else haltBeats rest

def stopBeat (session : String) : Turn Unit := do
  answer (.flag (← isBeating session))
  haltBeats [session]

def stopAllBeats : Turn Unit := do
  answer .none
  haltBeats ((← get).beats.map (·.session))

def stop (stopsBeats : Bool) : Turn Unit := do
  answer .none
  gather (← stopWorker) stopsBeats (if stopsBeats then stopAllBeats else setErrand .none)

def errandTurn : Turn Unit := do
  match (← get).errand with
  | .none => pure ()
  | .reserving name processes => reserveAfterWait name processes
  | .processing name stage => do continueErrand name (← proceed own (.named name) stage)
  | .passing => drain
  | .draining => drain
  | .gathering _ stopsBeats => if stopsBeats then stopAllBeats else setErrand .none
  | .halting rest => haltBeats rest

def joined : Turn Unit := do
  match (← get).errand with
  | .gathering left stopsBeats =>
    setErrand (.gathering (left - 1) stopsBeats)
    if left ≤ 1 then schedule (.turn own)
  | _ => pure ()

/-- A turn of a task. A task that has ended takes no turn. -/
def take (id : TaskId) : Turn Unit := do
  match (← get).task? id with
  | none => pure ()
  | some task =>
    match task.body with
    | .errand => errandTurn
    | .heartbeat session beating => beatTurn id session task.cancelled beating
    | .consumer consuming => consumerTurn id task.cancelled consuming
    | .member index name stage => memberTurn id index name stage

def runHandle : Handle → Turn Unit
  | .turn id => take id
  | .joined => joined

end SignalCoach.Worker.Turn
