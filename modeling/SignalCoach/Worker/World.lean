import SignalCoach.Queue.Delivery
import SignalCoach.Worker.Roster

/-! One worker process: its tasks, the clock, and all that the tasks share. Tasks take turns. A turn
runs to the point where its task has to wait; time moves only while every task waits. -/
namespace SignalCoach.Worker

/-- Tasks are numbered as they are made. The number 0 is the scenario's own task. -/
abbrev TaskId := Nat

inductive Slot where
  | named (name : String)
  | consumer (task : TaskId)
deriving DecidableEq

/-- What is left to do for a job when its session's heartbeat has ended. -/
inductive Settlement where
  | acknowledge (result : JobResult)
  | fail (error : String)

structure Delivery where
  envelope : String
  job : Job

/-- Where the processing of an envelope waits. -/
inductive Stage where
  | entering
  | locking (d : Delivery)
  /-- For the session to be loaded; the lock is held. -/
  | loading (d : Delivery)
  | halting (settlement : Settlement)

/-- Where a heartbeat waits: for its first turn, for the next round, for its job to be reported. -/
inductive Beating where
  | starting | sleeping | waiting
deriving DecidableEq

/-- Where a consumer waits. -/
inductive Consuming where
  | looking
  | polling
  | pausing
  | delivering (stage : Stage)

abbrev Processed := Except Queue.Fault (Option JobResult)

/-- What the scenario's own task waits for. -/
inductive Errand where
  | none
  /-- For a job, which is then processed or not. -/
  | reserving (name : String) (processes : Bool)
  | processing (name : String) (stage : Stage)
  | passing
  | draining
  /-- For a number of tasks to end; then for the heartbeats to end, if they are stopped too. -/
  | gathering (left : Nat) (stopsBeats : Bool)
  /-- For a heartbeat to end, and then those of other sessions. -/
  | halting (rest : List String)

inductive Answer where
  | none
  | reserved (outcome : Except Queue.Fault (Option Envelope))
  | processed (outcome : Processed)
  | flag (b : Bool)

inductive Body where
  | errand
  | heartbeat (session : String) (beating : Beating)
  | consumer (consuming : Consuming)
  /-- One of several envelopes that are processed at the same time. -/
  | member (index : Nat) (name : String) (stage : Stage)

inductive Joiner where
  | task (id : TaskId)
  /-- The scenario, for this task among others. -/
  | group
deriving DecidableEq

structure Task where
  id : TaskId
  body : Body
  /-- The task ends at its next turn. -/
  cancelled : Bool := false
  joiners : List Joiner := []

inductive Handle where
  | turn (task : TaskId)
  | joined
deriving DecidableEq

/-- The lock of a session, there as long as anybody uses it. -/
structure SessionLock where
  session : String
  users : Nat
  locked : Bool
  /-- In order of arrival, each with whether it was called. -/
  waiters : List (TaskId × Bool)

structure Beat where
  session : String
  task : TaskId
  signalled : Bool := false

inductive Event where
  | load (session : String)
  | commit (session : String)

/-- How a worker is set up. Times are in milliseconds. -/
structure Config where
  retries : Queue.Retries
  concurrency : Nat
  poll : Nat
  /-- The time between two rounds of a heartbeat; none if there are no heartbeats. -/
  heartbeat : Option Nat
  gatewayDelay : Nat := 0
  defaults : Thresholds := .standard
  recordTime : Timestamp
  /-- What the queue's clock shows at the start. -/
  clockStart : Int

structure World where
  config : Config
  now : Nat := 0
  broker : Queue.Broker := {}
  roster : Roster := {}
  /-- The writes that still succeed; all of them if there is no number. -/
  allowance : Option Nat := none
  trace : List (Nat × Event) := []
  /-- The jobs that were carried out, with what came of them. -/
  deliveries : List (Delivery × Except Failure JobResult) := []
  running : Bool := false
  consumers : List TaskId := []
  processed : Nat := 0
  failed : Nat := 0
  locks : List SessionLock := []
  beats : List Beat := []
  /-- The sessions whose heartbeat job was not reported yet. -/
  outstanding : List String := []
  envelopes : List (Slot × Envelope) := []
  tasks : List Task := [{ id := 0, body := .errand }]
  nextTask : TaskId := 1
  ready : List Handle := []
  /-- The tasks that wait for a time, by time and then in order of arrival. -/
  timers : List (Nat × TaskId) := []
  errand : Errand := .none
  answer : Answer := .none
  members : List (Nat × Processed) := []

abbrev Turn := StateM World

namespace World

def clock (w : World) : Int := w.config.clockStart + w.now

def task? (w : World) (id : TaskId) : Option Task := w.tasks.find? (·.id = id)

end World

namespace Turn

def modifyTask (id : TaskId) (f : Task → Task) : Turn Unit :=
  modify fun w => { w with tasks := w.tasks.map fun t => if t.id = id then f t else t }

def setBody (id : TaskId) (body : Body) : Turn Unit := modifyTask id fun t => { t with body }

def schedule (handle : Handle) : Turn Unit :=
  modify fun w => { w with ready := w.ready ++ [handle] }

/-- The task goes on before any other takes a turn. -/
def goOn (id : TaskId) : Turn Unit := modify fun w => { w with ready := .turn id :: w.ready }

def insertTimer (time : Nat) (id : TaskId) : List (Nat × TaskId) → List (Nat × TaskId)
  | [] => [(time, id)]
  | other :: rest =>
    if time < other.1 then (time, id) :: other :: rest else other :: insertTimer time id rest

/-- Waits; a wait of no time lets the tasks that are ready go first. -/
def sleep (id : TaskId) (time : Nat) : Turn Unit := do
  if time = 0 then schedule (.turn id)
  else modify fun w => { w with timers := insertTimer (w.now + time) id w.timers }

def spawn (body : Body) : Turn TaskId := do
  let w ← get
  let id := w.nextTask
  set { w with tasks := w.tasks ++ [({ id, body } : Task)], nextTask := id + 1 }
  schedule (.turn id)
  pure id

/-- Makes the next turn of a task its last one. A task that waits gets that turn at once. -/
def cancel (id : TaskId) : Turn Unit := do
  modifyTask id fun t => { t with cancelled := true }
  let w ← get
  if !w.ready.contains (.turn id) then
    set { w with timers := w.timers.filter fun timer => timer.2 ≠ id }
    schedule (.turn id)

def join (id : TaskId) (joiner : Joiner) : Turn Unit :=
  modifyTask id fun t => { t with joiners := t.joiners ++ [joiner] }

def wake : Joiner → Turn Unit
  | .task id => schedule (.turn id)
  | .group => schedule .joined

def finish (id : TaskId) : Turn Unit := do
  let w ← get
  set { w with tasks := w.tasks.filter (·.id ≠ id) }
  for joiner in ((w.task? id).map (·.joiners)).getD [] do wake joiner

def act (action : Queue.Action α) : Turn (Except Queue.Fault α) := do
  let w ← get
  match action w.broker with
  | .ok a broker =>
    set { w with broker }
    pure (.ok a)
  | .error fault broker =>
    set { w with broker }
    pure (.error fault)

def note (event : Event) : Turn Unit :=
  modify fun w => { w with trace := w.trace ++ [(w.now, event)] }

def setEnvelope (slot : Slot) (e : Envelope) : Turn Unit :=
  modify fun w => { w with envelopes := Roster.put (·.1 = slot) (slot, e) w.envelopes }

end Turn

end SignalCoach.Worker
