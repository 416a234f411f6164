import SignalCoach.Connection
import SignalCoach.Settings
import SignalCoach.Worker.Run

/-! The service: it connects, takes back what an earlier run left in processing, works until it is
told to stop, and closes what it opened. -/
namespace SignalCoach.Worker

inductive Startup where
  | succeeds
  | fails
  /-- It never answers. -/
  | hangs
deriving DecidableEq

namespace Service

inductive Fault where
  | database
  | databaseTimeout
  | refused
  | queueTimeout
  | queue (fault : Queue.Fault)

/-- Milliseconds within which the database has to be there. -/
def databaseTimeout : Nat := 30000

/-- Milliseconds within which the queue has to be there. -/
def queueTimeout : Nat := 10000

inductive Entry where
  | databaseOpened
  | databaseClosed

structure Report where
  fault : Option Fault
  log : List (Nat × Entry)
  connection : Connection
  world : World

def milliseconds (seconds : Double) : Nat :=
  if seconds.isNegative then 0
  else
    let (num, den) := Double.ratio seconds.magnitude
    Double.roundDiv (num * 1000) den

def config (s : Settings) (recordTime : Timestamp) (clockStart : Int) : Config where
  retries := { maxAttempts := s.evaluateMaxAttempts, backoff := s.evaluateBackoff }
  concurrency := max 1 s.evaluatorConcurrency.toNat
  poll := milliseconds s.queuePollInterval
  heartbeat := some s.heartbeatDelay.toNat
  defaults := s.thresholds
  recordTime
  clockStart

/-- Takes back what was left in processing, and looks at the queue. -/
def recover (w : World) : Option Queue.Fault × World :=
  match (Turn.act (do let _ ← Queue.recoverStalled; Queue.counts)).run w with
  | (.ok _, w) => (none, w)
  | (.error fault, w) => (some fault, w)

/-- Works for a time. Told to stop beforehand, the consumers take no turn. -/
def work (time : Nat) (w : World) : World :=
  let w := w.perform Turn.startWorker
  let w := if time = 0 then w else w.perform (Turn.pass time)
  w.perform (Turn.stop true)

/-- With the database there: the queue is connected, and the worker works. -/
def connected (queue : Startup) (time : Nat) (w : World) : Option Fault × Connection × World :=
  match queue with
  | .fails => (some .refused, (({} : Connection).init .refused).2, w)
  | .hangs =>
    (some .queueTimeout, (({} : Connection).init .failed).2, { w with now := w.now + queueTimeout })
  | .succeeds =>
    let connection := (({} : Connection).init .answered).2
    match recover w with
    | (some fault, w) => (some (.queue fault), connection.close, w)
    | (none, w) => (none, connection.close, work time w)

def run (database queue : Startup) (time : Nat) (w : World) : Report :=
  let opened := (w.now, .databaseOpened)
  match database with
  | .fails => { fault := some .database, log := [opened], connection := {}, world := w }
  | .hangs =>
    { fault := some .databaseTimeout, log := [opened], connection := {},
      world := { w with now := w.now + databaseTimeout } }
  | .succeeds =>
    let (fault, connection, w) := connected queue time w
    { fault, log := [opened, (w.now, .databaseClosed)], connection, world := w }

end Service

end SignalCoach.Worker
