import SignalCoach.Queue.Envelope

/-! What the queue holds: three lists and a schedule, changed by atomic commands only. -/
namespace SignalCoach.Queue

/-- The order of the bytes, an entry that another one continues coming first. -/
def entryBefore (a b : Entry) : Bool := decide (a < b)

structure Contents where
  ready : List Entry := []
  processing : List Entry := []
  /-- Entries with their due times, by time and then by bytes; no entry stands here twice. -/
  delayed : List (Int × Entry) := []
  failed : List Entry := []

structure Counts where
  ready : Nat
  processing : Nat
  delayed : Nat
  failed : Nat
deriving DecidableEq

namespace Contents

def pushReady (entry : Entry) (c : Contents) : Contents := { c with ready := c.ready ++ [entry] }

def pushFailed (entry : Entry) (c : Contents) : Contents := { c with failed := c.failed ++ [entry] }

def pushProcessing (entry : Entry) (c : Contents) : Contents :=
  { c with processing := c.processing ++ [entry] }

def settle (entry : Entry) (c : Contents) : Contents :=
  { c with processing := c.processing.erase entry }

/-- Moves the oldest ready entry behind those in processing. -/
def take (c : Contents) : Option Entry × Contents :=
  match c.ready with
  | [] => (none, c)
  | entry :: ready => (some entry, { c with ready, processing := c.processing ++ [entry] })

/-- Moves the oldest entry in processing in front of the ready ones. -/
def restore (c : Contents) : Bool × Contents :=
  match c.processing with
  | [] => (false, c)
  | entry :: processing => (true, { c with processing, ready := entry :: c.ready })

def scheduledBefore (a b : Int × Entry) : Bool :=
  a.1 < b.1 || (a.1 = b.1 && entryBefore a.2 b.2)

def schedule (due : Int) (entry : Entry) : List (Int × Entry) → List (Int × Entry)
  | [] => [(due, entry)]
  | other :: rest =>
    if scheduledBefore (due, entry) other then (due, entry) :: other :: rest
    else other :: schedule due entry rest

def without (entry : Entry) (delayed : List (Int × Entry)) : List (Int × Entry) :=
  delayed.filter fun other => other.2 ≠ entry

/-- An entry that was delayed already gets the new due time. -/
def delay (due : Int) (entry : Entry) (c : Contents) : Contents :=
  { c with delayed := schedule due entry (without entry c.delayed) }

def due (now : Int) (c : Contents) : List Entry :=
  (c.delayed.filter fun other => other.1 ≤ now).map Prod.snd

/-- Takes an entry off the schedule; false if it was not there. -/
def undelay (entry : Entry) (c : Contents) : Bool × Contents :=
  (c.delayed.any fun other => other.2 = entry, { c with delayed := without entry c.delayed })

/-- The failed entries from the first to the one at `stop`; a negative `stop` counts from the end. -/
def failedUpTo (stop : Int) (c : Contents) : List Entry :=
  let stop := if stop < 0 then stop + c.failed.length else stop
  c.failed.take (stop + 1).toNat

end Contents

end SignalCoach.Queue
