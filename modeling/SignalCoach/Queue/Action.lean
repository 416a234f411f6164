import SignalCoach.Queue.Contents

/-! Programs of queue commands. Any command may be refused, and then it changes nothing; the program
ends there unless it handles the fault. -/
namespace SignalCoach.Queue

/-- Why a program on the queue ends early. -/
inductive Fault where
  | unreachable
  | broken
  /-- A document cannot be written. -/
  | unwritable
  /-- A number has too many digits to be written. -/
  | overlong
deriving DecidableEq

/-- The next refusals: some commands are still carried out, then some are refused. -/
structure Outage where
  skip : Nat := 0
  count : Nat := 0
  fault : Fault := .unreachable

namespace Outage

/-- Whether the next command is refused, and what is left of the outage. -/
def next (outage : Outage) : Bool × Outage :=
  match outage.skip, outage.count with
  | skip + 1, _ => (false, { outage with skip })
  | 0, count + 1 => (true, { outage with count })
  | 0, 0 => (false, outage)

end Outage

structure Broker where
  contents : Contents := {}
  outage : Outage := {}
  ids : IdSupply := {}

/-- A program keeps what it did before a fault. -/
abbrev Action := EStateM Fault Broker

namespace Action

def command (f : Contents → α × Contents) : Action α := fun broker =>
  match broker.outage.next with
  | (true, outage) => .error broker.outage.fault { broker with outage }
  | (false, outage) =>
    let (a, contents) := f broker.contents
    .ok a { broker with contents, outage }

def perform (f : Contents → Contents) : Action Unit := command fun c => ((), f c)

def ask (f : Contents → α) : Action α := command fun c => (f c, c)

def freshId : Action String := fun broker =>
  let (id, ids) := broker.ids.draw
  .ok id { broker with ids }

def decode (entry : Entry) : Action (Except Envelope.Malformed Envelope) := fun broker =>
  let (envelope, ids) := Envelope.decode entry broker.ids
  .ok envelope { broker with ids }

def encode (e : Envelope) : Action Entry :=
  match e.encode? with
  | some entry => pure entry
  | none => throw .unwritable

end Action

end SignalCoach.Queue
