import Mathlib.Logic.Function.Basic
import SignalCoach.Proofs.HeartbeatEntries
import SignalCoach.Proofs.Phases

/-! The relay of heartbeat jobs in a worker: which task has a job, which waits for a report, and every
way in which that can change. -/
namespace SignalCoach.Worker

open Queue (Contents Ordinary IsBeat)
open Queue.Contents (Waits TakesReady)

inductive Round where
  | resting | clearing | enqueuing
  /-- The job was enqueued or not, and the call has not returned. -/
  | called (enqueued : Bool)
  /-- For the report of the job. -/
  | waiting

/-- What a task has to do with the jobs of heartbeats. -/
inductive Place where
  | idle
  /-- A heartbeat; whether its job was reported, none if it is the heartbeat of its session no more. -/
  | beating (session : String) (signal : Option Bool) (round : Round)
  /-- A consumer has an envelope and has not told the heartbeat what came of it. -/
  | holding (e : Envelope)
  /-- A consumer has told the heartbeat, and the queue is to be told. -/
  | settling (e : Envelope)

namespace Place

def report (session : String) : Place → Place
  | .beating s signal round =>
    .beating s (if s = session then signal.map fun _ => true else signal) round
  | p => p

def halt (session : String) : Place → Place
  | .beating s signal round => .beating s (if s = session then none else signal) round
  | p => p

def ofPhase (signal : String → Option Bool) : Phase → Place
  | .clearing s => .beating s (signal s) .clearing
  | .enqueuing s => .beating s (signal s) .enqueuing
  | .enqueued s answer => .beating s (signal s) (.called answer.toOption.join.isSome)
  | .looking | .lookingAfterWait => .idle
  | .looked (.ok (.job e)) => .holding e
  | .looked _ => .idle
  | .entering e | .locked e _ | .handling e _ | .handled e _ _ => .holding e
  | .reported e _ => .settling e

def ofBody (signal : String → Option Bool) (slot : Option Envelope) : Body → Place
  | .heartbeat s .waiting => .beating s (signal s) .waiting
  | .heartbeat s _ => .beating s (signal s) .resting
  | .consumer (.delivering (.halting _)) => slot.elim .idle .settling
  | .consumer (.delivering _) => slot.elim .idle .holding
  | _ => .idle

end Place

structure Relay where
  queue : Contents
  place : TaskId → Place
  /-- The envelope that a heartbeat was given for the job of its round. -/
  sent : TaskId → Option Envelope

namespace Relay

def Beats (r : Relay) (session : String) : Prop :=
  ∃ id signal round, r.place id = .beating session (some signal) round

def move (r : Relay) (id : TaskId) (p : Place) : Relay :=
  { r with place := Function.update r.place id p }

@[simp] theorem queue_move (r : Relay) (id : TaskId) (p : Place) : (r.move id p).queue = r.queue := rfl

@[simp] theorem place_move_self (r : Relay) (id : TaskId) (p : Place) : (r.move id p).place id = p :=
  Function.update_self ..

theorem place_move_of_ne (r : Relay) {id i : TaskId} (p : Place) (hi : i ≠ id) :
    (r.move id p).place i = r.place i :=
  Function.update_of_ne hi _ _

inductive Change (r : Relay) : Relay → Prop where
  /-- Entries become ready that were delayed or are no heartbeat jobs. -/
  | queue {c : Contents}
      (h : Waits (fun entry => entry ∈ r.queue.delayedEntries ∨ Ordinary entry) Ordinary r.queue c) :
      Change r { r with queue := c }
  | take {id : TaskId} {entry : Entry} {c : Contents} {ids ids' : IdSupply} {e : Envelope}
      (hplace : r.place id = .idle) (htake : r.queue.TakesReady entry c)
      (hdecode : Envelope.decode entry ids = (.ok e, ids')) :
      Change r { r.move id (.holding e) with queue := c }
  | discard {entry : Entry} {c : Contents} {ids ids' : IdSupply} {m : Envelope.Malformed}
      (htake : r.queue.TakesReady entry c)
      (hdecode : Envelope.decode entry ids = (.error m, ids')) : Change r { r with queue := c }
  /-- A round begins, or the job of one was reported. -/
  | begin {id : TaskId} {session : String} {signal : Bool}
      (h : r.place id = .beating session (some signal) .resting) :
      Change r (r.move id (.beating session (some signal) .clearing))
  | clear {id : TaskId} {session : String} {signal : Option Bool}
      (h : r.place id = .beating session signal .clearing) :
      Change r { r.move id (.beating session (signal.map fun _ => false) .enqueuing) with
        sent := Function.update r.sent id none }
  | enqueue {id : TaskId} {session : String} {signal : Option Bool} {e : Envelope} {entry : Entry}
      (h : r.place id = .beating session signal .enqueuing) (hbeat : IsBeat session e)
      (hentry : e.encode? = some entry) :
      Change r { r.move id (.beating session signal (.called true)) with
        queue := r.queue.pushReady entry
        sent := Function.update r.sent id (some e) }
  | miss {id : TaskId} {session : String} {signal : Option Bool}
      (h : r.place id = .beating session signal .enqueuing) :
      Change r { r.move id (.beating session signal (.called false)) with
        sent := Function.update r.sent id none }
  | wait {id : TaskId} {session : String}
      (h : r.place id = .beating session (some false) (.called true)) :
      Change r (r.move id (.beating session (some false) .waiting))
  | rest {id : TaskId} {session : String} {signal : Bool} {round : Round}
      (h : r.place id = .beating session (some signal) round)
      (hround : round = .called false ∨ signal = true ∧ (round = .called true ∨ round = .waiting)) :
      Change r (r.move id (.beating session (some signal) .resting))
  /-- A heartbeat that was stopped ends. -/
  | cease {id : TaskId} {session : String} {round : Round} {p : Place}
      (h : r.place id = .beating session none round)
      (hp : p = .idle ∨ p = .beating session none .resting) : Change r (r.move id p)
  | halt (session : String) : Change r { r with place := fun i => (r.place i).halt session }
  | report {id : TaskId} {session : String} {e : Envelope} (h : r.place id = .holding e)
      (hbeat : e.isBeatOf session = true) :
      Change r (Relay.move { r with place := fun i => (r.place i).report session } id (.settling e))
  /-- No heartbeat waits for the report of the job. -/
  | release {id : TaskId} {e : Envelope} {p : Place} (h : r.place id = .holding e)
      (hbeats : ∀ session, e.isBeatOf session = true → ¬ r.Beats session)
      (hp : p = .idle ∨ p = .settling e) : Change r (r.move id p)
  /-- A job that failed may be delayed for another try. -/
  | settle {id : TaskId} {e : Envelope} {c : Contents} (h : r.place id = .settling e)
      (hwaits : Waits (fun _ => False) (fun entry => ∃ error, (e.failed error).exhausted = false ∧
        (e.failed error).encode? = some entry) r.queue c) :
      Change r { r.move id .idle with queue := c }

def Starts (id : TaskId) (session : String) (r r' : Relay) : Prop :=
  r.place id = .idle ∧ ¬ r.Beats session ∧ r' = r.move id (.beating session (some false) .resting)

inductive Changes (r : Relay) : Option (TaskId × String) → Relay → Prop where
  | none : Changes r none r
  | change {r₁ r₂ : Relay} (h : Changes r none r₁) (hchange : Change r₁ r₂) : Changes r none r₂
  | start {r₁ r₂ : Relay} {id : TaskId} {session : String} (h : Changes r none r₁)
      (hstart : Starts id session r₁ r₂) : Changes r (some (id, session)) r₂

theorem Changes.trans {r r₁ r₂ : Relay} {started : Option (TaskId × String)}
    (h : Changes r Option.none r₁) (h' : Changes r₁ started r₂) : Changes r started r₂ := by
  induction h' with
  | none => exact h
  | change _ hchange ih => exact (ih).change hchange
  | start _ hstart ih => exact ih.start hstart

theorem Change.changes {r r' : Relay} (h : Change r r') : Changes r Option.none r' :=
  Changes.none.change h

end Relay

end SignalCoach.Worker
