import Mathlib.Logic.Function.Basic
import SignalCoach.Proofs.Phases
import SignalCoach.Proofs.WorkerRun

/-! A worker whose tasks go on in any order, phase by phase: between two phases of one task, any other
task may take a phase or a turn, and time may pass. -/
namespace SignalCoach.Worker

/-- What is asked of a worker in service: its consumers take all jobs, nobody stops them, and heartbeat
jobs come from heartbeats only. -/
def Order.InService : Order → Prop
  | .startWorker | .pass _ | .startBeat _ | .stopBeat _ | .stopAllBeats | .enqueueEvaluation _
  | .promoteDue | .refuse _ | .allow _ | .putSession _ | .dropSession _ | .putSnapshot _ => True
  | .enqueue name _ _ _ _ => name ≠ Queue.heartbeatName
  | _ => False

instance : DecidablePred Order.InService
  | .startWorker | .pass _ | .startBeat _ | .stopBeat _ | .stopAllBeats | .enqueueEvaluation _
  | .promoteDue | .refuse _ | .allow _ | .putSession _ | .dropSession _ | .putSnapshot _ =>
    isTrue trivial
  | .enqueue name _ _ _ _ => inferInstanceAs (Decidable (name ≠ Queue.heartbeatName))
  | .stop _ | .reserve _ _ _ | .process _ | .processAll _ | .reportBeat _ | .scheduleHeartbeat _ _
  | .recoverStalled | .complete _ | .fail _ _ _ => isFalse id

namespace World

def isCancelled (w : World) (id : TaskId) : Bool := (w.task? id).any (·.cancelled)

def isReported (w : World) (id : TaskId) (session : String) : Bool :=
  (w.beats.find? (·.session = session)).any fun b => b.task = id && b.signalled

/-- A turn that calls nothing may be taken now. Who waits for a report goes on when that has come. -/
def mayTake (w : World) (id : TaskId) : Bool :=
  match w.task? id with
  | some { cancelled := false, body, .. } =>
    match body with
    | .heartbeat session .waiting => w.isReported id session
    | _ => (w.phase? id).isNone
  | _ => true

end World

/-- A worker between two phases of its tasks. -/
structure PhaseState where
  world : World
  /-- The phases that come next, of tasks in the middle of a turn. -/
  midway : TaskId → Option Phase := fun _ => none
  /-- The envelope that a heartbeat was given for the job of its round. -/
  sent : TaskId → Option Envelope := fun _ => none

namespace PhaseState

def sentAfter (before : Option Envelope) : Option Phase → Option Envelope
  | some (.enqueuing _) => none
  | some (.enqueued _ answer) => answer.toOption.join
  | _ => before

def advance (f : PhaseState) (id : TaskId) (p : Phase) : PhaseState :=
  let result := (p.advance id).run f.world
  { world := result.2
    midway := Function.update f.midway id result.1
    sent := Function.update f.sent id (sentAfter (f.sent id) result.1) }

inductive Step (f : PhaseState) : PhaseState → Prop where
  | order (o : Order) (h : o.InService) : Step f { f with world := (o.turn.run f.world).2 }
  | time {w : World} (h : f.world.moveOn = some w) : Step f { f with world := w }
  /-- The order in which tasks become ready is left open. -/
  | reorder (ready : List Handle) : Step f { f with world := { f.world with ready } }
  | joined : Step f { f with world := (Turn.joined.run f.world).2 }
  /-- Of a task in the middle of a turn, only the end can come before its next phase. -/
  | turn (id : TaskId) (h : f.world.mayTake id = true)
      (hmidway : f.midway id = none ∨ f.world.isCancelled id = true) :
      Step f { f with world := ((Turn.take id).run f.world).2 }
  | begin {id : TaskId} {p : Phase} (hmidway : f.midway id = none) (h : f.world.phase? id = some p) :
      Step f { f with midway := Function.update f.midway id (some p) }
  | advance {id : TaskId} {p : Phase} (h : f.midway id = some p) : Step f (f.advance id p)

inductive Reaches (start : World) : PhaseState → Prop where
  | start : Reaches start { world := start }
  | step {f f' : PhaseState} (h : Reaches start f) (hstep : Step f f') : Reaches start f'

theorem Reaches.finish {start w w' : World} {id : TaskId} {p : Phase}
    (hfinishes : p.Finishes id w w') {midway : TaskId → Option Phase} {sent : TaskId → Option Envelope}
    (h : Reaches start { world := w, midway, sent }) (hmidway : midway id = some p) :
    ∃ sent, Reaches start { world := w', midway := Function.update midway id none, sent } := by
  induction hfinishes generalizing midway sent with
  | last hrun =>
    have hstep := h.step (.advance hmidway)
    rw [advance, hrun] at hstep
    exact ⟨_, hstep⟩
  | next hrun _ ih =>
    have hstep := h.step (.advance hmidway)
    rw [advance, hrun] at hstep
    obtain ⟨sent, hrest⟩ := ih hstep (Function.update_self ..)
    rw [Function.update_idem] at hrest
    exact ⟨sent, hrest⟩

/-- So a whole turn is one of the things that can happen. -/
theorem Reaches.take {start : World} {f : PhaseState} {id : TaskId} {p : Phase} (h : Reaches start f)
    (hmidway : f.midway id = none) (hp : f.world.phase? id = some p) :
    ∃ sent, Reaches start { f with world := ((Turn.take id).run f.world).2, sent } := by
  obtain ⟨sent, hrest⟩ := (h.step (.begin hmidway hp)).finish (Turn.take_finishes hp)
    (Function.update_self ..)
  rw [Function.update_idem, ← hmidway, Function.update_eq_self] at hrest
  exact ⟨sent, hrest⟩

/-- A step, as a choice of what happens next. -/
inductive Move where
  | order (o : Order)
  | time
  | reorder (ready : List Handle)
  | joined
  | turn (id : TaskId)
  | begin (id : TaskId)
  | advance (id : TaskId)

def next? (f : PhaseState) : Move → Option PhaseState
  | .order o => if o.InService then some { f with world := (o.turn.run f.world).2 } else none
  | .time => f.world.moveOn.map fun w => { f with world := w }
  | .reorder ready => some { f with world := { f.world with ready } }
  | .joined => some { f with world := (Turn.joined.run f.world).2 }
  | .turn id =>
    if f.world.mayTake id && ((f.midway id).isNone || f.world.isCancelled id) then
      some { f with world := ((Turn.take id).run f.world).2 }
    else none
  | .begin id =>
    if (f.midway id).isNone then
      (f.world.phase? id).map fun p => { f with midway := Function.update f.midway id (some p) }
    else none
  | .advance id => (f.midway id).map (f.advance id)

theorem step_of_next? {f f' : PhaseState} {move : Move} (h : f.next? move = some f') : Step f f' := by
  cases move with
  | order o =>
    obtain ⟨ho, h⟩ := Option.ite_none_right_eq_some.1 h
    obtain rfl := Option.some.inj h
    exact .order o ho
  | time =>
    obtain ⟨w, hw, rfl⟩ := Option.map_eq_some_iff.1 h
    exact .time hw
  | reorder ready =>
    obtain rfl := Option.some.inj h
    exact .reorder ready
  | joined =>
    obtain rfl := Option.some.inj h
    exact .joined
  | turn id =>
    obtain ⟨hmay, h⟩ := Option.ite_none_right_eq_some.1 h
    obtain rfl := Option.some.inj h
    rw [Bool.and_eq_true, Bool.or_eq_true, Option.isNone_iff_eq_none] at hmay
    exact .turn id hmay.1 hmay.2
  | begin id =>
    obtain ⟨hmidway, h⟩ := Option.ite_none_right_eq_some.1 h
    obtain ⟨p, hp, rfl⟩ := Option.map_eq_some_iff.1 h
    exact .begin (Option.isNone_iff_eq_none.1 hmidway) hp
  | advance id =>
    obtain ⟨p, hp, rfl⟩ := Option.map_eq_some_iff.1 h
    exact .advance hp

end PhaseState

end SignalCoach.Worker
