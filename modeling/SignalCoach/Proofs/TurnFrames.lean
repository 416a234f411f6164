import SignalCoach.Proofs.Turns

/-! What the parts of a turn leave alone that have to do with tasks, heartbeats and records: the queue,
the envelopes, the counts, and who has which lock. -/
namespace SignalCoach.Worker

namespace World

def unrecorded (w : World) : World :=
  { w with
    trace := []
    deliveries := []
    roster := {}
    allowance := none
    broker := { w.broker with ids := {} } }

def unattended (w : World) : World :=
  { w.unrecorded with
    tasks := []
    nextTask := 0
    ready := []
    timers := []
    beats := []
    outstanding := []
    locks := w.locks.map fun l => { l with waiters := [] } }

end World

namespace Turn

section Records

theorem note_maintains (event : Event) : Maintains World.unrecorded (note event) := fun _ => rfl

/-- A job is handled on its session's records and on nothing else. -/
theorem handle_maintains (d : Delivery) : Maintains World.unrecorded (handle d) :=
  .get_bind fun w => by
    dsimp only
    split
    next result desk _ => cases result.wrote <;> rfl
    next => rfl

end Records

section Tasks

theorem schedule_maintains (handle : Handle) : Maintains World.unattended (schedule handle) :=
  fun _ => rfl

theorem sleep_maintains (id : TaskId) (time : Nat) : Maintains World.unattended (sleep id time) :=
  .ite (schedule_maintains _) fun _ => rfl

theorem modifyTask_maintains (id : TaskId) (f : Task → Task) :
    Maintains World.unattended (modifyTask id f) :=
  fun _ => rfl

theorem spawn_maintains (body : Body) : Maintains World.unattended (spawn body) := fun _ => rfl

theorem cancel_maintains (id : TaskId) : Maintains World.unattended (cancel id) :=
  .bind (modifyTask_maintains id _) fun _ => .get_bind fun w => by
    split <;> rfl

end Tasks

section Heartbeats

theorem startBeat_maintains (session : String) : Maintains World.unattended (startBeat session) :=
  .bind (fun _ => rfl) fun _ => .ite (.answer _) <|
    .bind (spawn_maintains _) fun _ => .bind (fun _ => rfl) fun _ => .answer _

theorem reportBeat_maintains (session : String) : Maintains World.unattended (reportBeat session) :=
  .bind (fun _ => rfl) fun beat => by
    split
    · exact .bind (fun _ => rfl) fun _ =>
        .get_bind fun w => Within.ite (schedule_maintains _) (.answer _) w
    · exact .answer _

theorem haltBeat_maintains (waiter : TaskId) (session : String) :
    Maintains World.unattended (haltBeat waiter session) :=
  .bind (fun _ => rfl) fun beat => .bind (fun _ => rfl) fun _ => .bind (fun _ => rfl) fun _ => by
    cases beat with
    | none => exact .answer _
    | some beat =>
      exact .bind (cancel_maintains _) fun _ => .bind (modifyTask_maintains _ _) fun _ => .answer _

end Heartbeats

section Locks

theorem modifyWaiters_maintains (session : String) (f : SessionLock → List (TaskId × Bool)) :
    Maintains World.unattended (modifyLock session fun l => { l with waiters := f l }) := by
  intro w
  have hlocks : (w.locks.map fun l => if l.session = session then { l with waiters := f l } else l).map
      (fun l => { l with waiters := [] }) = w.locks.map fun l => { l with waiters := [] } := by
    rw [List.map_map]
    refine List.map_congr_left fun l _ => ?_
    simp only [Function.comp]
    split <;> rfl
  exact congrArg (fun locks => ({ w.unattended with locks } : World)) hlocks

theorem callNext_maintains (session : String) : Maintains World.unattended (callNext session) :=
  .bind (fun _ => rfl) fun found => by
    split
    · exact .bind (modifyWaiters_maintains session _) fun _ => schedule_maintains _
    · exact .answer _

end Locks

end Turn

end SignalCoach.Worker
