import SignalCoach.Worker.Errand

/-! The order of turns: first come, first served. When nobody is ready, time moves to the next timer,
and all who wait for that time become ready. -/
namespace SignalCoach.Worker.World

/-- Time moves on; none if nobody waits for a time. -/
def moveOn (w : World) : Option World :=
  match w.timers with
  | [] => none
  | (time, _) :: _ =>
    let due := w.timers.filter fun timer => timer.1 ≤ time
    some { w with
      now := max w.now time
      timers := w.timers.filter fun timer => time < timer.1
      ready := w.ready ++ due.map fun timer => .turn timer.2 }

def step (w : World) : Option World :=
  match w.ready with
  | handle :: ready => some ((Turn.runHandle handle).run { w with ready }).2
  | [] => w.moveOn

def isDone (w : World) : Bool :=
  match w.errand with
  | .none => true
  | _ => false

/-- Runs until the scenario's errand is done, for a number of turns at most. -/
def settle : Nat → World → World
  | 0, w => w
  | fuel + 1, w =>
    if w.isDone then w
    else
      match w.step with
      | some w => settle fuel w
      | none => w

/-- The most turns of one errand. -/
def maxTurns : Nat := 10000000

def perform (errand : Turn Unit) (w : World) : World := settle maxTurns (errand.run w).2

end SignalCoach.Worker.World
