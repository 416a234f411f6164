import SignalCoach.Worker.World

/-! The locks of sessions: the jobs of one session are carried out one after the other, in order of
arrival. -/
namespace SignalCoach.Worker.Turn

def modifyLock (session : String) (f : SessionLock → SessionLock) : Turn Unit :=
  modify fun w => { w with locks := w.locks.map fun l => if l.session = session then f l else l }

def lock? (session : String) : Turn (Option SessionLock) := do
  pure ((← get).locks.find? (·.session = session))

/-- Takes the lock of a session if it is free, true, or waits for it. -/
def lock (id : TaskId) (session : String) : Turn Bool := do
  match ← lock? session with
  | none =>
    modify fun w => { w with locks := w.locks ++ [{ session, users := 1, locked := true, waiters := [] }] }
    pure true
  | some l =>
    let free := !l.locked && l.waiters.isEmpty
    modifyLock session fun l =>
      if free then { l with users := l.users + 1, locked := true }
      else { l with users := l.users + 1, waiters := l.waiters ++ [(id, false)] }
    pure free

def lockAfterWait (id : TaskId) (session : String) : Turn Unit :=
  modifyLock session fun l => { l with locked := true, waiters := l.waiters.filter (·.1 ≠ id) }

/-- Calls the one who has waited longest, if the lock is free and nobody was called. -/
def callNext (session : String) : Turn Unit := do
  match ← lock? session with
  | some { locked := false, waiters := (id, false) :: rest, .. } =>
    modifyLock session fun l => { l with waiters := (id, true) :: rest }
    schedule (.turn id)
  | _ => pure ()

/-- One user less; a lock that nobody uses is gone. -/
def leave (session : String) : Turn Unit := do
  modifyLock session fun l => { l with users := l.users - 1 }
  modify fun w => { w with locks := w.locks.filter fun l => l.session ≠ session || 0 < l.users }

def unlock (session : String) : Turn Unit := do
  modifyLock session fun l => { l with locked := false }
  callNext session
  leave session

def abandonLock (id : TaskId) (session : String) : Turn Unit := do
  modifyLock session fun l => { l with waiters := l.waiters.filter (·.1 ≠ id) }
  callNext session
  leave session

end SignalCoach.Worker.Turn
