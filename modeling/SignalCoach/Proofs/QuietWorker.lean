import SignalCoach.Proofs.Turns

/-! An attempt at a job from its first turn to its settling, in a worker where nothing makes it wait:
no heartbeats, no lock that is taken, no delay at the gateway. -/
namespace SignalCoach.Worker.Turn

theorem run_bind (x : Turn α) (f : α → Turn β) (w : World) :
    (x >>= f).run w = (f (x.run w).1).run (x.run w).2 := rfl

theorem lock_run {w : World} (hlocks : w.locks = []) (id : TaskId) (session : String) :
    (lock id session).run w =
      (true, { w with locks := [{ session, users := 1, locked := true, waiters := [] }] }) := by
  obtain ⟨_, _, _, _, _, _, _, _, _, _, _, locks, _⟩ := w
  subst hlocks
  rfl

def soleLock (session : String) : SessionLock where
  session
  users := 1
  locked := true
  waiters := []

theorem modifyLock_run {w : World} {l : SessionLock} (session : String) (hlocks : w.locks = [l])
    (hsession : l.session = session) (f : SessionLock → SessionLock) :
    (modifyLock session f).run w = ((), { w with locks := [f l] }) := by
  change ((), { w with locks := w.locks.map _ }) = _
  rw [hlocks, List.map_singleton, if_pos hsession]

theorem callNext_run {w : World} {l : SessionLock} (session : String) (hlocks : w.locks = [l])
    (hsession : l.session = session) (hwaiters : l.waiters = []) :
    (callNext session).run w = ((), w) := by
  have hfound : (lock? session).run w = (some l, w) := by
    change (w.locks.find? _, w) = _
    rw [hlocks, List.find?_singleton, if_pos (by simpa using hsession)]
  rw [callNext, run_bind, hfound]
  obtain ⟨_, _, locked, _⟩ := l
  subst hwaiters
  cases locked <;> rfl

theorem unlock_run {w : World} {session : String} (hlocks : w.locks = [soleLock session]) :
    (unlock session).run w = ((), { w with locks := [] }) := by
  rw [unlock, run_bind, modifyLock_run session hlocks rfl, run_bind, callNext_run session rfl rfl rfl,
    leave, run_bind, modifyLock_run session rfl rfl]
  change ((), { w with locks := List.filter _ _ }) = _
  simp [soleLock]

theorem handle_run {w : World} {d : Delivery} {result : JobResult} {desk : Desk Roster}
    (hwrote : result.wrote = true)
    (hhandle : d.job.handle Roster.gateway w.config.defaults w.config.recordTime
      { store := w.roster, ids := w.broker.ids, allowance := w.allowance } = .ok result desk) :
    (handle d).run w = (.ok result,
      { w with
          roster := desk.store
          allowance := desk.allowance
          broker := { w.broker with ids := desk.ids }
          deliveries := w.deliveries ++ [(d, .ok result)]
          trace := w.trace ++ [(w.now, .commit d.job.sessionId)] }) := by
  have hget : (get : Turn World).run w = (w, w) := rfl
  rw [handle, run_bind, hget]
  simp only [hhandle, hwrote, if_true]
  rfl

variable {w : World} {slot : Slot} {e : Envelope} {job : Job} {result : JobResult}
variable {desk : Desk Roster}

theorem afterResult_run (hheartbeat : w.config.heartbeat = none) (id : TaskId) :
    (afterResult id slot e job result).run w = (settle slot e (.acknowledge result)).run w := by
  rw [afterResult, run_bind]
  change (if w.config.heartbeat.isNone then _ else _ : Turn Progress).run w = _
  rw [hheartbeat]
  rfl

def handled (w : World) (d : Delivery) (result : JobResult) (desk : Desk Roster) : World :=
  { w with
    roster := desk.store
    allowance := desk.allowance
    broker := { w.broker with ids := desk.ids }
    deliveries := w.deliveries ++ [(d, .ok result)]
    trace := w.trace ++ [(w.now, .commit d.job.sessionId)] }

theorem carryOut_run {d : Delivery} (hlocks : w.locks = [soleLock d.job.sessionId])
    (hheartbeat : w.config.heartbeat = none) (hwrote : result.wrote = true)
    (hhandle : d.job.handle Roster.gateway w.config.defaults w.config.recordTime
      { store := w.roster, ids := w.broker.ids, allowance := w.allowance } = .ok result desk)
    (id : TaskId) :
    (carryOut id slot e d).run w =
      (settle slot e (.acknowledge result)).run { handled w d result desk with locks := [] } := by
  rw [carryOut, run_bind, handle_run hwrote hhandle, run_bind]
  have hunlock := unlock_run (w := handled w d result desk) hlocks
  unfold handled at hunlock
  rw [hunlock]
  exact afterResult_run (w := { handled w d result desk with locks := [] }) hheartbeat id

theorem load_run {d : Delivery} (hdelay : w.config.gatewayDelay = 0) (id : TaskId) :
    (load id slot e d).run w = (carryOut id slot e d).run
      { w with trace := w.trace ++ [(w.now, .load d.job.sessionId)] } := by
  rw [load, run_bind, run_bind]
  change (if w.config.gatewayDelay = 0 then _ else _ : Turn Progress).run _ = _
  rw [if_pos hdelay]
  rfl

theorem enter_run (hlocks : w.locks = []) (hname : e.name = Queue.evaluateName)
    (hjob : jobOf e = some job) (id : TaskId) :
    (enter id slot e).run w = (load id slot e { envelope := e.id, job }).run
      { w with locks := [soleLock job.sessionId] } := by
  have hhandled : handledNames.contains e.name = true := by
    rw [hname]
    decide
  unfold enter
  rw [hhandled, hjob]
  change (lock id job.sessionId >>= fun free => if free then _ else _ : Turn Progress).run w = _
  rw [run_bind, lock_run hlocks]
  rfl

theorem process_run {name : String} (hlocks : w.locks = []) (hdelay : w.config.gatewayDelay = 0)
    (hheartbeat : w.config.heartbeat = none) (henvelopes : w.envelopes = [(.named name, e)])
    (hname : e.name = Queue.evaluateName) (hjob : jobOf e = some job) (hwrote : result.wrote = true)
    (hhandle : job.handle Roster.gateway w.config.defaults w.config.recordTime
      { store := w.roster, ids := w.broker.ids, allowance := w.allowance } = .ok result desk) :
    (process name).run w =
      (settle (.named name) e (.acknowledge result) >>= continueErrand name).run
        (handled { w with trace := w.trace ++ [(w.now, .load job.sessionId)] }
          { envelope := e.id, job } result desk) := by
  have hfound : (envelope? (.named name)).run w = (some e, w) := by
    change ((w.envelopes.find? _).map _, w) = _
    rw [henvelopes, List.find?_singleton, if_pos (by simp)]
    rfl
  have hproceed : (proceed own (.named name) .entering).run w =
      (settle (.named name) e (.acknowledge result)).run
        (handled { w with trace := w.trace ++ [(w.now, .load job.sessionId)] }
          { envelope := e.id, job } result desk) := by
    rw [proceed, run_bind, hfound]
    change (enter own (.named name) e).run w = _
    rw [enter_run hlocks hname hjob, load_run (by exact hdelay), carryOut_run (by exact rfl)
      (by exact hheartbeat) hwrote (by exact hhandle)]
    obtain ⟨_, _, _, _, _, _, _, _, _, _, _, locks, _⟩ := w
    subst hlocks
    rfl
  rw [process, run_bind, hproceed, run_bind]

end SignalCoach.Worker.Turn
