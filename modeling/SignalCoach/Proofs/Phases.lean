import SignalCoach.Proofs.QuietWorker

/-! The turns of heartbeats and consumers, phase by phase. A turn waits for nothing in the world, but
a call of the queue or of the store takes its time, and meanwhile the other tasks go on: a phase ends
where a call begins or returns. The phases of a turn, one right after the other, are the turn. -/
namespace SignalCoach.Worker

/-- What a task does next in the middle of a turn. -/
inductive Phase where
  /-- A round of a heartbeat begins: the signal of the last one is taken back. -/
  | clearing (session : String)
  | enqueuing (session : String)
  /-- The call has an answer, and has not returned. -/
  | enqueued (session : String) (answer : Except Queue.Fault (Option Envelope))
  | looking
  | lookingAfterWait
  | looked (outcome : Except Queue.Fault Queue.Reservation)
  | entering (e : Envelope)
  /-- The lock was called for this task. -/
  | locked (e : Envelope) (d : Delivery)
  | handling (e : Envelope) (d : Delivery)
  | handled (e : Envelope) (d : Delivery) (outcome : Except Failure JobResult)
  /-- The heartbeat knows what came of its job; the queue does not. -/
  | reported (e : Envelope) (settlement : Settlement)

def Phase.ofStage (e : Envelope) : Stage → Phase
  | .entering => .entering e
  | .locking d => .locked e d
  | .loading d => .handling e d
  | .halting settlement => .reported e settlement

namespace Turn

section Heartbeats

def clearSignal (id : TaskId) : Turn Unit :=
  modify fun w => { w with
    beats := w.beats.map fun b => if b.task = id then { b with signalled := false } else b }

def isSignalled (id : TaskId) (session : String) : Turn Bool := do
  pure ((← beat? session).any fun b => b.task = id && b.signalled)

def awaitReport (id : TaskId) (session : String) : Turn Unit := do
  modify fun w => { w with outstanding := w.outstanding.filter (· ≠ session) ++ [session] }
  if ← isSignalled id session then
    forgetOutstanding session
    sleepBeat id session
  else setBody id (.heartbeat session .waiting)

def returnBeat (id : TaskId) (session : String) (answer : Except Queue.Fault (Option Envelope)) :
    Turn Unit := do
  match (← get).task? id with
  | some { cancelled := false, .. } =>
    match answer with
    | .ok (some _) => awaitReport id session
    | _ => sleepBeat id session
  | _ => pure ()

end Heartbeats

section Consumers

def beginLoad (id : TaskId) (e : Envelope) (d : Delivery) : Turn (Option Phase) := do
  note (.load d.job.sessionId)
  let delay := (← get).config.gatewayDelay
  if delay = 0 then pure (some (.handling e d))
  else
    sleep id delay
    continueWith id (.suspended (.loading d))
    pure none

def refuse (id : TaskId) (e : Envelope) (error : String) : Turn (Option Phase) := do
  continueWith id (← reject (.consumer id) e error)
  pure none

def beginEntry (id : TaskId) (e : Envelope) : Turn (Option Phase) :=
  if !handledNames.contains e.name then refuse id e ("Unknown job name: " ++ e.name)
  else
    match jobOf e with
    | none => refuse id e invalidData
    | some job => do
      let d : Delivery := { envelope := e.id, job }
      if ← lock id job.sessionId then beginLoad id e d
      else
        continueWith id (.suspended (.locking d))
        pure none

def report (id : TaskId) (e : Envelope) (job : Job) :
    Except Failure JobResult → Turn (Bool × Settlement)
  | .ok result => do
    if (← get).config.heartbeat.isNone then pure (false, .acknowledge result)
    else if result.outcome = .sessionNotFound then
      pure (← haltBeat id job.sessionId, .acknowledge result)
    else
      if e.name = Queue.heartbeatName then reportBeat job.sessionId
      if result.outcome = .completed then
        let _ ← startBeat job.sessionId
      pure (false, .acknowledge result)
  | .error failure => do
    countFailed
    if (← get).config.heartbeat.isSome && e.name = Queue.heartbeatName then
      pure (← haltBeat id job.sessionId, .fail failure.text)
    else pure (false, .fail failure.text)

def afterReport (id : TaskId) (e : Envelope) : Bool × Settlement → Turn (Option Phase)
  | (true, settlement) => do
    continueWith id (.suspended (.halting settlement))
    pure none
  | (false, settlement) => pure (some (.reported e settlement))

end Consumers
end Turn

open Turn in
def Phase.advance (id : TaskId) : Phase → Turn (Option Phase)
  | .clearing session => do
    clearSignal id
    pure (some (.enqueuing session))
  | .enqueuing session => do
    pure (some (.enqueued session (← act (Queue.scheduleHeartbeat (← get).clock session 0))))
  | .enqueued session answer => do
    returnBeat id session answer
    pure none
  | .looking => do
    if !(← get).running then
      finish id
      pure none
    else pure (some (.looked (← act (Queue.reserve (← get).clock))))
  | .lookingAfterWait => do
    match ← act Queue.reserveAfterWait with
    | .ok .nothing =>
      lookAgain id
      pure none
    | outcome => pure (some (.looked outcome))
  | .looked (.ok (.job e)) => do
    setEnvelope (.consumer id) e
    pure (some (.entering e))
  | .looked outcome => do
    takeUp id outcome
    pure none
  | .entering e => beginEntry id e
  | .locked e d => do
    lockAfterWait id d.job.sessionId
    beginLoad id e d
  | .handling e d => do pure (some (.handled e d (← handle d)))
  | .handled e d outcome => do
    unlock d.job.sessionId
    afterReport id e (← report id e d.job outcome)
  | .reported e settlement => do
    continueWith id (← settle (.consumer id) e settlement)
    pure none

/-- The phases from this one on, with nothing in between. -/
inductive Phase.Finishes (id : TaskId) : Phase → World → World → Prop where
  | last {p : Phase} {w w' : World} (h : (p.advance id).run w = (none, w')) : Finishes id p w w'
  | next {p q : Phase} {w v u : World} (h : (p.advance id).run w = (some q, v))
      (hrest : Finishes id q v u) : Finishes id p w u

def World.slot? (w : World) (slot : Slot) : Option Envelope :=
  (w.envelopes.find? (·.1 = slot)).map (·.2)

def World.phase? (w : World) (id : TaskId) : Option Phase :=
  match w.task? id with
  | some { cancelled := false, body, .. } =>
    match body with
    | .heartbeat session .sleeping => some (.clearing session)
    | .consumer .looking => some .looking
    | .consumer .polling => some .lookingAfterWait
    | .consumer (.delivering stage) =>
      (w.slot? (.consumer id)).map (Phase.ofStage · stage)
    | _ => none
  | _ => none

namespace Turn

open Phase (Finishes)

theorem run_bind_of {x : Turn α} {f : α → Turn β} {w v : World} {a : α} (h : x.run w = (a, v)) :
    (x >>= f).run w = (f a).run v := by
  rw [run_bind, h]

theorem get_run (w : World) : (get : Turn World).run w = (w, w) := rfl

section Heartbeats

theorem act_run (action : Queue.Action α) (w : World) :
    ∃ outcome broker, (act action).run w = (outcome, { w with broker }) := by
  unfold act
  rw [run_bind, get_run]
  cases action w.broker with
  | ok a broker => exact ⟨_, broker, rfl⟩
  | error fault broker => exact ⟨_, broker, rfl⟩

def cleared (id : TaskId) (w : World) : World :=
  { w with beats := w.beats.map fun b => if b.task = id then { b with signalled := false } else b }

theorem isSignalled_cleared (id : TaskId) (session : String) (w : World) :
    (((cleared id w).beats.find? (·.session = session)).any
      fun b => b.task = id && b.signalled) = false := by
  rw [Option.any_eq_false_iff_get]
  intro hsome
  obtain ⟨b, -, hb⟩ := List.mem_map.1 (List.get_find?_mem hsome)
  rw [← hb]
  split
  · simp
  · simp_all

def afterAnswer (id : TaskId) (session : String) : Except Queue.Fault (Option Envelope) → Turn Unit
  | .ok (some _) => do
    modify fun w => { w with outstanding := w.outstanding.filter (· ≠ session) ++ [session] }
    setBody id (.heartbeat session .waiting)
  | _ => sleepBeat id session

theorem awaitReport_run {w : World} {id : TaskId} {session : String} (e : Envelope)
    (hsilent : (w.beats.find? (·.session = session)).any
      (fun b => b.task = id && b.signalled) = false) :
    (awaitReport id session).run w = (afterAnswer id session (.ok (some e))).run w := by
  let noted : World := { w with outstanding := w.outstanding.filter (· ≠ session) ++ [session] }
  have hfalse : (isSignalled id session).run noted = (false, noted) := by
    change ((w.beats.find? _).any _, noted) = _
    rw [hsilent]
  exact (run_bind_of (v := noted) rfl).trans (run_bind_of hfalse)

theorem tick_run {w : World} {id : TaskId} {session : String} {broker : Queue.Broker}
    {outcome : Except Queue.Fault (Option Envelope)}
    (hact : (act (Queue.scheduleHeartbeat w.clock session 0)).run (cleared id w) =
      (outcome, { cleared id w with broker })) :
    (tick id session).run w = (afterAnswer id session outcome).run { cleared id w with broker } := by
  change (act _ >>= afterAnswer id session).run (cleared id w) = _
  exact run_bind_of hact

/-- Where nothing happens in between, the job cannot have been reported. -/
theorem tick_finishes {w : World} {id : TaskId} {t : Task} (session : String)
    (htask : w.task? id = some t) (hcancelled : t.cancelled = false) :
    Finishes id (.clearing session) w ((tick id session).run w).2 := by
  obtain ⟨outcome, broker, hact⟩ :=
    act_run (Queue.scheduleHeartbeat w.clock session 0) (cleared id w)
  rw [tick_run hact]
  refine .next (q := .enqueuing session) (v := cleared id w) rfl ?_
  refine .next (q := .enqueued session outcome) (v := { cleared id w with broker }) ?_ (.last ?_)
  · unfold Phase.advance
    rw [run_bind_of (get_run _)]
    exact run_bind_of hact
  obtain ⟨_, body, cancelled, _⟩ := t
  subst hcancelled
  have htask : ({ cleared id w with broker } : World).task? id = _ := htask
  unfold Phase.advance returnBeat
  rw [run_bind, run_bind_of (get_run _), htask]
  rcases outcome with fault | _ | e
  · rfl
  · rfl
  · exact congrArg (none, ·.2)
      (awaitReport_run (w := { cleared id w with broker }) e (isSignalled_cleared id session w))

end Heartbeats

section Consumers

variable {id : TaskId} {e : Envelope} {d : Delivery} {w : World}

theorem reported_finishes (settlement : Settlement) :
    Finishes id (.reported e settlement) w
      ((settle (.consumer id) e settlement >>= continueWith id).run w).2 :=
  .last rfl

def conclude (id : TaskId) (e : Envelope) : Bool × Settlement → Turn Progress
  | (true, settlement) => pure (.suspended (.halting settlement))
  | (false, settlement) => settle (.consumer id) e settlement

theorem afterReport_finishes {p : Phase} {w' : World} {told : Bool × Settlement}
    (h : (p.advance id).run w = (afterReport id e told).run w') :
    Finishes id p w ((conclude id e told >>= continueWith id).run w').2 := by
  obtain ⟨waits, settlement⟩ := told
  cases waits with
  | false => exact .next h (reported_finishes settlement)
  | true => exact .last h

theorem haltAndSettle_eq (session : String) (settlement : Settlement) :
    haltAndSettle id (.consumer id) e session settlement =
      (do pure (← haltBeat id session, settlement)) >>= conclude id e := by
  unfold haltAndSettle
  rw [bind_assoc]
  refine bind_congr fun waits => ?_
  rw [pure_bind]
  cases waits <;> rfl

def afterHandling (id : TaskId) (e : Envelope) (job : Job) :
    Except Failure JobResult → Turn Progress
  | .ok result => afterResult id (.consumer id) e job result
  | .error failure => afterFailure id (.consumer id) e job failure.text

theorem report_conclude (job : Job) (outcome : Except Failure JobResult) :
    report id e job outcome >>= conclude id e = afterHandling id e job outcome := by
  cases outcome with
  | ok result =>
    unfold report afterHandling afterResult
    rw [bind_assoc]
    refine bind_congr fun w => ?_
    by_cases hbeats : w.config.heartbeat.isNone
    · rw [if_pos hbeats, if_pos hbeats, pure_bind]
      rfl
    by_cases hgone : result.outcome = .sessionNotFound
    · rw [if_neg hbeats, if_neg hbeats, if_pos hgone, if_pos hgone, haltAndSettle_eq]
    rw [if_neg hbeats, if_neg hbeats, if_neg hgone, if_neg hgone]
    by_cases hname : e.name = Queue.heartbeatName <;>
      by_cases hcompleted : result.outcome = .completed <;>
      simp [hname, hcompleted, conclude]
  | error failure =>
    unfold report afterHandling afterFailure
    rw [bind_assoc]
    refine bind_congr fun _ => ?_
    rw [bind_assoc]
    refine bind_congr fun w => ?_
    by_cases hbeat : w.config.heartbeat.isSome && e.name = Queue.heartbeatName
    · rw [if_pos hbeat, if_pos hbeat, haltAndSettle_eq]
    · rw [if_neg hbeat, if_neg hbeat, pure_bind]
      rfl

theorem handled_finishes (outcome : Except Failure JobResult) :
    Finishes id (.handled e d outcome) w
      ((unlock d.job.sessionId >>= fun _ =>
        afterHandling id e d.job outcome >>= continueWith id).run w).2 := by
  rw [← report_conclude, bind_assoc]
  exact afterReport_finishes rfl

theorem handling_finishes :
    Finishes id (.handling e d) w ((carryOut id (.consumer id) e d >>= continueWith id).run w).2 := by
  have hcarryOut : carryOut id (.consumer id) e d = handle d >>= fun outcome =>
      unlock d.job.sessionId >>= fun _ => afterHandling id e d.job outcome := rfl
  rw [hcarryOut, bind_assoc]
  simp only [bind_assoc]
  exact .next (q := .handled e d ((handle d).run w).1) rfl (handled_finishes _)

theorem beginLoad_finishes {p : Phase} {w' : World}
    (h : (p.advance id).run w = (beginLoad id e d).run w') :
    Finishes id p w ((load id (.consumer id) e d >>= continueWith id).run w').2 := by
  let noted : World := { w' with trace := w'.trace ++ [(w'.now, .load d.job.sessionId)] }
  have hbegin : (beginLoad id e d).run w' =
      (if noted.config.gatewayDelay = 0 then pure (some (.handling e d)) else do
        sleep id noted.config.gatewayDelay
        continueWith id (.suspended (.loading d))
        pure none : Turn (Option Phase)).run noted := rfl
  have hload : (load id (.consumer id) e d >>= continueWith id).run w' =
      ((if noted.config.gatewayDelay = 0 then carryOut id (.consumer id) e d else do
        sleep id noted.config.gatewayDelay
        pure (.suspended (.loading d))) >>= continueWith id : Turn Unit).run noted := rfl
  rw [hbegin] at h
  rw [hload]
  by_cases hdelay : noted.config.gatewayDelay = 0
  · rw [if_pos hdelay] at h ⊢
    exact .next h handling_finishes
  · rw [if_neg hdelay] at h ⊢
    exact .last h

theorem locked_finishes :
    Finishes id (.locked e d) w ((lockAfterWait id d.job.sessionId >>= fun _ =>
      load id (.consumer id) e d >>= continueWith id).run w).2 :=
  beginLoad_finishes rfl

theorem entering_finishes :
    Finishes id (.entering e) w ((enter id (.consumer id) e >>= continueWith id).run w).2 := by
  have h : ((Phase.entering e).advance id).run w = (beginEntry id e).run w := rfl
  unfold enter
  unfold beginEntry at h
  by_cases hname : (!handledNames.contains e.name) = true
  · rw [if_pos hname] at h ⊢
    exact .last h
  rw [if_neg hname] at h ⊢
  cases hjob : jobOf e with
  | none =>
    rw [hjob] at h
    exact .last h
  | some job =>
    rw [hjob] at h
    simp only at h ⊢
    rw [run_bind] at h
    rw [bind_assoc, run_bind]
    cases hfree : ((lock id job.sessionId).run w).1 with
    | true =>
      rw [hfree] at h
      exact beginLoad_finishes h
    | false =>
      rw [hfree] at h
      exact .last h

theorem deliver_finishes (stage : Stage) (hslot : w.slot? (.consumer id) = some e) :
    Finishes id (Phase.ofStage e stage) w ((deliver id stage).run w).2 := by
  have hfound : (envelope? (.consumer id)).run w = (some e, w) := congrArg (·, w) hslot
  unfold deliver proceed
  rw [bind_assoc, run_bind_of hfound]
  cases stage with
  | entering => exact entering_finishes
  | locking d => exact locked_finishes
  | loading d => exact handling_finishes
  | halting settlement => exact reported_finishes settlement

theorem find?_put (slot other : Slot) (e : Envelope) (slots : List (Slot × Envelope)) :
    (Roster.put (·.1 = slot) (slot, e) slots).find? (·.1 = other) =
      if slot = other then some (slot, e) else slots.find? (·.1 = other) := by
  induction slots with
  | nil => by_cases h : slot = other <;> simp [Roster.put, h]
  | cons first rest ih =>
    unfold Roster.put
    by_cases hfirst : first.1 = slot
    · by_cases hother : slot = other <;> simp [hfirst, hother]
    · by_cases hother : first.1 = other
      · have hne : slot ≠ other := fun h => hfirst (hother.trans h.symm)
        simp [hother, hne, hne.symm]
      · simp [hfirst, hother, ih]

theorem looked_finishes (outcome : Except Queue.Fault Queue.Reservation) :
    Finishes id (.looked outcome) w ((takeUp id outcome).run w).2 := by
  match outcome with
  | .ok (.job e) =>
    refine .next (q := .entering e) rfl (deliver_finishes .entering ?_)
    change ((Roster.put _ _ w.envelopes).find? _).map _ = _
    rw [find?_put, if_pos rfl]
    rfl
  | .ok .unreadable => exact .last rfl
  | .ok .nothing => exact .last rfl
  | .error _ => exact .last rfl

theorem look_finishes : Finishes id .looking w ((look id).run w).2 := by
  have h : (Phase.looking.advance id).run w = _ := run_bind_of (get_run w)
  unfold look
  rw [run_bind_of (get_run w)]
  by_cases hrunning : (!w.running) = true
  · rw [if_pos hrunning] at h ⊢
    exact .last h
  · rw [if_neg hrunning] at h ⊢
    exact .next h (looked_finishes _)

theorem lookAfterWait_finishes : Finishes id .lookingAfterWait w ((lookAfterWait id).run w).2 := by
  unfold lookAfterWait
  rw [run_bind]
  have h : (Phase.lookingAfterWait.advance id).run w = _ := run_bind _ _ w
  cases hlooked : ((act Queue.reserveAfterWait).run w).1 with
  | error fault =>
    rw [hlooked] at h
    exact .next h (looked_finishes _)
  | ok reservation =>
    rw [hlooked] at h
    cases reservation with
    | nothing => exact .last h
    | unreadable => exact .next h (looked_finishes _)
    | job e => exact .next h (looked_finishes _)

end Consumers

theorem take_run (w : World) (id : TaskId) : (take id).run w = (match w.task? id with
    | none => pure ()
    | some task =>
      match task.body with
      | .errand => errandTurn
      | .heartbeat session beating => beatTurn id session task.cancelled beating
      | .consumer consuming => consumerTurn id task.cancelled consuming
      | .member index name stage => memberTurn id index name stage : Turn Unit).run w := rfl

/-- A turn that has phases is its phases, one right after the other. -/
theorem take_finishes {w : World} {id : TaskId} {p : Phase} (h : w.phase? id = some p) :
    Finishes id p w ((take id).run w).2 := by
  unfold World.phase? at h
  split at h
  next task body joiners htask =>
    rw [take_run, htask]
    split at h
    next session =>
      obtain rfl := Option.some.inj h
      exact tick_finishes session htask rfl
    next =>
      obtain rfl := Option.some.inj h
      exact look_finishes
    next =>
      obtain rfl := Option.some.inj h
      exact lookAfterWait_finishes
    next stage =>
      obtain ⟨e, hslot, rfl⟩ := Option.map_eq_some_iff.1 h
      exact deliver_finishes stage hslot
    next => cases h
  next => cases h

end Turn

end SignalCoach.Worker
