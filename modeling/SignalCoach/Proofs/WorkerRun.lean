import SignalCoach.Proofs.JobMessage
import SignalCoach.Proofs.WorkerTurns

/-! Runs of a worker: its tasks take their turns, and whatever is asked of it in between. -/
namespace SignalCoach.Worker

/-- What may be asked of a worker between two turns. -/
inductive Order where
  | startWorker
  | stop (stopsBeats : Bool)
  | reserve (name : String) (processes : Bool) (timeout : Nat)
  | process (name : String)
  | processAll (names : List String)
  | pass (time : Nat)
  | startBeat (session : String)
  | reportBeat (session : String)
  | stopBeat (session : String)
  | stopAllBeats
  | enqueue (name : String) (data : Fields) (maxAttempts backoff delay : Int)
  | enqueueEvaluation (job : Job)
  | scheduleHeartbeat (session : String) (delay : Int)
  | promoteDue
  | recoverStalled
  | complete (name : String)
  | fail (name : String) (error : String) (retry : Bool)
  /-- Some of the next commands of the queue are refused. -/
  | refuse (outage : Queue.Outage)
  /-- Only so many writes of jobs still succeed. -/
  | allow (writes : Option Nat)
  | putSession (session : Session)
  | dropSession (id : String)
  | putSnapshot (snapshot : Snapshot)

namespace Order

open Turn (act envelope? failEnvelope)

def turn : Order → Turn Unit
  | .startWorker => Turn.startWorker
  | .stop stopsBeats => Turn.stop stopsBeats
  | .reserve name processes timeout => Turn.reserve name processes timeout
  | .process name => Turn.process name
  | .processAll names => Turn.processAll names
  | .pass time => Turn.pass time
  | .startBeat session => do let _ ← Turn.startBeat session
  | .reportBeat session => Turn.reportBeat session
  | .stopBeat session => Turn.stopBeat session
  | .stopAllBeats => Turn.stopAllBeats
  | .enqueue name data maxAttempts backoff delay => do
    let _ ← act (Queue.enqueue (← get).clock name data maxAttempts backoff delay)
  | .enqueueEvaluation job => do
    let w ← get
    let _ ← act (Queue.enqueueEvaluation w.config.retries w.clock job)
  | .scheduleHeartbeat session delay => do
    let _ ← act (Queue.scheduleHeartbeat (← get).clock session delay)
  | .promoteDue => do let _ ← act (Queue.promoteDue (← get).clock)
  | .recoverStalled => do let _ ← act Queue.recoverStalled
  | .complete name => do
    match ← envelope? (.named name) with
    | some e => do let _ ← act (Queue.complete e)
    | none => pure ()
  | .fail name error retry => do
    match ← envelope? (.named name) with
    | some e => do let _ ← failEnvelope (.named name) e error retry
    | none => pure ()
  | .refuse outage => modify fun w => { w with broker := { w.broker with outage } }
  | .allow writes => modify fun w => { w with allowance := writes }
  | .putSession session => modify fun w => { w with roster := w.roster.putSession session }
  | .dropSession id => modify fun w => { w with roster := (w.roster.dropSession id).getD w.roster }
  | .putSnapshot snapshot => modify fun w => { w with roster := w.roster.putSnapshot snapshot }

end Order

namespace World

def start (config : Config) (roster : Roster) (ids : IdSupply) : World :=
  { config, roster, broker := { ids } }

/-- A run, in any order of what is asked and of the turns. -/
inductive Reaches (start : World) : World → Prop where
  | start : Reaches start start
  | turn {w w' : World} (h : Reaches start w) (hstep : w.step = some w') : Reaches start w'
  | order {w : World} (h : Reaches start w) (o : Order) : Reaches start (o.turn.run w).2

theorem Reaches.trans {w₁ w₂ w₃ : World} (h : Reaches w₁ w₂) (h' : Reaches w₂ w₃) :
    Reaches w₁ w₃ := by
  induction h' with
  | start => exact h
  | turn _ hstep ih => exact ih.turn hstep
  | order _ o ih => exact ih.order o

/-- An errand that is done from its first turn to its last is a run. -/
theorem Reaches.perform {start w : World} (h : Reaches start w) (o : Order) :
    Reaches start (w.perform o.turn) := by
  unfold World.perform
  have hsettle : ∀ (fuel : Nat) (w : World), Reaches start w → Reaches start (settle fuel w) := by
    intro fuel
    induction fuel with
    | zero => exact fun _ h => h
    | succ fuel ih =>
      intro w h
      unfold settle
      split
      · exact h
      · split
        next w' hstep => exact ih w' (h.turn hstep)
        next => exact h
  exact hsettle _ _ (h.order o)

/-- A job is put on the queue in an envelope: it was asked for, or a heartbeat had its round. -/
inductive Enqueues (w : World) : Job → Envelope → World → Prop where
  | evaluation {job : Job} {e : Envelope} {broker : Queue.Broker}
      (h : Queue.enqueueEvaluation w.config.retries w.clock job w.broker = .ok e broker) :
      Enqueues w job e { w with broker }
  | heartbeat {session : String} {delay : Int} {e : Envelope} {broker : Queue.Broker}
      (h : Queue.scheduleHeartbeat w.clock session delay w.broker = .ok (some e) broker) :
      Enqueues w { sessionId := session, trigger := some .heartbeat } e { w with broker }
  | beat {id : TaskId} {ready : List Handle} {session : String} {joiners : List Joiner}
      {e : Envelope} {broker : Queue.Broker} {w' : World} (hready : w.ready = .turn id :: ready)
      (htask : w.task? id = some { id, body := .heartbeat session .sleeping, joiners })
      (h : Queue.scheduleHeartbeat w.clock session 0 w.broker = .ok (some e) broker)
      (hstep : w.step = some w') :
      Enqueues w { sessionId := session, trigger := some .heartbeat } e w'

/-- How many deliveries of an envelope wrote the evaluations of its job. -/
def commitsOf (w : World) (envelope : String) : Nat :=
  w.deliveries.countP fun d => d.1.envelope = envelope && wrote d.2

end World

namespace Turn

open World (Tracks)

variable {watched : Option Envelope}

theorem roster_keeps {f : Roster → Roster} (hf : ∀ r, (f r).evaluations = r.evaluations) :
    Keeps (Tracks watched [] []) (modify fun w => { w with roster := f w.roster } : Turn PUnit) := by
  refine Triple.change fun w h => ?_
  refine ⟨h.queue, h.envelopes, h.tasks, h.errand, h.deliveries, h.givenEnvelopes,
    h.givenDeliveries, fun jobId hjobId => ?_⟩
  simpa [Roster.gateway, hf, World.commits] using h.once jobId hjobId

theorem timed_act_keeps {action : World → Queue.Action α} {known : α → List Envelope}
    (haction : ∀ w, Queue.Preserves watched [] (action w) known) :
    Keeps (Tracks watched [] []) (do let _ ← act (action (← get))) := by
  refine Triple.bind Triple.look fun w => ?_
  exact Triple.bind (act_keeps (haction w) (List.nil_subset _)) fun _ => keeps_answer _

theorem order_keeps (o : Order) : Keeps (Tracks watched [] []) o.turn := by
  cases o with
  | startWorker => exact startWorker_keeps
  | stop stopsBeats => exact stop_keeps stopsBeats
  | reserve name processes timeout => exact reserve_keeps name processes timeout
  | process name => exact process_keeps name
  | processAll names => exact processAll_keeps names
  | pass time => exact pass_keeps time
  | startBeat session => exact Triple.bind (startBeat_keeps session) fun _ => keeps_answer _
  | reportBeat session => exact reportBeat_keeps session
  | stopBeat session => exact stopBeat_keeps session
  | stopAllBeats => exact stopAllBeats_keeps
  | enqueue name data maxAttempts backoff delay =>
    exact timed_act_keeps fun _ => Queue.enqueue_preserves _ _ _ _ _ _
  | enqueueEvaluation job => exact timed_act_keeps fun _ => Queue.enqueue_preserves _ _ _ _ _ _
  | scheduleHeartbeat session delay =>
    exact timed_act_keeps fun _ => Queue.scheduleHeartbeat_preserves _ _ _
  | promoteDue => exact timed_act_keeps fun _ => Queue.promoteDue_preserves _
  | recoverStalled =>
    exact Triple.bind (act_keeps Queue.recoverStalled_preserves (by simp)) fun _ => keeps_answer _
  | complete name =>
    refine Triple.bind (envelope?_tracks _) fun found => Triple.post (Q := fun _ =>
      Tracks watched (found.toList ++ []) []) ?_ fun _ _ h => h.less (by simp) (by simp)
    cases found with
    | none => exact keeps_answer _
    | some e =>
      exact Triple.bind (act_keeps (Queue.complete_preserves e) (by simp)) fun _ => keeps_answer _
  | fail name error retry =>
    refine Triple.bind (envelope?_tracks _) fun found => Triple.post (Q := fun _ =>
      Tracks watched (found.toList ++ []) []) ?_ fun _ _ h => h.less (by simp) (by simp)
    cases found with
    | none => exact keeps_answer _
    | some e =>
      exact Triple.bind (failEnvelope_keeps _ (by simp) error retry) fun _ => keeps_answer _
  | refuse outage =>
    refine Triple.change fun w h => h.withBroker ?_ (Nat.le_refl _)
    exact h.queue.mono h.queue.delayed (fun _ h => h) (Nat.le_refl _)
  | allow writes => exact frame_keeps fun _ => ⟨rfl, rfl, rfl, rfl, rfl, rfl⟩
  | putSession session => exact roster_keeps fun _ => rfl
  | dropSession id =>
    refine roster_keeps (f := fun r => (r.dropSession id).getD r) fun r => ?_
    unfold Roster.dropSession
    split <;> rfl
  | putSnapshot snapshot => exact roster_keeps fun _ => rfl

end Turn

namespace World

variable {watched : Option Envelope} {w w' : World}

theorem Tracks.reaches (h : w.Tracks watched [] []) (hrun : Reaches w w') :
    w'.Tracks watched [] [] := by
  induction hrun with
  | start => exact h
  | turn _ hstep ih => exact ih.step hstep
  | order _ o ih => exact Turn.order_keeps o _ ih

theorem start_tracks (config : Config) (roster : Roster) (ids : IdSupply) :
    (start config roster ids).Tracks none [] [] where
  queue := ⟨by simp [start, Queue.Contents.DelayedOnce], by simp, by
    simp [start, Queue.Contents.entries]⟩
  envelopes := by simp [start]
  tasks := by simp [start, Body.delivery?]
  errand := by simp [start, Errand.delivery?]
  deliveries := by simp [start]
  givenEnvelopes := by simp
  givenDeliveries := by simp
  once := by simp [start, commits]

theorem Tracks.watch (h : w.Tracks none [] []) {now : Int} {name : String} {data : Fields}
    {maxAttempts backoff delay : Int} {e : Envelope} {broker : Queue.Broker}
    (hrun : Queue.enqueue now name data maxAttempts backoff delay w.broker = .ok e broker)
    (hdata : Json.rereadFields [] data = data) :
    ({ w with broker } : World).Tracks (some e) [] [] := by
  obtain ⟨hqueue, hids, hnew⟩ := h.queue.watch hrun hdata
  exact {
    queue := hqueue
    envelopes := fun slot hslot => ((h.envelopes slot hslot).watch hnew).mono hids
    tasks := fun task htask d hd => ((h.tasks task htask d hd).watch hnew).mono hids
    errand := fun d hd => ((h.errand d hd).watch hnew).mono hids
    deliveries := fun d hd => ((h.deliveries d hd).watch hnew).mono hids
    givenEnvelopes := by simp
    givenDeliveries := by simp
    once := h.once }

end World

namespace Turn

open World (Tracks)

theorem act_of_ok {action : Queue.Action α} {w : World} {a : α} {broker : Queue.Broker}
    (h : action w.broker = .ok a broker) :
    (act action).run w = (.ok a, { w with broker }) := by
  unfold act
  simp [h]
  rfl

theorem tick_watches {w : World} (h : w.Tracks none [] []) (id : TaskId) {session : String}
    {e : Envelope} {broker : Queue.Broker}
    (hrun : Queue.scheduleHeartbeat w.clock session 0 w.broker = .ok (some e) broker) :
    Triple (· = w) (tick id session) fun _ => Tracks (some e) [] [] := by
  refine Triple.bind (Q := fun _ w' => w'.broker = w.broker ∧ w'.clock = w.clock ∧
    w'.Tracks none [] []) (Triple.change fun w' hw' => ?_) fun _ => ?_
  · subst hw'
    exact ⟨rfl, rfl, h.frame rfl rfl rfl rfl rfl rfl⟩
  refine Triple.get_bind fun w' hw' => ?_
  obtain ⟨hbroker, hclock, htracks⟩ := hw'
  rw [← hbroker, ← hclock] at hrun
  have hwatched := htracks.watch (Queue.scheduleHeartbeat_eq_some hrun) (Queue.reread_messageFields _)
  refine Triple.bind (Q := fun outcome w'' => outcome = .ok (some e) ∧
    w''.Tracks (some e) [] []) (fun w'' hw'' => ?_) fun outcome => ?_
  · subst hw''
    rw [act_of_ok hrun]
    exact ⟨rfl, hwatched⟩
  by_cases houtcome : outcome = .ok (some e)
  · subst houtcome
    refine Triple.weaken ?_ (fun _ h => h.2) fun _ _ h => h
    exact Triple.bind (frame_keeps fun _ => ⟨rfl, rfl, rfl, rfl, rfl, rfl⟩) fun _ =>
      setBody_keeps id (by simp [Body.delivery?])
  · exact fun _ hw => absurd hw.1 houtcome

theorem beat_watches {w : World} (h : w.Tracks none [] []) {id : TaskId} {session : String}
    {joiners : List Joiner} {e : Envelope} {broker : Queue.Broker}
    (htask : w.task? id = some { id, body := .heartbeat session .sleeping, joiners })
    (hrun : Queue.scheduleHeartbeat w.clock session 0 w.broker = .ok (some e) broker) :
    Triple (· = w) (take id) fun _ => Tracks (some e) [] [] := by
  refine Triple.get_bind fun w' hw' => ?_
  subst hw'
  rw [htask]
  exact tick_watches h id hrun

end Turn

namespace World

variable {w w' w'' : World} {job : Job} {e : Envelope}

theorem Enqueues.tracks (h : Enqueues w job e w') (htracks : w.Tracks none [] []) :
    w'.Tracks (some e) [] [] ∧ Turn.jobOf e = some { job with jobId := job.jobId.or (some e.id) } := by
  have hjobOf : ∀ {job : Job}, e.data = Queue.messageFields job →
      Turn.jobOf e = some { job with jobId := job.jobId.or (some e.id) } := by
    intro job hdata
    rw [Turn.jobOf, hdata, Queue.messageFields_eq, Job.read_message]
  cases h with
  | evaluation h =>
    exact ⟨htracks.watch h (Queue.reread_messageFields _), hjobOf (Queue.enqueue_data h)⟩
  | heartbeat h =>
    have henqueue := Queue.scheduleHeartbeat_eq_some h
    exact ⟨htracks.watch henqueue (Queue.reread_messageFields _),
      hjobOf (Queue.enqueue_data henqueue)⟩
  | @beat _ ready _ _ _ _ _ hready htask h hstep =>
    refine ⟨?_, hjobOf (Queue.enqueue_data (Queue.scheduleHeartbeat_eq_some h))⟩
    unfold World.step at hstep
    rw [hready] at hstep
    obtain rfl := Option.some.inj hstep
    have hready : ({ w with ready } : World).Tracks none [] [] :=
      htracks.frame rfl rfl rfl rfl rfl rfl
    exact Turn.beat_watches hready htask h _ rfl

end World

end SignalCoach.Worker
