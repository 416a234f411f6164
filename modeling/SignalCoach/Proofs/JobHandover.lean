import SignalCoach.Proofs.ClearQueue
import SignalCoach.Proofs.WorkerRun

/-! The job that is carried out is the job that was enqueued: through failed attempts, recoveries and
crashes its envelope keeps what it was enqueued with, and every delivery of it hands over that job. -/
namespace SignalCoach

namespace Job

/-- The job as it is handed over. One that has no job id gets the id of its envelope. -/
def under (job : Job) (envelope : String) : Job :=
  { job with jobId := job.jobId.or (some envelope) }

end Job

theorem Queue.enqueueEvaluation_name {retries : Queue.Retries} {now : Int} {job : Job}
    {b b' : Queue.Broker} {e : Envelope}
    (h : Queue.enqueueEvaluation retries now job b = .ok e b') : e.name = Queue.evaluateName := by
  have hcases := Queue.enqueue_cases now Queue.evaluateName (Queue.messageFields job)
    retries.maxAttempts retries.backoff 0 b
  unfold Queue.enqueueEvaluation at h
  rw [h] at hcases
  exact congrArg Envelope.name hcases.2.1

namespace Worker

namespace World

/-- The worker is gone without a word, and another one is in its place. What is left is what the queue
and the store hold, and the record of what was done. -/
def restarted (w : World) (config : Config) : World :=
  { start config w.roster w.broker.ids with
    now := w.now
    broker := w.broker
    allowance := w.allowance
    trace := w.trace
    deliveries := w.deliveries }

/-- A run of one worker after the other on the same queue. -/
inductive Lineage (first : World) : World → Prop where
  | first : Lineage first first
  | run {w w' : World} (h : Lineage first w) (hrun : Reaches w w') : Lineage first w'
  | crash {w : World} (h : Lineage first w) (config : Config) : Lineage first (w.restarted config)

/-- Whoever looks for a job now is given this envelope. -/
def Reserves (w : World) (e : Envelope) : Prop :=
  ∃ broker, (∃ now, Queue.reserve now w.broker = .ok (.job e) broker) ∨
    Queue.reserveAfterWait w.broker = .ok (.job e) broker

def Handles (w : World) (d : Delivery) : Prop :=
  (∃ outcome, (d, outcome) ∈ w.deliveries) ∨ (∃ task ∈ w.tasks, d ∈ task.body.delivery?) ∨
    d ∈ w.errand.delivery?

section

variable {watched : Option Envelope} {w w' : World} {e : Envelope} {d : Delivery}

theorem Tracks.restarted (h : w.Tracks watched [] []) (config : Config) :
    (w.restarted config).Tracks watched [] [] where
  queue := h.queue
  envelopes := by simp [World.restarted, start]
  tasks := by simp [World.restarted, start, Body.delivery?]
  errand := by simp [World.restarted, start, Errand.delivery?]
  deliveries := h.deliveries
  givenEnvelopes := by simp
  givenDeliveries := by simp
  once := h.once

theorem Lineage.tracks (h : Lineage w w') (htracks : w.Tracks watched [] []) :
    w'.Tracks watched [] [] := by
  induction h with
  | first => exact htracks
  | run _ hrun ih => exact ih.reaches hrun
  | crash _ config ih => exact ih.restarted config

theorem Tracks.original_of_reserves {e₀ : Envelope} (h : w.Tracks (some e₀) [] [])
    (hreserves : w.Reserves e) (hid : e.id = e₀.id) : e.original = e₀ := by
  obtain ⟨broker, ⟨now, hrun⟩ | hrun⟩ := hreserves
  · have hpreserves := Queue.reserve_preserves now w.broker h.queue (by simp)
    rw [hrun] at hpreserves
    exact (hpreserves.2.2 e (by simp [Queue.Reservation.envelopes])).same e₀ rfl hid
  · have hpreserves := Queue.reserveAfterWait_preserves w.broker h.queue (by simp)
    rw [hrun] at hpreserves
    exact (hpreserves.2.2 e (by simp [Queue.Reservation.envelopes])).same e₀ rfl hid

theorem Tracks.known_of_handles (h : w.Tracks watched [] []) (hhandles : w.Handles d) :
    d.Known watched w.broker.ids := by
  rcases hhandles with ⟨outcome, hd⟩ | ⟨task, htask, hd⟩ | hd
  · exact h.deliveries (d, outcome) hd
  · exact h.tasks task htask d hd
  · exact h.errand d hd

end

end World

namespace Turn

def underLock (id : TaskId) (slot : Slot) (e : Envelope) (d : Delivery) : Turn Progress := do
  if ← lock id d.job.sessionId then load id slot e d else pure (.suspended (.locking d))

theorem enter_eq_underLock {e : Envelope} {job : Job} (hname : handledNames.contains e.name = true)
    (hjob : jobOf e = some job) (id : TaskId) (slot : Slot) :
    enter id slot e = underLock id slot e { envelope := e.id, job } := by
  unfold enter
  rw [hname, hjob]
  rfl

/-- Nothing that an attempt changes decides how an envelope is processed. -/
theorem enter_of_original {e e₀ : Envelope} {job : Job} (horiginal : e.original = e₀)
    (hname : handledNames.contains e₀.name = true) (hjob : jobOf e₀ = some job) (id : TaskId)
    (slot : Slot) : enter id slot e = underLock id slot e { envelope := e₀.id, job } := by
  subst horiginal
  have hname : handledNames.contains e.name = true := hname
  have hjob : jobOf e = some job := hjob
  exact enter_eq_underLock hname hjob id slot

end Turn

namespace World

/-- A job that was enqueued comes back in the same envelope at every reservation, with the same id,
name, data, attempts to go, backoff and time, and what is carried out for that envelope is the job
that was enqueued, under the id of its first envelope if it had none. -/
theorem enqueued_job_handed_over {config : Config} {roster : Roster} {ids : IdSupply} {w w' : World}
    {job : Job} {e : Envelope} {broker : Queue.Broker}
    (hbefore : Lineage (start config roster ids) w)
    (henqueued : Queue.enqueueEvaluation w.config.retries w.clock job w.broker = .ok e broker)
    (hafter : Lineage { w with broker } w') :
    (∀ e', w'.Reserves e' → e'.id = e.id → e'.original = e ∧
      ∀ id slot, Turn.enter id slot e' =
        Turn.underLock id slot e' { envelope := e.id, job := job.under e.id }) ∧
    ∀ d, w'.Handles d → d.envelope = e.id → d.job = job.under e.id := by
  obtain ⟨hwatched, hjob⟩ := (Enqueues.evaluation henqueued).tracks
    (hbefore.tracks (start_tracks config roster ids))
  have htracks := hafter.tracks hwatched
  have hname : Turn.handledNames.contains e.name = true := by
    rw [Queue.enqueueEvaluation_name henqueued]
    decide
  constructor
  · intro e' hreserves hid
    have horiginal := htracks.original_of_reserves hreserves hid
    exact ⟨horiginal, Turn.enter_of_original horiginal hname hjob⟩
  · intro d hhandles hid
    have hsame := (htracks.known_of_handles hhandles).same e rfl hid
    rw [hjob] at hsame
    exact (Option.some.inj hsame).symm

def asked (w : World) (orders : List Order) : World := orders.foldl (fun w o => (o.turn.run w).2) w

theorem Lineage.asked {first w : World} (h : Lineage first w) (orders : List Order) :
    Lineage first (w.asked orders) := by
  induction orders generalizing w with
  | nil => exact h
  | cons o rest ih => exact ih (h.run (Reaches.start.order o))

end World

def patient : Config where
  retries := { maxAttempts := 3, backoff := 0 }
  concurrency := 1
  poll := 0
  heartbeat := none
  recordTime := ⟨0⟩
  clockStart := 0

def alerted : Job := { sessionId := "s-1", snapshotId := some "sn-1", trigger := some .alert }

def alertedEnvelope : Envelope where
  name := Queue.evaluateName
  data := Queue.messageFields alerted
  id := ({} : IdSupply).draw.1
  maxAttempts := 3

def alertedBroker : Queue.Broker :=
  Queue.Action.after (Queue.enqueueEvaluation patient.retries 0 alerted) {}

theorem enqueue_alerted : Queue.enqueueEvaluation patient.retries 0 alerted {} =
    .ok alertedEnvelope alertedBroker := by
  have hsome : alertedEnvelope.encode?.isSome := by decide
  obtain ⟨entry, hentry⟩ := Option.isSome_iff_exists.1 hsome
  obtain ⟨e, broker, hrun, -, rfl⟩ := Queue.enqueue_succeeds (b := {}) 0 Queue.evaluateName
    (Queue.messageFields alerted) 3 0 0 rfl rfl hentry nofun
  have hafter : alertedBroker = broker := Queue.Action.after_of_ok hrun
  rw [hafter]
  exact hrun

/-- The job is processed and the queue refuses to be told, and the worker crashes. The next worker takes
back what was left. -/
def crashed (w : World) : World :=
  ((w.asked [.reserve "it" false 0, .refuse { count := 1 }, .process "it"]).restarted patient).asked
    [.refuse {}, .recoverStalled]

theorem lineage_crashed (w : World) : w.Lineage (crashed w) :=
  ((World.Lineage.first.asked _).crash patient).asked _

def isReservedAgain (w : World) (id : String) : Bool :=
  match Queue.reserve 0 w.broker with
  | .ok (.job e) _ => e.id = id
  | _ => false

def isHandedOver (w : World) (id : String) : Bool :=
  isReservedAgain w id && w.deliveries.map (·.1.envelope) == [id]

/-- The job was handed over before the crash, and comes back after it as the job that was enqueued. -/
theorem enqueued_job_handed_over_after_crash :
    let first := World.start patient {} {}
    let enqueued : World := { first with broker := alertedBroker }
    first.Lineage first ∧
    Queue.enqueueEvaluation patient.retries 0 alerted first.broker =
      .ok alertedEnvelope alertedBroker ∧
    enqueued.Lineage (crashed enqueued) ∧
    (∃ e, (crashed enqueued).Reserves e ∧ e.original = alertedEnvelope ∧
      ∀ id slot, Turn.enter id slot e = Turn.underLock id slot e
        { envelope := "id-000001", job := { alerted with jobId := some "id-000001" } }) ∧
    ∃ d, (crashed enqueued).Handles d ∧ d.job = { alerted with jobId := some "id-000001" } := by
  intro first enqueued
  have hfirst : first.Lineage first := .first
  have hcrashed := lineage_crashed enqueued
  obtain ⟨henvelope, hdelivery⟩ := World.enqueued_job_handed_over hfirst enqueue_alerted hcrashed
  have hover : isHandedOver (crashed enqueued) "id-000001" = true := by decide +kernel
  rw [isHandedOver, Bool.and_eq_true, beq_iff_eq] at hover
  obtain ⟨hagain, hone⟩ := hover
  refine ⟨hfirst, enqueue_alerted, hcrashed, ?_, ?_⟩
  · unfold isReservedAgain at hagain
    split at hagain
    next e broker hreserve =>
      rw [decide_eq_true_eq] at hagain
      have hreserves : (crashed enqueued).Reserves e := ⟨broker, .inl ⟨0, hreserve⟩⟩
      obtain ⟨horiginal, henter⟩ := henvelope e hreserves hagain
      exact ⟨e, hreserves, horiginal, henter⟩
    next => cases hagain
  · obtain ⟨d, hd, hid⟩ := List.map_eq_singleton_iff.1 hone
    have hmem : d ∈ (crashed enqueued).deliveries := hd ▸ List.mem_singleton_self d
    have hhandles : (crashed enqueued).Handles d.1 := .inl ⟨d.2, hmem⟩
    exact ⟨d.1, hhandles, hdelivery d.1 hhandles hid⟩

end Worker

end SignalCoach
