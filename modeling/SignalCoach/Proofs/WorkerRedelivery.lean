import SignalCoach.Proofs.QuietWorker
import SignalCoach.Proofs.WorkerRun

/-! Jobs that are delivered again: the deliveries of an envelope commit the evaluations of its job
once, unless the job has an empty job id. -/
namespace SignalCoach

namespace Queue

def firstEnvelope (job : Job) : Envelope :=
  { name := evaluateName, data := messageFields job, id := ({} : IdSupply).draw.1,
    maxAttempts := 1 }

theorem encode?_firstEnvelope (job : Job) : ∃ entry, (firstEnvelope job).encode? = some entry := by
  obtain ⟨sessionId, snapshotId, trigger, jobId⟩ := job
  refine ⟨_, if_pos ?_⟩
  cases snapshotId <;> cases trigger <;> cases jobId <;>
    simp [firstEnvelope, messageFields, Job.message, Job.entry, Envelope.document, Value.object,
      Fields.ofList, Json.isWritable, Json.fieldsWritable, isWord, Value.depth,
      Value.depthFields, Json.maxWrittenDepth]

variable {job : Job} {entry : Entry}

theorem decode_firstEnvelope (h : (firstEnvelope job).encode? = some entry) (ids : IdSupply) :
    Envelope.decode entry ids = (.ok { firstEnvelope job with stored := some entry }, ids) := by
  rw [Envelope.decode_of_encode? h (IdSupply.nameOf_ne_empty 1), Envelope.reread, firstEnvelope,
    reread_messageFields]
  rfl

theorem enqueue_first (h : (firstEnvelope job).encode? = some entry) :
    enqueueEvaluation { maxAttempts := 1, backoff := 0 } 0 job {} =
      .ok (firstEnvelope job) { contents := { ready := [entry] }, ids := ({} : IdSupply).draw.2 } := by
  have hencode : Action.encode (firstEnvelope job) = pure entry := by
    unfold Action.encode
    rw [h]
  unfold enqueueEvaluation enqueue
  rw [Program.bind_apply]
  change (Action.encode (firstEnvelope job) >>= _) _ = _
  rw [hencode]
  rfl

theorem reserve_first (h : (firstEnvelope job).encode? = some entry) (ids : IdSupply) :
    reserve 0 { contents := { ready := [entry] }, ids } =
      .ok (.job { firstEnvelope job with stored := some entry })
        { contents := { processing := [entry] }, ids } := by
  have htake : take 0 { contents := { ready := [entry] }, ids } =
      .ok (some entry) { contents := { processing := [entry] }, ids } := rfl
  unfold reserve
  rw [Program.bind_apply, htake]
  simp only [openedOrNothing, opened]
  rw [Program.bind_apply, Action.decode, decode_firstEnvelope h]
  rfl

end Queue

namespace Worker

namespace World

variable {w w' w'' : World} {job : Job} {e : Envelope}

theorem Enqueues.commitsOf_le (h : Enqueues w job e w') (htracks : w.Tracks none [] [])
    (hjob : job.jobId ≠ some "") (hrun : Reaches w' w'') : w''.commitsOf e.id ≤ 1 := by
  obtain ⟨hwatched, hjobOf⟩ := h.tracks htracks
  have hreached := hwatched.reaches hrun
  have hid : e.id ≠ "" := (hreached.queue.watchable e rfl).1.ne_empty
  obtain ⟨jobId, hkey⟩ : ∃ jobId, job.jobId.or (some e.id) = some jobId := by
    cases job.jobId <;> simp
  have hne : jobId ≠ "" := by
    rintro rfl
    cases hjobId : job.jobId with
    | none =>
      rw [hjobId, Option.none_or] at hkey
      exact hid (Option.some.inj hkey)
    | some _ =>
      rw [hjobId, Option.some_or] at hkey
      exact hjob (hjobId.trans hkey)
  refine Nat.le_trans (List.countP_mono_left fun d hd hcounted => ?_) (hreached.once jobId hne).1
  rw [Bool.and_eq_true, decide_eq_true_eq] at hcounted
  have hsame := (hreached.deliveries d hd).same e rfl hcounted.1
  rw [hjobOf, Option.some.injEq] at hsame
  rw [Committed, Bool.and_eq_true, decide_eq_true_eq, ← hsame]
  exact ⟨hkey, hcounted.2⟩

end World

def anyTag : Tag where
  id := "tag"
  ruleSetId := none
  key := "any"
  name := "Any"
  severity := .entry
  category := none
  description := none
  rule := .object [("when", .obj [])]

def anyRules : RuleSet where
  id := "rules"
  owner := none
  name := "Any"
  version := 1
  summary := none
  thresholds := .null
  tags := [anyTag]

def anySnapshot (job : Job) : Snapshot where
  id := job.snapshotId.getD ""
  sessionId := job.sessionId
  source := .snapshot
  capturedAt := ⟨0⟩
  features := .null
  payload := .null

def anySession (job : Job) (state : SessionState) (evaluated : Option Timestamp) : Session where
  id := job.sessionId
  ruleSetId := some anyRules.id
  symbol := "ES"
  timeframeMinutes := 1
  state
  startedAt := ⟨0⟩
  lastEvaluatedAt := evaluated
  ruleSet := some anyRules

def readyRoster (job : Job) (state : SessionState) (evaluated : Option Timestamp)
    (evaluations : List Evaluation) : Roster where
  sessions := [anySession job state evaluated]
  snapshots := [anySnapshot job]
  evaluations

theorem assess_anyRules (job : Job) :
    ∃ r, Job.assess anyRules (anySnapshot job) .standard = .ok [r] := by
  have hlength : (Job.assess anyRules (anySnapshot { sessionId := "" }) .standard).toOption.map
      List.length = some 1 := by decide +kernel
  change (Job.assess anyRules (anySnapshot job) .standard).toOption.map List.length = some 1
    at hlength
  cases hassess : Job.assess anyRules (anySnapshot job) .standard with
  | error _ => simp [hassess, Except.toOption] at hlength
  | ok results =>
    simp only [hassess, Except.toOption, Option.map_some, Option.some.injEq] at hlength
    obtain ⟨r, rfl⟩ := List.length_eq_one_iff.1 hlength
    exact ⟨r, rfl⟩

/-- A job with an empty job id is completed however often it was completed before. -/
theorem handle_readyRoster {job : Job} (hjob : job.jobId = some "") (state : SessionState)
    (evaluated : Option Timestamp) (evaluations : List Evaluation) (ids : IdSupply)
    (now : Timestamp) :
    ∃ result state' evaluations' ids',
      job.handle Roster.gateway .standard now
          { store := readyRoster job state evaluated evaluations, ids } =
        .ok result { store := readyRoster job state' (some now) evaluations', ids := ids' } ∧
      result.wrote = true := by
  have hsession : Roster.gateway.session? (readyRoster job state evaluated evaluations)
      job.sessionId = some (anySession job state evaluated) := by
    simp [Roster.gateway, readyRoster, anySession]
  have hsnapshot : job.snapshot? Roster.gateway (readyRoster job state evaluated evaluations)
      (anySession job state evaluated) = some (anySnapshot job) := by
    unfold Job.snapshot?
    cases hid : job.snapshotId with
    | none => simp [Roster.gateway, readyRoster, anySession, anySnapshot, Roster.later]
    | some id =>
      by_cases hempty : id.isEmpty <;>
        simp [hid, hempty, Roster.gateway, readyRoster, anySession, anySnapshot, Roster.later]
  have hduplicate : job.isDuplicate Roster.gateway
      (readyRoster job state evaluated evaluations) = false := by
    simp [Job.isDuplicate, hjob]
  obtain ⟨r, hassess⟩ := assess_anyRules job
  obtain ⟨result, evaluations', ids', hsettle, houtcome⟩ :=
    Job.roster_settle_completes (anySession job state evaluated) (anySnapshot job) now
      (List.cons_ne_nil r []) hduplicate ids
  refine ⟨result, Assessment.sessionState [r], evaluations', ids', ?_, ?_⟩
  case refine_2 => simp [JobResult.wrote, houtcome]
  rw [Job.handle_eq_settle hsession rfl hsnapshot hassess, hsettle]
  simp [Roster.apply, readyRoster, anySession]

def quiet : Config where
  retries := { maxAttempts := 1, backoff := 0 }
  concurrency := 1
  poll := 0
  heartbeat := none
  recordTime := ⟨0⟩
  clockStart := 0

def reserved (job : Job) (entry : Entry) : Envelope :=
  { Queue.firstEnvelope job with stored := some entry }

/-- A worker to which the only job in the queue can be delivered. -/
structure Ready (job : Job) (entry : Entry) (w : World) : Prop where
  config : w.config = quiet
  now : w.now = 0
  broker : ∃ ids, w.broker = { contents := { ready := [entry] }, ids }
  roster : ∃ state evaluated evaluations, w.roster = readyRoster job state evaluated evaluations
  allowance : w.allowance = none
  locks : w.locks = []
  envelopes : w.envelopes = [] ∨ w.envelopes = [(.named "it", reserved job entry)]

section

variable {job : Job} {entry : Entry} {w : World}

theorem jobOf_reserved (hjob : job.jobId = some "") :
    Turn.jobOf (reserved job entry) = some job := by
  have hread : Job.read (.obj (reserved job entry).data) = .valid job := Job.read_message job
  rw [Turn.jobOf, hread]
  obtain ⟨_, _, _, _⟩ := job
  subst hjob
  rfl

def reservedWorld (job : Job) (entry : Entry) (ids : IdSupply) (w : World) : World :=
  { w with
    broker := { contents := { processing := [entry] }, ids }
    envelopes := [(.named "it", reserved job entry)]
    answer := .reserved (.ok (some (reserved job entry)))
    errand := .none }

theorem reserve_run (hentry : (Queue.firstEnvelope job).encode? = some entry) {ids : IdSupply}
    (hclock : w.clock = 0) (hbroker : w.broker = { contents := { ready := [entry] }, ids })
    (henvelopes : w.envelopes = [] ∨ w.envelopes = [(.named "it", reserved job entry)]) :
    ((Order.reserve "it" false 0).turn.run w).2 = reservedWorld job entry ids w := by
  have hreserve : Queue.reserve w.clock w.broker =
      .ok (.job (reserved job entry)) { contents := { processing := [entry] }, ids } := by
    rw [hclock, hbroker]
    exact Queue.reserve_first hentry ids
  have hput : Roster.put (·.1 = Slot.named "it") (.named "it", reserved job entry) w.envelopes =
      [(.named "it", reserved job entry)] := by
    rcases henvelopes with h | h <;> rw [h] <;> rfl
  have hget : (get : Turn World).run w = (w, w) := rfl
  rw [Order.turn, Turn.reserve, Turn.run_bind, hget, Turn.run_bind, Turn.act_of_ok hreserve]
  change
    { reservedWorld job entry ids w with
      envelopes :=
        Roster.put (·.1 = Slot.named "it") (.named "it", reserved job entry) w.envelopes } = _
  rw [hput]
  rfl

/-- The worker where the queue could not be told that the job was completed. -/
def unsettledWorld (job : Job) (entry : Entry) (result : JobResult) (desk : Desk Roster)
    (w : World) : World :=
  { Turn.handled { w with trace := w.trace ++ [(w.now, .load job.sessionId)] }
      { envelope := (reserved job entry).id, job } result desk with
    broker := { contents := { processing := [entry] }, ids := desk.ids }
    answer := .processed (.error .unreachable)
    errand := .none }

/-- Every delivery commits if the queue refuses to be told. -/
theorem Ready.again (h : Ready job entry w) (hjob : job.jobId = some "")
    (hentry : (Queue.firstEnvelope job).encode? = some entry) :
    ∃ w', World.Reaches w w' ∧ Ready job entry w' ∧
      w'.commitsOf (Queue.firstEnvelope job).id = w.commitsOf (Queue.firstEnvelope job).id + 1 := by
  obtain ⟨ids, hbroker⟩ := h.broker
  obtain ⟨state, evaluated, evaluations, hroster⟩ := h.roster
  obtain ⟨result, state', evaluations', ids', hhandle, hwrote⟩ :=
    handle_readyRoster hjob state evaluated evaluations ids ⟨0⟩
  have hclock : w.clock = 0 := by rw [World.clock, h.config, h.now]; rfl
  have hreserve := reserve_run hentry hclock hbroker h.envelopes
  let refused : World :=
    { reservedWorld job entry ids w with
      broker := { contents := { processing := [entry] }, outage := { count := 1 }, ids } }
  let desk : Desk Roster := { store := readyRoster job state' (some ⟨0⟩) evaluations', ids := ids' }
  have hdelay : refused.config.gatewayDelay = 0 := congrArg Config.gatewayDelay h.config
  have hheartbeat : refused.config.heartbeat = none := congrArg Config.heartbeat h.config
  have hhandled : job.handle Roster.gateway refused.config.defaults refused.config.recordTime
      { store := refused.roster, ids := refused.broker.ids, allowance := refused.allowance } =
        .ok result desk := by
    change job.handle Roster.gateway w.config.defaults w.config.recordTime
      { store := w.roster, ids, allowance := w.allowance } = _
    rw [h.config, hroster, h.allowance]
    exact hhandle
  have hprocess : ((Order.process "it").turn.run refused).2 =
      unsettledWorld job entry result desk refused := by
    rw [Order.turn, Turn.process_run (w := refused) h.locks hdelay hheartbeat rfl rfl
      (jobOf_reserved hjob) hwrote hhandled]
    rfl
  have hrecover : (Order.recoverStalled.turn.run (unsettledWorld job entry result desk refused)).2 =
      { unsettledWorld job entry result desk refused with
        broker := { contents := { ready := [entry] }, ids := ids' } } := rfl
  have hrun := (@World.Reaches.start w).order (.reserve "it" false 0)
  rw [hreserve] at hrun
  have hrun := (hrun.order (.refuse { count := 1 })).order (.process "it")
  change World.Reaches w ((Order.process "it").turn.run refused).2 at hrun
  rw [hprocess] at hrun
  have hrun := hrun.order .recoverStalled
  rw [hrecover] at hrun
  refine ⟨_, hrun, ?_, ?_⟩
  · exact ⟨h.config, h.now, ⟨ids', rfl⟩, ⟨state', some ⟨0⟩, evaluations', rfl⟩, rfl, h.locks, .inr rfl⟩
  · change List.countP _ (w.deliveries ++ [_]) = _
    rw [List.countP_append, List.countP_singleton]
    simp [wrote, hwrote, reserved, World.commitsOf]

/-- A job with an empty job id can be committed any number of times. -/
theorem exists_commitsOf (hjob : job.jobId = some "") (n : Nat) :
    ∃ (roster : Roster) (w' w'' : World) (e : Envelope),
      World.Enqueues (World.start quiet roster {}) job e w' ∧ World.Reaches w' w'' ∧
        w''.commitsOf e.id = n := by
  obtain ⟨entry, hentry⟩ := Queue.encode?_firstEnvelope job
  let start := World.start quiet (readyRoster job .scanning none []) {}
  let enqueued : World :=
    { start with broker := { contents := { ready := [entry] }, ids := ({} : IdSupply).draw.2 } }
  have hruns : ∀ n, ∃ w'', World.Reaches enqueued w'' ∧ Ready job entry w'' ∧
      w''.commitsOf (Queue.firstEnvelope job).id = n := by
    intro n
    induction n with
    | zero =>
      exact ⟨enqueued, .start,
        ⟨rfl, rfl, ⟨_, rfl⟩, ⟨_, _, _, rfl⟩, rfl, rfl, .inl rfl⟩, rfl⟩
    | succ n ih =>
      obtain ⟨w, hrun, hready, hcount⟩ := ih
      obtain ⟨w', hrun', hready', hcount'⟩ := hready.again hjob hentry
      exact ⟨w', hrun.trans hrun', hready', by rw [hcount', hcount]⟩
  obtain ⟨w'', hrun, -, hcount⟩ := hruns n
  exact ⟨_, enqueued, w'', _, .evaluation (w := start) (Queue.enqueue_first hentry), hrun, hcount⟩

end

namespace World

/-- However often the envelope of a job is delivered again, whatever is refused and whatever else the
worker does, at most one delivery commits the evaluations of the job; this holds exactly for the jobs
whose job id is not empty. -/
theorem commitsOf_le_one_iff (job : Job) :
    (∀ (config : Config) (roster : Roster) (ids : IdSupply) (w w' w'' : World) (e : Envelope),
      Reaches (start config roster ids) w → Enqueues w job e w' → Reaches w' w'' →
        w''.commitsOf e.id ≤ 1) ↔ job.jobId ≠ some "" := by
  constructor
  · intro hall hjob
    obtain ⟨roster, w', w'', e, henqueues, hrun, hcount⟩ := exists_commitsOf hjob 2
    have hle := hall quiet roster {} _ w' w'' e .start henqueues hrun
    omega
  · intro hjob config roster ids w w' w'' e hbefore henqueues hrun
    exact henqueues.commitsOf_le ((start_tracks config roster ids).reaches hbefore) hjob hrun

/-- A job that was told its job id is empty is committed twice. -/
theorem not_always_committed_once :
    ¬ ∀ (job : Job) (config : Config) (roster : Roster) (ids : IdSupply) (w w' w'' : World)
      (e : Envelope), Reaches (start config roster ids) w → Enqueues w job e w' → Reaches w' w'' →
        w''.commitsOf e.id ≤ 1 := by
  intro hall
  let job : Job := { sessionId := "s-1", jobId := some "" }
  obtain ⟨roster, w', w'', e, henqueues, hrun, hcount⟩ :=
    exists_commitsOf (show job.jobId = some "" from rfl) 2
  have hle := hall job quiet roster {} _ w' w'' e .start henqueues hrun
  omega

end World

end Worker

end SignalCoach
