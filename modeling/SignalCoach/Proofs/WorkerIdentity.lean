import SignalCoach.Proofs.QueueIdentity
import SignalCoach.Proofs.RosterCommit
import SignalCoach.Proofs.Turns

/-! The identity of jobs in a worker: whatever the tasks do in their turns, the deliveries of an
envelope carry out one job, and the evaluations of a job id are committed once. -/
namespace SignalCoach.Worker

/-- The delivery of which a part of the processing is still to come. -/
def Stage.delivery? : Stage → Option Delivery
  | .locking d | .loading d => some d
  | _ => none

def Body.delivery? : Body → Option Delivery
  | .consumer (.delivering stage) | .member _ _ stage => stage.delivery?
  | _ => none

def Errand.delivery? : Errand → Option Delivery
  | .processing _ stage => stage.delivery?
  | _ => Option.none

def Progress.delivery? : Progress → Option Delivery
  | .suspended stage => stage.delivery?
  | .finished _ => none

structure Delivery.Known (watched : Option Envelope) (ids : IdSupply) (d : Delivery) : Prop where
  drawn : ids.Drew d.envelope
  same : ∀ e₀ ∈ watched, d.envelope = e₀.id → Turn.jobOf e₀ = some d.job

theorem Delivery.Known.watch {ids : IdSupply} {d : Delivery} (h : d.Known none ids) {e₀ : Envelope}
    (hnew : ¬ ids.Drew e₀.id) : d.Known (some e₀) ids := by
  refine ⟨h.drawn, fun e₁ he₁ hid => ?_⟩
  obtain rfl := Option.some.inj he₁
  exact absurd (hid ▸ h.drawn) hnew

theorem Delivery.Known.mono {watched : Option Envelope} {ids ids' : IdSupply} {d : Delivery}
    (h : d.Known watched ids) (hids : ids.next ≤ ids'.next) : d.Known watched ids' :=
  ⟨h.drawn.mono hids, h.same⟩

def wrote : Except Failure JobResult → Bool
  | .ok result => result.wrote
  | .error _ => false

def Committed (jobId : String) (d : Delivery × Except Failure JobResult) : Bool :=
  d.1.job.jobId = some jobId && wrote d.2

namespace World

def commits (w : World) (jobId : String) : Nat := w.deliveries.countP (Committed jobId)

/-- Everything the worker knows of is known, beside the given envelopes and deliveries, and no job
id was committed twice. -/
structure Tracks (watched : Option Envelope) (es : List Envelope) (ds : List Delivery) (w : World) :
    Prop where
  queue : Queue.Identifies watched w.broker
  envelopes : ∀ slot ∈ w.envelopes, slot.2.Known watched w.broker.ids
  tasks : ∀ task ∈ w.tasks, ∀ d ∈ task.body.delivery?, d.Known watched w.broker.ids
  errand : ∀ d ∈ w.errand.delivery?, d.Known watched w.broker.ids
  deliveries : ∀ d ∈ w.deliveries, d.1.Known watched w.broker.ids
  givenEnvelopes : ∀ e ∈ es, e.Known watched w.broker.ids
  givenDeliveries : ∀ d ∈ ds, d.Known watched w.broker.ids
  once : ∀ jobId, jobId ≠ "" → w.commits jobId ≤ 1 ∧
    (w.commits jobId = 1 → Roster.gateway.hasEvaluations w.roster jobId = true)

namespace Tracks

variable {watched : Option Envelope} {es : List Envelope} {ds : List Delivery} {w w' : World}

theorem frame (h : w.Tracks watched es ds) (hbroker : w'.broker = w.broker)
    (henvelopes : w'.envelopes = w.envelopes) (htasks : w'.tasks = w.tasks)
    (herrand : w'.errand = w.errand) (hdeliveries : w'.deliveries = w.deliveries)
    (hroster : w'.roster = w.roster) : w'.Tracks watched es ds where
  queue := hbroker ▸ h.queue
  envelopes := hbroker ▸ henvelopes ▸ h.envelopes
  tasks := hbroker ▸ htasks ▸ h.tasks
  errand := hbroker ▸ herrand ▸ h.errand
  deliveries := hbroker ▸ hdeliveries ▸ h.deliveries
  givenEnvelopes := hbroker ▸ h.givenEnvelopes
  givenDeliveries := hbroker ▸ h.givenDeliveries
  once := by
    unfold commits
    rw [hdeliveries, hroster]
    exact h.once

theorem withBroker (h : w.Tracks watched es ds) {broker : Queue.Broker}
    (hqueue : Queue.Identifies watched broker) (hids : w.broker.ids.next ≤ broker.ids.next) :
    ({ w with broker } : World).Tracks watched es ds where
  queue := hqueue
  envelopes slot hslot := (h.envelopes slot hslot).mono hids
  tasks task htask d hd := (h.tasks task htask d hd).mono hids
  errand d hd := (h.errand d hd).mono hids
  deliveries d hd := (h.deliveries d hd).mono hids
  givenEnvelopes e he := (h.givenEnvelopes e he).mono hids
  givenDeliveries d hd := (h.givenDeliveries d hd).mono hids
  once := h.once

theorem withTasks (h : w.Tracks watched es ds) {tasks : List Task}
    (htasks : ∀ task ∈ tasks, ∀ d ∈ task.body.delivery?, d.Known watched w.broker.ids) :
    ({ w with tasks } : World).Tracks watched es ds :=
  ⟨h.queue, h.envelopes, htasks, h.errand, h.deliveries, h.givenEnvelopes, h.givenDeliveries, h.once⟩

theorem withGiven (h : w.Tracks watched es ds) {es' : List Envelope} {ds' : List Delivery}
    (hes : ∀ e ∈ es', e.Known watched w.broker.ids) (hds : ∀ d ∈ ds', d.Known watched w.broker.ids) :
    w.Tracks watched es' ds' :=
  ⟨h.queue, h.envelopes, h.tasks, h.errand, h.deliveries, hes, hds, h.once⟩

theorem less (h : w.Tracks watched es ds) {es' : List Envelope} {ds' : List Delivery}
    (hes : es' ⊆ es) (hds : ds' ⊆ ds) : w.Tracks watched es' ds' :=
  h.withGiven (fun e he => h.givenEnvelopes e (hes he)) fun d hd => h.givenDeliveries d (hds hd)

/-- What a delivery does to the evaluations: none are lost, and it commits those of its job id only
where there were none. -/
def Adds (d : Delivery) (outcome : Except Failure JobResult) (before after : Roster) : Prop :=
  (∀ e ∈ before.evaluations, e ∈ after.evaluations) ∧
    ∀ jobId, jobId ≠ "" → Committed jobId (d, outcome) = true →
      Roster.gateway.hasEvaluations before jobId = false ∧
        Roster.gateway.hasEvaluations after jobId = true

theorem once_of_adds (h : w.Tracks watched es ds) {d : Delivery} {outcome : Except Failure JobResult}
    {roster : Roster} (hadds : Adds d outcome w.roster roster) {jobId : String} (hjobId : jobId ≠ "") :
    let commits := (w.deliveries ++ [(d, outcome)]).countP (Committed jobId)
    commits ≤ 1 ∧ (commits = 1 → Roster.gateway.hasEvaluations roster jobId = true) := by
  obtain ⟨hkeeps, hcommit⟩ := hadds
  obtain ⟨hle, hfirst⟩ := h.once jobId hjobId
  unfold commits at hle hfirst
  simp only [List.countP_append, List.countP_singleton]
  by_cases hcommitted : Committed jobId (d, outcome) = true
  · obtain ⟨hnone, hsome⟩ := hcommit jobId hjobId hcommitted
    have hzero : w.deliveries.countP (Committed jobId) = 0 := by
      by_contra hne
      have hone := hfirst (by omega)
      rw [hnone] at hone
      cases hone
    rw [if_pos hcommitted, hzero]
    exact ⟨Nat.le_refl _, fun _ => hsome⟩
  · rw [if_neg hcommitted, Nat.add_zero]
    refine ⟨hle, fun hone => ?_⟩
    obtain ⟨e, he, hid⟩ := List.any_eq_true.1 (hfirst hone)
    exact List.any_eq_true.2 ⟨e, hkeeps e he, hid⟩

end Tracks

end World

/-- A job that is carried out commits its evaluations only if there are none of its job id. -/
theorem adds_of_handle {d : Delivery} {defaults : Thresholds} {now : Timestamp} {desk desk' : Desk Roster}
    {result : JobResult}
    (h : d.job.handle Roster.gateway defaults now desk = .ok result desk') :
    World.Tracks.Adds d (.ok result) desk.store desk'.store := by
  rcases Job.roster_handle_eq_ok h with ⟨houtcome, hstore⟩ | ⟨-, hduplicate, batch, hne, hjob, hbatch⟩
  · refine ⟨fun e he => hstore ▸ he, fun jobId _ hcommitted => ?_⟩
    simp [Committed, wrote, JobResult.wrote, houtcome] at hcommitted
  · refine ⟨fun e he => hbatch ▸ List.mem_append_left _ he, fun jobId hjobId hcommitted => ?_⟩
    have hid : d.job.jobId = some jobId := by
      rw [Committed, Bool.and_eq_true, decide_eq_true_eq] at hcommitted
      exact hcommitted.1
    constructor
    · simpa [Job.isDuplicate, hid, hjobId] using hduplicate
    · obtain ⟨e, he⟩ := List.exists_mem_of_ne_nil batch hne
      refine List.any_eq_true.2 ⟨e, hbatch ▸ List.mem_append_right _ he, ?_⟩
      simp [hjob e he, hid]

namespace Turn

open World (Tracks)

variable {watched : Option Envelope} {es : List Envelope} {ds : List Delivery}

section Tasks

theorem modifyTask_keeps (id : TaskId) {f : Task → Task}
    (hf : ∀ t, ∀ d ∈ (f t).body.delivery?, d ∈ t.body.delivery? ∨ d ∈ ds) :
    Keeps (Tracks watched es ds) (modifyTask id f) := by
  refine Triple.change fun w h => h.withTasks fun task htask d hd => ?_
  obtain ⟨t, ht, rfl⟩ := List.mem_map.1 htask
  split at hd
  · rcases hf t d hd with hd | hd
    · exact h.tasks t ht d hd
    · exact h.givenDeliveries d hd
  · exact h.tasks t ht d hd

theorem setBody_keeps (id : TaskId) {body : Body} (hbody : ∀ d ∈ body.delivery?, d ∈ ds) :
    Keeps (Tracks watched es ds) (setBody id body) :=
  modifyTask_keeps id fun _ d hd => .inr (hbody d hd)

theorem frame_keeps {f : World → World}
    (hf : ∀ w, (f w).broker = w.broker ∧ (f w).envelopes = w.envelopes ∧ (f w).tasks = w.tasks ∧
      (f w).errand = w.errand ∧ (f w).deliveries = w.deliveries ∧ (f w).roster = w.roster) :
    Keeps (Tracks watched es ds) (modify f : Turn PUnit) := by
  refine Triple.change fun w h => ?_
  obtain ⟨hbroker, henvelopes, htasks, herrand, hdeliveries, hroster⟩ := hf w
  exact h.frame hbroker henvelopes htasks herrand hdeliveries hroster

theorem schedule_keeps (handle : Handle) : Keeps (Tracks watched es ds) (schedule handle) :=
  frame_keeps fun _ => ⟨rfl, rfl, rfl, rfl, rfl, rfl⟩

theorem goOn_keeps (id : TaskId) : Keeps (Tracks watched es ds) (goOn id) :=
  frame_keeps fun _ => ⟨rfl, rfl, rfl, rfl, rfl, rfl⟩

theorem sleep_keeps (id : TaskId) (time : Nat) : Keeps (Tracks watched es ds) (sleep id time) := by
  unfold sleep
  refine Triple.ite (fun _ => schedule_keeps _) fun _ => ?_
  exact frame_keeps fun _ => ⟨rfl, rfl, rfl, rfl, rfl, rfl⟩

theorem spawn_keeps {body : Body} (hbody : ∀ d ∈ body.delivery?, d ∈ ds) :
    Keeps (Tracks watched es ds) (spawn body) := by
  refine Triple.get_bind fun w h => ?_
  refine Triple.bind (Triple.put (Q := fun _ => Tracks watched es ds) ?_) fun _ =>
    Triple.bind (schedule_keeps _) fun _ => keeps_answer _
  have htasks : ({ w with tasks := w.tasks ++ [({ id := w.nextTask, body } : Task)] } : World).Tracks
      watched es ds := by
    refine h.withTasks fun task htask d hd => ?_
    rcases List.mem_append.1 htask with htask | htask
    · exact h.tasks task htask d hd
    · obtain rfl := List.mem_singleton.1 htask
      exact h.givenDeliveries d (hbody d hd)
  exact htasks.frame rfl rfl rfl rfl rfl rfl

theorem cancel_keeps (id : TaskId) : Keeps (Tracks watched es ds) (cancel id) := by
  refine Triple.bind (modifyTask_keeps id fun _ _ hd => .inl hd) fun _ => ?_
  refine Triple.get_bind fun w h => ?_
  refine Triple.ite (fun _ => ?_) fun _ => Triple.answer fun _ heq => heq ▸ h
  exact Triple.bind (Triple.put (Q := fun _ => Tracks watched es ds)
    (h.frame rfl rfl rfl rfl rfl rfl)) fun _ => schedule_keeps _

theorem join_keeps (id : TaskId) (joiner : Joiner) : Keeps (Tracks watched es ds) (join id joiner) :=
  modifyTask_keeps id fun _ _ hd => .inl hd

theorem wake_keeps (joiner : Joiner) : Keeps (Tracks watched es ds) (wake joiner) := by
  cases joiner <;> exact schedule_keeps _

theorem finish_keeps (id : TaskId) : Keeps (Tracks watched es ds) (finish id) := by
  refine Triple.get_bind fun w h => ?_
  refine Triple.bind (Triple.put (Q := fun _ => Tracks watched es ds) ?_) fun _ => ?_
  · exact h.withTasks fun task htask d hd => h.tasks task (List.mem_filter.1 htask).1 d hd
  · exact keeps_forIn _ _ fun joiner => Triple.bind (wake_keeps joiner) fun _ =>
      keeps_answer _

theorem note_keeps (event : Event) : Keeps (Tracks watched es ds) (note event) :=
  frame_keeps fun _ => ⟨rfl, rfl, rfl, rfl, rfl, rfl⟩

end Tasks

section Queue

def answered (known : α → List Envelope) : Except Queue.Fault α → List Envelope
  | .ok a => known a
  | .error _ => []

theorem act_tracks {action : Queue.Action α} {given : List Envelope} {known : α → List Envelope}
    (haction : Queue.Preserves watched given action known) (hgiven : given ⊆ es) :
    Triple (Tracks watched es ds) (act action) fun outcome =>
      Tracks watched (answered known outcome ++ es) ds := by
  refine Triple.get_bind fun w h => ?_
  have hresult := haction w.broker h.queue fun e he => h.givenEnvelopes e (hgiven he)
  cases hrun : action w.broker with
  | ok a broker =>
    rw [hrun] at hresult
    obtain ⟨hqueue, hids, hknown⟩ := hresult
    have hbroker := h.withBroker hqueue hids
    refine Triple.bind (Triple.put (Q := fun _ => Tracks watched (known a ++ es) ds) ?_) fun _ =>
      keeps_answer _
    refine hbroker.withGiven (fun e he => ?_) hbroker.givenDeliveries
    rcases List.mem_append.1 he with he | he
    · exact hknown e he
    · exact hbroker.givenEnvelopes e he
  | error fault broker =>
    rw [hrun] at hresult
    exact Triple.bind (Triple.put (Q := fun _ => Tracks watched es ds)
      (h.withBroker hresult.1 hresult.2)) fun _ => keeps_answer _

theorem act_keeps {action : Queue.Action α} {given : List Envelope} {known : α → List Envelope}
    (haction : Queue.Preserves watched given action known) (hgiven : given ⊆ es) :
    Keeps (Tracks watched es ds) (act action) :=
  (act_tracks haction hgiven).post fun _ _ h =>
    h.less (List.subset_append_right _ _) (List.Subset.refl _)

theorem setEnvelope_keeps (slot : Slot) {e : Envelope} (he : e ∈ es) :
    Keeps (Tracks watched es ds) (setEnvelope slot e) := by
  refine Triple.change fun w h => ?_
  have hput : ∀ other ∈ Roster.put (·.1 = slot) (slot, e) w.envelopes,
      other.2.Known watched w.broker.ids := by
    have hall := h.envelopes
    generalize w.envelopes = envelopes at hall
    induction envelopes with
    | nil => simpa [Roster.put] using h.givenEnvelopes e he
    | cons first rest ih =>
      rw [List.forall_mem_cons] at hall
      unfold Roster.put
      split
      · exact List.forall_mem_cons.2 ⟨h.givenEnvelopes e he, hall.2⟩
      · exact List.forall_mem_cons.2 ⟨hall.1, ih hall.2⟩
  exact ⟨h.queue, hput, h.tasks, h.errand, h.deliveries, h.givenEnvelopes, h.givenDeliveries, h.once⟩

theorem envelope?_tracks (slot : Slot) :
    Triple (Tracks watched es ds) (envelope? slot) fun found =>
      Tracks watched (found.toList ++ es) ds := by
  refine Triple.get_bind fun w h => Triple.answer fun _ heq => ?_
  subst heq
  refine h.withGiven (fun e he => ?_) h.givenDeliveries
  rcases List.mem_append.1 he with he | he
  · obtain ⟨found, hfound, rfl⟩ := Option.map_eq_some_iff.1 (Option.mem_toList.1 he)
    exact h.envelopes found (List.mem_of_find?_eq_some hfound)
  · exact h.givenEnvelopes e he

end Queue

section Locks

theorem modifyLock_keeps (session : String) (f : SessionLock → SessionLock) :
    Keeps (Tracks watched es ds) (modifyLock session f) :=
  frame_keeps fun _ => ⟨rfl, rfl, rfl, rfl, rfl, rfl⟩

theorem lock?_keeps (session : String) : Keeps (Tracks watched es ds) (lock? session) :=
  Triple.bind Triple.look fun _ => keeps_answer _

theorem lock_keeps (id : TaskId) (session : String) :
    Keeps (Tracks watched es ds) (lock id session) := by
  refine Triple.bind (lock?_keeps session) fun found => ?_
  cases found with
  | none =>
    exact Triple.bind (frame_keeps fun _ => ⟨rfl, rfl, rfl, rfl, rfl, rfl⟩) fun _ =>
      keeps_answer _
  | some l =>
    exact Triple.bind (modifyLock_keeps session _) fun _ => keeps_answer _

theorem lockAfterWait_keeps (id : TaskId) (session : String) :
    Keeps (Tracks watched es ds) (lockAfterWait id session) := modifyLock_keeps session _

theorem callNext_keeps (session : String) : Keeps (Tracks watched es ds) (callNext session) := by
  refine Triple.bind (lock?_keeps session) fun found => ?_
  split
  · exact Triple.bind (modifyLock_keeps session _) fun _ => schedule_keeps _
  · exact keeps_answer _

theorem leave_keeps (session : String) : Keeps (Tracks watched es ds) (leave session) :=
  Triple.bind (modifyLock_keeps session _) fun _ =>
    frame_keeps fun _ => ⟨rfl, rfl, rfl, rfl, rfl, rfl⟩

theorem unlock_keeps (session : String) : Keeps (Tracks watched es ds) (unlock session) :=
  Triple.bind (modifyLock_keeps session _) fun _ =>
    Triple.bind (callNext_keeps session) fun _ => leave_keeps session

theorem abandonLock_keeps (id : TaskId) (session : String) :
    Keeps (Tracks watched es ds) (abandonLock id session) :=
  Triple.bind (modifyLock_keeps session _) fun _ =>
    Triple.bind (callNext_keeps session) fun _ => leave_keeps session

end Locks

section Beats

theorem beat?_keeps (session : String) : Keeps (Tracks watched es ds) (beat? session) :=
  Triple.bind Triple.look fun _ => keeps_answer _

theorem isBeating_keeps (session : String) : Keeps (Tracks watched es ds) (isBeating session) :=
  Triple.bind (beat?_keeps session) fun _ => keeps_answer _

theorem startBeat_keeps (session : String) : Keeps (Tracks watched es ds) (startBeat session) := by
  refine Triple.bind (isBeating_keeps session) fun beating => ?_
  refine Triple.ite (fun _ => keeps_answer _) fun _ => ?_
  refine Triple.bind (spawn_keeps (by simp [Body.delivery?])) fun task => ?_
  exact Triple.bind (frame_keeps fun _ => ⟨rfl, rfl, rfl, rfl, rfl, rfl⟩) fun _ =>
    keeps_answer _

theorem reportBeat_keeps (session : String) : Keeps (Tracks watched es ds) (reportBeat session) := by
  refine Triple.bind (beat?_keeps session) fun beat => ?_
  split
  · refine Triple.bind (frame_keeps fun _ => ⟨rfl, rfl, rfl, rfl, rfl, rfl⟩) fun _ => ?_
    refine Triple.bind Triple.look fun w => ?_
    exact Triple.ite (fun _ => schedule_keeps _) fun _ => keeps_answer _
  · exact keeps_answer _

theorem forgetOutstanding_keeps (session : String) :
    Keeps (Tracks watched es ds) (forgetOutstanding session) :=
  frame_keeps fun _ => ⟨rfl, rfl, rfl, rfl, rfl, rfl⟩

theorem haltBeat_keeps (waiter : TaskId) (session : String) :
    Keeps (Tracks watched es ds) (haltBeat waiter session) := by
  refine Triple.bind (beat?_keeps session) fun beat => ?_
  refine Triple.bind (frame_keeps fun _ => ⟨rfl, rfl, rfl, rfl, rfl, rfl⟩) fun _ => ?_
  refine Triple.bind (forgetOutstanding_keeps session) fun _ => ?_
  cases beat with
  | none => exact keeps_answer _
  | some beat =>
    exact Triple.bind (cancel_keeps beat.task) fun _ =>
      Triple.bind (join_keeps beat.task _) fun _ => keeps_answer _

theorem sleepBeat_keeps (id : TaskId) (session : String) :
    Keeps (Tracks watched es ds) (sleepBeat id session) :=
  Triple.bind (setBody_keeps id (by simp [Body.delivery?])) fun _ =>
    Triple.bind Triple.look fun _ => sleep_keeps id _

theorem tick_keeps (id : TaskId) (session : String) :
    Keeps (Tracks watched es ds) (tick id session) := by
  refine Triple.bind (frame_keeps fun _ => ⟨rfl, rfl, rfl, rfl, rfl, rfl⟩) fun _ => ?_
  refine Triple.bind Triple.look fun w => ?_
  refine Triple.bind (act_keeps (Queue.scheduleHeartbeat_preserves _ _ _) (by simp)) fun outcome => ?_
  split
  · exact Triple.bind (frame_keeps fun _ => ⟨rfl, rfl, rfl, rfl, rfl, rfl⟩) fun _ =>
      setBody_keeps id (by simp [Body.delivery?])
  · exact sleepBeat_keeps id session

theorem beatTurn_keeps (id : TaskId) (session : String) (cancelled : Bool) (beating : Beating) :
    Keeps (Tracks watched es ds) (beatTurn id session cancelled beating) := by
  have hrest : Keeps (Tracks watched es ds)
      (if cancelled then finish id else if beating = .sleeping then tick id session
        else sleepBeat id session) :=
    Triple.ite (fun _ => finish_keeps id) fun _ =>
      Triple.ite (fun _ => tick_keeps id session) fun _ => sleepBeat_keeps id session
  unfold beatTurn
  refine Triple.ite (fun _ => ?_) fun _ => ?_
  · exact Triple.bind (forgetOutstanding_keeps session) fun _ => hrest
  · exact Triple.bind (keeps_answer ()) fun _ => hrest

end Beats

section Deliveries

def Leaves (watched : Option Envelope) (es : List Envelope) (ds : List Delivery) (p : Progress) :
    World → Prop :=
  Tracks watched es (p.delivery?.toList ++ ds)

theorem leaves_finished {outcome : Processed} {w : World} (h : w.Tracks watched es ds) :
    Leaves watched es ds (.finished outcome) w := h

theorem given_envelope {e : Envelope} {x : Turn α} (hx : Keeps (Tracks watched (e :: es) ds) x) :
    Triple (Tracks watched (e :: es) ds) x fun _ => Tracks watched es ds :=
  hx.post fun _ _ h => h.less (List.subset_cons_self _ _) (List.Subset.refl _)

theorem failEnvelope_keeps (slot : Slot) {e : Envelope} (he : e ∈ es) (error : String)
    (retry : Bool) : Keeps (Tracks watched es ds) (failEnvelope slot e error retry) := by
  refine Triple.bind Triple.look fun w => ?_
  refine Triple.bind (act_tracks (Queue.fail_preserves _ e error retry) (by simpa using he))
    fun outcome => ?_
  cases outcome with
  | ok answer =>
    exact Triple.bind (given_envelope (setEnvelope_keeps slot (by simp))) fun _ => keeps_answer _
  | error fault =>
    have hmore : ∀ w : World, w.Tracks watched es ds → w.Tracks watched (e.failed error :: es) ds := by
      intro w h
      refine h.withGiven (fun other hother => ?_) h.givenDeliveries
      rcases List.mem_cons.1 hother with rfl | hother
      · exact (h.givenEnvelopes e he).failed error
      · exact h.givenEnvelopes other hother
    refine Triple.bind ((given_envelope (setEnvelope_keeps slot (by simp))).weaken hmore
      fun _ _ h => h) fun _ => keeps_answer _

theorem countFailed_keeps : Keeps (Tracks watched es ds) countFailed :=
  frame_keeps fun _ => ⟨rfl, rfl, rfl, rfl, rfl, rfl⟩

theorem reject_leaves (slot : Slot) {e : Envelope} (he : e ∈ es) (error : String) :
    Triple (Tracks watched es ds) (reject slot e error) (Leaves watched es ds) := by
  refine Triple.bind (failEnvelope_keeps slot he error false) fun outcome => ?_
  cases outcome with
  | ok _ => exact Triple.bind countFailed_keeps fun _ => Triple.answer fun _ h => leaves_finished h
  | error fault => exact Triple.answer fun _ h => leaves_finished h

theorem settle_leaves (slot : Slot) {e : Envelope} (he : e ∈ es) (settlement : Settlement) :
    Triple (Tracks watched es ds) (settle slot e settlement) (Leaves watched es ds) := by
  cases settlement with
  | acknowledge result =>
    refine Triple.bind (act_keeps (Queue.complete_preserves e) (by simp)) fun outcome => ?_
    cases outcome with
    | ok _ =>
      exact Triple.bind (frame_keeps fun _ => ⟨rfl, rfl, rfl, rfl, rfl, rfl⟩) fun _ =>
        Triple.answer fun _ h => leaves_finished h
    | error fault => exact Triple.answer fun _ h => leaves_finished h
  | fail error =>
    refine Triple.bind (failEnvelope_keeps slot he error true) fun outcome => ?_
    cases outcome with
    | ok _ => exact Triple.answer fun _ h => leaves_finished h
    | error fault => exact Triple.answer fun _ h => leaves_finished h

theorem haltAndSettle_leaves (id : TaskId) (slot : Slot) {e : Envelope} (he : e ∈ es)
    (session : String) (settlement : Settlement) :
    Triple (Tracks watched es ds) (haltAndSettle id slot e session settlement)
      (Leaves watched es ds) := by
  refine Triple.bind (haltBeat_keeps id session) fun waits => ?_
  exact Triple.ite (fun _ => Triple.answer fun _ h => h) fun _ => settle_leaves slot he settlement

theorem afterFailure_leaves (id : TaskId) (slot : Slot) {e : Envelope} (he : e ∈ es) (job : Job)
    (error : String) :
    Triple (Tracks watched es ds) (afterFailure id slot e job error) (Leaves watched es ds) := by
  refine Triple.bind countFailed_keeps fun _ => Triple.bind Triple.look fun w => ?_
  exact Triple.ite (fun _ => haltAndSettle_leaves id slot he job.sessionId _) fun _ =>
    settle_leaves slot he _

theorem afterResult_leaves (id : TaskId) (slot : Slot) {e : Envelope} (he : e ∈ es) (job : Job)
    (result : JobResult) :
    Triple (Tracks watched es ds) (afterResult id slot e job result) (Leaves watched es ds) := by
  have hsettle : Triple (Tracks watched es ds) (settle slot e (.acknowledge result))
      (Leaves watched es ds) := settle_leaves slot he _
  have hstart : Triple (Tracks watched es ds)
      (if result.outcome = .completed then do
        let _ ← startBeat job.sessionId
        settle slot e (.acknowledge result)
      else settle slot e (.acknowledge result)) (Leaves watched es ds) :=
    Triple.ite (fun _ => Triple.bind (startBeat_keeps _) fun _ => hsettle) fun _ => hsettle
  unfold afterResult
  refine Triple.bind Triple.look fun w => ?_
  refine Triple.ite (fun _ => hsettle) fun _ => ?_
  refine Triple.ite (fun _ => haltAndSettle_leaves id slot he job.sessionId _) fun _ => ?_
  refine Triple.ite (fun _ => ?_) fun _ => ?_
  · exact Triple.bind (reportBeat_keeps _) fun _ => hstart
  · exact Triple.bind (keeps_answer ()) fun _ => hstart

theorem tracks_delivered {w : World} (h : w.Tracks watched es ds) {d : Delivery} (hd : d ∈ ds)
    {outcome : Except Failure JobResult} {desk : Desk Roster}
    (hids : w.broker.ids.next ≤ desk.ids.next)
    (hadds : World.Tracks.Adds d outcome w.roster desk.store) :
    ({ w with roster := desk.store, allowance := desk.allowance,
              broker := { w.broker with ids := desk.ids },
              deliveries := w.deliveries ++ [(d, outcome)] } : World).Tracks watched es ds := by
  have hqueue : Queue.Identifies watched { w.broker with ids := desk.ids } :=
    h.queue.mono h.queue.delayed (fun _ h => h) hids
  have hbroker := h.withBroker hqueue hids
  refine ⟨hqueue, hbroker.envelopes, hbroker.tasks, hbroker.errand, fun other hother => ?_,
    hbroker.givenEnvelopes, hbroker.givenDeliveries, fun jobId hjobId => h.once_of_adds hadds hjobId⟩
  rcases List.mem_append.1 hother with hother | hother
  · exact hbroker.deliveries other hother
  · obtain rfl := List.mem_singleton.1 hother
    exact hbroker.givenDeliveries d hd

theorem handle_keeps {d : Delivery} (hd : d ∈ ds) : Keeps (Tracks watched es ds) (handle d) := by
  refine Triple.get_bind fun w h => ?_
  have hdraws := Job.draws_handle Roster.gateway w.config.defaults w.config.recordTime d.job
    { store := w.roster, ids := w.broker.ids, allowance := w.allowance }
  cases hrun : d.job.handle Roster.gateway w.config.defaults w.config.recordTime
      { store := w.roster, ids := w.broker.ids, allowance := w.allowance } with
  | ok result desk =>
    rw [hrun] at hdraws
    have hdelivered := tracks_delivered h hd hdraws (adds_of_handle hrun)
    simp only [hrun]
    refine Triple.bind (Triple.put (Q := fun _ => Tracks watched es ds) hdelivered) fun _ => ?_
    refine Triple.ite (fun _ => ?_) fun _ => ?_
    · exact Triple.bind (note_keeps _) fun _ => keeps_answer _
    · exact Triple.bind (keeps_answer ()) fun _ => keeps_answer _
  | error failure desk =>
    rw [hrun] at hdraws
    have hstore := Job.handle_eq_error hrun
    have hadds : World.Tracks.Adds d (.error failure) w.roster desk.store := by
      refine ⟨fun e he => hstore ▸ he, fun jobId _ hcommitted => ?_⟩
      simp [Committed, wrote] at hcommitted
    simp only [hrun]
    exact Triple.bind (Triple.put (Q := fun _ => Tracks watched es ds)
      (tracks_delivered h hd hdraws hadds)) fun _ => keeps_answer _

theorem carryOut_leaves (id : TaskId) (slot : Slot) {e : Envelope} (he : e ∈ es) {d : Delivery}
    (hd : d ∈ ds) :
    Triple (Tracks watched es ds) (carryOut id slot e d) (Leaves watched es ds) := by
  refine Triple.bind (handle_keeps hd) fun outcome => Triple.bind (unlock_keeps _) fun _ => ?_
  cases outcome with
  | ok result => exact afterResult_leaves id slot he d.job result
  | error failure => exact afterFailure_leaves id slot he d.job failure.text

theorem load_leaves (id : TaskId) (slot : Slot) {e : Envelope} (he : e ∈ es) {d : Delivery}
    (hd : d ∈ ds) : Triple (Tracks watched es ds) (load id slot e d) (Leaves watched es ds) := by
  refine Triple.bind (note_keeps _) fun _ => Triple.bind Triple.look fun w => ?_
  refine Triple.ite (fun _ => carryOut_leaves id slot he hd) fun _ => ?_
  refine Triple.bind (sleep_keeps id _) fun _ => Triple.answer fun w h => ?_
  refine h.less (List.Subset.refl _) fun d' hd' => ?_
  rcases List.mem_cons.1 hd' with rfl | hd'
  · exact hd
  · exact hd'

theorem known_of_jobOf {ids : IdSupply} {e : Envelope} (h : e.Known watched ids) {job : Job}
    (hjob : jobOf e = some job) : ({ envelope := e.id, job } : Delivery).Known watched ids := by
  refine ⟨h.drawn, fun e₀ he₀ hid => ?_⟩
  rw [← h.same e₀ he₀ hid]
  exact hjob

theorem enter_leaves (id : TaskId) (slot : Slot) {e : Envelope} (he : e ∈ es) :
    Triple (Tracks watched es ds) (enter id slot e) (Leaves watched es ds) := by
  unfold enter
  refine Triple.ite (fun _ => reject_leaves slot he _) fun _ => ?_
  cases hjob : jobOf e with
  | none => exact reject_leaves slot he _
  | some job =>
    have hgive : ∀ w : World, w.Tracks watched es ds →
        w.Tracks watched es ({ envelope := e.id, job } :: ds) := by
      intro w h
      refine h.withGiven h.givenEnvelopes fun d hd => ?_
      rcases List.mem_cons.1 hd with rfl | hd
      · exact known_of_jobOf (h.givenEnvelopes e he) hjob
      · exact h.givenDeliveries d hd
    refine Triple.bind ((lock_keeps id job.sessionId).weaken hgive fun _ _ h => h) fun free => ?_
    refine Triple.ite (fun _ => ?_) fun _ => Triple.answer fun _ h => h
    refine (load_leaves id slot he (by simp)).post fun p w h => ?_
    exact h.less (List.Subset.refl _) fun d hd => by
      rcases List.mem_append.1 hd with hd | hd
      · exact List.mem_append_left _ hd
      · exact List.mem_append_right _ (List.mem_cons_of_mem _ hd)

theorem proceed_leaves (id : TaskId) (slot : Slot) {stage : Stage}
    (hstage : ∀ d ∈ stage.delivery?, d ∈ ds) :
    Triple (Tracks watched es ds) (proceed id slot stage) (Leaves watched es ds) := by
  refine Triple.bind (envelope?_tracks slot) fun found => ?_
  cases found with
  | none => exact Triple.answer fun _ h => leaves_finished h
  | some e =>
    have he : e ∈ (some e).toList ++ es := by simp
    have hless : ∀ (p : Progress) (w : World), Leaves watched ((some e).toList ++ es) ds p w →
        Leaves watched es ds p w :=
      fun _ _ h => h.less (List.subset_append_right _ _) (List.Subset.refl _)
    refine Triple.post ?_ hless
    cases stage with
    | entering => exact enter_leaves id slot he
    | locking d =>
      exact Triple.bind (lockAfterWait_keeps id _) fun _ =>
        load_leaves id slot he (hstage d (by simp [Stage.delivery?]))
    | loading d => exact carryOut_leaves id slot he (hstage d (by simp [Stage.delivery?]))
    | halting settlement => exact settle_leaves slot he settlement

end Deliveries

end Turn

end SignalCoach.Worker
