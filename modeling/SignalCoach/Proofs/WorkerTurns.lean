import SignalCoach.Proofs.WorkerIdentity

/-! Every turn of a worker, and every move of its time, keeps track of the identity of jobs. -/
namespace SignalCoach.Worker

namespace Turn

open World (Tracks)

variable {watched : Option Envelope} {es : List Envelope} {ds : List Delivery}

theorem given_delivery {found : Option Delivery} {x : Turn α}
    (hx : Keeps (Tracks watched es (found.toList ++ ds)) x) :
    Triple (Tracks watched es (found.toList ++ ds)) x fun _ => Tracks watched es ds :=
  hx.post fun _ _ h => h.less (List.Subset.refl _) (List.subset_append_right _ _)

theorem mem_found {found : Option Delivery} {d : Delivery} (hd : d ∈ found) :
    d ∈ found.toList ++ ds :=
  List.mem_append_left _ (Option.mem_toList.2 hd)

theorem found_of_tracks {w : World} (h : w.Tracks watched es ds) {found : Option Delivery}
    (hfound : ∀ d ∈ found, d.Known watched w.broker.ids) :
    w.Tracks watched es (found.toList ++ ds) := by
  refine h.withGiven h.givenEnvelopes fun d hd => ?_
  rcases List.mem_append.1 hd with hd | hd
  · exact hfound d (Option.mem_toList.1 hd)
  · exact h.givenDeliveries d hd

section Consumers

theorem rest_keeps (id : TaskId) {consuming : Consuming}
    (hconsuming : ∀ d ∈ (Body.consumer consuming).delivery?, d ∈ ds) :
    Keeps (Tracks watched es ds) (rest id consuming) :=
  Triple.bind (setBody_keeps id hconsuming) fun _ =>
    Triple.bind Triple.look fun _ => sleep_keeps id _

theorem lookAgain_keeps (id : TaskId) : Keeps (Tracks watched es ds) (lookAgain id) :=
  Triple.bind (setBody_keeps id (by simp [Body.delivery?])) fun _ => goOn_keeps id

theorem continueWith_tracks (id : TaskId) (p : Progress) :
    Triple (Leaves watched es ds p) (continueWith id p) fun _ => Tracks watched es ds := by
  unfold Leaves
  apply given_delivery
  cases p with
  | suspended stage => exact setBody_keeps id fun d hd => mem_found hd
  | finished outcome =>
    cases outcome with
    | ok _ => exact lookAgain_keeps id
    | error _ => exact rest_keeps id (by simp [Body.delivery?])

theorem deliver_keeps (id : TaskId) {stage : Stage} (hstage : ∀ d ∈ stage.delivery?, d ∈ ds) :
    Keeps (Tracks watched es ds) (deliver id stage) :=
  Triple.bind (proceed_leaves id _ hstage) fun p => continueWith_tracks id p

theorem takeUp_tracks (id : TaskId) (outcome : Except Queue.Fault Queue.Reservation) :
    Triple (Tracks watched (answered Queue.Reservation.envelopes outcome ++ es) ds)
      (takeUp id outcome) fun _ => Tracks watched es ds := by
  cases outcome with
  | ok reservation =>
    cases reservation with
    | job e =>
      refine given_envelope (Triple.bind (setEnvelope_keeps _ (by simp)) fun _ => ?_)
      exact deliver_keeps id (by simp [Stage.delivery?])
    | unreadable => exact lookAgain_keeps id
    | nothing => exact rest_keeps id (by simp [Body.delivery?])
  | error _ => exact rest_keeps id (by simp [Body.delivery?])

theorem look_keeps (id : TaskId) : Keeps (Tracks watched es ds) (look id) := by
  refine Triple.bind Triple.look fun w => ?_
  refine Triple.ite (fun _ => finish_keeps id) fun _ => ?_
  refine Triple.bind Triple.look fun w => ?_
  exact Triple.bind (act_tracks (Queue.reserve_preserves _) (by simp)) fun outcome =>
    takeUp_tracks id outcome

theorem lookAfterWait_keeps (id : TaskId) : Keeps (Tracks watched es ds) (lookAfterWait id) := by
  refine Triple.bind (act_tracks Queue.reserveAfterWait_preserves (by simp)) fun outcome => ?_
  split
  · exact lookAgain_keeps id
  · exact takeUp_tracks id _

theorem abandon_keeps (id : TaskId) (consuming : Consuming) :
    Keeps (Tracks watched es ds) (abandon id consuming) := by
  unfold abandon
  split
  · exact Triple.bind (abandonLock_keeps id _) fun _ => finish_keeps id
  · exact Triple.bind (unlock_keeps _) fun _ => finish_keeps id
  · exact finish_keeps id

theorem consumerTurn_keeps (id : TaskId) (cancelled : Bool) {consuming : Consuming}
    (hconsuming : ∀ d ∈ (Body.consumer consuming).delivery?, d ∈ ds) :
    Keeps (Tracks watched es ds) (consumerTurn id cancelled consuming) := by
  refine Triple.ite (fun _ => abandon_keeps id consuming) fun _ => ?_
  cases consuming with
  | looking => exact look_keeps id
  | polling => exact lookAfterWait_keeps id
  | pausing => exact lookAgain_keeps id
  | delivering stage => exact deliver_keeps id hconsuming

theorem startWorker_keeps : Keeps (Tracks watched es ds) startWorker := by
  refine Triple.get_bind fun w h => ?_
  refine Triple.ite (fun _ => ?_) fun _ => Triple.answer fun _ heq => heq ▸ h
  refine Triple.bind (Triple.put (Q := fun _ => Tracks watched es ds)
    (h.frame rfl rfl rfl rfl rfl rfl)) fun _ => ?_
  refine Triple.bind (keeps_mapM _ _ fun _ => spawn_keeps (by simp [Body.delivery?])) fun ids => ?_
  exact frame_keeps fun _ => ⟨rfl, rfl, rfl, rfl, rfl, rfl⟩

theorem cancelConsumer_keeps (id : TaskId) : Keeps (Tracks watched es ds) (cancelConsumer id) := by
  refine Triple.bind Triple.look fun w => ?_
  cases w.task? id with
  | none => exact keeps_answer _
  | some task => exact Triple.ite (fun _ => cancel_keeps id) fun _ => keeps_answer _

theorem stopWorker_keeps : Keeps (Tracks watched es ds) stopWorker := by
  refine Triple.bind Triple.look fun w => ?_
  refine Triple.bind (frame_keeps fun _ => ⟨rfl, rfl, rfl, rfl, rfl, rfl⟩) fun _ => ?_
  refine Triple.bind (keeps_forIn _ _ fun id => ?_) fun _ => ?_
  · exact Triple.bind (cancelConsumer_keeps id) fun _ => keeps_answer _
  refine Triple.bind (keeps_forIn _ _ fun id => ?_) fun _ => ?_
  · exact Triple.bind (join_keeps id .group) fun _ => keeps_answer _
  exact Triple.bind (frame_keeps fun _ => ⟨rfl, rfl, rfl, rfl, rfl, rfl⟩) fun _ => keeps_answer _

end Consumers

section Errands

theorem setErrand_keeps {errand : Errand} (herrand : ∀ d ∈ errand.delivery?, d ∈ ds) :
    Keeps (Tracks watched es ds) (setErrand errand) := by
  refine Triple.change fun w h => ?_
  exact ⟨h.queue, h.envelopes, h.tasks, fun d hd => h.givenDeliveries d (herrand d hd),
    h.deliveries, h.givenEnvelopes, h.givenDeliveries, h.once⟩

theorem answer_keeps (a : Answer) : Keeps (Tracks watched es ds) (answer a) := by
  refine Triple.change fun w h => ?_
  exact ⟨h.queue, h.envelopes, h.tasks, by simp [Errand.delivery?], h.deliveries,
    h.givenEnvelopes, h.givenDeliveries, h.once⟩

theorem continueErrand_tracks (name : String) (p : Progress) :
    Triple (Leaves watched es ds p) (continueErrand name p) fun _ => Tracks watched es ds := by
  unfold Leaves
  apply given_delivery
  cases p with
  | suspended stage => exact setErrand_keeps fun d hd => mem_found hd
  | finished outcome => exact answer_keeps _

theorem process_keeps (name : String) : Keeps (Tracks watched es ds) (process name) :=
  Triple.bind (proceed_leaves own _ (by simp [Stage.delivery?])) fun p =>
    continueErrand_tracks name p

theorem takeUpFor_tracks (name : String) (processes : Bool)
    (outcome : Except Queue.Fault Queue.Reservation) :
    Triple (Tracks watched (answered Queue.Reservation.envelopes outcome ++ es) ds)
      (takeUpFor name processes outcome) fun _ => Tracks watched es ds := by
  cases outcome with
  | ok reservation =>
    cases reservation with
    | job e =>
      refine given_envelope (Triple.bind (setEnvelope_keeps _ (by simp)) fun _ => ?_)
      exact Triple.ite (fun _ => process_keeps name) fun _ => answer_keeps _
    | unreadable => exact answer_keeps _
    | nothing => exact answer_keeps _
  | error _ => exact answer_keeps _

theorem reserve_keeps (name : String) (processes : Bool) (timeout : Nat) :
    Keeps (Tracks watched es ds) (reserve name processes timeout) := by
  refine Triple.bind Triple.look fun w => ?_
  refine Triple.bind (act_tracks (Queue.reserve_preserves _) (by simp)) fun outcome => ?_
  split
  · exact Triple.bind (setErrand_keeps (by simp [Errand.delivery?])) fun _ => sleep_keeps own timeout
  · exact takeUpFor_tracks name processes _

theorem reserveAfterWait_keeps (name : String) (processes : Bool) :
    Keeps (Tracks watched es ds) (reserveAfterWait name processes) :=
  Triple.bind (act_tracks Queue.reserveAfterWait_preserves (by simp)) fun outcome =>
    takeUpFor_tracks name processes outcome

theorem gather_keeps (count : Nat) (stopsBeats : Bool) {done : Turn Unit}
    (hdone : Keeps (Tracks watched es ds) done) :
    Keeps (Tracks watched es ds) (gather count stopsBeats done) :=
  Triple.ite (fun _ => hdone) fun _ => setErrand_keeps (by simp [Errand.delivery?])

theorem spawnMembers_keeps (index : Nat) (names : List String) :
    Keeps (Tracks watched es ds) (spawnMembers index names) := by
  induction names generalizing index with
  | nil => exact keeps_answer _
  | cons name rest ih =>
    refine Triple.bind (spawn_keeps (by simp [Body.delivery?, Stage.delivery?])) fun id => ?_
    exact Triple.bind (join_keeps id .group) fun _ => ih (index + 1)

theorem processAll_keeps (names : List String) :
    Keeps (Tracks watched es ds) (processAll names) := by
  refine Triple.bind (frame_keeps fun _ => ⟨rfl, rfl, rfl, rfl, rfl, rfl⟩) fun _ => ?_
  refine Triple.bind (spawnMembers_keeps 0 names) fun _ => ?_
  exact gather_keeps _ _ (setErrand_keeps (by simp [Errand.delivery?]))

theorem memberTurn_keeps (id : TaskId) (index : Nat) (name : String) {stage : Stage}
    (hstage : ∀ d ∈ stage.delivery?, d ∈ ds) :
    Keeps (Tracks watched es ds) (memberTurn id index name stage) := by
  refine Triple.bind (proceed_leaves id _ hstage) fun p => ?_
  unfold Leaves
  apply given_delivery
  cases p with
  | suspended stage => exact setBody_keeps id fun d hd => mem_found hd
  | finished outcome =>
    exact Triple.bind (frame_keeps fun _ => ⟨rfl, rfl, rfl, rfl, rfl, rfl⟩) fun _ => finish_keeps id

theorem pass_keeps (time : Nat) : Keeps (Tracks watched es ds) (pass time) :=
  Triple.bind (answer_keeps _) fun _ =>
    Triple.bind (setErrand_keeps (by simp [Errand.delivery?])) fun _ => sleep_keeps own time

theorem drain_keeps : Keeps (Tracks watched es ds) drain := by
  refine Triple.bind Triple.look fun w => ?_
  refine Triple.ite (fun _ => setErrand_keeps (by simp [Errand.delivery?])) fun _ => ?_
  exact Triple.bind (setErrand_keeps (by simp [Errand.delivery?])) fun _ => schedule_keeps _

theorem haltBeats_keeps (sessions : List String) :
    Keeps (Tracks watched es ds) (haltBeats sessions) := by
  induction sessions with
  | nil => exact setErrand_keeps (by simp [Errand.delivery?])
  | cons session rest ih =>
    refine Triple.bind (haltBeat_keeps own session) fun waits => ?_
    exact Triple.ite (fun _ => setErrand_keeps (by simp [Errand.delivery?])) fun _ => ih

theorem stopBeat_keeps (session : String) : Keeps (Tracks watched es ds) (stopBeat session) :=
  Triple.bind (isBeating_keeps session) fun _ =>
    Triple.bind (answer_keeps _) fun _ => haltBeats_keeps [session]

theorem stopAllBeats_keeps : Keeps (Tracks watched es ds) stopAllBeats :=
  Triple.bind (answer_keeps _) fun _ => Triple.bind Triple.look fun _ => haltBeats_keeps _

theorem stop_keeps (stopsBeats : Bool) : Keeps (Tracks watched es ds) (stop stopsBeats) := by
  refine Triple.bind (answer_keeps _) fun _ => Triple.bind stopWorker_keeps fun count => ?_
  refine gather_keeps count stopsBeats (Triple.ite (fun _ => stopAllBeats_keeps) fun _ => ?_)
  exact setErrand_keeps (by simp [Errand.delivery?])

theorem errandTurn_keeps : Keeps (Tracks watched es ds) errandTurn := by
  refine Triple.get_bind fun w h => ?_
  have hfound := found_of_tracks h h.errand
  refine Triple.weaken (P := Tracks watched es (w.errand.delivery?.toList ++ ds)) ?_
    (fun _ heq => heq ▸ hfound) fun _ _ h => h
  apply given_delivery
  cases w.errand with
  | none => exact keeps_answer _
  | reserving name processes => exact reserveAfterWait_keeps name processes
  | processing name stage =>
    exact Triple.bind (proceed_leaves own _ fun d hd => mem_found hd) fun p =>
      continueErrand_tracks name p
  | passing => exact drain_keeps
  | draining => exact drain_keeps
  | gathering left stopsBeats =>
    refine Triple.ite (fun _ => stopAllBeats_keeps) fun _ => ?_
    exact setErrand_keeps (by simp [Errand.delivery?])
  | halting rest => exact haltBeats_keeps rest

theorem joined_keeps : Keeps (Tracks watched es ds) joined := by
  refine Triple.bind Triple.look fun w => ?_
  split
  · refine Triple.bind (setErrand_keeps (by simp [Errand.delivery?])) fun _ => ?_
    exact Triple.ite (fun _ => schedule_keeps _) fun _ => keeps_answer _
  · exact keeps_answer _

end Errands

theorem take_keeps (id : TaskId) : Keeps (Tracks watched es ds) (take id) := by
  refine Triple.get_bind fun w h => ?_
  cases htask : w.task? id with
  | none => exact Triple.answer fun _ heq => heq ▸ h
  | some task =>
    have hfound := found_of_tracks h (h.tasks task (List.mem_of_find?_eq_some htask))
    refine Triple.weaken (P := Tracks watched es (task.body.delivery?.toList ++ ds)) ?_
      (fun _ heq => heq ▸ hfound) fun _ _ h => h
    apply given_delivery
    obtain ⟨_, body, cancelled, _⟩ := task
    cases body with
    | errand => exact errandTurn_keeps
    | heartbeat session beating => exact beatTurn_keeps id session cancelled beating
    | consumer consuming => exact consumerTurn_keeps id cancelled fun d hd => mem_found hd
    | member index name stage => exact memberTurn_keeps id index name fun d hd => mem_found hd

theorem runHandle_keeps (handle : Handle) : Keeps (Tracks watched es ds) (runHandle handle) := by
  cases handle with
  | turn id => exact take_keeps id
  | joined => exact joined_keeps

end Turn

namespace World

variable {watched : Option Envelope} {es : List Envelope} {ds : List Delivery} {w w' : World}

theorem Tracks.moveOn (h : w.Tracks watched es ds) (hmove : w.moveOn = some w') :
    w'.Tracks watched es ds := by
  unfold World.moveOn at hmove
  split at hmove
  · cases hmove
  · obtain rfl := Option.some.inj hmove
    exact h.frame rfl rfl rfl rfl rfl rfl

theorem Tracks.step (h : w.Tracks watched es ds) (hstep : w.step = some w') :
    w'.Tracks watched es ds := by
  unfold World.step at hstep
  split at hstep
  next handle ready hready =>
    obtain rfl := Option.some.inj hstep
    exact Turn.runHandle_keeps handle _ (h.frame rfl rfl rfl rfl rfl rfl)
  next => exact h.moveOn hstep

end World

end SignalCoach.Worker
