import SignalCoach.Proofs.StoreConsistency

/-! A store from its beginning: whatever is created and whatever jobs are carried out on it, in any
order and with any failures, its records fit together. -/
namespace SignalCoach

namespace Store

theorem foldl_laterSnapshot {snapshot : Snapshot} (l : List Snapshot) (latest : Option Snapshot)
    (h : l.foldl laterSnapshot latest = some snapshot) : latest = some snapshot ∨ snapshot ∈ l := by
  induction l generalizing latest with
  | nil => exact .inl h
  | cons head rest ih =>
    rcases ih _ h with hlatest | hrest
    · unfold laterSnapshot at hlatest
      split at hlatest
      · split at hlatest
        · exact .inl hlatest
        · cases hlatest
          exact .inr List.mem_cons_self
      · cases hlatest
        exact .inr List.mem_cons_self
    · exact .inr (List.mem_cons_of_mem head hrest)

theorem mem_of_latestSnapshot? {store : Store} {sessionId : String} {snapshot : Snapshot}
    (h : store.latestSnapshot? sessionId = some snapshot) :
    snapshot ∈ store.snapshots ∧ snapshot.sessionId = sessionId := by
  rcases foldl_laterSnapshot _ _ h with hnone | hmem
  · cases hnone
  · simpa using hmem

end Store

namespace Job

theorem mem_of_snapshot? {store : Store} {session : Session} {job : Job} {snapshot : Snapshot}
    (h : job.snapshot? Store.gateway store session = some snapshot) :
    snapshot ∈ store.snapshots ∧ snapshot.sessionId = session.id := by
  unfold snapshot? at h
  split at h
  · split at h
    · exact Store.mem_of_latestSnapshot? h
    · obtain ⟨hfind, hsession⟩ := Option.filter_eq_some_iff.1 h
      exact ⟨List.mem_of_find?_eq_some hfind, by simpa using hsession⟩
  · exact Store.mem_of_latestSnapshot? h

theorem results_ne_nil {σ : Type} {gateway : Gateway σ} {defaults : Thresholds} {now : Timestamp}
    {job : Job} {desk desk' : Desk σ} {result : JobResult}
    (h : handle gateway defaults now job desk = .ok result desk')
    (hcompleted : result.outcome = .completed) : result.results ≠ [] := by
  rcases handle_cases gateway defaults now job desk with
    ⟨result', ⟨houtcome, -⟩, hend⟩ | ⟨_, hend⟩ | ⟨session, ruleSet, snapshot, results, -, -, -, -, hend⟩
  · rw [hend] at h
    cases h
    exact absurd hcompleted houtcome
  · rw [hend] at h
    cases h
  · rw [hend] at h
    rcases settle_eq_ok h with ⟨⟨houtcome, -⟩, -⟩ | ⟨hresults, -, ids, -, rfl⟩
    · exact absurd hcompleted houtcome
    · exact hresults

namespace Commit

variable {defaults : Thresholds} {job : Job} {before : Store} (c : Commit defaults job before)

theorem session_id : c.session.id = job.sessionId := by
  obtain ⟨stored, hfind, hsession⟩ := Option.map_eq_some_iff.1 c.session_found
  rw [← hsession]
  simpa using List.find?_some hfind

theorem ruleSetOf?_eq : before.ruleSetOf? job.sessionId = some c.ruleSet := by
  unfold Store.ruleSetOf?
  rw [c.session_found]
  exact c.ruleSet_attached

def evaluations (now : Timestamp) : List Evaluation :=
  c.batch.map fun r => evaluationOf c.session c.snapshot job.jobId now r.id r.result

theorem after_keeps (now : Timestamp) : Store.Keeps before (c.after now) where
  snapshot h := h
  ruleSet h := (Store.keeps_updateSession
    (before.withResults c.session c.snapshot job.jobId now c.batch) _ _ _).ruleSet h

theorem severity?_evaluation (htags : ∀ set ∈ before.ruleSets, (set.tags.map (·.id)).Nodup)
    (now : Timestamp) {r : Recorded} (hr : r ∈ c.batch) :
    before.severity? (evaluationOf c.session c.snapshot job.jobId now r.id r.result) =
      some r.result.tag.severity := by
  have hset := c.ruleSetOf?_eq
  have hstored : c.ruleSet ∈ before.ruleSets := by
    rw [Store.ruleSetOf?_eq] at hset
    obtain ⟨id, -, hfind⟩ := Option.bind_eq_some_iff.1 hset
    exact List.mem_of_find?_eq_some hfind
  have htag : r.result.tag ∈ c.ruleSet.tags := by
    have hmem : r.result.tag ∈ c.batch.map (·.result.tag) := List.mem_map_of_mem hr
    rw [c.tags_eq] at hmem
    exact (List.mem_filter.1 hmem).1
  unfold Store.severity?
  simp only [evaluationOf, c.session_id, hset, Option.bind_some,
    Store.find?_of_nodup (htags _ hstored) htag, Option.map_some]

theorem backed (hsnapshots : (before.snapshots.map (·.id)).Nodup)
    (htags : ∀ set ∈ before.ruleSets, (set.tags.map (·.id)).Nodup) (now : Timestamp)
    {r : Recorded} (hr : r ∈ c.batch) :
    before.Backed (evaluationOf c.session c.snapshot job.jobId now r.id r.result)
      (adviceOf now r.adviceId r.id r.result) := by
  obtain ⟨hstored, hsession⟩ := mem_of_snapshot? c.snapshot_found
  exact { linked := rfl
          snapshot := ⟨c.snapshot, Store.find?_of_nodup hsnapshots hstored, hsession⟩
          advised := ⟨_, c.severity?_evaluation htags now hr, rfl⟩
          context := ⟨r.result.satisfied, rfl, Assessment.status_of_unsatisfied (c.assessed r hr)⟩ }

theorem evaluations_fresh {now : Timestamp} (hdistinct : (c.after now).DistinctEvaluations)
    {old e : Evaluation} (hold : old ∈ before.evaluations) (he : e ∈ c.evaluations now) :
    old.id ≠ e.id := by
  have hids : (before.evaluations.map (·.id) ++ (c.evaluations now).map (·.id)).Nodup := by
    rw [← List.map_append]
    exact hdistinct
  exact (List.nodup_append.1 hids).2.2 old.id (List.mem_map_of_mem hold) e.id (List.mem_map_of_mem he)

theorem evaluationsOf_after (now : Timestamp) (ids : List String) :
    (c.after now).evaluationsOf ids =
      before.evaluationsOf ids ++ (c.evaluations now).filter (·.id ∈ ids) :=
  List.filter_append ..

theorem evaluations_ids (now : Timestamp) :
    (c.evaluations now).map (·.id) = c.result.evaluationIds := by
  simp [evaluations, evaluationOf, result]

theorem evaluationsOf_result {now : Timestamp} (hdistinct : (c.after now).DistinctEvaluations) :
    (c.after now).evaluationsOf c.result.evaluationIds = c.evaluations now := by
  rw [c.evaluationsOf_after, ← c.evaluations_ids now]
  have hbefore : before.evaluationsOf ((c.evaluations now).map (·.id)) = [] := by
    rw [Store.evaluationsOf, List.filter_eq_nil_iff]
    intro old hold hmem
    obtain ⟨e, he, hsame⟩ := List.mem_map.1 (of_decide_eq_true hmem)
    exact c.evaluations_fresh hdistinct hold he hsame.symm
  have hadded : (c.evaluations now).filter (·.id ∈ (c.evaluations now).map (·.id)) =
      c.evaluations now :=
    List.filter_eq_self.2 fun e he => decide_eq_true (List.mem_map_of_mem he)
  rw [hbefore, hadded, List.nil_append]

theorem evaluationsOf_earlier {now : Timestamp} (hdistinct : (c.after now).DistinctEvaluations)
    {ids : List String} (hids : (before.evaluationsOf ids).map (·.id) = ids) :
    (c.after now).evaluationsOf ids = before.evaluationsOf ids := by
  have hadded : (c.evaluations now).filter (·.id ∈ ids) = [] := by
    rw [List.filter_eq_nil_iff]
    intro e he hmem
    rw [decide_eq_true_iff, ← hids] at hmem
    obtain ⟨old, hold, hsame⟩ := List.mem_map.1 hmem
    exact c.evaluations_fresh hdistinct (List.mem_filter.1 hold).1 he hsame
  rw [c.evaluationsOf_after, hadded, List.append_nil]

theorem settled (hbatch : c.batch ≠ [])
    (htags : ∀ set ∈ before.ruleSets, (set.tags.map (·.id)).Nodup) (now : Timestamp)
    (hdistinct : (c.after now).DistinctEvaluations) :
    (c.after now).Settled job.sessionId c.result.evaluationIds := by
  have hevaluations := c.evaluationsOf_result hdistinct
  have hverdicts : (c.evaluations now).filterMap (c.after now).verdict? =
      (c.batch.map (·.result)).map TagResult.severityAndStatus := by
    unfold evaluations
    rw [List.filterMap_map, List.map_map, ← List.filterMap_eq_map]
    refine List.filterMap_congr fun r hr => ?_
    unfold Store.verdict?
    simp only [Function.comp_apply]
    rw [(c.after_keeps now).severity (c.severity?_evaluation htags now hr)]
    rfl
  refine ⟨?_, by rw [hevaluations, c.evaluations_ids], now, ?_, ?_⟩
  · intro hnil
    exact hbatch (List.map_eq_nil_iff.1 hnil)
  · rw [hevaluations]
    intro e he
    obtain ⟨r, -, rfl⟩ := List.mem_map.1 he
    exact ⟨c.session_id, rfl⟩
  · rw [hevaluations, hverdicts]
    unfold Store.standing?
    have hsession : (c.after now).session? job.sessionId =
        some { c.session with state := c.state, lastEvaluatedAt := some now } :=
      Store.session?_updateSession c.session_found
    rw [hsession]
    rfl

end Commit

end Job

/-- A store, with the session and the evaluations of each job that was completed on it, the last job
first. -/
structure Ledger where
  store : Store := {}
  completed : List (String × List String) := []

namespace Ledger

/-- A job that is carried out, with the ids that it draws and the failures that it may meet. -/
structure Attempt where
  job : Job
  defaults : Thresholds
  now : Timestamp
  ids : IdSupply := {}
  allowance : Option Nat := none
  refusal : Option Failure := none

/-- What changes a store. Evaluations, advice and states of sessions come from jobs only. -/
inductive Event where
  | ruleSet (set : RuleSet)
  | session (session : Session)
  | snapshot (snapshot : Snapshot)
  | job (attempt : Attempt)

def Attempt.run (attempt : Attempt) (store : Store) :
    EStateM.Result Failure (Desk Store) JobResult :=
  attempt.job.handle Store.gateway attempt.defaults attempt.now
    { store, ids := attempt.ids, allowance := attempt.allowance, refusal := attempt.refusal }

def perform (ledger : Ledger) : Event → Ledger
  | .ruleSet set =>
    match ledger.store.createRuleSet set with
    | .ok (_, store) => { ledger with store }
    | .error _ => ledger
  | .session session =>
    match ledger.store.createSession session with
    | .ok store => { ledger with store }
    | .error _ => ledger
  | .snapshot snapshot =>
    match ledger.store.saveSnapshot snapshot with
    | .ok store => { ledger with store }
    | .error _ => ledger
  | .job attempt =>
    match attempt.run ledger.store with
    | .ok result desk =>
      { store := desk.store
        completed := if result.wrote then
            (attempt.job.sessionId, result.evaluationIds) :: ledger.completed
          else ledger.completed }
    | .error _ desk => { ledger with store := desk.store }

def run (events : List Event) : Ledger := events.foldl perform {}

def lastCompleted? (ledger : Ledger) (sessionId : String) : Option (List String) :=
  (ledger.completed.find? (·.1 = sessionId)).map Prod.snd

/-- What a run keeps: with it, the next job finds what it refers to under ids of its own. -/
structure Sound (ledger : Ledger) : Prop where
  snapshots : (ledger.store.snapshots.map (·.id)).Nodup
  tags : ∀ set ∈ ledger.store.ruleSets, (set.tags.map (·.id)).Nodup
  evaluations : ledger.store.DistinctEvaluations
  records : ∃ records : List (Evaluation × AdviceRecord),
    ledger.store.evaluations = records.map Prod.fst ∧ ledger.store.advice = records.map Prod.snd ∧
      ∀ r ∈ records, ledger.store.Backed r.1 r.2
  settled : ∀ {sessionId ids}, ledger.lastCompleted? sessionId = some ids →
    ledger.store.Settled sessionId ids

theorem empty_sound : Sound {} where
  snapshots := List.nodup_nil
  tags := by simp
  evaluations := List.nodup_nil
  records := ⟨[], rfl, rfl, by simp⟩
  settled h := by cases h

namespace Sound

variable {ledger : Ledger} (sound : ledger.Sound)
include sound

theorem severity {e : Evaluation} (he : e ∈ ledger.store.evaluations) :
    ∃ severity, ledger.store.severity? e = some severity := by
  obtain ⟨records, hevaluations, -, hbacked⟩ := sound.records
  rw [hevaluations] at he
  obtain ⟨r, hr, rfl⟩ := List.mem_map.1 he
  obtain ⟨severity, hseverity, -⟩ := (hbacked r hr).advised
  exact ⟨severity, hseverity⟩

theorem gain {store : Store} (hkeeps : ledger.store.Keeps store)
    (hevaluations : store.evaluations = ledger.store.evaluations)
    (hadvice : store.advice = ledger.store.advice)
    (hstanding : ∀ {sessionId standing}, ledger.store.standing? sessionId = some standing →
      store.standing? sessionId = some standing)
    (hsnapshots : (store.snapshots.map (·.id)).Nodup)
    (htags : ∀ set ∈ store.ruleSets, (set.tags.map (·.id)).Nodup) :
    Sound { ledger with store } where
  snapshots := hsnapshots
  tags := htags
  evaluations := by
    unfold Store.DistinctEvaluations
    rw [hevaluations]
    exact sound.evaluations
  records := by
    obtain ⟨records, hfirst, hsecond, hbacked⟩ := sound.records
    exact ⟨records, hevaluations.trans hfirst, hadvice.trans hsecond,
      fun r hr => (hbacked r hr).keep hkeeps⟩
  settled {sessionId ids} h := by
    refine Store.Settled.keep hkeeps (fun e he => sound.severity he) ?_ hstanding (sound.settled h)
    unfold Store.evaluationsOf
    rw [hevaluations]

theorem ruleSet (set : RuleSet) : (ledger.perform (.ruleSet set)).Sound := by
  simp only [perform]
  split
  next created store h =>
    obtain ⟨-, htags, rfl⟩ := Store.createRuleSet_eq_ok h
    refine sound.gain (Store.keeps_addRuleSet _ _) rfl rfl ?_ sound.snapshots ?_
    · intro sessionId standing hstanding
      rw [Store.standing?_eq] at hstanding ⊢
      exact hstanding
    · intro other hother
      rcases List.mem_append.1 hother with hold | hnew
      · exact sound.tags other hold
      · rw [List.mem_singleton.1 hnew]
        simpa [Store.storedRuleSet, Function.comp_def] using htags
  next => exact sound

theorem session (session : Session) : (ledger.perform (.session session)).Sound := by
  simp only [perform]
  split
  next store h =>
    obtain rfl := Store.createSession_eq_ok h
    refine sound.gain (Store.keeps_addSession _ _) rfl rfl ?_ sound.snapshots sound.tags
    intro sessionId standing hstanding
    rw [Store.standing?_eq] at hstanding ⊢
    obtain ⟨found, hfound, hvalue⟩ := Option.map_eq_some_iff.1 hstanding
    rw [List.find?_append, hfound, Option.some_or, Option.map_some, hvalue]
  next => exact sound

theorem snapshot (snapshot : Snapshot) : (ledger.perform (.snapshot snapshot)).Sound := by
  simp only [perform]
  split
  next store h =>
    obtain ⟨hnew, rfl⟩ := Store.saveSnapshot_eq_ok h
    exact sound.gain (Store.keeps_addSnapshot _ _) rfl rfl id
      (Store.nodup_map_append_singleton sound.snapshots hnew) sound.tags
  next => exact sound

/-- A completed job settles its own session and leaves the others settled. -/
theorem commit {defaults : Thresholds} {job : Job} (c : job.Commit defaults ledger.store)
    (hbatch : c.batch ≠ []) (now : Timestamp) (hdistinct : (c.after now).DistinctEvaluations) :
    Sound { store := c.after now
            completed := (job.sessionId, c.result.evaluationIds) :: ledger.completed } where
  snapshots := sound.snapshots
  tags := sound.tags
  evaluations := hdistinct
  records := by
    obtain ⟨records, hfirst, hsecond, hbacked⟩ := sound.records
    refine ⟨records ++ c.batch.map fun r =>
      (Job.evaluationOf c.session c.snapshot job.jobId now r.id r.result,
        Job.adviceOf now r.adviceId r.id r.result), ?_, ?_, ?_⟩
    · rw [List.map_append, ← hfirst, List.map_map]
      rfl
    · rw [List.map_append, ← hsecond, List.map_map]
      rfl
    · intro r hr
      rcases List.mem_append.1 hr with hold | hnew
      · exact (hbacked r hold).keep (c.after_keeps now)
      · obtain ⟨recorded, hrecorded, rfl⟩ := List.mem_map.1 hnew
        exact (c.backed sound.snapshots sound.tags now hrecorded).keep (c.after_keeps now)
  settled {sessionId ids} h := by
    unfold lastCompleted? at h
    by_cases hsession : job.sessionId = sessionId
    · rw [List.find?_cons_of_pos (by simpa using hsession)] at h
      cases h
      rw [← hsession]
      exact c.settled hbatch sound.tags now hdistinct
    · rw [List.find?_cons_of_neg (by simpa using hsession)] at h
      have hsettled := sound.settled h
      have hids := hsettled.2.1
      refine hsettled.keep (c.after_keeps now) (fun e he => sound.severity he)
        (c.evaluationsOf_earlier hdistinct hids) fun {standing} hstanding => ?_
      refine (Store.standing?_updateSession_of_ne _ ?_ _ _).trans hstanding
      rw [c.session_id]
      exact Ne.symm hsession

theorem job (attempt : Attempt) : (ledger.perform (.job attempt)).Sound := by
  have hwithin := Store.steps_grows.handle attempt.now attempt.defaults attempt.job
    { store := ledger.store, ids := attempt.ids, allowance := attempt.allowance
      refusal := attempt.refusal }
  simp only [perform, Attempt.run]
  split
  next result desk h =>
    rw [h] at hwithin
    rcases Job.handle_eq_ok h with ⟨houtcome, hstore⟩ | ⟨c, rfl, hstore⟩
    · rw [JobResult.wrote, if_neg (by simpa using houtcome)]
      rw [show desk.store = ledger.store from hstore]
      exact sound
    · have hbatch : c.batch ≠ [] := fun hnil =>
        Job.results_ne_nil h rfl (by simp [Job.Commit.result, hnil])
      rw [JobResult.wrote, if_pos (by simp [Job.Commit.result]), hstore]
      exact sound.commit c hbatch attempt.now (hstore ▸ hwithin.distinct sound.evaluations)
  next failure desk h =>
    rw [show desk.store = ledger.store from Job.handle_eq_error h]
    exact sound

theorem perform (event : Event) : (ledger.perform event).Sound := by
  cases event with
  | ruleSet set => exact sound.ruleSet set
  | session session => exact sound.session session
  | snapshot snapshot => exact sound.snapshot snapshot
  | job attempt => exact sound.job attempt

end Sound

theorem run_sound (events : List Event) : (run events).Sound := by
  suffices h : ∀ {ledger : Ledger}, ledger.Sound → (events.foldl perform ledger).Sound from
    h empty_sound
  induction events with
  | nil => exact id
  | cons event rest ih => exact fun sound => ih (sound.perform event)

structure Consistent (ledger : Ledger) : Prop where
  /-- An evaluation has one advice. -/
  advised : ∀ e ∈ ledger.store.evaluations, ∃ a,
    ledger.store.advice.filter (·.evaluationId = e.id) = [a] ∧ ledger.store.Backed e a
  /-- An advice belongs to one evaluation. -/
  evaluated : ∀ a ∈ ledger.store.advice, ∃ e,
    ledger.store.evaluations.filter (·.id = a.evaluationId) = [e]
  /-- A session is as its last completed job left it. -/
  settled : ∀ {sessionId ids}, ledger.lastCompleted? sessionId = some ids →
    ledger.store.Settled sessionId ids

theorem Sound.consistent {ledger : Ledger} (sound : ledger.Sound) : ledger.Consistent := by
  obtain ⟨records, hevaluations, hadvice, hbacked⟩ := sound.records
  have hlinked : ledger.store.advice.map (·.evaluationId) = ledger.store.evaluations.map (·.id) := by
    rw [hevaluations, hadvice, List.map_map, List.map_map]
    exact List.map_congr_left fun r hr => (hbacked r hr).linked
  refine { advised := ?_, evaluated := ?_, settled := sound.settled }
  · intro e he
    rw [hevaluations] at he
    obtain ⟨r, hr, rfl⟩ := List.mem_map.1 he
    have hmem : r.2 ∈ ledger.store.advice := by
      rw [hadvice]
      exact List.mem_map_of_mem hr
    have hone := Store.filter_of_nodup (by rw [hlinked]; exact sound.evaluations) hmem
    rw [(hbacked r hr).linked] at hone
    exact ⟨r.2, hone, hbacked r hr⟩
  · intro a ha
    rw [hadvice] at ha
    obtain ⟨r, hr, rfl⟩ := List.mem_map.1 ha
    have hmem : r.1 ∈ ledger.store.evaluations := by
      rw [hevaluations]
      exact List.mem_map_of_mem hr
    rw [(hbacked r hr).linked]
    exact ⟨r.1, Store.filter_of_nodup sound.evaluations hmem⟩

/-- From an empty store on, whatever is created and whatever jobs are carried out, the records of the
store fit together. -/
theorem run_consistent (events : List Event) : (run events).Consistent := (run_sound events).consistent

end Ledger

end SignalCoach
