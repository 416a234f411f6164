import SignalCoach.Proofs.Program
import SignalCoach.Store.Basic

/-! A job is all or nothing: what a completed job adds to the store, and that no other job leaves a
trace there. -/
namespace SignalCoach

namespace Work

variable {σ α : Type}

theorem write_eq_ok {gateway : Gateway σ} {w : Write} {desk desk' : Desk σ}
    (h : write gateway w desk = .ok () desk') : gateway.apply w desk.store = .ok desk'.store := by
  unfold write at h
  split at h
  · cases h
  · split at h
    next store happly =>
      cases h
      exact happly
    next => cases h

theorem freshId_eq_ok {desk desk' : Desk σ} {id : String}
    (h : freshId desk = .ok id desk') : desk'.store = desk.store := by
  cases h
  rfl

theorem commit_eq_ok {desk desk' : Desk σ} (h : commit desk = .ok () desk') :
    desk' = desk ∧ desk.refusal = none := by
  unfold commit at h
  split at h
  next => cases h
  next hrefusal =>
    cases h
    exact ⟨rfl, hrefusal⟩

theorem transaction_eq_error {work : Work σ α} {desk desk' : Desk σ} {failure : Failure}
    (h : transaction work desk = .error failure desk') : desk'.store = desk.store := by
  unfold transaction at h
  split at h
  · cases h
  · cases h
    rfl

theorem transaction_eq_ok {work : Work σ α} {desk desk' : Desk σ} {a : α}
    (h : transaction work desk = .ok a desk') : work desk = .ok a desk' := by
  unfold transaction at h
  split at h
  next b done hwork =>
    cases h
    rw [seqLeft_eq_bind] at hwork
    obtain ⟨b, t, hb, hwork⟩ := Program.bind_eq_ok.1 hwork
    obtain ⟨u, t', hu, hwork⟩ := Program.bind_eq_ok.1 hwork
    obtain ⟨rfl, rfl⟩ := Program.pure_eq_ok.1 hwork
    rw [(commit_eq_ok hu).1]
    exact hb
  next => cases h

end Work

namespace Assessment

open Feature

def isReadable (tag : Tag) : Bool := (Rule.read tag.rule).toBool

theorem ofRule_tag {tag : Tag} {rule : Rule} {context : Context} {defaults : Thresholds}
    {r : TagResult} (h : ofRule tag rule context defaults = .ok r) : r.tag = tag := by
  obtain ⟨satisfied, -, h⟩ := Program.except_bind_eq_ok.1 h
  obtain ⟨score, -, h⟩ := Program.except_bind_eq_ok.1 h
  cases h
  rfl

theorem ofTag_eq_ok {tag : Tag} {context : Context} {defaults : Thresholds}
    {result : Option TagResult} (h : ofTag tag context defaults = .ok result) :
    result.toList.map (·.tag) = [tag].filter isReadable := by
  unfold ofTag at h
  cases hrule : Rule.read tag.rule with
  | error e =>
    rw [hrule] at h
    cases h
    simp [isReadable, hrule, Except.toBool]
  | ok rule =>
    rw [hrule] at h
    obtain ⟨r, hr, rfl⟩ := Program.except_map_eq_ok.1 h
    simp [isReadable, hrule, Except.toBool, ofRule_tag hr]

theorem ofTags_eq_ok {context : Context} {defaults : Thresholds} {tags : List Tag}
    {results : List TagResult} (h : ofTags context defaults tags = .ok results) :
    results.map (·.tag) = tags.filter isReadable ∧
      ∀ r ∈ results, ofTag r.tag context defaults = .ok (some r) := by
  induction tags generalizing results with
  | nil =>
    cases h
    simp
  | cons tag rest ih =>
    obtain ⟨result, htag, h⟩ := Program.except_bind_eq_ok.1 h
    obtain ⟨results, hrest, h⟩ := Program.except_bind_eq_ok.1 h
    cases h
    obtain ⟨htags, hresults⟩ := ih hrest
    have hfirst := ofTag_eq_ok htag
    constructor
    · rw [List.map_append, hfirst, htags, ← List.filter_append, List.singleton_append]
    · intro r hr
      rcases List.mem_append.1 hr with hr | hr
      · obtain rfl := Option.mem_toList.1 hr
        have : r.tag = tag := by
          have hmem : r.tag ∈ [tag].filter isReadable := by simp [← hfirst]
          exact List.mem_singleton.1 (List.mem_filter.1 hmem).1
        rw [this]
        exact htag
      · exact hresults r hr

end Assessment

/-- A result as it was recorded, with the ids of its evaluation and of its advice. -/
structure Recorded where
  id : String
  adviceId : String
  result : TagResult

namespace Store

def withResults (store : Store) (session : Session) (snapshot : Snapshot) (jobId : Option String)
    (now : Timestamp) (batch : List Recorded) : Store :=
  { store with
    evaluations := store.evaluations ++ batch.map fun r =>
      Job.evaluationOf session snapshot jobId now r.id r.result
    advice := store.advice ++ batch.map fun r => Job.adviceOf now r.adviceId r.id r.result }

theorem addEvaluation_eq_ok {store store' : Store} {session : Session} {snapshot : Snapshot}
    {jobId : Option String} {now : Timestamp} {id : String} {r : TagResult}
    (h : store.addEvaluation (Job.evaluationOf session snapshot jobId now id r) = .ok store') :
    store' = { store with
      evaluations := store.evaluations ++ [Job.evaluationOf session snapshot jobId now id r] } := by
  have hcontext : Value.stored (.obj r.context) = .obj r.context := by
    simp [TagResult.context, Fields.ofList, Value.stored, Value.storedFields, Key.stored, Fields.put,
      Key.same]
  unfold addEvaluation at h
  split at h
  · cases h
  · cases h
    simp only [Job.evaluationOf, hcontext]

theorem addAdvice_eq_ok {store store' : Store} {a : AdviceRecord}
    (h : store.addAdvice a = .ok store') : store' = { store with advice := store.advice ++ [a] } := by
  unfold addAdvice at h
  split at h
  · cases h
  · cases h
    rfl

theorem find?_updateSession (store : Store) (id : String) (state : SessionState) (now : Timestamp)
    (sessionId : String) :
    (store.updateSession id state now).sessions.find? (·.id = sessionId) =
      (store.sessions.find? (·.id = sessionId)).map fun session =>
        if session.id = id then { session with state, lastEvaluatedAt := some now } else session := by
  rw [updateSession, List.find?_map]
  congr 2
  funext session
  by_cases hid : session.id = id <;> simp [hid]

theorem session?_updateSession {store : Store} {id : String} {session : Session}
    {state : SessionState} {now : Timestamp} (h : store.session? id = some session) :
    (store.updateSession session.id state now).session? id =
      some { session with state, lastEvaluatedAt := some now } := by
  obtain ⟨stored, hfind, rfl⟩ := Option.map_eq_some_iff.1 h
  unfold session?
  rw [find?_updateSession, hfind, Option.map_some, if_pos rfl]
  rfl

end Store

namespace Job

section

variable {session : Session} {snapshot : Snapshot} {jobId : Option String} {now : Timestamp}
variable {desk desk' : Desk Store}

theorem recordResult_eq_ok {r : TagResult} {id : String}
    (h : recordResult Store.gateway session snapshot jobId now r desk = .ok id desk') :
    ∃ adviceId,
      desk'.store = desk.store.withResults session snapshot jobId now [⟨id, adviceId, r⟩] := by
  obtain ⟨id', desk₁, hid, h⟩ := Program.bind_eq_ok.1 h
  obtain ⟨_, desk₂, hevaluation, h⟩ := Program.bind_eq_ok.1 h
  obtain ⟨adviceId, desk₃, hadviceId, h⟩ := Program.bind_eq_ok.1 h
  obtain ⟨_, desk₄, hadvice, h⟩ := Program.bind_eq_ok.1 h
  obtain ⟨rfl, rfl⟩ := Program.pure_eq_ok.1 h
  have hfirst := Store.addEvaluation_eq_ok (Work.write_eq_ok hevaluation)
  have hsecond := Store.addAdvice_eq_ok (Work.write_eq_ok hadvice)
  rw [Work.freshId_eq_ok hid] at hfirst
  rw [Work.freshId_eq_ok hadviceId, hfirst] at hsecond
  exact ⟨adviceId, by rw [hsecond]; rfl⟩

/-- The invariant of the batch: what was written so far are the records of the results so far. -/
theorem recordResults_eq_ok {results : List TagResult} {ids : List String}
    (h : results.mapM (recordResult Store.gateway session snapshot jobId now) desk =
      .ok ids desk') :
    ∃ batch : List Recorded, batch.map (·.result) = results ∧ batch.map (·.id) = ids ∧
      desk'.store = desk.store.withResults session snapshot jobId now batch := by
  induction results generalizing desk ids with
  | nil =>
    rw [List.mapM_nil] at h
    obtain ⟨rfl, rfl⟩ := Program.pure_eq_ok.1 h
    exact ⟨[], rfl, rfl, by simp [Store.withResults]⟩
  | cons r rest ih =>
    rw [List.mapM_cons] at h
    obtain ⟨id, desk₁, hfirst, h⟩ := Program.bind_eq_ok.1 h
    obtain ⟨ids, desk₂, hrest, h⟩ := Program.bind_eq_ok.1 h
    obtain ⟨rfl, rfl⟩ := Program.pure_eq_ok.1 h
    obtain ⟨adviceId, hstore⟩ := recordResult_eq_ok hfirst
    obtain ⟨batch, rfl, rfl, hbatch⟩ := ih hrest
    refine ⟨⟨id, adviceId, r⟩ :: batch, rfl, rfl, ?_⟩
    rw [hbatch, hstore]
    simp [Store.withResults]

theorem record_eq_ok {state : SessionState} {results : List TagResult} {ids : List String}
    (h : record Store.gateway session snapshot jobId now state results desk = .ok ids desk') :
    ∃ batch : List Recorded, batch.map (·.result) = results ∧ batch.map (·.id) = ids ∧
      desk'.store = (desk.store.withResults session snapshot jobId now batch).updateSession
        session.id state now := by
  obtain ⟨ids, desk₁, hresults, h⟩ := Program.bind_eq_ok.1 (Work.transaction_eq_ok h)
  obtain ⟨_, desk₂, hsession, h⟩ := Program.bind_eq_ok.1 h
  obtain ⟨rfl, rfl⟩ := Program.pure_eq_ok.1 h
  obtain ⟨batch, rfl, rfl, hbatch⟩ := recordResults_eq_ok hresults
  refine ⟨batch, rfl, rfl, ?_⟩
  rw [← hbatch]
  exact (Except.ok.inj (Work.write_eq_ok hsession)).symm

end

/-- What a job that was carried out found in the store, and what it recorded. -/
structure Commit (defaults : Thresholds) (job : Job) (before : Store) where
  session : Session
  ruleSet : RuleSet
  snapshot : Snapshot
  thresholds : Thresholds
  batch : List Recorded
  session_found : before.session? job.sessionId = some session
  ruleSet_attached : session.ruleSet = some ruleSet
  snapshot_found : job.snapshot? Store.gateway before session = some snapshot
  thresholds_read : ruleSet.defaultThresholds defaults = .ok thresholds
  tags_eq : batch.map (·.result.tag) = ruleSet.tags.filter Assessment.isReadable
  assessed : ∀ r ∈ batch, Assessment.ofTag r.result.tag
    { features := snapshot.features, payload := snapshot.payload } thresholds = .ok (some r.result)

namespace Commit

variable {defaults : Thresholds} {job : Job} {before : Store}

def state (c : Commit defaults job before) : SessionState :=
  Assessment.sessionState (c.batch.map (·.result))

def result (c : Commit defaults job before) : JobResult where
  outcome := .completed
  state := some c.state
  results := c.batch.map (·.result)
  evaluationIds := c.batch.map (·.id)

def after (c : Commit defaults job before) (now : Timestamp) : Store :=
  (before.withResults c.session c.snapshot job.jobId now c.batch).updateSession c.session.id c.state
    now

end Commit

section

variable {σ : Type} {gateway : Gateway σ} {defaults : Thresholds} {now : Timestamp} {job : Job}

theorem settle_eq_error {session : Session} {snapshot : Snapshot} {results : List TagResult}
    {desk desk' : Desk σ} {failure : Failure}
    (h : settle gateway session snapshot job now results desk = .error failure desk') :
    desk'.store = desk.store := by
  change (if results.isEmpty then _ else _ : Work σ JobResult) desk = _ at h
  split at h
  · cases h
  · split at h
    · cases h
    · simp only [bind, EStateM.bind] at h
      split at h
      · cases h
      next hrecord =>
        cases h
        exact Work.transaction_eq_error hrecord

theorem settle_eq_ok {session : Session} {snapshot : Snapshot} {results : List TagResult}
    {desk desk' : Desk σ} {result : JobResult}
    (h : settle gateway session snapshot job now results desk = .ok result desk') :
    ((result.outcome ≠ .completed ∧ result.state = none) ∧ desk' = desk) ∨
      results ≠ [] ∧ job.isDuplicate gateway desk.store = false ∧
      ∃ ids, record gateway session snapshot job.jobId now (Assessment.sessionState results) results
          desk = .ok ids desk' ∧
        result = { outcome := .completed, state := some (Assessment.sessionState results), results,
                   evaluationIds := ids } := by
  change (if results.isEmpty then _ else _ : Work σ JobResult) desk = _ at h
  split at h
  next =>
    cases h
    exact .inl ⟨by simp, rfl⟩
  next hresults =>
    split at h
    next =>
      cases h
      exact .inl ⟨by simp, rfl⟩
    next hduplicate =>
      obtain ⟨ids, desk₁, hrecord, h⟩ := Program.bind_eq_ok.1 h
      obtain ⟨rfl, rfl⟩ := Program.pure_eq_ok.1 h
      refine .inr ⟨?_, by simpa using hduplicate, ids, hrecord, rfl⟩
      rintro rfl
      exact hresults rfl

theorem handle_apply (gateway : Gateway σ) (defaults : Thresholds) (now : Timestamp) (job : Job)
    (desk : Desk σ) :
    handle gateway defaults now job desk =
      (match gateway.session? desk.store job.sessionId with
      | none => pure { outcome := .sessionNotFound }
      | some session =>
        match session.ruleSet with
        | none => pure { outcome := .sessionNotFound }
        | some ruleSet =>
          match job.snapshot? gateway desk.store session with
          | none => pure { outcome := .snapshotNotFound }
          | some snapshot =>
            match assess ruleSet snapshot defaults with
            | .error overflow => throw (.ofOverflow overflow)
            | .ok results => settle gateway session snapshot job now results : Work σ JobResult)
        desk := rfl

theorem handle_eq_settle {session : Session} {ruleSet : RuleSet} {snapshot : Snapshot}
    {results : List TagResult} {desk : Desk σ}
    (hsession : gateway.session? desk.store job.sessionId = some session)
    (hruleSet : session.ruleSet = some ruleSet)
    (hsnapshot : job.snapshot? gateway desk.store session = some snapshot)
    (hassess : assess ruleSet snapshot defaults = .ok results) :
    handle gateway defaults now job desk = settle gateway session snapshot job now results desk := by
  rw [handle_apply]
  simp only [hsession, hruleSet, hsnapshot, hassess]

theorem handle_cases (gateway : Gateway σ) (defaults : Thresholds) (now : Timestamp) (job : Job)
    (desk : Desk σ) :
    (∃ result, (result.outcome ≠ .completed ∧ result.state = none) ∧
      handle gateway defaults now job desk = .ok result desk) ∨
    (∃ overflow, handle gateway defaults now job desk = .error (.ofOverflow overflow) desk) ∨
    ∃ session ruleSet snapshot results,
      gateway.session? desk.store job.sessionId = some session ∧ session.ruleSet = some ruleSet ∧
      job.snapshot? gateway desk.store session = some snapshot ∧
      assess ruleSet snapshot defaults = .ok results ∧
      handle gateway defaults now job desk =
        settle gateway session snapshot job now results desk := by
  have happly := handle_apply gateway defaults now job desk
  cases hsession : gateway.session? desk.store job.sessionId with
  | none =>
    rw [hsession] at happly
    exact .inl ⟨{ outcome := .sessionNotFound }, by simp, happly⟩
  | some session =>
    simp only [hsession] at happly
    cases hruleSet : session.ruleSet with
    | none =>
      simp only [hruleSet] at happly
      exact .inl ⟨{ outcome := .sessionNotFound }, by simp, happly⟩
    | some ruleSet =>
      simp only [hruleSet] at happly
      cases hsnapshot : job.snapshot? gateway desk.store session with
      | none =>
        simp only [hsnapshot] at happly
        exact .inl ⟨{ outcome := .snapshotNotFound }, by simp, happly⟩
      | some snapshot =>
        simp only [hsnapshot] at happly
        cases hassess : assess ruleSet snapshot defaults with
        | error overflow =>
          simp only [hassess] at happly
          exact .inr (.inl ⟨overflow, happly⟩)
        | ok results =>
          exact .inr (.inr ⟨session, ruleSet, snapshot, results, rfl, hruleSet, hsnapshot, hassess,
            handle_eq_settle hsession hruleSet hsnapshot hassess⟩)

theorem handle_eq_error {desk desk' : Desk σ} {failure : Failure}
    (h : handle gateway defaults now job desk = .error failure desk') :
    desk'.store = desk.store := by
  rcases handle_cases gateway defaults now job desk with
    ⟨result, -, hend⟩ | ⟨_, hend⟩ | ⟨session, ruleSet, snapshot, results, -, -, -, -, hend⟩
  · rw [hend] at h
    cases h
  · rw [hend] at h
    cases h
    rfl
  · rw [hend] at h
    exact settle_eq_error h

end

theorem handle_eq_ok {defaults : Thresholds} {now : Timestamp} {job : Job} {desk desk' : Desk Store}
    {result : JobResult} (h : handle Store.gateway defaults now job desk = .ok result desk') :
    (result.outcome ≠ .completed ∧ desk'.store = desk.store) ∨
      ∃ c : Commit defaults job desk.store, result = c.result ∧ desk'.store = c.after now := by
  rcases handle_cases Store.gateway defaults now job desk with
    ⟨result', ⟨houtcome, -⟩, hend⟩ | ⟨_, hend⟩ |
    ⟨session, ruleSet, snapshot, results, hsession, hruleSet, hsnapshot, hassess, hend⟩
  · rw [hend] at h
    cases h
    exact .inl ⟨houtcome, rfl⟩
  · rw [hend] at h
    cases h
  · rw [hend] at h
    rcases settle_eq_ok h with ⟨⟨houtcome, -⟩, rfl⟩ | ⟨-, -, ids, hrecord, rfl⟩
    · exact .inl ⟨houtcome, rfl⟩
    · obtain ⟨thresholds, hthresholds, htags⟩ := Program.except_bind_eq_ok.1 hassess
      obtain ⟨htagsEq, hassessed⟩ := Assessment.ofTags_eq_ok htags
      obtain ⟨batch, rfl, rfl, hstore⟩ := record_eq_ok hrecord
      refine .inr ⟨⟨session, ruleSet, snapshot, thresholds, batch, hsession, hruleSet, hsnapshot,
        hthresholds, ?_, ?_⟩, rfl, hstore⟩
      · rw [← htagsEq, List.map_map]
        rfl
      · intro r hr
        exact hassessed r.result (List.mem_map_of_mem hr)

/-- For every store and every point at which a write or the commit may fail, a job is all or nothing.
It is completed, and then there is one evaluation and one advice more for each tag whose rule can be
read, in the order of the tags, and the session has the state that follows from the results and the
time of the job; or the store is what it was. -/
theorem handle_all_or_nothing (defaults : Thresholds) (now : Timestamp) (job : Job)
    (desk : Desk Store) :
    match handle Store.gateway defaults now job desk with
    | .ok result desk' =>
      (result.outcome ≠ .completed ∧ desk'.store = desk.store) ∨
        ∃ c : Commit defaults job desk.store, result = c.result ∧ desk'.store = c.after now ∧
          desk'.store.session? job.sessionId =
            some { c.session with state := c.state, lastEvaluatedAt := some now }
    | .error _ desk' => desk'.store = desk.store := by
  split
  next result desk' h =>
    rcases handle_eq_ok h with ⟨houtcome, hstore⟩ | ⟨c, hresult, hstore⟩
    · exact .inl ⟨houtcome, hstore⟩
    · refine .inr ⟨c, hresult, hstore, ?_⟩
      rw [hstore]
      exact Store.session?_updateSession c.session_found
  next h => exact handle_eq_error h

end Job

end SignalCoach
