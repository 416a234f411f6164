import SignalCoach.Proofs.Ledger
import SignalCoach.Proofs.RuleSetRows
import SignalCoach.Proofs.StoredDocument

/-! Records that were committed stay as they are, whatever is created and whatever jobs are carried out
later. Of a session only its state and the time of its evaluation change, by its own jobs; and a rule
set is loaded as it was created. -/
namespace SignalCoach

def Value.IsJson (v : Value) : Prop := v.Distinct ∧ v.isTextKeyed

theorem Value.IsJson.stored {v : Value} (h : v.IsJson) : v.stored = v := stored_eq_self h.1 h.2

structure RuleSet.IsJson (set : RuleSet) : Prop where
  thresholds : set.thresholds.IsJson
  rules : ∀ tag ∈ set.tags, tag.rule.IsJson

structure Snapshot.IsJson (snapshot : Snapshot) : Prop where
  features : snapshot.features.IsJson
  payload : snapshot.payload.IsJson

namespace Store

theorem storedRuleSet_eq_self {set : RuleSet} (h : set.IsJson) : storedRuleSet set = set := by
  have htags : set.tags.map (fun tag => { tag with rule := tag.rule.stored }) = set.tags := by
    refine (List.map_congr_left fun tag htag => ?_).trans (List.map_id _)
    rw [(h.rules tag htag).stored]
    rfl
  unfold storedRuleSet
  rw [h.thresholds.stored, htags]

def sessionRow? (store : Store) (id : String) : Option Session := store.sessions.find? (·.id = id)

/-- Nothing that was stored is changed or removed, but for the state of sessions and the time of their
evaluation. -/
structure Retains (before after : Store) : Prop where
  ruleSets : before.ruleSets <+: after.ruleSets
  snapshots : before.snapshots <+: after.snapshots
  evaluations : before.evaluations <+: after.evaluations
  advice : before.advice <+: after.advice
  sessions : ∀ {id session}, before.sessionRow? id = some session →
    ∃ state evaluatedAt,
      after.sessionRow? id = some { session with state, lastEvaluatedAt := evaluatedAt }

theorem Retains.refl (store : Store) : Retains store store where
  ruleSets := List.prefix_rfl
  snapshots := List.prefix_rfl
  evaluations := List.prefix_rfl
  advice := List.prefix_rfl
  sessions {_ session} h := ⟨session.state, session.lastEvaluatedAt, h⟩

theorem Retains.trans {a b c : Store} (hab : Retains a b) (hbc : Retains b c) : Retains a c where
  ruleSets := hab.ruleSets.trans hbc.ruleSets
  snapshots := hab.snapshots.trans hbc.snapshots
  evaluations := hab.evaluations.trans hbc.evaluations
  advice := hab.advice.trans hbc.advice
  sessions h := by
    obtain ⟨_, _, hb⟩ := hab.sessions h
    obtain ⟨state, evaluatedAt, hc⟩ := hbc.sessions hb
    exact ⟨state, evaluatedAt, hc⟩

theorem createRuleSet_new {store store' : Store} {set created : RuleSet}
    (h : store.createRuleSet set = .ok (created, store')) :
    ∀ other ∈ store.ruleSets, other.id ≠ set.id := by
  unfold createRuleSet at h
  simp only at h
  split at h
  · cases h
  next hnew =>
    intro other hother hid
    exact hnew (.inl (List.any_eq_true.2 ⟨other, hother, decide_eq_true hid⟩))

end Store

namespace Ledger

theorem perform_cases (ledger : Ledger) (event : Event) :
    (∃ set created store, event = .ruleSet set ∧
      ledger.store.createRuleSet set = .ok (created, store) ∧
      ledger.perform event = { ledger with store }) ∨
    (∃ session store, event = .session session ∧ ledger.store.createSession session = .ok store ∧
      ledger.perform event = { ledger with store }) ∨
    (∃ snapshot store, event = .snapshot snapshot ∧
      ledger.store.saveSnapshot snapshot = .ok store ∧
      ledger.perform event = { ledger with store }) ∨
    (∃ (attempt : Attempt) (c : attempt.job.Commit attempt.defaults ledger.store),
      event = .job attempt ∧ ledger.perform event =
        { store := c.after attempt.now
          completed := (attempt.job.sessionId, c.result.evaluationIds) :: ledger.completed }) ∨
    ledger.perform event = ledger := by
  cases event with
  | ruleSet set =>
    cases h : ledger.store.createRuleSet set with
    | ok created =>
      obtain ⟨created, store⟩ := created
      exact .inl ⟨set, created, store, rfl, h, by simp [perform, h]⟩
    | error refusal => exact .inr (.inr (.inr (.inr (by simp [perform, h]))))
  | session session =>
    cases h : ledger.store.createSession session with
    | ok store => exact .inr (.inl ⟨session, store, rfl, h, by simp [perform, h]⟩)
    | error refusal => exact .inr (.inr (.inr (.inr (by simp [perform, h]))))
  | snapshot snapshot =>
    cases h : ledger.store.saveSnapshot snapshot with
    | ok store => exact .inr (.inr (.inl ⟨snapshot, store, rfl, h, by simp [perform, h]⟩))
    | error refusal => exact .inr (.inr (.inr (.inr (by simp [perform, h]))))
  | job attempt =>
    cases h : attempt.run ledger.store with
    | ok result desk =>
      rcases Job.handle_eq_ok h with ⟨houtcome, hstore⟩ | ⟨c, rfl, hstore⟩
      · have hstore : desk.store = ledger.store := hstore
        refine .inr (.inr (.inr (.inr ?_)))
        simp [perform, h, JobResult.wrote, houtcome, hstore]
      · refine .inr (.inr (.inr (.inl ⟨attempt, c, rfl, ?_⟩)))
        simp [perform, h, JobResult.wrote, hstore, Job.Commit.result]
    | error failure desk =>
      have hstore : desk.store = ledger.store := Job.handle_eq_error h
      exact .inr (.inr (.inr (.inr (by simp [perform, h, hstore]))))

def completedFor (ledger : Ledger) (sessionId : String) : List (String × List String) :=
  ledger.completed.filter (·.1 = sessionId)

/-- The records stay as they were, and a session changes only if a job of it is completed. -/
structure Retains (before after : Ledger) : Prop where
  records : before.store.Retains after.store
  completed : before.completed <:+ after.completed
  untouched : ∀ {id session}, after.completedFor id = before.completedFor id →
    before.store.sessionRow? id = some session → after.store.sessionRow? id = some session

theorem Retains.refl (ledger : Ledger) : Retains ledger ledger where
  records := .refl _
  completed := List.suffix_rfl
  untouched _ h := h

theorem Retains.completedFor {before after : Ledger} (h : Retains before after) (id : String) :
    before.completedFor id <:+ after.completedFor id :=
  h.completed.filter _

theorem Retains.trans {a b c : Ledger} (hab : Retains a b) (hbc : Retains b c) : Retains a c where
  records := hab.records.trans hbc.records
  completed := hab.completed.trans hbc.completed
  untouched {id session} hsame h := by
    have hb := hbc.completedFor id
    rw [hsame] at hb
    have hbetween : b.completedFor id = a.completedFor id :=
      hb.eq_of_length_le (hab.completedFor id).length_le
    exact hbc.untouched (hsame.trans hbetween.symm) (hab.untouched hbetween h)

theorem retains_of_added {ledger : Ledger} {store : Store}
    (hruleSets : ledger.store.ruleSets <+: store.ruleSets)
    (hsessions : ledger.store.sessions <+: store.sessions)
    (hsnapshots : ledger.store.snapshots <+: store.snapshots)
    (hevaluations : store.evaluations = ledger.store.evaluations)
    (hadvice : store.advice = ledger.store.advice) : ledger.Retains { ledger with store } := by
  have hrow {id : String} {session : Session} (h : ledger.store.sessionRow? id = some session) :
      store.sessionRow? id = some session := hsessions.find?_eq_some h
  exact {
    records := {
      ruleSets := hruleSets
      snapshots := hsnapshots
      evaluations := hevaluations ▸ List.prefix_rfl
      advice := hadvice ▸ List.prefix_rfl
      sessions := fun {_ session} h => ⟨session.state, session.lastEvaluatedAt, hrow h⟩ }
    completed := List.suffix_rfl
    untouched := fun _ h => hrow h }

theorem sessionRow?_after {store : Store} {defaults : Thresholds} {job : Job}
    (c : job.Commit defaults store) (now : Timestamp) (id : String) :
    (c.after now).sessionRow? id = (store.sessionRow? id).map fun session =>
      if session.id = c.session.id then { session with state := c.state, lastEvaluatedAt := some now }
      else session :=
  Store.find?_updateSession (store.withResults c.session c.snapshot job.jobId now c.batch)
    c.session.id c.state now id

theorem retains_of_commit {ledger : Ledger} {defaults : Thresholds} {job : Job}
    (c : job.Commit defaults ledger.store) (now : Timestamp) (ids : List String) :
    ledger.Retains { store := c.after now, completed := (job.sessionId, ids) :: ledger.completed } where
  records := {
    ruleSets := List.prefix_rfl
    snapshots := List.prefix_rfl
    evaluations := List.prefix_append _ _
    advice := List.prefix_append _ _
    sessions := by
      intro id session h
      rw [sessionRow?_after, h, Option.map_some]
      split
      · exact ⟨c.state, some now, rfl⟩
      · exact ⟨session.state, session.lastEvaluatedAt, rfl⟩ }
  completed := List.suffix_cons _ _
  untouched := by
    intro id session hsame h
    have hother : job.sessionId ≠ id := by
      intro hid
      have hlonger := congrArg List.length hsame
      simp [Ledger.completedFor, hid] at hlonger
    have hid : session.id = id := by simpa using List.find?_some h
    rw [sessionRow?_after, h, Option.map_some, if_neg]
    rw [hid, c.session_id]
    exact hother.symm

theorem perform_retains (ledger : Ledger) (event : Event) : ledger.Retains (ledger.perform event) := by
  rcases ledger.perform_cases event with
    ⟨set, created, store, -, h, hafter⟩ | ⟨session, store, -, h, hafter⟩ |
    ⟨snapshot, store, -, h, hafter⟩ | ⟨attempt, c, -, hafter⟩ | hafter
  · rw [hafter]
    obtain ⟨-, -, rfl⟩ := Store.createRuleSet_eq_ok h
    exact retains_of_added (List.prefix_append _ _) List.prefix_rfl List.prefix_rfl rfl rfl
  · rw [hafter]
    obtain rfl := Store.createSession_eq_ok h
    exact retains_of_added List.prefix_rfl (List.prefix_append _ _) List.prefix_rfl rfl rfl
  · rw [hafter]
    obtain ⟨-, rfl⟩ := Store.saveSnapshot_eq_ok h
    exact retains_of_added List.prefix_rfl List.prefix_rfl (List.prefix_append _ _) rfl rfl
  · rw [hafter]
    exact retains_of_commit c attempt.now _
  · rw [hafter]
    exact .refl ledger

theorem retains_foldl (ledger : Ledger) (events : List Event) :
    ledger.Retains (events.foldl perform ledger) := by
  induction events generalizing ledger with
  | nil => exact .refl ledger
  | cons event rest ih => exact (ledger.perform_retains event).trans (ih _)

theorem run_append (events later : List Event) :
    run (events ++ later) = later.foldl perform (run events) := List.foldl_append ..

theorem run_retains (events later : List Event) : (run events).Retains (run (events ++ later)) := by
  rw [run_append]
  exact retains_foldl _ later

theorem perform_retains_run (events : List Event) (event : Event) (later : List Event) :
    ((run events).perform event).Retains (run (events ++ event :: later)) := by
  rw [run_append]
  exact retains_foldl _ later

end Ledger

namespace Store

theorem find?_createRuleSet {store store' : Store} {set created : RuleSet}
    (h : store.createRuleSet set = .ok (created, store')) :
    store'.ruleSets.find? (·.id = set.id) = some (storedRuleSet created) := by
  have hnew : store.ruleSets.find? (·.id = set.id) = none := by
    rw [List.find?_eq_none]
    intro other hother
    simpa using createRuleSet_new h other hother
  obtain ⟨rfl, -, rfl⟩ := createRuleSet_eq_ok h
  rw [List.find?_append, hnew, Option.none_or, List.find?_singleton]
  exact if_pos (decide_eq_true rfl)

theorem find?_saveSnapshot {store store' : Store} {snapshot : Snapshot}
    (h : store.saveSnapshot snapshot = .ok store') (hjson : snapshot.IsJson) :
    store'.snapshot? snapshot.id = some snapshot := by
  obtain ⟨hnew, rfl⟩ := saveSnapshot_eq_ok h
  have hnone : store.snapshots.find? (·.id = snapshot.id) = none := by
    rw [List.find?_eq_none]
    intro other hother
    simpa using hnew other hother
  unfold snapshot?
  rw [List.find?_append, hnone, Option.none_or, hjson.features.stored, hjson.payload.stored,
    List.find?_singleton]
  exact if_pos (decide_eq_true rfl)

theorem filed_createRuleSet {store store' : Store} {set created : RuleSet} (hfiled : store.Filed)
    (h : store.createRuleSet set = .ok (created, store')) : store'.Filed := by
  have hnew := createRuleSet_new h
  obtain ⟨rfl, -, rfl⟩ := createRuleSet_eq_ok h
  refine ⟨nodup_map_append_singleton hfiled.ids hnew, fun other hother tag htag => ?_⟩
  rcases List.mem_append.1 hother with hold | hlast
  · exact hfiled.tags other hold tag htag
  · obtain rfl := List.mem_singleton.1 hlast
    obtain ⟨tied, htied, rfl⟩ := List.mem_map.1 htag
    obtain ⟨given, -, rfl⟩ := List.mem_map.1 htied
    rfl

end Store

namespace Ledger

theorem perform_filed {ledger : Ledger} (hfiled : ledger.store.Filed) (event : Event) :
    (ledger.perform event).store.Filed := by
  rcases ledger.perform_cases event with
    ⟨set, created, store, -, h, hafter⟩ | ⟨session, store, -, h, hafter⟩ |
    ⟨snapshot, store, -, h, hafter⟩ | ⟨attempt, c, -, hafter⟩ | hafter
  · rw [hafter]
    exact Store.filed_createRuleSet hfiled h
  · rw [hafter]
    obtain rfl := Store.createSession_eq_ok h
    exact ⟨hfiled.ids, hfiled.tags⟩
  · rw [hafter]
    obtain ⟨-, rfl⟩ := Store.saveSnapshot_eq_ok h
    exact ⟨hfiled.ids, hfiled.tags⟩
  · rw [hafter]
    exact ⟨hfiled.ids, hfiled.tags⟩
  · rw [hafter]
    exact hfiled

theorem ruleSets_perform (ledger : Ledger) {event : Event} (hother : ∀ set, event ≠ .ruleSet set) :
    (ledger.perform event).store.ruleSets = ledger.store.ruleSets := by
  rcases ledger.perform_cases event with
    ⟨set, created, store, hevent, -, -⟩ | ⟨session, store, -, h, hafter⟩ |
    ⟨snapshot, store, -, h, hafter⟩ | ⟨attempt, c, -, hafter⟩ | hafter
  · exact absurd hevent (hother set)
  · rw [hafter, Store.createSession_eq_ok h]
  · rw [hafter, (Store.saveSnapshot_eq_ok h).2]
  · rw [hafter]
    rfl
  · rw [hafter]

theorem run_filed (events : List Event) : (run events).store.Filed := by
  suffices h : ∀ {ledger : Ledger}, ledger.store.Filed → (events.foldl perform ledger).store.Filed from
    h ⟨List.nodup_nil, by simp⟩
  induction events with
  | nil => exact id
  | cons event rest ih => exact fun hfiled => ih (perform_filed hfiled event)

end Ledger

namespace Catalog

open Ledger (Event)

def perform (c : Catalog) : Event → Catalog
  | .ruleSet set =>
    match c.createRuleSet set with
    | .ok (_, c) => c
    | .error _ => c
  | .session _ | .snapshot _ | .job _ => c

def run (events : List Event) : Catalog := events.foldl perform {}

theorem perform_ofStore (ledger : Ledger) (event : Event) :
    (ofStore ledger.store).perform event = ofStore (ledger.perform event).store := by
  have hsame (hother : ∀ set, event ≠ .ruleSet set) :
      ofStore ledger.store = ofStore (ledger.perform event).store := by
    unfold ofStore
    rw [ledger.ruleSets_perform hother]
  cases event with
  | ruleSet set =>
    unfold perform Ledger.perform
    dsimp only
    rw [createRuleSet_ofStore]
    cases ledger.store.createRuleSet set <;> rfl
  | session session => exact hsame nofun
  | snapshot snapshot => exact hsame nofun
  | job attempt => exact hsame nofun

/-- The tables, written row by row, hold what the store has. -/
theorem run_eq (events : List Event) : run events = ofStore (Ledger.run events).store := by
  suffices h : ∀ ledger : Ledger, events.foldl perform (ofStore ledger.store) =
      ofStore (events.foldl Ledger.perform ledger).store from h {}
  induction events with
  | nil => exact fun _ => rfl
  | cons event rest ih =>
    intro ledger
    rw [List.foldl_cons, perform_ofStore, ih]
    rfl

structure Retains (before after : Catalog) : Prop where
  ruleSets : before.ruleSets <+: after.ruleSets
  tags : before.tags <+: after.tags

theorem retains_ofStore {before after : Store} (h : before.ruleSets <+: after.ruleSets) :
    (ofStore before).Retains (ofStore after) where
  ruleSets := h.map _
  tags := by
    obtain ⟨added, hadded⟩ := h
    unfold ofStore
    rw [← hadded, List.flatMap_append]
    exact List.prefix_append _ _

end Catalog

namespace Ledger

def loaded? (events : List Event) (id : String) : Option Session :=
  ((run events).store.sessionRow? id).map fun session =>
    { session with ruleSet := session.ruleSetId.bind (Catalog.run events).ruleSet? }

theorem session?_eq_loaded? (events : List Event) (id : String) :
    (run events).store.session? id = loaded? events id := by
  unfold loaded? Store.session? Store.sessionRow?
  rw [Catalog.run_eq]
  refine congrArg (Option.map · _) (funext fun session => ?_)
  rw [funext (Catalog.ruleSet?_ofStore (run_filed events))]

theorem ruleSet_of_loaded {events later : List Event} {set created : RuleSet} {store : Store}
    (h : (run events).store.createRuleSet set = .ok (created, store)) (hjson : created.IsJson)
    {id : String} {session : Session}
    (hloaded : (run (events ++ .ruleSet set :: later)).store.session? id = some session)
    (hsession : session.ruleSetId = some set.id) : session.ruleSet = some created := by
  have hcreated : ((run events).perform (.ruleSet set)).store = store := by simp [perform, h]
  have hfound := Store.find?_createRuleSet h
  rw [Store.storedRuleSet_eq_self hjson, ← hcreated] at hfound
  have hretains := perform_retains_run events (.ruleSet set) later
  have hkept := hretains.records.ruleSets.find?_eq_some hfound
  obtain ⟨row, hrow, rfl⟩ := Option.map_eq_some_iff.1 hloaded
  have hrow : row.ruleSetId = some set.id := hsession
  change row.ruleSetId.bind _ = some created
  rw [hrow]
  exact hkept

theorem snapshot_of_loaded {events : List Event} {snapshot : Snapshot} {store : Store}
    (h : (run events).store.saveSnapshot snapshot = .ok store) (hjson : snapshot.IsJson)
    (later : List Event) :
    (run (events ++ .snapshot snapshot :: later)).store.snapshot? snapshot.id = some snapshot := by
  have hsaved : ((run events).perform (.snapshot snapshot)).store = store := by simp [perform, h]
  have hfound := Store.find?_saveSnapshot h hjson
  rw [← hsaved] at hfound
  have hretains := perform_retains_run events (.snapshot snapshot) later
  exact hretains.records.snapshots.find?_eq_some hfound

/-- What a run up to some time stored, as it is after any later events. -/
structure KeepsRecords (events later : List Event) : Prop where
  kept : (run events).Retains (run (events ++ later))
  rows : (Catalog.run events).Retains (Catalog.run (events ++ later))
  /-- Sessions are read from the tables, the tags of their rule sets by position. -/
  loaded : ∀ id, (run (events ++ later)).store.session? id = loaded? (events ++ later) id
  /-- A rule set is created with its tags in the order given, and is loaded as it was returned. -/
  ruleSet : ∀ {set created store}, (run events).store.createRuleSet set = .ok (created, store) →
    created.tags = set.tags.map (fun tag => { tag with ruleSetId := some set.id }) ∧
    (created.IsJson → ∀ {id session},
      (run (events ++ .ruleSet set :: later)).store.session? id = some session →
      session.ruleSetId = some set.id → session.ruleSet = some created)
  /-- A snapshot is loaded as it was saved. -/
  snapshot : ∀ {snapshot store}, (run events).store.saveSnapshot snapshot = .ok store →
    snapshot.IsJson →
    (run (events ++ .snapshot snapshot :: later)).store.snapshot? snapshot.id = some snapshot

/-- Whatever is created and whatever jobs are carried out, what was stored is kept and comes back as it
was given. -/
theorem run_keepsRecords (events later : List Event) : KeepsRecords events later where
  kept := run_retains events later
  rows := by
    rw [Catalog.run_eq, Catalog.run_eq]
    exact Catalog.retains_ofStore (run_retains events later).records.ruleSets
  loaded := session?_eq_loaded? (events ++ later)
  ruleSet {set created store} h := by
    refine ⟨?_, fun hjson _ _ => ruleSet_of_loaded h hjson⟩
    rw [(Store.createRuleSet_eq_ok h).1]
    rfl
  snapshot h hjson := snapshot_of_loaded h hjson later

def openSet (id : String) (tagIds : List String) : RuleSet where
  id
  owner := none
  name := "Open"
  version := 1
  summary := none
  thresholds := .null
  tags := tagIds.map fun tagId =>
    { id := tagId, ruleSetId := none, key := "k", name := "N", severity := .entry, category := none
      description := none, rule := .object [("when", .obj [])] }

theorem openSet_isJson (store : Store) (id : String) (tagIds : List String) :
    (store.versioned (openSet id tagIds)).IsJson where
  thresholds := ⟨.null, rfl⟩
  rules := by
    intro tag htag
    obtain ⟨given, hgiven, rfl⟩ := List.mem_map.1 htag
    obtain ⟨tagId, -, rfl⟩ := List.mem_map.1 hgiven
    exact ⟨Value.Distinct.empty.put (.text "when") .empty, rfl⟩

/-- A session on the first version, then a second version, a rule set that is refused after its own row
was written, and a job that is completed. -/
def laterVersions : List Event :=
  [.session { id := "s-1", ruleSetId := some "rs-1", symbol := "ES", timeframeMinutes := 1
              state := .scanning, startedAt := ⟨0⟩, lastEvaluatedAt := none, ruleSet := none },
   .ruleSet (openSet "rs-2" ["t-0"]),
   .ruleSet (openSet "rs-3" ["t-5", "t-2"]),
   .snapshot { id := "sn-1", sessionId := "s-1", source := .snapshot, capturedAt := ⟨0⟩
               features := .null, payload := .null },
   .job { job := { sessionId := "s-1" }, defaults := .standard, now := ⟨0⟩ }]

/-- The session is loaded with the first version of its rule set, its tags in the order given. -/
theorem run_keepsRecords_versions :
    let set := openSet "rs-1" ["t-2", "t-1"]
    let after := run (.ruleSet set :: laterVersions)
    after.store.ruleSets.map (fun set => (set.id, set.version)) = [("rs-1", 1), ("rs-2", 2)] ∧
    ∃ session, after.store.session? "s-1" = some session ∧ session.state = .ready ∧
      session.ruleSet = some (({} : Store).versioned set) ∧
      (({} : Store).versioned set).tags.map (·.id) = ["t-2", "t-1"] := by
  intro set after
  have hcreated : (run []).store.createRuleSet set = .ok (({} : Store).versioned set,
      { ruleSets := [Store.storedRuleSet (({} : Store).versioned set)] }) := rfl
  have hstate : (after.store.session? "s-1").map (fun session => (session.state, session.ruleSetId)) =
      some (.ready, some "rs-1") := by decide +kernel
  obtain ⟨session, hloaded, hsession⟩ := Option.map_eq_some_iff.1 hstate
  obtain ⟨hready, hid⟩ := Prod.mk.inj hsession
  obtain ⟨-, hkept⟩ := (run_keepsRecords [] laterVersions).ruleSet hcreated
  exact ⟨by decide +kernel, session, hloaded, hready, hkept (openSet_isJson _ _ _) hloaded hid, rfl⟩

end Ledger

end SignalCoach
