import SignalCoach.Demo
import SignalCoach.DryRun
import SignalCoach.Proofs.DrawnIds
import SignalCoach.Proofs.FileDocuments
import SignalCoach.Proofs.StoreConsistency
import SignalCoach.Proofs.StoredRule

/-! What the demonstration stores for a rule set and a snapshot is what a dry run of the same files
reports. -/
namespace SignalCoach

namespace Draft

variable {α β : Type} {ids ids' : IdSupply}

theorem seq_eq_valid {f : Draft (α → β)} {x : Draft α} {b : β}
    (h : (f <*> x) ids = (.valid b, ids')) :
    ∃ g between a, f ids = (.valid g, between) ∧ x between = (.valid a, ids') ∧ g a = b := by
  change ((f ids).1 <*> (x (f ids).2).1, (x (f ids).2).2) = _ at h
  obtain ⟨hvalid, hids⟩ := Prod.mk.inj h
  obtain ⟨g, a, hg, ha, hb⟩ := Checked.seq_eq_valid.1 hvalid
  exact ⟨g, (f ids).2, a, Prod.ext hg rfl, Prod.ext ha hids, hb⟩

theorem map_eq_valid {f : α → β} {x : Draft α} {b : β} (h : (f <$> x) ids = (.valid b, ids')) :
    ∃ a, x ids = (.valid a, ids') ∧ f a = b := by
  obtain ⟨g, between, a, hg, ha, hb⟩ := seq_eq_valid (f := (pure f : Draft (α → β))) h
  cases hg
  exact ⟨a, ha, hb⟩

theorem check_eq_valid {c : Checked α} {a : α} (h : check c ids = (.valid a, ids')) :
    c = .valid a := (Prod.mk.inj h).1

end Draft

theorem Session.ruleSetId_of_read {now : Timestamp} {id : String} {rest : List (String × Value)}
    {ids ids' : IdSupply} {session : Session}
    (h : Session.read now (.object (("rule_set_id", .str id) :: rest)) ids = (.valid session, ids')) :
    session.ruleSetId = some id := by
  obtain ⟨_, _, _, h₇, -, rfl⟩ := Draft.seq_eq_valid h
  obtain ⟨_, _, _, h₆, -, rfl⟩ := Draft.seq_eq_valid h₇
  obtain ⟨_, _, _, h₅, -, rfl⟩ := Draft.seq_eq_valid h₆
  obtain ⟨_, _, _, h₄, -, rfl⟩ := Draft.seq_eq_valid h₅
  obtain ⟨_, _, _, h₃, -, rfl⟩ := Draft.seq_eq_valid h₄
  obtain ⟨_, _, _, h₂, -, rfl⟩ := Draft.seq_eq_valid h₃
  obtain ⟨_, _, ruleSetId, h₁, hruleSetId, rfl⟩ := Draft.seq_eq_valid h₂
  obtain ⟨_, -, rfl⟩ := Draft.map_eq_valid h₁
  have hread := Draft.check_eq_valid hruleSetId
  cases hread
  rfl

namespace Demo

structure Stage.Holds (stage : Stage) (set : RuleSet) (features payload : Value) : Prop where
  tags : (set.tags.map (·.id)).Nodup
  ruleSet : stage.session.ruleSetId = some set.id
  named : stage.snapshot.id ≠ ""
  taken : stage.snapshot.sessionId = stage.session.id
  store : stage.store =
    { ruleSets := [Store.storedRuleSet (({} : Store).versioned set)]
      sessions := [{ stage.session with ruleSet := none }]
      snapshots := [{ stage.snapshot with features := features.stored, payload := payload.stored }] }

theorem prepare_eq_ok {inputs : Inputs} {now : Timestamp} {stage : Stage}
    (h : prepare inputs now = .ok stage) :
    ∃ set ids features payload, RuleSet.ofFile inputs.ruleSet {} = .ok (set, ids) ∧
      snapshotOfFile inputs.snapshot = .ok (features, payload) ∧
      stage.Holds set features payload := by
  obtain ⟨⟨set, ids⟩, hset, h⟩ := Program.except_bind_eq_ok.1 h
  obtain ⟨⟨stored, store₁⟩, hstored, h⟩ := Program.except_bind_eq_ok.1 h
  obtain ⟨⟨session, ids₁⟩, hsession, h⟩ := Program.except_bind_eq_ok.1 h
  obtain ⟨store₂, hstore₂, h⟩ := Program.except_bind_eq_ok.1 h
  obtain ⟨⟨features, payload⟩, hsnapshot, h⟩ := Program.except_bind_eq_ok.1 h
  obtain ⟨store₃, hstore₃, h⟩ := Program.except_bind_eq_ok.1 h
  cases h
  rw [Program.except_mapError_eq_ok] at hset hstored hstore₂ hsnapshot hstore₃
  obtain ⟨rfl, htags, rfl⟩ := Store.createRuleSet_eq_ok hstored
  obtain rfl := Store.createSession_eq_ok hstore₂
  obtain ⟨-, rfl⟩ := Store.saveSnapshot_eq_ok hstore₃
  refine ⟨set, ids, features, payload, hset, hsnapshot, ?_, ?_, ?_, rfl, rfl⟩
  · simpa [Store.versioned, Function.comp_def] using htags
  · unfold checked at hsession
    split at hsession
    next hread =>
      cases hsession
      exact Session.ruleSetId_of_read hread
    next => cases hsession
  · exact IdSupply.nameOf_ne_empty ids₁.next

end Demo

namespace Assessment

open Feature

def retag (change : Tag → Tag) (r : TagResult) : TagResult := { r with tag := change r.tag }

theorem ofTag_retag {context : Context} {defaults : Thresholds} {change : Tag → Tag} {tag : Tag}
    (hrule : Rule.read (change tag).rule = Rule.read tag.rule) :
    ofTag (change tag) context defaults = (ofTag tag context defaults).map (·.map (retag change)) := by
  unfold ofTag
  rw [hrule]
  cases Rule.read tag.rule with
  | error e => rfl
  | ok rule =>
    have hofRule : ofRule (change tag) rule context defaults =
        (ofRule tag rule context defaults).map (retag change) := by
      unfold ofRule
      cases Rule.Group.holds rule.when context with
      | error e => rfl
      | ok satisfied =>
        change (Score.compute rule.score satisfied context >>= _) =
          (Score.compute rule.score satisfied context >>= _).map _
        cases Score.compute rule.score satisfied context <;> rfl
    simp only [hofRule]
    cases ofRule tag rule context defaults <;> rfl

theorem ofTags_retag {context : Context} {defaults : Thresholds} {change : Tag → Tag}
    {tags : List Tag} (hrules : ∀ tag ∈ tags, Rule.read (change tag).rule = Rule.read tag.rule) :
    ofTags context defaults (tags.map change) =
      (ofTags context defaults tags).map (·.map (retag change)) := by
  induction tags with
  | nil => rfl
  | cons tag rest ih =>
    obtain ⟨htag, hrest⟩ := List.forall_mem_cons.1 hrules
    rw [List.map_cons, ofTags, ofTags, ofTag_retag htag, ih hrest]
    cases ofTag tag context defaults with
    | error e => rfl
    | ok result =>
      cases ofTags context defaults rest with
      | error e => rfl
      | ok results => cases result <;> rfl

theorem sessionState_retag (change : Tag → Tag) (hchange : ∀ tag, (change tag).severity = tag.severity)
    (results : List TagResult) :
    sessionState (results.map (retag change)) = sessionState results := by
  unfold sessionState
  rw [List.map_map]
  congr 2
  funext r
  simp [TagResult.severityAndStatus, retag, hchange]

end Assessment

namespace Job

variable {σ : Type} {gateway : Gateway σ} {now : Timestamp} {job : Job}

theorem settle_eq_record {session : Session} {snapshot : Snapshot} {results : List TagResult}
    {desk desk' : Desk σ} {result : JobResult} (hresults : results ≠ [])
    (hduplicate : job.isDuplicate gateway desk.store = false)
    (h : settle gateway session snapshot job now results desk = .ok result desk') :
    result.outcome = .completed := by
  change (if results.isEmpty then _ else _ : Work σ JobResult) desk = _ at h
  rw [if_neg (by simpa using hresults), if_neg (by simp [hduplicate])] at h
  obtain ⟨ids, desk₁, -, h⟩ := Program.bind_eq_ok.1 h
  obtain ⟨rfl, -⟩ := Program.pure_eq_ok.1 h
  rfl

end Job

namespace Demo

def storedTag (set : RuleSet) (tag : Tag) : Tag :=
  { tag with ruleSetId := some set.id, rule := tag.rule.stored }

def storedSet (set : RuleSet) : RuleSet := Store.storedRuleSet (({} : Store).versioned set)

theorem storedSet_tags (set : RuleSet) : (storedSet set).tags = set.tags.map (storedTag set) := by
  simp only [storedSet, Store.storedRuleSet, Store.versioned, List.map_map]
  rfl

def Stage.loadedSession (stage : Stage) (set : RuleSet) : Session :=
  { stage.session with ruleSet := some (storedSet set) }

def Stage.loadedSnapshot (stage : Stage) (features payload : Value) : Snapshot :=
  { stage.snapshot with features := features.stored, payload := payload.stored }

def Stage.recorded (stage : Stage) (set : RuleSet) (features payload : Value) (now : Timestamp)
    (batch : List Recorded) : Store :=
  (stage.store.withResults (stage.loadedSession set) (stage.loadedSnapshot features payload) none now
    batch).updateSession stage.session.id (Assessment.sessionState (batch.map (·.result))) now

def finding? (store : Store) (e : Evaluation) : Option (String × Option Value × Double × Status) :=
  (store.ruleSetOf? e.sessionId).bind fun set =>
    (set.tags.find? (·.id = e.tagId)).map fun tag =>
      (tag.key, Fields.get? e.context "satisfied", e.score, e.status)

def finding (r : TagResult) : String × Option Value × Double × Status :=
  (r.tag.key, some (.bool r.satisfied), r.score, r.status)

theorem finding?_evaluationOf {store : Store} {session : Session} {snapshot : Snapshot} {set : RuleSet}
    (hset : store.ruleSetOf? session.id = some set) (hids : (set.tags.map (·.id)).Nodup)
    {r : TagResult} (htag : r.tag ∈ set.tags) (jobId : Option String) (now : Timestamp) (id : String) :
    finding? store (Job.evaluationOf session snapshot jobId now id r) = some (finding r) := by
  have hfind : set.tags.find? (·.id = r.tag.id) = some r.tag := Store.find?_of_nodup hids htag
  change (store.ruleSetOf? session.id).bind (fun set =>
    (set.tags.find? (·.id = r.tag.id)).map fun tag =>
      (tag.key, Fields.get? r.context "satisfied", r.score, r.status)) = _
  rw [hset, Option.bind_some, hfind]
  rfl

theorem retag_tag_mem {set : RuleSet} {context : Feature.Context} {thresholds : Thresholds}
    {results : List TagResult} (h : Assessment.ofTags context thresholds set.tags = .ok results) :
    ∀ r ∈ results.map (Assessment.retag (storedTag set)), r.tag ∈ (storedSet set).tags := by
  intro r hr
  obtain ⟨plain, hplain, rfl⟩ := List.mem_map.1 hr
  have htag : plain.tag ∈ set.tags.filter Assessment.isReadable := by
    rw [← (Assessment.ofTags_eq_ok h).1]
    exact List.mem_map_of_mem hplain
  rw [storedSet_tags]
  exact List.mem_map_of_mem (List.mem_filter.1 htag).1

/-- The stored session is assessed as the files are, if they have text keys only. -/
theorem assess_loaded {set : RuleSet} {features payload : Value} (stage : Stage)
    (hset : set.thresholds.Distinct ∧ ∀ tag ∈ set.tags, tag.rule.Distinct)
    (hfeatures : features.Distinct ∧ features.isTextKeyed)
    (hpayload : payload.Distinct ∧ payload.isTextKeyed) (defaults : Thresholds) :
    Job.assess (storedSet set) (stage.loadedSnapshot features payload) defaults =
      (set.defaultThresholds defaults >>= fun thresholds =>
        (Assessment.ofTags { features, payload } thresholds set.tags).map
          (·.map (Assessment.retag (storedTag set)))) := by
  have hthresholds : (storedSet set).defaultThresholds defaults = set.defaultThresholds defaults :=
    Thresholds.ofDocument_stored hset.1 defaults
  have hrules : ∀ tag ∈ set.tags, Rule.read (storedTag set tag).rule = Rule.read tag.rule :=
    fun tag htag => Rule.steady_read tag.rule (hset.2 tag htag)
  unfold Job.assess Stage.loadedSnapshot
  rw [hthresholds, storedSet_tags, Value.stored_eq_self hfeatures.1 hfeatures.2,
    Value.stored_eq_self hpayload.1 hpayload.2]
  simp only [Assessment.ofTags_retag hrules]

namespace Stage.Holds

variable {stage : Stage} {set : RuleSet} {features payload : Value}
  (holds : stage.Holds set features payload)
include holds

theorem session?_eq :
    stage.store.session? stage.session.id = some (stage.loadedSession set) := by
  have hid : (Store.storedRuleSet (({} : Store).versioned set)).id = set.id := rfl
  rw [holds.store]
  simp only [Store.session?, List.find?_cons, decide_true, Option.map_some, holds.ruleSet,
    Option.bind_some, hid, loadedSession]
  rfl

theorem snapshot?_eq :
    stage.job.snapshot? Store.gateway stage.store (stage.loadedSession set) =
      some (stage.loadedSnapshot features payload) := by
  have hfound : Store.gateway.snapshot? stage.store stage.snapshot.id =
      some (stage.loadedSnapshot features payload) := by
    rw [holds.store]
    simp [Store.gateway, Store.snapshot?, loadedSnapshot]
  unfold Job.snapshot?
  simp only [Stage.job, String.isEmpty_iff, if_neg holds.named, hfound, Option.filter_some,
    loadedSnapshot, holds.taken, loadedSession, decide_true, if_true]

theorem evaluate_eq_ok {results : List TagResult} (hresults : results ≠ [])
    (hassess : Job.assess (storedSet set) (stage.loadedSnapshot features payload) .standard =
      .ok results) {now : Timestamp} {result : JobResult} {store : Store}
    (h : evaluate stage now = .ok (result, store)) :
    result.outcome = .completed ∧ ∃ batch : List Recorded, batch.map (·.result) = results ∧
      store = stage.recorded set features payload now batch := by
  have hhandle : stage.job.handle Store.gateway .standard now
      { store := stage.store, ids := stage.ids } = _ :=
    Job.handle_eq_settle holds.session?_eq rfl holds.snapshot?_eq hassess
  unfold evaluate at h
  rw [hhandle] at h
  split at h
  next result desk hsettle =>
    cases h
    have hcompleted := Job.settle_eq_record hresults rfl hsettle
    rcases Job.settle_eq_ok hsettle with ⟨⟨hnot, -⟩, -⟩ | ⟨-, -, ids, hrecord, -⟩
    · exact absurd hcompleted hnot
    · obtain ⟨batch, hbatch, -, hstore⟩ := Job.record_eq_ok hrecord
      refine ⟨hcompleted, batch, hbatch, ?_⟩
      rw [Stage.recorded, hbatch]
      exact hstore
  next => cases h

theorem findings {batch : List Recorded} (htags : ∀ r ∈ batch, r.result.tag ∈ (storedSet set).tags)
    (now : Timestamp) :
    let store := stage.recorded set features payload now batch
    store.evaluations.map (finding? store) = (batch.map (·.result)).map (some ∘ finding) := by
  intro store
  have hset : store.ruleSetOf? (stage.loadedSession set).id = some (storedSet set) := by
    refine (Store.keeps_updateSession _ _ _ _).ruleSet ?_
    change (stage.store.session? stage.session.id).bind (·.ruleSet) = _
    rw [holds.session?_eq]
    rfl
  have hids : ((storedSet set).tags.map (·.id)).Nodup := by
    rw [storedSet_tags, List.map_map]
    exact holds.tags
  have hevaluations : store.evaluations = batch.map fun r => Job.evaluationOf
      (stage.loadedSession set) (stage.loadedSnapshot features payload) none now r.id r.result := by
    change stage.store.evaluations ++ _ = _
    rw [holds.store]
    rfl
  rw [hevaluations, List.map_map, List.map_map]
  exact List.map_congr_left fun r hr => finding?_evaluationOf hset hids (htags r hr) none now r.id

theorem standing (now : Timestamp) (batch : List Recorded) :
    (stage.recorded set features payload now batch).standing? stage.session.id =
      some (Assessment.sessionState (batch.map (·.result)), some now) := by
  have hsession : (stage.recorded set features payload now batch).session? stage.session.id = some
      { stage.loadedSession set with
        state := Assessment.sessionState (batch.map (·.result))
        lastEvaluatedAt := some now } :=
    Store.session?_updateSession holds.session?_eq
  unfold Store.standing?
  rw [hsession]
  rfl

end Stage.Holds

/-- If a rule set has the thresholds by default that it has under the settings, and the snapshot has
text keys only, then what the demonstration stores is what a dry run reports. The files that are loaded
are made of characters: two halves of a surrogate pair would be one character once they were stored. -/
theorem evaluate_agrees {files : String → Option String} {ruleSet snapshot : String}
    {settings : Settings} {set : RuleSet} {features payload : Value} {run : DryRun}
    (hload : DryRun.load files ruleSet snapshot = .ok (set, features, payload))
    (hrun : DryRun.ofRuleSet settings set features payload = .ok run) (hresults : run.results ≠ [])
    {inputs : Inputs} (hruleSet : inputs.ruleSet = files ruleSet)
    (hsnapshot : inputs.snapshot = files snapshot) {prepared evaluated : Timestamp} {stage : Stage}
    (hprepare : prepare inputs prepared = .ok stage) {result : JobResult} {store : Store}
    (hevaluate : evaluate stage evaluated = .ok (result, store))
    (hthresholds : set.defaultThresholds settings.thresholds = set.defaultThresholds .standard)
    (hkeys : features.isTextKeyed ∧ payload.isTextKeyed) :
    result.outcome = .completed ∧
      store.evaluations.map (finding? store) = run.results.map (some ∘ finding) ∧
      store.standing? stage.session.id = some (run.state, some evaluated) := by
  obtain ⟨⟨set₁, ids⟩, hset, hload⟩ := Program.except_bind_eq_ok.1 hload
  obtain ⟨⟨features₁, payload₁⟩, hdocuments, hload⟩ := Program.except_bind_eq_ok.1 hload
  cases hload
  obtain ⟨set₂, ids₂, features₂, payload₂, hset₂, hdocuments₂, holds⟩ := prepare_eq_ok hprepare
  rw [hruleSet, hset] at hset₂
  cases hset₂
  rw [hsnapshot, hdocuments] at hdocuments₂
  cases hdocuments₂
  obtain ⟨hfeatures, hpayload⟩ := snapshotOfFile_distinct hdocuments
  obtain ⟨thresholds, hdefault, hrun⟩ := Program.except_bind_eq_ok.1 hrun
  obtain ⟨results, htags, hrun⟩ := Program.except_bind_eq_ok.1 hrun
  cases hrun
  have hassess : Job.assess (storedSet set) (stage.loadedSnapshot features payload) .standard =
      .ok (results.map (Assessment.retag (storedTag set))) := by
    rw [assess_loaded stage (RuleSet.ofFile_distinct hset) ⟨hfeatures, hkeys.1⟩
      ⟨hpayload, hkeys.2⟩, ← hthresholds, hdefault]
    change (Assessment.ofTags _ _ _).map _ = _
    rw [htags]
    rfl
  obtain ⟨hcompleted, batch, hbatch, rfl⟩ :=
    holds.evaluate_eq_ok (by simpa using hresults) hassess hevaluate
  have hmem : ∀ r ∈ batch, r.result.tag ∈ (storedSet set).tags := fun r hr =>
    retag_tag_mem htags r.result (hbatch ▸ List.mem_map_of_mem hr)
  refine ⟨hcompleted, ?_, ?_⟩
  · rw [holds.findings hmem evaluated, hbatch, List.map_map]
    rfl
  · rw [holds.standing, hbatch, Assessment.sessionState_retag (storedTag set) (fun _ => rfl)]
    rfl

def filesOf (ruleSet snapshot : String) : String → Option String
  | "rule set" => some ruleSet
  | _ => some snapshot

def inputsOf (ruleSet snapshot : String) : Inputs :=
  { ruleSet, snapshot, symbol := .str "ES", timeframe := .int 5 }

structure Both where
  set : RuleSet
  features : Value
  payload : Value
  run : DryRun
  stage : Stage
  result : JobResult
  store : Store

def both? (settings : Settings) (ruleSet snapshot : String) : Option Both := do
  let (set, features, payload) ←
    (DryRun.load (filesOf ruleSet snapshot) "rule set" "snapshot").toOption
  let run ← (DryRun.ofRuleSet settings set features payload).toOption
  let stage ← (prepare (inputsOf ruleSet snapshot) ⟨0⟩).toOption
  let (result, store) ← (evaluate stage ⟨0⟩).toOption
  pure { set, features, payload, run, stage, result, store }

theorem both?_eq_some {settings : Settings} {ruleSet snapshot : String} {both : Both}
    (h : both? settings ruleSet snapshot = some both) :
    DryRun.load (filesOf ruleSet snapshot) "rule set" "snapshot" =
        .ok (both.set, both.features, both.payload) ∧
      DryRun.ofRuleSet settings both.set both.features both.payload = .ok both.run ∧
      prepare (inputsOf ruleSet snapshot) ⟨0⟩ = .ok both.stage ∧
      evaluate both.stage ⟨0⟩ = .ok (both.result, both.store) := by
  obtain ⟨⟨set, features, payload⟩, hload, h⟩ := Option.bind_eq_some_iff.1 h
  obtain ⟨run, hrun, h⟩ := Option.bind_eq_some_iff.1 h
  obtain ⟨stage, hstage, h⟩ := Option.bind_eq_some_iff.1 h
  obtain ⟨⟨result, store⟩, hevaluate, h⟩ := Option.bind_eq_some_iff.1 h
  cases h
  rw [Program.except_toOption_eq_some] at hload hrun hstage hevaluate
  exact ⟨hload, hrun, hstage, hevaluate⟩

def halfway : String :=
  "name: d\ntags:\n- tag_key: k\n  severity: ENTRY\n  rule:\n    score:\n      base: 0.5\n"

theorem evaluate_agrees_halfway : ∃ both : Both,
    (DryRun.load (filesOf halfway "x: 3") "rule set" "snapshot" =
        .ok (both.set, both.features, both.payload) ∧
      DryRun.ofRuleSet {} both.set both.features both.payload = .ok both.run ∧
      both.run.results ≠ [] ∧ prepare (inputsOf halfway "x: 3") ⟨0⟩ = .ok both.stage ∧
      evaluate both.stage ⟨0⟩ = .ok (both.result, both.store) ∧
      both.features.isTextKeyed ∧ both.payload.isTextKeyed) ∧
    both.result.outcome = .completed ∧
    both.store.evaluations.map (finding? both.store) = both.run.results.map (some ∘ finding) ∧
    both.store.standing? both.stage.session.id = some (both.run.state, some ⟨0⟩) := by
  have hcheck : (both? {} halfway "x: 3").any (fun both =>
      !both.run.results.isEmpty && both.features.isTextKeyed && both.payload.isTextKeyed) = true := by
    decide +kernel
  obtain ⟨both, hboth, hchecked⟩ := (Option.any_eq_true _ _).1 hcheck
  obtain ⟨hload, hrun, hprepare, hevaluate⟩ := both?_eq_some hboth
  simp only [Bool.and_eq_true, Bool.not_eq_true', List.isEmpty_eq_false_iff] at hchecked
  obtain ⟨⟨hresults, hfeatures⟩, hpayload⟩ := hchecked
  exact ⟨both, ⟨hload, hrun, hresults, hprepare, hevaluate, hfeatures, hpayload⟩,
    evaluate_agrees hload hrun hresults rfl rfl hprepare hevaluate rfl ⟨hfeatures, hpayload⟩⟩

/-- Under a condition on the settings and the files, the demonstration stores what a dry run
reports. -/
def AlwaysAgrees (condition : Settings → RuleSet → Value → Value → Prop) : Prop :=
  ∀ (settings : Settings) (ruleSet snapshot : String) (both : Both),
    both? settings ruleSet snapshot = some both → both.run.results ≠ [] →
    condition settings both.set both.features both.payload →
    both.store.evaluations.map (finding? both.store) = both.run.results.map (some ∘ finding)

def Both.differs (both : Both) : Bool :=
  !both.run.results.isEmpty &&
    both.store.evaluations.map (fun e => (finding? both.store e).map (·.2.2.2)) !=
      both.run.results.map fun r => some r.status

theorem not_alwaysAgrees {condition : Settings → RuleSet → Value → Value → Prop} {settings : Settings}
    {ruleSet snapshot : String} {both : Both} (hboth : both? settings ruleSet snapshot = some both)
    (hdiffers : both.differs) (hcondition : condition settings both.set both.features both.payload) :
    ¬ AlwaysAgrees condition := by
  intro hall
  rw [Both.differs, Bool.and_eq_true, Bool.not_eq_true', List.isEmpty_eq_false_iff,
    bne_iff_ne] at hdiffers
  have hagree := congrArg (List.map (Option.map fun f => f.2.2.2))
    (hall settings ruleSet snapshot both hboth hdiffers.1 hcondition)
  rw [List.map_map, List.map_map] at hagree
  exact hdiffers.2 hagree

def numbered : String :=
  "name: d\ntags:\n- tag_key: k\n  severity: ENTRY\n  rule:\n    when:\n      all_of:\n" ++
    "      - compare:\n          left: '15'\n          op: '>'\n          right: 0\n"

/-- Without the thresholds or without the text keys, what is stored may differ from what is
reported. -/
theorem not_always_agrees :
    ¬ AlwaysAgrees (fun _ _ _ _ => True) ∧
      ¬ AlwaysAgrees (fun _ _ features payload => features.isTextKeyed ∧ payload.isTextKeyed) ∧
      ¬ AlwaysAgrees fun settings set _ _ =>
        set.defaultThresholds settings.thresholds = set.defaultThresholds .standard := by
  have hhalfway : (both? { greenDefault := Thresholds.places 5 1 } halfway "x: 3").any (fun both =>
      both.differs && both.features.isTextKeyed && both.payload.isTextKeyed) = true := by
    decide +kernel
  have hnumbered : (both? {} numbered "15: 3").any Both.differs = true := by decide +kernel
  obtain ⟨both, hboth, hchecked⟩ := (Option.any_eq_true _ _).1 hhalfway
  obtain ⟨other, hother, hdiffers⟩ := (Option.any_eq_true _ _).1 hnumbered
  simp only [Bool.and_eq_true] at hchecked
  obtain ⟨⟨hhalf, hfeatures⟩, hpayload⟩ := hchecked
  exact ⟨not_alwaysAgrees hboth hhalf trivial, not_alwaysAgrees hboth hhalf ⟨hfeatures, hpayload⟩,
    not_alwaysAgrees hother hdiffers rfl⟩

end Demo

end SignalCoach
