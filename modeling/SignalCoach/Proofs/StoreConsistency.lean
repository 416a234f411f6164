import Mathlib.Data.List.Basic
import SignalCoach.Proofs.StoreGrowth

/-! What jobs leave in a store fits together: every evaluation has its advice, its snapshot and its
tag, and a session is in the state that its last completed job derived. -/
namespace SignalCoach

theorem Assessment.status_of_unsatisfied {tag : Tag} {context : Feature.Context}
    {defaults : Thresholds} {r : TagResult} (h : ofTag tag context defaults = .ok (some r))
    (hsatisfied : r.satisfied = false) : r.status = .red := by
  unfold ofTag at h
  split at h
  next rule _ =>
    obtain ⟨_, hrule, hr⟩ := Program.except_map_eq_ok.1 h
    cases hr
    obtain ⟨satisfied, -, hrule⟩ := Program.except_bind_eq_ok.1 hrule
    obtain ⟨score, -, hrule⟩ := Program.except_bind_eq_ok.1 hrule
    cases hrule
    obtain rfl : satisfied = false := hsatisfied
    simp [classify]
  next => cases h

namespace Store

def ruleSetOf? (store : Store) (sessionId : String) : Option RuleSet :=
  (store.session? sessionId).bind (·.ruleSet)

def severity? (store : Store) (e : Evaluation) : Option Severity :=
  (store.ruleSetOf? e.sessionId).bind fun set =>
    (set.tags.find? (·.id = e.tagId)).map (·.severity)

def standing? (store : Store) (sessionId : String) : Option (SessionState × Option Timestamp) :=
  (store.session? sessionId).map fun session => (session.state, session.lastEvaluatedAt)

def evaluationsOf (store : Store) (ids : List String) : List Evaluation :=
  store.evaluations.filter (·.id ∈ ids)

def verdict? (store : Store) (e : Evaluation) : Option (Severity × Status) :=
  (store.severity? e).map fun severity => (severity, e.status)

/-- An advice belongs to an evaluation, and all that the evaluation refers to is there. -/
structure Backed (store : Store) (e : Evaluation) (a : AdviceRecord) : Prop where
  linked : a.evaluationId = e.id
  snapshot : ∃ snapshot, store.snapshot? e.snapshotId = some snapshot ∧
    snapshot.sessionId = e.sessionId
  advised : ∃ severity, store.severity? e = some severity ∧ a.state = .suggested severity e.status
  context : ∃ satisfied,
    e.context = Fields.ofList [("satisfied", .bool satisfied), ("score", .double e.score)] ∧
      (satisfied = false → e.status = .red)

/-- A session is as the job with these evaluations left it. -/
def Settled (store : Store) (sessionId : String) (ids : List String) : Prop :=
  ids ≠ [] ∧ (store.evaluationsOf ids).map (·.id) = ids ∧
    ∃ time, (∀ e ∈ store.evaluationsOf ids, e.sessionId = sessionId ∧ e.createdAt = time) ∧
      store.standing? sessionId =
        some (.derive ((store.evaluationsOf ids).filterMap store.verdict?), some time)

theorem ruleSetOf?_eq (store : Store) (sessionId : String) :
    store.ruleSetOf? sessionId =
      ((store.sessions.find? (·.id = sessionId)).bind (·.ruleSetId)).bind fun id =>
        store.ruleSets.find? (·.id = id) := by
  unfold ruleSetOf? session?
  cases store.sessions.find? (·.id = sessionId) <;> rfl

theorem standing?_eq (store : Store) (sessionId : String) :
    store.standing? sessionId =
      (store.sessions.find? (·.id = sessionId)).map fun session =>
        (session.state, session.lastEvaluatedAt) := by
  unfold standing? session?
  cases store.sessions.find? (·.id = sessionId) <;> rfl

structure Keeps (before after : Store) : Prop where
  snapshot : ∀ {id snapshot}, before.snapshot? id = some snapshot →
    after.snapshot? id = some snapshot
  ruleSet : ∀ {sessionId set}, before.ruleSetOf? sessionId = some set →
    after.ruleSetOf? sessionId = some set

section

variable {before after : Store} (hkeeps : Keeps before after)
include hkeeps

theorem Keeps.severity {e : Evaluation} {severity : Severity}
    (h : before.severity? e = some severity) : after.severity? e = some severity := by
  obtain ⟨set, hset, htag⟩ := Option.bind_eq_some_iff.1 h
  exact Option.bind_eq_some_iff.2 ⟨set, hkeeps.ruleSet hset, htag⟩

theorem Backed.keep {e : Evaluation} {a : AdviceRecord} (h : before.Backed e a) :
    after.Backed e a := by
  obtain ⟨snapshot, hsnapshot, hsession⟩ := h.snapshot
  obtain ⟨severity, hseverity, hstate⟩ := h.advised
  exact { linked := h.linked
          snapshot := ⟨snapshot, hkeeps.snapshot hsnapshot, hsession⟩
          advised := ⟨severity, hkeeps.severity hseverity, hstate⟩
          context := h.context }

theorem Settled.keep {sessionId : String} {ids : List String}
    (hseverity : ∀ e ∈ before.evaluations, ∃ severity, before.severity? e = some severity)
    (hevaluations : after.evaluationsOf ids = before.evaluationsOf ids)
    (hstanding : ∀ {standing}, before.standing? sessionId = some standing →
      after.standing? sessionId = some standing)
    (h : before.Settled sessionId ids) : after.Settled sessionId ids := by
  obtain ⟨hids, hmap, time, hbatch, hstate⟩ := h
  have hverdicts : (before.evaluationsOf ids).filterMap after.verdict? =
      (before.evaluationsOf ids).filterMap before.verdict? := by
    refine List.filterMap_congr fun e he => ?_
    obtain ⟨severity, hbefore⟩ := hseverity e (List.mem_filter.1 he).1
    unfold verdict?
    rw [hbefore, hkeeps.severity hbefore]
  refine ⟨hids, ?_, time, ?_, ?_⟩
  · rw [hevaluations, hmap]
  · rw [hevaluations]
    exact hbatch
  · rw [hevaluations, hverdicts]
    exact hstanding hstate

end

section

variable {store store' : Store}

theorem createRuleSet_eq_ok {set set' : RuleSet} (h : store.createRuleSet set = .ok (set', store')) :
    set' = store.versioned set ∧ (set'.tags.map (·.id)).Nodup ∧
      store' = { store with ruleSets := store.ruleSets ++ [storedRuleSet set'] } := by
  unfold createRuleSet at h
  simp only at h
  split at h
  · cases h
  next hnew =>
    cases h
    simp only [not_or, Decidable.not_not] at hnew
    exact ⟨rfl, hnew.2.1, rfl⟩

theorem createSession_eq_ok {session : Session} (h : store.createSession session = .ok store') :
    store' = { store with sessions := store.sessions ++ [{ session with ruleSet := none }] } := by
  unfold createSession at h
  split at h
  · cases h
  · split at h
    · cases h
    · cases h
      rfl

theorem saveSnapshot_eq_ok {snapshot : Snapshot} (h : store.saveSnapshot snapshot = .ok store') :
    (∀ other ∈ store.snapshots, other.id ≠ snapshot.id) ∧
      store' = { store with
        snapshots := store.snapshots ++ [{ snapshot with
          features := snapshot.features.stored, payload := snapshot.payload.stored }] } := by
  unfold saveSnapshot at h
  split at h
  · cases h
  next hnew =>
    cases h
    exact ⟨by simpa using hnew, rfl⟩

theorem keeps_addRuleSet (store : Store) (set : RuleSet) :
    Keeps store { store with ruleSets := store.ruleSets ++ [set] } where
  snapshot h := h
  ruleSet h := by
    rw [ruleSetOf?_eq] at h ⊢
    obtain ⟨id, hid, hset⟩ := Option.bind_eq_some_iff.1 h
    refine Option.bind_eq_some_iff.2 ⟨id, hid, ?_⟩
    rw [List.find?_append, hset, Option.some_or]

theorem keeps_addSession (store : Store) (session : Session) :
    Keeps store { store with sessions := store.sessions ++ [session] } where
  snapshot h := h
  ruleSet h := by
    rw [ruleSetOf?_eq] at h ⊢
    obtain ⟨id, hid, hset⟩ := Option.bind_eq_some_iff.1 h
    obtain ⟨found, hfound, hruleSet⟩ := Option.bind_eq_some_iff.1 hid
    refine Option.bind_eq_some_iff.2 ⟨id, Option.bind_eq_some_iff.2 ⟨found, ?_, hruleSet⟩, hset⟩
    rw [List.find?_append, hfound, Option.some_or]

theorem keeps_addSnapshot (store : Store) (snapshot : Snapshot) :
    Keeps store { store with snapshots := store.snapshots ++ [snapshot] } where
  snapshot h := by
    unfold snapshot? at h ⊢
    rw [List.find?_append, h, Option.some_or]
  ruleSet h := h

end

theorem keeps_updateSession (store : Store) (id : String) (state : SessionState)
    (now : Timestamp) : Keeps store (store.updateSession id state now) where
  snapshot h := h
  ruleSet {sessionId set} h := by
    rw [ruleSetOf?_eq] at h ⊢
    obtain ⟨ruleSetId, hbound, hset⟩ := Option.bind_eq_some_iff.1 h
    obtain ⟨session, hfound, hruleSet⟩ := Option.bind_eq_some_iff.1 hbound
    rw [find?_updateSession, hfound]
    refine Option.bind_eq_some_iff.2 ⟨ruleSetId, ?_, hset⟩
    simp only [Option.map_some, Option.bind_some]
    split <;> exact hruleSet

theorem standing?_updateSession_of_ne (store : Store) {id sessionId : String}
    (hne : sessionId ≠ id) (state : SessionState) (now : Timestamp) :
    (store.updateSession id state now).standing? sessionId = store.standing? sessionId := by
  rw [standing?_eq, standing?_eq, find?_updateSession, Option.map_map]
  cases hfind : store.sessions.find? (·.id = sessionId) with
  | none => rfl
  | some session =>
    have hid : session.id = sessionId := by simpa using List.find?_some hfind
    simp [hid, hne]

end Store

end SignalCoach
