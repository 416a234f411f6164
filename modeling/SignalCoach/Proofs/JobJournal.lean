import SignalCoach.Proofs.EvaluationPages
import SignalCoach.Proofs.Ledger

/-! Jobs with an id are committed once. Calls of the handler come one after the other on one store,
with any failures, and whatever else is done to the store comes between them. -/
namespace SignalCoach

namespace Store

def carrying (store : Store) (jobId : String) : List Evaluation :=
  store.evaluations.filter (·.jobId = some jobId)

theorem hasEvaluations_eq_false_iff {store : Store} {jobId : String} :
    store.hasEvaluations jobId = false ↔ store.carrying jobId = [] := by
  simp [hasEvaluations, carrying]

theorem addEvaluation_extends {store store' : Store} {e : Evaluation}
    (h : store.addEvaluation e = .ok store') : store.evaluations <+: store'.evaluations := by
  unfold addEvaluation at h
  split at h
  · cases h
  · cases h
    exact List.prefix_append _ _

theorem steps_extend :
    Work.Steps gateway fun desk desk' => desk.store.evaluations <+: desk'.store.evaluations where
  refl _ := List.prefix_rfl
  trans := List.IsPrefix.trans
  draw _ := List.prefix_rfl
  write {w desk store} h _ := by
    cases w with
    | evaluation e => exact addEvaluation_extends h
    | advice a =>
      obtain rfl := addAdvice_eq_ok h
      exact List.prefix_rfl
    | session id state evaluatedAt =>
      cases h
      exact List.prefix_rfl
  restore _ := List.prefix_rfl

theorem afterWrites_extends (store : Store) (writes : List Write) :
    store.evaluations <+: (store.afterWrites writes).evaluations := by
  have hwithin := steps_extend.transaction (steps_extend.mapM steps_extend.writes writes) { store }
  unfold afterWrites
  split
  next hrun =>
    rw [hrun] at hwithin
    exact hwithin
  next hrun =>
    rw [hrun] at hwithin
    exact hwithin

end Store

namespace Job

section

variable {σ : Type} {gateway : Gateway σ} {defaults : Thresholds} {now : Timestamp} {job : Job}
variable {desk desk' : Desk σ} {result : JobResult}

theorem handle_answer (h : handle gateway defaults now job desk = .ok result desk') :
    (result.outcome ≠ .completed ∧ result.state = none) ∨
      (result.outcome = .completed ∧ job.isDuplicate gateway desk.store = false) := by
  rcases handle_cases gateway defaults now job desk with
    ⟨result', hnot, hend⟩ | ⟨_, hend⟩ | ⟨session, ruleSet, snapshot, results, -, -, -, -, hend⟩
  · rw [hend] at h
    cases h
    exact .inl hnot
  · rw [hend] at h
    cases h
  · rw [hend] at h
    rcases settle_eq_ok h with ⟨hnot, -⟩ | ⟨-, hduplicate, ids, -, rfl⟩
    · exact .inl hnot
    · exact .inr ⟨rfl, hduplicate⟩

end

namespace Commit

variable {defaults : Thresholds} {job : Job} {before : Store} (c : Commit defaults job before)

theorem carrying_after (now : Timestamp) {jobId : String} (hjob : job.jobId = some jobId) :
    (c.after now).carrying jobId = before.carrying jobId ++ c.evaluations now := by
  have hown : (c.evaluations now).filter (·.jobId = some jobId) = c.evaluations now := by
    simp [evaluations, evaluationOf, hjob]
  unfold Store.carrying
  rw [show (c.after now).evaluations = before.evaluations ++ c.evaluations now from rfl,
    List.filter_append, hown]

theorem carrying_after_other (now : Timestamp) {jobId : String} (hjob : job.jobId ≠ some jobId) :
    (c.after now).carrying jobId = before.carrying jobId := by
  have hnone : (c.evaluations now).filter (·.jobId = some jobId) = [] := by
    simp [evaluations, evaluationOf, hjob]
  unfold Store.carrying
  rw [show (c.after now).evaluations = before.evaluations ++ c.evaluations now from rfl,
    List.filter_append, hnone, List.append_nil]

end Commit

end Job

structure Call where
  attempt : Ledger.Attempt
  before : Store

namespace Call

variable (call : Call)

def after : Store :=
  match call.attempt.run call.before with
  | .ok _ desk | .error _ desk => desk.store

def result? : Option JobResult :=
  match call.attempt.run call.before with
  | .ok result _ => some result
  | .error _ _ => none

def completes : Bool := call.result?.any (·.outcome = .completed)

def isFor (jobId : String) : Bool := call.attempt.job.jobId = some jobId

/-- Nothing comes of the call: the store stays as it is, and a result is neither that of a completed
job nor one with a state for the session. -/
def Idle : Prop :=
  call.after = call.before ∧
    ∀ result, call.result? = some result → result.outcome ≠ .completed ∧ result.state = none

/-- A call is idle, or commits a job whose id had no evaluations. -/
theorem idle_or_commits : (call.completes = false ∧ call.Idle) ∨
    (call.completes = true ∧ call.attempt.job.isDuplicate Store.gateway call.before = false ∧
      ∃ c : call.attempt.job.Commit call.attempt.defaults call.before,
        call.result? = some c.result ∧ call.after = c.after call.attempt.now ∧ c.batch ≠ []) := by
  unfold Idle completes after result?
  cases hrun : call.attempt.run call.before with
  | error failure desk => exact .inl ⟨rfl, Job.handle_eq_error hrun, by simp⟩
  | ok result desk =>
    rcases Job.handle_answer hrun with ⟨houtcome, hstate⟩ | ⟨houtcome, hduplicate⟩
    · refine .inl ⟨by simpa using houtcome, ?_, by simp [houtcome, hstate]⟩
      rcases Job.handle_eq_ok hrun with ⟨-, hstore⟩ | ⟨c, rfl, -⟩
      · exact hstore
      · exact absurd rfl houtcome
    · refine .inr ⟨by simpa using houtcome, hduplicate, ?_⟩
      rcases Job.handle_eq_ok hrun with ⟨hother, -⟩ | ⟨c, rfl, hstore⟩
      · exact absurd houtcome hother
      · exact ⟨c, rfl, hstore, fun hnil =>
          Job.results_ne_nil hrun rfl (by simp [Job.Commit.result, hnil])⟩

theorem carrying_after_other {jobId : String} (hother : call.isFor jobId = false) :
    call.after.carrying jobId = call.before.carrying jobId := by
  rcases call.idle_or_commits with ⟨-, hidle⟩ | ⟨-, -, c, -, hafter, -⟩
  · rw [hidle.1]
  · rw [hafter]
    exact c.carrying_after_other _ (by simpa [isFor] using hother)

end Call

/-- A store, with the calls of the handler that were made on it, the first one first. -/
structure Journal where
  store : Store
  calls : List Call := []
  /-- The evaluations that others wrote. -/
  foreign : List Evaluation := []

namespace Journal

/-- What is done on a store: a record is created, a job is handled, or others write. -/
inductive Event where
  | ledger (event : Ledger.Event)
  | transaction (writes : List Write)

def perform (journal : Journal) : Event → Journal
  | .ledger (.job attempt) =>
    let call : Call := { attempt, before := journal.store }
    { journal with store := call.after, calls := journal.calls ++ [call] }
  | .ledger event => { journal with store := (Ledger.perform { store := journal.store } event).store }
  | .transaction writes =>
    let store := journal.store.afterWrites writes
    { journal with
      store
      foreign := journal.foreign ++ store.evaluations.drop journal.store.evaluations.length }

def run (start : Store) (events : List Event) : Journal := events.foldl perform { store := start }

def callsFor (journal : Journal) (jobId : String) : List Call :=
  journal.calls.filter (·.isFor jobId)

def foreignFor (journal : Journal) (jobId : String) : List Evaluation :=
  journal.foreign.filter (·.jobId = some jobId)

/-- One call for a job at most is completed, and every call after it is idle. Before it no evaluation
carries the id of the job; after it one evaluation for each of its results does, and what others
wrote under this id. -/
structure CommittedOnce (start : Store) (jobId : String) (journal : Journal) : Prop where
  once : (journal.callsFor jobId).countP (·.completes) ≤ 1
  /-- A call that fails, or is not completed, writes nothing. -/
  idle : ∀ call ∈ journal.callsFor jobId, call.completes = false → call.Idle
  later : (journal.callsFor jobId).Pairwise fun call other => call.completes = true → other.Idle
  committed : ∀ call ∈ journal.callsFor jobId, call.completes = true →
    call.before.carrying jobId = [] ∧
      ∃ c : call.attempt.job.Commit call.attempt.defaults call.before,
        call.result? = some c.result ∧ c.batch ≠ [] ∧
          journal.store.carrying jobId =
            c.evaluations call.attempt.now ++ journal.foreignFor jobId
  never : (∀ call ∈ journal.callsFor jobId, call.completes = false) →
    journal.store.carrying jobId = start.carrying jobId ++ journal.foreignFor jobId

namespace CommittedOnce

variable {start : Store} {jobId : String} {journal journal' : Journal}

theorem start_committedOnce (start : Store) (jobId : String) :
    CommittedOnce start jobId { store := start } where
  once := by simp [callsFor]
  idle := by simp [callsFor]
  later := by simp [callsFor]
  committed := by simp [callsFor]
  never _ := by simp [foreignFor]

section

variable (h : journal.CommittedOnce start jobId)
include h

theorem gain {extra : List Evaluation} (hcalls : journal'.callsFor jobId = journal.callsFor jobId)
    (hstore : journal'.store.carrying jobId = journal.store.carrying jobId ++ extra)
    (hforeign : journal'.foreignFor jobId = journal.foreignFor jobId ++ extra) :
    journal'.CommittedOnce start jobId where
  once := hcalls ▸ h.once
  idle := hcalls ▸ h.idle
  later := hcalls ▸ h.later
  committed call hcall hcompletes := by
    rw [hcalls] at hcall
    obtain ⟨hbefore, c, hresult, hbatch, hcarrying⟩ := h.committed call hcall hcompletes
    refine ⟨hbefore, c, hresult, hbatch, ?_⟩
    rw [hstore, hforeign, hcarrying, List.append_assoc]
  never hnone := by
    rw [hstore, hforeign, h.never (hcalls ▸ hnone), List.append_assoc]

theorem none_completes (hnone : journal.store.carrying jobId = []) :
    ∀ call ∈ journal.callsFor jobId, call.completes = false := by
  intro call hcall
  by_contra hcompletes
  rw [Bool.not_eq_false] at hcompletes
  obtain ⟨-, c, -, hbatch, hcarrying⟩ := h.committed call hcall hcompletes
  rw [hcarrying, List.append_eq_nil_iff] at hnone
  exact hbatch (List.map_eq_nil_iff.1 hnone.1)

theorem call_idle {call : Call} (hcalls : journal'.callsFor jobId = journal.callsFor jobId ++ [call])
    (hbefore : call.before = journal.store) (hstore : journal'.store = call.after)
    (hforeign : journal'.foreignFor jobId = journal.foreignFor jobId)
    (hcompletes : call.completes = false) (hidle : call.Idle) :
    journal'.CommittedOnce start jobId := by
  have hsame : journal'.store = journal.store := by rw [hstore, hidle.1, hbefore]
  have hmem {other : Call} (hother : other ∈ journal'.callsFor jobId) :
      other ∈ journal.callsFor jobId ∨ other = call := by
    simpa [hcalls] using hother
  constructor
  case once => simpa [hcalls, hcompletes] using h.once
  case idle =>
    intro other hother hnot
    rcases hmem hother with hold | rfl
    · exact h.idle other hold hnot
    · exact hidle
  case later =>
    rw [hcalls, List.pairwise_append]
    exact ⟨h.later, List.pairwise_singleton _ _, fun _ _ other hother _ =>
      List.mem_singleton.1 hother ▸ hidle⟩
  case committed =>
    intro other hother hdone
    rcases hmem hother with hold | rfl
    · rw [hsame, hforeign]
      exact h.committed other hold hdone
    · rw [hcompletes] at hdone
      cases hdone
  case never =>
    intro hnone
    rw [hsame, hforeign]
    exact h.never fun other hother => hnone other (by simp [hcalls, hother])

theorem call_commits {call : Call}
    (hcalls : journal'.callsFor jobId = journal.callsFor jobId ++ [call])
    (hbefore : call.before = journal.store) (hstore : journal'.store = call.after)
    (hforeign : journal'.foreignFor jobId = journal.foreignFor jobId)
    (hjob : call.attempt.job.jobId = some jobId) (hnone : journal.store.carrying jobId = [])
    (hcompletes : call.completes = true)
    (c : call.attempt.job.Commit call.attempt.defaults call.before)
    (hresult : call.result? = some c.result) (hafter : call.after = c.after call.attempt.now)
    (hbatch : c.batch ≠ []) : journal'.CommittedOnce start jobId := by
  have hearlier := h.none_completes hnone
  have hclean : journal.foreignFor jobId = [] := by
    have hcarrying := h.never hearlier
    rw [hnone] at hcarrying
    exact (List.append_eq_nil_iff.1 hcarrying.symm).2
  have hmem {other : Call} (hother : other ∈ journal'.callsFor jobId) :
      other ∈ journal.callsFor jobId ∨ other = call := by
    simpa [hcalls] using hother
  constructor
  case once =>
    have hzero : (journal.callsFor jobId).countP (·.completes) = 0 :=
      List.countP_eq_zero.2 fun other hother => by simp [hearlier other hother]
    simp [hcalls, hzero, hcompletes]
  case idle =>
    intro other hother hnot
    rcases hmem hother with hold | rfl
    · exact h.idle other hold hnot
    · rw [hcompletes] at hnot
      cases hnot
  case later =>
    rw [hcalls, List.pairwise_append]
    refine ⟨h.later, List.pairwise_singleton _ _, fun other hother _ _ hdone => ?_⟩
    rw [hearlier other hother] at hdone
    cases hdone
  case committed =>
    intro other hother hdone
    rcases hmem hother with hold | rfl
    · rw [hearlier other hold] at hdone
      cases hdone
    · have hempty : other.before.carrying jobId = [] := by rw [hbefore, hnone]
      refine ⟨hempty, c, hresult, hbatch, ?_⟩
      rw [hstore, hafter, c.carrying_after _ hjob, hempty, hforeign, hclean, List.append_nil,
        List.nil_append]
  case never =>
    intro hall
    have hnot := hall call (by simp [hcalls])
    rw [hcompletes] at hnot
    cases hnot

theorem created {store : Store} (hevaluations : store.evaluations = journal.store.evaluations) :
    CommittedOnce start jobId { journal with store } := by
  refine h.gain rfl ?_ (List.append_nil _).symm
  rw [List.append_nil]
  unfold Store.carrying
  rw [hevaluations]

theorem transaction (writes : List Write) :
    (journal.perform (.transaction writes)).CommittedOnce start jobId := by
  refine h.gain rfl ?_ (List.filter_append _ _)
  have hextends := List.prefix_iff_eq_append.1 (journal.store.afterWrites_extends writes)
  exact (congrArg (List.filter _) hextends.symm).trans (List.filter_append _ _)

theorem call (hid : jobId ≠ "") (attempt : Ledger.Attempt) :
    (journal.perform (.ledger (.job attempt))).CommittedOnce start jobId := by
  let call : Call := { attempt, before := journal.store }
  have hcalls : (journal.perform (.ledger (.job attempt))).callsFor jobId =
      journal.callsFor jobId ++ [call].filter (·.isFor jobId) :=
    List.filter_append _ _
  cases hfor : call.isFor jobId with
  | false =>
    have hnone : [call].filter (·.isFor jobId) = [] := by simp [hfor]
    rw [hnone, List.append_nil] at hcalls
    refine h.gain hcalls ?_ (List.append_nil _).symm
    rw [List.append_nil]
    exact call.carrying_after_other hfor
  | true =>
    have hown : [call].filter (·.isFor jobId) = [call] := by simp [hfor]
    rw [hown] at hcalls
    rcases call.idle_or_commits with ⟨hcompletes, hidle⟩ |
      ⟨hcompletes, hduplicate, c, hresult, hafter, hbatch⟩
    · exact h.call_idle hcalls rfl rfl rfl hcompletes hidle
    · have hjob : attempt.job.jobId = some jobId := by simpa [Call.isFor] using hfor
      have hnone : journal.store.carrying jobId = [] := by
        rw [← Store.hasEvaluations_eq_false_iff]
        have hnew : attempt.job.isDuplicate Store.gateway journal.store = false := hduplicate
        simpa [Job.isDuplicate, hjob, hid, Store.gateway] using hnew
      exact h.call_commits hcalls rfl rfl rfl hjob hnone hcompletes c hresult hafter hbatch

theorem perform (hid : jobId ≠ "") (event : Event) :
    (journal.perform event).CommittedOnce start jobId := by
  cases event with
  | transaction writes => exact h.transaction writes
  | ledger event =>
    cases event with
    | job attempt => exact h.call hid attempt
    | ruleSet set =>
      refine h.created ?_
      simp only [Ledger.perform]
      split
      next hcreated => rw [(Store.createRuleSet_eq_ok hcreated).2.2]
      next => rfl
    | session session =>
      refine h.created ?_
      simp only [Ledger.perform]
      split
      next hcreated => rw [Store.createSession_eq_ok hcreated]
      next => rfl
    | snapshot snapshot =>
      refine h.created ?_
      simp only [Ledger.perform]
      split
      next hsaved => rw [(Store.saveSnapshot_eq_ok hsaved).2]
      next => rfl

end

end CommittedOnce

/-- Whatever is done on a store, and in whatever state it was before, a job with an id is committed
once at most. -/
theorem run_committedOnce (start : Store) (events : List Event) {jobId : String} (hid : jobId ≠ "") :
    (run start events).CommittedOnce start jobId := by
  suffices hrun : ∀ {journal : Journal}, journal.CommittedOnce start jobId →
      (events.foldl perform journal).CommittedOnce start jobId from
    hrun (.start_committedOnce start jobId)
  induction events with
  | nil => exact id
  | cons event rest ih => exact fun h => ih (h.perform hid event)

def openRules : RuleSet where
  id := "rs-1"
  owner := none
  name := "Open"
  version := 1
  summary := none
  thresholds := .null
  tags := [{ id := "t-1", ruleSetId := none, key := "k", name := "N", severity := .entry
             category := none, description := none, rule := .object [("when", .obj [])] }]

def delivery (allowance : Option Nat) : Ledger.Attempt where
  job := { sessionId := "s-1", jobId := some "j-1" }
  defaults := .standard
  now := ⟨0⟩
  allowance

/-- The session is created, and its job is delivered until it is committed, and once more. -/
def redelivery : List Event :=
  [.ledger (.ruleSet openRules),
   .ledger (.session { id := "s-1", ruleSetId := some "rs-1", symbol := "ES", timeframeMinutes := 1
                       state := .scanning, startedAt := ⟨0⟩, lastEvaluatedAt := none
                       ruleSet := none }),
   .ledger (.job (delivery none)),
   .ledger (.snapshot { id := "sn-1", sessionId := "s-1", source := .snapshot, capturedAt := ⟨0⟩
                        features := .null, payload := .null }),
   .ledger (.job (delivery (some 1))),
   .ledger (.job (delivery none)),
   .ledger (.job (delivery none))]

theorem run_committedOnce_redelivery : "j-1" ≠ "" ∧
    ((run {} redelivery).callsFor "j-1").map (fun call => call.result?.map (·.outcome)) =
      [some .snapshotNotFound, none, some .completed, some .duplicate] ∧
    (run {} redelivery).CommittedOnce {} "j-1" := by
  have hid : "j-1" ≠ "" := by decide
  exact ⟨hid, by decide +kernel, run_committedOnce {} redelivery hid⟩

end Journal

end SignalCoach
