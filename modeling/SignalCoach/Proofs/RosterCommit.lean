import SignalCoach.Proofs.WorkSteps
import SignalCoach.Worker.Roster

/-! What carrying out a job does to the evaluations that a process holds. -/
namespace SignalCoach

namespace Work

variable {σ α : Type}

def Draws (work : Work σ α) : Prop :=
  ∀ desk, match work desk with
    | .ok _ desk' | .error _ desk' => desk.ids.next ≤ desk'.ids.next

theorem steps_ids (gateway : Gateway σ) :
    Steps gateway fun desk desk' => desk.ids.next ≤ desk'.ids.next where
  refl _ := Nat.le_refl _
  trans := Nat.le_trans
  draw _ := Nat.le_succ _
  write _ _ := Nat.le_refl _
  restore h := h

end Work

namespace Job

theorem draws_handle {σ : Type} (gateway : Gateway σ) (defaults : Thresholds) (now : Timestamp)
    (job : Job) : (handle gateway defaults now job).Draws :=
  (Work.steps_ids gateway).handle now defaults job

section

variable {session : Session} {snapshot : Snapshot} {jobId : Option String} {now : Timestamp}
variable {desk desk' : Desk Roster}

theorem roster_recordResult_eq_ok {r : TagResult} {id : String}
    (h : recordResult Roster.gateway session snapshot jobId now r desk = .ok id desk') :
    desk'.store.evaluations =
      desk.store.evaluations ++ [evaluationOf session snapshot jobId now id r] := by
  obtain ⟨id', desk₁, hid, h⟩ := Program.bind_eq_ok.1 h
  obtain ⟨_, desk₂, hevaluation, h⟩ := Program.bind_eq_ok.1 h
  obtain ⟨adviceId, desk₃, hadviceId, h⟩ := Program.bind_eq_ok.1 h
  obtain ⟨_, desk₄, hadvice, h⟩ := Program.bind_eq_ok.1 h
  obtain ⟨rfl, rfl⟩ := Program.pure_eq_ok.1 h
  have hfirst := Except.ok.inj (Work.write_eq_ok hevaluation)
  have hsecond := Except.ok.inj (Work.write_eq_ok hadvice)
  rw [← hsecond, Work.freshId_eq_ok hadviceId, ← hfirst, Work.freshId_eq_ok hid]
  rfl

theorem roster_recordResults_eq_ok {results : List TagResult} {ids : List String}
    (h : results.mapM (recordResult Roster.gateway session snapshot jobId now) desk =
      .ok ids desk') :
    ∃ batch : List Evaluation, batch.length = results.length ∧ (∀ e ∈ batch, e.jobId = jobId) ∧
      desk'.store.evaluations = desk.store.evaluations ++ batch := by
  induction results generalizing desk ids with
  | nil =>
    rw [List.mapM_nil] at h
    obtain ⟨rfl, rfl⟩ := Program.pure_eq_ok.1 h
    exact ⟨[], rfl, by simp, by simp⟩
  | cons r rest ih =>
    rw [List.mapM_cons] at h
    obtain ⟨id, desk₁, hfirst, h⟩ := Program.bind_eq_ok.1 h
    obtain ⟨ids, desk₂, hrest, h⟩ := Program.bind_eq_ok.1 h
    obtain ⟨rfl, rfl⟩ := Program.pure_eq_ok.1 h
    obtain ⟨batch, hlength, hjob, hbatch⟩ := ih hrest
    refine ⟨evaluationOf session snapshot jobId now id r :: batch, by simp [hlength],
      List.forall_mem_cons.2 ⟨rfl, hjob⟩, ?_⟩
    rw [hbatch, roster_recordResult_eq_ok hfirst, List.append_assoc, List.singleton_append]

theorem roster_record_eq_ok {state : SessionState} {results : List TagResult} {ids : List String}
    (h : record Roster.gateway session snapshot jobId now state results desk = .ok ids desk') :
    ∃ batch : List Evaluation, batch.length = results.length ∧ (∀ e ∈ batch, e.jobId = jobId) ∧
      desk'.store.evaluations = desk.store.evaluations ++ batch := by
  obtain ⟨ids, desk₁, hresults, h⟩ := Program.bind_eq_ok.1 (Work.transaction_eq_ok h)
  obtain ⟨_, desk₂, hsession, h⟩ := Program.bind_eq_ok.1 h
  obtain ⟨rfl, rfl⟩ := Program.pure_eq_ok.1 h
  obtain ⟨batch, hlength, hjob, hbatch⟩ := roster_recordResults_eq_ok hresults
  refine ⟨batch, hlength, hjob, ?_⟩
  rw [← hbatch, ← Except.ok.inj (Work.write_eq_ok hsession)]
  rfl

theorem roster_recordResult_completes (r : TagResult) (roster : Roster) (ids : IdSupply) :
    ∃ id evaluations ids',
      recordResult Roster.gateway session snapshot jobId now r { store := roster, ids } =
        .ok id { store := { roster with evaluations }, ids := ids' } :=
  ⟨_, _, _, rfl⟩

theorem roster_recordResults_completes (session : Session) (snapshot : Snapshot)
    (jobId : Option String) (now : Timestamp) (results : List TagResult) (roster : Roster)
    (ids : IdSupply) :
    ∃ written evaluations ids',
      results.mapM (recordResult Roster.gateway session snapshot jobId now) { store := roster, ids } =
        .ok written { store := { roster with evaluations }, ids := ids' } := by
  induction results generalizing roster ids with
  | nil => exact ⟨[], roster.evaluations, ids, rfl⟩
  | cons r rest ih =>
    obtain ⟨id, evaluations, ids₁, hfirst⟩ := roster_recordResult_completes r roster ids
    obtain ⟨written, evaluations, ids₂, hrest⟩ := ih { roster with evaluations } ids₁
    refine ⟨id :: written, evaluations, ids₂, ?_⟩
    rw [List.mapM_cons, Program.bind_apply, hfirst]
    simp only
    rw [Program.bind_apply, hrest]
    rfl

theorem roster_settle_completes (session : Session) (snapshot : Snapshot) {job : Job}
    (now : Timestamp) {results : List TagResult} (hne : results ≠ []) {roster : Roster}
    (hduplicate : job.isDuplicate Roster.gateway roster = false) (ids : IdSupply) :
    ∃ result evaluations ids',
      settle Roster.gateway session snapshot job now results { store := roster, ids } =
        .ok result
          { store := Roster.apply { roster with evaluations }
              (.session session.id (Assessment.sessionState results) now),
            ids := ids' } ∧
      result.outcome = .completed := by
  obtain ⟨written, evaluations, ids', hresults⟩ :=
    roster_recordResults_completes session snapshot job.jobId now results roster ids
  have hrecord : record Roster.gateway session snapshot job.jobId now
      (Assessment.sessionState results) results { store := roster, ids } =
        .ok written
          { store := Roster.apply { roster with evaluations }
              (.session session.id (Assessment.sessionState results) now),
            ids := ids' } := by
    unfold record Work.transaction
    rw [seqLeft_eq_bind, Program.bind_apply, Program.bind_apply, hresults]
    rfl
  refine ⟨{ outcome := .completed, state := some (Assessment.sessionState results), results,
            evaluationIds := written }, evaluations, ids', ?_, rfl⟩
  unfold settle
  rw [Program.bind_apply]
  change (if results.isEmpty then _ else if job.isDuplicate Roster.gateway roster then _ else _ :
    Work Roster JobResult) { store := roster, ids } = _
  rw [if_neg (by simpa using hne), hduplicate, if_neg (by simp), Program.bind_apply, hrecord]
  rfl
/-- Evaluations are added by a completed job only, for its job id, and only if there were none. -/
theorem roster_handle_eq_ok {defaults : Thresholds} {job : Job} {result : JobResult}
    (h : handle Roster.gateway defaults now job desk = .ok result desk') :
    (result.outcome ≠ .completed ∧ desk'.store = desk.store) ∨
      result.outcome = .completed ∧ job.isDuplicate Roster.gateway desk.store = false ∧
      ∃ batch : List Evaluation, batch ≠ [] ∧ (∀ e ∈ batch, e.jobId = job.jobId) ∧
        desk'.store.evaluations = desk.store.evaluations ++ batch := by
  rcases handle_cases Roster.gateway defaults now job desk with
    ⟨result', ⟨houtcome, -⟩, hend⟩ | ⟨_, hend⟩ | ⟨session, ruleSet, snapshot, results, -, -, -, -, hend⟩
  · rw [hend] at h
    cases h
    exact .inl ⟨houtcome, rfl⟩
  · rw [hend] at h
    cases h
  · rw [hend] at h
    rcases settle_eq_ok h with ⟨⟨houtcome, -⟩, rfl⟩ | ⟨hne, hduplicate, ids, hrecord, rfl⟩
    · exact .inl ⟨houtcome, rfl⟩
    · obtain ⟨batch, hlength, hjob, hbatch⟩ := roster_record_eq_ok hrecord
      refine .inr ⟨rfl, hduplicate, batch, ?_, hjob, hbatch⟩
      exact List.ne_nil_of_length_pos (hlength ▸ List.length_pos_iff.2 hne)

end

end Job

end SignalCoach
