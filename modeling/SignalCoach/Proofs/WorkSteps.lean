import SignalCoach.Proofs.JobCommit

/-! What every step of a job's work keeps, the whole job keeps. -/
namespace SignalCoach

namespace Work

variable {σ α β : Type}

/-- Work leads from a desk to a related one, however it ends. -/
def Within (R : Desk σ → Desk σ → Prop) (work : Work σ α) : Prop :=
  ∀ desk, match work desk with
    | .ok _ desk' | .error _ desk' => R desk desk'

/-- A relation that holds along every step at a desk, and also when the store is put back. -/
structure Steps (gateway : Gateway σ) (R : Desk σ → Desk σ → Prop) : Prop where
  refl : ∀ desk, R desk desk
  trans : ∀ {first second third}, R first second → R second third → R first third
  draw : ∀ desk, R desk { desk with ids := desk.ids.draw.2 }
  write : ∀ {w desk store}, gateway.apply w desk.store = .ok store →
    ∀ allowance, R desk { desk with store, allowance }
  restore : ∀ {desk desk'}, R desk desk' → R desk { desk' with store := desk.store }

namespace Steps

variable {gateway : Gateway σ} {R : Desk σ → Desk σ → Prop} (steps : Steps gateway R)
include steps

theorem pure (a : α) : Within R (Pure.pure a : Work σ α) := fun desk => steps.refl desk

theorem get : Within R (MonadState.get : Work σ (Desk σ)) := fun desk => steps.refl desk

theorem bind {work : Work σ α} {next : α → Work σ β} (hwork : work.Within R)
    (hnext : ∀ a, (next a).Within R) : (work >>= next).Within R := by
  intro desk
  have hfirst := hwork desk
  rw [Program.bind_apply]
  cases hrun : work desk with
  | error failure desk₁ =>
    rw [hrun] at hfirst
    exact hfirst
  | ok a desk₁ =>
    rw [hrun] at hfirst
    have hsecond := hnext a desk₁
    simp only
    cases hrest : next a desk₁ with
    | ok b desk₂ =>
      rw [hrest] at hsecond
      exact steps.trans hfirst hsecond
    | error failure desk₂ =>
      rw [hrest] at hsecond
      exact steps.trans hfirst hsecond

theorem mapM {work : α → Work σ β} (hwork : ∀ a, (work a).Within R) (l : List α) :
    (l.mapM work).Within R := by
  induction l with
  | nil => exact steps.pure []
  | cons a rest ih =>
    rw [List.mapM_cons]
    exact steps.bind (hwork a) fun b => steps.bind ih fun bs => steps.pure (b :: bs)

theorem freshId : Within R (Work.freshId : Work σ String) := fun desk => steps.draw desk

theorem writes (w : Write) : (Work.write gateway w).Within R := by
  intro desk
  unfold Work.write
  split
  next b desk' hrun =>
    split at hrun
    · cases hrun
    · split at hrun
      next store happly =>
        cases hrun
        exact steps.write happly _
      next => cases hrun
  next failure desk' hrun =>
    split at hrun
    · cases hrun
      exact steps.refl desk
    · split at hrun
      · cases hrun
      · cases hrun
        exact steps.refl desk

theorem commit : Within R (Work.commit : Work σ Unit) := by
  intro desk
  unfold Work.commit
  cases desk.refusal <;> exact steps.refl desk

theorem transaction {work : Work σ α} (hwork : work.Within R) :
    (Work.transaction work).Within R := by
  intro desk
  have hall : (work <* Work.commit).Within R := by
    rw [seqLeft_eq_bind]
    exact steps.bind hwork fun a => steps.bind steps.commit fun _ => steps.pure a
  have hdesk := hall desk
  unfold Work.transaction
  cases hrun : (work <* Work.commit) desk with
  | ok a desk' =>
    rw [hrun] at hdesk
    exact hdesk
  | error failure desk' =>
    rw [hrun] at hdesk
    exact steps.restore hdesk

variable (session : Session) (snapshot : Snapshot) (now : Timestamp)

theorem record (jobId : Option String) (state : SessionState) (results : List TagResult) :
    (Job.record gateway session snapshot jobId now state results).Within R := by
  have hresult (r : TagResult) :
      (Job.recordResult gateway session snapshot jobId now r).Within R :=
    steps.bind steps.freshId fun id => steps.bind (steps.writes _) fun _ =>
      steps.bind steps.freshId fun _ => steps.bind (steps.writes _) fun _ => steps.pure id
  refine steps.transaction ?_
  exact steps.bind (steps.mapM hresult results) fun ids =>
    steps.bind (steps.writes _) fun _ => steps.pure ids

theorem settle (job : Job) (results : List TagResult) :
    (Job.settle gateway session snapshot job now results).Within R := by
  refine steps.bind steps.get fun desk => ?_
  split
  · exact steps.pure _
  · split
    · exact steps.pure _
    · exact steps.bind (steps.record session snapshot now job.jobId _ results) fun _ => steps.pure _

theorem handle (defaults : Thresholds) (job : Job) :
    (Job.handle gateway defaults now job).Within R := by
  intro desk
  rcases Job.handle_cases gateway defaults now job desk with
    ⟨result, -, hend⟩ | ⟨_, hend⟩ | ⟨session, ruleSet, snapshot, results, -, -, -, -, hend⟩
  · simp only [hend]
    exact steps.refl desk
  · simp only [hend]
    exact steps.refl desk
  · rw [hend]
    exact steps.settle session snapshot now job results desk

end Steps

end Work

end SignalCoach
