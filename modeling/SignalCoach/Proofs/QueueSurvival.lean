import SignalCoach.Proofs.QueueHistory

/-! Survival of jobs when commands are refused. An operation that stops between taking an entry out
and putting it back loses the job of that entry, and nothing else loses a job. -/
namespace SignalCoach.Queue

open SignalCoach.Queue.Action
open Envelope (writtenId?)

namespace History

/-- Every job that was enqueued and not removed as complete is somewhere in the queue. -/
def HoldsAll (h : History) : Prop :=
  ∀ id ∈ h.enqueued, id ∉ h.completed → id ∈ h.contents.ids

/-- Jobs are settled only through envelopes that the queue gave to somebody. -/
def Permits (h : History) : Step → Prop
  | .operate _ (.complete e) | .operate _ (.fail _ e _ _) => e ∈ h.given
  | _ => True

def stranded (h : History) : Step → Option Entry
  | .operate outage (.promoteDue now) => strandedDue now { h.broker with outage }
  | .operate outage (.reserve now) => strandedDue now { h.broker with outage }
  | .operate outage (.fail now e error retry) =>
    strandedByFailure now e error retry { h.broker with outage }
  | _ => none

/-- The entry that a step strands was the only one of a job that is not complete. -/
def Drops (h : History) (step : Step) : Prop :=
  ∃ entry id, h.stranded step = some entry ∧ writtenId? entry = some id ∧
    id ∈ h.enqueued ∧ id ∉ h.completed ∧ h.contents.ids.count id = 1

structure Tracked (h : History) : Prop where
  delayed : h.contents.DelayedOnce
  named : ∀ id ∈ h.enqueued, id ≠ ""
  given : ∀ e ∈ h.given, e.Tracks

theorem holdsAll_iff {h h' : History} {stranded : Option Entry} (hholds : h.HoldsAll)
    (henqueued : h'.enqueued = h.enqueued) (hcompleted : h'.completed = h.completed)
    (hids : (h'.contents.ids ++ stranded.toList.filterMap writtenId?).Perm h.contents.ids) :
    h'.HoldsAll ↔ ¬ ∃ entry id, stranded = some entry ∧ writtenId? entry = some id ∧
      id ∈ h.enqueued ∧ id ∉ h.completed ∧ h.contents.ids.count id = 1 := by
  unfold HoldsAll
  rw [henqueued, hcompleted]
  constructor
  · rintro hholds' ⟨entry, id, rfl, hid, hmem, hlive, hcount⟩
    have hheld := List.count_pos_iff.2 (hholds' id hmem hlive)
    have hsum := hids.count_eq id
    rw [List.count_append, hcount] at hsum
    simp [hid] at hsum
    omega
  · intro hkept id hmem hlive
    by_contra hgone
    have hsum := hids.count_eq id
    have hheld := List.count_pos_iff.2 (hholds id hmem hlive)
    rw [List.count_append, List.count_eq_zero_of_not_mem hgone, zero_add] at hsum
    cases stranded with
    | none =>
      simp at hsum
      omega
    | some entry =>
      cases hwritten : writtenId? entry with
      | none =>
        simp [hwritten] at hsum
        omega
      | some other =>
        simp only [Option.toList_some, List.filterMap_cons, hwritten, List.filterMap_nil,
          List.count_singleton] at hsum
        split at hsum
        next hsame =>
          obtain rfl : other = id := by simpa using hsame
          exact hkept ⟨entry, other, rfl, hwritten, hmem, hlive, hsum.symm⟩
        next => omega

theorem not_drops {h : History} {step : Step} (hnone : h.stranded step = none) :
    ¬ h.Drops step := by
  rintro ⟨entry, id, hsome, -⟩
  rw [hnone] at hsome
  cases hsome

def Survives (h : History) (step : Step) (h' : History) : Prop :=
  h'.Tracked ∧ (h'.HoldsAll ↔ ¬ h.Drops step)

namespace Tracked

variable {h : History}

theorem of_keeps (htracked : h.Tracked) (hholds : h.HoldsAll) {step : Step} {outage : Outage}
    {b : Broker} (hkeeps : Keeps { h.broker with outage } b (h.stranded step)) :
    h.Survives step { h with broker := b } :=
  ⟨⟨hkeeps.once, htracked.named, htracked.given⟩, holdsAll_iff hholds rfl rfl hkeeps.ids⟩

theorem of_same (htracked : h.Tracked) (hholds : h.HoldsAll) {step : Step} {b : Broker}
    (hnone : h.stranded step = none) (hcontents : b.contents = h.contents) :
    h.Survives step { h with broker := b } := by
  obtain ⟨contents, outage, ids⟩ := b
  obtain rfl : contents = h.contents := hcontents
  exact ⟨⟨htracked.delayed, htracked.named, htracked.given⟩, iff_of_true hholds (not_drops hnone)⟩

theorem noteReserved (htracked : h.Tracked) (hholds : h.HoldsAll) {step : Step} {outage : Outage}
    {b : Broker} {reservation : Reservation}
    (hreserves : Reserves { h.broker with outage } (h.stranded step) (.ok reservation b)) :
    h.Survives step (({ h with broker := b } : History).noteReserved reservation) := by
  cases reservation with
  | nothing =>
    obtain ⟨hkeeps, hnone, -⟩ := hreserves
    exact htracked.of_keeps hholds (hnone ▸ hkeeps)
  | unreadable =>
    obtain ⟨hkeeps, hnone, -⟩ := hreserves
    exact htracked.of_keeps hholds (hnone ▸ hkeeps)
  | job e =>
    obtain ⟨hkeeps, hnone, entry, -, hdecode, -⟩ := hreserves
    have htracks := Envelope.tracks_of_decode hdecode
    refine ⟨⟨hkeeps.once, htracked.named, List.forall_mem_cons.2 ⟨htracks, htracked.given⟩⟩, ?_⟩
    exact holdsAll_iff hholds rfl rfl (hnone ▸ hkeeps.ids)

theorem act_noteReserved (htracked : h.Tracked) (hholds : h.HoldsAll) {step : Step}
    {outage : Outage} {action : Action Reservation}
    (hreserves : Reserves { h.broker with outage } (h.stranded step)
      (action { h.broker with outage })) :
    h.Survives step (h.act outage action History.noteReserved id) := by
  refine Program.outcome_cases (P := h.Survives step) (fun reservation b hrun => ?_) (fun fault b hrun => ?_)
  · rw [hrun] at hreserves
    exact htracked.noteReserved hholds hreserves
  · rw [hrun] at hreserves
    exact htracked.of_keeps hholds hreserves.1

theorem noteEnqueued (htracked : h.Tracked) (hholds : h.HoldsAll) {step : Step} {b : Broker}
    {e : Envelope} {entry : Entry} (hnone : h.stranded step = none)
    (hid : e.id = h.broker.ids.draw.1) (hstored : e.stored = none)
    (hentry : e.encode? = some entry) (hadds : Adds entry h.contents b.contents) :
    h.Survives step (({ h with broker := b } : History).noteEnqueued e) := by
  have hne : e.id ≠ "" := hid ▸ IdSupply.nameOf_ne_empty _
  have hmem (id : String) (hheld : id ∈ h.contents.ids) : id ∈ b.contents.ids := by
    obtain ⟨other, hother, hwritten⟩ := List.mem_filterMap.1 hheld
    exact List.mem_filterMap.2 ⟨other, (hadds.mem_entries other).2 (.inr hother), hwritten⟩
  refine ⟨⟨hadds.once htracked.delayed, List.forall_mem_cons.2 ⟨hne, htracked.named⟩, ?_⟩, ?_⟩
  · refine List.forall_mem_cons.2 ⟨fun other hother => ?_, htracked.given⟩
    rw [hstored] at hother
    cases hother
  · refine iff_of_true ?_ (not_drops hnone)
    intro id henqueued hlive
    rcases List.mem_cons.1 henqueued with rfl | henqueued
    · exact List.mem_filterMap.2 ⟨entry, (hadds.mem_entries entry).2 (.inl rfl),
        Envelope.writtenId?_of_encode? hentry hne⟩
    · exact hmem id (hholds id henqueued hlive)

theorem mem_settle {e : Envelope} {c : Contents} (htracks : e.Tracks) {before : Entry}
    (hbytes : e.bytes? = some before) {id : String} (hne : id ≠ e.id) (hid : id ∈ c.ids) :
    id ∈ (c.settle before).ids := by
  by_cases hbefore : before ∈ c.processing
  · have hperm := Contents.ids_cons (Contents.entries_settle hbefore)
    rcases List.mem_append.1 (hperm.mem_iff.2 hid) with hwritten | hheld
    · exact absurd (htracks.id_of_bytes? hbytes (Option.mem_toList.1 hwritten)).symm hne
    · exact hheld
  · rwa [Contents.settle_of_notMem hbefore]

theorem noteCompleted (htracked : h.Tracked) (hholds : h.HoldsAll) {e : Envelope}
    (he : e ∈ h.given) {outage : Outage} {b : Broker} {before : Entry}
    (hbytes : e.bytes? = some before) (hcontents : b.contents = h.contents.settle before) :
    h.Survives (.operate outage (.complete e)) (({ h with broker := b } : History).noteCompleted e
      (e.bytes?.any h.contents.processing.contains)) := by
  obtain ⟨contents, outage', ids⟩ := b
  obtain rfl : contents = h.contents.settle before := hcontents
  refine ⟨⟨htracked.delayed, htracked.named, htracked.given⟩, ?_⟩
  refine iff_of_true ?_ (not_drops rfl)
  intro id henqueued hlive
  by_cases hbefore : before ∈ h.contents.processing
  · have hcompleted : id ∉ e.id :: h.completed := by
      simpa [History.noteCompleted, hbytes, hbefore] using hlive
    rw [List.mem_cons, not_or] at hcompleted
    exact mem_settle (htracked.given e he) hbytes hcompleted.1 (hholds id henqueued hcompleted.2)
  · have hcompleted : id ∉ h.completed := by
      simpa [History.noteCompleted, History.release, hbytes, hbefore] using hlive
    have hsame := Contents.settle_of_notMem hbefore
    exact hsame.symm ▸ hholds id henqueued hcompleted

theorem noteFailed (htracked : h.Tracked) (hholds : h.HoldsAll) {step : Step} {e : Envelope}
    (he : e ∈ h.given) {error : String} {b : Broker} {before entry : Entry}
    (hnone : h.stranded step = none) (hbytes : e.bytes? = some before)
    (hentry : (e.failed error).encode? = some entry)
    (hadds : Adds entry (h.contents.settle before) b.contents) :
    h.Survives step (({ h with broker := b } : History).noteFailed e
      { e.failed error with stored := some entry }) := by
  refine ⟨⟨hadds.once htracked.delayed, htracked.named, ?_⟩, ?_⟩
  · refine List.forall_mem_cons.2 ⟨fun other hother id hid => ?_, htracked.given⟩
    obtain rfl := Option.some.inj hother
    exact Envelope.id_of_encode? hentry hid
  · refine iff_of_true ?_ (not_drops hnone)
    intro id henqueued hlive
    by_cases hid : id = e.id
    · -- The job of the envelope is held under its new bytes.
      have hne : (e.failed error).id ≠ "" := hid ▸ htracked.named id henqueued
      have hwritten := Envelope.writtenId?_of_encode? hentry hne
      exact List.mem_filterMap.2 ⟨entry, (hadds.mem_entries entry).2 (.inl rfl), hid ▸ hwritten⟩
    · have hheld := mem_settle (htracked.given e he) hbytes hid (hholds id henqueued hlive)
      obtain ⟨other, hother, hwritten⟩ := List.mem_filterMap.1 hheld
      exact List.mem_filterMap.2 ⟨other, (hadds.mem_entries other).2 (.inr hother), hwritten⟩

theorem noteUnrecorded {step : Step} {h' : History} {e : Envelope} (he : e ∈ h'.given)
    (error : String) (hsurvives : h.Survives step h') :
    h.Survives step (h'.noteUnrecorded e (e.failed error)) := by
  obtain ⟨htracked, hiff⟩ := hsurvives
  refine ⟨⟨htracked.delayed, htracked.named, ?_⟩, hiff⟩
  exact List.forall_mem_cons.2 ⟨htracked.given e he, htracked.given⟩

theorem operate (htracked : h.Tracked) (hholds : h.HoldsAll) {outage : Outage}
    {operation : Operation} (hpermits : h.Permits (.operate outage operation)) :
    h.Survives (.operate outage operation) (h.operate outage operation) := by
  cases operation with
  | enqueue now name data maxAttempts backoff delay =>
    have hcases := enqueue_cases now name data maxAttempts backoff delay { h.broker with outage }
    rw [History.operate]
    refine Program.outcome_cases (P := h.Survives _) (fun e b hrun => ?_) (fun fault b hrun => ?_)
    · rw [hrun] at hcases
      obtain ⟨-, he, entry, hentry, hadds⟩ := hcases
      exact htracked.noteEnqueued hholds rfl (congrArg Envelope.id he)
        (congrArg Envelope.stored he) hentry hadds
    · rw [hrun] at hcases
      exact htracked.of_same hholds rfl hcases.2
  | promoteDue now =>
    obtain ⟨hmoves, -⟩ := promoteDue_moves now { h.broker with outage } htracked.delayed
    rw [History.operate, act_eq_after]
    exact htracked.of_keeps hholds hmoves.toMoves.keeps
  | reserve now =>
    exact htracked.act_noteReserved hholds
      (reserve_cases now { h.broker with outage } htracked.delayed)
  | reserveAfterWait =>
    exact htracked.act_noteReserved hholds
      (reserveAfterWait_cases { h.broker with outage } htracked.delayed)
  | complete e =>
    have hcases := complete_cases e { h.broker with outage }
    rw [History.operate]
    refine Program.outcome_cases (P := h.Survives _) (fun _ b hrun => ?_) (fun fault b hrun => ?_)
    · rw [hrun] at hcases
      obtain ⟨-, before, hbytes, hcontents⟩ := hcases
      exact htracked.noteCompleted hholds hpermits hbytes hcontents
    · rw [hrun] at hcases
      exact htracked.of_same hholds rfl hcases.2
  | fail now e error retry =>
    have hcases := fail_cases now e error retry { h.broker with outage }
    rw [History.operate]
    refine Program.outcome_cases (P := h.Survives _) (fun answer b hrun => ?_) (fun fault b hrun => ?_)
    · rw [hrun] at hcases
      obtain ⟨hnone, -, before, entry, hbytes, hentry, hanswer, hadds⟩ := hcases
      simp only [hanswer]
      exact htracked.noteFailed hholds hpermits hnone hbytes hentry hadds
    · rw [hrun] at hcases
      refine noteUnrecorded (by exact hpermits) error ?_
      obtain ⟨hids, ⟨hnone, hcontents⟩ | ⟨before, hmem, hstranded, -, hcontents⟩⟩ := hcases
      · exact htracked.of_same hholds hnone hcontents
      · have hmoves : Moves { h.broker with outage } b
            (h.stranded (.operate outage (.fail now e error retry))) := by
          refine { entries := ?_, once := ?_, ids := hids }
          · rw [stranded, hstranded, hcontents]
            exact (List.perm_append_singleton _ _).trans (Contents.entries_settle hmem)
          · rw [hcontents]
            exact htracked.delayed
        exact htracked.of_keeps hholds hmoves.keeps
  | recoverStalled =>
    obtain ⟨hmoves, -⟩ := recoverStalled_moves { h.broker with outage } htracked.delayed
    rw [History.operate]
    refine Program.outcome_cases (P := h.Survives _) (fun n b hrun => ?_) (fun fault b hrun => ?_)
    · rw [after_of_ok hrun] at hmoves
      have hsurvives : h.Survives (.operate outage .recoverStalled) { h with broker := b } :=
        htracked.of_keeps hholds hmoves.keeps
      exact ⟨⟨hsurvives.1.delayed, hsurvives.1.named, hsurvives.1.given⟩, hsurvives.2⟩
    · rw [after_of_error hrun] at hmoves
      exact htracked.of_keeps hholds hmoves.keeps

theorem step (htracked : h.Tracked) (hholds : h.HoldsAll) {step : Step} (hpermits : h.Permits step) :
    h.Survives step (h.step step) := by
  cases step with
  | operate outage operation => exact htracked.operate hholds hpermits
  | letGo id =>
    exact ⟨⟨htracked.delayed, htracked.named, htracked.given⟩, iff_of_true hholds (not_drops rfl)⟩
  | draw =>
    exact ⟨⟨htracked.delayed, htracked.named, htracked.given⟩, iff_of_true hholds (not_drops rfl)⟩

end Tracked

theorem follows_holdsAll_iff {h : History} {steps : List Step} (htracked : h.Tracked)
    (hholds : h.HoldsAll) (hsteps : Follows Permits h steps) :
    Follows (fun h step => (h.step step).HoldsAll) h steps ↔
      Follows (fun h step => ¬ h.Drops step) h steps := by
  induction steps generalizing h with
  | nil => exact Iff.rfl
  | cons step rest ih =>
    obtain ⟨htracked', hiff⟩ := htracked.step hholds hsteps.1
    refine ⟨fun hall => ?_, fun hnever => ?_⟩
    · exact ⟨hiff.1 hall.1, (ih htracked' hall.1 hsteps.2).1 hall.2⟩
    · exact ⟨hiff.2 hnever.1, (ih htracked' (hiff.2 hnever.1) hsteps.2).2 hnever.2⟩

/-- Whatever is refused, every job is held after every step of a run exactly if no step drops one. -/
theorem run_holdsAll_iff {contents : Contents} (hcontents : contents.DelayedOnce) (ids : IdSupply)
    {steps : List Step} (hsteps : Follows Permits (start contents ids) steps) :
    Follows (fun h step => (h.step step).HoldsAll) (start contents ids) steps ↔
      Follows (fun h step => ¬ h.Drops step) (start contents ids) steps := by
  refine follows_holdsAll_iff { delayed := hcontents, named := ?_, given := ?_ } ?_ hsteps
  · simp [start]
  · simp [start]
  · simp [HoldsAll, start]

def failure : List Step :=
  reservation ++ [.operate { skip := 1, count := 1 } (.fail 0 reservedJob "" true)]

theorem failure_permitted : Follows Permits (start {} {}) failure :=
  Follows.append_iff.2 ⟨⟨trivial, trivial, trivial⟩,
    reservation_given reservedJob reservedJob_held, trivial⟩

theorem run_holdsAll_iff_failure :
    ({} : Contents).DelayedOnce ∧ Follows Permits (start {} {}) failure ∧
      (Follows (fun h step => (h.step step).HoldsAll) (start {} {}) failure ↔
        Follows (fun h step => ¬ h.Drops step) (start {} {}) failure) :=
  ⟨List.nodup_nil, failure_permitted,
    run_holdsAll_iff (show ({} : Contents).DelayedOnce from List.nodup_nil) {} failure_permitted⟩

/-- A refused command can lose a job. -/
theorem not_always_held : ¬ ∀ (contents : Contents) (ids : IdSupply) (steps : List Step),
    contents.DelayedOnce → Follows Permits (start contents ids) steps →
      ((start contents ids).run steps).HoldsAll := by
  intro hall
  have hholds := hall {} {} failure List.nodup_nil failure_permitted
  have henqueued : ((start {} {}).run failure).enqueued = ["id-000001"] := by decide +kernel
  have hcompleted : ((start {} {}).run failure).completed = [] := by decide +kernel
  have hids : ((start {} {}).run failure).contents.ids = [] := by decide +kernel
  have hheld := hholds "id-000001" (by rw [henqueued]; simp) (by rw [hcompleted]; simp)
  rw [hids] at hheld
  cases hheld

end History

end SignalCoach.Queue
