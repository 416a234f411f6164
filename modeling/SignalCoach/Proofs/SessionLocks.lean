import SignalCoach.Proofs.LockTable
import SignalCoach.Proofs.Settling

/-! Any number of envelopes that are processed at the same time, in any order of what they wait for:
the jobs of one session are handled one after the other, and no lock is left behind. -/
namespace SignalCoach.Worker

def Progress.stages : Progress → List Stage
  | .suspended stage => [stage]
  | .finished _ => []

def SessionLock.standing (l : SessionLock) : Standing where
  session := l.session
  users := l.users
  locked := l.locked

def World.standings (w : World) : List Standing := w.locks.map (·.standing)

def Stage.MayGoOn (w : World) : Stage → Prop
  | .locking d => ∀ l ∈ w.standings, l.session = d.job.sessionId → l.locked = false
  | .entering | .loading _ | .halting _ => True

namespace World

/-- What happens besides: it neither takes nor gives back a lock, and no envelope gets lost. -/
structure Beside (w w' : World) : Prop where
  standings : w'.standings = w.standings
  slots : ∀ slot, (w.slot? slot).isSome → (w'.slot? slot).isSome

instance : IsPreorder World World.Beside where
  refl _ := ⟨rfl, fun _ h => h⟩
  trans _ _ _ h h' :=
    ⟨h'.standings.trans h.standings, fun slot hslot => h'.slots slot (h.slots slot hslot)⟩

theorem standings_unattended (w : World) : w.unattended.standings = w.standings := by
  change (w.locks.map fun l => { l with waiters := [] }).map (·.standing) = w.locks.map (·.standing)
  rw [List.map_map]
  rfl

theorem Beside.of_unattended {w w' : World} (h : w'.unattended = w.unattended) : w.Beside w' where
  standings := by rw [← standings_unattended, h, standings_unattended]
  slots slot hslot := by
    have hsame : w'.slot? slot = w.slot? slot := congrArg (·.slot? slot) h
    rwa [hsame]

structure Guarded (stages : List Stage) (slots : List Slot) (w : World) : Prop where
  locks : Stands stages w.standings
  envelopes : ∀ slot ∈ slots, (w.slot? slot).isSome

theorem Guarded.beside {stages : List Stage} {slots : List Slot} {w w' : World}
    (h : w.Guarded stages slots) (hbeside : w.Beside w') : w'.Guarded stages slots where
  locks := hbeside.standings ▸ h.locks
  envelopes slot hslot := hbeside.slots slot (h.envelopes slot hslot)

end World

namespace Turn

section Beside

theorem beside_of_unattended {x : Turn α} (hx : Maintains World.unattended x) :
    Within World.Beside x :=
  hx.weaken fun _ _ => .of_unattended

theorem countFailed_beside : Within World.Beside countFailed := fun _ => ⟨rfl, fun _ hslot => hslot⟩

theorem act_beside (action : Queue.Action α) : Within World.Beside (act action) := by
  intro w
  obtain ⟨outcome, broker, hrun⟩ := act_run action w
  rw [hrun]
  exact ⟨rfl, fun _ hslot => hslot⟩

theorem setEnvelope_beside (slot : Slot) (e : Envelope) :
    Within World.Beside (setEnvelope slot e) := by
  intro w
  refine ⟨rfl, fun other hother => ?_⟩
  change (((Roster.put _ _ w.envelopes).find? _).map _).isSome
  rw [find?_put]
  split
  · rfl
  · exact hother

theorem failEnvelope_beside (slot : Slot) (e : Envelope) (error : String) (retry : Bool) :
    Within World.Beside (failEnvelope slot e error retry) :=
  .get_bind fun w => Within.bind (act_beside _) (fun outcome => by
    cases outcome with
    | ok failed => exact .bind (setEnvelope_beside _ _) fun _ => .answer _
    | error fault => exact .bind (setEnvelope_beside _ _) fun _ => .answer _) w

theorem evaluation_beside (d : Delivery) : Within World.Beside (evaluation d) :=
  beside_of_unattended ((evaluation_maintains d).through World.unattended)

end Beside

open World (Guarded)

variable {stages : List Stage} {slots : List Slot} {d : Delivery}

theorem guarded_of_beside {x : Turn α} (hx : Within World.Beside x) :
    Keeps (Guarded stages slots) x :=
  hx.keeps fun _ _ hbeside h => h.beside hbeside

theorem guarded_of_unattended {x : Turn α} (hx : Maintains World.unattended x) :
    Keeps (Guarded stages slots) x :=
  guarded_of_beside (beside_of_unattended hx)

section Locks

theorem standings_modifyLock {f : SessionLock → SessionLock} {g : Standing → Standing}
    (hfg : ∀ l, (f l).standing = g l.standing) (session : String) (w : World) :
    ((modifyLock session f).run w).2.standings = adjust session g w.standings := by
  change (w.locks.map _).map _ = (w.locks.map _).map _
  rw [List.map_map, List.map_map]
  apply List.map_congr_left
  intro l _
  change (if l.session = session then f l else l).standing = if l.session = session then _ else _
  split
  · exact hfg l
  · rfl

theorem modifyLock_guarded {w : World} {stages' : List Stage} {f : SessionLock → SessionLock}
    {g : Standing → Standing} {session : String} (h : w.Guarded stages slots)
    (hfg : ∀ l, (f l).standing = g l.standing)
    (hlocks : Stands stages' (adjust session g w.standings)) :
    ((modifyLock session f).run w).2.Guarded stages' slots := by
  refine ⟨?_, h.envelopes⟩
  rw [standings_modifyLock hfg]
  exact hlocks

theorem use_guarded (id : TaskId) (free : Bool) :
    Triple (fun w => w.Guarded stages slots ∧ d.job.sessionId ∈ w.standings.map (·.session) ∧
        (free = true → handlings d.job.sessionId stages = 0))
      (do
        modifyLock d.job.sessionId fun l =>
          if free then { l with users := l.users + 1, locked := true }
          else { l with users := l.users + 1, waiters := l.waiters ++ [(id, false)] }
        pure free)
      fun free => Guarded ((if free then .loading d else .locking d) :: stages) slots := by
  rintro w ⟨h, hthere, hidle⟩
  have hjoined := h.locks.join hthere
  cases free with
  | false => exact modifyLock_guarded h (fun _ => rfl) hjoined
  | true =>
    have hacquired := hjoined.acquire fun l hl heq => by
      have hlocked := (hjoined.fits l hl).locked
      rw [Stands.handlings_locking, heq, hidle rfl] at hlocked
      exact Bool.toNat_eq_zero.1 hlocked
    rw [adjust_adjust (f := fun l => { l with users := l.users + 1 }) fun _ => rfl] at hacquired
    exact modifyLock_guarded h (fun _ => rfl) hacquired

theorem lock_guarded (id : TaskId) :
    Triple (Guarded stages slots) (lock id d.job.sessionId) fun free =>
      Guarded ((if free then .loading d else .locking d) :: stages) slots := by
  intro w h
  unfold lock lock?
  rw [bind_assoc, run_bind_of (get_run w), pure_bind]
  cases hfound : w.locks.find? (·.session = d.job.sessionId) with
  | none =>
    refine ⟨?_, h.envelopes⟩
    change Stands _ ((w.locks ++ [_]).map _)
    rw [List.map_append]
    apply h.locks.make
    intro hsession
    obtain ⟨_, hstanding, hsame⟩ := List.mem_map.1 hsession
    obtain ⟨l, hl, rfl⟩ := List.mem_map.1 hstanding
    have hnone := List.find?_eq_none.1 hfound l hl
    rw [decide_eq_true_eq] at hnone
    exact hnone hsame
  | some l =>
    have hl : l.standing ∈ w.standings := List.mem_map_of_mem (List.mem_of_find?_eq_some hfound)
    have hsession : l.session = d.job.sessionId := by simpa using List.find?_some hfound
    refine use_guarded id _ w ⟨h, List.mem_map.2 ⟨_, hl, hsession⟩, fun hfree => ?_⟩
    rw [Bool.and_eq_true, Bool.not_eq_true'] at hfree
    have hlocked : l.locked.toNat = handlings l.session stages := (h.locks.fits _ hl).locked
    rw [hfree.1, hsession] at hlocked
    exact hlocked.symm

theorem lockAfterWait_guarded (id : TaskId) :
    Triple (fun w => w.Guarded (.locking d :: stages) slots ∧
        ∀ l ∈ w.standings, l.session = d.job.sessionId → l.locked = false)
      (lockAfterWait id d.job.sessionId) fun _ => Guarded (.loading d :: stages) slots :=
  fun _ h => modifyLock_guarded h.1 (fun _ => rfl) (h.1.locks.acquire h.2)

theorem leave_guarded :
    Triple (Guarded (.locking d :: stages) slots) (leave d.job.sessionId) fun _ =>
      Guarded stages slots := by
  intro w h
  refine ⟨?_, h.envelopes⟩
  have hleft := h.locks.leave
  rw [← standings_modifyLock (f := fun l => { l with users := l.users - 1 }) fun _ => rfl] at hleft
  unfold discard World.standings at hleft
  rwa [List.filter_map] at hleft

theorem unlock_guarded :
    Triple (Guarded (.loading d :: stages) slots) (unlock d.job.sessionId) fun _ =>
      Guarded stages slots :=
  Triple.bind (fun _ h => modifyLock_guarded h (fun _ => rfl) h.locks.release) fun _ =>
    Triple.bind (guarded_of_unattended (callNext_maintains _)) fun _ => leave_guarded

theorem abandonLock_guarded (id : TaskId) :
    Triple (Guarded (.locking d :: stages) slots) (abandonLock id d.job.sessionId) fun _ =>
      Guarded stages slots :=
  Triple.bind (guarded_of_unattended (modifyWaiters_maintains _ _)) fun _ =>
    Triple.bind (guarded_of_unattended (callNext_maintains _)) fun _ => leave_guarded

end Locks

section Processing

variable {handler : Handler} (id : TaskId) (slot : Slot)

theorem ending_guarded {p : Progress} (hfree : ∀ stage ∈ p.stages, stage.lock? = none) :
    Triple (Guarded stages slots) (pure p : Turn Progress) fun p =>
      Guarded (p.stages ++ stages) slots := by
  intro w h
  cases p with
  | finished outcome => exact h
  | suspended stage =>
    exact ⟨(Stands.cons_iff (hfree stage (List.mem_singleton_self _))).2 h.locks, h.envelopes⟩

theorem settle_guarded (e : Envelope) (settlement : Settlement) :
    Triple (Guarded stages slots) (settle slot e settlement) fun p =>
      Guarded (p.stages ++ stages) slots := by
  cases settlement with
  | acknowledge result =>
    refine Triple.bind (guarded_of_beside (act_beside _)) fun outcome => ?_
    cases outcome with
    | ok _ =>
      exact Triple.bind (Triple.change fun _ h => ⟨h.locks, h.envelopes⟩) fun _ =>
        ending_guarded (by simp [Progress.stages])
    | error fault => exact ending_guarded (by simp [Progress.stages])
  | fail error =>
    refine Triple.bind (guarded_of_beside (failEnvelope_beside _ _ _ _)) fun outcome => ?_
    cases outcome <;> exact ending_guarded (by simp [Progress.stages])

theorem reject_guarded (e : Envelope) (error : String) :
    Triple (Guarded stages slots) (reject slot e error) fun p =>
      Guarded (p.stages ++ stages) slots := by
  refine Triple.bind (guarded_of_beside (failEnvelope_beside _ _ _ _)) fun outcome => ?_
  cases outcome with
  | ok _ =>
    exact Triple.bind (guarded_of_beside countFailed_beside) fun _ =>
      ending_guarded (by simp [Progress.stages])
  | error fault => exact ending_guarded (by simp [Progress.stages])

theorem haltAndSettle_guarded (e : Envelope) (session : String) (settlement : Settlement) :
    Triple (Guarded stages slots) (haltAndSettle id slot e session settlement) fun p =>
      Guarded (p.stages ++ stages) slots := by
  refine Triple.bind (guarded_of_unattended (haltBeat_maintains _ _)) fun _ =>
    Triple.ite (fun _ => ?_) fun _ => ?_
  · exact ending_guarded (by simp [Progress.stages, Stage.lock?])
  · exact settle_guarded slot e settlement

theorem afterFailure_guarded (e : Envelope) (job : Job) (error : String) :
    Triple (Guarded stages slots) (afterFailure id slot e job error) fun p =>
      Guarded (p.stages ++ stages) slots := by
  refine Triple.bind (guarded_of_beside countFailed_beside) fun _ => ?_
  refine Triple.bind Triple.look fun w => Triple.ite (fun _ => ?_) fun _ => ?_
  · exact haltAndSettle_guarded id slot e _ _
  · exact settle_guarded slot e _

theorem afterResult_guarded (e : Envelope) (job : Job) (result : JobResult) :
    Triple (Guarded stages slots) (afterResult id slot e job result) fun p =>
      Guarded (p.stages ++ stages) slots := by
  have hsettle : Triple (Guarded stages slots) (settle slot e (.acknowledge result)) fun p =>
      Guarded (p.stages ++ stages) slots := settle_guarded slot e _
  have hstart : Triple (Guarded stages slots) (do
      if result.outcome = .completed then
        let _ ← startBeat job.sessionId
      settle slot e (.acknowledge result)) fun p => Guarded (p.stages ++ stages) slots :=
    Triple.ite (fun _ => Triple.bind (guarded_of_unattended (startBeat_maintains _)) fun _ => hsettle)
      fun _ => hsettle
  refine Triple.bind Triple.look fun w => Triple.ite (fun _ => hsettle) fun _ => ?_
  refine Triple.ite (fun _ => haltAndSettle_guarded id slot e _ _) fun _ => ?_
  exact Triple.ite
    (fun _ => Triple.bind (guarded_of_unattended (reportBeat_maintains _)) fun _ => hstart)
    fun _ => hstart

/-- The lock is given back when the job was handled, whatever came of it. -/
theorem carryOutBy_guarded (hhandler : ∀ d, Within World.Beside (handler d)) (e : Envelope) :
    Triple (Guarded (.loading d :: stages) slots) (carryOutBy handler id slot e d) fun p =>
      Guarded (p.stages ++ stages) slots := by
  refine Triple.bind (guarded_of_beside (hhandler d)) fun outcome => ?_
  refine Triple.bind unlock_guarded fun _ => ?_
  cases outcome with
  | ok result => exact afterResult_guarded id slot e d.job result
  | error error => exact afterFailure_guarded id slot e d.job error

theorem loadBy_guarded (hhandler : ∀ d, Within World.Beside (handler d)) (e : Envelope) :
    Triple (Guarded (.loading d :: stages) slots) (loadBy handler id slot e d) fun p =>
      Guarded (p.stages ++ stages) slots := by
  refine Triple.bind (guarded_of_unattended ((note_maintains _).through World.unattended)) fun _ =>
    Triple.bind Triple.look fun w => ?_
  refine Triple.ite (fun _ => carryOutBy_guarded id slot hhandler e) fun _ => ?_
  exact Triple.bind (guarded_of_unattended (sleep_maintains _ _)) fun _ => keeps_answer _

theorem enterBy_guarded (hhandler : ∀ d, Within World.Beside (handler d)) (e : Envelope) :
    Triple (Guarded stages slots) (enterBy handler id slot e) fun p =>
      Guarded (p.stages ++ stages) slots := by
  refine Triple.ite (fun _ => reject_guarded slot e _) fun _ => ?_
  cases jobOf e with
  | none => exact reject_guarded slot e _
  | some job =>
    let d : Delivery := { envelope := e.id, job }
    refine Triple.bind (lock_guarded (d := d) id) fun free => ?_
    cases free with
    | true => exact loadBy_guarded id slot hhandler e
    | false => exact keeps_answer _

theorem proceedBy_guarded (hhandler : ∀ d, Within World.Beside (handler d)) (hslot : slot ∈ slots)
    (stage : Stage) :
    Triple (fun w => w.Guarded (stage :: stages) slots ∧ Stage.MayGoOn w stage)
      (proceedBy handler id slot stage) fun p => Guarded (p.stages ++ stages) slots := by
  rintro w ⟨h, hmay⟩
  obtain ⟨e, he⟩ := Option.isSome_iff_exists.1 (h.envelopes slot hslot)
  have hfound : (envelope? slot).run w = (some e, w) := congrArg (·, w) he
  have hrest (hfree : stage.lock? = none) : w.Guarded stages slots :=
    ⟨(Stands.cons_iff hfree).1 h.locks, h.envelopes⟩
  unfold proceedBy
  rw [run_bind_of hfound]
  cases stage with
  | entering => exact enterBy_guarded id slot hhandler e w (hrest rfl)
  | locking d =>
    exact Triple.bind (lockAfterWait_guarded id) (fun _ => loadBy_guarded id slot hhandler e) w
      ⟨h, hmay⟩
  | loading d => exact carryOutBy_guarded id slot hhandler e w h
  | halting settlement => exact settle_guarded slot e settlement w (hrest rfl)

def giveBack : Stage → Turn Unit
  | .locking d => abandonLock id d.job.sessionId
  | .loading d => unlock d.job.sessionId
  | .entering | .halting _ => pure ()

theorem giveBack_guarded (stage : Stage) :
    Triple (Guarded (stage :: stages) slots) (giveBack id stage) fun _ => Guarded stages slots := by
  have hnothing (hfree : stage.lock? = none) :
      Triple (Guarded (stage :: stages) slots) (pure ()) fun _ => Guarded stages slots :=
    Triple.answer fun _ h => ⟨(Stands.cons_iff hfree).1 h.locks, h.envelopes⟩
  cases stage with
  | locking d => exact abandonLock_guarded id
  | loading d => exact unlock_guarded
  | entering => exact hnothing rfl
  | halting settlement => exact hnothing rfl

end Processing

end Turn

structure Processing where
  id : TaskId
  slot : Slot
  stage : Stage

def Processing.after (p : Processing) (progress : Progress) : List Processing :=
  progress.stages.map fun stage => { p with stage }

theorem Processing.stages_after (p : Processing) (progress : Progress) :
    (p.after progress).map (·.stage) = progress.stages := by
  cases progress <;> rfl

theorem Processing.slot_of_mem_after {p q : Processing} {progress : Progress}
    (hq : q ∈ p.after progress) : q.slot = p.slot := by
  obtain ⟨stage, -, rfl⟩ := List.mem_map.1 hq
  rfl

/-- A worker and the envelopes that it processes at the same time, each at its lock or beyond. -/
structure LockState where
  world : World
  processings : List Processing := []

namespace LockState

/-- What can happen next. The processings go on in any order, each by any handler that is not concerned
with the locks, and each may be cancelled wherever it waits. What else goes on in the worker, as its
handlers and its queue are waited for, leaves the locks as they are; it may change who comes next. -/
inductive Step (state : LockState) : LockState → Prop where
  | begin (id : TaskId) {slot : Slot} (hslot : (state.world.slot? slot).isSome) :
      Step state { state with
        processings := { id, slot, stage := .entering } :: state.processings }
  | goOn {others others' : List Processing} {p : Processing} {handler : Handler}
      {progress : Progress} {w : World} (hp : state.processings = others ++ p :: others')
      (hmay : p.stage.MayGoOn state.world) (hhandler : ∀ d, Within World.Beside (handler d))
      (hrun : (Turn.proceedBy handler p.id p.slot p.stage).run state.world = (progress, w)) :
      Step state { world := w, processings := others ++ p.after progress ++ others' }
  | cancel {others others' : List Processing} {p : Processing} {w : World}
      (hp : state.processings = others ++ p :: others')
      (hrun : (Turn.giveBack p.id p.stage).run state.world = ((), w)) :
      Step state { world := w, processings := others ++ others' }
  | meanwhile {w : World} (h : state.world.Beside w) : Step state { state with world := w }

inductive Reaches (start : World) : LockState → Prop where
  | start : Reaches start { world := start }
  | step {state state' : LockState} (h : Reaches start state) (hstep : Step state state') : Reaches start state'

structure Sound (state : LockState) : Prop where
  locks : Stands (state.processings.map (·.stage)) state.world.standings
  envelopes : ∀ p ∈ state.processings, (state.world.slot? p.slot).isSome

variable {state state' : LockState} {others others' : List Processing} {p : Processing}

theorem Sound.of_next (h : Sound state) (hp : state.processings = others ++ p :: others') :
    state.world.Guarded (p.stage :: (others ++ others').map (·.stage))
      (p.slot :: (others ++ others').map (·.slot)) where
  locks := by
    have hlocks := h.locks
    rw [hp] at hlocks
    exact hlocks.perm (List.perm_middle.map _)
  envelopes := by
    intro slot hslot
    rw [← List.map_cons (f := Processing.slot)] at hslot
    obtain ⟨q, hq, rfl⟩ := List.mem_map.1 hslot
    apply h.envelopes
    rw [hp]
    exact List.perm_middle.mem_iff.2 hq

theorem Sound.of_guarded {w : World} {went : List Processing} {stages : List Stage}
    (h : w.Guarded (stages ++ (others ++ others').map (·.stage))
      (p.slot :: (others ++ others').map (·.slot)))
    (hstages : went.map (·.stage) = stages) (hslots : ∀ q ∈ went, q.slot = p.slot) :
    Sound { world := w, processings := others ++ went ++ others' } where
  locks := by
    rw [← hstages, ← List.map_append] at h
    refine h.locks.perm (List.Perm.map _ ?_)
    rw [List.append_assoc, ← List.append_assoc went]
    exact (List.perm_append_comm.append_right _).trans (by rw [List.append_assoc])
  envelopes := by
    intro q hq
    apply h.envelopes
    simp only [List.mem_append] at hq
    rcases hq with (hq | hq) | hq
    · exact List.mem_cons_of_mem _ (List.mem_map_of_mem (List.mem_append_left _ hq))
    · rw [hslots q hq]
      exact List.mem_cons_self
    · exact List.mem_cons_of_mem _ (List.mem_map_of_mem (List.mem_append_right _ hq))

theorem Sound.step (h : Sound state) (hstep : Step state state') : Sound state' := by
  cases hstep with
  | begin id hslot =>
    refine ⟨(Stands.cons_iff rfl).2 h.locks, fun p hp => ?_⟩
    rcases List.mem_cons.1 hp with rfl | hp
    · exact hslot
    · exact h.envelopes p hp
  | @goOn others others' p handler progress w hp hmay hhandler hrun =>
    have hwent := Turn.proceedBy_guarded p.id p.slot hhandler List.mem_cons_self p.stage _
      ⟨h.of_next hp, hmay⟩
    rw [hrun] at hwent
    exact of_guarded hwent (p.stages_after progress) fun _ => Processing.slot_of_mem_after
  | @cancel others others' p w hp hrun =>
    have hleft := Turn.giveBack_guarded p.id p.stage _ (h.of_next hp)
    rw [hrun] at hleft
    have hgone : ([] : List Processing).map (·.stage) = [] := rfl
    rw [← List.append_nil others]
    exact of_guarded hleft hgone (by simp)
  | meanwhile hbeside =>
    exact ⟨hbeside.standings ▸ h.locks, fun p hp => hbeside.slots _ (h.envelopes p hp)⟩

theorem Reaches.sound {start : World} (h : Reaches start state) (hlocks : start.locks = []) :
    Sound state := by
  induction h with
  | start =>
    refine ⟨?_, by simp⟩
    unfold World.standings
    rw [hlocks]
    exact Stands.nil
  | step _ hstep ih => exact ih.step hstep

/-- At any time, at most one job of a session is being handled. A session whose lock no processing has
or waits for has no lock and no count of users; and when that is so of all, the table is empty. -/
theorem Reaches.serialized {start : World} (h : Reaches start state) (hlocks : start.locks = []) :
    (∀ session, state.processings.countP (·.stage.handled? = some session) ≤ 1) ∧
      (∀ session, (∀ p ∈ state.processings, p.stage.lock? ≠ some session) →
        ∀ l ∈ state.world.locks, l.session ≠ session) ∧
      ((∀ p ∈ state.processings, p.stage.lock? = none) → state.world.locks = []) := by
  have hsound := h.sound hlocks
  have habsent (session : String) (hfree : ∀ p ∈ state.processings, p.stage.lock? ≠ some session) :
      ∀ l ∈ state.world.locks, l.session ≠ session := by
    intro l hl
    refine hsound.locks.absent (fun stage hstage => ?_) l.standing (List.mem_map_of_mem hl)
    obtain ⟨p, hp, rfl⟩ := List.mem_map.1 hstage
    exact hfree p hp
  refine ⟨fun session => ?_, habsent, fun hfree => ?_⟩
  · have hone := hsound.locks.handlings_le_one session
    rwa [handlings, List.countP_map] at hone
  · apply List.eq_nil_iff_forall_not_mem.2
    intro l hl
    refine habsent l.session (fun p hp hlock => ?_) l hl rfl
    rw [hfree p hp] at hlock
    cases hlock

end LockState

def jobEnvelope (id : String) : Envelope where
  name := Queue.evaluateName
  data := Queue.messageFields { sessionId := "s-1" }
  id

/-- A worker with two jobs of one session, whose sessions take a while to be loaded. -/
def twoJobs : World where
  config :=
    { retries := { maxAttempts := 1, backoff := 0 }, concurrency := 0, poll := 0, heartbeat := none,
      gatewayDelay := 10, recordTime := ⟨0⟩, clockStart := 0 }
  envelopes := [(.named "a", jobEnvelope "a"), (.named "b", jobEnvelope "b")]

namespace LockState

def entered (state : LockState) (id : TaskId) (slot : Slot) : LockState :=
  let entering : Processing := { id, slot, stage := .entering }
  let next := (Turn.proceed id slot .entering).run state.world
  { world := next.2, processings := entering.after next.1 ++ state.processings }

theorem Reaches.entered {start : World} {state : LockState} (h : Reaches start state) (id : TaskId)
    {slot : Slot} (hslot : (state.world.slot? slot).isSome) : Reaches start (state.entered id slot) := by
  let entering : Processing := { id, slot, stage := .entering }
  let begun : LockState := { state with processings := entering :: state.processings }
  have hbegun : Reaches start begun := h.step (.begin id hslot)
  have hp : begun.processings = [] ++ entering :: state.processings := rfl
  have hrun := congrArg (fun proceed => (proceed id slot Stage.entering).run state.world)
    Turn.proceedBy_evaluation
  exact hbegun.step (.goOn hp trivial Turn.evaluation_beside hrun)

/-- One of two jobs of a session is handled, and the other one waits. When both are cancelled, no lock
is left. -/
theorem Reaches.serialized_two_jobs :
    twoJobs.locks = [] ∧ ∃ busy idle : LockState, Reaches twoJobs busy ∧ Reaches twoJobs idle ∧
      busy.processings.map (·.stage.handled?) = [none, some "s-1"] ∧
      busy.processings.map (·.stage.lock?) = [some "s-1", some "s-1"] ∧
      busy.processings.countP (·.stage.handled? = some "s-1") ≤ 1 ∧
      idle.processings = [] ∧ idle.world.locks = [] := by
  let first : LockState := ({ world := twoJobs } : LockState).entered 1 (.named "a")
  let busy := first.entered 2 (.named "b")
  have hfirst : Reaches twoJobs first := Reaches.start.entered 1 (by decide)
  have hbusy : Reaches twoJobs busy := hfirst.entered 2 (by decide +kernel)
  have hlength : busy.processings.length = 2 := by decide +kernel
  obtain ⟨p, q, hpq⟩ := List.length_eq_two.1 hlength
  have hp : busy.processings = [] ++ p :: [q] := hpq
  have hq : [q] = [] ++ q :: [] := rfl
  have hidle : Reaches twoJobs _ := (hbusy.step (.cancel hp rfl)).step (.cancel hq rfl)
  refine ⟨rfl, busy, _, hbusy, hidle, by decide +kernel, by decide +kernel,
    (hbusy.serialized rfl).1 "s-1", rfl, (hidle.serialized rfl).2.2 ?_⟩
  simp

end LockState
end SignalCoach.Worker
