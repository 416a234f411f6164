import SignalCoach.Proofs.RelaySteps

/-! What else happens in a worker in service: whole turns, the beginnings of turns, and what is asked of
it. With the phases, these are all its steps. -/
namespace SignalCoach.Worker

open Queue (Contents Ordinary IsBeat)
open Relay (Change Changes)
open Scene

variable {σ τ υ : Scene} {m : TaskId → Option Phase} {sent : TaskId → Option Envelope} {id : TaskId}

structure Quietly (m : TaskId → Option Phase) (sent : TaskId → Option Envelope) (σ τ : Scene) :
    Prop where
  sound : τ.Sound m
  changes : Changes (σ.relay m sent) none (τ.relay m sent)
  nextTask : σ.nextTask ≤ τ.nextTask

namespace Quietly

theorem refl (h : σ.Sound m) : Quietly m sent σ σ := ⟨h, .none, Nat.le_refl _⟩

theorem trans (h : Quietly m sent σ τ) (h' : Quietly m sent τ υ) : Quietly m sent σ υ :=
  ⟨h'.sound, h.changes.trans h'.changes, h.nextTask.trans h'.nextTask⟩

theorem follows (h : Quietly m sent σ τ) : Follows σ m sent τ m sent := h.sound.quiet h.changes

theorem halt (h : σ.Sound m) (session : String) : Quietly m sent σ (σ.halt session) where
  sound := h.halt session
  changes := by
    rw [relay_halt]
    exact (Change.halt session).changes
  nextTask := Nat.le_of_eq (halt_frame session).2.2.2.2.symm

theorem errand (h : σ.Sound m) {errand : Errand} (hidle : errand.Idle) :
    Quietly m sent σ { σ with errand } where
  sound := { h with errand := hidle, phases := h.phases, bodies := h.bodies }
  changes := .none
  nextTask := Nat.le_refl _

theorem queue (h : σ.Sound m) {queue : Contents}
    (hwaits : Queue.Contents.Waits (fun entry => entry ∈ σ.queue.delayedEntries ∨ Ordinary entry)
      Ordinary σ.queue queue) : Quietly m sent σ { σ with queue } where
  sound := { h with phases := h.phases, bodies := h.bodies }
  changes := (Change.queue hwaits).changes
  nextTask := Nat.le_refl _

theorem spawn (h : σ.Sound m) : Quietly m sent σ (σ.spawn (.consumer .looking)) where
  sound := h.spawn
  changes := by
    rw [h.relay_spawn]
    exact .none
  nextTask := Nat.le_succ _

end Quietly

abbrev KeepsQuiet (m : TaskId → Option Phase) (sent : TaskId → Option Envelope) (x : Turn α) : Prop :=
  ∀ σ : Scene, σ.Sound m → Shows σ x fun _ τ => Quietly m sent σ τ

namespace KeepsQuiet

theorem unseen {x : Turn α} (hx : Unseen x) : KeepsQuiet m sent x :=
  fun σ h => (hx.shows σ).post fun _ w hw => by
    rw [show w.scene = σ from hw]
    exact .refl h

theorem bind {x : Turn α} {f : α → Turn β} (hx : KeepsQuiet m sent x)
    (hf : ∀ a, KeepsQuiet m sent (f a)) : KeepsQuiet m sent (x >>= f) :=
  fun σ h => Shows.bind (hx σ h) fun a τ hτ => (hf a τ hτ.sound).post fun _ _ hυ => hτ.trans hυ

theorem get_bind {f : World → Turn β} (hf : ∀ w, KeepsQuiet m sent (f w)) :
    KeepsQuiet m sent (get >>= f) :=
  fun σ h => Shows.get_bind fun w _ => hf w σ h

theorem setErrand {errand : Errand} (hidle : errand.Idle) :
    KeepsQuiet m sent (Turn.setErrand errand) := by
  rintro σ h w rfl
  exact .errand h hidle

theorem answer (answer : Answer) : KeepsQuiet m sent (Turn.answer answer) := by
  rintro σ h w rfl
  exact .errand h trivial

theorem haltBeat (waiter : TaskId) (session : String) :
    KeepsQuiet m sent (Turn.haltBeat waiter session) :=
  fun σ h => ((Turn.haltBeat_acts waiter session).shows σ).post fun _ w hw => by
    rw [show w.scene = σ.halt session from hw]
    exact .halt h session

theorem haltBeats (sessions : List String) : KeepsQuiet m sent (Turn.haltBeats sessions) := by
  induction sessions with
  | nil => exact setErrand trivial
  | cons session rest ih =>
    refine bind (haltBeat _ session) fun waits => ?_
    split
    · exact setErrand trivial
    · exact ih

theorem drain : KeepsQuiet m sent Turn.drain := by
  refine get_bind fun w => ?_
  split
  · exact setErrand trivial
  · exact bind (setErrand trivial) fun _ => unseen (Turn.schedule_unseen _)

theorem stopAllBeats : KeepsQuiet m sent Turn.stopAllBeats :=
  bind (answer _) fun _ => get_bind fun _ => haltBeats _

theorem act {action : World → Queue.Action α}
    (h : ∀ (σ : Scene) (w : World) (b : Queue.Broker), b.contents = σ.queue →
      Queue.Action.Ends (fun _ queue => Queue.Contents.Waits
        (fun entry => entry ∈ σ.queue.delayedEntries ∨ Ordinary entry) Ordinary σ.queue queue)
        (action w b)) :
    KeepsQuiet m sent (do let _ ← Turn.act (action (← get))) := by
  refine get_bind fun w => bind (fun σ hσ => ?_) fun _ => unseen (Acts.answer _)
  refine (Turn.act_shows (h σ w)).post fun _ w hw => ?_
  obtain ⟨queue, hwaits, hw⟩ := hw
  rw [hw]
  exact .queue hσ hwaits

end KeepsQuiet

section Orders

theorem startWorker_quiet : KeepsQuiet m sent Turn.startWorker := by
  refine fun σ h => Shows.get_bind fun w hw => ?_
  have hspawn : KeepsQuiet m sent (Turn.spawn (.consumer .looking)) := fun σ h =>
    ((Turn.spawn_acts _).shows σ).post fun _ w hw => by
      rw [show w.scene = σ.spawn _ from hw]
      exact .spawn h
  have hall : ∀ l : List Unit, KeepsQuiet m sent (l.mapM fun _ => Turn.spawn (.consumer .looking)) := by
    intro l
    induction l with
    | nil => exact .unseen (Acts.answer _)
    | cons _ rest ih =>
      rw [List.mapM_cons]
      exact .bind hspawn fun _ => .bind ih fun _ => .unseen (Acts.answer _)
  split
  · refine Shows.set_bind hw fun _ => ?_
    exact KeepsQuiet.bind (hall _) (fun _ => .unseen fun _ => rfl) σ h
  · exact KeepsQuiet.unseen (Acts.answer _) σ h

theorem ends_enqueuing {name : String} (hname : name ≠ Queue.heartbeatName) (now : Int)
    (data : Fields) (maxAttempts backoff delay : Int) (b : Queue.Broker) :
    Queue.Action.Ends (fun _ queue => Queue.Contents.Waits
      (fun entry => entry ∈ b.contents.delayedEntries ∨ Ordinary entry) Ordinary b.contents queue)
      (Queue.enqueue now name data maxAttempts backoff delay b) := by
  have hends := Queue.enqueue_enqueuing now name data maxAttempts backoff delay b
  cases hrun : Queue.enqueue now name data maxAttempts backoff delay b with
  | ok e b' =>
    rw [hrun] at hends
    obtain ⟨rfl, entry, hentry, hwaits⟩ := hends
    have hordinary : Ordinary entry := Queue.ordinary_of_encode? hentry hname
    exact hwaits.mono (fun _ h => .inr (h ▸ hordinary)) fun _ h => h ▸ hordinary
  | error fault b' =>
    rw [hrun] at hends
    exact .same (by rw [show b'.contents = b.contents from hends]) (by rw [show b'.contents = b.contents from hends])

theorem order_follows {o : Order} (ho : o.InService) (h : σ.Sound m) :
    Shows σ o.turn fun _ τ => Follows σ m sent τ m sent := by
  have hquiet : KeepsQuiet m sent o.turn → Shows σ o.turn fun _ τ => Follows σ m sent τ m sent :=
    fun hkeeps => (hkeeps σ h).post fun _ _ hτ => hτ.follows
  cases o with
  | startWorker => exact hquiet startWorker_quiet
  | pass time =>
    exact hquiet (.bind (.answer _) fun _ => .bind (.setErrand trivial) fun _ =>
      .unseen (Turn.sleep_unseen _ _))
  | startBeat session =>
    refine Shows.bind (Turn.startBeat_shows session σ) fun started τ hτ => Shows.answer ?_
    obtain ⟨rfl, rfl⟩ := hτ
    cases hbeat : σ.beats session with
    | none => exact follows_start h .none rfl (.inr ⟨hbeat, rfl⟩)
    | some _ => exact h.quiet .none
  | stopBeat session =>
    exact hquiet (.bind (.unseen fun _ => rfl) fun _ => .bind (.answer _) fun _ => .haltBeats _)
  | stopAllBeats => exact hquiet .stopAllBeats
  | enqueue name data maxAttempts backoff delay =>
    exact hquiet (.act fun σ w b hb => hb ▸ ends_enqueuing ho w.clock data maxAttempts backoff delay b)
  | enqueueEvaluation job =>
    exact hquiet (.act fun σ w b hb => hb ▸ ends_enqueuing (by decide) _ _ _ _ _ b)
  | promoteDue =>
    exact hquiet (.act fun σ w b hb => hb ▸ Queue.ends_of_after
      ((Queue.promoteDue_waits w.clock b).mono (fun _ h => .inl h) fun _ h => h.elim))
  | refuse _ | allow _ | putSession _ | dropSession _ | putSnapshot _ =>
    exact hquiet (.unseen fun _ => rfl)
  | stop _ | reserve _ _ _ | process _ | processAll _ | reportBeat _ | scheduleHeartbeat _ _
  | recoverStalled | complete _ | fail _ _ _ => exact ho.elim

end Orders

section Turns

theorem errandTurn_quiet (h : σ.Sound m) : Shows σ Turn.errandTurn fun _ τ => Quietly m sent σ τ := by
  refine Shows.get_bind fun w hw => ?_
  have hidle : w.errand.Idle := by
    have := h.errand
    rwa [← hw] at this
  split
  all_goals simp only [*] at hidle
  · exact KeepsQuiet.unseen (Acts.answer _) σ h
  · exact hidle.elim
  · exact hidle.elim
  · exact KeepsQuiet.drain σ h
  · exact KeepsQuiet.drain σ h
  · exact hidle.elim
  · exact KeepsQuiet.haltBeats _ σ h

theorem joined_quiet (h : σ.Sound m) : Shows σ Turn.joined fun _ τ => Quietly m sent σ τ := by
  refine Shows.get_bind fun w hw => ?_
  have hidle : w.errand.Idle := by
    have := h.errand
    rwa [← hw] at this
  split
  next herrand =>
    rw [herrand] at hidle
    exact hidle.elim
  next => exact KeepsQuiet.unseen (Acts.answer _) σ h

/-- The task of a heartbeat that was stopped ends, also where a call of it is still on its way. -/
theorem beat_ends (h : σ.Sound m) {session : String} {beating : Beating}
    (htask : σ.tasks id = some (.heartbeat session beating, true)) :
    Quietly m sent σ (σ.finish id) := by
  have hnear : Near id σ (σ.finish id) m m :=
    ⟨rfl, rfl, rfl, rfl, fun i hi => ⟨if_neg hi, rfl, rfl⟩⟩
  have hgone : (σ.finish id).tasks id = none := if_pos rfl
  have hdead : ∀ s, σ.signal id s = none := by
    intro s
    by_contra hlive
    obtain ⟨beating', htask'⟩ := h.task_of_signal hlive
    cases htask.symm.trans htask'
  refine ⟨h.near hnear ?_, ?_, Nat.le_refl _⟩
  · refine {
      old := h.old (.inl (by simp [htask]))
      phase := fun p hp => ?_
      body := fun body cancelled _ hbody => by cases hgone.symm.trans hbody
      beat := fun s signal hbeat => ?_ }
    · have hfits := h.phases id p hp
      cases p with
      | clearing s | enqueuing s | enqueued s answer =>
        intro body cancelled hbody
        cases hgone.symm.trans hbody
      | looking | lookingAfterWait | looked outcome =>
        obtain ⟨consuming, hconsumes⟩ := hfits
        cases htask.symm.trans hconsumes
      | entering e | locked e d | handling e d | handled e d outcome | reported e settlement =>
        obtain ⟨⟨consuming, hconsumes⟩, -⟩ := hfits
        cases htask.symm.trans hconsumes
    · obtain ⟨beating', htask'⟩ := h.beats s id signal hbeat
      cases htask.symm.trans htask'
  · rw [relay_near hnear sent sent]
    cases hm : m id with
    | some p =>
      have hsame : (σ.finish id).place m id = (σ.relay m sent).place id :=
        (place_of_phase hm).trans (place_of_phase (σ := σ) hm).symm
      rw [hsame]
      exact changes_same rfl
    | none =>
      have hplace : ∃ round, (σ.relay m sent).place id = .beating session none round := by
        change ∃ round, σ.place m id = _
        rw [place, hm, htask]
        cases beating <;> exact ⟨_, congrArg (Place.beating session · _) (hdead session)⟩
      obtain ⟨round, hplace⟩ := hplace
      have hidle : (σ.finish id).place m id = .idle := by
        rw [place, hm, hgone]
        rfl
      rw [hidle]
      exact (Change.cease hplace (.inl rfl)).changes

theorem resting (h : σ.Sound m) {body : Body} {cancelled : Bool}
    (htask : σ.tasks id = some (body, cancelled)) (hbody : ∀ s beating, body ≠ .heartbeat s beating)
    (hmidway : m id = none ∨ cancelled = true) : m id = none := by
  rcases hmidway with hmidway | rfl
  · exact hmidway
  cases hm : m id with
  | none => rfl
  | some p =>
    rcases h.midway_cases hm with ⟨s, hbeat⟩ | ⟨consuming, hconsumes⟩
    · exact absurd (hbeat _ _ htask) (hbody s _)
    · cases htask.symm.trans hconsumes

theorem update_of_none (hmidway : m id = none) : Function.update m id none = m := by
  rw [← hmidway, Function.update_eq_self]

theorem beatTurn_follows (h : σ.Sound m) {session : String} {beating : Beating}
    (htask : σ.tasks id = some (.heartbeat session beating, false)) (hmidway : m id = none)
    (hbeating : beating = .starting ∨ beating = .waiting ∧ σ.signal id session = some true) :
    Shows σ (Turn.beatTurn id session false beating) fun _ τ => Follows σ m sent τ m sent := by
  obtain ⟨v, hv⟩ := Option.ne_none_iff_exists'.1 (h.bodies id _ _ hmidway htask rfl)
  have hplace : (σ.relay m sent).place id = .ofBody (σ.signal id) (σ.slots id)
      (.heartbeat session beating) := by
    change σ.place m id = _
    rw [place, hmidway, htask]
    rfl
  have hrests : Changes (σ.relay m sent) none ((σ.relay m sent).move id
      (.ofBody (fun s => σ.signal id s) none (.heartbeat session .sleeping))) := by
    rcases hbeating with rfl | ⟨rfl, hreported⟩
    · exact changes_same hplace
    · simp only [Place.ofBody, hreported] at hplace ⊢
      exact (Change.rest hplace (.inr ⟨rfl, .inr rfl⟩)).changes
  have hfollows := beat_rests h htask hv hrests
  rw [update_of_none hmidway] at hfollows
  have hsleeps : Shows σ (Turn.sleepBeat id session) fun _ τ => Follows σ m sent τ m sent :=
    ((Turn.sleepBeat_acts id session).shows σ).post fun _ w hw => by
      rw [show w.scene = σ.setBody id _ from hw]
      exact hfollows
  rcases hbeating with rfl | ⟨rfl, -⟩
  · exact hsleeps
  · exact Shows.unseen (Turn.forgetOutstanding_unseen session) fun _ => hsleeps

theorem stopped_quiet (h : σ.Sound m) {session : String} {beating : Beating}
    (htask : σ.tasks id = some (.heartbeat session beating, true)) :
    Shows σ (Turn.beatTurn id session true beating) fun _ τ => Quietly m sent σ τ := by
  have hends : Shows σ (Turn.finish id) fun _ τ => Quietly m sent σ τ :=
    ((Turn.finish_acts id).shows σ).post fun _ w hw => by
      rw [show w.scene = σ.finish id from hw]
      exact beat_ends h htask
  cases beating with
  | waiting => exact Shows.unseen (Turn.forgetOutstanding_unseen session) fun _ => hends
  | starting | sleeping => exact hends

theorem lookAgain_follows (h : σ.Sound m) {consuming : Consuming}
    (htask : σ.tasks id = some (.consumer consuming, false)) (hmidway : m id = none)
    (hidle : Place.ofBody (σ.signal id) (σ.slots id) (.consumer consuming) = .idle) :
    Shows σ (Turn.lookAgain id) fun _ τ => Follows σ m sent τ m sent := by
  have hplace : (σ.relay m sent).place id = .idle := by
    change σ.place m id = _
    rw [place, hmidway, htask]
    exact hidle
  have hfollows : Follows σ m sent (σ.setBody id (.consumer .looking)) _ sent :=
    consumer_rests h ⟨consuming, htask⟩ (fun _ _ => rfl) (by simp [Body.delivery?])
      (changes_same hplace)
  rw [update_of_none hmidway] at hfollows
  exact ((Turn.lookAgain_acts id).shows σ).post fun _ w hw => by
    rw [show w.scene = σ.setBody id _ from hw]
    exact hfollows

theorem take_follows {w : World} (h : w.scene.Sound m) (hmay : w.mayTake id = true)
    (hmidway : m id = none ∨ w.isCancelled id = true) :
    Follows w.scene m sent ((Turn.take id).run w).2.scene m sent := by
  rw [Turn.take_run]
  cases htask : w.task? id with
  | none => exact h.quiet .none
  | some task =>
    obtain ⟨_, body, cancelled, joiners⟩ := task
    have hscene : w.scene.tasks id = some (body, cancelled) := by
      change (w.task? id).map _ = _
      rw [htask]
      rfl
    have hmidway : m id = none ∨ cancelled = true := by
      simpa [World.isCancelled, htask] using hmidway
    cases body with
    | errand => exact (errandTurn_quiet h w rfl).follows
    | member index name stage =>
      exact (h.bodies id _ _ (resting h hscene nofun hmidway) hscene).elim
    | heartbeat session beating =>
      cases cancelled with
      | true => exact (stopped_quiet h hscene w rfl).follows
      | false =>
        refine beatTurn_follows h hscene (hmidway.resolve_right nofun) ?_ w rfl
        simp only [World.mayTake, htask] at hmay
        cases beating with
        | starting => exact .inl rfl
        | sleeping => simp [World.phase?, htask] at hmay
        | waiting =>
          refine .inr ⟨rfl, (isReported_iff session).1 ?_⟩
          rw [← hmay]
          change ((w.beats.find? _).map _).any _ = (w.beats.find? _).any _
          cases w.beats.find? (·.session = session) <;> rfl
    | consumer consuming =>
      have hnone := resting h hscene nofun hmidway
      obtain ⟨rfl, -⟩ := h.bodies id _ _ hnone hscene
      simp only [World.mayTake, World.phase?, htask] at hmay
      cases consuming with
      | looking | polling => simp at hmay
      | pausing => exact lookAgain_follows h hscene hnone rfl w rfl
      | delivering stage =>
        have hslot : w.slot? (.consumer id) = none := by simpa using hmay
        have hidle : Place.ofBody (w.scene.signal id) (w.slot? (.consumer id))
            (.consumer (.delivering stage)) = .idle := by
          rw [hslot]
          cases stage <;> rfl
        have hdeliver : (Turn.consumerTurn id false (.delivering stage)).run w =
            (Turn.lookAgain id).run w := by
          have henvelope : (Turn.envelope? (.consumer id)).run w = (none, w) :=
            congrArg (Prod.mk · w) hslot
          change (Turn.proceed id (.consumer id) stage >>= Turn.continueWith id).run w = _
          unfold Turn.proceed
          rw [bind_assoc, Turn.run_bind_of henvelope]
          rfl
        rw [hdeliver]
        exact lookAgain_follows h hscene hnone hidle w rfl

theorem begin_consumer (h : σ.Sound m) {consuming : Consuming} {p : Phase}
    (htask : σ.tasks id = some (.consumer consuming, false)) (hmidway : m id = none)
    (hfits : p.Fits σ id)
    (hsame : Place.ofBody (σ.signal id) (σ.slots id) (.consumer consuming) =
      .ofPhase (σ.signal id) p) :
    Follows σ m sent σ (Function.update m id (some p)) sent := by
  refine consumer_goes h ⟨consuming, htask⟩ (fun _ _ => rfl) hfits (changes_same ?_)
  change σ.place m id = _
  rw [place, hmidway, htask]
  exact hsame

theorem begin_beat (h : σ.Sound m) {session : String}
    (htask : σ.tasks id = some (.heartbeat session .sleeping, false)) (hmidway : m id = none) :
    Follows σ m sent σ (Function.update m id (some (.clearing session))) sent := by
  have hlive : σ.signal id session ≠ none := h.bodies id _ _ hmidway htask rfl
  obtain ⟨v, hv⟩ := Option.ne_none_iff_exists'.1 hlive
  refine h.moves (near_of_phase _ σ.queue) ?_ (Change.changes ?_)
  · refine {
      old := h.old (.inl (by simp [htask]))
      phase := fun p hp => ?_
      body := fun body cancelled hnone => ?_
      beat := fun s => h.beats s id }
    · rw [Function.update_self] at hp
      obtain rfl := Option.some.inj hp
      intro body cancelled hbody
      cases htask.symm.trans hbody
      exact ⟨rfl, fun _ => hlive⟩
    · rw [Function.update_self] at hnone
      cases hnone
  · have hplace : (σ.relay m sent).place id = .beating session (some v) .resting := by
      change σ.place m id = _
      rw [place, hmidway, htask]
      exact congrArg (Place.beating session · .resting) hv
    rw [place_update, Place.ofPhase, hv]
    exact .begin hplace

theorem begin_follows {w : World} {p : Phase} (h : w.scene.Sound m) (hmidway : m id = none)
    (hp : w.phase? id = some p) :
    Follows w.scene m sent w.scene (Function.update m id (some p)) sent := by
  unfold World.phase? at hp
  split at hp
  next task body joiners htask =>
    have hscene : w.scene.tasks id = some (body, false) := by
      change (w.task? id).map _ = _
      rw [htask]
      rfl
    split at hp
    next session =>
      obtain rfl := Option.some.inj hp
      exact begin_beat h hscene hmidway
    next =>
      obtain rfl := Option.some.inj hp
      exact begin_consumer h hscene hmidway ⟨_, hscene⟩ rfl
    next =>
      obtain rfl := Option.some.inj hp
      exact begin_consumer h hscene hmidway ⟨_, hscene⟩ rfl
    next stage =>
      obtain ⟨e, hslot, rfl⟩ := Option.map_eq_some_iff.1 hp
      have hslot : w.scene.slots id = some e := hslot
      have hjob := (h.bodies id _ _ hmidway hscene).2
      refine begin_consumer h hscene hmidway ?_ ?_
      · cases stage with
        | entering => exact ⟨⟨_, hscene⟩, hslot⟩
        | locking d | loading d => exact ⟨⟨_, hscene⟩, hslot, hjob d rfl e hslot⟩
        | halting settlement => exact ⟨⟨_, hscene⟩, hslot⟩
      · rw [hslot]
        cases stage <;> rfl
    next => cases hp
  next => cases hp

end Turns

/-- Every step of a worker in service passes the jobs of heartbeats on as the relay does. -/
theorem PhaseState.Step.follows {f f' : PhaseState} (hstep : PhaseState.Step f f')
    (h : f.world.scene.Sound f.midway) :
    Follows f.world.scene f.midway f.sent f'.world.scene f'.midway f'.sent := by
  cases hstep with
  | order o ho => exact order_follows ho h f.world rfl
  | time hw =>
    have hscene : ∀ w, f.world.moveOn = some w → w.scene = f.world.scene := by
      intro w hw
      unfold World.moveOn at hw
      split at hw
      · cases hw
      · obtain rfl := Option.some.inj hw
        rfl
    rw [hscene _ hw]
    exact h.quiet .none
  | reorder ready => exact h.quiet .none
  | joined => exact (joined_quiet h f.world rfl).follows
  | turn id hmay hmidway => exact take_follows h hmay hmidway
  | begin hmidway hp => exact begin_follows h hmidway hp
  | advance hp => exact advance_passes h hp f.world rfl

theorem sound_start {w : World} (hheartbeat : w.config.heartbeat.isSome) (hbeats : w.beats = [])
    (htasks : w.tasks = [{ id := 0, body := .errand }]) (hnext : w.nextTask = 1)
    (herrand : w.errand = .none) : w.scene.Sound fun _ => none where
  heartbeats := hheartbeat
  errand := by
    change w.errand.Idle
    rw [herrand]
    trivial
  fresh id hid := by
    have hid : 1 ≤ id := hnext ▸ hid
    refine ⟨?_, rfl⟩
    change (w.tasks.find? _).map _ = none
    have hne : 0 ≠ id := Nat.ne_of_lt hid
    simp [htasks, hne]
  phases _ _ hp := nomatch hp
  bodies id body cancelled _ hbody := by
    obtain ⟨t, ht, hbody⟩ := Option.map_eq_some_iff.1 hbody
    have hmem : t ∈ w.tasks := List.mem_of_find?_eq_some ht
    rw [htasks, List.mem_singleton] at hmem
    subst hmem
    cases hbody
    trivial
  beats session id signal hbeat := by
    have hnone : w.scene.beats session = none := by
      change (w.beats.find? _).map _ = none
      rw [hbeats]
      rfl
    cases hnone.symm.trans hbeat

end SignalCoach.Worker
