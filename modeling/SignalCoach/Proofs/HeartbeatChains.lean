import SignalCoach.Proofs.RelayTurns

/-! A chain of heartbeats goes on: who waits for the report of a job is told of it in the end, since
the job is ready, or somebody has it who has not reported it yet. -/
namespace SignalCoach.Worker

open Queue (Contents Ordinary IsBeat beatsFor)
open Queue.Contents (Waits TakesReady)

inductive Round.Awaits : Round → Prop where
  | called : Awaits (.called true)
  | waiting : Awaits .waiting

namespace Relay

variable {r r' : Relay} {id : TaskId} {session : String} {entry : Entry}

def Held (r : Relay) (entry : Entry) : Prop :=
  ∃ id e ids ids', r.place id = .holding e ∧ Envelope.decode entry ids = (.ok e, ids')

/-- The job of a heartbeat's round is ready, or it is held. -/
def Underway (r : Relay) (id : TaskId) (session : String) : Prop :=
  ∃ e entry, r.sent id = some e ∧ IsBeat session e ∧ e.encode? = some entry ∧
    (entry ∈ r.queue.ready ∨ r.Held entry)

def Awaits (r : Relay) (id : TaskId) (session : String) : Prop :=
  ∃ round, r.place id = .beating session (some false) round ∧ round.Awaits

/-- No heartbeat waits in vain. -/
def Unbroken (r : Relay) : Prop := ∀ id session, r.Awaits id session → r.Underway id session

structure Keeps (session : String) (r r' : Relay) : Prop where
  ready : ∀ entry ∈ r.queue.ready, beatsFor session entry = true →
    entry ∈ r'.queue.ready ∨ r'.Held entry
  held : ∀ id e, r.place id = .holding e → e.isBeatOf session = true → r'.place id = .holding e

theorem Underway.keep (h : r.Underway id session) (hkeeps : Keeps session r r')
    (hsent : r'.sent id = r.sent id) : r'.Underway id session := by
  obtain ⟨e, entry, hgiven, hbeat, hentry, hwhere⟩ := h
  refine ⟨e, entry, hsent.trans hgiven, hbeat, hentry, ?_⟩
  have hfor : beatsFor session entry = true := by simp [hbeat.beatsFor hentry]
  rcases hwhere with hready | ⟨c, e', ids, ids', hplace, hdecode⟩
  · exact hkeeps.ready entry hready hfor
  · rw [Queue.beatsFor_of_decode hdecode] at hfor
    exact .inr ⟨c, e', ids, ids', hkeeps.held c e' hplace hfor, hdecode⟩

theorem Unbroken.step (h : r.Unbroken) (id : TaskId)
    (hwaits : ∀ i s, r'.Awaits i s → i ≠ id → r.Awaits i s ∧ Keeps s r r' ∧ r'.sent i = r.sent i)
    (hself : ∀ s, r'.Awaits id s → r'.Underway id s) : r'.Unbroken := by
  intro i s hawaits
  by_cases hi : i = id
  · subst hi
    exact hself s hawaits
  · obtain ⟨hbefore, hkeeps, hsent⟩ := hwaits i s hawaits hi
    exact (h i s hbefore).keep hkeeps hsent

section Moves

variable {p : Place} {queue : Contents} {sent : TaskId → Option Envelope}

theorem awaits_move {i : TaskId} (hi : i ≠ id) (s : String) :
    ({ r.move id p with queue, sent } : Relay).Awaits i s ↔ r.Awaits i s := by
  have hsame : ({ r.move id p with queue, sent } : Relay).place i = r.place i :=
    Function.update_of_ne hi _ _
  unfold Awaits
  rw [hsame]

theorem keeps_move {s : String} (hplace : ∀ e, r.place id = .holding e → e.isBeatOf s = false)
    (hready : ∀ entry ∈ r.queue.ready, entry ∈ queue.ready) :
    Keeps s r { r.move id p with queue, sent } where
  ready entry hentry _ := .inl (hready entry hentry)
  held i e hi hbeat := by
    have hne : i ≠ id := by
      rintro rfl
      rw [hplace e hi] at hbeat
      cases hbeat
    exact (Function.update_of_ne hne _ _).trans hi

theorem Unbroken.move (h : r.Unbroken)
    (hplace : ∀ e s, r.place id = .holding e → r.Beats s → e.isBeatOf s = false)
    (hready : ∀ entry ∈ r.queue.ready, entry ∈ queue.ready)
    (hsent : ∀ i, i ≠ id → sent i = r.sent i)
    (hself : ∀ s, ({ r.move id p with queue, sent } : Relay).Awaits id s →
      ({ r.move id p with queue, sent } : Relay).Underway id s) :
    ({ r.move id p with queue, sent } : Relay).Unbroken := by
  refine h.step id (fun i s hawaits hi => ?_) hself
  have hbefore := (awaits_move hi s).1 hawaits
  obtain ⟨round, hround, -⟩ := hbefore
  exact ⟨(awaits_move hi s).1 hawaits,
    keeps_move (fun e he => hplace e s he ⟨i, false, round, hround⟩) hready, hsent i hi⟩

theorem Unbroken.pass (h : r.Unbroken) (hplace : ∀ e, r.place id ≠ .holding e)
    (hready : ∀ entry ∈ r.queue.ready, entry ∈ queue.ready)
    (hsent : ∀ i, i ≠ id → sent i = r.sent i)
    (hp : ∀ s round, p = .beating s (some false) round → ¬ round.Awaits) :
    ({ r.move id p with queue, sent } : Relay).Unbroken := by
  refine h.move (fun e _ he => absurd he (hplace e)) hready hsent ?_
  rintro s ⟨round, hround, hawaits⟩
  exact absurd hawaits (hp s round ((Function.update_self ..).symm.trans hround))

end Moves

theorem keeps_place {s : String} (hqueue : r'.queue = r.queue)
    (hheld : ∀ id e, r.place id = .holding e → e.isBeatOf s = true → r'.place id = .holding e) :
    Keeps s r r' := ⟨fun _ hentry _ => .inl (hqueue ▸ hentry), hheld⟩

theorem Unbroken.take {e : Envelope} {c : Contents} {ids ids' : IdSupply} (h : r.Unbroken)
    (hplace : r.place id = .idle) (htake : r.queue.TakesReady entry c)
    (hdecode : Envelope.decode entry ids = (.ok e, ids')) :
    ({ r.move id (.holding e) with queue := c } : Relay).Unbroken := by
  have hself : ({ r.move id (.holding e) with queue := c } : Relay).place id = .holding e :=
    Function.update_self ..
  refine h.step id (fun i s hawaits hi => ⟨(awaits_move hi s).1 hawaits, ⟨?_, ?_⟩, rfl⟩) ?_
  · intro other hother _
    rw [htake.1, List.mem_cons] at hother
    rcases hother with rfl | hother
    · exact .inr ⟨id, e, ids, ids', hself, hdecode⟩
    · exact .inl hother
  · intro j e' hj _
    have hne : j ≠ id := by
      rintro rfl
      cases hplace.symm.trans hj
    exact (Function.update_of_ne hne _ _).trans hj
  · rintro s ⟨round, hround, -⟩
    cases hself.symm.trans hround

theorem Unbroken.discard {c : Contents} {ids ids' : IdSupply} {m : Envelope.Malformed}
    (h : r.Unbroken) (htake : r.queue.TakesReady entry c)
    (hdecode : Envelope.decode entry ids = (.error m, ids')) :
    ({ r with queue := c } : Relay).Unbroken := by
  intro i s hawaits
  refine (h i s hawaits).keep ⟨fun other hother hbeat => ?_, fun _ _ he _ => he⟩ rfl
  rw [htake.1, List.mem_cons] at hother
  rcases hother with rfl | hother
  · rw [Queue.beatsFor_of_malformed hdecode] at hbeat
    cases hbeat
  · exact .inl hother

theorem Unbroken.enqueue {signal : Option Bool} {e : Envelope} (h : r.Unbroken)
    (hplace : r.place id = .beating session signal .enqueuing) (hbeat : IsBeat session e)
    (hentry : e.encode? = some entry) :
    ({ r.move id (.beating session signal (.called true)) with
        queue := r.queue.pushReady entry
        sent := Function.update r.sent id (some e) } : Relay).Unbroken := by
  refine h.move (by simp [hplace]) (fun _ h => List.mem_append_left _ h)
    (fun i hi => Function.update_of_ne hi _ _) ?_
  rintro s ⟨round, hround, -⟩
  obtain ⟨rfl, -, -⟩ := Place.beating.inj ((Function.update_self ..).symm.trans hround)
  exact ⟨e, entry, Function.update_self .., hbeat, hentry, .inl (List.mem_append_right _ (by simp))⟩

theorem awaits_halt {i : TaskId} {s : String}
    (h : ({ r with place := fun i => (r.place i).halt session } : Relay).Awaits i s) : r.Awaits i s := by
  obtain ⟨round, hround, hawaits⟩ := h
  refine ⟨round, ?_, hawaits⟩
  change (r.place i).halt session = _ at hround
  cases hplace : r.place i with
  | beating s' signal round' =>
    rw [hplace, Place.halt] at hround
    split at hround
    · cases hround
    · exact hround
  | idle | holding | settling =>
    rw [hplace] at hround
    cases hround

theorem awaits_report {i : TaskId} {s : String}
    (h : ({ r with place := fun i => (r.place i).report session } : Relay).Awaits i s) :
    r.Awaits i s ∧ s ≠ session := by
  obtain ⟨round, hround, hawaits⟩ := h
  change (r.place i).report session = _ at hround
  cases hplace : r.place i with
  | beating s' signal round' =>
    rw [hplace, Place.report] at hround
    obtain ⟨rfl, hsignal, rfl⟩ := Place.beating.inj hround
    split at hsignal
    · cases signal <;> cases hsignal
    next hs => exact ⟨⟨round', by rw [hplace, hsignal], hawaits⟩, hs⟩
  | idle | holding | settling =>
    rw [hplace] at hround
    cases hround

theorem Unbroken.halt (h : r.Unbroken) (session : String) :
    ({ r with place := fun i => (r.place i).halt session } : Relay).Unbroken := by
  intro i s hawaits
  refine (h i s (awaits_halt hawaits)).keep (keeps_place rfl fun j e hj _ => ?_) rfl
  change (r.place j).halt session = _
  rw [hj]
  rfl

theorem Unbroken.report {e : Envelope} (h : r.Unbroken) (hplace : r.place id = .holding e)
    (hbeat : e.isBeatOf session = true) :
    (Relay.move { r with place := fun i => (r.place i).report session } id (.settling e)).Unbroken := by
  refine h.step id (fun i s hawaits hi => ?_) ?_
  · obtain ⟨hbefore, hs⟩ := awaits_report ((awaits_move hi s).1 hawaits)
    refine ⟨hbefore, keeps_place rfl fun j e' hj hbeat' => ?_, rfl⟩
    have hne : j ≠ id := by
      rintro rfl
      obtain rfl := Place.holding.inj (hplace.symm.trans hj)
      exact hs (Envelope.isBeatOf_inj hbeat' hbeat)
    refine (Function.update_of_ne hne _ _).trans ?_
    change (r.place j).report session = _
    rw [hj]
    rfl
  · rintro s ⟨round, hround, -⟩
    cases (Function.update_self ..).symm.trans hround

theorem Unbroken.wait (h : r.Unbroken)
    (hplace : r.place id = .beating session (some false) (.called true)) :
    (r.move id (.beating session (some false) .waiting)).Unbroken := by
  have hunderway := h id session ⟨_, hplace, .called⟩
  refine h.move (by simp [hplace]) (fun _ h => h) (fun _ _ => rfl) ?_
  rintro s ⟨round, hround, -⟩
  obtain ⟨rfl, -, -⟩ := Place.beating.inj ((Function.update_self ..).symm.trans hround)
  exact hunderway.keep (keeps_move (by simp [hplace]) fun _ h => h) rfl

theorem Unbroken.release {e : Envelope} {p : Place} (h : r.Unbroken) (hplace : r.place id = .holding e)
    (hbeats : ∀ session, e.isBeatOf session = true → ¬ r.Beats session)
    (hp : p = .idle ∨ p = .settling e) : (r.move id p).Unbroken := by
  refine h.move (fun e' s he' hs => ?_) (fun _ h => h) (fun _ _ => rfl) ?_
  · obtain rfl := Place.holding.inj (hplace.symm.trans he')
    exact Bool.eq_false_iff.2 fun hbeat => hbeats s hbeat hs
  · rintro s ⟨round, hround, -⟩
    have hround := (Function.update_self ..).symm.trans hround
    rcases hp with rfl | rfl <;> cases hround

/-- Whatever happens, no heartbeat is left waiting in vain. -/
theorem Change.unbroken (hchange : Change r r') (h : r.Unbroken) : r'.Unbroken := by
  cases hchange with
  | queue hwaits =>
    exact fun i s hawaits => (h i s hawaits).keep
      ⟨fun _ hentry _ => .inl (hwaits.mem_ready hentry), fun _ _ he _ => he⟩ rfl
  | take hplace htake hdecode => exact h.take hplace htake hdecode
  | discard htake hdecode => exact h.discard htake hdecode
  | begin hplace =>
    exact h.pass (by simp [hplace]) (fun _ h => h) (fun _ _ => rfl) (by rintro s _ ⟨⟩ ⟨⟩)
  | clear hplace =>
    refine h.pass (by simp [hplace]) (fun _ h => h) (fun i hi => Function.update_of_ne hi _ _) ?_
    intro s round hround hawaits
    obtain ⟨-, -, rfl⟩ := Place.beating.inj hround
    cases hawaits
  | enqueue hplace hbeat hentry => exact h.enqueue hplace hbeat hentry
  | miss hplace =>
    exact h.pass (by simp [hplace]) (fun _ h => h) (fun i hi => Function.update_of_ne hi _ _)
      (by rintro s _ ⟨⟩ ⟨⟩)
  | wait hplace => exact h.wait hplace
  | rest hplace =>
    exact h.pass (by simp [hplace]) (fun _ h => h) (fun _ _ => rfl) (by rintro s _ ⟨⟩ ⟨⟩)
  | cease hplace hp =>
    refine h.pass (by simp [hplace]) (fun _ h => h) (fun _ _ => rfl) ?_
    rcases hp with rfl | rfl <;> rintro s _ ⟨⟩
  | halt session => exact h.halt session
  | report hplace hbeat => exact h.report hplace hbeat
  | release hplace hbeats hp => exact h.release hplace hbeats hp
  | settle hplace hwaits =>
    exact h.pass (by simp [hplace]) (fun _ hentry => hwaits.mem_ready hentry) (fun _ _ => rfl) (by rintro s _ ⟨⟩)

theorem Starts.unbroken (hstarts : Starts id session r r') (h : r.Unbroken) : r'.Unbroken := by
  obtain ⟨hplace, -, rfl⟩ := hstarts
  exact h.pass (by simp [hplace]) (fun _ h => h) (fun _ _ => rfl) (by rintro s _ ⟨⟩ ⟨⟩)

theorem Changes.unbroken {started : Option (TaskId × String)} (hchanges : Changes r started r')
    (h : r.Unbroken) : r'.Unbroken := by
  induction hchanges with
  | none => exact h
  | change _ hchange ih => exact hchange.unbroken ih
  | start _ hstarts ih => exact hstarts.unbroken ih

end Relay

namespace Place

def held? : Place → Option Envelope
  | .holding e => some e
  | _ => none

end Place

def Phase.unreported? : Phase → Option Envelope
  | .looked (.ok (.job e)) | .entering e | .locked e _ | .handling e _ | .handled e _ _ => some e
  | _ => none

namespace World

/-- The heartbeat of a session waits for the report of its job, and there is none. -/
structure Awaits (w : World) (id : TaskId) (session : String) : Prop where
  waits : (w.task? id).map (·.body) = some (.heartbeat session .waiting)
  silent : w.beats.find? (·.session = session) = some { session, task := id, signalled := false }

def unreported? (w : World) (id : TaskId) : Option Envelope :=
  match w.task? id with
  | some { body := .consumer (.delivering (.halting _)), .. } => none
  | some { body := .consumer (.delivering _), .. } => w.slot? (.consumer id)
  | _ => none

end World

namespace PhaseState

variable {f : PhaseState} {id : TaskId} {session : String}

def unreported? (f : PhaseState) (id : TaskId) : Option Envelope :=
  match f.midway id with
  | some p => p.unreported?
  | none => f.world.unreported? id

def relay (f : PhaseState) : Relay := f.world.scene.relay f.midway f.sent

theorem held?_place (f : PhaseState) (id : TaskId) : (f.relay.place id).held? = f.unreported? id := by
  change (f.world.scene.place f.midway id).held? = _
  unfold Scene.place unreported?
  cases f.midway id with
  | some p =>
    cases p with
    | looked outcome =>
      match outcome with
      | .ok (.job e) | .ok .unreadable | .ok .nothing | .error _ => rfl
    | _ => rfl
  | none =>
    change (((f.world.task? id).map _).elim Place.idle _).held? = f.world.unreported? id
    unfold World.unreported?
    cases f.world.task? id with
    | none => rfl
    | some t =>
      obtain ⟨_, body, _, _⟩ := t
      change (Place.ofBody _ (f.world.slot? (.consumer id)) body).held? = _
      cases body with
      | consumer consuming =>
        cases consuming with
        | delivering stage => cases stage <;> cases f.world.slot? (.consumer id) <;> rfl
        | _ => rfl
      | heartbeat s beating => cases beating <;> rfl
      | _ => rfl

theorem Reaches.sound {start : World} (h : Reaches start f) (hstart : start.scene.Sound fun _ => none) :
    f.world.scene.Sound f.midway := by
  induction h with
  | start => exact hstart
  | step _ hstep ih => exact (hstep.follows ih).sound

theorem Reaches.unbroken {start : World} (h : Reaches start f)
    (hstart : start.scene.Sound fun _ => none)
    (hunbroken : ({ world := start } : PhaseState).relay.Unbroken) : f.relay.Unbroken := by
  induction h with
  | start => exact hunbroken
  | step h hstep ih =>
    obtain ⟨started, hchanges, -⟩ := (hstep.follows (h.sound hstart)).changes
    exact hchanges.unbroken ih

theorem awaits_relay (hsound : f.world.scene.Sound f.midway) (h : f.world.Awaits id session) :
    f.relay.Awaits id session := by
  obtain ⟨t, htask, hbody⟩ := Option.map_eq_some_iff.1 h.waits
  have htask' : f.world.scene.tasks id = some (.heartbeat session .waiting, t.cancelled) := by
    change (f.world.task? id).map _ = _
    rw [htask, Option.map_some, hbody]
  have hmidway : f.midway id = none := by
    cases hm : f.midway id with
    | none => rfl
    | some p =>
      rcases hsound.midway_cases hm with ⟨s, hbeat⟩ | ⟨consuming, hconsumes⟩
      · cases hbeat _ _ htask'
      · cases htask'.symm.trans hconsumes
  have hsignal : f.world.scene.signal id session = some false := by
    refine Scene.signal_of_beats ?_
    change (f.world.beats.find? _).map _ = _
    rw [h.silent]
    rfl
  refine ⟨.waiting, ?_, .waiting⟩
  change f.world.scene.place f.midway id = _
  rw [Scene.place, hmidway, htask']
  exact congrArg (Place.beating session · .waiting) hsignal

/-- A chain of heartbeats never stalls: as long as the heartbeat of a session waits for the report of
a job and there is none, the job that it was given in this round is ready, or a consumer has it that
has not reported it. -/
theorem awaited_job_underway {config : Config} {roster : Roster} {broker : Queue.Broker}
    (hheartbeat : config.heartbeat.isSome) (h : Reaches { config, roster, broker } f)
    (hawaits : f.world.Awaits id session) :
    ∃ e entry, f.sent id = some e ∧ e.name = Queue.heartbeatName ∧ e.session? = some session ∧
      e.encode? = some entry ∧ (entry ∈ f.world.broker.contents.ready ∨
        ∃ c e', f.unreported? c = some e' ∧ e'.id = e.id ∧ e'.stored = some entry) := by
  have hstart : ({ config, roster, broker } : World).scene.Sound fun _ => none :=
    sound_start hheartbeat rfl rfl rfl rfl
  have hunbroken : f.relay.Unbroken := h.unbroken hstart <| by
    rintro i s ⟨round, hround, -⟩
    exact absurd ⟨i, false, round, hround⟩ (Scene.not_beats rfl _)
  obtain ⟨e, entry, hsent, hbeat, hentry, hwhere⟩ :=
    hunbroken id session (awaits_relay (h.sound hstart) hawaits)
  refine ⟨e, entry, hsent, hbeat.name, hbeat.session?, hentry, hwhere.imp_right ?_⟩
  rintro ⟨c, e', ids, ids', hplace, hdecode⟩
  have he' := Except.ok.inj (Prod.mk.inj ((hbeat.decode hentry ids).symm.trans hdecode)).1
  refine ⟨c, e', ?_, by rw [← he'], by rw [← he']⟩
  rw [← held?_place, hplace]
  rfl

def everySecond : Config where
  retries := { maxAttempts := 3, backoff := 1000 }
  concurrency := 1
  poll := 1000
  heartbeat := some 1000
  recordTime := ⟨0⟩
  clockStart := 0

theorem awaited_job_underway_first_round : ∃ f,
    Reaches { config := everySecond } f ∧ f.world.Awaits 1 "s-1" ∧
    ∃ e entry, f.sent 1 = some e ∧ e.name = Queue.heartbeatName ∧ e.session? = some "s-1" ∧
      e.encode? = some entry ∧ (entry ∈ f.world.broker.contents.ready ∨
        ∃ c e', f.unreported? c = some e' ∧ e'.id = e.id ∧ e'.stored = some entry) := by
  have hrun := @Reaches.start { config := everySecond }
    |>.step (.order (.startBeat "s-1") trivial)
    |>.step (.turn 1 rfl (.inl rfl))
    |>.step (@Step.begin _ 1 (.clearing "s-1") rfl rfl)
    |>.step (@Step.advance _ 1 (.clearing "s-1") rfl)
    |>.step (@Step.advance _ 1 (.enqueuing "s-1") rfl)
    |>.step (@Step.advance _ 1 _ rfl)
  refine ⟨_, hrun, ?_, ?_⟩
  · exact ⟨rfl, rfl⟩
  · exact awaited_job_underway rfl hrun ⟨rfl, rfl⟩

end PhaseState

end SignalCoach.Worker
