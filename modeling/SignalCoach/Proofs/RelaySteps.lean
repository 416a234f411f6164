import SignalCoach.Proofs.RelayScenes

/-! The steps of a worker in service, as changes of its relay: first the phases, by the kind of the
task, then the turns that have none, and what is asked of the worker. -/
namespace SignalCoach.Worker

open Queue (Contents Ordinary IsBeat)
open Queue.Contents (Waits TakesReady)
open Relay (Change Changes)
open PhaseState (sentAfter)

structure Follows (σ : Scene) (m : TaskId → Option Phase) (sent : TaskId → Option Envelope)
    (τ : Scene) (m' : TaskId → Option Phase) (sent' : TaskId → Option Envelope) : Prop where
  sound : τ.Sound m'
  changes : ∃ started, Changes (σ.relay m sent) started (τ.relay m' sent') ∧
    ∀ id session, started = some (id, session) →
      σ.nextTask ≤ id ∧ ∃ signal, τ.beats session = some (id, signal)

theorem Follows.after {σ τ υ : Scene} {m m' : TaskId → Option Phase}
    {sent sent' : TaskId → Option Envelope} (h : Follows τ m sent υ m' sent')
    (hchanges : Changes (σ.relay m sent) none (τ.relay m sent)) (hnext : σ.nextTask ≤ τ.nextTask) :
    Follows σ m sent υ m' sent' := by
  obtain ⟨started, hrest, hstarted⟩ := h.changes
  exact ⟨h.sound, started, hchanges.trans hrest, fun id session hs =>
    ⟨hnext.trans (hstarted id session hs).1, (hstarted id session hs).2⟩⟩

namespace Relay

theorem move_self (r : Relay) (id : TaskId) : r.move id (r.place id) = r := by
  simp [move]

theorem move_move (r : Relay) (id : TaskId) (p q : Place) : (r.move id p).move id q = r.move id q := by
  simp [move]

end Relay

namespace Scene

variable {σ τ : Scene} {m m' : TaskId → Option Phase} {sent sent' : TaskId → Option Envelope}
variable {id : TaskId}

theorem Sound.quiet (hsound : τ.Sound m')
    (h : Changes (σ.relay m sent) none (τ.relay m' sent')) : Follows σ m sent τ m' sent' :=
  ⟨hsound, none, h, fun _ _ h => nomatch h⟩

theorem Sound.moves (h : σ.Sound m) (hnear : Near id σ τ m m') (hsettled : Settled id σ τ m')
    (hchanges : Changes (σ.relay m sent) none
      { (σ.relay m sent).move id (τ.place m' id) with queue := τ.queue, sent := sent' }) :
    Follows σ m sent τ m' sent' :=
  (h.near hnear hsettled).quiet (by rwa [relay_near hnear sent sent'])

theorem Sound.task_of_signal (h : σ.Sound m) {s : String} (hlive : σ.signal id s ≠ none) :
    ∃ beating, σ.tasks id = some (.heartbeat s beating, false) := by
  unfold signal at hlive
  cases hbeat : σ.beats s with
  | none => simp [hbeat] at hlive
  | some b =>
    by_cases hb : b.1 = id
    · exact hb ▸ h.beats s b.1 b.2 hbeat
    · simp [hbeat, hb] at hlive

theorem Sound.old (h : σ.Sound m) (hid : σ.tasks id ≠ none ∨ m id ≠ none) : id < σ.nextTask := by
  by_contra hge
  obtain ⟨htasks, hm⟩ := h.fresh id (Nat.not_lt.1 hge)
  exact hid.elim (· htasks) (· hm)

section Heartbeats

theorem signal_of_beats {s : String} {v : Bool} (h : σ.beats s = some (id, v)) :
    σ.signal id s = some v := by
  simp [signal, h]

theorem isReported_iff (s : String) : σ.isReported id s = true ↔ σ.signal id s = some true := by
  unfold isReported signal
  cases σ.beats s with
  | none => simp
  | some b =>
    obtain ⟨t, v⟩ := b
    by_cases ht : t = id <;> simp [ht]

end Heartbeats

theorem Sound.settled_beat (h : σ.Sound m) {p q : Phase} {s : String} (hp : m id = some p)
    (hfits : ∀ body cancelled, σ.tasks id = some (body, cancelled) →
      body = .heartbeat s .sleeping ∧ (cancelled = false → σ.signal id s ≠ none))
    (hbeats : τ.beats = σ.beats) (htasks : τ.tasks = σ.tasks)
    (hq : q = .enqueuing s ∨ ∃ answer, q = .enqueued s answer) :
    Settled id σ τ (Function.update m id (some q)) where
  old := h.old (.inr (by rw [hp]; simp))
  phase p' hp' := by
    rw [Function.update_self] at hp'
    obtain rfl := Option.some.inj hp'
    have hsignal : τ.signal id = σ.signal id := by
      funext s
      rw [signal, hbeats, signal]
    rcases hq with rfl | ⟨answer, rfl⟩ <;>
      · simp only [Phase.Fits, htasks, hsignal]
        exact hfits
  body body cancelled hnone := by
    rw [Function.update_self] at hnone
    cases hnone
  beat session signal hbeat := by
    rw [htasks]
    exact h.beats session id signal hbeat

end Scene

open Scene

variable {σ : Scene} {m : TaskId → Option Phase} {sent : TaskId → Option Envelope} {id : TaskId}

abbrev Passes (σ : Scene) (m : TaskId → Option Phase) (sent : TaskId → Option Envelope) (id : TaskId)
    (x : Turn (Option Phase)) : Prop :=
  Shows σ x fun next τ => Follows σ m sent τ (Function.update m id next)
    (Function.update sent id (sentAfter (sent id) next))

theorem keeps_sent {τ : Scene} {next : Option Phase} (hsame : sentAfter (sent id) next = sent id)
    (h : Follows σ m sent τ (Function.update m id next) sent) :
    Follows σ m sent τ (Function.update m id next)
      (Function.update sent id (sentAfter (sent id) next)) := by
  rwa [hsame, Function.update_eq_self]

section Heartbeats

theorem place_of_phase {p : Phase} (hp : m id = some p) :
    σ.place m id = .ofPhase (σ.signal id) p := by
  rw [place, hp]

theorem place_update (p : Phase) :
    σ.place (Function.update m id (some p)) id = .ofPhase (σ.signal id) p :=
  place_of_phase (Function.update_self ..)

theorem near_of_phase (next : Option Phase) (queue : Contents) :
    Near id σ { σ with queue } m (Function.update m id next) where
  config := rfl
  beats := rfl
  nextTask := rfl
  errand := rfl
  others _ hi := ⟨rfl, rfl, Function.update_of_ne hi _ _⟩

theorem enqueuing_passes (h : σ.Sound m) {session : String} (hp : m id = some (.enqueuing session)) :
    Passes σ m sent id ((Phase.enqueuing session).advance id) := by
  refine Shows.get_bind fun w _ => Shows.bind (Turn.act_shows fun b hb =>
    hb ▸ Queue.scheduleHeartbeat_beating w.clock session b) fun answer τ hτ => ?_
  obtain ⟨queue, hbeating, rfl⟩ := hτ
  refine Shows.answer (h.moves (near_of_phase _ queue)
    (h.settled_beat hp (h.phases id _ hp) rfl rfl (.inr ⟨answer, rfl⟩)) (Change.changes ?_))
  have hplace : (σ.relay m sent).place id = .beating session (σ.signal id session) .enqueuing :=
    place_of_phase hp
  rw [place_update]
  rcases answer with fault | _ | e
  · obtain rfl : queue = σ.queue := hbeating
    exact .miss hplace
  · obtain rfl : queue = σ.queue := hbeating
    exact .miss hplace
  · obtain ⟨hbeat, entry, hentry, rfl⟩ := hbeating
    exact .enqueue hplace hbeat hentry

theorem clearing_passes (h : σ.Sound m) {session : String} (hp : m id = some (.clearing session)) :
    Passes σ m sent id ((Phase.clearing session).advance id) := by
  refine Shows.after (Turn.clearSignal_acts id) fun _ => Shows.answer ?_
  have hclear := h.clear id
  have hnear : Near id (σ.clear id) (σ.clear id) m _ := near_of_phase (some (.enqueuing session)) _
  have hsettled := hclear.settled_beat hp (hclear.phases id _ hp) rfl rfl (.inl rfl)
  refine (hclear.near hnear hsettled).quiet (Change.changes ?_)
  rw [relay_near hnear sent, relay_clear, place_update, Place.ofPhase, signal_clear, if_pos rfl,
    Relay.move_move]
  exact .clear (place_of_phase hp)

theorem near_setBody (next : Option Phase) (body : Body) (queue : Contents) :
    Near id σ (({ σ with queue } : Scene).setBody id body) m (Function.update m id next) where
  config := rfl
  beats := rfl
  nextTask := rfl
  errand := rfl
  others _ hi := ⟨if_neg hi, rfl, Function.update_of_ne hi _ _⟩

theorem tasks_setBody (body : Body) {other : Body} {cancelled : Bool}
    (htask : σ.tasks id = some (other, cancelled)) :
    (σ.setBody id body).tasks id = some (body, cancelled) := by
  simp [setBody, htask]

theorem place_update_none (h : σ.tasks id = none) :
    σ.place (Function.update m id none) id = .idle := by
  rw [place, Function.update_self, h]
  rfl

theorem place_of_task {body : Body} {cancelled : Bool} (h : σ.tasks id = some (body, cancelled)) :
    σ.place (Function.update m id none) id = .ofBody (σ.signal id) (σ.slots id) body := by
  rw [place, Function.update_self, h]
  rfl

/-- The call of a heartbeat that was stopped returns, and nothing comes of it. -/
theorem enqueued_ceases (h : σ.Sound m) {session : String}
    {answer : Except Queue.Fault (Option Envelope)} (hp : m id = some (.enqueued session answer))
    (hdead : ∀ t, σ.tasks id = some t → t.2 = true) :
    Follows σ m sent σ (Function.update m id none) sent := by
  have hsignal : σ.signal id session = none := by
    by_contra hlive
    obtain ⟨beating, htask⟩ := h.task_of_signal hlive
    exact nomatch hdead _ htask
  have hplace : (σ.relay m sent).place id =
      .beating session none (.called answer.toOption.join.isSome) :=
    (place_of_phase hp).trans (by rw [Place.ofPhase, hsignal])
  refine h.moves (near_of_phase none σ.queue) ?_ (Change.changes (.cease hplace ?_))
  · refine {
      old := h.old (.inr (by simp [hp]))
      phase := fun p hp => ?_
      body := fun body cancelled _ htask => ?_
      beat := fun s => h.beats s id }
    · rw [Function.update_self] at hp
      cases hp
    · obtain ⟨rfl, -⟩ := h.phases id _ hp body cancelled htask
      obtain rfl : cancelled = true := hdead _ htask
      exact fun hlive => nomatch hlive
  · cases htask : σ.tasks id with
    | none => exact .inl (place_update_none htask)
    | some t =>
      obtain ⟨body, cancelled⟩ := t
      obtain ⟨rfl, -⟩ := h.phases id _ hp body cancelled htask
      exact .inr ((place_of_task htask).trans (congrArg (Place.beating session · .resting) hsignal))

theorem beat_rests (h : σ.Sound m) {session : String} {before after : Beating} {v : Bool}
    (htask : σ.tasks id = some (.heartbeat session before, false))
    (hsignal : σ.signal id session = some v)
    (hchanges : Changes (σ.relay m sent) none ((σ.relay m sent).move id
      (.ofBody (fun s => σ.signal id s) none (.heartbeat session after)))) :
    Follows σ m sent (σ.setBody id (.heartbeat session after)) (Function.update m id none) sent := by
  have htask' := tasks_setBody (.heartbeat session after) htask
  refine h.moves (near_setBody none _ σ.queue) ?_ ?_
  · refine {
      old := h.old (.inl (by simp [htask]))
      phase := fun p hp => ?_
      body := fun body cancelled _ hbody => ?_
      beat := fun s signal hbeat => ?_ }
    · rw [Function.update_self] at hp
      cases hp
    · obtain ⟨rfl, -⟩ := Prod.mk.inj (Option.some.inj (htask'.symm.trans hbody))
      intro _
      change σ.signal id session ≠ none
      simp [hsignal]
    · obtain ⟨beating, hbefore⟩ := h.beats s id signal hbeat
      cases htask.symm.trans hbefore
      exact ⟨after, htask'⟩
  · rw [place_of_task htask']
    cases after <;> exact hchanges

theorem enqueued_passes (h : σ.Sound m) {session : String}
    {answer : Except Queue.Fault (Option Envelope)} (hp : m id = some (.enqueued session answer)) :
    Passes σ m sent id ((Phase.enqueued session answer).advance id) := by
  refine Shows.bind (Turn.returnBeat_shows id session answer σ) fun _ τ hτ => Shows.answer (keeps_sent rfl ?_)
  cases htask : σ.tasks id with
  | none =>
    rw [htask] at hτ
    subst hτ
    exact enqueued_ceases h hp (by simp [htask])
  | some t =>
    obtain ⟨body, cancelled⟩ := t
    obtain ⟨rfl, hlive⟩ := h.phases id _ hp body cancelled htask
    rw [htask] at hτ
    cases cancelled with
    | true =>
      obtain rfl : τ = σ := hτ
      exact enqueued_ceases h hp (by simp [htask])
    | false =>
      obtain ⟨v, hv⟩ := Option.ne_none_iff_exists'.1 (hlive rfl)
      have hplace : (σ.relay m sent).place id =
          .beating session (some v) (.called answer.toOption.join.isSome) :=
        (place_of_phase hp).trans (by rw [Place.ofPhase, hv])
      have hreported : σ.isReported id session = v := by
        rw [Bool.eq_iff_iff, isReported_iff, hv, Option.some.injEq]
      simp only [hreported] at hτ
      subst hτ
      refine beat_rests h htask hv (Change.changes ?_)
      cases hsome : answer.toOption.join.isSome with
      | false =>
        rw [hsome] at hplace
        simp only [Bool.false_and, Bool.false_eq_true, if_false, Place.ofBody, hv]
        exact .rest hplace (.inl rfl)
      | true =>
        rw [hsome] at hplace
        cases v with
        | false =>
          simp only [Bool.not_false, Bool.and_self, if_true, Place.ofBody, hv]
          exact .wait hplace
        | true =>
          simp only [Bool.not_true, Bool.and_false, Bool.false_eq_true, if_false, Place.ofBody, hv]
          exact .rest hplace (.inr ⟨rfl, .inl rfl⟩)

end Heartbeats

section Consumers

variable {queue : Contents} {slots : TaskId → Option Envelope}

theorem settled_consumer (h : σ.Sound m) {τ : Scene} {next : Option Phase}
    (htask : Consumes (σ.tasks id))
    (hphase : ∀ p, next = some p → p.Fits τ id)
    (hbody : next = none → ∀ body cancelled, τ.tasks id = some (body, cancelled) →
      body.Fits τ id cancelled) : Settled id σ τ (Function.update m id next) where
  old := h.old (.inl (by obtain ⟨_, htask⟩ := htask; simp [htask]))
  phase p hp := hphase p (by rwa [Function.update_self] at hp)
  body body cancelled hnone := hbody (by rwa [Function.update_self] at hnone) body cancelled
  beat s signal hbeat := by
    obtain ⟨consuming, htask⟩ := htask
    obtain ⟨beating, hbeating⟩ := h.beats s id signal hbeat
    cases htask.symm.trans hbeating

theorem consumer_goes (h : σ.Sound m) {q : Phase} (htask : Consumes (σ.tasks id))
    (hslots : ∀ i, i ≠ id → slots i = σ.slots i)
    (hfits : q.Fits { σ with queue, slots } id)
    (hchanges : Changes (σ.relay m sent) none
      { (σ.relay m sent).move id (.ofPhase (σ.signal id) q) with queue := queue }) :
    Follows σ m sent { σ with queue, slots } (Function.update m id (some q)) sent := by
  refine h.moves ⟨rfl, rfl, rfl, rfl, fun i hi => ⟨rfl, hslots i hi, Function.update_of_ne hi _ _⟩⟩
    (settled_consumer h htask ?_ nofun) ?_
  · rintro p ⟨⟩
    exact hfits
  · rw [place_update]
    exact hchanges

theorem consumer_rests (h : σ.Sound m) {consuming : Consuming} (htask : Consumes (σ.tasks id))
    (hslots : ∀ i, i ≠ id → slots i = σ.slots i)
    (hjob : ∀ d ∈ (Body.consumer consuming).delivery?, ∀ e, slots id = some e →
      Turn.jobOf e = some d.job)
    (hchanges : Changes (σ.relay m sent) none
      { (σ.relay m sent).move id (.ofBody (σ.signal id) (slots id) (.consumer consuming)) with
        queue := queue }) :
    Follows σ m sent (({ σ with queue, slots } : Scene).setBody id (.consumer consuming))
      (Function.update m id none) sent := by
  have htask' : (({ σ with queue, slots } : Scene).setBody id (.consumer consuming)).tasks id =
      some (.consumer consuming, false) := by
    obtain ⟨_, htask⟩ := htask
    exact tasks_setBody (σ := { σ with queue, slots }) _ htask
  refine h.moves ⟨rfl, rfl, rfl, rfl,
    fun i hi => ⟨if_neg hi, hslots i hi, Function.update_of_ne hi _ _⟩⟩
    (settled_consumer h htask (by rintro p ⟨⟩) fun _ body cancelled hbody => ?_) ?_
  · obtain ⟨rfl, rfl⟩ := Prod.mk.inj (Option.some.inj (htask'.symm.trans hbody))
    exact ⟨rfl, hjob⟩
  · rw [place_of_task htask']
    exact hchanges

theorem consumer_ends (h : σ.Sound m) (htask : Consumes (σ.tasks id)) (hplace : σ.place m id = .idle) :
    Follows σ m sent (σ.finish id) (Function.update m id none) sent := by
  have htask' : (σ.finish id).tasks id = none := if_pos rfl
  refine h.moves ⟨rfl, rfl, rfl, rfl, fun i hi => ⟨if_neg hi, rfl, Function.update_of_ne hi _ _⟩⟩
    (settled_consumer h htask (by rintro p ⟨⟩) fun _ body cancelled hbody => ?_) ?_
  · cases htask'.symm.trans hbody
  · rw [place_update_none htask']
    have hsame := (σ.relay m sent).move_self id
    rw [show (σ.relay m sent).place id = .idle from hplace] at hsame
    rw [hsame]
    exact .none

theorem changes_of_reserving {r : Relay} {outcome : Except Queue.Fault Queue.Reservation}
    {queue : Contents} (h : Queue.Reserving r.queue outcome queue) (hplace : r.place id = .idle)
    (signal : String → Option Bool) :
    Changes r none { r.move id (.ofPhase signal (.looked outcome)) with queue := queue } := by
  obtain ⟨due, hwaits, houtcome⟩ := h
  have hdue : Change r { r with queue := due } :=
    .queue (hwaits.mono (fun _ h => .inl h) fun _ h => h.elim)
  have hlost : (queue.ready = due.ready ∧ queue.delayed = due.delayed ∨
      ∃ entry, due.TakesReady entry queue ∧ ∃ m ids ids', Envelope.decode entry ids = (.error m, ids')) →
      Changes r none { r.move id .idle with queue := queue } := by
    intro hleft
    rw [← hplace, r.move_self]
    rcases hleft with ⟨hready, hdelayed⟩ | ⟨entry, htake, m, ids, ids', hdecode⟩
    · exact hdue.changes.change (.queue (.same hready hdelayed))
    · exact hdue.changes.change (.discard htake hdecode)
  match outcome with
  | .ok (.job e) =>
    obtain ⟨entry, htake, ids, ids', hdecode⟩ := houtcome
    exact hdue.changes.change (.take (r := { r with queue := due }) hplace htake hdecode)
  | .ok .unreadable | .ok .nothing | .error _ => exact hlost houtcome

theorem looking_passes (h : σ.Sound m) (hp : m id = some .looking) :
    Passes σ m sent id (Phase.looking.advance id) := by
  have htask : Consumes (σ.tasks id) := h.phases id _ hp
  have hplace : σ.place m id = .idle := place_of_phase hp
  refine Shows.get_bind fun w _ => ?_
  split
  · refine Shows.after (Turn.finish_acts id) fun _ => Shows.answer (keeps_sent rfl ?_)
    exact consumer_ends h htask hplace
  · refine Shows.get_bind fun w _ => Shows.bind (Turn.act_shows fun b hb =>
      hb ▸ Queue.reserve_reserving w.clock b) fun outcome τ hτ => Shows.answer (keeps_sent rfl ?_)
    obtain ⟨queue, hreserving, rfl⟩ := hτ
    exact consumer_goes h htask (fun _ _ => rfl) htask
      (changes_of_reserving hreserving hplace _)

theorem lookingAfterWait_passes (h : σ.Sound m) (hp : m id = some .lookingAfterWait) :
    Passes σ m sent id (Phase.lookingAfterWait.advance id) := by
  have htask : Consumes (σ.tasks id) := h.phases id _ hp
  have hplace : σ.place m id = .idle := place_of_phase hp
  refine Shows.bind (Turn.act_shows fun b hb =>
    hb ▸ Queue.reserveAfterWait_reserving b) fun outcome τ hτ => ?_
  obtain ⟨queue, hreserving, rfl⟩ := hτ
  have hchanges := changes_of_reserving (r := σ.relay m sent) hreserving hplace (σ.signal id)
  split
  · refine Shows.after (Turn.lookAgain_acts id) fun _ => Shows.answer (keeps_sent rfl ?_)
    exact consumer_rests h htask (fun _ _ => rfl) (by simp [Body.delivery?]) hchanges
  · refine Shows.answer (keeps_sent rfl ?_)
    exact consumer_goes h htask (fun _ _ => rfl) htask hchanges

theorem changes_same {r : Relay} {p : Place} (hplace : r.place id = p) :
    Changes r none { r.move id p with queue := r.queue } := by
  rw [← hplace, r.move_self]
  exact .none

theorem looked_passes (h : σ.Sound m) {outcome : Except Queue.Fault Queue.Reservation}
    (hp : m id = some (.looked outcome)) : Passes σ m sent id ((Phase.looked outcome).advance id) := by
  have htask : Consumes (σ.tasks id) := h.phases id _ hp
  have hplace : (σ.relay m sent).place id = _ := place_of_phase hp
  match outcome with
  | .ok (.job e) =>
    refine Shows.after (Turn.setEnvelope_acts id e) fun _ => Shows.answer (keeps_sent rfl ?_)
    exact consumer_goes h htask (fun i hi => if_neg hi) ⟨htask, if_pos rfl⟩ (changes_same hplace)
  | .ok .unreadable =>
    refine Shows.after (Turn.lookAgain_acts id) fun _ => Shows.answer (keeps_sent rfl ?_)
    exact consumer_rests h htask (fun _ _ => rfl) (by simp [Body.delivery?]) (changes_same hplace)
  | .ok .nothing | .error _ =>
    refine Shows.after (Turn.rest_acts id _) fun _ => Shows.answer (keeps_sent rfl ?_)
    exact consumer_rests h htask (fun _ _ => rfl) (by simp [Body.delivery?]) (changes_same hplace)

structure Holds (σ : Scene) (m : TaskId → Option Phase) (id : TaskId) (e : Envelope) : Prop where
  task : Consumes (σ.tasks id)
  slot : σ.slots id = some e
  place : σ.place m id = .holding e

variable {e : Envelope} {d : Delivery}

namespace Holds

theorem job_of_slot (h : Holds σ m id e) (hjob : Turn.jobOf e = some d.job) :
    ∀ d' ∈ some d, ∀ e', σ.slots id = some e' → Turn.jobOf e' = some d'.job := by
  rintro _ ⟨⟩ e' he'
  obtain rfl := Option.some.inj (h.slot.symm.trans he')
  exact hjob

theorem place_of_slot (h : Holds σ m id e) (stage : Stage)
    (hstage : ∀ settlement, stage ≠ .halting settlement) :
    σ.place m id = .ofBody (σ.signal id) (σ.slots id) (.consumer (.delivering stage)) := by
  rw [h.place, h.slot]
  cases stage with
  | halting settlement => exact absurd rfl (hstage settlement)
  | _ => rfl

end Holds

theorem doneWith_delivery? (outcome : Processed) :
    (Body.consumer (Turn.doneWith outcome)).delivery? = none := by
  cases outcome <;> rfl

theorem ofBody_doneWith (signal : String → Option Bool) (slot : Option Envelope)
    (outcome : Processed) : Place.ofBody signal slot (.consumer (Turn.doneWith outcome)) = .idle := by
  cases outcome <;> rfl

theorem refuse_passes (h : σ.Sound m) (hholds : Holds σ m id e) (error : String)
    (hbeats : ∀ session, e.isBeatOf session = false) :
    Passes σ m sent id (Turn.refuse id e error) := by
  refine Shows.bind (Turn.reject_shows id e error σ) fun p τ hτ => ?_
  obtain ⟨⟨outcome, rfl⟩, queue, e', hwaits, rfl⟩ := hτ
  refine Shows.after (Turn.continueWith_acts id _) fun _ => Shows.answer (keeps_sent rfl ?_)
  refine consumer_rests h hholds.task (fun i hi => if_neg hi)
    (by simp [doneWith_delivery?]) ?_
  rw [ofBody_doneWith]
  refine (Change.release hholds.place (fun s hs => ?_) (.inl rfl)).changes.change (.queue ?_)
  · rw [hbeats s] at hs
    cases hs
  · exact hwaits.mono (fun _ h => h.elim) fun _ h => h.elim

theorem beginLoad_passes (h : σ.Sound m) (hholds : Holds σ m id e) (hjob : Turn.jobOf e = some d.job) :
    Passes σ m sent id (Turn.beginLoad id e d) := by
  refine Shows.unseen (Turn.note_unseen _) fun _ => Shows.get_bind fun w _ => ?_
  dsimp only
  split
  · refine Shows.answer (keeps_sent rfl ?_)
    exact consumer_goes h hholds.task (fun _ _ => rfl) ⟨hholds.task, hholds.slot, hjob⟩
      (changes_same hholds.place)
  · refine Shows.unseen (Turn.sleep_unseen _ _) fun _ =>
      Shows.after (Turn.continueWith_acts id _) fun _ => Shows.answer (keeps_sent rfl ?_)
    refine consumer_rests h hholds.task (fun _ _ => rfl) ?_ (changes_same ?_)
    · exact hholds.job_of_slot hjob
    · exact hholds.place_of_slot (.loading d) (by simp)

theorem entering_passes (h : σ.Sound m) (hp : m id = some (.entering e)) :
    Passes σ m sent id ((Phase.entering e).advance id) := by
  obtain ⟨htask, hslot⟩ := h.phases id _ hp
  have hholds : Holds σ m id e := ⟨htask, hslot, place_of_phase hp⟩
  change Passes σ m sent id (Turn.beginEntry id e)
  unfold Turn.beginEntry
  split
  next hname =>
    refine refuse_passes h hholds _ fun session => ?_
    have hne : e.name ≠ Queue.heartbeatName := by
      intro hbeat
      rw [hbeat] at hname
      exact absurd hname (by decide)
    simp [Envelope.isBeatOf, hne]
  next =>
    split
    next hjob =>
      refine refuse_passes h hholds _ fun session => ?_
      simp [Envelope.isBeatOf, Envelope.session?, hjob]
    next job hjob =>
      refine Shows.unseen (Turn.lock_unseen id _) fun free => ?_
      split
      · exact beginLoad_passes h hholds hjob
      · refine Shows.after (Turn.continueWith_acts id _) fun _ => Shows.answer (keeps_sent rfl ?_)
        exact consumer_rests h htask (fun _ _ => rfl) (hholds.job_of_slot hjob)
          (changes_same (hholds.place_of_slot (.locking _) (by simp)))

theorem locked_passes (h : σ.Sound m) (hp : m id = some (.locked e d)) :
    Passes σ m sent id ((Phase.locked e d).advance id) := by
  obtain ⟨htask, hslot, hjob⟩ := h.phases id _ hp
  exact Shows.unseen (Turn.lockAfterWait_unseen _ _) fun _ =>
    beginLoad_passes h ⟨htask, hslot, place_of_phase hp⟩ hjob

theorem handling_passes (h : σ.Sound m) (hp : m id = some (.handling e d)) :
    Passes σ m sent id ((Phase.handling e d).advance id) := by
  obtain ⟨htask, hslot, hjob⟩ := h.phases id _ hp
  refine Shows.unseen (Turn.handle_unseen d) fun outcome => Shows.answer (keeps_sent rfl ?_)
  exact consumer_goes h htask (fun _ _ => rfl) ⟨htask, hslot, hjob⟩
    (changes_same (p := .holding e) (place_of_phase hp))

theorem session_of_isBeatOf {session : String} (hjob : Turn.jobOf e = some d.job)
    (hbeat : e.isBeatOf session = true) : session = d.job.sessionId := by
  have hsession := Envelope.session?_of_isBeatOf hbeat
  rw [Envelope.session?, hjob] at hsession
  exact (Option.some.inj hsession).symm

theorem afterReport_passes (h : σ.Sound m) (hholds : Holds σ m id e) (told : Bool × Settlement)
    (hbeats : ∀ session, e.isBeatOf session = true → ¬ (σ.relay m sent).Beats session) :
    Passes σ m sent id (Turn.afterReport id e told) := by
  have hchanges : Changes (σ.relay m sent) none ((σ.relay m sent).move id (.settling e)) :=
    (Change.release hholds.place hbeats (.inr rfl)).changes
  match told with
  | (false, settlement) =>
    refine Shows.answer (keeps_sent rfl ?_)
    exact consumer_goes h hholds.task (fun _ _ => rfl) ⟨hholds.task, hholds.slot⟩ hchanges
  | (true, settlement) =>
    refine Shows.after (Turn.continueWith_acts id _) fun _ => Shows.answer (keeps_sent rfl ?_)
    refine consumer_rests h hholds.task (fun _ _ => rfl) (by simp [Body.delivery?, Stage.delivery?]) ?_
    rw [hholds.slot]
    exact hchanges

theorem follows_start {τ υ : Scene} {m' : TaskId → Option Phase} {sent' : TaskId → Option Envelope}
    {session : String} (hsound : τ.Sound m')
    (hchanges : Changes (σ.relay m sent) none (τ.relay m' sent'))
    (hnext : τ.nextTask = σ.nextTask)
    (hυ : υ = τ ∨ τ.beats session = none ∧ υ = τ.start session) : Follows σ m sent υ m' sent' := by
  rcases hυ with rfl | ⟨hnone, rfl⟩
  · exact hsound.quiet hchanges
  refine ⟨hsound.start hnone, some (τ.nextTask, session),
    hchanges.start (hsound.starts hnone sent'), ?_⟩
  rintro id s ⟨⟩
  refine ⟨Nat.le_of_eq hnext.symm, false, ?_⟩
  change (τ.beats session).or _ = _
  simp [hnone]

theorem reported_scene (sent : TaskId → Option Envelope) (h : σ.Sound m) (htask : Consumes (σ.tasks id)) (hslot : σ.slots id = some e)
    (settlement : Settlement) :
    σ.Sound (Function.update m id (some (.reported e settlement))) ∧
      σ.relay (Function.update m id (some (.reported e settlement))) sent =
        (σ.relay m sent).move id (.settling e) := by
  have hnear : Near id σ σ m (Function.update m id (some (.reported e settlement))) :=
    near_of_phase _ _
  refine ⟨h.near hnear (settled_consumer h htask ?_ nofun), ?_⟩
  · rintro p ⟨⟩
    exact ⟨htask, hslot⟩
  · rw [relay_near hnear sent sent, place_update]
    rfl

theorem handled_passes (h : σ.Sound m) {outcome : Except Failure JobResult}
    (hp : m id = some (.handled e d outcome)) :
    Passes σ m sent id ((Phase.handled e d outcome).advance id) := by
  obtain ⟨htask, hslot, hjob⟩ := h.phases id _ hp
  have hplace : σ.place m id = .holding e := place_of_phase hp
  refine Shows.unseen (Turn.unlock_unseen _) fun _ => Shows.bind
    (Turn.report_shows id e d.job outcome σ h.heartbeats) fun told τ hτ => ?_
  rcases hτ with rfl | ⟨hwaits, hτ⟩
  · -- The heartbeat was stopped, so nobody waits for the report of its job.
    have hhalt := h.halt d.job.sessionId
    obtain ⟨htask', hslot', -⟩ := hhalt.phases id _ hp
    have hchanges : Changes (σ.relay m sent) none ((σ.halt d.job.sessionId).relay m sent) := by
      rw [relay_halt]
      exact (Change.halt _).changes
    refine (afterReport_passes hhalt ⟨htask', hslot', place_of_phase hp⟩ told
      fun session hbeat => ?_).post fun _ _ hfollows =>
        hfollows.after hchanges (Nat.le_of_eq (halt_frame _).2.2.2.2.symm)
    rw [session_of_isBeatOf hjob hbeat]
    exact not_beats (beats_halt _) sent
  · obtain ⟨waits, settlement⟩ := told
    obtain rfl : waits = false := hwaits
    refine Shows.answer (keeps_sent rfl ?_)
    by_cases hname : e.name = Queue.heartbeatName
    · have hbeat : e.isBeatOf d.job.sessionId = true := by
        simp [Envelope.isBeatOf, Envelope.session?, hname, hjob]
      obtain ⟨hsound, hrelay⟩ := reported_scene sent (h.report d.job.sessionId) htask hslot
        settlement
      simp only [hname, if_true] at hτ
      refine follows_start hsound ?_ rfl hτ
      rw [hrelay, relay_report]
      exact (Change.report hplace hbeat).changes
    · obtain ⟨hsound, hrelay⟩ := reported_scene sent h htask hslot settlement
      simp only [hname, if_false] at hτ
      refine follows_start hsound ?_ rfl hτ
      rw [hrelay]
      refine (Change.release hplace (fun session hbeat => ?_) (.inr rfl)).changes
      simp [Envelope.isBeatOf, hname] at hbeat

theorem reported_passes (h : σ.Sound m) {settlement : Settlement}
    (hp : m id = some (.reported e settlement)) :
    Passes σ m sent id ((Phase.reported e settlement).advance id) := by
  obtain ⟨htask, hslot⟩ := h.phases id _ hp
  refine Shows.bind (Turn.settle_shows id e settlement σ) fun p τ hτ => ?_
  obtain ⟨⟨outcome, rfl⟩, queue, slots, hwaits, rfl, hslots⟩ := hτ
  refine Shows.after (Turn.continueWith_acts id _) fun _ => Shows.answer (keeps_sent rfl ?_)
  refine consumer_rests h htask hslots (by simp [doneWith_delivery?]) ?_
  rw [ofBody_doneWith]
  exact (Change.settle (place_of_phase hp) hwaits).changes

end Consumers

/-- Every phase of a task passes the jobs of heartbeats on as the relay does. -/
theorem advance_passes (h : σ.Sound m) {p : Phase} (hp : m id = some p) :
    Passes σ m sent id (p.advance id) := by
  cases p with
  | clearing session => exact clearing_passes h hp
  | enqueuing session => exact enqueuing_passes h hp
  | enqueued session answer => exact enqueued_passes h hp
  | looking => exact looking_passes h hp
  | lookingAfterWait => exact lookingAfterWait_passes h hp
  | looked outcome => exact looked_passes h hp
  | entering e => exact entering_passes h hp
  | locked e d => exact locked_passes h hp
  | handling e d => exact handling_passes h hp
  | handled e d outcome => exact handled_passes h hp
  | reported e settlement => exact reported_passes h hp

end SignalCoach.Worker
