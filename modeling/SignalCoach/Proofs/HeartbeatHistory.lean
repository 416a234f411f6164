import SignalCoach.Proofs.HeartbeatChains
import SignalCoach.Proofs.LiveSessions

/-! One envelope is processed after the other, by any handler, while the heartbeats have their rounds
and the queue may refuse any command. What came of the jobs tells which sessions have a heartbeat. -/
namespace SignalCoach.Worker

open Turn (own)

def Stage.locks : Stage → List SessionLock
  | .loading d => [Turn.soleLock d.job.sessionId]
  | _ => []

def Stage.Alone : Stage → Prop
  | .locking _ => False
  | _ => True

namespace Turn

section Processing

variable (handler : Handler) (id : TaskId) (slot : Slot)

def approachLoad (e : Envelope) (d : Delivery) : Turn (Except Progress (Envelope × Delivery)) := do
  note (.load d.job.sessionId)
  let delay := (← get).config.gatewayDelay
  if delay = 0 then pure (.ok (e, d))
  else
    sleep id delay
    pure (.error (.suspended (.loading d)))

def approach (stage : Stage) : Turn (Except Progress (Envelope × Delivery)) := do
  match ← envelope? slot with
  | none => pure (.error (.finished (.ok none)))
  | some e =>
    match stage with
    | .entering =>
      if !handledNames.contains e.name then
        pure (.error (← reject slot e ("Unknown job name: " ++ e.name)))
      else
        match jobOf e with
        | none => pure (.error (← reject slot e invalidData))
        | some job =>
          let d : Delivery := { envelope := e.id, job }
          if ← lock id job.sessionId then approachLoad id e d
          else pure (.error (.suspended (.locking d)))
    | .locking d =>
      lockAfterWait id d.job.sessionId
      approachLoad id e d
    | .loading d => pure (.ok (e, d))
    | .halting settlement => pure (.error (← settle slot e settlement))

def reactTo (e : Envelope) (job : Job) : Except String JobResult → Turn Progress
  | .ok result => afterResult id slot e job result
  | .error error => afterFailure id slot e job error

def recorded (stage : Stage) : Turn (Progress × Option Handled) := do
  match ← approach id slot stage with
  | .error progress => pure (progress, none)
  | .ok (e, d) =>
    let outcome ← handler d
    unlock d.job.sessionId
    let progress ← reactTo id slot e d.job outcome
    pure (progress, some
      { name := e.name, session := d.job.sessionId, outcome := outcome.map (·.outcome) })

def carryOn : Except Progress (Envelope × Delivery) → Turn Progress
  | .error progress => pure progress
  | .ok (e, d) => carryOutBy handler id slot e d

theorem approachLoad_carryOn (e : Envelope) (d : Delivery) :
    approachLoad id e d >>= carryOn handler id slot = loadBy handler id slot e d := by
  unfold approachLoad loadBy
  simp only [bind_assoc]
  refine bind_congr fun _ => bind_congr fun w => ?_
  split
  · rw [pure_bind]
    rfl
  · rw [bind_assoc]
    rfl

theorem approach_carryOn (stage : Stage) :
    approach id slot stage >>= carryOn handler id slot = proceedBy handler id slot stage := by
  have hended (x : Turn Progress) :
      (x >>= fun progress => pure (.error progress)) >>= carryOn handler id slot = x := by
    rw [bind_assoc]
    simp only [pure_bind]
    exact bind_pure x
  unfold approach proceedBy
  rw [bind_assoc]
  refine bind_congr fun found => ?_
  cases found with
  | none => rw [pure_bind]; rfl
  | some e =>
    cases stage with
    | entering =>
      unfold enterBy
      simp only
      split
      · exact hended _
      cases jobOf e with
      | none => exact hended _
      | some job =>
        simp only [bind_assoc]
        refine bind_congr fun free => ?_
        cases free with
        | true => exact approachLoad_carryOn handler id slot e _
        | false => exact pure_bind _ _
    | locking d =>
      simp only [bind_assoc]
      exact bind_congr fun _ => approachLoad_carryOn handler id slot e d
    | loading d => exact pure_bind _ _
    | halting settlement => exact hended _

theorem recorded_fst (stage : Stage) :
    (do pure (← recorded handler id slot stage).1) = proceedBy handler id slot stage := by
  rw [← approach_carryOn]
  unfold recorded
  rw [bind_assoc]
  refine bind_congr fun outcome => ?_
  rcases outcome with progress | ⟨e, d⟩
  · exact pure_bind _ _
  · simp only [bind_assoc, pure_bind]
    refine bind_congr fun outcome => bind_congr fun _ => ?_
    cases outcome <;> exact bind_pure _

end Processing

section Records

variable {R : Register} {slot : Slot} {history : List Handled}

def WaitsOrEnds (waits : Bool) : Progress → Prop
  | .suspended (.halting _) => waits = true
  | .suspended _ => False
  | .finished _ => waits = false

def Reacts (h : Handled) (R : Register) (p : Progress) (τ : Register) : Prop :=
  τ = R.enter h ∧ WaitsOrEnds (R.ends h) p

theorem settle_ends (hslot : slot ∈ R.slots) (e : Envelope) (settlement : Settlement) :
    Records R (settle slot e settlement) fun p τ => τ = R ∧ WaitsOrEnds false p :=
  (settle_records e hslot settlement).post fun p w h => by
    obtain ⟨⟨outcome, rfl⟩, hw⟩ := h
    exact ⟨hw, rfl⟩

theorem haltAndSettle_records (hR : R.Sound 0) (hslot : slot ∈ R.slots) (e : Envelope)
    (session : String) (settlement : Settlement) :
    Records R (haltAndSettle own slot e session settlement) fun p τ =>
      τ = R.halt session ∧ WaitsOrEnds (R.beat? session).isSome p := by
  refine .bind (haltBeat_records fun beat hbeat => hR.beats_ne_own hbeat) fun waits R' h => ?_
  obtain ⟨hwaits, rfl⟩ := h
  rw [← hwaits]
  cases waits with
  | true => exact .answer ⟨rfl, rfl⟩
  | false =>
    have hkept : slot ∈ (R.halt session).slots := by
      rwa [Register.halt_frame.1]
    exact settle_ends hkept e settlement

theorem afterFailure_records (hR : R.Sound 0) (hslot : slot ∈ R.slots) (e : Envelope) (job : Job)
    (error : String) : Records R (afterFailure own slot e job error)
      (Reacts { name := e.name, session := job.sessionId, outcome := .error error } R) := by
  refine .maintained countFailed_register fun _ => .get_bind fun w hw => ?_
  have hisOn : w.config.heartbeat.isSome = true := (congrArg Register.isOn hw).trans hR.isOn
  unfold Reacts Register.enter Register.ends
  by_cases hname : e.name = Queue.heartbeatName
  · simp only [hisOn, hname, decide_true, Bool.true_and, if_true]
    exact haltAndSettle_records hR hslot e job.sessionId (.fail error)
  · simp only [hname, decide_false, Bool.and_false, Bool.false_and, Bool.false_eq_true, if_false]
    exact settle_ends hslot e (.fail error)

theorem report_start_records (hR : R.Sound 0) (hslot : slot ∈ R.slots) (e : Envelope) (job : Job)
    (result : JobResult) (hfound : result.outcome ≠ .sessionNotFound) :
    Records R (do
        if e.name = Queue.heartbeatName then reportBeat job.sessionId
        if result.outcome = .completed then
          let _ ← startBeat job.sessionId
        settle slot e (.acknowledge result))
      (Reacts { name := e.name, session := job.sessionId, outcome := .ok result.outcome } R) := by
  have hstart : Records R (do
        if result.outcome = .completed then
          let _ ← startBeat job.sessionId
        settle slot e (.acknowledge result))
      (Reacts { name := e.name, session := job.sessionId, outcome := .ok result.outcome } R) := by
    unfold Reacts Register.enter Register.ends
    cases houtcome : result.outcome with
    | completed =>
      refine .after (startBeat_records (Nat.ne_of_gt hR.own_lt)) fun _ => ?_
      exact settle_ends (by rwa [Register.start_frame.1]) e (.acknowledge result)
    | sessionNotFound => exact absurd houtcome hfound
    | snapshotNotFound | noResults | duplicate =>
      exact settle_ends hslot e (.acknowledge result)
  by_cases hname : e.name = Queue.heartbeatName
  · rw [if_pos hname]
    exact .after (reportBeat_records fun beat hbeat => hR.beats_ne_own hbeat) fun _ => hstart
  · rw [if_neg hname]
    exact hstart

theorem afterResult_records (hR : R.Sound 0) (hslot : slot ∈ R.slots) (e : Envelope) (job : Job)
    (result : JobResult) : Records R (afterResult own slot e job result)
      (Reacts { name := e.name, session := job.sessionId, outcome := .ok result.outcome } R) := by
  refine .get_bind fun w hw => ?_
  have hisOn : w.config.heartbeat.isSome = true := (congrArg Register.isOn hw).trans hR.isOn
  rw [← Option.not_isSome, hisOn]
  refine .ite (fun h => nomatch h) fun _ => .ite (fun hgone => ?_) fun hfound => ?_
  · unfold Reacts Register.enter Register.ends
    simp only [hgone]
    exact haltAndSettle_records hR hslot e job.sessionId (.acknowledge result)
  · exact report_start_records hR hslot e job result hfound

theorem reactTo_records (hR : R.Sound 0) (hslot : slot ∈ R.slots) (e : Envelope) (job : Job)
    (outcome : Except String JobResult) : Records R (reactTo own slot e job outcome)
      (Reacts { name := e.name, session := job.sessionId, outcome := outcome.map (·.outcome) } R) := by
  cases outcome with
  | error error => exact afterFailure_records hR hslot e job error
  | ok result => exact afterResult_records hR hslot e job result

theorem lock_records (hlocks : R.locks = []) (session : String) :
    Records R (lock own session) fun free τ =>
      free = true ∧ τ = { R with locks := [soleLock session] } := by
  rintro w rfl
  rw [lock_run hlocks]
  exact ⟨rfl, rfl⟩

theorem unlock_records {session : String} (hlocks : R.locks = [soleLock session]) :
    Records R (unlock session) fun _ τ => τ = { R with locks := [] } := by
  rintro w rfl
  rw [unlock_run hlocks]
  rfl

def Approaches (R : Register) : Except Progress (Envelope × Delivery) → Register → Prop
  | .ok (_, d), τ => τ = { R with locks := [soleLock d.job.sessionId] }
  | .error (.suspended (.loading d)), τ =>
    τ = { R with turns := R.turns + 1, locks := [soleLock d.job.sessionId] }
  | .error (.suspended _), _ => False
  | .error (.finished _), τ => τ = { R with locks := [] }

theorem approachLoad_records {e : Envelope} {d : Delivery} :
    Records { R with locks := [soleLock d.job.sessionId] } (approachLoad own e d) (Approaches R) := by
  refine .maintained ((note_maintains _).through World.register) fun _ => .get_bind fun w _ => .ite (fun _ => .answer rfl) fun _ => ?_
  exact .after (sleep_own _) fun _ => .answer rfl

theorem approaches_end {x : Turn Progress} (hlocks : R.locks = []) (hx : Concludes R x) :
    Records R (do pure (.error (← x))) (Approaches R) := by
  refine .bind hx fun p τ h => ?_
  obtain ⟨⟨outcome, rfl⟩, rfl⟩ := h
  refine .answer ?_
  change τ = { τ with locks := [] }
  rw [← hlocks]

theorem approach_records (hslot : slot ∈ R.slots) {stage : Stage} (hlocks : R.locks = stage.locks)
    (halone : stage.Alone) : Records R (approach own slot stage) (Approaches R) := by
  refine .bind (envelope?_records hslot) fun found τ h => ?_
  obtain ⟨hfound, rfl⟩ := h
  obtain ⟨e, rfl⟩ := Option.isSome_iff_exists.1 hfound
  cases stage with
  | entering =>
    refine .ite (fun _ => approaches_end hlocks (reject_records e hslot _)) fun _ => ?_
    cases jobOf e with
    | none => exact approaches_end hlocks (reject_records e hslot _)
    | some job =>
      refine .bind (lock_records hlocks job.sessionId) fun free τ' h => ?_
      obtain ⟨rfl, rfl⟩ := h
      exact approachLoad_records (d := { envelope := e.id, job })
  | locking d => exact halone.elim
  | loading d =>
    refine .answer ?_
    change τ = { τ with locks := [soleLock d.job.sessionId] }
    exact congrArg (fun locks => ({ τ with locks } : Register)) hlocks
  | halting settlement => exact approaches_end hlocks (settle_records e hslot settlement)

end Records

end Turn

def Progress.turns : Progress → Nat
  | .suspended _ => 1
  | .finished _ => 0

def Progress.locks : Progress → List SessionLock
  | .suspended stage => stage.locks
  | .finished _ => []

def Progress.Alone : Progress → Prop
  | .suspended stage => stage.Alone
  | .finished _ => True

structure Register.Serves (history : List Handled) (slot : Slot) (p : Progress) (R : Register) :
    Prop where
  reflects : R.Reflects history p.turns
  locks : R.locks = p.locks
  alone : p.Alone
  slot : slot ∈ R.slots

def Phase.InRound (session : String) : Phase → Prop
  | .clearing s | .enqueuing s | .enqueued s _ => s = session
  | _ => False

namespace Turn

variable {R : Register} {slot : Slot} {history : List Handled}

theorem serves_enter (hR : R.Reflects history 0) (hlocks : R.locks = []) (hslot : slot ∈ R.slots)
    {h : Handled} {p : Progress} (hends : WaitsOrEnds (R.ends h) p) :
    (R.enter h).Serves (history ++ [h]) slot p := by
  have henter := hR.enter h
  have hlocks' : (R.enter h).locks = [] := Register.enter_frame.2.trans hlocks
  have hslot' : slot ∈ (R.enter h).slots := by
    rwa [Register.enter_frame.1]
  match p with
  | .suspended (.halting _) =>
    rw [show R.ends h = true from hends] at henter
    exact ⟨henter, hlocks', trivial, hslot'⟩
  | .finished _ =>
    rw [show R.ends h = false from hends] at henter
    exact ⟨henter, hlocks', trivial, hslot'⟩

/-- A turn of the processing where nobody else processes an envelope. -/
theorem recorded_records {handler : Handler} (hhandler : ∀ d, Maintains World.register (handler d))
    (hR : R.Reflects history 0) (hslot : slot ∈ R.slots) {stage : Stage}
    (hlocks : R.locks = stage.locks) (halone : stage.Alone) :
    Records R (recorded handler own slot stage) fun r τ =>
      τ.Serves (history ++ r.2.toList) slot r.1 := by
  refine .bind (approach_records hslot hlocks halone) fun outcome τ h => ?_
  match outcome with
  | .error (.suspended (.loading d)) =>
    obtain rfl := h
    rw [← List.append_nil history] at hR
    exact .answer ⟨hR.adjust (by simp [Progress.turns]) _ _ _, rfl, trivial, hslot⟩
  | .error (.finished _) =>
    obtain rfl := h
    rw [← List.append_nil history] at hR
    exact .answer ⟨hR.adjust (Nat.le_refl _) _ _ _, rfl, trivial, hslot⟩
  | .ok (e, d) =>
    obtain rfl := h
    have hturns : R.turns + 0 ≤ R.turns + 0 := Nat.le_refl _
    have hfree := hR.adjust hturns [] R.slots R.errand
    refine .maintained (hhandler d) fun outcome => .after (unlock_records rfl) fun _ =>
      .bind (reactTo_records hfree.sound hslot e d.job outcome) fun p τ h => .answer ?_
    obtain ⟨rfl, hends⟩ := h
    exact serves_enter hfree rfl hslot hends

theorem continueErrand_records (name : String) (p : Progress) :
    Records R (continueErrand name p) fun _ τ => τ = { R with errand := match p with
      | .suspended stage => .processing name stage
      | .finished _ => .none } := by
  rintro w rfl
  cases p <;> rfl

section Others

variable {n : Nat}

/-- What another task does in its turn: a heartbeat that was cancelled ends, and nothing else is
entered. -/
def Passes (R τ : Register) : Prop :=
  τ = R ∨ ∃ m ∈ R.members, m.cancelled = true ∧ τ = R.finish m.id

theorem joined_records (herrand : ∀ left stopsBeats, R.errand ≠ .gathering left stopsBeats) :
    Records R joined fun _ τ => τ = R := by
  refine .get_bind fun w hw => ?_
  split
  next left stopsBeats h =>
    exact absurd ((congrArg Register.errand hw).symm.trans h) (herrand left stopsBeats)
  next => exact .answer rfl

theorem take_records (hR : R.Sound n) {id : TaskId} (hid : id ≠ own) :
    Records R (take id) fun _ τ => Passes R τ := by
  rintro w rfl
  rw [take_run]
  cases htask : w.task? id with
  | none => exact .inl rfl
  | some t =>
    have hmem : t.member ∈ w.register.members :=
      List.mem_map_of_mem (List.mem_of_find?_eq_some htask)
    obtain rfl : t.id = id := by simpa using List.find?_some htask
    have hsome : t.body.session? ≠ none := fun hnone => hid ((hR.session _ hmem).1 hnone)
    obtain ⟨number, body, cancelled, joiners⟩ := t
    cases body with
    | heartbeat s beating =>
      have hpasses := beatTurn_records (hR.beatsAs hmem rfl) cancelled beating w rfl
      cases cancelled with
      | true => exact .inr ⟨_, hmem, rfl, hpasses⟩
      | false => exact .inl hpasses
    | errand | consumer | member => exact absurd rfl hsome

theorem runHandle_records (hR : R.Sound n)
    (herrand : ∀ left stopsBeats, R.errand ≠ .gathering left stopsBeats) {handle : Handle}
    (hother : handle ≠ .turn own) : Records R (runHandle handle) fun _ τ => Passes R τ := by
  cases handle with
  | turn id => exact take_records hR fun hid => hother (congrArg Handle.turn hid)
  | joined => exact (joined_records herrand).post fun _ _ h => .inl h

theorem advance_records {id : TaskId} {session : String} (hid : BeatsAs id session R) {p : Phase}
    (hp : p.InRound session) : Records R (p.advance id) fun _ τ => τ = R := by
  cases p with
  | clearing s => exact .maintained (signal_register (·.task = id) false) fun _ => .answer rfl
  | enqueuing s => exact .get_bind fun _ _ => .maintained (act_register _) fun _ => .answer rfl
  | enqueued s answer =>
    obtain rfl : s = session := hp
    exact .after (returnBeat_records hid answer) fun _ => .answer rfl
  | _ => exact hp.elim

theorem register_next_own {w : World} {before after : List Handle}
    (hready : w.ready = before ++ .turn own :: after) : ∃ turns, w.register.turns = turns + 1 ∧
      ({ w with ready := before ++ after } : World).register = { w.register with turns } := by
  refine ⟨(before ++ after).count (.turn own) + w.timers.countP (·.2 = own), ?_, rfl⟩
  change w.ready.count (.turn own) + _ = _
  rw [hready, List.count_append, List.count_append, List.count_cons_self]
  omega

theorem register_next_other {w : World} {before after : List Handle} {handle : Handle}
    (hready : w.ready = before ++ handle :: after) (hother : handle ≠ .turn own) :
    ({ w with ready := before ++ after } : World).register = w.register := by
  have hcount : (before ++ after).count (.turn own) = w.ready.count (.turn own) := by
    rw [hready, List.count_append, List.count_append, List.count_cons_of_ne hother]
  exact congrArg (fun n => ({ w.register with turns := n + w.timers.countP (·.2 = own) } : Register))
    hcount

end Others

end Turn

/-- A worker that processes envelopes call by call, and the jobs that were handled so far. -/
structure CallState where
  world : World
  history : List Handled := []

namespace CallState

def serve (history : List Handled) (handler : Handler) (name : String) (stage : Stage) (w : World) :
    CallState :=
  let turn := (Turn.recorded handler own (.named name) stage).run w
  { world := ((Turn.continueErrand name turn.1.1).run turn.2).2
    history := history ++ turn.1.2.toList }

/-- What can happen next. A call begins when the last one is at its end, with any envelope; each of its
turns has any handler that leaves the tasks alone. Between two turns the other tasks take theirs, in any
order, and a round of a heartbeat may be cut where it calls the queue; time passes; and the rest of the
world may change in any way, so that commands are refused or succeed. -/
inductive Step (s : CallState) : CallState → Prop where
  | call {handler : Handler} (hhandler : ∀ d, Maintains World.register (handler d)) (name : String) (e : Envelope)
      (hidle : s.world.errand = .none) :
      Step s (serve s.history handler name .entering ((Turn.setEnvelope (.named name) e).run s.world).2)
  | goOn {handler : Handler} (hhandler : ∀ d, Maintains World.register (handler d)) {name : String} {stage : Stage}
      {before after : List Handle} (herrand : s.world.errand = .processing name stage)
      (hready : s.world.ready = before ++ .turn own :: after) :
      Step s (serve s.history handler name stage { s.world with ready := before ++ after })
  | turn {handle : Handle} {before after : List Handle}
      (hready : s.world.ready = before ++ handle :: after) (hother : handle ≠ .turn own) :
      Step s { s with world :=
        ((Turn.runHandle handle).run { s.world with ready := before ++ after }).2 }
  | round {t : Task} {session : String} {p : Phase} (ht : t ∈ s.world.tasks)
      (hsession : t.body.session? = some session) (hp : p.InRound session) :
      Step s { s with world := ((p.advance t.id).run s.world).2 }
  | time {w : World} (h : s.world.moveOn = some w) : Step s { s with world := w }
  | around {w : World} (h : w.register = s.world.register) : Step s { s with world := w }

inductive Reaches (start : World) : CallState → Prop where
  | start : Reaches start { world := start }
  | step {s s' : CallState} (h : Reaches start s) (hstep : Step s s') : Reaches start s'

def Sound (s : CallState) : Prop :=
  match s.world.errand with
  | .none => s.world.register.Reflects s.history 0 ∧ s.world.register.locks = []
  | .processing name stage => s.world.register.Serves s.history (.named name) (.suspended stage)
  | _ => False

variable {s s' : CallState}

theorem sound_of_serves {history : List Handled} {name : String} {p : Progress} {w : World}
    (h : w.register.Serves history (.named name) p) :
    Sound { world := ((Turn.continueErrand name p).run w).2, history } := by
  have hcontinue := Turn.continueErrand_records name p w rfl
  have hreflects := h.reflects.adjust (Nat.le_refl _) w.register.locks w.register.slots
  cases p with
  | suspended stage =>
    change Register.Serves history (.named name) (.suspended stage) _
    rw [hcontinue]
    exact ⟨hreflects _, h.locks, h.alone, h.slot⟩
  | finished outcome =>
    change Register.Reflects history 0 _ ∧ _
    rw [hcontinue]
    exact ⟨hreflects _, h.locks⟩

theorem serve_sound {history : List Handled} {handler : Handler} (hhandler : ∀ d, Maintains World.register (handler d))
    {name : String} {stage : Stage} {w : World} (h : w.register.Reflects history 0)
    (hslot : .named name ∈ w.register.slots) (hlocks : w.register.locks = stage.locks)
    (halone : stage.Alone) : Sound (serve history handler name stage w) :=
  sound_of_serves (Turn.recorded_records hhandler h hslot hlocks halone w rfl)

theorem Sound.reflects (h : Sound s) : ∃ n, s.world.register.Reflects s.history n := by
  unfold Sound at h
  split at h
  · exact ⟨_, h.1⟩
  · exact ⟨_, h.reflects⟩
  · exact h.elim

theorem Sound.not_gathering (h : Sound s) (left : Nat) (stopsBeats : Bool) :
    s.world.register.errand ≠ .gathering left stopsBeats := by
  intro herrand
  unfold Sound at h
  rw [show s.world.errand = _ from herrand] at h
  exact h

theorem Sound.congr (h : Sound s) {w : World} (hsame : w.register = s.world.register) :
    Sound { s with world := w } := by
  unfold Sound at h ⊢
  rw [show w.errand = s.world.errand from congrArg Register.errand hsame, hsame]
  exact h

theorem Sound.finish (h : Sound s) {m : Member} (hm : m ∈ s.world.register.members)
    (hcancelled : m.cancelled = true) {w : World} (hw : w.register = s.world.register.finish m.id) :
    Sound { s with world := w } := by
  have herrand : w.errand = s.world.errand := congrArg Register.errand hw
  unfold Sound at h ⊢
  rw [herrand, hw]
  split at h
  next => exact ⟨⟨h.1.sound.finish hm hcancelled, h.1.live⟩, h.2⟩
  next => exact ⟨⟨h.reflects.sound.finish hm hcancelled, h.reflects.live⟩, h.locks, h.alone, h.slot⟩
  next => exact h

theorem Sound.step (h : Sound s) (hstep : Step s s') : Sound s' := by
  cases hstep with
  | call hhandler name e hidle =>
    unfold Sound at h
    rw [hidle] at h
    obtain ⟨hreflects, hlocks⟩ := h
    obtain ⟨hslot, slots, hset⟩ := Turn.setEnvelope_records e (.named name) s.world rfl
    refine serve_sound hhandler ?_ hslot ?_ trivial
    · rw [hset]
      exact hreflects.adjust (Nat.le_refl _) _ slots _
    · rw [hset]
      exact hlocks
  | @goOn handler hhandler name stage before after herrand hready =>
    -- The turn that is taken was the only one to come, so no heartbeat is cancelled any more.
    unfold Sound at h
    rw [herrand] at h
    obtain ⟨turns, hturns, hnext⟩ := Turn.register_next_own hready
    refine serve_sound hhandler ?_ ?_ ?_ h.alone <;> rw [hnext]
    · exact h.reflects.adjust (by rw [hturns]; exact Nat.le_refl _) _ _ _
    · exact h.slot
    · exact h.locks
  | @turn handle before after hready hother =>
    have hnext := Turn.register_next_other hready hother
    obtain ⟨n, hreflects⟩ := h.reflects
    have hpasses := Turn.runHandle_records hreflects.sound h.not_gathering hother _ hnext
    rcases hpasses with hsame | ⟨m, hm, hcancelled, hfinish⟩
    · exact h.congr hsame
    · exact h.finish hm hcancelled hfinish
  | @round t session p ht hsession hp =>
    obtain ⟨n, hreflects⟩ := h.reflects
    have hbeats := hreflects.sound.beatsAs (List.mem_map_of_mem ht) hsession
    exact h.congr (Turn.advance_records hbeats hp s.world rfl)
  | time hmove => exact h.congr (World.register_moveOn hmove)
  | around hsame => exact h.congr hsame

theorem sound_start {config : Config} (roster : Roster) (broker : Queue.Broker)
    (hheartbeat : config.heartbeat.isSome) : Sound { world := { config, roster, broker } } := by
  refine ⟨⟨?_, fun session => ⟨nofun, fun h => (not_live_nil h).elim⟩⟩, rfl⟩
  exact {
    isOn := hheartbeat
    scenario := rfl
    own_lt := Nat.one_pos
    fresh := List.forall_mem_singleton.2 Nat.one_pos
    ids := List.nodup_singleton _
    session := List.forall_mem_singleton.2 (iff_of_true rfl rfl)
    alone := List.forall_mem_singleton.2 fun _ _ hsome => nomatch hsome
    beats := rfl
    awaited := List.forall_mem_singleton.2 nofun
    turns := Nat.le_refl 0 }

theorem Reaches.sound {config : Config} {roster : Roster} {broker : Queue.Broker}
    (hheartbeat : config.heartbeat.isSome) (h : Reaches { config, roster, broker } s) : Sound s := by
  induction h with
  | start => exact sound_start roster broker hheartbeat
  | step _ hstep ih => exact ih.step hstep

section Scheduler

theorem serve_evaluation (history : List Handled) (name : String) (stage : Stage) (w : World) :
    (serve history Turn.evaluation name stage w).world =
      ((do Turn.continueErrand name (← Turn.proceed own (.named name) stage) : Turn Unit).run w).2 := by
  rw [← Turn.proceedBy_evaluation, ← Turn.recorded_fst, bind_assoc]
  rfl

theorem Sound.errandTurn_run (h : Sound s) {name : String} {stage : Stage}
    (herrand : s.world.errand = .processing name stage) (ready : List Handle) :
    ((Turn.runHandle (.turn own)).run { s.world with ready }).2 =
      (serve s.history Turn.evaluation name stage { s.world with ready }).world := by
  obtain ⟨n, hreflects⟩ := h.reflects
  obtain ⟨task, htask, hbody⟩ := Option.map_eq_some_iff.1 hreflects.sound.scenario
  rw [serve_evaluation]
  change ((Turn.take own).run { s.world with ready }).2 = _
  rw [Turn.take_run, show World.task? { s.world with ready } own = some task from htask]
  simp only [hbody]
  unfold Turn.errandTurn
  rw [Turn.run_bind_of (Turn.get_run _)]
  simp only [herrand]

/-- The first task in line has its turn, or time passes: the scheduler chooses among the steps. -/
theorem Sound.exists_step (h : Sound s) (hbusy : s.world.isDone = false) {w : World}
    (hstep : s.world.step = some w) : ∃ s', Step s s' ∧ s'.world = w := by
  obtain ⟨name, stage, herrand⟩ : ∃ name stage, s.world.errand = .processing name stage := by
    unfold Sound at h
    unfold World.isDone at hbusy
    split at h
    next herrand => simp [herrand] at hbusy
    next name stage herrand => exact ⟨name, stage, herrand⟩
    next => exact h.elim
  unfold World.step at hstep
  split at hstep
  next handle ready hready =>
    obtain rfl := Option.some.inj hstep
    have hnext : s.world.ready = [] ++ handle :: ready := hready
    by_cases hown : handle = .turn own
    · subst hown
      exact ⟨_, .goOn (fun d => Turn.evaluation_register d) herrand hnext,
        (h.errandTurn_run herrand ready).symm⟩
    · exact ⟨_, .turn hnext hown, rfl⟩
  next => exact ⟨_, .time hstep, rfl⟩

variable {config : Config} {roster : Roster} {broker : Queue.Broker}

theorem Reaches.settle (hheartbeat : config.heartbeat.isSome)
    (h : Reaches { config, roster, broker } s) (fuel : Nat) :
    ∃ s', Reaches { config, roster, broker } s' ∧ s'.world = World.settle fuel s.world := by
  induction fuel generalizing s with
  | zero => exact ⟨s, h, rfl⟩
  | succ fuel ih =>
    unfold World.settle
    split
    next => exact ⟨s, h, rfl⟩
    next hbusy =>
      split
      next w hstep =>
        obtain ⟨s', hnext, rfl⟩ :=
          (h.sound hheartbeat).exists_step (by simpa using hbusy) hstep
        exact ih (h.step hnext)
      next => exact ⟨s, h, rfl⟩

/-- What the worker does where it is given an envelope to process is a run like this. -/
theorem Reaches.process (hheartbeat : config.heartbeat.isSome)
    (h : Reaches { config, roster, broker } s) (hidle : s.world.errand = .none) (name : String)
    (e : Envelope) : ∃ s', Reaches { config, roster, broker } s' ∧ s'.world =
      World.perform (do Turn.setEnvelope (.named name) e; Turn.process name) s.world := by
  obtain ⟨s', hreaches, hworld⟩ := (h.step (.call (fun d => Turn.evaluation_register d) name e
    hidle)).settle hheartbeat World.maxTurns
  refine ⟨s', hreaches, hworld.trans ?_⟩
  rw [serve_evaluation]
  rfl

end Scheduler

end CallState

def World.heartbeatsOf (w : World) (session : String) : List Task :=
  w.tasks.filter (·.body.session? = some session)

theorem World.mem_heartbeatsOf {w : World} {session : String} {t : Task} :
    t ∈ w.heartbeatsOf session ↔ t ∈ w.tasks ∧ t.member.session = some session := by
  rw [heartbeatsOf, List.mem_filter, decide_eq_true_eq]
  rfl

theorem Register.Sound.heartbeatsOf_le {w : World} {n : Nat} (h : w.register.Sound n)
    (session : String) : (w.heartbeatsOf session).length ≤ 1 := by
  have hids : ((w.heartbeatsOf session).map (·.id)).Nodup := by
    have hall : (w.tasks.map (·.id)).Nodup := by
      have hmembers := h.ids
      rwa [World.register, List.map_map] at hmembers
    exact hall.sublist (List.filter_sublist.map _)
  rcases hlist : w.heartbeatsOf session with _ | ⟨t, _ | ⟨t', rest⟩⟩
  · exact Nat.zero_le _
  · exact Nat.le_refl _
  · obtain ⟨ht, hof⟩ := World.mem_heartbeatsOf.1 (hlist ▸ List.mem_cons_self)
    obtain ⟨ht', hof'⟩ := World.mem_heartbeatsOf.1
      (hlist ▸ List.mem_cons_of_mem t List.mem_cons_self)
    have hsame := h.alone _ (List.mem_map_of_mem ht) _ (List.mem_map_of_mem ht') (by simp [hof])
      (hof.trans hof'.symm)
    rw [hlist] at hids
    have hid : t.id = t'.id := congrArg Member.id hsame
    have hother : t.id ∉ (t' :: rest).map (·.id) := (List.nodup_cons.1 hids).1
    exact absurd (List.mem_map_of_mem List.mem_cons_self) (hid ▸ hother)

namespace CallState

variable {s : CallState}

/-- After each call, a session has a heartbeat just if the jobs that were handled say so: then it has
one task, which is not cancelled, and else none. -/
theorem Reaches.heartbeat_iff_live {config : Config} {roster : Roster} {broker : Queue.Broker}
    (hheartbeat : config.heartbeat.isSome) (h : Reaches { config, roster, broker } s)
    (hended : s.world.errand = .none) (session : String) :
    (s.world.heartbeatsOf session ≠ [] ↔ Live session s.history) ∧
      (s.world.heartbeatsOf session).length ≤ 1 ∧
      (∀ t ∈ s.world.heartbeatsOf session, t.cancelled = false) ∧
      (((Turn.isBeating session).run s.world).1 = true ↔ Live session s.history) := by
  have hsound := h.sound hheartbeat
  unfold Sound at hsound
  rw [hended] at hsound
  obtain ⟨⟨hsound, hlive⟩, -⟩ := hsound
  have hquiet : ∀ t ∈ s.world.heartbeatsOf session, t.cancelled = false := fun t ht =>
    hsound.quiet (List.mem_map_of_mem (World.mem_heartbeatsOf.1 ht).1)
  refine ⟨?_, hsound.heartbeatsOf_le session, hquiet, ?_⟩
  · rw [← hlive, hsound.beat?_isSome]
    constructor
    · intro hsome
      obtain ⟨t, ht⟩ := List.exists_mem_of_ne_nil _ hsome
      obtain ⟨htasks, hof⟩ := World.mem_heartbeatsOf.1 ht
      exact ⟨_, List.mem_map_of_mem htasks, hquiet t ht, hof⟩
    · rintro ⟨m, hm, -, hof⟩
      obtain ⟨t, ht, rfl⟩ := List.mem_map.1 hm
      exact List.ne_nil_of_mem (World.mem_heartbeatsOf.2 ⟨ht, hof⟩)
  · rw [Turn.isBeating_run, hlive]

def completing : Handler := fun _ => pure (.ok { outcome := .completed })

def jobOfOneSession (name : String) : Envelope where
  name
  data := Queue.messageFields { sessionId := "s-1" }
  id := "j-1"

def begun : CallState :=
  serve [] completing "it" .entering
    ((Turn.setEnvelope (.named "it") (jobOfOneSession Queue.evaluateName)).run
      { config := PhaseState.everySecond }).2

def broken : CallState :=
  serve begun.history failing "it" .entering
    ((Turn.setEnvelope (.named "it") (jobOfOneSession Queue.heartbeatName)).run begun.world).2

def still : CallState :=
  { broken with world := ((Turn.runHandle (.turn 1)).run { broken.world with ready := [] }).2 }

def ended : CallState :=
  serve still.history failing "it" (.halting (.fail "")) { still.world with ready := [] }

theorem completing_register (d : Delivery) : Maintains World.register (completing d) := .answer _

theorem failing_register (d : Delivery) : Maintains World.register (failing d) := .answer _

theorem reaches_begun : Reaches { config := PhaseState.everySecond } begun :=
  Reaches.start.step (.call completing_register "it" _ rfl)

theorem reaches_broken : Reaches { config := PhaseState.everySecond } broken :=
  reaches_begun.step (.call failing_register "it" (jobOfOneSession Queue.heartbeatName) rfl)

theorem reaches_still : Reaches { config := PhaseState.everySecond } still := by
  have hready : broken.world.ready = [] ++ .turn 1 :: [] := rfl
  exact reaches_broken.step (.turn hready (by decide))

theorem reaches_ended : Reaches { config := PhaseState.everySecond } ended := by
  have hready : still.world.ready = [] ++ .turn own :: [] := rfl
  have herrand : still.world.errand = .processing "it" (.halting (.fail "")) := rfl
  have hstep := Step.goOn failing_register herrand hready
  exact reaches_still.step hstep

theorem Reaches.heartbeat_iff_live_ended : PhaseState.everySecond.heartbeat.isSome ∧
    (Reaches { config := PhaseState.everySecond } begun ∧ begun.world.errand = .none ∧
      begun.world.heartbeatsOf "s-1" ≠ [] ∧ Live "s-1" begun.history) ∧
    Reaches { config := PhaseState.everySecond } ended ∧ ended.world.errand = .none ∧
      ended.world.heartbeatsOf "s-1" = [] ∧ ¬ Live "s-1" ended.history := by
  have hsome : begun.world.heartbeatsOf "s-1" ≠ [] := List.cons_ne_nil _ _
  have hnone : ended.world.heartbeatsOf "s-1" = [] := rfl
  have hlive := (reaches_begun.heartbeat_iff_live rfl rfl "s-1").1
  have hdead := (reaches_ended.heartbeat_iff_live rfl rfl "s-1").1
  exact ⟨rfl, ⟨reaches_begun, rfl, hsome, hlive.1 hsome⟩, reaches_ended, rfl, hnone,
    fun h => hdead.2 h hnone⟩

end CallState

end SignalCoach.Worker
