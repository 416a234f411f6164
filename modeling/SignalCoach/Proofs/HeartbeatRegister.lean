import Mathlib.Data.List.Nodup
import SignalCoach.Proofs.Scenes
import SignalCoach.Proofs.Settling

/-! The heartbeats of a worker as a register: which tasks there are, whose heartbeats they are and who
waits for their end. A heartbeat that starts or is halted or ends is entered in it, and nothing else
that a turn does. -/
namespace SignalCoach.Worker

def Body.session? : Body → Option String
  | .heartbeat session _ => some session
  | _ => none

/-- A task, as far as its end can be waited for. -/
structure Member where
  id : TaskId
  /-- The session whose heartbeat it is. -/
  session : Option String
  cancelled : Bool := false
  /-- How often the scenario's own task waits for its end. -/
  awaited : Nat := 0
deriving DecidableEq

structure Register where
  isOn : Bool
  beats : List (String × TaskId)
  members : List Member
  /-- What the scenario's own task does. -/
  scenario : Option Body
  nextTask : TaskId
  /-- How many turns the scenario's own task will take, now or at some time. -/
  turns : Nat
  locks : List SessionLock
  /-- Where an envelope is held. -/
  slots : List Slot
  errand : Errand

def Task.member (t : Task) : Member where
  id := t.id
  session := t.body.session?
  cancelled := t.cancelled
  awaited := t.joiners.count (.task Turn.own)

def World.register (w : World) : Register where
  isOn := w.config.heartbeat.isSome
  beats := w.beats.map fun b => (b.session, b.task)
  members := w.tasks.map (·.member)
  scenario := (w.task? Turn.own).map (·.body)
  nextTask := w.nextTask
  turns := w.ready.count (.turn Turn.own) + w.timers.countP (·.2 = Turn.own)
  locks := w.locks
  slots := w.envelopes.map (·.1)
  errand := w.errand

namespace Member

def awaitEnd (m : Member) : Member := { m with cancelled := true, awaited := m.awaited + 1 }

def beat? (m : Member) : Option (String × TaskId) :=
  if m.cancelled then none else m.session.map (·, m.id)

end Member

namespace Register

def beat? (session : String) (R : Register) : Option (String × TaskId) :=
  R.beats.find? (·.1 = session)

def start (session : String) (R : Register) : Register :=
  if (R.beat? session).isSome then R
  else
    { R with
      beats := R.beats ++ [(session, R.nextTask)]
      members := R.members ++ [{ id := R.nextTask, session := some session }]
      nextTask := R.nextTask + 1 }

def change (id : TaskId) (f : Member → Member) (R : Register) : Register :=
  { R with members := R.members.map fun m => if m.id = id then f m else m }

def halt (session : String) (R : Register) : Register :=
  match R.beat? session with
  | none => R
  | some beat =>
    { R.change beat.2 .awaitEnd with beats := R.beats.filter (·.1 ≠ session) }

def finish (id : TaskId) (R : Register) : Register :=
  { R with
    members := R.members.filter (·.id ≠ id)
    turns := R.turns + ((R.members.find? (·.id = id)).map (·.awaited)).getD 0 }

end Register

/-- A part of a turn that begins with a register ends with one that `Q` holds of, with its answer. -/
abbrev Records (R : Register) (x : Turn α) (Q : α → Register → Prop) : Prop :=
  Triple (fun w => w.register = R) x fun a w => Q a w.register

namespace Records

variable {R R' : Register}

theorem bind {x : Turn α} {f : α → Turn β} {Q : α → Register → Prop} {P : β → Register → Prop}
    (hx : Records R x Q) (hf : ∀ a R', Q a R' → Records R' (f a) P) : Records R (x >>= f) P :=
  fun w hw => hf _ _ (hx w hw) _ rfl

theorem after {x : Turn α} {f : α → Turn β} {P : β → Register → Prop}
    (hx : Records R x fun _ τ => τ = R') (hf : ∀ a, Records R' (f a) P) : Records R (x >>= f) P :=
  bind hx fun a _ hτ => hτ ▸ hf a

theorem maintained {x : Turn α} {f : α → Turn β} {P : β → Register → Prop}
    (hx : Maintains World.register x) (hf : ∀ a, Records R (f a) P) : Records R (x >>= f) P :=
  fun w hw => hf _ _ ((hx w).trans hw)

theorem get_bind {f : World → Turn β} {P : β → Register → Prop}
    (hf : ∀ w, w.register = R → Records R (f w) P) : Records R (get >>= f) P :=
  fun w hw => hf w hw w hw

theorem answer {Q : α → Register → Prop} {a : α} (h : Q a R) : Records R (pure a : Turn α) Q := by
  rintro w rfl
  exact h

theorem ite {c : Prop} [Decidable c] {x y : Turn α} {Q : α → Register → Prop}
    (hx : c → Records R x Q) (hy : ¬ c → Records R y Q) : Records R (if c then x else y) Q :=
  Triple.ite hx hy

end Records

theorem Maintains.records {x : Turn α} (h : Maintains World.register x) (R : Register) :
    Records R x fun _ τ => τ = R :=
  fun w hw => (h w).trans hw

namespace Turn

variable {R : Register} {id : TaskId} {session : String}

section Tasks

theorem schedule_register {handle : Handle} (hother : handle ≠ .turn own) : Maintains World.register (schedule handle) := by
  intro w
  have hcount : (w.ready ++ [handle]).count (.turn own) = w.ready.count (.turn own) := by
    rw [List.count_append, List.count_singleton, if_neg (by simpa using hother), Nat.add_zero]
  exact congrArg (fun n => ({ w.register with turns := n + w.timers.countP (·.2 = own) } : Register))
    hcount

theorem schedule_own : Records R (schedule (.turn own)) fun _ τ => τ = { R with turns := R.turns + 1 } := by
  rintro w rfl
  have hcount : (w.ready ++ [Handle.turn own]).count (.turn own) + w.timers.countP (·.2 = own) =
      w.register.turns + 1 := by
    rw [List.count_append, List.count_singleton_self]
    exact Nat.add_right_comm _ _ _
  exact congrArg (fun turns => ({ w.register with turns } : Register)) hcount

theorem insertTimer_perm (time : Nat) (id : TaskId) (timers : List (Nat × TaskId)) :
    (insertTimer time id timers).Perm ((time, id) :: timers) := by
  induction timers with
  | nil => exact .refl _
  | cons other rest ih =>
    unfold insertTimer
    split
    · exact .refl _
    · exact (ih.cons other).trans (.swap _ _ _)

theorem sleep_register (hid : id ≠ own) (time : Nat) : Maintains World.register (sleep id time) := by
  refine .ite (schedule_register (by simpa using hid)) fun w => ?_
  have hcount : (insertTimer (w.now + time) id w.timers).countP (·.2 = own) =
      w.timers.countP (·.2 = own) := by
    rw [(insertTimer_perm _ _ _).countP_eq, List.countP_cons_of_neg (by simpa using hid)]
  exact congrArg (fun n => ({ w.register with turns := w.ready.count (.turn own) + n } : Register))
    hcount

theorem sleep_own (time : Nat) :
    Records R (sleep own time) fun _ τ => τ = { R with turns := R.turns + 1 } := by
  refine .ite (fun _ => schedule_own) fun _ => ?_
  rintro w rfl
  have hcount : w.ready.count (.turn own) +
      (insertTimer (w.now + time) own w.timers).countP (·.2 = own) = w.register.turns + 1 := by
    rw [(insertTimer_perm _ _ _).countP_eq, List.countP_cons_of_pos (by simp)]
    rfl
  exact congrArg (fun turns => ({ w.register with turns } : Register)) hcount

theorem modifyTask_records (hid : id ≠ own) {f : Task → Task} {g : Member → Member}
    (hsame : ∀ t, (f t).id = t.id) (hf : ∀ t, (f t).member = g t.member) :
    Records R (modifyTask id f) fun _ τ => τ = R.change id g := by
  rintro w rfl
  let change : Task → Task := fun t => if t.id = id then f t else t
  have hmembers : (w.tasks.map change).map (·.member) =
      w.register.members.map fun m => if m.id = id then g m else m := by
    simp only [World.register, List.map_map]
    refine List.map_congr_left fun t _ => ?_
    change Task.member (if t.id = id then f t else t) = if t.id = id then g t.member else t.member
    rw [apply_ite Task.member, hf]
  have hown : ((w.tasks.map change).find? (·.id = own)).map (·.body) = w.register.scenario := by
    have hids : (fun t : Task => decide (t.id = own)) ∘ change = fun t => decide (t.id = own) := by
      funext t
      simp only [Function.comp, change]
      split
      · rw [hsame]
      · rfl
    rw [List.find?_map, hids, Option.map_map]
    change _ = (w.tasks.find? _).map _
    refine Option.map_congr fun t ht => ?_
    have hother : t.id ≠ id := fun h => hid (h.symm.trans (by simpa using List.find?_some ht))
    simp only [Function.comp, change, if_neg hother]
  exact congrArg₂ (fun members scenario => ({ w.register with members, scenario } : Register)) hmembers hown

def BeatsAs (id : TaskId) (session : String) (R : Register) : Prop :=
  id ≠ own ∧ ∀ m ∈ R.members, m.id = id → m.session = some session

/-- The entry of a heartbeat does not say how far its round is. -/
theorem setBody_records (h : BeatsAs id session R) (beating : Beating) :
    Records R (setBody id (.heartbeat session beating)) fun _ τ => τ = R := by
  have hset := modifyTask_records (R := R) h.1
    (f := fun t => { t with body := .heartbeat session beating })
    (g := fun m => { m with session := some session }) (fun _ => rfl) fun _ => rfl
  have hsame : (R.members.map fun m => if m.id = id then { m with session := some session } else m) =
      R.members := by
    refine (List.map_congr_left fun m hm => ?_).trans (List.map_id _)
    split
    next hid =>
      rw [← h.2 m hm hid]
      rfl
    next => rfl
  refine hset.post fun _ w hw => ?_
  rw [hw, Register.change, hsame]

theorem cancel_records (hid : id ≠ own) : Records R (cancel id) fun _ τ =>
    τ = R.change id fun m => { m with cancelled := true } := by
  refine .after (modifyTask_records hid (g := fun m => { m with cancelled := true }) (fun _ => rfl)
    fun _ => rfl) fun _ => .get_bind fun w hw => ?_
  rw [← hw]
  have hcount : (w.timers.filter fun timer => timer.2 ≠ id).countP (·.2 = own) =
      w.timers.countP (·.2 = own) := by
    rw [List.countP_filter]
    refine List.countP_congr fun timer _ => ?_
    simp only [Bool.and_eq_true, decide_eq_true_eq, and_iff_left_iff_imp]
    exact fun h => h ▸ hid.symm
  have hdropped : ({ w with timers := w.timers.filter fun timer => timer.2 ≠ id } : World).register =
      w.register :=
    congrArg (fun n => ({ w.register with turns := w.ready.count (.turn own) + n } : Register)) hcount
  split
  · rintro _ -
    exact (schedule_register (by simpa using hid) _).trans hdropped
  · exact .answer rfl

theorem join_records (hid : id ≠ own) : Records R (join id (.task own)) fun _ τ =>
    τ = R.change id fun m => { m with awaited := m.awaited + 1 } :=
  modifyTask_records hid (fun _ => rfl) fun t => by
    simp [Task.member]

theorem wake_records (joiner : Joiner) : Records R (wake joiner) fun _ τ =>
    τ = { R with turns := R.turns + if joiner = .task own then 1 else 0 } := by
  cases joiner with
  | group => exact (schedule_register (by simp)).records R
  | task id =>
    by_cases hid : id = own
    · subst hid
      exact schedule_own
    · have hother : Joiner.task id ≠ .task own := by simpa using hid
      rw [if_neg hother]
      exact (schedule_register (by simpa using hid)).records R

theorem wakeAll_records (joiners : List Joiner) :
    Records R (do for joiner in joiners do wake joiner) fun _ τ =>
      τ = { R with turns := R.turns + joiners.count (.task own) } := by
  induction joiners generalizing R with
  | nil => exact .answer rfl
  | cons joiner rest ih =>
    simp only [List.forIn_cons, bind_assoc, pure_bind]
    refine .after (wake_records joiner) fun _ => (ih (R := _)).post fun _ w hw => ?_
    rw [hw, List.count_cons]
    simp only [beq_iff_eq, Nat.add_assoc, Nat.add_comm]

theorem finish_records (hid : id ≠ own) : Records R (finish id) fun _ τ => τ = R.finish id := by
  rintro w rfl
  let ended : World := { w with tasks := w.tasks.filter (·.id ≠ id) }
  have hmembers : (w.tasks.filter (·.id ≠ id)).map (·.member) =
      w.register.members.filter (·.id ≠ id) := by
    rw [World.register, List.filter_map]
    rfl
  have hown : (ended.task? own).map (·.body) = w.register.scenario := by
    refine congrArg (Option.map (·.body)) ((find?_without Task.id id own w.tasks).trans ?_)
    rw [if_neg hid.symm]
    rfl
  have hended : ended.register = { w.register with members := w.register.members.filter (·.id ≠ id) } :=
    congrArg₂ (fun members scenario => ({ w.register with members, scenario } : Register)) hmembers hown
  have hcount : (((w.task? id).map (·.joiners)).getD []).count (.task own) =
      ((w.register.members.find? (·.id = id)).map (·.awaited)).getD 0 := by
    rw [World.register, List.find?_map, Option.map_map]
    change _ = ((w.task? id).map fun t => t.joiners.count (.task own)).getD 0
    cases w.task? id <;> rfl
  refine (wakeAll_records _ ended hended).trans ?_
  rw [hcount]
  rfl

theorem spawn_records (hnext : R.nextTask ≠ own) (body : Body) :
    Records R (spawn body) fun task τ => task = R.nextTask ∧ τ = { R with
      members := R.members ++ [{ id := R.nextTask, session := body.session? }]
      nextTask := R.nextTask + 1 } := by
  rintro w rfl
  have hfresh : w.nextTask ≠ own := hnext
  let spawned : World := { w with
    tasks := w.tasks ++ [({ id := w.nextTask, body } : Task)]
    nextTask := w.nextTask + 1 }
  have hown : (spawned.task? own).map (·.body) = w.register.scenario := by
    change ((w.tasks ++ _).find? _).map _ = (w.tasks.find? _).map _
    rw [List.find?_append, List.find?_singleton, if_neg (by simpa using hfresh), Option.or_none]
  have hspawned : spawned.register = { w.register with
      members := w.register.members ++ [{ id := w.nextTask, session := body.session? }]
      nextTask := w.nextTask + 1 } :=
    congrArg₂ (fun members scenario =>
      ({ w.register with members, scenario, nextTask := w.nextTask + 1 } : Register)) List.map_append hown
  exact ⟨rfl, (schedule_register (by simpa using hfresh) spawned).trans hspawned⟩

end Tasks

section Heartbeats

theorem beat?_run (session : String) (w : World) :
    (beat? session).run w = (w.beats.find? (·.session = session), w) := rfl

theorem register_beat? (session : String) (w : World) :
    w.register.beat? session =
      (w.beats.find? (·.session = session)).map fun b => (b.session, b.task) :=
  List.find?_map

theorem isBeating_run (session : String) (w : World) :
    (isBeating session).run w = ((w.register.beat? session).isSome, w) := by
  rw [register_beat?, Option.isSome_map]
  rfl

theorem addBeat_records (task : TaskId) :
    Records R (modify fun w => { w with beats := w.beats ++ [{ session, task }] } : Turn PUnit)
      fun _ τ => τ = { R with beats := R.beats ++ [(session, task)] } := by
  rintro w rfl
  exact congrArg (fun beats => ({ w.register with beats } : Register)) List.map_append

theorem startBeat_records (hnext : R.nextTask ≠ own) :
    Records R (startBeat session) fun _ τ => τ = R.start session := by
  have hbeating : Records R (isBeating session) fun b τ => b = (R.beat? session).isSome ∧ τ = R := by
    rintro w rfl
    rw [isBeating_run]
    exact ⟨rfl, rfl⟩
  refine .bind hbeating fun b R' h => ?_
  obtain ⟨rfl, rfl⟩ := h
  refine Records.ite (fun h => Records.answer ?_) fun h => ?_
  · rw [Register.start, if_pos h]
  · refine Records.bind (spawn_records hnext _) fun task R'' hspawned => ?_
    obtain ⟨rfl, rfl⟩ := hspawned
    refine .after (addBeat_records _) fun _ => .answer ?_
    rw [Register.start, if_neg h]
    rfl

theorem dropBeat_records :
    Records R (modify fun w => { w with beats := w.beats.filter (·.session ≠ session) } : Turn PUnit)
      fun _ τ => τ = { R with beats := R.beats.filter (·.1 ≠ session) } := by
  rintro w rfl
  have hfilter : (w.beats.filter (·.session ≠ session)).map (fun b => (b.session, b.task)) =
      w.register.beats.filter (·.1 ≠ session) := by
    rw [World.register, List.filter_map]
    rfl
  exact congrArg (fun beats => ({ w.register with beats } : Register)) hfilter

theorem forgetOutstanding_register (session : String) : Maintains World.register (forgetOutstanding session) := fun _ => rfl

theorem haltBeat_records (hbeats : ∀ beat ∈ R.beats, beat.2 ≠ own) :
    Records R (haltBeat own session) fun waits τ =>
      waits = (R.beat? session).isSome ∧ τ = R.halt session := by
  have hfound : Records R (beat? session) fun found τ =>
      found.map (fun b => (b.session, b.task)) = R.beat? session ∧ τ = R := by
    rintro w rfl
    exact ⟨(register_beat? session w).symm, rfl⟩
  refine .bind hfound fun found R' h => ?_
  obtain ⟨hbeat, rfl⟩ := h
  refine .after dropBeat_records fun _ => .maintained (forgetOutstanding_register session) fun _ => ?_
  rw [Register.halt, ← hbeat]
  cases found with
  | none =>
    have hsame : R'.beats.filter (·.1 ≠ session) = R'.beats := by
      rw [List.filter_eq_self]
      simpa using List.find?_eq_none.1 hbeat.symm
    exact .answer ⟨rfl, by rw [hsame]; rfl⟩
  | some beat =>
    have hother : beat.task ≠ own := hbeats _ (List.mem_of_find?_eq_some hbeat.symm)
    refine .after (cancel_records hother) fun _ => .after (join_records hother) fun _ =>
      .answer ⟨rfl, ?_⟩
    have hmembers : (R'.members.map fun m => if m.id = beat.task then { m with cancelled := true } else m).map
        (fun m => if m.id = beat.task then { m with awaited := m.awaited + 1 } else m) =
          R'.members.map fun m => if m.id = beat.task then m.awaitEnd else m := by
      rw [List.map_map]
      refine List.map_congr_left fun m _ => ?_
      by_cases h : m.id = beat.task <;> simp [h, Member.awaitEnd]
    exact congrArg (fun members => ({ R' with beats := R'.beats.filter (·.1 ≠ session), members } : Register))
      hmembers

theorem signal_register (p : Beat → Prop) [DecidablePred p] (signalled : Bool) :
    Maintains World.register (modify fun w => { w with
      beats := w.beats.map fun b => if p b then { b with signalled } else b } : Turn PUnit) := by
  intro w
  have hbeats : (w.beats.map fun b => if p b then { b with signalled } else b).map
      (fun b => (b.session, b.task)) = w.beats.map fun b => (b.session, b.task) := by
    rw [List.map_map]
    refine List.map_congr_left fun b _ => ?_
    simp only [Function.comp]
    split <;> rfl
  exact congrArg (fun beats => ({ w.register with beats } : Register)) hbeats

theorem reportBeat_records (hbeats : ∀ beat ∈ R.beats, beat.2 ≠ own) :
    Records R (reportBeat session) fun _ τ => τ = R := by
  rintro w rfl
  unfold reportBeat
  rw [run_bind_of (beat?_run session w)]
  split
  next session' task hfound =>
    have hother : task ≠ own :=
      hbeats (session', task) (List.mem_map_of_mem (List.mem_of_find?_eq_some hfound))
    refine Within.bind (signal_register (·.session = session) true) (fun _ => .get_bind fun v => ?_) w
    exact Within.ite (schedule_register (by simpa using hother)) (.answer _) v
  next => rfl

theorem act_register (action : Queue.Action α) : Maintains World.register (act action) := by
  intro w
  obtain ⟨outcome, broker, hrun⟩ := act_run action w
  rw [hrun]
  rfl

theorem sleepBeat_records (h : BeatsAs id session R) :
    Records R (sleepBeat id session) fun _ τ => τ = R :=
  .after (setBody_records h .sleeping) fun _ => .get_bind fun _ _ => (sleep_register h.1 _).records R

theorem tick_records (h : BeatsAs id session R) : Records R (tick id session) fun _ τ => τ = R := by
  refine .maintained (signal_register (·.task = id) false) fun _ => .get_bind fun w _ =>
    .maintained (act_register _) fun answer => ?_
  rcases answer with fault | _ | e
  · exact sleepBeat_records h
  · exact sleepBeat_records h
  · exact .maintained (fun _ => rfl) fun _ => setBody_records h .waiting

theorem beatTurn_records (h : BeatsAs id session R) (cancelled : Bool) (beating : Beating) :
    Records R (beatTurn id session cancelled beating) fun _ τ =>
      τ = if cancelled then R.finish id else R := by
  cases cancelled with
  | true =>
    cases beating with
    | waiting => exact .maintained (forgetOutstanding_register session) fun _ => finish_records h.1
    | starting | sleeping => exact finish_records h.1
  | false =>
    cases beating with
    | waiting => exact .maintained (forgetOutstanding_register session) fun _ => sleepBeat_records h
    | starting => exact sleepBeat_records h
    | sleeping => exact tick_records h

theorem returnBeat_records (h : BeatsAs id session R)
    (answer : Except Queue.Fault (Option Envelope)) :
    Records R (returnBeat id session answer) fun _ τ => τ = R := by
  refine .get_bind fun w _ => ?_
  split
  · rcases answer with fault | _ | e
    · exact sleepBeat_records h
    · exact sleepBeat_records h
    · refine .maintained (fun _ => rfl) fun _ => .maintained (fun _ => rfl) fun signalled => .ite (fun _ => ?_) fun _ => ?_
      · exact .maintained (forgetOutstanding_register session) fun _ => sleepBeat_records h
      · exact setBody_records h .waiting
  · exact .answer rfl

end Heartbeats

section Processing

variable {slot : Slot} (e : Envelope)

theorem countFailed_register : Maintains World.register countFailed := fun _ => rfl

theorem put_slots (slot : Slot) (e : Envelope) (envelopes : List (Slot × Envelope)) :
    (Roster.put (·.1 = slot) (slot, e) envelopes).map (·.1) =
      if slot ∈ envelopes.map (·.1) then envelopes.map (·.1) else envelopes.map (·.1) ++ [slot] := by
  induction envelopes with
  | nil => rfl
  | cons first rest ih =>
    unfold Roster.put
    by_cases hfirst : first.1 = slot
    · simp [hfirst]
    · have hne : slot ≠ first.1 := fun h => hfirst h.symm
      simp only [hfirst, decide_false, Bool.false_eq_true, if_false, List.map_cons, ih,
        List.mem_cons, hne, false_or]
      split <;> rfl

theorem setEnvelope_records (slot : Slot) : Records R (setEnvelope slot e) fun _ τ =>
    slot ∈ τ.slots ∧ ∃ slots, τ = { R with slots } := by
  rintro w rfl
  refine ⟨?_, _, rfl⟩
  change slot ∈ (Roster.put _ _ w.envelopes).map (·.1)
  rw [put_slots]
  split
  next h => exact h
  next => simp

theorem replaceEnvelope_records (hslot : slot ∈ R.slots) :
    Records R (setEnvelope slot e) fun _ τ => τ = R := by
  rintro w rfl
  have hslots : (Roster.put (·.1 = slot) (slot, e) w.envelopes).map (·.1) = w.register.slots :=
    (put_slots slot e w.envelopes).trans (if_pos hslot)
  exact congrArg (fun slots => ({ w.register with slots } : Register)) hslots

theorem envelope?_records (hslot : slot ∈ R.slots) :
    Records R (envelope? slot) fun found τ => found.isSome ∧ τ = R := by
  rintro w rfl
  refine ⟨?_, rfl⟩
  change ((w.envelopes.find? (·.1 = slot)).map (·.2)).isSome
  rw [Option.isSome_map, List.find?_isSome]
  obtain ⟨entry, hentry, rfl⟩ := List.mem_map.1 hslot
  exact ⟨entry, hentry, by simp⟩

theorem failEnvelope_records (hslot : slot ∈ R.slots) (error : String) (retry : Bool) :
    Records R (failEnvelope slot e error retry) fun _ τ => τ = R :=
  .get_bind fun _ _ => .maintained (act_register _) fun outcome => by
    cases outcome with
    | ok answer => exact .after (replaceEnvelope_records _ hslot) fun _ => .answer rfl
    | error fault => exact .after (replaceEnvelope_records _ hslot) fun _ => .answer rfl

abbrev Concludes (R : Register) (x : Turn Progress) : Prop :=
  Records R x fun p τ => (∃ outcome, p = .finished outcome) ∧ τ = R

theorem reject_records (hslot : slot ∈ R.slots) (error : String) :
    Concludes R (reject slot e error) :=
  .after (failEnvelope_records e hslot error false) fun outcome => by
    cases outcome with
    | ok _ => exact .maintained countFailed_register fun _ => .answer ⟨⟨_, rfl⟩, rfl⟩
    | error _ => exact .answer ⟨⟨_, rfl⟩, rfl⟩

theorem settle_records (hslot : slot ∈ R.slots) (settlement : Settlement) :
    Concludes R (settle slot e settlement) := by
  cases settlement with
  | acknowledge result =>
    refine .maintained (act_register _) fun outcome => ?_
    cases outcome with
    | ok _ => exact .maintained (fun _ => rfl) fun _ => .answer ⟨⟨_, rfl⟩, rfl⟩
    | error _ => exact .answer ⟨⟨_, rfl⟩, rfl⟩
  | fail error =>
    refine .after (failEnvelope_records e hslot error true) fun outcome => ?_
    cases outcome with
    | ok _ => exact .answer ⟨⟨_, rfl⟩, rfl⟩
    | error _ => exact .answer ⟨⟨_, rfl⟩, rfl⟩

theorem evaluation_register (d : Delivery) : Maintains World.register (evaluation d) :=
  (evaluation_maintains d).through World.register

end Processing

end Turn

theorem World.register_moveOn {w w' : World} (h : w.moveOn = some w') : w'.register = w.register := by
  unfold World.moveOn at h
  split at h
  next => cases h
  next time task rest htimers =>
    obtain rfl := Option.some.inj h
    have hdue : ((w.timers.filter fun timer => timer.1 ≤ time).map fun timer => Handle.turn timer.2).count
        (.turn Turn.own) = (w.timers.filter fun timer => timer.1 ≤ time).countP (·.2 = Turn.own) := by
      rw [List.count, List.countP_map]
      exact List.countP_congr fun timer _ => by simp
    have hlater : (w.timers.filter fun timer => time < timer.1) =
        w.timers.filter fun timer => ! decide (timer.1 ≤ time) := by
      refine List.filter_congr fun timer _ => ?_
      rw [← decide_not, decide_eq_decide, Nat.not_le]
    have hturns : (w.ready ++ (w.timers.filter fun timer => timer.1 ≤ time).map
          fun timer => Handle.turn timer.2).count (.turn Turn.own) +
        (w.timers.filter fun timer => time < timer.1).countP (·.2 = Turn.own) = w.register.turns := by
      rw [List.count_append, hdue, hlater, Nat.add_assoc,
        ← List.countP_eq_countP_filter_add w.timers _ fun timer => timer.1 ≤ time]
      rfl
    exact congrArg (fun turns => ({ w.register with turns } : Register)) hturns

end SignalCoach.Worker
