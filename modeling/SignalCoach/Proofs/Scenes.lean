import SignalCoach.Proofs.Phases
import SignalCoach.Proofs.QueueReady

/-! What the heartbeats of a worker depend on, as a scene: the queue, the heartbeats by session, and
the tasks with the envelopes that they hold. The parts of a turn change a scene each in its own way,
or not at all. -/
namespace SignalCoach.Worker

structure Scene where
  config : Config
  queue : Queue.Contents
  /-- The task of a session's heartbeat, and whether its job was reported. -/
  beats : String → Option (TaskId × Bool)
  /-- What a task does, and whether it is cancelled. -/
  tasks : TaskId → Option (Body × Bool)
  /-- The envelope that a consumer took last. -/
  slots : TaskId → Option Envelope
  nextTask : TaskId
  errand : Errand

def World.scene (w : World) : Scene where
  config := w.config
  queue := w.broker.contents
  beats session := (w.beats.find? (·.session = session)).map fun b => (b.task, b.signalled)
  tasks id := (w.task? id).map fun t => (t.body, t.cancelled)
  slots id := w.slot? (.consumer id)
  nextTask := w.nextTask
  errand := w.errand

namespace Scene

def setBody (id : TaskId) (body : Body) (σ : Scene) : Scene :=
  { σ with tasks := fun i => if i = id then (σ.tasks i).map fun t => (body, t.2) else σ.tasks i }

def cancel (id : TaskId) (σ : Scene) : Scene :=
  { σ with tasks := fun i => if i = id then (σ.tasks i).map fun t => (t.1, true) else σ.tasks i }

def finish (id : TaskId) (σ : Scene) : Scene :=
  { σ with tasks := fun i => if i = id then none else σ.tasks i }

def spawn (body : Body) (σ : Scene) : Scene :=
  { σ with
    tasks := fun i => (σ.tasks i).or (if i = σ.nextTask then some (body, false) else none)
    nextTask := σ.nextTask + 1 }

def hold (id : TaskId) (e : Envelope) (σ : Scene) : Scene :=
  { σ with slots := fun i => if i = id then some e else σ.slots i }

def start (session : String) (σ : Scene) : Scene :=
  { σ.spawn (.heartbeat session .starting) with
    beats := fun s => (σ.beats s).or (if s = session then some (σ.nextTask, false) else none) }

def report (session : String) (σ : Scene) : Scene :=
  { σ with beats := fun s => if s = session then (σ.beats s).map fun b => (b.1, true) else σ.beats s }

def clear (id : TaskId) (σ : Scene) : Scene :=
  { σ with
    beats := fun s => (σ.beats s).map fun b => if b.1 = id then (b.1, false) else b }

def isReported (σ : Scene) (id : TaskId) (session : String) : Bool :=
  (σ.beats session).any fun b => b.1 = id && b.2

def halt (session : String) (σ : Scene) : Scene :=
  match σ.beats session with
  | none => σ
  | some b =>
    { σ.cancel b.1 with beats := fun s => if s = session then none else σ.beats s }

end Scene

/-- A part of a turn that begins in a scene ends in one that `Q` holds of, with its answer. -/
abbrev Shows (σ : Scene) (x : Turn α) (Q : α → Scene → Prop) : Prop :=
  Triple (fun w => w.scene = σ) x fun a w => Q a w.scene

abbrev Acts (x : Turn α) (f : Scene → Scene) : Prop := ∀ w, (x.run w).2.scene = f w.scene

abbrev Unseen (x : Turn α) : Prop := Acts x fun σ => σ

namespace Shows

variable {σ : Scene}

theorem bind {x : Turn α} {f : α → Turn β} {Q : α → Scene → Prop} {R : β → Scene → Prop}
    (hx : Shows σ x Q) (hf : ∀ a τ, Q a τ → Shows τ (f a) R) : Shows σ (x >>= f) R :=
  fun w hw => hf _ _ (hx w hw) _ rfl

theorem after {x : Turn α} {f : α → Turn β} {g : Scene → Scene} {R : β → Scene → Prop}
    (hx : Acts x g) (hf : ∀ a, Shows (g σ) (f a) R) : Shows σ (x >>= f) R :=
  fun w hw => hf _ _ ((hx w).trans (congrArg g hw))

theorem unseen {x : Turn α} {f : α → Turn β} {R : β → Scene → Prop}
    (hx : Unseen x) (hf : ∀ a, Shows σ (f a) R) : Shows σ (x >>= f) R := after hx hf

theorem get_bind {f : World → Turn β} {R : β → Scene → Prop}
    (hf : ∀ w, w.scene = σ → Shows σ (f w) R) : Shows σ (get >>= f) R :=
  fun w hw => hf w hw w hw

theorem set_bind {w : World} {f : PUnit → Turn β} {R : β → Scene → Prop} (hw : w.scene = σ)
    (hf : ∀ a, Shows σ (f a) R) : Shows σ (set w >>= f) R :=
  fun _ _ => hf _ w hw

theorem answer {Q : α → Scene → Prop} {a : α} (h : Q a σ) : Shows σ (pure a : Turn α) Q := by
  rintro w rfl
  exact h

end Shows

theorem Acts.shows {x : Turn α} {g : Scene → Scene} (h : Acts x g) (σ : Scene) :
    Shows σ x fun _ τ => τ = g σ := by
  rintro w rfl
  exact h w

namespace Acts

theorem answer (a : α) : Unseen (pure a : Turn α) := fun _ => rfl

theorem bind {x : Turn α} {f : α → Turn β} {g k : Scene → Scene} (hx : Acts x g)
    (hf : ∀ a, Acts (f a) k) : Acts (x >>= f) (k ∘ g) := by
  intro w
  rw [Turn.run_bind, hf, hx]
  rfl

theorem unseen_bind {x : Turn α} {f : α → Turn β} {g : Scene → Scene} (hx : Unseen x)
    (hf : ∀ a, Acts (f a) g) : Acts (x >>= f) g :=
  bind (g := fun σ => σ) hx hf

theorem bind_unseen {x : Turn α} {f : α → Turn β} {g : Scene → Scene} (hx : Acts x g)
    (hf : ∀ a, Unseen (f a)) : Acts (x >>= f) g :=
  bind (k := fun σ => σ) hx hf

theorem get_bind {f : World → Turn β} {g : Scene → Scene}
    (hf : ∀ w, ((f w).run w).2.scene = g w.scene) : Acts (get >>= f) g := hf

theorem ite {c : Prop} [Decidable c] {x y : Turn α} {g : Scene → Scene} (hx : Acts x g)
    (hy : Acts y g) : Acts (if c then x else y) g := by
  split
  · exact hx
  · exact hy

end Acts

namespace Turn

section Tasks

theorem schedule_unseen (handle : Handle) : Unseen (schedule handle) := fun _ => rfl

theorem goOn_unseen (id : TaskId) : Unseen (goOn id) := fun _ => rfl

theorem sleep_unseen (id : TaskId) (time : Nat) : Unseen (sleep id time) :=
  Acts.ite (schedule_unseen _) fun _ => rfl

theorem modifyTask_acts (id : TaskId) {f : Task → Task} {g : Body × Bool → Body × Bool}
    (hid : ∀ t, (f t).id = t.id) (hf : ∀ t, ((f t).body, (f t).cancelled) = g (t.body, t.cancelled)) :
    Acts (modifyTask id f) fun σ =>
      { σ with tasks := fun i => if i = id then (σ.tasks i).map g else σ.tasks i } := by
  intro w
  have htasks : ∀ i, ((w.tasks.map fun t => if t.id = id then f t else t).find? (·.id = i)).map
      (fun t => (t.body, t.cancelled)) =
        if i = id then (w.scene.tasks i).map g else w.scene.tasks i := by
    intro i
    have hsame : ((fun t : Task => decide (t.id = i)) ∘ fun t => if t.id = id then f t else t) =
        fun t => decide (t.id = i) := by
      funext t
      simp only [Function.comp]
      split
      · rw [hid]
      · rfl
    rw [List.find?_map, hsame, Option.map_map]
    change _ = if i = id then ((w.tasks.find? _).map _).map g else (w.tasks.find? _).map _
    cases hfound : w.tasks.find? (·.id = i) with
    | none => simp
    | some t =>
      have hi : t.id = i := by simpa using List.find?_some hfound
      by_cases h : i = id
      · simp [hi, h, hf]
      · simp [hi, h]
  exact congrArg (fun tasks => ({ w.scene with tasks } : Scene)) (funext htasks)

theorem setBody_acts (id : TaskId) (body : Body) : Acts (setBody id body) (Scene.setBody id body) :=
  modifyTask_acts id (fun _ => rfl) fun _ => rfl

theorem join_unseen (id : TaskId) (joiner : Joiner) : Unseen (join id joiner) := by
  intro w
  refine (modifyTask_acts id (f := fun t => { t with joiners := t.joiners ++ [joiner] })
    (g := fun t => t) (fun _ => rfl) (fun _ => rfl) w).trans ?_
  simp

theorem cancel_acts (id : TaskId) : Acts (cancel id) (Scene.cancel id) := by
  refine Acts.bind_unseen (modifyTask_acts id (g := fun t => (t.1, true)) (fun _ => rfl) fun _ => rfl)
    fun _ => Acts.get_bind fun w => ?_
  split <;> rfl

theorem wake_unseen (joiner : Joiner) : Unseen (wake joiner) := by
  cases joiner <;> exact schedule_unseen _

theorem find?_without {κ β : Type} [DecidableEq κ] (key : β → κ) (k i : κ) (l : List β) :
    (l.filter fun b => key b ≠ k).find? (fun b => key b = i) =
      if i = k then none else l.find? fun b => key b = i := by
  rw [List.find?_filter]
  by_cases h : i = k
  · rw [if_pos h, List.find?_eq_none]
    intro b _
    simp [h]
  · rw [if_neg h]
    congr 1
    funext b
    by_cases hb : key b = i <;> simp [hb, h]

theorem forIn_unseen {β : Type} (l : List β) (f : β → PUnit → Turn (ForInStep PUnit))
    (hf : ∀ b, Unseen (f b ⟨⟩)) : Unseen (forIn l ⟨⟩ f) := by
  induction l with
  | nil => exact Acts.answer _
  | cons b rest ih =>
    rw [List.forIn_cons]
    refine Acts.unseen_bind (hf b) fun step => ?_
    cases step with
    | done _ => exact Acts.answer _
    | yield _ => exact ih

theorem finish_acts (id : TaskId) : Acts (finish id) (Scene.finish id) := by
  intro w
  have hrest : ∀ (joiners : List Joiner), Unseen (do for joiner in joiners do wake joiner) :=
    fun joiners => forIn_unseen joiners _ fun joiner =>
      Acts.unseen_bind (wake_unseen joiner) fun _ => Acts.answer _
  refine (hrest _ { w with tasks := w.tasks.filter (·.id ≠ id) }).trans ?_
  have htasks : ∀ i, ((w.tasks.filter (·.id ≠ id)).find? (·.id = i)).map
      (fun t => (t.body, t.cancelled)) = if i = id then none else w.scene.tasks i := by
    intro i
    rw [find?_without Task.id]
    split <;> rfl
  exact congrArg (fun tasks => ({ w.scene with tasks } : Scene)) (funext htasks)

theorem spawn_acts (body : Body) : Acts (spawn body) (Scene.spawn body) := by
  intro w
  have htasks : ∀ i, ((w.tasks ++ [({ id := w.nextTask, body } : Task)]).find? (·.id = i)).map
      (fun t => (t.body, t.cancelled)) =
        (w.scene.tasks i).or (if i = w.nextTask then some (body, false) else none) := by
    intro i
    rw [List.find?_append, Option.map_or]
    congr 1
    by_cases h : i = w.nextTask
    · simp [h]
    · have hne : w.nextTask ≠ i := fun h' => h h'.symm
      simp [h, hne]
  exact congrArg (fun tasks =>
    ({ w.scene with tasks, nextTask := w.nextTask + 1 } : Scene)) (funext htasks)

theorem note_unseen (event : Event) : Unseen (note event) := fun _ => rfl

theorem countFailed_unseen : Unseen countFailed := fun _ => rfl

theorem setEnvelope_acts (id : TaskId) (e : Envelope) :
    Acts (setEnvelope (.consumer id) e) (Scene.hold id e) := by
  intro w
  have hslots : ∀ i, ((Roster.put (·.1 = Slot.consumer id) (.consumer id, e) w.envelopes).find?
      (·.1 = .consumer i)).map (·.2) = if i = id then some e else w.scene.slots i := by
    intro i
    rw [find?_put]
    by_cases h : i = id
    · simp [h]
    · have hne : Slot.consumer id ≠ .consumer i := fun hi => h (Slot.consumer.inj hi).symm
      rw [if_neg hne, if_neg h]
      rfl
  exact congrArg (fun slots => ({ w.scene with slots } : Scene)) (funext hslots)

end Tasks

section Queue

theorem act_shows {action : Queue.Action α} {P : Except Queue.Fault α → Queue.Contents → Prop}
    {σ : Scene} (h : ∀ b, b.contents = σ.queue → Queue.Action.Ends P (action b)) :
    Shows σ (act action) fun outcome τ => ∃ queue, P outcome queue ∧ τ = { σ with queue } := by
  rintro w rfl
  have hends := h w.broker rfl
  unfold act
  rw [run_bind_of (get_run w)]
  cases hrun : action w.broker with
  | ok a broker =>
    rw [hrun] at hends
    exact ⟨broker.contents, hends, rfl⟩
  | error fault broker =>
    rw [hrun] at hends
    exact ⟨broker.contents, hends, rfl⟩

end Queue

section Locks

theorem modifyLock_unseen (session : String) (f : SessionLock → SessionLock) :
    Unseen (modifyLock session f) := fun _ => rfl

theorem lock_unseen (id : TaskId) (session : String) : Unseen (lock id session) := by
  refine Acts.unseen_bind (fun _ => rfl) fun found => ?_
  cases found with
  | none => exact fun _ => rfl
  | some l => exact fun _ => rfl

theorem callNext_unseen (session : String) : Unseen (callNext session) := by
  refine Acts.unseen_bind (fun _ => rfl) fun found => ?_
  split
  · exact Acts.unseen_bind (modifyLock_unseen _ _) fun _ => schedule_unseen _
  · exact Acts.answer _

theorem unlock_unseen (session : String) : Unseen (unlock session) :=
  Acts.unseen_bind (modifyLock_unseen _ _) fun _ =>
    Acts.unseen_bind (callNext_unseen _) fun _ _ => rfl

theorem lockAfterWait_unseen (id : TaskId) (session : String) : Unseen (lockAfterWait id session) :=
  modifyLock_unseen _ _

end Locks

section Heartbeats

theorem forgetOutstanding_unseen (session : String) : Unseen (forgetOutstanding session) :=
  fun _ => rfl

theorem sleepBeat_acts (id : TaskId) (session : String) :
    Acts (sleepBeat id session) (Scene.setBody id (.heartbeat session .sleeping)) :=
  Acts.bind_unseen (setBody_acts _ _) fun _ => Acts.get_bind fun w => sleep_unseen _ _ w

theorem find?_mapBeats {f : Beat → Beat} (hf : ∀ b, (f b).session = b.session) (session : String)
    (beats : List Beat) :
    (beats.map f).find? (·.session = session) = (beats.find? (·.session = session)).map f := by
  rw [List.find?_map]
  congr 2
  funext b
  simp [hf]

theorem startBeat_shows (session : String) (σ : Scene) :
    Shows σ (startBeat session) fun started τ =>
      started = (σ.beats session).isNone ∧ τ = if started then σ.start session else σ := by
  rintro w rfl
  have hbeats : ∀ s, ((w.beats ++ [({ session, task := w.nextTask } : Beat)]).find?
      (·.session = s)).map (fun b => (b.task, b.signalled)) =
        (w.scene.beats s).or (if s = session then some (w.nextTask, false) else none) := by
    intro s
    rw [List.find?_append, Option.map_or]
    congr 1
    by_cases h : s = session
    · simp [h]
    · have hne : session ≠ s := fun h' => h h'.symm
      simp [h, hne]
  have hbeating : (isBeating session).run w = ((w.scene.beats session).isSome, w) := by
    change ((w.beats.find? _).isSome, w) = (((w.beats.find? _).map _).isSome, w)
    rw [Option.isSome_map]
  unfold startBeat
  rw [run_bind_of hbeating]
  cases hfound : w.scene.beats session with
  | some b => exact ⟨rfl, rfl⟩
  | none =>
    let spawned : World := ((spawn (.heartbeat session .starting)).run w).2
    have hspawned : spawned.scene = w.scene.spawn (.heartbeat session .starting) := spawn_acts _ w
    have hstart : ({ spawned with beats := w.beats ++ [{ session, task := w.nextTask }] } : World).scene =
        { w.scene.spawn (.heartbeat session .starting) with
          beats := fun s =>
            (w.scene.beats s).or (if s = session then some (w.nextTask, false) else none) } := by
      rw [← hspawned]
      exact congrArg (fun beats => ({ spawned.scene with beats } : Scene)) (funext hbeats)
    exact ⟨rfl, hstart⟩

theorem reportBeat_acts (session : String) : Acts (reportBeat session) (Scene.report session) := by
  intro w
  have hbeats : ∀ s, ((w.beats.map fun b => if b.session = session then { b with signalled := true }
      else b).find? (·.session = s)).map (fun b => (b.task, b.signalled)) =
        if s = session then (w.scene.beats s).map (fun b => (b.1, true)) else w.scene.beats s := by
    intro s
    rw [find?_mapBeats fun b => by split <;> rfl]
    change _ = if s = session then ((w.beats.find? _).map _).map _ else (w.beats.find? _).map _
    cases hfound : w.beats.find? (·.session = s) with
    | none => simp
    | some b =>
      have hs : b.session = s := by simpa using List.find?_some hfound
      by_cases h : s = session <;> simp [hs, h]
  have hbeat : (beat? session).run w = (w.beats.find? (·.session = session), w) := rfl
  unfold reportBeat
  rw [run_bind_of hbeat]
  split
  next task hfound =>
    exact (Acts.ite (schedule_unseen _) (Acts.answer _) _).trans
      (congrArg (fun beats => ({ w.scene with beats } : Scene)) (funext hbeats))
  next hsilent =>
    have hsame : ∀ s, w.scene.beats s =
        if s = session then (w.scene.beats s).map (fun b => (b.1, true)) else w.scene.beats s := by
      intro s
      split
      next hs =>
        subst hs
        change (w.beats.find? _).map _ = ((w.beats.find? _).map _).map _
        cases hfound : w.beats.find? (·.session = s) with
        | none => rfl
        | some b =>
          obtain ⟨session, task, signalled⟩ := b
          cases signalled with
          | true => rfl
          | false => exact (hsilent session task hfound).elim
      next => rfl
    exact congrArg (fun beats => ({ w.scene with beats } : Scene)) (funext hsame)

theorem clearSignal_acts (id : TaskId) : Acts (clearSignal id) (Scene.clear id) := by
  intro w
  have hbeats : ∀ s, ((w.beats.map fun b => if b.task = id then { b with signalled := false } else b).find?
      (·.session = s)).map (fun b => (b.task, b.signalled)) =
        (w.scene.beats s).map fun b => if b.1 = id then (b.1, false) else b := by
    intro s
    rw [find?_mapBeats fun b => by split <;> rfl]
    change _ = ((w.beats.find? _).map _).map _
    rw [Option.map_map, Option.map_map]
    congr 1
    funext b
    simp only [Function.comp]
    split <;> rfl
  exact congrArg (fun beats => ({ w.scene with beats } : Scene)) (funext hbeats)

theorem haltBeat_acts (waiter : TaskId) (session : String) :
    Acts (haltBeat waiter session) (Scene.halt session) := by
  intro w
  have hbeats : ∀ s, ((w.beats.filter (·.session ≠ session)).find? (·.session = s)).map
      (fun b => (b.task, b.signalled)) = if s = session then none else w.scene.beats s := by
    intro s
    rw [find?_without Beat.session]
    split <;> rfl
  let without : World := { w with
    beats := w.beats.filter (·.session ≠ session)
    outstanding := w.outstanding.filter (· ≠ session) }
  have hwithout : without.scene =
      { w.scene with beats := fun s => if s = session then none else w.scene.beats s } :=
    congrArg (fun beats => ({ w.scene with beats } : Scene)) (funext hbeats)
  have hbeat : (beat? session).run w = (w.beats.find? (·.session = session), w) := rfl
  cases hfound : w.beats.find? (·.session = session) with
  | none =>
    have hhalt : (haltBeat waiter session).run w = (pure false : Turn Bool).run without := by
      unfold haltBeat
      rw [run_bind_of (hfound ▸ hbeat)]
      rfl
    have hnone : w.scene.beats session = none := by
      change (w.beats.find? _).map _ = none
      rw [hfound]
      rfl
    rw [hhalt, Scene.halt, hnone]
    refine hwithout.trans (congrArg (fun beats => ({ w.scene with beats } : Scene)) (funext fun s => ?_))
    split
    next hs => exact hnone.symm.trans (congrArg w.scene.beats hs.symm)
    next => rfl
  | some b =>
    have hhalt : (haltBeat waiter session).run w = (do
        cancel b.task
        join b.task (.task waiter)
        pure true : Turn Bool).run without := by
      unfold haltBeat
      rw [run_bind_of (hfound ▸ hbeat)]
      rfl
    have hsome : w.scene.beats session = some (b.task, b.signalled) := by
      change (w.beats.find? _).map _ = _
      rw [hfound]
      rfl
    rw [hhalt, Scene.halt, hsome]
    refine ((Acts.bind_unseen (cancel_acts b.task) fun _ =>
      Acts.unseen_bind (join_unseen _ _) fun _ => Acts.answer _) without).trans ?_
    rw [hwithout]
    rfl

theorem awaitReport_shows (id : TaskId) (session : String) (σ : Scene) :
    Shows σ (awaitReport id session) fun _ τ => τ = σ.setBody id (.heartbeat session
      (if σ.isReported id session then .sleeping else .waiting)) := by
  refine Shows.unseen (fun _ => rfl) fun _ => ?_
  have hreported : Shows σ (isSignalled id session) fun reported τ =>
      reported = σ.isReported id session ∧ τ = σ := by
    rintro w rfl
    refine ⟨?_, rfl⟩
    change (w.beats.find? _).any _ = ((w.beats.find? _).map _).any _
    cases w.beats.find? (·.session = session) <;> rfl
  refine Shows.bind hreported fun reported τ h => ?_
  obtain ⟨rfl, rfl⟩ := h
  split
  · exact Shows.unseen (forgetOutstanding_unseen _) fun _ => (sleepBeat_acts id session).shows τ
  · exact (setBody_acts id _).shows τ

theorem returnBeat_shows (id : TaskId) (session : String)
    (answer : Except Queue.Fault (Option Envelope)) (σ : Scene) :
    Shows σ (returnBeat id session answer) fun _ τ =>
      match σ.tasks id with
      | some (_, false) => τ = σ.setBody id (.heartbeat session
          (if answer.toOption.join.isSome && !σ.isReported id session then .waiting
            else .sleeping))
      | _ => τ = σ := by
  rintro w rfl
  change match (w.task? id).map fun t => (t.body, t.cancelled) with
    | some (_, false) => _
    | _ => _
  unfold returnBeat
  rw [run_bind_of (get_run w)]
  cases htask : w.task? id with
  | none => rfl
  | some t =>
    obtain ⟨_, body, cancelled, _⟩ := t
    cases cancelled with
    | true => rfl
    | false =>
      rcases answer with fault | _ | e
      · exact sleepBeat_acts id session w
      · exact sleepBeat_acts id session w
      refine (awaitReport_shows id session _ w rfl).trans ?_
      cases w.scene.isReported id session <;> rfl

end Heartbeats

section Consumers

theorem rest_acts (id : TaskId) (consuming : Consuming) :
    Acts (rest id consuming) (Scene.setBody id (.consumer consuming)) :=
  Acts.bind_unseen (setBody_acts _ _) fun _ => Acts.get_bind fun w => sleep_unseen _ _ w

theorem lookAgain_acts (id : TaskId) :
    Acts (lookAgain id) (Scene.setBody id (.consumer .looking)) :=
  Acts.bind_unseen (setBody_acts _ _) fun _ => goOn_unseen _

def doneWith : Processed → Consuming
  | .ok _ => .looking
  | .error _ => .pausing

theorem continueWith_acts (id : TaskId) (p : Progress) :
    Acts (continueWith id p) (Scene.setBody id (.consumer (match p with
      | .suspended stage => .delivering stage
      | .finished outcome => doneWith outcome))) := by
  match p with
  | .suspended stage => exact setBody_acts _ _
  | .finished (.ok _) => exact lookAgain_acts id
  | .finished (.error _) => exact rest_acts id _

theorem handle_unseen (d : Delivery) : Unseen (handle d) := by
  refine Acts.get_bind fun w => ?_
  dsimp only
  split
  next result desk _ => cases result.wrote <;> rfl
  next => rfl

theorem failEnvelope_shows (id : TaskId) (e : Envelope) (error : String) (retry : Bool) (σ : Scene) :
    Shows σ (failEnvelope (.consumer id) e error retry) fun _ τ => ∃ queue e',
      Queue.Contents.Waits (fun _ => False) (fun entry => retry = true ∧
        (e.failed error).exhausted = false ∧ (e.failed error).encode? = some entry) σ.queue queue ∧
      τ = ({ σ with queue } : Scene).hold id e' := by
  refine Shows.get_bind fun w _ => Shows.bind (act_shows fun b hb =>
    hb ▸ Queue.ends_of_after (Queue.fail_waits w.clock e error retry b)) fun outcome τ h => ?_
  obtain ⟨queue, hwaits, rfl⟩ := h
  cases outcome with
  | ok answer =>
    exact Shows.after (setEnvelope_acts _ _) fun _ => Shows.answer ⟨queue, answer.2, hwaits, rfl⟩
  | error fault =>
    exact Shows.after (setEnvelope_acts _ _) fun _ => Shows.answer ⟨queue, _, hwaits, rfl⟩

theorem reject_shows (id : TaskId) (e : Envelope) (error : String) (σ : Scene) :
    Shows σ (reject (.consumer id) e error) fun p τ => (∃ outcome, p = .finished outcome) ∧
      ∃ queue e', Queue.Contents.Waits (fun _ => False) (fun _ => False) σ.queue queue ∧
        τ = ({ σ with queue } : Scene).hold id e' := by
  refine Shows.bind (failEnvelope_shows id e error false σ) fun outcome τ h => ?_
  obtain ⟨queue, e', hwaits, rfl⟩ := h
  have hwaits : Queue.Contents.Waits (fun _ => False) (fun _ => False) σ.queue queue :=
    hwaits.mono (fun _ h => h) fun _ h => nomatch h.1
  cases outcome with
  | ok _ =>
    exact Shows.unseen countFailed_unseen fun _ => Shows.answer ⟨⟨_, rfl⟩, queue, e', hwaits, rfl⟩
  | error _ => exact Shows.answer ⟨⟨_, rfl⟩, queue, e', hwaits, rfl⟩

theorem settle_shows (id : TaskId) (e : Envelope) (settlement : Settlement) (σ : Scene) :
    Shows σ (settle (.consumer id) e settlement) fun p τ => (∃ outcome, p = .finished outcome) ∧
      ∃ queue slots, Queue.Contents.Waits (fun _ => False) (fun entry => ∃ error,
        (e.failed error).exhausted = false ∧ (e.failed error).encode? = some entry) σ.queue queue ∧
        τ = { σ with queue, slots } ∧ ∀ i, i ≠ id → slots i = σ.slots i := by
  cases settlement with
  | acknowledge result =>
    refine Shows.bind (act_shows fun b hb =>
      hb ▸ Queue.ends_of_after (Queue.complete_waits e b)) fun outcome τ h => ?_
    obtain ⟨queue, hwaits, rfl⟩ := h
    have hwaits : Queue.Contents.Waits (fun _ => False) (fun entry => ∃ error,
        (e.failed error).exhausted = false ∧ (e.failed error).encode? = some entry) σ.queue queue :=
      hwaits.mono (fun _ h => h) fun _ h => h.elim
    cases outcome with
    | ok _ =>
      exact Shows.unseen (fun _ => rfl) fun _ =>
        Shows.answer ⟨⟨_, rfl⟩, queue, σ.slots, hwaits, rfl, fun _ _ => rfl⟩
    | error _ => exact Shows.answer ⟨⟨_, rfl⟩, queue, σ.slots, hwaits, rfl, fun _ _ => rfl⟩
  | fail error =>
    refine Shows.bind (failEnvelope_shows id e error true σ) fun outcome τ h => ?_
    obtain ⟨queue, e', hwaits, rfl⟩ := h
    have hwaits : Queue.Contents.Waits (fun _ => False) (fun entry => ∃ error,
        (e.failed error).exhausted = false ∧ (e.failed error).encode? = some entry) σ.queue queue :=
      hwaits.mono (fun _ h => h) fun _ h => ⟨error, h.2⟩
    have hslots : ∀ i, i ≠ id → (({ σ with queue } : Scene).hold id e').slots i = σ.slots i :=
      fun i hi => if_neg hi
    cases outcome with
    | ok _ => exact Shows.answer ⟨⟨_, rfl⟩, queue, _, hwaits, rfl, hslots⟩
    | error _ => exact Shows.answer ⟨⟨_, rfl⟩, queue, _, hwaits, rfl, hslots⟩

theorem report_shows (id : TaskId) (e : Envelope) (job : Job) (outcome : Except Failure JobResult)
    (σ : Scene) (hbeats : σ.config.heartbeat.isSome) :
    Shows σ (report id e job outcome) fun told τ =>
      τ = σ.halt job.sessionId ∨ told.1 = false ∧
        let reported := if e.name = Queue.heartbeatName then σ.report job.sessionId else σ
        τ = reported ∨ reported.beats job.sessionId = none ∧ τ = reported.start job.sessionId := by
  have hsome : ∀ w : World, w.scene = σ → w.config.heartbeat.isSome = true := by
    rintro w rfl
    exact hbeats
  have hhalt : ∀ settlement, Shows σ (do pure (← haltBeat id job.sessionId, settlement))
      fun (told : Bool × Settlement) τ => τ = σ.halt job.sessionId := fun settlement =>
    Shows.after (haltBeat_acts id job.sessionId) fun _ => Shows.answer rfl
  cases outcome with
  | error failure =>
    refine Shows.unseen countFailed_unseen fun _ => Shows.get_bind fun w hw => ?_
    by_cases hname : e.name = Queue.heartbeatName
    · simp only [hsome w hw, hname]
      exact (hhalt _).post fun _ _ h => .inl h
    · simp only [hname, decide_false, Bool.and_false]
      exact Shows.answer (.inr ⟨rfl, .inl rfl⟩)
  | ok result =>
    refine Shows.get_bind fun w hw => ?_
    have hnone : w.config.heartbeat.isNone = false := by
      rw [← Option.not_isSome, hsome w hw]
      rfl
    simp only [hnone]
    by_cases hgone : result.outcome = .sessionNotFound
    · rw [if_neg (by simp), if_pos hgone]
      exact (hhalt _).post fun _ _ h => .inl h
    rw [if_neg (by simp), if_neg hgone]
    have hstart : ∀ σ' : Scene, Shows σ' (do
          if result.outcome = .completed then
            let _ ← startBeat job.sessionId
          pure (false, Settlement.acknowledge result) : Turn (Bool × Settlement))
        fun told τ => told.1 = false ∧ (τ = σ' ∨
          σ'.beats job.sessionId = none ∧ τ = σ'.start job.sessionId) := by
      intro σ'
      by_cases hcompleted : result.outcome = .completed
      · rw [if_pos hcompleted]
        refine Shows.bind (startBeat_shows job.sessionId σ') fun started τ h => ?_
        obtain ⟨rfl, rfl⟩ := h
        refine Shows.answer ⟨rfl, ?_⟩
        cases hbeat : σ'.beats job.sessionId with
        | none => exact .inr ⟨rfl, rfl⟩
        | some _ => exact .inl rfl
      · rw [if_neg hcompleted]
        exact Shows.answer ⟨rfl, .inl rfl⟩
    by_cases hname : e.name = Queue.heartbeatName
    · rw [if_pos hname, if_pos hname]
      exact Shows.after (reportBeat_acts job.sessionId) fun _ => (hstart _).post fun _ _ h => .inr h
    · rw [if_neg hname, if_neg hname]
      exact (hstart σ).post fun _ _ h => .inr h

end Consumers

end Turn

end SignalCoach.Worker
