import SignalCoach.Proofs.Interleaving
import SignalCoach.Proofs.Relay
import SignalCoach.Proofs.Scenes

/-! A worker in service as a relay: whatever a task does next, the jobs of heartbeats are passed on in
one of the ways of the relay. -/
namespace SignalCoach.Worker

open Queue (Contents Ordinary IsBeat)
open Queue.Contents (Waits TakesReady)
open Relay (Change Changes)

namespace Scene

def signal (σ : Scene) (id : TaskId) (session : String) : Option Bool :=
  (σ.beats session).bind fun b => if b.1 = id then some b.2 else none

variable (σ : Scene) (m : TaskId → Option Phase)

def place (id : TaskId) : Place :=
  match m id with
  | some p => .ofPhase (σ.signal id) p
  | none => (σ.tasks id).elim .idle fun t => .ofBody (σ.signal id) (σ.slots id) t.1

def relay (sent : TaskId → Option Envelope) : Relay := { queue := σ.queue, place := σ.place m, sent }

end Scene

def Consumes (task : Option (Body × Bool)) : Prop :=
  ∃ consuming, task = some (.consumer consuming, false)

def Phase.Fits (σ : Scene) (id : TaskId) : Phase → Prop
  | .clearing s | .enqueuing s | .enqueued s _ => ∀ body cancelled, σ.tasks id = some (body, cancelled) →
      body = .heartbeat s .sleeping ∧ (cancelled = false → σ.signal id s ≠ none)
  | .looking | .lookingAfterWait | .looked _ => Consumes (σ.tasks id)
  | .entering e | .reported e _ => Consumes (σ.tasks id) ∧ σ.slots id = some e
  | .locked e d | .handling e d | .handled e d _ =>
    Consumes (σ.tasks id) ∧ σ.slots id = some e ∧ Turn.jobOf e = some d.job

def Body.Fits (σ : Scene) (id : TaskId) (cancelled : Bool) : Body → Prop
  | .errand => True
  | .heartbeat s _ => cancelled = false → σ.signal id s ≠ none
  | .consumer consuming => cancelled = false ∧ ∀ d ∈ (Body.consumer consuming).delivery?,
      ∀ e, σ.slots id = some e → Turn.jobOf e = some d.job
  | .member _ _ _ => False

def Errand.Idle : Errand → Prop
  | .none | .passing | .draining | .halting _ => True
  | _ => False

/-- What a worker in service is like at all times. -/
structure Scene.Sound (σ : Scene) (m : TaskId → Option Phase) : Prop where
  heartbeats : σ.config.heartbeat.isSome
  errand : σ.errand.Idle
  fresh : ∀ id, σ.nextTask ≤ id → σ.tasks id = none ∧ m id = none
  phases : ∀ id p, m id = some p → p.Fits σ id
  bodies : ∀ id body cancelled, m id = none → σ.tasks id = some (body, cancelled) →
    body.Fits σ id cancelled
  beats : ∀ session id signal, σ.beats session = some (id, signal) →
    ∃ beating, σ.tasks id = some (.heartbeat session beating, false)

namespace Scene

variable {σ τ : Scene} {m m' : TaskId → Option Phase} {id : TaskId}

/-- Who is in the middle of a turn is a heartbeat that slept, or a consumer. -/
theorem Sound.midway_cases (h : σ.Sound m) {p : Phase} (hp : m id = some p) :
    (∃ s, ∀ body cancelled, σ.tasks id = some (body, cancelled) → body = .heartbeat s .sleeping) ∨
      Consumes (σ.tasks id) := by
  have hfits := h.phases id p hp
  cases p with
  | clearing s | enqueuing s | enqueued s answer =>
    exact .inl ⟨s, fun body cancelled htask => (hfits body cancelled htask).1⟩
  | looking | lookingAfterWait | looked outcome => exact .inr hfits
  | entering e | locked e d | handling e d | handled e d outcome | reported e settlement =>
    exact .inr hfits.1

section Frames

theorem fits_phase {i : TaskId} {p : Phase} (h : p.Fits σ i) (htasks : τ.tasks i = σ.tasks i)
    (hslots : τ.slots i = σ.slots i)
    (hsignal : ∀ s, σ.signal i s ≠ none → τ.signal i s ≠ none) : p.Fits τ i := by
  cases p <;> simp only [Phase.Fits, htasks, hslots] at h ⊢ <;> try exact h
  all_goals
    intro body cancelled hbody
    exact ⟨(h body cancelled hbody).1, fun hlive => hsignal _ ((h body cancelled hbody).2 hlive)⟩

theorem fits_body {i : TaskId} {body : Body} {cancelled : Bool} (h : body.Fits σ i cancelled)
    (hslots : τ.slots i = σ.slots i)
    (hsignal : ∀ s, σ.signal i s ≠ none → τ.signal i s ≠ none) : body.Fits τ i cancelled := by
  cases body with
  | errand => exact h
  | heartbeat s beating => exact fun hlive => hsignal s (h hlive)
  | consumer consuming => simpa only [Body.Fits, hslots] using h
  | member index name stage => exact h

structure Near (id : TaskId) (σ τ : Scene) (m m' : TaskId → Option Phase) : Prop where
  config : τ.config = σ.config
  beats : τ.beats = σ.beats
  nextTask : τ.nextTask = σ.nextTask
  errand : τ.errand = σ.errand
  others : ∀ i, i ≠ id → τ.tasks i = σ.tasks i ∧ τ.slots i = σ.slots i ∧ m' i = m i

theorem Near.signal (h : Near id σ τ m m') (i : TaskId) (s : String) :
    τ.signal i s = σ.signal i s := by
  rw [Scene.signal, h.beats, Scene.signal]

structure Settled (id : TaskId) (σ τ : Scene) (m' : TaskId → Option Phase) : Prop where
  old : id < σ.nextTask
  phase : ∀ p, m' id = some p → p.Fits τ id
  body : ∀ body cancelled, m' id = none → τ.tasks id = some (body, cancelled) →
    body.Fits τ id cancelled
  beat : ∀ session signal, σ.beats session = some (id, signal) →
    ∃ beating, τ.tasks id = some (.heartbeat session beating, false)

theorem Sound.near (h : σ.Sound m) (hnear : Near id σ τ m m') (hsettled : Settled id σ τ m') :
    τ.Sound m' where
  heartbeats := hnear.config ▸ h.heartbeats
  errand := hnear.errand ▸ h.errand
  fresh i hi := by
    rw [hnear.nextTask] at hi
    have hne : i ≠ id := by
      rintro rfl
      exact Nat.not_lt.2 hi hsettled.old
    obtain ⟨htasks, -, hm⟩ := hnear.others i hne
    rw [htasks, hm]
    exact h.fresh i hi
  phases i p hp := by
    by_cases hi : i = id
    · subst hi
      exact hsettled.phase p hp
    · obtain ⟨htasks, hslots, hm⟩ := hnear.others i hi
      exact fits_phase (h.phases i p (hm ▸ hp)) htasks hslots fun s => by rw [hnear.signal]; exact fun h => h
  bodies i body cancelled hp hbody := by
    by_cases hi : i = id
    · subst hi
      exact hsettled.body body cancelled hp hbody
    · obtain ⟨htasks, hslots, hm⟩ := hnear.others i hi
      exact fits_body (h.bodies i body cancelled (hm ▸ hp) (htasks ▸ hbody)) hslots fun s => by
        rw [hnear.signal]; exact fun h => h
  beats session i signal hbeat := by
    rw [hnear.beats] at hbeat
    by_cases hi : i = id
    · subst hi
      exact hsettled.beat session signal hbeat
    · rw [(hnear.others i hi).1]
      exact h.beats session i signal hbeat

theorem relay_near (hnear : Near id σ τ m m') (sent sent' : TaskId → Option Envelope) :
    τ.relay m' sent' = { (σ.relay m sent).move id (τ.place m' id) with queue := τ.queue, sent := sent' } := by
  have hplace : τ.place m' = Function.update (σ.place m) id (τ.place m' id) := by
    funext i
    by_cases hi : i = id
    · subst hi
      rw [Function.update_self]
    · obtain ⟨htasks, hslots, hm⟩ := hnear.others i hi
      rw [Function.update_of_ne hi]
      unfold place
      rw [htasks, hslots, hm, show τ.signal i = σ.signal i from funext (hnear.signal i)]
  change ({ queue := τ.queue, place := τ.place m', sent := sent' } : Relay) = { queue := _, place := _, sent := _ }
  exact congrArg (fun place => ({ queue := τ.queue, place, sent := sent' } : Relay)) hplace

end Frames

section Heartbeats

theorem signal_report (i : TaskId) (s session : String) : (σ.report session).signal i s =
    if s = session then (σ.signal i s).map fun _ => true else σ.signal i s := by
  unfold signal report
  by_cases h : s = session
  · subst h
    cases hbeat : σ.beats s with
    | none => simp [hbeat]
    | some b => by_cases hi : b.1 = i <;> simp [hbeat, hi]
  · simp [h]

theorem signal_halt (i : TaskId) (s session : String) : (σ.halt session).signal i s =
    if s = session then none else σ.signal i s := by
  unfold signal halt
  cases hbeat : σ.beats session with
  | none =>
    by_cases h : s = session
    · subst h
      simp [hbeat]
    · simp [h]
  | some b => by_cases h : s = session <;> simp [h]

theorem signal_clear (i : TaskId) (s : String) : (σ.clear id).signal i s =
    if i = id then (σ.signal i s).map fun _ => false else σ.signal i s := by
  unfold signal clear
  cases hbeat : σ.beats s with
  | none => simp [hbeat]
  | some b =>
    by_cases hb : b.1 = id
    · by_cases hi : i = id
      · simp [hbeat, hb, hi]
      · have hne : id ≠ i := fun h => hi h.symm
        simp [hbeat, hb, hi, hne]
    · by_cases hi : i = id
      · simp [hbeat, hb, hi]
      · simp [hbeat, hb, hi]

theorem signal_start {session : String} (hnone : σ.beats session = none) (i : TaskId) (s : String) :
    (σ.start session).signal i s =
      if s = session then (if i = σ.nextTask then some false else none) else σ.signal i s := by
  unfold signal start
  by_cases h : s = session
  · subst h
    by_cases hi : i = σ.nextTask
    · simp [hnone, hi]
    · have hne : σ.nextTask ≠ i := fun h => hi h.symm
      simp [hnone, hi, hne]
  · simp [h]

theorem ofPhase_report (signal : String → Option Bool) (session : String) (p : Phase) :
    Place.ofPhase (fun s => if s = session then (signal s).map fun _ => true else signal s) p =
      (Place.ofPhase signal p).report session := by
  cases p with
  | looked outcome =>
    match outcome with
    | .ok (.job e) | .ok .unreadable | .ok .nothing | .error _ => rfl
  | _ => rfl

theorem ofPhase_halt (signal : String → Option Bool) (session : String) (p : Phase) :
    Place.ofPhase (fun s => if s = session then none else signal s) p =
      (Place.ofPhase signal p).halt session := by
  cases p with
  | looked outcome =>
    match outcome with
    | .ok (.job e) | .ok .unreadable | .ok .nothing | .error _ => rfl
  | _ => rfl

theorem ofBody_report (signal : String → Option Bool) (session : String) (slot : Option Envelope)
    (body : Body) :
    Place.ofBody (fun s => if s = session then (signal s).map fun _ => true else signal s) slot body =
      (Place.ofBody signal slot body).report session := by
  cases body with
  | heartbeat s beating => cases beating <;> rfl
  | consumer consuming =>
    cases consuming with
    | delivering stage => cases stage <;> cases slot <;> rfl
    | _ => rfl
  | _ => rfl

theorem ofBody_halt (signal : String → Option Bool) (session : String) (slot : Option Envelope)
    (body : Body) :
    Place.ofBody (fun s => if s = session then none else signal s) slot body =
      (Place.ofBody signal slot body).halt session := by
  cases body with
  | heartbeat s beating => cases beating <;> rfl
  | consumer consuming =>
    cases consuming with
    | delivering stage => cases stage <;> cases slot <;> rfl
    | _ => rfl
  | _ => rfl

theorem relay_report (session : String) (sent : TaskId → Option Envelope) :
    (σ.report session).relay m sent =
      { σ.relay m sent with place := fun i => (σ.place m i).report session } := by
  have hplace : (σ.report session).place m = fun i => (σ.place m i).report session := by
    funext i
    have hsignal : (σ.report session).signal i = fun s =>
        if s = session then (σ.signal i s).map fun _ => true else σ.signal i s :=
      funext fun s => signal_report i s session
    unfold place
    rw [hsignal]
    cases m i with
    | some p => exact ofPhase_report _ session p
    | none =>
      change ((σ.tasks i).elim _ _ : Place) = _
      cases σ.tasks i with
      | none => rfl
      | some t => exact ofBody_report _ session _ t.1
  exact congrArg (fun place => ({ σ.relay m sent with place } : Relay)) hplace

theorem tasks_halt (session : String) (i : TaskId) :
    (σ.halt session).tasks i = (σ.tasks i).map fun t =>
      (t.1, if (σ.beats session).any (·.1 = i) then true else t.2) := by
  unfold halt
  cases σ.beats session with
  | none => simp
  | some b =>
    by_cases hi : i = b.1
    · simp [cancel, hi]
    · have hne : b.1 ≠ i := fun h => hi h.symm
      simp [cancel, hi, hne]

theorem beats_halt (session : String) : (σ.halt session).beats session = none := by
  unfold halt
  cases hbeat : σ.beats session with
  | none => exact hbeat
  | some _ => exact if_pos rfl

theorem halt_frame (session : String) : (σ.halt session).queue = σ.queue ∧
    (σ.halt session).slots = σ.slots ∧ (σ.halt session).config = σ.config ∧
    (σ.halt session).errand = σ.errand ∧ (σ.halt session).nextTask = σ.nextTask := by
  unfold halt
  cases σ.beats session <;> exact ⟨rfl, rfl, rfl, rfl, rfl⟩

theorem relay_halt (session : String) (sent : TaskId → Option Envelope) :
    (σ.halt session).relay m sent =
      { σ.relay m sent with place := fun i => (σ.place m i).halt session } := by
  obtain ⟨hqueue, hslots, -, -, -⟩ := halt_frame (σ := σ) session
  have hplace : (σ.halt session).place m = fun i => (σ.place m i).halt session := by
    funext i
    have hsignal : (σ.halt session).signal i = fun s =>
        if s = session then none else σ.signal i s :=
      funext fun s => signal_halt i s session
    unfold place
    rw [hsignal, hslots, tasks_halt]
    cases m i with
    | some p => exact ofPhase_halt _ session p
    | none =>
      cases σ.tasks i with
      | none => rfl
      | some t => exact ofBody_halt _ session _ t.1
  unfold relay
  rw [hplace, hqueue]

theorem Sound.report (h : σ.Sound m) (session : String) : (σ.report session).Sound m := by
  have hsignal : ∀ i s, σ.signal i s ≠ none → (σ.report session).signal i s ≠ none := by
    intro i s hlive
    rw [signal_report]
    split
    · simpa using hlive
    · exact hlive
  exact {
    heartbeats := h.heartbeats
    errand := h.errand
    fresh := h.fresh
    phases := fun i p hp => fits_phase (h.phases i p hp) rfl rfl (hsignal i)
    bodies := fun i body cancelled hp hbody =>
      fits_body (h.bodies i body cancelled hp hbody) rfl (hsignal i)
    beats := fun s i signal hbeat => by
      change (if s = session then (σ.beats s).map fun b => (b.1, true) else σ.beats s) = _ at hbeat
      split at hbeat
      · obtain ⟨b, hb, hbi⟩ := Option.map_eq_some_iff.1 hbeat
        obtain ⟨rfl, -⟩ := Prod.mk.inj hbi
        exact h.beats s b.1 b.2 hb
      · exact h.beats s i signal hbeat }

theorem Sound.clear (h : σ.Sound m) (id : TaskId) : (σ.clear id).Sound m := by
  have hsignal : ∀ i s, σ.signal i s ≠ none → (σ.clear id).signal i s ≠ none := by
    intro i s hlive
    rw [signal_clear]
    split
    · simpa using hlive
    · exact hlive
  exact {
    heartbeats := h.heartbeats
    errand := h.errand
    fresh := h.fresh
    phases := fun i p hp => fits_phase (h.phases i p hp) rfl rfl (hsignal i)
    bodies := fun i body cancelled hp hbody =>
      fits_body (h.bodies i body cancelled hp hbody) rfl (hsignal i)
    beats := fun s i signal hbeat => by
      obtain ⟨b, hb, hbi⟩ := Option.map_eq_some_iff.1 hbeat
      obtain ⟨beating, htask⟩ := h.beats s b.1 b.2 hb
      split at hbi <;> cases hbi <;> exact ⟨beating, htask⟩ }

theorem relay_clear (id : TaskId) (sent : TaskId → Option Envelope) :
    (σ.clear id).relay m sent = (σ.relay m sent).move id ((σ.clear id).place m id) := by
  have hplace : (σ.clear id).place m = Function.update (σ.place m) id ((σ.clear id).place m id) := by
    funext i
    by_cases hi : i = id
    · subst hi
      rw [Function.update_self]
    · have hsignal : (σ.clear id).signal i = σ.signal i := by
        funext s
        rw [signal_clear, if_neg hi]
      rw [Function.update_of_ne hi, place, hsignal]
      rfl
  exact congrArg (fun place => ({ σ.relay m sent with place } : Relay)) hplace

theorem Sound.halt_cases (h : σ.Sound m) (session : String) (i : TaskId) :
    ((σ.halt session).tasks i = σ.tasks i ∧ ∀ s, (σ.halt session).signal i s = σ.signal i s) ∨
      ∃ beating, σ.tasks i = some (.heartbeat session beating, false) ∧
        (σ.halt session).tasks i = some (.heartbeat session beating, true) := by
  cases hbeat : σ.beats session with
  | none =>
    have hsame : σ.halt session = σ := by
      unfold halt
      rw [hbeat]
    exact .inl ⟨by rw [hsame], fun s => by rw [hsame]⟩
  | some b =>
    by_cases hi : b.1 = i
    · obtain ⟨beating, htask⟩ := h.beats session b.1 b.2 hbeat
      refine .inr ⟨beating, hi ▸ htask, ?_⟩
      rw [tasks_halt, hbeat, ← hi, htask]
      simp
    · refine .inl ⟨?_, fun s => ?_⟩
      · rw [tasks_halt, hbeat]
        simp [hi]
      · rw [signal_halt]
        split
        next hs =>
          subst hs
          simp [signal, hbeat, hi]
        next => rfl

theorem Sound.halt (h : σ.Sound m) (session : String) : (σ.halt session).Sound m := by
  obtain ⟨-, hslots, hconfig, herrand, hnext⟩ := halt_frame (σ := σ) session
  refine {
    heartbeats := hconfig ▸ h.heartbeats
    errand := herrand ▸ h.errand
    fresh := fun i hi => ?_
    phases := fun i p hp => ?_
    bodies := fun i body cancelled hp hbody => ?_
    beats := fun s i signal hbeat => ?_ }
  · obtain ⟨htasks, hm⟩ := h.fresh i (hnext ▸ hi)
    exact ⟨by rw [tasks_halt, htasks]; rfl, hm⟩
  · have hfits := h.phases i p hp
    rcases h.halt_cases session i with ⟨htasks, hsignal⟩ | ⟨beating, hbefore, hafter⟩
    · exact fits_phase hfits htasks (congrFun hslots i) fun s => by rw [hsignal]; exact fun h => h
    cases p with
    | clearing s | enqueuing s | enqueued s answer =>
      intro body cancelled hbody
      obtain ⟨rfl, rfl⟩ := Prod.mk.inj (Option.some.inj (hafter.symm.trans hbody))
      exact ⟨(hfits _ _ hbefore).1, by simp⟩
    | looking | lookingAfterWait | looked outcome =>
      obtain ⟨consuming, hconsumes⟩ := hfits
      rw [hbefore] at hconsumes
      simp at hconsumes
    | entering e | locked e d | handling e d | handled e d outcome | reported e settlement =>
      obtain ⟨⟨consuming, hconsumes⟩, -⟩ := hfits
      rw [hbefore] at hconsumes
      simp at hconsumes
  · rcases h.halt_cases session i with ⟨htasks, hsignal⟩ | ⟨beating, -, htask⟩
    · exact fits_body (h.bodies i body cancelled hp (htasks ▸ hbody)) (congrFun hslots i) fun s => by
        rw [hsignal]; exact fun h => h
    · obtain ⟨rfl, rfl⟩ := Prod.mk.inj (Option.some.inj (htask.symm.trans hbody))
      exact fun hlive => nomatch hlive
  · have hother : s ≠ session ∧ σ.beats s = some (i, signal) := by
      unfold Scene.halt at hbeat
      cases hsession : σ.beats session with
      | none =>
        rw [hsession] at hbeat
        refine ⟨?_, hbeat⟩
        rintro rfl
        rw [hsession] at hbeat
        cases hbeat
      | some b =>
        simp only [hsession] at hbeat
        split at hbeat
        · cases hbeat
        next hs => exact ⟨hs, hbeat⟩
    obtain ⟨beating, htask⟩ := h.beats s i signal hother.2
    rcases h.halt_cases session i with ⟨htasks, -⟩ | ⟨beating', hbefore, -⟩
    · exact ⟨beating, htasks.trans htask⟩
    · rw [htask] at hbefore
      simp only [Option.some.injEq, Prod.mk.injEq, Body.heartbeat.injEq] at hbefore
      exact absurd hbefore.1.1 hother.1

theorem tasks_spawn (body : Body) {i : TaskId} (hi : i ≠ σ.nextTask) :
    (σ.spawn body).tasks i = σ.tasks i := by
  simp [spawn, hi]

theorem Sound.tasks_spawn_self (h : σ.Sound m) (body : Body) :
    (σ.spawn body).tasks σ.nextTask = some (body, false) := by
  simp [spawn, (h.fresh σ.nextTask (Nat.le_refl _)).1]

theorem Sound.spawned (h : σ.Sound m) (body : Body) {beats : String → Option (TaskId × Bool)}
    (hfits : body.Fits { σ.spawn body with beats } σ.nextTask false)
    (hsignal : ∀ i s, σ.signal i s ≠ none → ({ σ.spawn body with beats } : Scene).signal i s ≠ none)
    (hbeats : ∀ s i signal, beats s = some (i, signal) → σ.beats s = some (i, signal) ∨
      i = σ.nextTask ∧ ∃ beating, body = .heartbeat s beating) :
    ({ σ.spawn body with beats } : Scene).Sound m := by
  have hnew := h.tasks_spawn_self body
  obtain ⟨hnone, hmnone⟩ := h.fresh σ.nextTask (Nat.le_refl _)
  refine {
    heartbeats := h.heartbeats
    errand := h.errand
    fresh := fun i hi => ?_
    phases := fun i p hp => ?_
    bodies := fun i other cancelled hp hbody => ?_
    beats := fun s i signal hbeat => ?_ }
  · have hlt : σ.nextTask < i := hi
    exact ⟨(tasks_spawn body (Nat.ne_of_gt hlt)).trans (h.fresh i (Nat.le_of_lt hlt)).1,
      (h.fresh i (Nat.le_of_lt hlt)).2⟩
  · have hi : i ≠ σ.nextTask := by
      rintro rfl
      rw [hmnone] at hp
      cases hp
    exact fits_phase (h.phases i p hp) (tasks_spawn body hi) rfl (hsignal i)
  · by_cases hi : i = σ.nextTask
    · subst hi
      obtain ⟨rfl, rfl⟩ := Prod.mk.inj (Option.some.inj (hnew.symm.trans hbody))
      exact hfits
    · exact fits_body (h.bodies i other cancelled hp ((tasks_spawn body hi).symm.trans hbody)) rfl
        (hsignal i)
  · rcases hbeats s i signal hbeat with hbeat | ⟨rfl, beating, rfl⟩
    · obtain ⟨beating, htask⟩ := h.beats s i signal hbeat
      have hi : i ≠ σ.nextTask := by
        rintro rfl
        rw [hnone] at htask
        cases htask
      exact ⟨beating, (tasks_spawn body hi).trans htask⟩
    · exact ⟨beating, hnew⟩

theorem Sound.start (h : σ.Sound m) {session : String} (hnone : σ.beats session = none) :
    (σ.start session).Sound m := by
  refine h.spawned (.heartbeat session .starting) ?_ ?_ ?_
  · intro _
    change (σ.start session).signal σ.nextTask session ≠ none
    rw [signal_start hnone]
    simp
  · intro i s hlive
    change (σ.start session).signal i s ≠ none
    rw [signal_start hnone]
    split
    next hs =>
      subst hs
      simp [signal, hnone] at hlive
    next => exact hlive
  · intro s i signal hbeat
    change (σ.beats s).or _ = _ at hbeat
    by_cases hs : s = session
    · subst hs
      simp only [hnone, if_true, Option.none_or, Option.some.injEq, Prod.mk.injEq] at hbeat
      exact .inr ⟨hbeat.1.symm, .starting, rfl⟩
    · simp only [hs, if_false, Option.or_none] at hbeat
      exact .inl hbeat

theorem Sound.spawn (h : σ.Sound m) : (σ.spawn (.consumer .looking)).Sound m :=
  h.spawned (.consumer .looking) ⟨rfl, by simp [Body.delivery?]⟩ (fun _ _ hlive => hlive)
    fun _ _ _ hbeat => .inl hbeat

theorem ofPhase_beating {signal : String → Option Bool} {p : Phase} {s : String}
    {sig : Option Bool} {round : Round} (h : Place.ofPhase signal p = .beating s sig round) :
    sig = signal s := by
  cases p with
  | looked outcome =>
    match outcome with
    | .ok (.job e) | .ok .unreadable | .ok .nothing | .error _ => cases h
  | _ => cases h <;> rfl

theorem ofBody_beating {signal : String → Option Bool} {slot : Option Envelope} {body : Body}
    {s : String} {sig : Option Bool} {round : Round}
    (h : Place.ofBody signal slot body = .beating s sig round) : sig = signal s := by
  cases body with
  | heartbeat s beating => cases beating <;> cases h <;> rfl
  | consumer consuming =>
    cases consuming with
    | delivering stage => cases stage <;> cases slot <;> cases h
    | _ => cases h
  | _ => cases h

theorem round_of_body {signal : String → Option Bool} {slot : Option Envelope} {body : Body}
    {s : String} {sig : Option Bool} {round : Round}
    (h : Place.ofBody signal slot body = .beating s sig round) : round = .resting ∨ round = .waiting := by
  cases body with
  | heartbeat s beating =>
    cases beating with
    | waiting =>
      cases h
      exact .inr rfl
    | starting | sleeping =>
      cases h
      exact .inl rfl
  | consumer consuming =>
    cases consuming with
    | delivering stage => cases stage <;> cases slot <;> cases h
    | _ => cases h
  | _ => cases h

theorem place_beating {i : TaskId} {s : String} {sig : Option Bool} {round : Round}
    (h : σ.place m i = .beating s sig round) : sig = σ.signal i s := by
  unfold place at h
  split at h
  · exact ofPhase_beating h
  · cases htask : σ.tasks i with
    | none =>
      rw [htask] at h
      cases h
    | some t =>
      rw [htask] at h
      exact ofBody_beating h

theorem not_beats {session : String} (hnone : σ.beats session = none)
    (sent : TaskId → Option Envelope) : ¬ (σ.relay m sent).Beats session := by
  rintro ⟨i, signal, round, hplace⟩
  have hsignal := place_beating hplace
  rw [Scene.signal, hnone] at hsignal
  cases hsignal

theorem Sound.place_fresh (h : σ.Sound m) {i : TaskId} (hi : σ.nextTask ≤ i) :
    σ.place m i = .idle := by
  obtain ⟨htasks, hm⟩ := h.fresh i hi
  unfold place
  rw [hm, htasks]
  rfl

theorem Sound.starts (h : σ.Sound m) {session : String} (hnone : σ.beats session = none)
    (sent : TaskId → Option Envelope) :
    Relay.Starts σ.nextTask session (σ.relay m sent) ((σ.start session).relay m sent) := by
  refine ⟨h.place_fresh (Nat.le_refl _), not_beats hnone sent, ?_⟩
  have hplace : (σ.start session).place m =
      Function.update (σ.place m) σ.nextTask (.beating session (some false) .resting) := by
    funext i
    by_cases hi : i = σ.nextTask
    · subst hi
      have htask : (σ.start session).tasks σ.nextTask = some (.heartbeat session .starting, false) :=
        h.tasks_spawn_self _
      rw [Function.update_self, place, (h.fresh σ.nextTask (Nat.le_refl _)).2, htask]
      simp [Place.ofBody, signal_start hnone]
    · have htask : (σ.start session).tasks i = σ.tasks i := tasks_spawn _ hi
      have hsignal : (σ.start session).signal i = σ.signal i := by
        funext s
        rw [signal_start hnone, if_neg hi]
        split
        next hs => simp [hs, signal, hnone]
        next => rfl
      rw [Function.update_of_ne hi, place, htask, hsignal]
      rfl
  exact congrArg (fun place => ({ σ.relay m sent with place } : Relay)) hplace

theorem Sound.relay_spawn (h : σ.Sound m) (sent : TaskId → Option Envelope) :
    (σ.spawn (.consumer .looking)).relay m sent = σ.relay m sent := by
  have hplace : (σ.spawn (.consumer .looking)).place m = σ.place m := by
    funext i
    by_cases hi : i = σ.nextTask
    · subst hi
      rw [h.place_fresh (Nat.le_refl _), place, (h.fresh σ.nextTask (Nat.le_refl _)).2, h.tasks_spawn_self]
      rfl
    · rw [place, tasks_spawn _ hi]
      rfl
  exact congrArg (fun place => ({ σ.relay m sent with place } : Relay)) hplace

end Heartbeats

end Scene

end SignalCoach.Worker
