import Mathlib.Algebra.Order.BigOperators.Group.List
import SignalCoach.Proofs.HeartbeatRegister

/-! The register of a worker that handles one job after the other. A job that is completed enters a
heartbeat of its session, and some jobs end one; so what came of the jobs tells which sessions are live. -/
namespace SignalCoach.Worker

open Turn (own)

namespace Register

/-- The heartbeats that are not cancelled are those of the sessions, and one that is cancelled is
awaited. So many turns of the scenario's own task are to come at most, now, later or at the end of a
heartbeat. -/
structure Sound (n : Nat) (R : Register) : Prop where
  isOn : R.isOn = true
  scenario : R.scenario = some .errand
  own_lt : own < R.nextTask
  fresh : ∀ m ∈ R.members, m.id < R.nextTask
  ids : (R.members.map (·.id)).Nodup
  session : ∀ m ∈ R.members, m.session = none ↔ m.id = own
  alone : ∀ m ∈ R.members, ∀ m' ∈ R.members, m.session.isSome → m.session = m'.session → m = m'
  beats : R.beats = R.members.filterMap (·.beat?)
  awaited : ∀ m ∈ R.members, m.cancelled = true → 0 < m.awaited
  turns : R.turns + (R.members.map (·.awaited)).sum ≤ n

namespace Sound

variable {R : Register} {n : Nat} {session : String} {id : TaskId}

theorem eq_of_id (h : R.Sound n) {m m' : Member} (hm : m ∈ R.members) (hm' : m' ∈ R.members)
    (hid : m.id = m'.id) : m = m' :=
  List.inj_on_of_nodup_map h.ids hm hm' hid

theorem quiet (h : R.Sound 0) {m : Member} (hm : m ∈ R.members) : m.cancelled = false := by
  by_contra hcancelled
  have hpos := h.awaited m hm (by simpa using hcancelled)
  have hle : m.awaited ≤ (R.members.map (·.awaited)).sum :=
    List.le_sum_of_mem (List.mem_map_of_mem hm)
  have hturns := h.turns
  omega

theorem mem_beats (h : R.Sound n) {beat : String × TaskId} : beat ∈ R.beats ↔
    ∃ m ∈ R.members, m.cancelled = false ∧ m.session = some beat.1 ∧ m.id = beat.2 := by
  rw [h.beats, List.mem_filterMap]
  refine exists_congr fun m => and_congr_right fun _ => ?_
  unfold Member.beat?
  cases hcancelled : m.cancelled with
  | true => simp
  | false => simp [Prod.ext_iff]

theorem beat?_isSome (h : R.Sound n) : (R.beat? session).isSome ↔
    ∃ m ∈ R.members, m.cancelled = false ∧ m.session = some session := by
  rw [beat?, List.find?_isSome]
  constructor
  · rintro ⟨beat, hbeat, hsession⟩
    obtain ⟨m, hm, hcancelled, hof, -⟩ := h.mem_beats.1 hbeat
    exact ⟨m, hm, hcancelled, by simpa using hof.trans (congrArg some (by simpa using hsession))⟩
  · rintro ⟨m, hm, hcancelled, hof⟩
    exact ⟨(session, m.id), h.mem_beats.2 ⟨m, hm, hcancelled, hof, rfl⟩, by simp⟩

theorem beats_ne_own (h : R.Sound n) {beat : String × TaskId} (hbeat : beat ∈ R.beats) :
    beat.2 ≠ own := by
  obtain ⟨m, hm, -, hof, hid⟩ := h.mem_beats.1 hbeat
  intro hown
  have hnone := (h.session m hm).2 (hid.trans hown)
  rw [hof] at hnone
  cases hnone

theorem beatsAs (h : R.Sound n) {m : Member} (hm : m ∈ R.members) (hof : m.session = some session) :
    Turn.BeatsAs m.id session R := by
  refine ⟨fun hown => ?_, fun m' hm' hid => ?_⟩
  · have hnone := (h.session m hm).2 hown
    rw [hof] at hnone
    cases hnone
  · rw [h.eq_of_id hm' hm hid, hof]

theorem start (h : R.Sound 0) (session : String) : (R.start session).Sound 0 := by
  unfold Register.start
  split
  next => exact h
  next hnone =>
    have hfree : ∀ m ∈ R.members, m.session ≠ some session := fun m hm hof =>
      hnone (h.beat?_isSome.2 ⟨m, hm, h.quiet hm, hof⟩)
    refine { h with
      own_lt := Nat.lt_succ_of_lt h.own_lt
      fresh := fun m hm => ?_
      ids := ?_
      session := fun m hm => ?_
      alone := fun m hm m' hm' hsome hsame => ?_
      beats := ?_
      awaited := fun m hm hcancelled => ?_
      turns := ?_ }
    · rcases List.mem_append.1 hm with hm | hm
      · exact Nat.lt_succ_of_lt (h.fresh m hm)
      · obtain rfl := List.mem_singleton.1 hm
        exact Nat.lt_succ_self _
    · rw [List.map_append, List.map_singleton]
      rw [← List.concat_eq_append]
      refine h.ids.concat fun hin => ?_
      obtain ⟨m, hm, hid⟩ := List.mem_map.1 hin
      exact absurd hid (Nat.ne_of_lt (h.fresh m hm))
    · rcases List.mem_append.1 hm with hm | hm
      · exact h.session m hm
      · obtain rfl := List.mem_singleton.1 hm
        simpa using (Nat.ne_of_lt h.own_lt).symm
    · rcases List.mem_append.1 hm with hm | hm <;> rcases List.mem_append.1 hm' with hm' | hm'
      · exact h.alone m hm m' hm' hsome hsame
      · obtain rfl := List.mem_singleton.1 hm'
        exact absurd hsame (hfree m hm)
      · obtain rfl := List.mem_singleton.1 hm
        exact absurd hsame.symm (hfree m' hm')
      · rw [List.mem_singleton.1 hm, List.mem_singleton.1 hm']
    · rw [List.filterMap_append, ← h.beats]
      rfl
    · rcases List.mem_append.1 hm with hm | hm
      · exact h.awaited m hm hcancelled
      · obtain rfl := List.mem_singleton.1 hm
        cases hcancelled
    · simpa using h.turns

theorem sum_awaitEnd (id : TaskId) (members : List Member) :
    ((members.map fun m => if m.id = id then m.awaitEnd else m).map (·.awaited)).sum =
      (members.map (·.awaited)).sum + (members.map (·.id)).count id := by
  induction members with
  | nil => rfl
  | cons m rest ih =>
    by_cases hid : m.id = id
    · have hawaited : m.awaitEnd.awaited = m.awaited + 1 := rfl
      simp only [List.map_cons, hid, if_true, List.sum_cons, ih, hawaited, List.count_cons_self]
      omega
    · simp only [List.map_cons, hid, if_false, List.sum_cons, ih]
      rw [List.count_cons_of_ne hid]
      omega

theorem halt (h : R.Sound 0) (session : String) :
    (R.halt session).Sound (if (R.beat? session).isSome then 1 else 0) := by
  unfold Register.halt
  cases hbeat : R.beat? session with
  | none => exact h
  | some beat =>
    obtain ⟨m₀, hm₀, hcancelled₀, hof₀, hid₀⟩ := h.mem_beats.1 (List.mem_of_find?_eq_some hbeat)
    have hsession : beat.1 = session := by simpa using List.find?_some hbeat
    have hmem : ∀ {m}, m ∈ (R.change beat.2 .awaitEnd).members → ∃ m' ∈ R.members,
        m.id = m'.id ∧ m.session = m'.session ∧ m = if m'.id = beat.2 then m'.awaitEnd else m' := by
      intro m hm
      obtain ⟨m', hm', rfl⟩ := List.mem_map.1 hm
      refine ⟨m', hm', ?_, ?_, rfl⟩ <;> split <;> rfl
    refine { h with
      fresh := fun m hm => ?_
      ids := ?_
      session := fun m hm => ?_
      alone := fun m hm m' hm' hsome hsame => ?_
      beats := ?_
      awaited := fun m hm hcancelled => ?_
      turns := ?_ }
    · obtain ⟨m', hm', hid, -⟩ := hmem hm
      exact hid ▸ h.fresh m' hm'
    · have hids : (R.change beat.2 .awaitEnd).members.map (·.id) = R.members.map (·.id) := by
        rw [Register.change, List.map_map]
        refine List.map_congr_left fun m _ => ?_
        simp only [Function.comp]
        split <;> rfl
      exact hids ▸ h.ids
    · obtain ⟨m', hm', hid, hsame, -⟩ := hmem hm
      rw [hid, hsame]
      exact h.session m' hm'
    · obtain ⟨k, hk, -, hkof, rfl⟩ := hmem hm
      obtain ⟨k', hk', -, hkof', rfl⟩ := hmem hm'
      rw [hkof] at hsome hsame
      rw [hkof'] at hsame
      rw [h.alone k hk k' hk' hsome hsame]
    -- The heartbeat is dropped by its session and cancelled by its number: `alone` makes these the same.
    · change R.beats.filter _ = (R.members.map _).filterMap _
      rw [h.beats, List.filter_filterMap, List.filterMap_map]
      refine List.filterMap_congr fun m hm => ?_
      by_cases hid : m.id = beat.2
      · obtain rfl := h.eq_of_id hm hm₀ (hid.trans hid₀.symm)
        simp [Member.beat?, Member.awaitEnd, hcancelled₀, hof₀, hid₀, hsession]
      · have hother : m.session ≠ some session := fun hof =>
          hid ((congrArg Member.id (h.alone m hm m₀ hm₀ (hof ▸ rfl)
            (hof.trans (hof₀.trans (congrArg some hsession)).symm))).trans hid₀)
        simp only [Function.comp, hid, if_false]
        unfold Member.beat?
        cases m.cancelled with
        | true => rfl
        | false =>
          cases hof : m.session with
          | none => rfl
          | some s =>
            have hne : s ≠ session := fun hs => hother (hof.trans (congrArg some hs))
            simp [hne]
    · obtain ⟨m', hm', -, -, rfl⟩ := hmem hm
      split
      next => exact Nat.succ_pos _
      next hid =>
        rw [if_neg hid] at hcancelled
        exact h.awaited m' hm' hcancelled
    · have hone : (R.members.map (·.id)).count beat.2 ≤ 1 := List.nodup_iff_count_le_one.1 h.ids _
      have hsum := sum_awaitEnd beat.2 R.members
      have hturns := h.turns
      change R.turns + ((R.members.map _).map _).sum ≤ 1
      omega

theorem sum_without (id : TaskId) (members : List Member) :
    ((members.find? (·.id = id)).map (·.awaited)).getD 0 +
      ((members.filter (·.id ≠ id)).map (·.awaited)).sum ≤ (members.map (·.awaited)).sum := by
  induction members with
  | nil => exact Nat.le_refl _
  | cons m rest ih =>
    by_cases hid : m.id = id
    · have hle : ((rest.filter (·.id ≠ id)).map (·.awaited)).sum ≤ (rest.map (·.awaited)).sum :=
        (Nat.le_add_left _ _).trans ih
      simpa [hid] using hle
    · simp only [ne_eq, decide_not, List.map_cons, List.sum_cons] at ih ⊢
      rw [List.find?_cons_of_neg (by simpa using hid), List.filter_cons_of_pos (by simpa using hid),
        List.map_cons, List.sum_cons]
      omega

theorem finish (h : R.Sound n) {m₀ : Member} (hm₀ : m₀ ∈ R.members) (hcancelled : m₀.cancelled = true) :
    (R.finish m₀.id).Sound n := by
  have hmem : ∀ {m}, m ∈ (R.finish m₀.id).members → m ∈ R.members := List.mem_of_mem_filter
  refine { h with
    fresh := fun m hm => h.fresh m (hmem hm)
    ids := h.ids.sublist (List.filter_sublist.map _)
    session := fun m hm => h.session m (hmem hm)
    alone := fun m hm m' hm' => h.alone m (hmem hm) m' (hmem hm')
    beats := ?_
    awaited := fun m hm => h.awaited m (hmem hm)
    turns := ?_ }
  · change R.beats = (R.members.filter _).filterMap _
    rw [h.beats, List.filterMap_filter]
    refine List.filterMap_congr fun m hm => ?_
    by_cases hid : m.id = m₀.id
    · obtain rfl := h.eq_of_id hm hm₀ hid
      simp [Member.beat?, hcancelled]
    · simp [hid]
  · have hsum := sum_without m₀.id R.members
    have hturns := h.turns
    change R.turns + ((R.members.find? _).map _).getD 0 + ((R.members.filter _).map _).sum ≤ n
    omega

theorem adjust (h : R.Sound n) {n' turns : Nat} (hturns : turns + n ≤ R.turns + n')
    (locks : List SessionLock) (slots : List Slot) (errand : Errand) :
    ({ R with turns, locks, slots, errand } : Register).Sound n' := by
  have hcount : turns + (R.members.map (·.awaited)).sum ≤ n' := by
    have := h.turns
    omega
  exact { h with turns := hcount }

end Sound

end Register

structure Handled where
  /-- The name of the envelope. -/
  name : String
  session : String
  outcome : Except String Outcome

def Handled.Ends (h : Handled) : Prop :=
  h.outcome = .ok .sessionNotFound ∨ h.name = Queue.heartbeatName ∧ ∃ error, h.outcome = .error error

/-- A job of the session was completed, and none has ended its heartbeat since. -/
def Live (session : String) (history : List Handled) : Prop :=
  ∃ before h after, history = before ++ h :: after ∧ h.session = session ∧
    h.outcome = .ok .completed ∧ ∀ h' ∈ after, h'.session = session → ¬ h'.Ends

section Live

variable {session : String} {history : List Handled} {h : Handled}

theorem not_live_nil : ¬ Live session [] := by
  rintro ⟨before, h, after, heq, -⟩
  simp at heq

theorem live_concat : Live session (history ++ [h]) ↔
    h.session = session ∧ h.outcome = .ok .completed ∨
      Live session history ∧ (h.session = session → ¬ h.Ends) := by
  constructor
  · rintro ⟨before, h₀, after, heq, hsession, hcompleted, hafter⟩
    -- The last job is the completed one itself, or one of those after it.
    rcases List.eq_nil_or_concat after with rfl | ⟨after, h', rfl⟩
    · obtain ⟨rfl, hlast⟩ := List.append_inj' heq rfl
      obtain rfl := List.singleton_inj.1 hlast
      exact .inl ⟨hsession, hcompleted⟩
    · rw [List.concat_eq_append] at heq hafter
      rw [← List.cons_append, ← List.append_assoc] at heq
      obtain ⟨rfl, hlast⟩ := List.append_inj' heq rfl
      obtain rfl := List.singleton_inj.1 hlast
      refine .inr ⟨⟨before, h₀, after, rfl, hsession, hcompleted, fun h' hh' => ?_⟩, ?_⟩
      · exact hafter h' (List.mem_append_left _ hh')
      · exact hafter h (List.mem_append_right _ (List.mem_singleton_self h))
  · rintro (⟨hsession, hcompleted⟩ | ⟨⟨before, h₀, after, rfl, hsession, hcompleted, hafter⟩, hlast⟩)
    · exact ⟨history, h, [], rfl, hsession, hcompleted, by simp⟩
    · refine ⟨before, h₀, after ++ [h], by simp, hsession, hcompleted, fun h' hh' => ?_⟩
      rcases List.mem_append.1 hh' with hh' | hh'
      · exact hafter h' hh'
      · obtain rfl := List.mem_singleton.1 hh'
        exact hlast

end Live

namespace Register

/-- What a job that was handled makes of the heartbeats. -/
def enter (h : Handled) (R : Register) : Register :=
  match h.outcome with
  | .ok .completed => R.start h.session
  | .ok .sessionNotFound => R.halt h.session
  | .ok _ => R
  | .error _ => if h.name = Queue.heartbeatName then R.halt h.session else R

structure Reflects (history : List Handled) (n : Nat) (R : Register) : Prop where
  sound : R.Sound n
  live : ∀ session, (R.beat? session).isSome ↔ Live session history

variable {R : Register} {history : List Handled} {session : String}

theorem beat?_start (s : String) : ((R.start session).beat? s).isSome ↔
    s = session ∨ (R.beat? s).isSome := by
  unfold start
  split
  next h =>
    refine ⟨.inr, ?_⟩
    rintro (rfl | hs)
    · exact h
    · exact hs
  next h =>
    unfold beat?
    rw [List.find?_append, Option.isSome_or, Bool.or_eq_true, or_comm, List.find?_isSome]
    simp only [List.mem_singleton, decide_eq_true_eq, exists_eq_left]
    rw [eq_comm]

theorem beat?_halt (s : String) : ((R.halt session).beat? s).isSome ↔
    s ≠ session ∧ (R.beat? s).isSome := by
  unfold halt
  cases hbeat : R.beat? session with
  | none =>
    refine ⟨fun hs => ⟨?_, hs⟩, fun hs => hs.2⟩
    rintro rfl
    change (R.beat? s).isSome = true at hs
    rw [hbeat] at hs
    cases hs
  | some beat =>
    change ((R.beats.filter (·.1 ≠ session)).find? (·.1 = s)).isSome ↔ _
    rw [Turn.find?_without Prod.fst]
    split
    next h => simp [h]
    next h => simp [h, beat?]

variable {h : Handled}

def ends (h : Handled) (R : Register) : Bool :=
  match h.outcome with
  | .ok .sessionNotFound => (R.beat? h.session).isSome
  | .ok _ => false
  | .error _ => h.name = Queue.heartbeatName && (R.beat? h.session).isSome

theorem Reflects.start (hR : R.Reflects history 0) (hcompleted : h.outcome = .ok .completed) :
    (R.start h.session).Reflects (history ++ [h]) 0 where
  sound := hR.sound.start h.session
  live s := by
    rw [beat?_start, live_concat, hR.live]
    simp [Handled.Ends, hcompleted, eq_comm]

theorem Reflects.halt (hR : R.Reflects history 0) (hends : h.Ends) :
    (R.halt h.session).Reflects (history ++ [h]) (if (R.beat? h.session).isSome then 1 else 0) where
  sound := hR.sound.halt h.session
  live s := by
    rw [beat?_halt, live_concat, hR.live]
    have hnot : h.outcome ≠ .ok .completed := by
      rintro hcompleted
      simp [Handled.Ends, hcompleted] at hends
    simp [hends, hnot, eq_comm, and_comm]

theorem Reflects.same (hR : R.Reflects history 0) (hnot : h.outcome ≠ .ok .completed)
    (hends : ¬ h.Ends) : R.Reflects (history ++ [h]) 0 where
  sound := hR.sound
  live s := by
    rw [live_concat, hR.live]
    simp [hends, hnot]

theorem Reflects.enter (hR : R.Reflects history 0) (h : Handled) :
    (R.enter h).Reflects (history ++ [h]) (if R.ends h then 1 else 0) := by
  obtain ⟨name, session, outcome⟩ := h
  cases outcome with
  | ok outcome =>
    cases outcome with
    | completed => exact hR.start (h := ⟨name, session, .ok .completed⟩) rfl
    | sessionNotFound => exact hR.halt (h := ⟨name, session, .ok .sessionNotFound⟩) (.inl rfl)
    | snapshotNotFound | noResults | duplicate =>
      exact hR.same (by simp) (by simp [Handled.Ends])
  | error error =>
    by_cases hname : name = Queue.heartbeatName
    · have hhalt := hR.halt (h := ⟨name, session, .error error⟩) (.inr ⟨hname, error, rfl⟩)
      simpa [Register.enter, ends, hname] using hhalt
    · have hsame := hR.same (h := ⟨name, session, .error error⟩) (by simp)
        (by simp [Handled.Ends, hname])
      simpa [Register.enter, ends, hname] using hsame

theorem Reflects.adjust {n n' turns : Nat} (hR : R.Reflects history n)
    (hturns : turns + n ≤ R.turns + n') (locks : List SessionLock) (slots : List Slot)
    (errand : Errand) :
    ({ R with turns, locks, slots, errand } : Register).Reflects history n' :=
  ⟨hR.sound.adjust hturns locks slots errand, hR.live⟩

theorem start_frame : (R.start session).slots = R.slots ∧ (R.start session).locks = R.locks := by
  unfold start
  split <;> exact ⟨rfl, rfl⟩

theorem halt_frame : (R.halt session).slots = R.slots ∧ (R.halt session).locks = R.locks := by
  unfold halt
  cases R.beat? session <;> exact ⟨rfl, rfl⟩

theorem enter_frame : (R.enter h).slots = R.slots ∧ (R.enter h).locks = R.locks := by
  unfold enter
  split
  · exact start_frame
  · exact halt_frame
  · exact ⟨rfl, rfl⟩
  · split
    · exact halt_frame
    · exact ⟨rfl, rfl⟩

end Register

end SignalCoach.Worker
