import Mathlib.Algebra.BigOperators.Group.Finset.Piecewise
import Mathlib.Algebra.Order.BigOperators.Group.Finset
import SignalCoach.Proofs.HeartbeatChains
import SignalCoach.Proofs.WorkerRedelivery

/-! How many heartbeat jobs of a session are in the queue at a time. Each heartbeat enqueues one job and
then waits for the report of it. There are two ways to another job: a new heartbeat may begin while the
job of an old one, which was stopped, is still underway, and the report may come before the job is
acknowledged. -/
namespace SignalCoach.Worker

open Queue (Contents Ordinary IsBeat TriedOnce ReadsTriedOnce beatsFor)
open Queue.Contents (Waits TakesReady)

/-- The jobs that a heartbeat enqueues before it waits for a report that has not come yet. A heartbeat
that was stopped finishes the call that it is in. -/
def Round.due (signal : Option Bool) : Round → Nat
  | .resting | .called false => if signal.isSome then 1 else 0
  | .clearing => 1
  | .enqueuing => if signal = some true then 2 else 1
  | .called true | .waiting => if signal = some true then 1 else 0

theorem Round.due_none_le (round : Round) (signal : Option Bool) : round.due none ≤ round.due signal := by
  rcases round with _ | _ | _ | enqueued | _
  case called => cases enqueued <;> simp [Round.due]
  case enqueuing => by_cases h : signal = some true <;> simp [Round.due, h]
  all_goals simp [Round.due]

theorem Round.due_true_le (round : Round) (signal : Bool) :
    round.due (some true) ≤ round.due (some signal) + 1 := by
  rcases round with _ | _ | _ | enqueued | _
  case called => cases enqueued <;> simp [Round.due]
  case enqueuing => cases signal <;> simp [Round.due]
  all_goals simp [Round.due]

namespace Place

/-- The unreported jobs of a session that a task has or is going to enqueue. -/
def share (session : String) : Place → Nat
  | .beating s signal round => if s = session then round.due signal else 0
  | .holding e => if e.isBeatOf session then 1 else 0
  | _ => 0

def live? : Place → Option String
  | .beating s (some _) _ => some s
  | _ => none

def envelope? : Place → Option Envelope
  | .holding e | .settling e => some e
  | _ => none

theorem live?_of_halt {p : Place} {session s : String} (h : (p.halt session).live? = some s) :
    p.live? = some s := by
  cases p with
  | beating s' signal round =>
    rw [halt] at h
    split at h
    · cases h
    · exact h
  | _ => exact h

theorem live?_report (p : Place) (session : String) : (p.report session).live? = p.live? := by
  cases p with
  | beating s signal round =>
    rw [report]
    cases signal <;> split <;> rfl
  | _ => rfl

theorem envelope?_halt (p : Place) (session : String) : (p.halt session).envelope? = p.envelope? := by
  cases p <;> rfl

theorem envelope?_report (p : Place) (session : String) :
    (p.report session).envelope? = p.envelope? := by
  cases p <;> rfl

theorem share_halt (p : Place) (session s : String) : (p.halt s).share session ≤ p.share session := by
  cases p with
  | beating s' signal round =>
    rw [halt]
    split
    next =>
      simp only [share]
      split
      · exact round.due_none_le signal
      · exact Nat.le_refl _
    next => exact Nat.le_refl _
  | _ => exact Nat.le_refl _

theorem share_report (p : Place) (session : String) : (p.report session).share session ≤
    p.share session + if p.live? = some session then 1 else 0 := by
  cases p with
  | beating s signal round =>
    rw [report]
    by_cases hs : s = session
    · subst hs
      cases signal with
      | none => simp
      | some v => simpa [share, live?] using round.due_true_le v
    · simp [hs]
  | _ => exact Nat.le_add_right _ _

theorem share_report_of_ne (p : Place) {session s : String} (hs : s ≠ session) :
    (p.report s).share session = p.share session := by
  cases p with
  | beating s' signal round =>
    rw [report]
    split
    next h => simp [share, h, hs]
    next => rfl
  | _ => rfl

theorem share_of_held (p : Place) (session : String) :
    (if p.held?.any (·.isBeatOf session) = true then 1 else 0) ≤ p.share session := by
  cases p with
  | holding e => exact Nat.le_refl _
  | _ => exact Nat.zero_le _

end Place

namespace Relay

variable {r r' : Relay} {id : TaskId} {session : String} {k : Nat}

def load (session : String) (r : Relay) (tasks : Finset TaskId) : Nat :=
  r.queue.ready.countP (beatsFor session) + tasks.sum fun id => (r.place id).share session

def AtMost (session : String) (k : Nat) (r : Relay) : Prop := ∀ tasks, load session r tasks ≤ k

/-- Heartbeat jobs are tried once, so they are never delayed; and each session has one heartbeat. -/
structure Tidy (r : Relay) : Prop where
  delayed : ∀ entry ∈ r.queue.delayedEntries, Ordinary entry
  ready : ∀ entry ∈ r.queue.ready, ReadsTriedOnce entry
  held : ∀ id e, (r.place id).envelope? = some e → TriedOnce e
  sole : ∀ i j s, (r.place i).live? = some s → (r.place j).live? = some s → i = j

section Counting

variable {p : Place} {queue : Contents} {sent : TaskId → Option Envelope}

theorem AtMost.move {l : Nat} (h : AtMost session k r)
    (hle : queue.ready.countP (beatsFor session) + p.share session + k ≤
      r.queue.ready.countP (beatsFor session) + (r.place id).share session + l) :
    AtMost session l { r.move id p with queue, sent } := by
  intro tasks
  have hbefore := h (insert id (tasks.erase id))
  have hrest : (tasks.erase id).sum (fun i => ((Function.update r.place id p) i).share session) =
      (tasks.erase id).sum fun i => (r.place i).share session :=
    Finset.sum_congr rfl fun i hi => by rw [Function.update_of_ne (Finset.ne_of_mem_erase hi)]
  have hafter : (tasks.sum fun i => ((Function.update r.place id p) i).share session) ≤
      p.share session + (tasks.erase id).sum fun i => (r.place i).share session := by
    by_cases hid : id ∈ tasks
    · rw [← Finset.add_sum_erase tasks _ hid, Function.update_self, hrest]
    · rw [← Finset.erase_eq_of_notMem hid, hrest, Finset.erase_idem]
      exact Nat.le_add_left _ _
  rw [load, Finset.sum_insert (Finset.notMem_erase id tasks)] at hbefore
  change queue.ready.countP (beatsFor session) +
    (tasks.sum fun i => ((Function.update r.place id p) i).share session) ≤ l
  omega

theorem AtMost.pointwise {place : TaskId → Place} (h : AtMost session k r)
    (hle : ∀ i, (place i).share session ≤ (r.place i).share session) :
    AtMost session k { r with place } :=
  fun tasks => (Nat.add_le_add_left (Finset.sum_le_sum fun i _ => hle i) _).trans (h tasks)

end Counting

section Tidiness

theorem Tidy.become (h : r.Tidy) {c : Contents}
    (hdelayed : ∀ entry ∈ c.delayedEntries, entry ∈ r.queue.delayedEntries ∨ Ordinary entry)
    (hready : ∀ entry ∈ c.ready, entry ∈ r.queue.ready ∨ ReadsTriedOnce entry) :
    ({ r with queue := c } : Relay).Tidy where
  delayed entry hentry := (hdelayed entry hentry).elim (h.delayed entry) fun h => h
  ready entry hentry := (hready entry hentry).elim (h.ready entry) fun h => h
  held := h.held
  sole := h.sole

theorem Tidy.pointwise (h : r.Tidy) {place : TaskId → Place} {sent : TaskId → Option Envelope}
    (hheld : ∀ i e, (place i).envelope? = some e →
      (r.place i).envelope? = some e ∨ TriedOnce e)
    (hlive : ∀ i s, (place i).live? = some s → (r.place i).live? = some s) :
    ({ r with place, sent } : Relay).Tidy where
  delayed := h.delayed
  ready := h.ready
  held i e hi := (hheld i e hi).elim (h.held i e) fun h => h
  sole i j s hi hj := h.sole i j s (hlive i s hi) (hlive j s hj)

theorem Tidy.move (h : r.Tidy) {p : Place} {sent : TaskId → Option Envelope}
    (hheld : ∀ e, p.envelope? = some e → TriedOnce e)
    (hlive : ∀ s, p.live? = some s → (r.place id).live? = some s) :
    ({ r.move id p with sent } : Relay).Tidy := by
  refine h.pointwise (fun i e hi => ?_) fun i s hi => ?_
  · by_cases hid : i = id
    · subst hid
      rw [place_move_self] at hi
      exact .inr (hheld e hi)
    · rw [place_move_of_ne _ _ hid] at hi
      exact .inl hi
  · by_cases hid : i = id
    · subst hid
      rw [place_move_self] at hi
      exact hlive s hi
    · rwa [place_move_of_ne _ _ hid] at hi

theorem Tidy.take {c : Contents} {entry : Entry} (h : r.Tidy)
    (htake : r.queue.TakesReady entry c) : ({ r with queue := c } : Relay).Tidy := by
  refine h.become (fun other hother => .inl ?_) fun other hother => .inl ?_
  · rwa [Contents.delayedEntries, ← htake.2]
  · rw [htake.1]
    exact List.mem_cons_of_mem _ hother

/-- Only jobs that may be tried again are delayed, so no heartbeat job is. -/
theorem Tidy.settle (h : r.Tidy) {e : Envelope} {c : Contents} (hplace : r.place id = .settling e)
    (hwaits : Waits (fun _ => False) (fun entry => ∃ error, (e.failed error).exhausted = false ∧
      (e.failed error).encode? = some entry) r.queue c) :
    ({ r.move id .idle with queue := c } : Relay).Tidy := by
  have hmove : (r.move id .idle).Tidy := h.move nofun nofun
  refine hmove.become (fun entry hentry => ?_) fun entry hentry =>
    .inl ((hwaits.of_mem_ready hentry).resolve_right fun h => h)
  refine (hwaits.delayed entry hentry).imp_right ?_
  rintro ⟨error, hagain, hentry⟩
  have htried : TriedOnce e := h.held id e (by rw [hplace]; rfl)
  refine Queue.ordinary_of_encode? hentry fun hname => ?_
  rw [htried.exhausted hname] at hagain
  cases hagain

theorem Change.tidy (hchange : Change r r') (h : r.Tidy) : r'.Tidy := by
  cases hchange with
  | queue hwaits =>
    refine h.become hwaits.delayed fun entry hentry => ?_
    refine (hwaits.of_mem_ready hentry).imp_right fun hnew => ?_
    exact Ordinary.readsTriedOnce (hnew.elim (h.delayed entry) fun h => h)
  | @take id entry c ids ids' e hplace htake hdecode =>
    have hentry : entry ∈ r.queue.ready := by
      rw [htake.1]
      exact List.mem_cons_self
    have hmove : (r.move id (.holding e)).Tidy := by
      refine h.move (fun e' he' => ?_) nofun
      obtain rfl := Option.some.inj he'
      exact h.ready entry hentry ids _ ids' hdecode
    exact hmove.take htake
  | discard htake hdecode => exact h.take htake
  | begin hplace | wait hplace | rest hplace =>
    exact h.move nofun fun s hs => by rw [hplace]; exact hs
  | @clear id session signal hplace | @miss id session signal hplace =>
    refine h.move nofun fun s hs => ?_
    rw [hplace]
    cases signal with
    | none => cases hs
    | some v => exact hs
  | @enqueue id session signal e entry hplace hbeat hentry =>
    have hmove : ({ r.move id (.beating session signal (.called true)) with
        sent := Function.update r.sent id (some e) } : Relay).Tidy := by
      refine h.move nofun fun s hs => ?_
      rw [hplace]
      cases signal with
      | none => cases hs
      | some v => exact hs
    refine hmove.become (fun other hother => .inl hother) fun other hother => ?_
    refine (List.mem_append.1 hother).imp_right fun hnew => ?_
    rw [List.mem_singleton.1 hnew]
    exact hbeat.readsTriedOnce hentry
  | cease hplace hp =>
    refine h.move (fun e he => ?_) fun s hs => ?_
    · rcases hp with rfl | rfl <;> cases he
    · rcases hp with rfl | rfl <;> cases hs
  | halt session =>
    refine h.pointwise (fun i e hi => .inl ?_) fun i s hi => Place.live?_of_halt hi
    rwa [Place.envelope?_halt] at hi
  | @report id session e hplace hbeat =>
    have hreport : ({ r with place := fun i => (r.place i).report session } : Relay).Tidy := by
      refine h.pointwise (fun i e hi => .inl ?_) fun i s hi => ?_
      · rwa [Place.envelope?_report] at hi
      · rwa [Place.live?_report] at hi
    refine hreport.move (fun e' he' => ?_) nofun
    obtain rfl := Option.some.inj he'
    exact h.held id _ (by rw [hplace]; rfl)
  | release hplace hbeats hp =>
    refine h.move (fun e' he' => ?_) fun s hs => ?_
    · rcases hp with rfl | rfl
      · cases he'
      · obtain rfl := Option.some.inj he'
        exact h.held _ _ (by rw [hplace]; rfl)
    · rcases hp with rfl | rfl <;> cases hs
  | settle hplace hwaits => exact h.settle hplace hwaits

theorem beats_of_live {i : TaskId} {s : String} (h : (r.place i).live? = some s) : r.Beats s := by
  cases hplace : r.place i with
  | beating s' signal round =>
    rw [hplace] at h
    cases signal with
    | none => cases h
    | some v =>
      obtain rfl := Option.some.inj h
      exact ⟨i, v, round, hplace⟩
  | idle | holding | settling =>
    rw [hplace] at h
    cases h

theorem Starts.tidy (hstarts : Starts id session r r') (h : r.Tidy) : r'.Tidy := by
  obtain ⟨hplace, hnone, rfl⟩ := hstarts
  have hlive : ∀ i s, ((r.move id (.beating session (some false) .resting)).place i).live? = some s →
      (i = id ∧ s = session) ∨ (r.place i).live? = some s ∧ s ≠ session := by
    intro i s hi
    by_cases hid : i = id
    · subst hid
      rw [place_move_self] at hi
      exact .inl ⟨rfl, (Option.some.inj hi).symm⟩
    · rw [place_move_of_ne _ _ hid] at hi
      exact .inr ⟨hi, fun hs => hnone (beats_of_live (hs ▸ hi))⟩
  refine ⟨h.delayed, h.ready, fun i e hi => h.held i e ?_, fun i j s hi hj => ?_⟩
  · by_cases hid : i = id
    · subst hid
      rw [place_move_self] at hi
      cases hi
    · rwa [place_move_of_ne _ _ hid] at hi
  · rcases hlive i s hi with ⟨rfl, hs⟩ | ⟨hi, hs⟩ <;> rcases hlive j s hj with ⟨rfl, hs'⟩ | ⟨hj, hs'⟩
    · rfl
    · exact absurd hs hs'
    · exact absurd hs' hs
    · exact h.sole i j s hi hj

end Tidiness

section Bound

theorem AtMost.become {c : Contents} (h : AtMost session k r)
    (hle : c.ready.countP (beatsFor session) ≤ r.queue.ready.countP (beatsFor session)) :
    AtMost session k { r with queue := c } :=
  fun tasks => (Nat.add_le_add_right hle _).trans (h tasks)

theorem AtMost.take {c : Contents} {entry : Entry} {ids ids' : IdSupply} {e : Envelope}
    (h : AtMost session k r) (htake : r.queue.TakesReady entry c)
    (hdecode : Envelope.decode entry ids = (.ok e, ids')) :
    AtMost session k { r.move id (.holding e) with queue := c } := by
  refine h.move ?_
  rw [htake.1, List.countP_cons, Queue.beatsFor_of_decode hdecode]
  simp only [Place.share]
  omega

theorem Tidy.live_le_one (htidy : r.Tidy) (session : String) (tasks : Finset TaskId) :
    (tasks.sum fun i => if (r.place i).live? = some session then 1 else 0) ≤ 1 := by
  rw [← Finset.card_filter, Finset.card_le_one]
  intro i hi j hj
  exact htidy.sole i j session (Finset.mem_filter.1 hi).2 (Finset.mem_filter.1 hj).2

theorem AtMost.report (htidy : r.Tidy) (h : AtMost session k r) :
    AtMost session (k + 1) { r with place := fun i => (r.place i).report session } := by
  intro tasks
  have hsum : (tasks.sum fun i => ((r.place i).report session).share session) ≤
      (tasks.sum fun i => (r.place i).share session) + 1 := by
    refine (Finset.sum_le_sum fun i _ => (r.place i).share_report session).trans ?_
    rw [Finset.sum_add_distrib]
    exact Nat.add_le_add_left (htidy.live_le_one session tasks) _
  have hbefore := h tasks
  unfold load at hbefore ⊢
  simp only at hbefore ⊢
  omega

theorem Change.atMost (hchange : Change r r') (htidy : r.Tidy) (h : AtMost session k r) :
    AtMost session k r' := by
  cases hchange with
  | queue hwaits =>
    exact h.become (Nat.le_of_eq (hwaits.countP_ready
      (fun entry hnew => hnew.elim (htidy.delayed entry) fun h => h) session))
  | take hplace htake hdecode => exact h.take htake hdecode
  | discard htake hdecode =>
    refine h.become ?_
    rw [htake.1]
    exact (List.sublist_cons_self _ _).countP_le
  | begin hplace | wait hplace =>
    refine h.move ?_
    rw [hplace]
    simp [Place.share, Round.due]
  | @clear id s signal hplace =>
    refine h.move ?_
    rw [hplace]
    cases signal <;> simp [Place.share, Round.due]
  | @enqueue id s signal e entry hplace hbeat hentry =>
    refine h.move ?_
    rw [hplace, Contents.pushReady, List.countP_append, List.countP_singleton, hbeat.beatsFor hentry]
    by_cases hs : s = session
    · by_cases hsignal : signal = some true <;> simp [Place.share, Round.due, hs, hsignal]
    · simp [Place.share, hs, Ne.symm hs]
  | @miss id s signal hplace =>
    refine h.move ?_
    rw [hplace]
    by_cases hs : s = session
    · rcases signal with _ | _ | _ <;> simp [Place.share, Round.due, hs]
    · simp [Place.share, hs]
  | rest hplace hround =>
    refine h.move ?_
    rw [hplace]
    rcases hround with rfl | ⟨rfl, rfl | rfl⟩ <;> simp [Place.share, Round.due]
  | cease hplace hp =>
    refine h.move ?_
    rcases hp with rfl | rfl <;> simp [Place.share, Round.due]
  | halt s => exact h.pointwise fun i => (r.place i).share_halt session s
  | @report id s e hplace hbeat =>
    by_cases hs : s = session
    · subst hs
      refine (h.report htidy).move ?_
      simp [hplace, Place.report, Place.share, hbeat]
      omega
    · refine (h.pointwise fun i => Nat.le_of_eq ((r.place i).share_report_of_ne hs)).move ?_
      simp [hplace, Place.report, Place.share]
  | release hplace hbeats hp =>
    refine h.move ?_
    rcases hp with rfl | rfl <;> simp [Place.share]
  | settle hplace hwaits =>
    refine h.move ?_
    rw [hwaits.countP_ready (fun _ h => h.elim) session]
    simp [Place.share]

theorem Starts.atMost {s : String} (hstarts : Starts id s r r') (h : AtMost session k r) :
    AtMost session (k + if s = session then 1 else 0) r' := by
  obtain ⟨hplace, -, rfl⟩ := hstarts
  refine h.move ?_
  rw [hplace]
  by_cases hs : s = session <;> simp [Place.share, Round.due, hs]
  omega

/-- The heartbeats of a session that begin add one job each, and nothing else does. -/
theorem Changes.atMost {started : Option (TaskId × String)} (hchanges : Changes r started r')
    (htidy : r.Tidy) (h : AtMost session k r) :
    r'.Tidy ∧ AtMost session (k + if started.map Prod.snd = some session then 1 else 0) r' := by
  induction hchanges with
  | none => exact ⟨htidy, h⟩
  | change _ hchange ih =>
    obtain ⟨htidy, h⟩ := ih
    exact ⟨hchange.tidy htidy, hchange.atMost htidy h⟩
  | start _ hstarts ih =>
    obtain ⟨htidy, h⟩ := ih
    refine ⟨hstarts.tidy htidy, ?_⟩
    simpa using hstarts.atMost h

end Bound

end Relay

def Phase.callsFor (session : String) : Phase → Bool
  | .clearing s | .enqueuing s => s = session
  | _ => false

namespace PhaseState

variable {f f' : PhaseState} {session : String} {n : Nat}

/-- The heartbeat jobs of a session that are outstanding: they were enqueued, and nobody reported them
yet. -/
def outstanding (f : PhaseState) (session : String) : Nat :=
  f.world.broker.contents.ready.countP (beatsFor session) +
    ((Finset.range f.world.nextTask).filter fun id =>
      (f.unreported? id).any (·.isBeatOf session)).card

def calling (f : PhaseState) (session : String) : Nat :=
  ((Finset.range f.world.nextTask).filter fun id => (f.midway id).any (·.callsFor session)).card

/-- In a step, a heartbeat of a session began although a job of an older one is outstanding, or about
to be enqueued. -/
def overlaps (f f' : PhaseState) (session : String) : Bool :=
  (f'.world.beats.find? (·.session = session)).any (fun b => f.world.nextTask ≤ b.task) &&
    decide (0 < f'.outstanding session + f'.calling session)

/-- A run in which so many heartbeats of a session began too early. -/
inductive Run (start : World) (session : String) : Nat → PhaseState → Prop where
  | start : Run start session 0 { world := start }
  | step {n : Nat} {f f' : PhaseState} (h : Run start session n f) (hstep : Step f f') :
      Run start session (n + (f.overlaps f' session).toNat) f'

theorem Run.reaches {start : World} (h : Run start session n f) : Reaches start f := by
  induction h with
  | start => exact .start
  | step _ hstep ih => exact ih.step hstep

theorem outstanding_le_load (f : PhaseState) (session : String) :
    f.outstanding session ≤ f.relay.load session (Finset.range f.world.nextTask) := by
  refine Nat.add_le_add_left ?_ _
  rw [Finset.card_filter]
  refine Finset.sum_le_sum fun id _ => ?_
  rw [← held?_place]
  exact Place.share_of_held _ session

theorem calls_of_place {id : TaskId} {signal : Option Bool} {round : Round}
    (h : f.relay.place id = .beating session signal round)
    (hround : round = .clearing ∨ round = .enqueuing) :
    (f.midway id).any (·.callsFor session) = true := by
  change f.world.scene.place f.midway id = _ at h
  unfold Scene.place at h
  cases hm : f.midway id with
  | some p =>
    rw [hm] at h
    cases p with
    | clearing s | enqueuing s =>
      obtain ⟨rfl, -, -⟩ := Place.beating.inj h
      simp [Phase.callsFor]
    | enqueued s answer =>
      obtain ⟨-, -, rfl⟩ := Place.beating.inj h
      rcases hround with hround | hround <;> cases hround
    | looked outcome =>
      match outcome with
      | .ok (.job e) | .ok .unreadable | .ok .nothing | .error _ => cases h
    | _ => cases h
  | none =>
    rw [hm] at h
    cases htask : f.world.scene.tasks id with
    | none =>
      rw [htask] at h
      cases h
    | some t =>
      rw [htask] at h
      rcases Scene.round_of_body h with rfl | rfl <;> rcases hround with hround | hround <;> cases hround

theorem share_le_live {id : TaskId} (hheld : (f.unreported? id).any (·.isBeatOf session) = false)
    (hcalls : (f.midway id).any (·.callsFor session) = false) :
    (f.relay.place id).share session ≤ if (f.relay.place id).live? = some session then 1 else 0 := by
  rw [← held?_place] at hheld
  cases hplace : f.relay.place id with
  | idle | settling => exact Nat.zero_le _
  | holding e =>
    rw [hplace] at hheld
    have hother : e.isBeatOf session = false := hheld
    simp [Place.share, hother]
  | beating s signal round =>
    by_cases hs : s = session
    · subst hs
      have hround : round ≠ .clearing ∧ round ≠ .enqueuing := by
        constructor <;> rintro rfl <;> simp [calls_of_place hplace] at hcalls
      rcases signal with _ | _ | _ <;> rcases round with _ | _ | _ | ⟨_ | _⟩ | _ <;>
        simp_all [Place.share, Place.live?, Round.due]
    · simp [Place.share, hs]

theorem atMost_one (hsound : f.world.scene.Sound f.midway) (htidy : f.relay.Tidy)
    (hnone : f.outstanding session + f.calling session = 0) : f.relay.AtMost session 1 := by
  obtain ⟨⟨hready, hheld⟩, hcalling⟩ :
      ((∀ entry ∈ f.world.broker.contents.ready, beatsFor session entry = false) ∧
        ∀ id, id < f.world.nextTask → (f.unreported? id).any (·.isBeatOf session) = false) ∧
      ∀ id, id < f.world.nextTask → (f.midway id).any (·.callsFor session) = false := by
    simpa [outstanding, calling] using hnone
  have hshare : ∀ id, (f.relay.place id).share session ≤
      if (f.relay.place id).live? = some session then 1 else 0 := by
    intro id
    by_cases hid : id < f.world.nextTask
    · exact share_le_live (hheld id hid) (hcalling id hid)
    · rw [show f.relay.place id = .idle from hsound.place_fresh (Nat.not_lt.1 hid)]
      exact Nat.zero_le _
  have hcount : f.relay.queue.ready.countP (beatsFor session) = 0 := by
    rw [List.countP_eq_zero]
    intro entry hentry
    simp [hready entry hentry]
  intro tasks
  calc f.relay.load session tasks
      = tasks.sum fun id => (f.relay.place id).share session := by rw [Relay.load, hcount, Nat.zero_add]
    _ ≤ tasks.sum fun id => if (f.relay.place id).live? = some session then 1 else 0 :=
        Finset.sum_le_sum fun id _ => hshare id
    _ ≤ 1 := htidy.live_le_one session tasks

theorem Run.atMost {start : World} (hstart : start.scene.Sound fun _ => none)
    (htidy : ({ world := start } : PhaseState).relay.Tidy)
    (hnone : ({ world := start } : PhaseState).relay.AtMost session 1) (h : Run start session n f) :
    f.relay.Tidy ∧ f.relay.AtMost session (1 + n) := by
  induction h with
  | start => exact ⟨htidy, hnone⟩
  | @step n f f' hrun hstep ih =>
    obtain ⟨htidy, hbound⟩ := ih
    obtain ⟨hsound', started, hchanges, hstarted⟩ := hstep.follows (hrun.reaches.sound hstart)
    obtain ⟨htidy', hbound'⟩ := Relay.Changes.atMost hchanges htidy hbound
    change f'.relay.AtMost session _ at hbound'
    refine ⟨htidy', fun tasks => ?_⟩
    have hload := hbound' tasks
    cases hoverlaps : f.overlaps f' session with
    | true =>
      rw [Bool.toNat_true]
      refine hload.trans ?_
      split <;> omega
    | false =>
      rw [Bool.toNat_false]
      by_cases hs : started.map Prod.snd = some session
      · obtain ⟨⟨id, s⟩, hpair, rfl⟩ := Option.map_eq_some_iff.1 hs
        obtain ⟨hfresh, signal, hbeat⟩ := hstarted id s hpair
        obtain ⟨b, hb, hbid⟩ := Option.map_eq_some_iff.1 hbeat
        have hquiet : f'.outstanding s + f'.calling s = 0 := by
          by_contra hsome
          have hnew : f.world.nextTask ≤ b.task := (Prod.mk.inj hbid).1 ▸ hfresh
          simp [overlaps, hb, hnew, Nat.pos_of_ne_zero hsome] at hoverlaps
        exact (atMost_one hsound' htidy' hquiet tasks).trans (Nat.le_add_right _ _)
      · simpa [hs] using hload

/-- Of the heartbeat jobs of a session one is outstanding, and one more at most for each heartbeat that
began while a job of an older one was. -/
theorem Run.outstanding_le {config : Config} {roster : Roster} {broker : Queue.Broker}
    (hheartbeat : config.heartbeat.isSome)
    (hqueue : ∀ entry, entry ∈ broker.contents.ready ∨ entry ∈ broker.contents.delayedEntries →
      Ordinary entry)
    (h : Run { config, roster, broker } session n f) : f.outstanding session ≤ 1 + n := by
  have hstart : ({ config, roster, broker } : World).scene.Sound fun _ => none :=
    sound_start hheartbeat rfl rfl rfl rfl
  let start : PhaseState := { world := { config, roster, broker } }
  have hidle : ∀ i, start.relay.place i = .idle := by
    intro i
    cases i with
    | zero => rfl
    | succ i => exact hstart.place_fresh (Nat.le_add_left 1 i)
  have htidy : start.relay.Tidy := by
    refine ⟨fun entry hentry => hqueue entry (.inr hentry), fun entry hentry => ?_,
      fun i e he => ?_, fun i j s hi => ?_⟩
    · exact (hqueue entry (.inl hentry)).readsTriedOnce
    · rw [hidle] at he
      cases he
    · rw [hidle] at hi
      cases hi
  have hnone : start.relay.AtMost session 1 := by
    intro tasks
    have hready : start.relay.queue.ready.countP (beatsFor session) = 0 := by
      rw [List.countP_eq_zero]
      intro entry hentry
      simp [(hqueue entry (.inl hentry)).beatsFor session]
    simp [Relay.load, hready, hidle, Place.share]
  exact (outstanding_le_load f session).trans ((h.atMost hstart htidy hnone).2 _)

/-- The heartbeat jobs of a session that are ready or in processing. -/
def queued (f : PhaseState) (session : String) : Nat :=
  (f.world.broker.contents.ready ++ f.world.broker.contents.processing).countP (beatsFor session)

def heldBeats (f : PhaseState) (session : String) : List Entry :=
  (List.range f.world.nextTask).filterMap fun id =>
    ((f.unreported? id).filter (·.isBeatOf session)).bind (·.bytes?)

/-- The heartbeat jobs of a session that are in processing although no consumer is going to report them:
they were reported or given up, and the queue does not know. -/
def unacknowledged (f : PhaseState) (session : String) : Nat :=
  ((f.world.broker.contents.processing.filter (beatsFor session)).diff (f.heldBeats session)).length

theorem length_le_length_diff_add (entries held : List Entry) :
    entries.length ≤ (entries.diff held).length + held.length := by
  induction held generalizing entries with
  | nil => exact Nat.le_refl _
  | cons entry rest ih =>
    have hrest := ih (entries.erase entry)
    have herase : entries.length ≤ (entries.erase entry).length + 1 := by
      rw [List.length_erase]
      split <;> omega
    rw [List.diff_cons, List.length_cons]
    omega

theorem length_heldBeats_le (f : PhaseState) (session : String) :
    (f.heldBeats session).length ≤ ((Finset.range f.world.nextTask).filter fun id =>
      (f.unreported? id).any (·.isBeatOf session)).card := by
  have hcard : ((Finset.range f.world.nextTask).filter fun id =>
      (f.unreported? id).any (·.isBeatOf session)).card =
        (List.range f.world.nextTask).countP fun id => (f.unreported? id).any (·.isBeatOf session) := by
    rw [List.countP_eq_length_filter, Finset.card_def, Finset.filter_val, Finset.range_val,
      Multiset.range, Multiset.filter_coe, Multiset.coe_card]
    simp only [Bool.decide_eq_true]
  rw [hcard, heldBeats, List.length_filterMap_eq_countP]
  refine List.countP_mono_left fun id _ hheld => ?_
  obtain ⟨entry, hentry⟩ := Option.isSome_iff_exists.1 hheld
  obtain ⟨e, he, -⟩ := Option.bind_eq_some_iff.1 hentry
  obtain ⟨he, hbeat⟩ := Option.filter_eq_some_iff.1 he
  rw [he]
  exact hbeat

theorem queued_le_outstanding (f : PhaseState) (session : String) :
    f.queued session ≤ f.outstanding session + f.unacknowledged session := by
  have hprocessing := length_le_length_diff_add
    (f.world.broker.contents.processing.filter (beatsFor session)) (f.heldBeats session)
  have hheld := f.length_heldBeats_le session
  unfold queued outstanding unacknowledged
  rw [List.countP_append, List.countP_eq_length_filter (l := f.world.broker.contents.processing)]
  omega

/-- Of the heartbeat jobs of a session one is ready or in processing. There is one more at most for each
heartbeat that began while a job of an older one was outstanding, and for each job that was reported or
given up and not acknowledged. -/
theorem Run.queued_le {config : Config} {roster : Roster} {broker : Queue.Broker}
    (hheartbeat : config.heartbeat.isSome)
    (hqueue : ∀ entry, entry ∈ broker.contents.ready ∨ entry ∈ broker.contents.delayedEntries →
      Ordinary entry)
    (h : Run { config, roster, broker } session n f) :
    f.queued session ≤ 1 + n + f.unacknowledged session :=
  (f.queued_le_outstanding session).trans
    (Nat.add_le_add_right (h.outstanding_le hheartbeat hqueue) _)

def tally (session : String) : List Move → Nat → PhaseState → Option (Nat × PhaseState)
  | [], n, f => some (n, f)
  | move :: rest, n, f =>
    (f.next? move).bind fun f' => tally session rest (n + (f.overlaps f' session).toNat) f'

theorem Run.tally {start : World} {moves : List Move} {n' : Nat} (h : Run start session n f)
    (htally : tally session moves n f = some (n', f')) : Run start session n' f' := by
  induction moves generalizing n f with
  | nil =>
    obtain ⟨rfl, rfl⟩ := Prod.mk.inj (Option.some.inj htally)
    exact h
  | cons move rest ih =>
    obtain ⟨g, hnext, hrest⟩ := Option.bind_eq_some_iff.1 htally
    exact ih (h.step (step_of_next? hnext)) hrest

/-- The jobs of a session at the end of a run by choices: how many heartbeats began too early, how many
heartbeat jobs are in the queue, and how many of them are not acknowledged. -/
def tallyQueued (session : String) (moves : List Move) (start : World) : Option (Nat × Nat × Nat) :=
  (tally session moves 0 { world := start }).map fun r =>
    (r.1, r.2.queued session, r.2.unacknowledged session)

theorem exists_run_of_tallyQueued {start : World} {moves : List Move} {jobs unacknowledged : Nat}
    (h : tallyQueued session moves start = some (n, jobs, unacknowledged)) :
    ∃ f, Run start session n f ∧ f.queued session = jobs ∧
      f.unacknowledged session = unacknowledged := by
  obtain ⟨⟨n', f⟩, htally, hresult⟩ := Option.map_eq_some_iff.1 h
  simp only [Prod.mk.injEq] at hresult
  obtain ⟨rfl, hjobs, hunacknowledged⟩ := hresult
  exact ⟨f, Run.start.tally htally, hjobs, hunacknowledged⟩

def delivery (id : TaskId) : List Move := .begin id :: List.replicate 6 (.advance id)

def round (id : TaskId) : List Move := .turn id :: .begin id :: List.replicate 3 (.advance id)

/-- The heartbeat of a session has a round while two other jobs of the session are ready. The session is
gone when the first of them is carried out, and back for the second one. -/
def comesBack (session : Session) : List Move :=
  let job : Job := { sessionId := session.id }
  [.order (.startBeat session.id), .order .startWorker, .order (.enqueueEvaluation job),
    .order (.enqueueEvaluation job)] ++ round 1 ++
    [.order (.dropSession session.id), .begin 2] ++ List.replicate 5 (.advance 2) ++
    [.turn 1, .begin 2, .advance 2, .order (.putSession session)] ++ delivery 2 ++ round 3

/-- The job of the first round is reported, and before the queue knows of it the second round enqueues
another one. -/
def reportsFirst (session : String) : List Move :=
  [.order (.startBeat session), .order .startWorker] ++ round 1 ++
    .begin 2 :: List.replicate 5 (.advance 2) ++ round 1

def oneSession : Session := anySession { sessionId := "s-1" } .scanning none

def oneRoster : Roster := readyRoster { sessionId := "s-1" } .scanning none []

theorem exists_overlap : ∃ f, Run { config := everySecond, roster := oneRoster } "s-1" 1 f ∧
    f.queued "s-1" = 2 ∧ f.unacknowledged "s-1" = 0 := by
  have htally : tallyQueued "s-1" (comesBack oneSession) { config := everySecond, roster := oneRoster } =
      some (1, 2, 0) := by decide +kernel
  exact exists_run_of_tallyQueued htally

theorem exists_unacknowledged : ∃ f, Run { config := everySecond, roster := oneRoster } "s-1" 0 f ∧
    f.queued "s-1" = 2 ∧ f.unacknowledged "s-1" = 1 := by
  have htally : tallyQueued "s-1" (reportsFirst "s-1") { config := everySecond, roster := oneRoster } =
      some (0, 2, 1) := by decide +kernel
  exact exists_run_of_tallyQueued htally

theorem queued_le_both_ways :
    (∃ f, everySecond.heartbeat.isSome ∧
      (∀ entry, entry ∈ ({} : Contents).ready ∨ entry ∈ ({} : Contents).delayedEntries →
        Ordinary entry) ∧
      Run { config := everySecond, roster := oneRoster } "s-1" 1 f ∧
      f.queued "s-1" = 1 + 1 + f.unacknowledged "s-1" ∧ f.unacknowledged "s-1" = 0) ∧
    ∃ f, Run { config := everySecond, roster := oneRoster } "s-1" 0 f ∧
      f.queued "s-1" = 1 + 0 + f.unacknowledged "s-1" ∧ f.unacknowledged "s-1" = 1 := by
  have hempty : ∀ entry, entry ∈ ({} : Contents).ready ∨ entry ∈ ({} : Contents).delayedEntries →
      Ordinary entry := by
    rintro entry (hentry | hentry) <;> cases hentry
  obtain ⟨f, hrun, hqueued, hacknowledged⟩ := exists_overlap
  obtain ⟨g, hrun', hqueued', hunacknowledged⟩ := exists_unacknowledged
  refine ⟨⟨f, rfl, hempty, hrun, Nat.le_antisymm (hrun.queued_le rfl hempty) ?_, hacknowledged⟩,
    g, hrun', Nat.le_antisymm (hrun'.queued_le rfl hempty) ?_, hunacknowledged⟩
  · rw [hqueued, hacknowledged]
  · rw [hqueued', hunacknowledged]

/-- A session can have two heartbeat jobs in the queue, also where no heartbeat began too early. -/
theorem not_always_one_queued : ¬ ∀ (config : Config) (roster : Roster) (session : String) (f : PhaseState),
    config.heartbeat.isSome → Run { config, roster } session 0 f → f.queued session ≤ 1 := by
  intro hall
  obtain ⟨f, hrun, hqueued, -⟩ := exists_unacknowledged
  have hone := hall everySecond oneRoster "s-1" f rfl hrun
  rw [hqueued] at hone
  omega

/-- A session can have two heartbeat jobs in the queue. -/
theorem not_always_one_outstanding : ¬ ∀ (config : Config) (roster : Roster) (ids : IdSupply)
    (f : PhaseState) (session : String), config.heartbeat.isSome →
      Reaches (World.start config roster ids) f →
      (f.world.broker.contents.ready ++ f.world.broker.contents.processing).countP
        (beatsFor session) ≤ 1 := by
  intro hall
  obtain ⟨f, hrun, hqueued, -⟩ := exists_overlap
  have hone : f.queued "s-1" ≤ 1 := hall everySecond oneRoster {} f "s-1" rfl hrun.reaches
  rw [hqueued] at hone
  omega

end PhaseState

end SignalCoach.Worker
