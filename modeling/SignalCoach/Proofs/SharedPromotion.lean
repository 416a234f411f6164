import SignalCoach.Proofs.JobStages

/-! Promotion by workers that take turns at single commands. One of them may act on a list of due
entries that it read long ago, while others promote, run, fail and delay the same jobs: an entry can
be taken off the schedule once only, and a job that failed never has the bytes that it had before. -/
namespace SignalCoach.Queue

open Envelope (writtenId?)
open Contents (isOf)

namespace CommandState
namespace Traces

variable {state : CommandState} {id : String} {entry : Entry} {stage : Stage} {worker : Nat} {p : Phase}
  {progress : Progress} {c : Contents} {ids : IdSupply}

theorem other (h : Traces state id entry stage) (hreadable : state.Readable)
    (hp : state.midway worker = some p)
    (hadvances : Advances state.clock state.contents state.ids p progress c ids) {own : Entry}
    (habout : p.about? = some own) (hother : isOf id own = false) :
    Traces (state.advanced worker p progress c ids) id entry stage := by
  have hpasses := h.passes hreadable hp hadvances
  have hknown := hreadable.midway worker p hp
  have hstale (hlisted : progress.listed ⊆ p.listed) : ∀ listed ∈ progress.listed,
      isOf id listed = true → stage.MayList state.clock entry listed :=
    fun listed hmem => h.agrees.listed worker p hp listed (hlisted hmem)
  cases hadvances with
  | won =>
    obtain rfl := Option.some.inj habout
    exact hpasses elsewhere_none (Contents.only_undelay_other hother _)
      (hstale (List.subset_cons_self ..)) (elsewhere_some hother) nofun
  | lost =>
    exact hpasses elsewhere_none rfl (hstale (by simp [Phase.listed])) (by simp [elsewhere_none])
      (by simp)
  | pushed =>
    obtain rfl := Option.some.inj habout
    exact hpasses (elsewhere_some hother) (Contents.only_pushReady_other hother _)
      (hstale (by simp [Phase.listed])) (by simp [elsewhere_none]) (by simp)
  | completed =>
    obtain rfl := Option.some.inj habout
    exact hpasses (elsewhere_some hother) (Contents.only_settle_other hother _)
      (hstale (List.nil_subset _)) elsewhere_none nofun
  | @settled e before entry =>
    obtain rfl := Option.some.inj habout
    obtain ⟨hbefore, hentry, -⟩ := hknown
    have hsame : isOf id entry = isOf id before := Contents.isOf_congr (hentry.trans hbefore.symm)
    exact hpasses (elsewhere_some hother) (Contents.only_settle_other hother _)
      (hstale (List.nil_subset _)) (elsewhere_some (hsame.trans hother)) nofun
  | rescheduled =>
    obtain rfl := Option.some.inj habout
    exact hpasses (elsewhere_some hother) rfl (hstale (List.nil_subset _)) (elsewhere_some hother)
      nofun
  | @added _ target =>
    obtain rfl := Option.some.inj habout
    exact hpasses (elsewhere_some hother) (Contents.only_add_other hother target)
      (hstale (List.nil_subset _)) elsewhere_none (by simp [hknown.of_adding])
  | discarded => exact hknown.elim
  | _ => cases habout

theorem listed (h : Traces state id entry stage) (hreadable : state.Readable)
    {reserving : Bool} {now : Int} (hp : state.midway worker = some (.listing reserving now)) :
    Traces (state.advanced worker (.listing reserving now)
      (promoting reserving 0 (state.contents.due now)) state.contents state.ids)
      id entry stage := by
  refine h.passes hreadable hp .listed elsewhere_none rfl (fun other hother hof => ?_)
    (by simp [elsewhere_none]) (by simp)
  rw [Progress.listed_promoting] at hother
  obtain ⟨⟨due, other⟩, hpair, rfl⟩ := List.mem_map.1 hother
  obtain ⟨hpair, hnow⟩ := List.mem_filter.1 hpair
  obtain ⟨hplace, rfl⟩ := h.stands.delayed_eq hof hpair
  obtain rfl := Stage.eq_delayed hplace
  exact .inr ⟨rfl, (of_decide_eq_true hnow).trans (hreadable.midway worker _ hp)⟩

/-- Who comes too late goes on with the rest of the list. -/
theorem lost (h : Traces state id entry stage) (hreadable : state.Readable)
    {reserving : Bool} {promoted : Nat} {own : Entry} {rest : List Entry}
    (hp : state.midway worker = some (.undelaying reserving promoted own rest)) :
    Traces (state.advanced worker (.undelaying reserving promoted own rest)
      (promoting reserving promoted rest) state.contents state.ids) id entry stage := by
  refine h.passes hreadable hp .lost elsewhere_none rfl (fun other hother => ?_)
    (by simp [elsewhere_none]) (by simp)
  rw [Progress.listed_promoting] at hother
  exact h.agrees.listed worker _ hp other (List.mem_cons_of_mem _ hother)

/-- The first one who takes a job off the schedule is to promote it, and is not early. -/
theorem won (h : Traces state id entry stage)
    {reserving : Bool} {promoted : Nat} {own : Entry} {rest : List Entry}
    (hp : state.midway worker = some (.undelaying reserving promoted own rest))
    (hmem : own ∈ state.contents.delayed.map Prod.snd) (hof : isOf id own = true) :
    Traces (state.advanced worker (.undelaying reserving promoted own rest)
      (.goesOn (.pushing reserving promoted own rest)) (state.contents.undelay own).2 state.ids)
      id entry (.promoting worker) := by
  obtain ⟨⟨due, own⟩, hpair, rfl⟩ := List.mem_map.1 hmem
  obtain ⟨hplace, rfl⟩ := h.stands.delayed_eq hof hpair
  obtain rfl := Stage.eq_delayed hplace
  have hdue : due ≤ state.clock := by
    rcases h.agrees.listed worker _ hp own List.mem_cons_self hof with hless | ⟨-, hdue⟩
    · exact absurd hless (lt_irrefl _)
    · exact hdue
  refine h.moves hp hof (h.own nofun).2
    { leads := .won
      notHeld := nofun
      stands := ?_
      listed := List.subset_cons_self ..
      hand := rfl
      reserved := nofun
      completed := rfl
      timely := h.timely
      noted := ⟨due, hdue, h.noted⟩ }
  rw [Contents.Stands, Contents.only_undelay, h.stands]
  simp [Stage.place, Place.contents, Contents.undelay, Contents.without]

theorem pushed (h : Traces state id entry stage)
    {reserving : Bool} {promoted : Nat} {own : Entry} {rest : List Entry}
    (hp : state.midway worker = some (.pushing reserving promoted own rest))
    (hof : isOf id own = true) :
    Traces (state.advanced worker (.pushing reserving promoted own rest)
      (promoting reserving (promoted + 1) rest) (state.contents.pushReady own) state.ids)
      id entry .ready := by
  obtain ⟨rfl, rfl⟩ := h.agrees.inHand worker _ own _ hp rfl hof
  refine h.moves hp hof (h.own nofun).2
    { leads := .pushed
      notHeld := nofun
      stands := h.stands.add hof .ready
      listed := by simp [Phase.listed]
      hand := by simp [Stage.worker?]
      reserved := by simp
      completed := by simp [Stage.completions]
      timely := ?_
      noted := trivial }
  simp only [Phase.marksOf, Phase.mark?, Option.toList_some, List.filter_singleton, hof]
  exact ⟨h.noted, h.timely⟩

theorem took (h : Traces state id entry stage) (hreadable : state.Readable)
    (hp : state.midway worker = some .taking) {own : Entry} {e : Envelope}
    (htake : state.contents.take = (some own, c))
    (hread : Envelope.decode own state.ids = (.ok e, ids)) :
    ∃ stage', Traces (state.advanced worker .taking (.ends (.reserved (.job e))) c ids)
      id entry stage' := by
  have hadvances : Advances state.clock state.contents state.ids .taking
      (.ends (.reserved (.job e))) c ids := .took htake hread
  by_cases hof : isOf id own = true
  · have htaken := h.stands.take htake
    rw [if_pos hof] at htaken
    obtain ⟨hplace, rfl, hstands⟩ := htaken
    obtain rfl := Stage.eq_ready hplace
    refine ⟨.held, h.moves hp hof ((h.own nofun).2.mono hadvances.supply)
      { leads := .taken
        notHeld := nofun
        stands := hstands
        listed := List.nil_subset _
        hand := rfl
        reserved := ?_
        completed := rfl
        timely := h.timely
        noted := trivial }⟩
    intro e' he'
    obtain rfl := List.mem_singleton.1 he'
    exact ⟨rfl, Envelope.decode_eq_ok hread⟩
  · have hsame : if isOf id own then (state.contents.only id).take = (some own, c.only id)
        else c.only id = state.contents.only id := Contents.only_take htake
    rw [if_neg hof] at hsame
    refine ⟨stage, h.passes hreadable hp hadvances elsewhere_none hsame nofun elsewhere_none
      fun e' he' hid => hof ?_⟩
    obtain rfl := List.mem_singleton.1 he'
    have hmem : own ∈ c.entries :=
      Contents.mem_entries_of_processing (by simp [(Contents.take_eq_some htake).2.1])
    obtain ⟨id', hwritten, -⟩ :=
      hreadable.queue own ((Contents.take_eq_some htake).1.mem_iff.1 hmem)
    rw [Contents.isOf_iff, hwritten, ← hid, Envelope.id_of_decode hread hwritten]

theorem completes (h : Traces state id entry stage) (hreadable : state.Readable)
    {e : Envelope} {own : Entry} (hp : state.midway worker = some (.completing e own))
    (hof : isOf id own = true) :
    Traces (state.advanced worker (.completing e own) (.ends (.completed e))
      (state.contents.settle own) state.ids) id entry .completed := by
  obtain ⟨rfl, rfl⟩ := h.agrees.inHand worker _ own _ hp rfl hof
  have hid : id = e.id := by
    have hwritten := (hreadable.midway worker _ hp).1
    rw [Contents.isOf_iff, hwritten] at hof
    exact (Option.some.inj hof).symm
  refine h.moves hp hof (h.own nofun).2
    { leads := .completed
      notHeld := nofun
      stands := ?_
      listed := List.nil_subset _
      hand := rfl
      reserved := nofun
      completed := by simp [Progress.completed, Stage.completions, hid]
      timely := h.timely
      noted := trivial }
  rw [Contents.Stands, Contents.only_settle, h.stands]
  simp [Stage.place, Place.contents, Contents.settle]

theorem fails (h : Traces state id entry stage) (hreadable : state.Readable)
    {e : Envelope} {before own : Entry} {retry : Bool}
    (hp : state.midway worker = some (.failing e before own retry)) (hof : isOf id before = true) :
    Traces (state.advanced worker (.failing e before own retry)
      (.goesOn (.rescheduling e own retry)) (state.contents.settle before) state.ids)
      id own (.adding worker) := by
  obtain ⟨hbefore, hown, -, htries⟩ := hreadable.midway worker _ hp
  have hsame : isOf id own = isOf id before := Contents.isOf_congr (hown.trans hbefore.symm)
  obtain ⟨rfl, rfl⟩ := h.agrees.inHand worker _ before _ hp rfl hof
  refine h.moves hp (hsame.trans hof) (h.own nofun).2
    { leads := .failed htries
      notHeld := nofun
      stands := ?_
      listed := List.nil_subset _
      hand := rfl
      reserved := nofun
      completed := rfl
      timely := h.timely
      noted := trivial }
  rw [Contents.Stands, Contents.only_settle, h.stands]
  simp [Stage.place, Place.contents, Contents.settle]

theorem reschedules (h : Traces state id entry stage)
    {e : Envelope} {own : Entry} {retry delayed : Bool} {target : Target}
    (hp : state.midway worker = some (.rescheduling e own retry)) (hof : isOf id own = true) :
    Traces (state.advanced worker (.rescheduling e own retry)
      (.goesOn (.adding own target (.failed delayed { e with stored := some own })))
      state.contents state.ids) id entry (.adding worker) := by
  obtain ⟨rfl, rfl⟩ := h.agrees.inHand worker _ own _ hp rfl hof
  exact h.moves hp hof (h.own nofun).2
    { leads := .rescheduled
      notHeld := nofun
      stands := h.stands
      listed := List.nil_subset _
      hand := rfl
      reserved := nofun
      completed := rfl
      timely := h.timely
      noted := trivial }

theorem adds (h : Traces state id entry stage) (hreadable : state.Readable)
    {own : Entry} {target : Target} {answer : Answer}
    (hp : state.midway worker = some (.adding own target answer)) (hof : isOf id own = true) :
    Traces (state.advanced worker (.adding own target answer) (.ends answer)
      (target.add own state.contents) state.ids) id entry target.stage := by
  obtain ⟨-, hreserved, hcompleted⟩ := (hreadable.midway worker _ hp).of_adding
  obtain ⟨rfl, rfl⟩ := h.agrees.inHand worker _ own _ hp rfl hof
  refine h.moves hp hof (h.own nofun).2
    { leads := .added target
      notHeld := nofun
      stands := h.stands.add hof target
      listed := List.nil_subset _
      hand := by cases target <;> rfl
      reserved := by simp [hreserved]
      completed := by cases target <;> rw [hcompleted] <;> rfl
      timely := ?timely
      noted := ?noted }
  case timely => cases target <;> simpa [Phase.marksOf, Phase.mark?, hof, Timely] using h.timely
  case noted => cases target <;> simp [Phase.marksOf, Phase.mark?, hof, Target.stage, Stage.Noted]

theorem of_about (h : Traces state id entry stage) (hreadable : state.Readable)
    (hp : state.midway worker = some p)
    (hadvances : Advances state.clock state.contents state.ids p progress c ids) (own : Entry)
    (habout : p.about? = some own) (hown : isOf id own = true → ∃ entry' stage',
      Traces (state.advanced worker p progress c ids) id entry' stage') :
    ∃ entry' stage', Traces (state.advanced worker p progress c ids) id entry' stage' := by
  cases hof : isOf id own with
  | true => exact hown hof
  | false => exact ⟨entry, stage, h.other hreadable hp hadvances habout hof⟩

theorem advanced (h : Traces state id entry stage) (hreadable : state.Readable)
    (hp : state.midway worker = some p)
    (hadvances : Advances state.clock state.contents state.ids p progress c ids) :
    ∃ entry' stage', Traces (state.advanced worker p progress c ids) id entry' stage' := by
  have hknown := hreadable.midway worker p hp
  have habout := h.of_about hreadable hp hadvances
  cases hadvances with
  | listed => exact ⟨entry, stage, h.listed hreadable hp⟩
  | won hmem => exact habout _ rfl fun hof => ⟨entry, _, h.won hp hmem hof⟩
  | lost => exact ⟨entry, stage, h.lost hreadable hp⟩
  | pushed => exact habout _ rfl fun hof => ⟨entry, _, h.pushed hp hof⟩
  | foundNothing =>
    exact ⟨entry, stage, h.passes hreadable hp .foundNothing elsewhere_none rfl nofun elsewhere_none
      nofun⟩
  | took htake hread => exact ⟨entry, h.took hreadable hp htake hread⟩
  | tookUnreadable htake hread =>
    have hreadable' := hreadable.advanced hp (.tookUnreadable htake hread)
    exact (hreadable'.midway worker _ (Function.update_self ..)).elim
  | discarded => exact hknown.elim
  | completed => exact habout _ rfl fun hof => ⟨entry, _, h.completes hreadable hp hof⟩
  | settled => exact habout _ rfl fun hof => ⟨_, _, h.fails hreadable hp hof⟩
  | rescheduled => exact habout _ rfl fun hof => ⟨entry, _, h.reschedules hp hof⟩
  | added => exact habout _ rfl fun hof => ⟨entry, _, h.adds hreadable hp hof⟩

theorem begins (h : Traces state id entry stage) (hidle : state.midway worker = none)
    (hids : state.ids.next ≤ ids.next) (hlisted : p.listed = [])
    (helse : Elsewhere id (p.hand worker)) {held : List Envelope}
    (hheld : ∀ e ∈ held, e ∈ state.held) :
    Traces { state with ids, midway := Function.update state.midway worker (some p), held }
      id entry stage := by
  have hfree : stage.worker? ≠ some worker := by
    intro hworker
    obtain ⟨p', hp', -⟩ := h.inHand hworker
    rw [hidle] at hp'
    cases hp'
  exact { h with
    own := fun hborn => ⟨(h.own hborn).1, (h.own hborn).2.mono hids⟩
    agrees := h.agrees.passes (.goesOn p) hfree (by simp [Progress.listed, hlisted]) helse
    held := fun e he => h.held e (hheld e he) }

theorem enqueues (h : Traces state id entry stage) (hreadable : state.Readable)
    (hid : id = state.ids.draw.1) {own : Entry} (hown : writtenId? own = some id)
    {target : Target} {answer : Answer} :
    Traces { state with ids := state.ids.draw.2
                        midway := Function.update state.midway worker
                          (some (.adding own target answer)) } id own (.adding worker) := by
  have hnew : ¬ state.ids.Drew id := hid ▸ state.ids.not_drew_next
  obtain rfl : stage = .unborn := by
    by_contra hborn
    exact hnew (h.own hborn).2
  exact
    { own := fun _ => ⟨decide_eq_true hown, hid ▸ state.ids.drew_draw⟩
      stands := h.stands
      agrees := h.agrees.moves (.goesOn (.adding own target answer)) .enqueued nofun rfl
      held := fun e he hsame => absurd (hsame ▸ (hreadable.held e he).1) hnew
      enqueued := nofun
      completed := h.completed
      timely := h.timely
      noted := trivial }

theorem settles (h : Traces state id entry stage) {e : Envelope} (he : e ∈ state.held)
    (hid : e.id = id) {own : Entry} (hown : e.stored = some own) (hlisted : p.listed = [])
    (hhand : p.hand worker = some (own, .settling worker)) :
    Traces { state with midway := Function.update state.midway worker (some p)
                        held := state.held.filter (·.id ≠ e.id) } id entry (.settling worker) := by
  obtain ⟨rfl, hstored⟩ := h.held e he hid
  obtain rfl := Option.some.inj (hown.symm.trans hstored)
  refine
    { own := fun _ => h.own nofun
      stands := h.stands
      agrees := h.agrees.moves (.goesOn p) .begun (by simp [Progress.listed, hlisted]) hhand
      held := fun e' he' hid' => ?_
      enqueued := nofun
      completed := h.completed
      timely := h.timely
      noted := trivial }
  have hne := (List.mem_filter.1 he').2
  simp [hid, hid'] at hne

theorem begun (h : Traces state id entry stage) (hreadable : state.Readable) {request : Request}
    (hallowed : state.Allowed Holds (.begin worker request))
    (hbegins : request.Begins state.clock state.ids p ids) :
    ∃ entry' stage', Traces
      { state with ids, midway := Function.update state.midway worker (some p)
                   held := request.letsGo state.held } id entry' stage' := by
  have hbegun (hlisted : p.listed = []) (helse : Elsewhere id (p.hand worker)) :=
    h.begins hallowed.1 (hreadable.known_of_begins hallowed hbegins).1 hlisted helse
      fun e (he : e ∈ request.letsGo state.held) => Readable.mem_letsGo he
  have hother {own : Entry} {id' : String} (hwritten : writtenId? own = some id') (hne : id' ≠ id) :
      isOf id own = false := by
    rw [isOf, hwritten, decide_eq_false_iff_not]
    exact fun hsame => hne (Option.some.inj hsame)
  have hsettles {e : Envelope} {own : Entry} (he : e ∈ state.held) (hbytes : e.bytes? = some own)
      (hlisted : p.listed = []) (hhand : p.hand worker = some (own, .settling worker))
      (hlets : request.letsGo state.held = state.held.filter (·.id ≠ e.id))
      (hids : ids = state.ids) :
      ∃ entry' stage', Traces
        { state with ids, midway := Function.update state.midway worker (some p)
                     held := request.letsGo state.held } id entry' stage' := by
    obtain ⟨-, hstored, hwritten, -⟩ := hreadable.bytes he hbytes
    by_cases hid : e.id = id
    · rw [hlets, hids]
      exact ⟨entry, .settling worker, h.settles he hid hstored hlisted hhand⟩
    · refine ⟨entry, stage, hbegun hlisted ?_⟩
      rw [hhand]
      exact elsewhere_some (hother hwritten hid)
  cases hbegins with
  | @enqueue name data maxAttempts backoff delay e own he hentry =>
    have hdrew := state.ids.drew_draw
    subst he
    have hown := Envelope.writtenId?_of_encode? hentry hdrew.ne_empty
    by_cases hid : state.ids.draw.1 = id
    · exact ⟨own, .adding worker, h.enqueues hreadable hid.symm (hid ▸ hown)⟩
    · exact ⟨entry, stage, hbegun rfl (elsewhere_some (hother hown hid))⟩
  | promoteDue => exact ⟨entry, stage, hbegun rfl elsewhere_none⟩
  | reserve => exact ⟨entry, stage, hbegun rfl elsewhere_none⟩
  | complete hbytes => exact hsettles hallowed.2 hbytes rfl rfl rfl rfl
  | fail hbytes => exact hsettles hallowed.2 hbytes rfl rfl rfl rfl

theorem begin (h : Traces state id entry stage) (hreadable : state.Readable) {request : Request}
    (hallowed : state.Allowed Holds (.begin worker request)) :
    ∃ entry' stage', Traces (state.begin worker request) id entry' stage' := by
  rcases state.begin_begins worker request with ⟨p, ids, hbegin, hbegins⟩ | ⟨ids, hbegin, hids⟩
  · rw [hbegin]
    exact h.begun hreadable hallowed hbegins
  · rw [hbegin]
    refine ⟨entry, stage, { h with
      own := fun hborn => ⟨(h.own hborn).1, (h.own hborn).2.mono hids⟩
      held := fun e he hid => ?_ }⟩
    rcases Readable.mem_unrecorded he with hold | ⟨e₀, error, retry, rfl, rfl⟩
    · exact h.held e hold hid
    · exact h.held e₀ hallowed.2 hid

theorem wait (h : Traces state id entry stage) (time : Nat) :
    Traces { state with clock := state.clock + time } id entry stage := by
  have hclock : state.clock ≤ state.clock + time :=
    Int.le_add_of_nonneg_right (Int.natCast_nonneg time)
  have hlisted : ∀ worker p, state.midway worker = some p → ∀ other ∈ p.listed,
      isOf id other = true → stage.MayList (state.clock + time) entry other :=
    fun worker p hp other hother hof => (h.agrees.listed worker p hp other hother hof).mono hclock
  exact { h with agrees := { h.agrees with listed := hlisted }, noted := h.noted.mono hclock }

theorem step (h : Traces state id entry stage) (hreadable : state.Readable) {step : Step}
    (hallowed : state.Allowed Holds step) :
    ∃ entry' stage', Traces (state.step step) id entry' stage' := by
  cases step with
  | wait time => exact ⟨entry, stage, h.wait time⟩
  | begin worker request => exact h.begin hreadable hallowed
  | carryOn worker =>
    rw [CommandState.step]
    rcases state.carryOn_cases worker with hcarry | ⟨p, progress, c, ids, hp, hcarry, hadvances⟩
    · rw [hcarry]
      exact ⟨entry, stage, h⟩
    · rw [hcarry]
      exact h.advanced hreadable hp hadvances

end Traces
end CommandState

namespace Contents

theorem entries_only (id : String) (c : Contents) :
    (c.only id).entries = c.entries.filter (isOf id) := by
  simp [only, entries, List.filter_append, List.filter_map, Function.comp_def]

theorem count_ids (id : String) (c : Contents) : c.ids.count id = (c.only id).entries.length := by
  rw [entries_only, ← List.countP_eq_length_filter, ids, List.count, List.countP_filterMap]
  refine List.countP_congr fun entry _ => ?_
  cases hwritten : writtenId? entry <;> simp [isOf, hwritten]

end Contents

namespace CommandState

theorem Traces.count_eq_one {state : CommandState} {id : String} {entry : Entry} {stage : Stage}
    (h : Traces state id entry stage) (henqueued : id ∈ state.enqueued)
    (hcarries : ∀ worker, ¬ state.Carries worker id) :
    (state.contents.ids ++ state.completed).count id = 1 := by
  have hcarried {worker : Nat} (hworker : stage.worker? = some worker) :
      stage.place ≠ .nowhere := by
    intro hplace
    obtain ⟨p, hp, hhand, hof⟩ := h.inHand hworker
    exact hcarries worker
      ⟨p, entry, hp, Phase.carried_of_hand hhand hplace, of_decide_eq_true hof⟩
  rw [List.count_append, h.completed, Contents.count_ids, h.stands]
  cases stage with
  | unborn => exact absurd henqueued (h.enqueued rfl)
  | adding worker => exact absurd rfl (hcarried rfl)
  | promoting worker => exact absurd rfl (hcarried rfl)
  | _ => rfl

def Accounted (state : CommandState) : Prop :=
  state.Readable ∧ ∀ id, ∃ entry stage, state.Traces id entry stage

theorem accounted_start (clock : Int) : Accounted { clock } where
  left := { queue := by simp [Contents.entries], held := by simp, midway := by simp }
  right id := ⟨[], .unborn,
    { own := (absurd rfl ·)
      stands := rfl
      agrees := { listed := by simp, inHand := by simp, worker := by simp [Stage.worker?] }
      held := by simp
      enqueued := by simp
      completed := rfl
      timely := trivial
      noted := trivial }⟩

theorem Accounted.step {state : CommandState} (h : state.Accounted) {step : Step}
    (hallowed : state.Allowed Holds step) : (state.step step).Accounted := by
  refine ⟨h.1.step hallowed, fun id => ?_⟩
  obtain ⟨entry, stage, htraces⟩ := h.2 id
  exact htraces.step h.1 hallowed

/-- A job was promoted once at most for every delay, and never early; and once it is enqueued it is
in exactly one place of the queue or complete, unless it is on its way. -/
def PromotedOnce (state : CommandState) (id : String) (onItsWay : Prop) : Prop :=
  Timely (state.marksOf id) ∧ (id ∈ state.enqueued → ¬ onItsWay →
    (state.contents.ids ++ state.completed).count id = 1)

/-- However the commands of the workers interleave, every job is promoted in time and once for each
delay, and is in exactly one place unless a worker carries it from one place to another. -/
theorem run_promotedOnce {clock : Int} {steps : List Step} (h : Follows Holds { clock } steps)
    (id : String) : (run { clock } steps).PromotedOnce id
      (∃ worker, (run { clock } steps).Carries worker id) := by
  have haccounted : (run { clock } steps).Accounted :=
    Follows.induction (fun _ _ hallowed h => h.step hallowed) h (accounted_start clock)
  obtain ⟨entry, stage, htraces⟩ := haccounted.2 id
  exact ⟨htraces.timely, fun henqueued hcarries =>
    htraces.count_eq_one henqueued (not_exists.1 hcarries)⟩

/-- A job is enqueued with a delay, and another worker lists it when it is due. -/
def listing : List Step :=
  [.begin 0 (.enqueue evaluateName [] 3 1000 10), .carryOn 0, .wait 10,
    .begin 1 .promoteDue, .carryOn 1]

/-- The first worker promotes the job and reserves it. -/
def reserving : List Step :=
  listing ++ [.begin 0 .reserve, .carryOn 0, .carryOn 0, .carryOn 0, .carryOn 0]

theorem reserving_held : (run {} reserving).held ≠ [] := by decide +kernel

def takenJob : Envelope := (run {} reserving).held.head reserving_held

/-- The job fails, and is out of processing. -/
def settling : List Step :=
  reserving ++ [.begin 0 (.fail takenJob "error" true), .carryOn 0]

/-- The job is delayed again, before the second worker gets to promote it. -/
def overtaken : List Step := settling ++ [.carryOn 0, .carryOn 0, .carryOn 1]

def failedJob : Envelope :=
  { takenJob.failed "error" with stored := (takenJob.failed "error").encode? }

def failedTwice : List Step :=
  overtaken ++ [.begin 0 (.fail failedJob "error" true), .carryOn 0, .carryOn 0, .carryOn 0]

theorem run_listing : (run {} listing).midway 0 = none := by decide +kernel

theorem run_reserving : (run {} reserving).midway 0 = none := by decide +kernel

theorem run_settling : (run {} settling).enqueued = ["id-000001"] ∧
    (run {} settling).completed = [] ∧ (run {} settling).contents.entries = [] ∧
    ∀ worker < 2, ((run {} settling).midway worker).any Phase.isPromoting = false := by
  decide +kernel

theorem run_overtaken : (run {} overtaken).midway 0 = none ∧
    (run {} overtaken).marks.map Prod.snd = [.delayed 1010, .promoted 10, .delayed 10] := by
  decide +kernel

theorem run_failedTwice : (run {} failedTwice).enqueued = ["id-000001"] ∧
    (∀ worker < 2, (run {} failedTwice).midway worker = none) ∧
    (run {} failedTwice).contents.entries.length = 2 ∧
    ∀ entry ∈ (run {} failedTwice).contents.entries,
      some entry = (takenJob.failed "error").encode? ∨
        some entry = (failedJob.failed "error").encode? := by
  decide +kernel

theorem takenJob_id : takenJob.id = "id-000001" := by decide +kernel

section

variable {maySettle : CommandState → Envelope → Prop}

theorem follows_settling (htaken : maySettle (run {} reserving) takenJob) :
    Follows maySettle {} settling := by
  have hidle : (run {} [.begin 0 (.enqueue evaluateName [] 3 1000 10), .carryOn 0,
      .wait 10]).midway 1 = none := midway_run (by simp [Step.worker?])
  have hfirst : Follows maySettle {} listing :=
    ⟨⟨rfl, trivial⟩, trivial, trivial, ⟨hidle, trivial⟩, trivial, trivial⟩
  have hsecond : Follows maySettle {} reserving :=
    Follows.append_iff.2 ⟨hfirst, ⟨run_listing, trivial⟩, trivial, trivial, trivial, trivial, trivial⟩
  exact Follows.append_iff.2 ⟨hsecond, ⟨run_reserving, htaken⟩, trivial, trivial⟩

theorem follows_overtaken (htaken : maySettle (run {} reserving) takenJob) :
    Follows maySettle {} overtaken :=
  Follows.append_iff.2 ⟨follows_settling htaken, trivial, trivial, trivial, trivial⟩

end

theorem run_promotedOnce_overtaken : Follows Holds {} overtaken ∧
    (run {} overtaken).marks.map Prod.snd = [.delayed 1010, .promoted 10, .delayed 10] ∧
    (run {} overtaken).PromotedOnce "id-000001"
      (∃ worker, (run {} overtaken).Carries worker "id-000001") := by
  have hfollows : Follows Holds {} overtaken := follows_overtaken (List.head_mem _)
  exact ⟨hfollows, run_overtaken.2, run_promotedOnce hfollows "id-000001"⟩

theorem worker_of_two {steps : List Step}
    (hsteps : ∀ step ∈ steps, ∀ worker ∈ step.worker?, worker < 2) {worker : Nat} {p : Phase}
    (hp : (run {} steps).midway worker = some p) : worker < 2 := by
  by_contra hother
  have hnone : (run {} steps).midway worker = none := midway_run fun step hstep hsame => by
    have hless := hsteps step hstep worker hsame
    omega
  rw [hnone] at hp
  cases hp

theorem settling_count : ¬ (∃ worker, (run {} settling).Promotes worker) ∧
    ((run {} settling).contents.ids ++ (run {} settling).completed).count "id-000001" = 0 := by
  obtain ⟨-, hcompleted, hentries, hidle⟩ := run_settling
  refine ⟨?_, by rw [hcompleted, Contents.ids, hentries]; rfl⟩
  rintro ⟨worker, p, hp, hpromoting⟩
  have htwo : ∀ step ∈ settling, ∀ worker ∈ step.worker?, worker < 2 := by
    simp [settling, reserving, listing, Step.worker?]
  have hnone := hidle worker (worker_of_two htwo hp)
  rw [hp, Option.any_some, hpromoting] at hnone
  cases hnone

theorem isOf_failed {e : Envelope} {id error : String} {entry : Entry} (hid : e.id = id)
    (hne : id ≠ "") (h : some entry = (e.failed error).encode?) : isOf id entry = true := by
  subst hid
  have hwritten : writtenId? entry = some (e.failed error).id :=
    Envelope.writtenId?_of_encode? h.symm hne
  exact decide_eq_true hwritten

/-- When its failure was recorded again, by one who no longer held it, a job is in two places. -/
theorem failedTwice_count : (¬ ∃ worker, (run {} failedTwice).Carries worker "id-000001") ∧
    2 ≤ ((run {} failedTwice).contents.ids ++
      (run {} failedTwice).completed).count "id-000001" := by
  obtain ⟨-, hidle, hlength, hentries⟩ := run_failedTwice
  constructor
  · rintro ⟨worker, p, entry, hp, -⟩
    have htwo : ∀ step ∈ failedTwice, ∀ worker ∈ step.worker?, worker < 2 := by
      simp [failedTwice, overtaken, settling, reserving, listing, Step.worker?]
    rw [hidle worker (worker_of_two htwo hp)] at hp
    cases hp
  · have hof : ∀ entry ∈ (run {} failedTwice).contents.entries, isOf "id-000001" entry = true :=
      fun entry hentry => (hentries entry hentry).elim (isOf_failed takenJob_id (by simp))
        (isOf_failed (e := failedJob) takenJob_id (by simp))
    rw [List.count_append, Contents.count_ids, Contents.entries_only, List.filter_eq_self.2 hof,
      hlength]
    exact Nat.le_add_right _ _

theorem not_always_promotedOnce :
    (¬ ∀ clock steps, Follows Holds { clock } steps → ∀ id, (run { clock } steps).PromotedOnce id
      (∃ worker, (run { clock } steps).Promotes worker)) ∧
    ¬ ∀ clock steps, Follows (fun _ _ => True) { clock } steps → ∀ id,
      (run { clock } steps).PromotedOnce id
        (∃ worker, (run { clock } steps).Carries worker id) := by
  constructor
  · intro hall
    obtain ⟨hnone, hcount⟩ := settling_count
    have honce := (hall 0 settling (follows_settling (List.head_mem _)) "id-000001").2
      (by rw [run_settling.1]; simp) hnone
    rw [hcount] at honce
    cases honce
  · intro hall
    obtain ⟨hnone, hcount⟩ := failedTwice_count
    have hfollows : Follows (fun _ _ => True) {} failedTwice :=
      Follows.append_iff.2
        ⟨follows_overtaken trivial, ⟨run_overtaken.1, trivial⟩, trivial, trivial, trivial, trivial⟩
    have honce := (hall 0 failedTwice hfollows "id-000001").2 (by rw [run_failedTwice.1]; simp)
      hnone
    omega

end CommandState
end SignalCoach.Queue
