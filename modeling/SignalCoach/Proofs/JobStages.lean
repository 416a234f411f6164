import SignalCoach.Proofs.QueueCommands

/-! What becomes of a job among workers that take turns at single commands, and what every worker
knows of it meanwhile. A phase takes a job from one stage to the next, or is about other jobs. -/
namespace SignalCoach.Queue

open Envelope (writtenId?)
open Contents (isOf)

/-- Every promotion follows a delay that was over, with nothing between the two. The latest mark
comes first. -/
def Timely : List Mark → Prop
  | [] => True
  | .delayed _ :: earlier => Timely earlier
  | .promoted now :: earlier =>
    (∃ due ≤ now, earlier.head? = some (.delayed due)) ∧ Timely earlier

inductive Stage where
  | unborn
  /-- A worker is going to add its bytes: it is enqueued, or an attempt at it failed. -/
  | adding (worker : Nat)
  | ready
  | delayed (due : Int)
  | promoting (worker : Nat)
  | held
  | settling (worker : Nat)
  | failed
  | completed

def Target.stage : Target → Stage
  | ready => .ready
  | failed => .failed
  | delayed due => .delayed due

namespace Stage

def place : Stage → Place
  | ready => .ready
  | delayed due => .delayed due
  | held | settling _ => .processing
  | failed => .failed
  | unborn | adding _ | promoting _ | completed => .nowhere

def worker? : Stage → Option Nat
  | adding worker | promoting worker | settling worker => some worker
  | _ => none

/-- Bytes of a job that were listed as due may be old ones. They are the present ones only if those
were on the schedule, and if they still are, their time has come. -/
def MayList (clock : Int) (entry other : Entry) : Stage → Prop
  | unborn => False
  | adding _ => tries other < tries entry
  | delayed due => tries other < tries entry ∨ other = entry ∧ due ≤ clock
  | _ => tries other < tries entry ∨ other = entry

def Noted (clock : Int) (marks : List Mark) : Stage → Prop
  | delayed due => marks.head? = some (.delayed due)
  | promoting _ => ∃ due ≤ clock, marks.head? = some (.delayed due)
  | _ => True

def completions : Stage → Nat
  | completed => 1
  | _ => 0

theorem eq_delayed {stage : Stage} {due : Int} (h : stage.place = .delayed due) :
    stage = .delayed due := by
  cases stage <;> cases h
  rfl

theorem eq_ready {stage : Stage} (h : stage.place = .ready) : stage = .ready := by
  cases stage <;> cases h
  rfl

theorem MayList.mono {stage : Stage} {clock clock' : Int} {entry other : Entry}
    (h : stage.MayList clock entry other) (hclock : clock ≤ clock') :
    stage.MayList clock' entry other := by
  cases stage with
  | delayed due => exact h.imp_right fun hlast => ⟨hlast.1, hlast.2.trans hclock⟩
  | _ => exact h

theorem Noted.mono {stage : Stage} {clock clock' : Int} {marks : List Mark}
    (h : stage.Noted clock marks) (hclock : clock ≤ clock') : stage.Noted clock' marks := by
  cases stage with
  | promoting worker =>
    obtain ⟨due, hdue, hhead⟩ := h
    exact ⟨due, hdue.trans hclock, hhead⟩
  | _ => exact h

/-- The life of a job, and of its bytes: a worker takes it from one stage to another. -/
inductive Leads (worker : Nat) : Entry → Stage → Entry → Stage → Prop where
  | enqueued {entry entry' : Entry} : Leads worker entry unborn entry' (adding worker)
  | added {entry : Entry} (target : Target) : Leads worker entry (adding worker) entry target.stage
  | won {entry : Entry} {due : Int} : Leads worker entry (delayed due) entry (promoting worker)
  | pushed {entry : Entry} : Leads worker entry (promoting worker) entry ready
  | taken {entry : Entry} : Leads worker entry ready entry held
  | begun {entry : Entry} : Leads worker entry held entry (settling worker)
  | completed {entry : Entry} : Leads worker entry (settling worker) entry completed
  /-- A job that failed goes on with bytes that it never had before. -/
  | failed {entry entry' : Entry} (h : tries entry < tries entry') :
    Leads worker entry (settling worker) entry' (adding worker)
  | rescheduled {entry : Entry} : Leads worker entry (adding worker) entry (adding worker)

namespace Leads

variable {worker other : Nat} {entry entry' : Entry} {stage stage' : Stage}

theorem worker_before (h : Leads worker entry stage entry' stage')
    (hother : stage.worker? = some other) : other = worker := by
  cases h <;> cases hother <;> rfl

theorem worker_after (h : Leads worker entry stage entry' stage')
    (hother : stage'.worker? = some other) : other = worker := by
  cases h with
  | added target => cases target <;> cases hother
  | _ => cases hother <;> rfl

theorem born (h : Leads worker entry stage entry' stage') : stage' ≠ unborn := by
  cases h with
  | added target => cases target <;> nofun
  | _ => nofun

theorem not_completed (h : Leads worker entry stage entry' stage') : stage.completions = 0 := by
  cases h <;> rfl

/-- What is listed of a job is still old when the job gets further. -/
theorem mayList (h : Leads worker entry stage entry' stage') {clock : Int} {listed : Entry}
    (hlisted : stage.MayList clock entry listed) : stage'.MayList clock entry' listed := by
  cases h with
  | enqueued => exact hlisted.elim
  | added target => cases target <;> exact .inl hlisted
  | won => exact hlisted.imp_right And.left
  | failed htries => exact hlisted.elim htries.trans' fun hsame => hsame ▸ htries
  | _ => exact hlisted

end Leads
end Stage

namespace Phase

def hand (worker : Nat) : Phase → Option (Entry × Stage)
  | pushing _ _ entry _ => some (entry, .promoting worker)
  | completing _ entry | failing _ entry _ _ => some (entry, .settling worker)
  | rescheduling _ entry _ | adding entry _ _ => some (entry, .adding worker)
  | _ => none

def about? : Phase → Option Entry
  | undelaying _ _ entry _ | pushing _ _ entry _ | discarding entry | completing _ entry
  | failing _ entry _ _ | rescheduling _ entry _ | adding entry _ _ => some entry
  | listing _ _ | taking => none

def marksOf (id : String) (clock : Int) (p : Phase) : List Mark :=
  ((p.mark? clock).toList.filter fun mark => isOf id mark.1).map Prod.snd

theorem worker?_of_hand {worker : Nat} {p : Phase} {own : Entry} {stage : Stage}
    (h : p.hand worker = some (own, stage)) : stage.worker? = some worker := by
  cases p <;> cases h <;> rfl

theorem carried_of_hand {worker : Nat} {p : Phase} {own : Entry} {stage : Stage}
    (h : p.hand worker = some (own, stage)) (hplace : stage.place = .nowhere) :
    p.carried? = some own := by
  cases p <;> cases h <;> first | rfl | cases hplace

theorem hand_of_mark {clock : Int} {p : Phase} {mark : Entry × Mark} (worker : Nat)
    (h : mark ∈ p.mark? clock) : ∃ stage, p.hand worker = some (mark.1, stage) := by
  cases p with
  | pushing reserving promoted entry rest =>
    cases h
    exact ⟨_, rfl⟩
  | adding entry target answer =>
    cases target with
    | delayed due =>
      cases h
      exact ⟨_, rfl⟩
    | _ => cases h
  | _ => cases h

end Phase

namespace Progress

variable {reserving : Bool} {promoted worker : Nat} {rest : List Entry}

def hand (worker : Nat) : Progress → Option (Entry × Stage)
  | goesOn p => p.hand worker
  | ends _ => none

def listed : Progress → List Entry
  | goesOn p => p.listed
  | ends _ => []

theorem eq_goesOn {progress : Progress} {p : Phase} (h : p ∈ progress.phase?) :
    progress = .goesOn p := by
  cases progress <;> cases h
  rfl

@[simp] theorem hand_promoting : (promoting reserving promoted rest).hand worker = none := by
  cases rest <;> cases reserving <;> rfl

@[simp] theorem listed_promoting : (promoting reserving promoted rest).listed = rest := by
  cases rest <;> cases reserving <;> rfl

end Progress

def Elsewhere (id : String) (hand : Option (Entry × Stage)) : Prop :=
  ∀ own stage, hand = some (own, stage) → isOf id own = false

theorem elsewhere_none {id : String} : Elsewhere id none := nofun

theorem elsewhere_some {id : String} {own : Entry} {stage : Stage} (h : isOf id own = false) :
    Elsewhere id (some (own, stage)) := by
  rintro _ _ ⟨⟩
  exact h

theorem Phase.marksOf_elsewhere {id : String} {worker : Nat} {p : Phase} {clock : Int}
    (h : Elsewhere id (p.hand worker)) : p.marksOf id clock = [] := by
  rw [marksOf, List.filter_eq_nil_iff.2, List.map_nil]
  intro mark hmark
  obtain ⟨stage, hhand⟩ := hand_of_mark worker (Option.mem_toList.1 hmark)
  simp [h mark.1 stage hhand]

namespace Advances

variable {clock : Int} {c c' : Contents} {ids ids' : IdSupply} {p : Phase} {progress : Progress}

theorem supply (h : Advances clock c ids p progress c' ids') : ids.next ≤ ids'.next := by
  cases h with
  | @took entry _ _ _ _ hread =>
    have hnext := decode_next entry ids
    rwa [hread] at hnext
  | @tookUnreadable entry _ _ _ _ hread =>
    have hnext := decode_next entry ids
    rwa [hread] at hnext
  | _ => exact le_rfl

theorem settles (h : Advances clock c ids p progress c' ids') (hknown : p.Known ids clock)
    (worker : Nat) {id : String} (hid : id ∈ progress.enqueued ++ progress.completed) :
    ∃ own stage, p.hand worker = some (own, stage) ∧ isOf id own = true := by
  cases h with
  | @completed e entry =>
    obtain rfl := List.mem_singleton.1 hid
    exact ⟨entry, _, rfl, decide_eq_true hknown.1⟩
  | @added entry target answer =>
    cases answer with
    | enqueued e =>
      obtain rfl := List.mem_singleton.1 hid
      exact ⟨entry, _, rfl, decide_eq_true hknown.1⟩
    | failed delayed e => cases hid
    | _ => exact hknown.elim
  | listed | lost | pushed => simp at hid
  | _ => exact absurd hid List.not_mem_nil

end Advances

theorem Contents.Stands.add {c : Contents} {id : String} {entry : Entry}
    (h : c.Stands id entry .nowhere) (hof : isOf id entry = true) (target : Target) :
    (target.add entry c).Stands id entry target.stage.place := by
  cases target with
  | ready =>
    rw [Stands, Target.add, only_pushReady hof, h]
    rfl
  | failed =>
    rw [Stands, Target.add, only_pushFailed hof, h]
    rfl
  | delayed due =>
    rw [Stands, Target.add, only_delay hof due (by rw [h]; rfl), h]
    rfl

theorem Contents.only_add_other {c : Contents} {id : String} {entry : Entry}
    (hother : isOf id entry = false) (target : Target) :
    (target.add entry c).only id = c.only id := by
  cases target with
  | ready => exact only_pushReady_other hother c
  | failed => exact only_pushFailed_other hother c
  | delayed due => exact only_delay_other hother due c

namespace CommandState

/-- The workers know of a job what is so. -/
structure Agrees (midway : Nat → Option Phase) (clock : Int) (id : String) (entry : Entry)
    (stage : Stage) : Prop where
  listed : ∀ worker p, midway worker = some p → ∀ other ∈ p.listed, isOf id other = true →
    stage.MayList clock entry other
  inHand : ∀ worker p own stage', midway worker = some p → p.hand worker = some (own, stage') →
    isOf id own = true → own = entry ∧ stage' = stage
  worker : ∀ worker, stage.worker? = some worker → ∃ p, midway worker = some p ∧
    p.hand worker = some (entry, stage)

structure Traces (state : CommandState) (id : String) (entry : Entry) (stage : Stage) : Prop where
  own : stage ≠ .unborn → isOf id entry = true ∧ state.ids.Drew id
  stands : state.contents.Stands id entry stage.place
  agrees : Agrees state.midway state.clock id entry stage
  held : ∀ e ∈ state.held, e.id = id → stage = .held ∧ e.stored = some entry
  enqueued : stage = .unborn → id ∉ state.enqueued
  completed : state.completed.count id = stage.completions
  timely : Timely (state.marksOf id)
  noted : stage.Noted state.clock (state.marksOf id)

structure Transition (state : CommandState) (id : String) (worker : Nat) (p : Phase) (progress : Progress)
    (c : Contents) (entry : Entry) (stage : Stage) (entry' : Entry) (stage' : Stage) : Prop where
  leads : stage.Leads worker entry entry' stage'
  notHeld : stage ≠ .held
  stands : c.Stands id entry' stage'.place
  listed : progress.listed ⊆ p.listed
  hand : progress.hand worker = stage'.worker?.map fun _ => (entry', stage')
  reserved : ∀ e ∈ progress.reserved, stage' = .held ∧ e.stored = some entry'
  completed : progress.completed.count id = stage'.completions
  timely : Timely (p.marksOf id state.clock ++ state.marksOf id)
  noted : stage'.Noted state.clock (p.marksOf id state.clock ++ state.marksOf id)

namespace Agrees

variable {midway : Nat → Option Phase} {clock : Int} {id : String} {entry entry' : Entry}
  {stage stage' : Stage} {worker : Nat}

theorem passes (h : Agrees midway clock id entry stage) (progress : Progress)
    (hfree : stage.worker? ≠ some worker)
    (hlisted : ∀ other ∈ progress.listed, isOf id other = true → stage.MayList clock entry other)
    (hhand : Elsewhere id (progress.hand worker)) :
    Agrees (Function.update midway worker progress.phase?) clock id entry stage where
  listed other p hp := by
    rcases update_cases hp with ⟨rfl, hnext⟩ | ⟨-, hold⟩
    · obtain rfl := Progress.eq_goesOn hnext
      exact hlisted
    · exact h.listed other p hold
  inHand other p own stage' hp hown hof := by
    rcases update_cases hp with ⟨rfl, hnext⟩ | ⟨-, hold⟩
    · obtain rfl := Progress.eq_goesOn hnext
      rw [hhand own stage' hown] at hof
      cases hof
    · exact h.inHand other p own stage' hold hown hof
  worker other hother := by
    have hne : other ≠ worker := by
      rintro rfl
      exact hfree hother
    rw [Function.update_of_ne hne]
    exact h.worker other hother

theorem moves (h : Agrees midway clock id entry stage) (progress : Progress)
    (hleads : stage.Leads worker entry entry' stage')
    (hlisted : ∀ other ∈ progress.listed, ∃ p, midway worker = some p ∧ other ∈ p.listed)
    (hhand : progress.hand worker = stage'.worker?.map fun _ => (entry', stage')) :
    Agrees (Function.update midway worker progress.phase?) clock id entry' stage' where
  listed other p hp due hdue hof := by
    refine hleads.mayList ?_
    rcases update_cases hp with ⟨rfl, hnext⟩ | ⟨-, hold⟩
    · obtain rfl := Progress.eq_goesOn hnext
      obtain ⟨p₀, hp₀, hdue⟩ := hlisted due hdue
      exact h.listed other p₀ hp₀ due hdue hof
    · exact h.listed other p hold due hdue hof
  inHand other p own stage₁ hp hown hof := by
    rcases update_cases hp with ⟨rfl, hnext⟩ | ⟨hne, hold⟩
    · obtain rfl := Progress.eq_goesOn hnext
      obtain ⟨_, -, hsame⟩ := Option.map_eq_some_iff.1 (hhand.symm.trans hown)
      cases hsame
      exact ⟨rfl, rfl⟩
    · obtain ⟨-, rfl⟩ := h.inHand other p own stage₁ hold hown hof
      exact absurd (hleads.worker_before (Phase.worker?_of_hand hown)) hne
  worker other hother := by
    obtain rfl := hleads.worker_after hother
    rw [hother] at hhand
    cases progress with
    | goesOn p => exact ⟨p, Function.update_self .., hhand⟩
    | ends answer => cases hhand

end Agrees

theorem marksOf_advanced (state : CommandState) (id : String) (worker : Nat) (p : Phase)
    (progress : Progress) (c : Contents) (ids : IdSupply) :
    (state.advanced worker p progress c ids).marksOf id =
      p.marksOf id state.clock ++ state.marksOf id := by
  rw [marksOf, advanced, List.filter_append, List.map_append]
  rfl

namespace Traces

variable {state : CommandState} {id : String} {entry entry' : Entry} {stage stage' : Stage} {worker : Nat}
  {p : Phase} {progress : Progress} {c : Contents} {ids : IdSupply}

theorem inHand (h : Traces state id entry stage) (hworker : stage.worker? = some worker) :
    ∃ p, state.midway worker = some p ∧ p.hand worker = some (entry, stage) ∧
      isOf id entry = true := by
  obtain ⟨p, hp, hhand⟩ := h.agrees.worker worker hworker
  have hborn : stage ≠ .unborn := by
    rintro rfl
    cases hworker
  exact ⟨p, hp, hhand, (h.own hborn).1⟩

theorem passes (h : Traces state id entry stage) (hreadable : state.Readable)
    (hp : state.midway worker = some p)
    (hadvances : Advances state.clock state.contents state.ids p progress c ids)
    (hbefore : Elsewhere id (p.hand worker)) (hcontents : c.only id = state.contents.only id)
    (hlisted : ∀ other ∈ progress.listed, isOf id other = true →
      stage.MayList state.clock entry other)
    (hafter : Elsewhere id (progress.hand worker))
    (hreserved : ∀ e ∈ progress.reserved, e.id ≠ id) :
    Traces (state.advanced worker p progress c ids) id entry stage := by
  have hids := hadvances.supply
  have hfree : stage.worker? ≠ some worker := by
    intro hworker
    obtain ⟨p', hp', hhand, hof⟩ := h.inHand hworker
    obtain rfl := Option.some.inj (hp.symm.trans hp')
    rw [hbefore entry stage hhand] at hof
    cases hof
  have hmarks : (state.advanced worker p progress c ids).marksOf id = state.marksOf id := by
    rw [marksOf_advanced, Phase.marksOf_elsewhere hbefore, List.nil_append]
  have hnotes : id ∉ progress.enqueued ++ progress.completed := by
    intro hid
    obtain ⟨own, stage', hhand, hof⟩ := hadvances.settles (hreadable.midway worker p hp) worker hid
    rw [hbefore own stage' hhand] at hof
    cases hof
  rw [List.mem_append, not_or] at hnotes
  refine ⟨fun hborn => ⟨(h.own hborn).1, (h.own hborn).2.mono hids⟩, hcontents.trans h.stands,
    h.agrees.passes progress hfree hlisted hafter, ?held, ?enqueued, ?completed, hmarks ▸ h.timely,
    hmarks ▸ h.noted⟩
  case held =>
    intro e he hid
    rcases List.mem_append.1 he with hnew | hold
    · exact absurd hid (hreserved e hnew)
    · exact h.held e hold hid
  case enqueued =>
    intro hunborn hmem
    rcases List.mem_append.1 hmem with hnew | hold
    · exact hnotes.1 hnew
    · exact h.enqueued hunborn hold
  case completed =>
    change (progress.completed ++ state.completed).count id = _
    rw [List.count_append, List.count_eq_zero_of_not_mem hnotes.2, Nat.zero_add]
    exact h.completed

theorem moves (h : Traces state id entry stage) (hp : state.midway worker = some p)
    (hof : isOf id entry' = true) (hdrew : ids.Drew id)
    (hmove : Transition state id worker p progress c entry stage entry' stage') :
    Traces (state.advanced worker p progress c ids) id entry' stage' where
  own _ := ⟨hof, hdrew⟩
  stands := hmove.stands
  agrees := h.agrees.moves progress hmove.leads
    (fun _ hother => ⟨p, hp, hmove.listed hother⟩) hmove.hand
  held e he hid := by
    rcases List.mem_append.1 he with hnew | hold
    · exact hmove.reserved e hnew
    · exact absurd (h.held e hold hid).1 hmove.notHeld
  enqueued hunborn := absurd hunborn hmove.leads.born
  completed := by
    change (progress.completed ++ state.completed).count id = _
    rw [List.count_append, h.completed, hmove.completed, hmove.leads.not_completed, Nat.add_zero]
  timely := by
    rw [marksOf_advanced]
    exact hmove.timely
  noted := by
    rw [marksOf_advanced]
    exact hmove.noted

end Traces
end CommandState
end SignalCoach.Queue
