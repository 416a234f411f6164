import Mathlib.Logic.Function.Basic
import SignalCoach.Proofs.JobPlaces
import SignalCoach.Proofs.QueuePhases
import SignalCoach.Proofs.SharedQueue

/-! Workers that share a queue and take turns at single commands, in any order. -/
namespace SignalCoach.Queue

open SignalCoach.Queue.Action
open Envelope (writtenId?)

theorem Target.adds (entry : Entry) (c : Contents) (target : Target) :
    Adds entry c (target.add entry c) := by
  cases target with
  | ready => exact .inl rfl
  | failed => exact .inr (.inl rfl)
  | delayed due => exact .inr (.inr ⟨due, rfl⟩)

/-- What is noted of the bytes of a job: they were put on the schedule, or promoted. -/
inductive Mark where
  | delayed (due : Int)
  | promoted (now : Int)
  deriving DecidableEq

namespace Phase

def mark? (clock : Int) : Phase → Option (Entry × Mark)
  | pushing _ _ entry _ => some (entry, .promoted clock)
  | adding entry (.delayed due) _ => some (entry, .delayed due)
  | _ => none

/-- The bytes that are out of the queue: off the schedule and not ready yet, or out of processing
and not put back, or of a job that is not enqueued yet. -/
def carried? : Phase → Option Entry
  | pushing _ _ entry _ | rescheduling _ entry _ | adding entry _ _ => some entry
  | _ => none

def isPromoting : Phase → Bool
  | pushing .. => true
  | _ => false

def listed : Phase → List Entry
  | undelaying _ _ entry rest => entry :: rest
  | pushing _ _ _ rest => rest
  | _ => []

end Phase

namespace Progress

def phase? : Progress → Option Phase
  | goesOn p => some p
  | ends _ => none

def reserved : Progress → List Envelope
  | ends (.reserved (.job e)) => [e]
  | _ => []

def enqueued : Progress → List String
  | ends (.enqueued e) => [e.id]
  | _ => []

def completed : Progress → List String
  | ends (.completed e) => [e.id]
  | _ => []

end Progress

namespace Request

def letsGo : Request → List Envelope → List Envelope
  | complete e, held | fail e _ _, held => held.filter (·.id ≠ e.id)
  | _, held => held

def unrecorded : Request → List Envelope → List Envelope
  | fail e error _, held => e.failed error :: held.filter (·.id ≠ e.id)
  | _, held => held

inductive Begins (now : Int) (ids : IdSupply) : Request → Phase → IdSupply → Prop where
  | enqueue {name : String} {data : Fields} {maxAttempts backoff delay : Int} {e : Envelope}
      {entry : Entry}
      (he : e = { name, data, id := ids.draw.1, maxAttempts := max 1 maxAttempts, backoff,
                  enqueuedAt := now })
      (hentry : e.encode? = some entry) :
    Begins now ids (.enqueue name data maxAttempts backoff delay)
      (.adding entry (if 0 < delay then .delayed (now + delay) else .ready) (.enqueued e))
      ids.draw.2
  | promoteDue : Begins now ids .promoteDue (.listing false now) ids
  | reserve : Begins now ids .reserve (.listing true now) ids
  | complete {e : Envelope} {entry : Entry} (hbytes : e.bytes? = some entry) :
    Begins now ids (.complete e) (.completing e entry) ids
  | fail {e : Envelope} {error : String} {retry : Bool} {before entry : Entry}
      (hbytes : e.bytes? = some before) (hentry : (e.failed error).encode? = some entry) :
    Begins now ids (.fail e error retry) (.failing (e.failed error) before entry retry) ids

theorem begin_cases (now : Int) (b : Broker) (request : Request) :
    match request.begin now b with
    | .ok p b' => b'.contents = b.contents ∧ Begins now b.ids request p b'.ids
    | .error _ b' => b'.contents = b.contents ∧ b.ids.next ≤ b'.ids.next := by
  cases request with
  | enqueue name data maxAttempts backoff delay =>
    rw [begin, Program.bind_apply, freshId]
    simp only
    rw [Program.bind_apply, encode_eq]
    cases hentry : Envelope.encode?
        { name, data, id := b.ids.draw.1, maxAttempts := max 1 maxAttempts, backoff,
          enqueuedAt := now } with
    | none => exact ⟨rfl, draw_next _⟩
    | some entry => exact ⟨rfl, .enqueue rfl hentry⟩
  | promoteDue => exact ⟨rfl, .promoteDue⟩
  | reserve => exact ⟨rfl, .reserve⟩
  | complete e =>
    rw [begin, Program.bind_apply, held_eq]
    cases hbytes : e.bytes? with
    | none => exact ⟨rfl, Nat.le_refl _⟩
    | some entry => exact ⟨rfl, .complete hbytes⟩
  | fail e error retry =>
    rw [begin, Program.bind_apply, held_eq]
    cases hbytes : e.bytes? with
    | none => exact ⟨rfl, Nat.le_refl _⟩
    | some before =>
      simp only
      rw [Program.bind_apply, encode_eq]
      cases hentry : (e.failed error).encode? with
      | none => exact ⟨rfl, Nat.le_refl _⟩
      | some entry => exact ⟨rfl, .fail hbytes hentry⟩

end Request

/-- Workers that share a queue, between two commands. -/
structure CommandState where
  contents : Contents := {}
  ids : IdSupply := {}
  clock : Int := 0
  /-- The next phases of the workers that are in the middle of an operation. -/
  midway : Nat → Option Phase := fun _ => none
  /-- The jobs that were reserved, and neither complete nor failed since. -/
  held : List Envelope := []
  enqueued : List String := []
  completed : List String := []
  /-- What was noted, the latest first. -/
  marks : List (Entry × Mark) := []

namespace CommandState

inductive Step where
  | wait (time : Nat)
  | begin (worker : Nat) (request : Request)
  /-- One phase of the operation in whose middle the worker is. -/
  | carryOn (worker : Nat)

def begin (state : CommandState) (worker : Nat) (request : Request) : CommandState :=
  match request.begin state.clock { contents := state.contents, ids := state.ids } with
  | .ok p b =>
    { state with contents := b.contents, ids := b.ids
                 midway := Function.update state.midway worker (some p)
                 held := request.letsGo state.held }
  | .error _ b =>
    { state with contents := b.contents, ids := b.ids, held := request.unrecorded state.held }

def advanced (state : CommandState) (worker : Nat) (p : Phase) (progress : Progress) (contents : Contents)
    (ids : IdSupply) : CommandState :=
  { state with
    contents, ids
    midway := Function.update state.midway worker progress.phase?
    held := progress.reserved ++ state.held
    enqueued := progress.enqueued ++ state.enqueued
    completed := progress.completed ++ state.completed
    marks := (p.mark? state.clock).toList ++ state.marks }

/-- The worker carries out its next phase. It stays before a command whose due time cannot be
written: here no command fails. -/
def carryOn (state : CommandState) (worker : Nat) : CommandState :=
  match state.midway worker with
  | none => state
  | some p =>
    match p.carryOut state.clock { contents := state.contents, ids := state.ids } with
    | .ok progress b => state.advanced worker p progress b.contents b.ids
    | .error _ _ => state

def step (state : CommandState) : Step → CommandState
  | .wait time => { state with clock := state.clock + time }
  | .begin worker request => state.begin worker request
  | .carryOn worker => state.carryOn worker

def run (state : CommandState) (steps : List Step) : CommandState := steps.foldl step state

/-- A worker does one operation at a time, and completes or fails only what it may settle. -/
def Allowed (maySettle : CommandState → Envelope → Prop) (state : CommandState) : Step → Prop
  | .begin worker request => state.midway worker = none ∧
    match request with
    | .complete e | .fail e _ _ => maySettle state e
    | _ => True
  | _ => True

abbrev Follows (maySettle : CommandState → Envelope → Prop) (state : CommandState) (steps : List Step) : Prop :=
  SignalCoach.Follows step (Allowed maySettle) state steps

/-- Jobs are settled by those who hold them: who reserved them, and settled them not yet. -/
def Holds (state : CommandState) (e : Envelope) : Prop := e ∈ state.held

def Carries (state : CommandState) (worker : Nat) (id : String) : Prop :=
  ∃ p entry, state.midway worker = some p ∧ p.carried? = some entry ∧ writtenId? entry = some id

def Promotes (state : CommandState) (worker : Nat) : Prop :=
  ∃ p, state.midway worker = some p ∧ p.isPromoting = true

def marksOf (state : CommandState) (id : String) : List Mark :=
  (state.marks.filter fun mark => Contents.isOf id mark.1).map Prod.snd

theorem carryOn_cases (state : CommandState) (worker : Nat) :
    state.carryOn worker = state ∨ ∃ p progress c ids, state.midway worker = some p ∧
      state.carryOn worker = state.advanced worker p progress c ids ∧
      Advances state.clock state.contents state.ids p progress c ids := by
  rw [carryOn]
  cases state.midway worker with
  | none => exact .inl rfl
  | some p =>
    rcases p.carryOut_advances state.clock state.contents state.ids with
      ⟨progress, c, ids, hrun, hadvances⟩ | ⟨fault, b, hrun⟩
    · exact .inr ⟨p, progress, c, ids, rfl, by simp only [hrun], hadvances⟩
    · exact .inl (by simp only [hrun])

theorem begin_begins (state : CommandState) (worker : Nat) (request : Request) :
    (∃ p ids, state.begin worker request =
        { state with ids, midway := Function.update state.midway worker (some p)
                     held := request.letsGo state.held } ∧
        request.Begins state.clock state.ids p ids) ∨
      ∃ ids, state.begin worker request =
        { state with ids, held := request.unrecorded state.held } ∧
        state.ids.next ≤ ids.next := by
  have hcases := request.begin_cases state.clock { contents := state.contents, ids := state.ids }
  unfold begin
  cases hrun : request.begin state.clock { contents := state.contents, ids := state.ids } with
  | ok p b =>
    rw [hrun] at hcases
    obtain ⟨hcontents, hbegins⟩ := hcases
    exact .inl ⟨p, b.ids, by simp only [hcontents], hbegins⟩
  | error fault b =>
    rw [hrun] at hcases
    obtain ⟨hcontents, hids⟩ := hcases
    exact .inr ⟨b.ids, by simp only [hcontents], hids⟩

def Step.worker? : Step → Option Nat
  | .wait _ => none
  | .begin worker _ | .carryOn worker => some worker

theorem midway_run {state : CommandState} {steps : List Step} {worker : Nat}
    (h : ∀ step ∈ steps, step.worker? ≠ some worker) :
    (state.run steps).midway worker = state.midway worker := by
  induction steps generalizing state with
  | nil => rfl
  | cons step rest ih =>
    obtain ⟨hstep, hrest⟩ := List.forall_mem_cons.1 h
    refine (ih hrest).trans ?_
    cases step with
    | wait time => rfl
    | begin other request =>
      have hne : worker ≠ other := fun hsame => hstep (congrArg some hsame.symm)
      rw [step]
      rcases state.begin_begins other request with ⟨p, ids, hbegin, -⟩ | ⟨ids, hbegin, -⟩
      · rw [hbegin]
        exact Function.update_of_ne hne _ _
      · rw [hbegin]
    | carryOn other =>
      have hne : worker ≠ other := fun hsame => hstep (congrArg some hsame.symm)
      rw [step]
      rcases state.carryOn_cases other with hcarry | ⟨p, progress, c, ids, -, hcarry, -⟩
      · rw [hcarry]
      · rw [hcarry]
        exact Function.update_of_ne hne _ _

end CommandState

def tries (entry : Entry) : Int :=
  ((Envelope.decode entry {}).1.toOption.map (·.attempts)).getD 0

section Bytes

variable {e : Envelope} {entry : Entry} {ids ids' : IdSupply}

theorem tries_of_decode (h : ∀ ids, Envelope.decode entry ids = (.ok e, ids)) :
    tries entry = e.attempts := by
  rw [tries, h]
  rfl

theorem tries_of_encode? (h : e.encode? = some entry) (hid : e.id ≠ "") :
    tries entry = e.attempts := by
  rw [tries, Envelope.decode_of_encode? h hid]
  rfl

def Known (ids : IdSupply) (entry : Entry) : Prop := ∃ id, writtenId? entry = some id ∧ ids.Drew id

theorem Known.mono (h : Known ids entry) (hids : ids.next ≤ ids'.next) : Known ids' entry :=
  h.imp fun _ hid => ⟨hid.1, hid.2.mono hids⟩

end Bytes

namespace Phase

def Known (ids : IdSupply) (clock : Int) : Phase → Prop
  | listing _ now => now ≤ clock
  | undelaying _ _ entry rest | pushing _ _ entry rest =>
    ∀ other ∈ entry :: rest, Queue.Known ids other
  | taking => True
  | discarding _ => False
  | completing e entry => writtenId? entry = some e.id ∧ ids.Drew e.id
  | failing e before entry _ => writtenId? before = some e.id ∧ writtenId? entry = some e.id ∧
      ids.Drew e.id ∧ tries before < tries entry
  | rescheduling e entry _ | adding entry _ (.enqueued e) | adding entry _ (.failed _ e) =>
    writtenId? entry = some e.id ∧ ids.Drew e.id
  | adding _ _ _ => False

variable {ids ids' : IdSupply} {clock clock' : Int} {p : Phase}

theorem Known.mono (h : p.Known ids clock) (hids : ids.next ≤ ids'.next) (hclock : clock ≤ clock') :
    p.Known ids' clock' := by
  cases p with
  | listing reserving now => exact le_trans h hclock
  | undelaying reserving promoted entry rest => exact fun other hother => (h other hother).mono hids
  | pushing reserving promoted entry rest => exact fun other hother => (h other hother).mono hids
  | taking => trivial
  | discarding entry => exact h
  | completing e entry => exact ⟨h.1, h.2.mono hids⟩
  | failing e before entry retry => exact ⟨h.1, h.2.1, h.2.2.1.mono hids, h.2.2.2⟩
  | rescheduling e entry retry => exact ⟨h.1, h.2.mono hids⟩
  | adding entry target answer =>
    cases answer with
    | enqueued e => exact ⟨h.1, h.2.mono hids⟩
    | failed delayed e => exact ⟨h.1, h.2.mono hids⟩
    | _ => exact h

theorem Known.of_adding {entry : Entry} {target : Target} {answer : Answer}
    (h : (adding entry target answer).Known ids clock) : Queue.Known ids entry ∧
      (Progress.ends answer).reserved = [] ∧ (Progress.ends answer).completed = [] := by
  cases answer with
  | enqueued e => exact ⟨⟨e.id, h⟩, rfl, rfl⟩
  | failed delayed e => exact ⟨⟨e.id, h⟩, rfl, rfl⟩
  | _ => exact h.elim

end Phase

theorem promoting_cases (reserving : Bool) (promoted : Nat) (rest : List Entry) {p : Phase}
    (h : p ∈ (promoting reserving promoted rest).phase?) :
    (∃ entry rest', rest = entry :: rest' ∧ p = .undelaying reserving promoted entry rest') ∨
      rest = [] ∧ p = .taking := by
  cases rest with
  | cons entry rest' =>
    obtain rfl := Option.some.inj h
    exact .inl ⟨entry, rest', rfl, rfl⟩
  | nil =>
    cases reserving with
    | true =>
      obtain rfl := Option.some.inj h
      exact .inr ⟨rfl, rfl⟩
    | false => cases h

namespace Progress

@[simp] theorem reserved_promoting (reserving : Bool) (promoted : Nat) (rest : List Entry) :
    (promoting reserving promoted rest).reserved = [] := by
  cases rest <;> cases reserving <;> rfl

@[simp] theorem enqueued_promoting (reserving : Bool) (promoted : Nat) (rest : List Entry) :
    (promoting reserving promoted rest).enqueued = [] := by
  cases rest <;> cases reserving <;> rfl

@[simp] theorem completed_promoting (reserving : Bool) (promoted : Nat) (rest : List Entry) :
    (promoting reserving promoted rest).completed = [] := by
  cases rest <;> cases reserving <;> rfl

end Progress

namespace Contents

theorem entries_undelay_sublist (entry : Entry) (c : Contents) :
    (c.undelay entry).2.entries.Sublist c.entries := by
  refine (List.Sublist.refl _).append ((List.Sublist.refl _).append (.append ?_ (.refl _)))
  exact List.filter_sublist.map _

theorem mem_entries_of_delayed {entry : Entry} {c : Contents}
    (h : entry ∈ c.delayed.map Prod.snd) : entry ∈ c.entries :=
  List.mem_append_right _ (List.mem_append_right _ (List.mem_append_left _ h))

end Contents

namespace CommandState

/-- Everything in the queue and in the middle of operations is about known jobs, and an envelope
that is held counts the attempts that its bytes count at least. -/
structure Readable (state : CommandState) : Prop where
  queue : ∀ entry ∈ state.contents.entries, Known state.ids entry
  held : ∀ e ∈ state.held, state.ids.Drew e.id ∧ ∃ entry, e.stored = some entry ∧
    writtenId? entry = some e.id ∧ tries entry ≤ e.attempts
  midway : ∀ worker p, state.midway worker = some p → p.Known state.ids state.clock

theorem update_cases {midway : Nat → Option Phase} {worker other : Nat} {next : Option Phase}
    {p : Phase} (h : Function.update midway worker next other = some p) :
    other = worker ∧ p ∈ next ∨ other ≠ worker ∧ midway other = some p := by
  by_cases hsame : other = worker
  · subst hsame
    rw [Function.update_self] at h
    exact .inl ⟨rfl, h⟩
  · rw [Function.update_of_ne hsame] at h
    exact .inr ⟨hsame, h⟩

namespace Readable

variable {state : CommandState} {worker : Nat} {p : Phase} {progress : Progress} {c : Contents}
  {ids : IdSupply} {entry : Entry}

theorem changed (h : state.Readable) {state' : CommandState} {next : Option Phase}
    (hids : state.ids.next ≤ state'.ids.next) (hclock : state'.clock = state.clock)
    (hmidway : state'.midway = Function.update state.midway worker next)
    (hqueue : ∀ entry ∈ state'.contents.entries, entry ∈ state.contents.entries ∨
      Known state'.ids entry)
    (hheld : ∀ e ∈ state'.held, e ∈ state.held ∨ state'.ids.Drew e.id ∧
      ∃ entry, e.stored = some entry ∧ writtenId? entry = some e.id ∧ tries entry ≤ e.attempts)
    (hnext : ∀ p ∈ next, p.Known state'.ids state.clock) : state'.Readable where
  queue entry hentry := (hqueue entry hentry).elim (fun hold => (h.queue entry hold).mono hids) id
  held e he := (hheld e he).elim
    (fun hold => ⟨(h.held e hold).1.mono hids, (h.held e hold).2⟩) id
  midway other p hp := by
    rw [hclock]
    rw [hmidway] at hp
    rcases update_cases hp with ⟨-, hp⟩ | ⟨-, hp⟩
    · exact hnext p hp
    · exact (h.midway other p hp).mono hids le_rfl

theorem handsOutNone (h : state.Readable) (hids : ids = state.ids)
    (hreserved : progress.reserved = [])
    (hqueue : ∀ entry ∈ c.entries, entry ∈ state.contents.entries ∨ Known state.ids entry)
    (hnext : ∀ p ∈ progress.phase?, p.Known state.ids state.clock) :
    (state.advanced worker p progress c ids).Readable := by
  subst hids
  refine h.changed le_rfl rfl rfl hqueue (fun e he => .inl ?_) hnext
  rwa [CommandState.advanced, hreserved] at he

theorem known_promoting {reserving : Bool} {promoted : Nat} {rest : List Entry} {clock : Int}
    (hrest : ∀ entry ∈ rest, Known ids entry) :
    ∀ p ∈ (promoting reserving promoted rest).phase?, p.Known ids clock := by
  intro p hp
  rcases promoting_cases reserving promoted rest hp with ⟨entry, rest', rfl, rfl⟩ | ⟨-, rfl⟩
  · exact hrest
  · trivial

theorem took (h : state.Readable) {e : Envelope} (htake : state.contents.take = (some entry, c))
    (hread : Envelope.decode entry state.ids = (.ok e, ids)) :
    (state.advanced worker .taking (.ends (.reserved (.job e))) c ids).Readable := by
  have hperm := (Contents.take_eq_some htake).1
  have hmem : entry ∈ c.entries :=
    Contents.mem_entries_of_processing (by simp [(Contents.take_eq_some htake).2.1])
  obtain ⟨id, hwritten, hdrew⟩ := h.queue entry (hperm.mem_iff.1 hmem)
  obtain ⟨e', rfl, hstored, hall⟩ := Envelope.decode_of_writtenId? hwritten
  rw [hall] at hread
  obtain ⟨hsame, rfl⟩ := Prod.mk.inj hread
  obtain rfl := Except.ok.inj hsame
  refine h.changed le_rfl rfl rfl (fun other hother => .inl (hperm.mem_iff.1 hother))
    (fun other hother => ?_) (fun _ hnone => nomatch hnone)
  rcases List.mem_cons.1 hother with rfl | hold
  · exact .inr ⟨hdrew, entry, hstored, hwritten, (tries_of_decode hall).le⟩
  · exact .inl hold

theorem advanced (h : state.Readable) (hp : state.midway worker = some p)
    (hadvances : Advances state.clock state.contents state.ids p progress c ids) :
    (state.advanced worker p progress c ids).Readable := by
  have hknown := h.midway worker p hp
  cases hadvances with
  | listed =>
    refine h.handsOutNone rfl (by simp) (fun _ => .inl) (known_promoting fun entry hentry => ?_)
    obtain ⟨pair, hpair, rfl⟩ := List.mem_map.1 hentry
    exact h.queue _ (Contents.mem_entries_of_delayed
      (List.mem_map_of_mem (List.mem_filter.1 hpair).1))
  | won hmem =>
    refine h.handsOutNone rfl rfl (fun other hother => .inl ?_) fun next hnext => ?_
    · exact (Contents.entries_undelay_sublist _ _).subset hother
    · obtain rfl := Option.some.inj hnext
      exact hknown
  | lost =>
    exact h.handsOutNone rfl (by simp) (fun _ => .inl)
      (known_promoting fun other hother => hknown other (List.mem_cons_of_mem _ hother))
  | @pushed reserving promoted entry rest =>
    refine h.handsOutNone rfl (by simp) (fun other hother => ?_)
      (known_promoting fun other hother => hknown other (List.mem_cons_of_mem _ hother))
    rcases List.mem_cons.1 ((Contents.entries_pushReady _ _).mem_iff.1 hother) with rfl | hold
    · exact .inr (hknown other List.mem_cons_self)
    · exact .inl hold
  | foundNothing => exact h.handsOutNone rfl rfl (fun _ => .inl) fun _ hnone => nomatch hnone
  | took htake hread => exact h.took htake hread
  | @tookUnreadable entry _ _ _ htake hread =>
    have hperm := (Contents.take_eq_some htake).1
    have hmem : entry ∈ c.entries :=
      Contents.mem_entries_of_processing (by simp [(Contents.take_eq_some htake).2.1])
    obtain ⟨id, hwritten, -⟩ := h.queue entry (hperm.mem_iff.1 hmem)
    rw [Envelope.writtenId?_of_malformed hread] at hwritten
    cases hwritten
  | discarded => exact hknown.elim
  | completed =>
    exact h.handsOutNone rfl rfl
      (fun other hother => .inl ((Contents.entries_settle_sublist _ _).subset hother))
      fun _ hnone => nomatch hnone
  | settled =>
    refine h.handsOutNone rfl rfl
      (fun other hother => .inl ((Contents.entries_settle_sublist _ _).subset hother))
      fun next hnext => ?_
    obtain rfl := Option.some.inj hnext
    exact ⟨hknown.2.1, hknown.2.2.1⟩
  | rescheduled htarget =>
    refine h.handsOutNone rfl rfl (fun _ => .inl) fun next hnext => ?_
    obtain rfl := Option.some.inj hnext
    exact hknown
  | @added entry target answer =>
    obtain ⟨hentry, hreserved, -⟩ := hknown.of_adding
    refine h.handsOutNone rfl hreserved (fun other hother => ?_) fun _ hnone => nomatch hnone
    rcases ((target.adds entry state.contents).mem_entries other).1 hother with rfl | hold
    · exact .inr hentry
    · exact .inl hold

theorem mem_letsGo {request : Request} {held : List Envelope} {e : Envelope}
    (h : e ∈ request.letsGo held) : e ∈ held := by
  cases request with
  | complete _ => exact (List.mem_filter.1 h).1
  | fail _ _ _ => exact (List.mem_filter.1 h).1
  | _ => exact h

theorem mem_unrecorded {request : Request} {held : List Envelope} {e : Envelope}
    (h : e ∈ request.unrecorded held) :
    e ∈ held ∨ ∃ e₀ error retry, request = .fail e₀ error retry ∧ e = e₀.failed error := by
  cases request with
  | fail e₀ error retry =>
    rcases List.mem_cons.1 h with rfl | h
    · exact .inr ⟨e₀, error, retry, rfl, rfl⟩
    · exact .inl (List.mem_filter.1 h).1
  | _ => exact .inl h

/-- The bytes by which an envelope that is held is known are the ones from which it was read. -/
theorem bytes (h : state.Readable) {e : Envelope} (he : e ∈ state.held)
    (hbytes : e.bytes? = some entry) : state.ids.Drew e.id ∧ e.stored = some entry ∧
      writtenId? entry = some e.id ∧ tries entry ≤ e.attempts := by
  obtain ⟨hdrew, stored, hstored, hwritten, htries⟩ := h.held e he
  rw [Envelope.bytes?, hstored, Option.some_or] at hbytes
  obtain rfl := Option.some.inj hbytes
  exact ⟨hdrew, hstored, hwritten, htries⟩

theorem known_of_begins (h : state.Readable) {request : Request}
    (hallowed : state.Allowed Holds (.begin worker request))
    (hbegins : request.Begins state.clock state.ids p ids) :
    state.ids.next ≤ ids.next ∧ p.Known ids state.clock := by
  cases hbegins with
  | enqueue he hentry =>
    have hdrew := state.ids.drew_draw
    subst he
    exact ⟨draw_next _, Envelope.writtenId?_of_encode? hentry hdrew.ne_empty, hdrew⟩
  | promoteDue => exact ⟨le_rfl, le_rfl⟩
  | reserve => exact ⟨le_rfl, le_rfl⟩
  | complete hbytes =>
    obtain ⟨hdrew, -, hwritten, -⟩ := h.bytes hallowed.2 hbytes
    exact ⟨le_rfl, hwritten, hdrew⟩
  | @fail e error _ _ _ hbytes hentry =>
    obtain ⟨hdrew, -, hwritten, htries⟩ := h.bytes hallowed.2 hbytes
    have hid : (e.failed error).id ≠ "" := hdrew.ne_empty
    refine ⟨le_rfl, hwritten, Envelope.writtenId?_of_encode? hentry hid, hdrew, ?_⟩
    rw [tries_of_encode? hentry hid]
    exact Int.lt_add_one_of_le htries

theorem begin (h : state.Readable) {request : Request}
    (hallowed : state.Allowed Holds (.begin worker request)) :
    (state.begin worker request).Readable := by
  rcases state.begin_begins worker request with ⟨p, ids, hbegin, hbegins⟩ | ⟨ids, hbegin, hids⟩
  · rw [hbegin]
    obtain ⟨hids, hknown⟩ := h.known_of_begins hallowed hbegins
    refine h.changed hids rfl rfl (fun _ => .inl) (fun e he => .inl (mem_letsGo he))
      fun p' hp' => ?_
    obtain rfl := Option.some.inj hp'
    exact hknown
  · rw [hbegin]
    refine ⟨fun entry hentry => (h.queue entry hentry).mono hids, fun e he => ?_,
      fun other p hp => (h.midway other p hp).mono hids le_rfl⟩
    rcases mem_unrecorded he with hold | ⟨e₀, error, retry, rfl, rfl⟩
    · exact ⟨(h.held e hold).1.mono hids, (h.held e hold).2⟩
    · obtain ⟨hdrew, entry, hstored, hwritten, htries⟩ := h.held e₀ hallowed.2
      exact ⟨hdrew.mono hids, entry, hstored, hwritten, htries.trans (Int.lt_succ _).le⟩

theorem step (h : state.Readable) {step : Step} (hallowed : state.Allowed Holds step) :
    (state.step step).Readable := by
  cases step with
  | wait time =>
    exact ⟨h.queue, h.held, fun worker p hp =>
      (h.midway worker p hp).mono le_rfl (Int.le_add_of_nonneg_right (Int.natCast_nonneg time))⟩
  | begin worker request => exact h.begin hallowed
  | carryOn worker =>
    rw [CommandState.step]
    rcases state.carryOn_cases worker with hcarry | ⟨p, progress, c, ids, hp, hcarry, hadvances⟩
    · rwa [hcarry]
    · rw [hcarry]
      exact h.advanced hp hadvances

end Readable

end CommandState
end SignalCoach.Queue
