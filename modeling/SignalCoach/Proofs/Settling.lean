import SignalCoach.Proofs.ClearQueue
import SignalCoach.Proofs.EnvelopeRetry
import SignalCoach.Proofs.Phases
import SignalCoach.Proofs.TurnFrames
import SignalCoach.Proofs.WorkerRun

/-! The settling of what the queue hands out. Whatever the handler makes of a job, and whatever the
other tasks do while the processing waits, an envelope that can be written once more, and the due time
of whose retry can be written, is settled once: its payload leaves processing, and the job is dropped,
delayed or laid aside. -/
namespace SignalCoach

/-- The due time of its retry can be written, whatever a clock of one word shows. -/
def Envelope.Punctual (e : Envelope) : Prop :=
  ∀ clock, isWord clock = true → Queue.untimely clock (e.failed "") true = false

def Envelope.SameJob (e : Envelope) (entry : Entry) : Prop :=
  ∀ ids, ∃ e', Envelope.decode entry ids = (.ok e', ids) ∧
    e'.id = e.id ∧ e'.name = e.name ∧ e'.data = e.data

/-- A payload leaves processing. Its job is dropped, or goes on as one entry that is delayed or laid
aside. -/
inductive Queue.Contents.Settles (entry : Entry) (e : Envelope) (c : Contents) : Contents → Prop where
  | dropped : Settles entry e c (c.settle entry)
  | delayed {entry' : Entry} (due : Int) (h : e.SameJob entry') :
      Settles entry e c ((c.settle entry).delay due entry')
  | laidAside {entry' : Entry} (h : e.SameJob entry') :
      Settles entry e c ((c.settle entry).pushFailed entry')

namespace Worker

structure Tally where
  queue : Queue.Contents
  outage : Queue.Outage
  envelopes : List (Slot × Envelope)
  processed : Nat
  failed : Nat
  clock : Int

def World.tally (w : World) : Tally where
  queue := w.broker.contents
  outage := w.broker.outage
  envelopes := w.envelopes
  processed := w.processed
  failed := w.failed
  clock := w.clock

namespace Turn

end Turn

abbrev Handler := Delivery → Turn (Except String JobResult)

namespace Turn

section Handlers

variable (handler : Handler) (id : TaskId) (slot : Slot)

def carryOutBy (e : Envelope) (d : Delivery) : Turn Progress := do
  let outcome ← handler d
  unlock d.job.sessionId
  match outcome with
  | .ok result => afterResult id slot e d.job result
  | .error error => afterFailure id slot e d.job error

def loadBy (e : Envelope) (d : Delivery) : Turn Progress := do
  note (.load d.job.sessionId)
  let delay := (← get).config.gatewayDelay
  if delay = 0 then carryOutBy handler id slot e d
  else
    sleep id delay
    pure (.suspended (.loading d))

def enterBy (e : Envelope) : Turn Progress := do
  if !handledNames.contains e.name then reject slot e ("Unknown job name: " ++ e.name)
  else
    match jobOf e with
    | none => reject slot e invalidData
    | some job =>
      let d : Delivery := { envelope := e.id, job }
      if ← lock id job.sessionId then loadBy handler id slot e d
      else pure (.suspended (.locking d))

def proceedBy (stage : Stage) : Turn Progress := do
  match ← envelope? slot with
  | none => pure (.finished (.ok none))
  | some e =>
    match stage with
    | .entering => enterBy handler id slot e
    | .locking d =>
      lockAfterWait id d.job.sessionId
      loadBy handler id slot e d
    | .loading d => carryOutBy handler id slot e d
    | .halting settlement => settle slot e settlement

def evaluation : Handler := fun d => do pure ((← handle d).mapError Failure.text)

theorem evaluation_maintains (d : Delivery) : Maintains World.unrecorded (evaluation d) :=
  .bind (handle_maintains d) fun _ => .answer _

theorem carryOutBy_evaluation : carryOutBy evaluation id slot = carryOut id slot := by
  funext e d
  unfold carryOutBy carryOut evaluation
  rw [bind_assoc]
  refine bind_congr fun outcome => ?_
  rw [pure_bind]
  refine bind_congr fun _ => ?_
  cases outcome <;> rfl

theorem proceedBy_evaluation : proceedBy evaluation = proceed := by
  have hload : loadBy evaluation = load := by
    funext id slot e d
    unfold loadBy load
    rw [carryOutBy_evaluation]
  have henter : enterBy evaluation = enter := by
    funext id slot e
    unfold enterBy enter
    rewrite [hload]
    rfl
  funext id slot stage
  unfold proceedBy proceed
  rewrite [hload, henter, carryOutBy_evaluation]
  rfl

end Handlers
end Turn

/-- The counts that a stage still owes. A failure is counted before its heartbeat is halted. -/
def Stage.owed : Stage → Nat
  | .halting (.fail _) => 0
  | _ => 1

def Stage.waits : Stage → Nat
  | .entering => 3
  | .locking _ => 2
  | .loading _ => 1
  | .halting _ => 0

/-- What a turn of the processing comes to. One that waits does so for a job that may be retried, and
leaves the queue alone; one that ends settles the payload. None raises. -/
def Comes (entry : Entry) (e : Envelope) (owed waits : Nat) (t : Tally) : Progress → Tally → Prop
  | .suspended stage, t' => e.Punctual ∧ stage.waits < waits ∧
      t'.processed + t'.failed + stage.owed = t.processed + t.failed + owed ∧
      t' = { t with processed := t'.processed, failed := t'.failed }
  | .finished (.ok _), t' => t.queue.Settles entry e t'.queue ∧
      t'.processed + t'.failed = t.processed + t.failed + owed
  | .finished (.error _), _ => False

/-- A failure that was counted before pays for a count that is owed. -/
theorem Comes.counted {entry : Entry} {e : Envelope} {owed waits : Nat} {t t' : Tally} {p : Progress}
    (h : Comes entry e owed waits { t with failed := t.failed + 1 } p t') :
    Comes entry e (owed + 1) waits t p t' := by
  match p with
  | .suspended stage =>
    obtain ⟨hpunctual, hlater, hcount, hsame⟩ := h
    refine ⟨hpunctual, hlater, ?_, hsame⟩
    rw [hcount]
    ring
  | .finished (.ok result) =>
    refine ⟨h.1, ?_⟩
    rw [h.2]
    ring
  | .finished (.error fault) => exact h

def Settling (entry : Entry) (e : Envelope) (owed waits : Nat) (x : Turn Progress) : Prop :=
  ∀ w, w.broker.Clear → isWord w.clock = true →
    Comes entry e owed waits w.tally (x.run w).1 (x.run w).2.tally

namespace Settling

variable {entry : Entry} {e : Envelope} {owed waits : Nat}

theorem after {x : Turn α} {f : α → Turn Progress} (hx : Maintains World.tally x)
    (hf : ∀ a, Settling entry e owed waits (f a)) : Settling entry e owed waits (x >>= f) := by
  intro w hclear hclock
  have hsame : (x.run w).2.tally = w.tally := hx w
  have hclear' : (x.run w).2.broker.Clear :=
    (congrArg (fun t : Tally => t.outage.count) hsame).trans hclear
  have hclock' : (x.run w).2.clock = w.clock := congrArg Tally.clock hsame
  have hcomes := hf (x.run w).1 (x.run w).2 hclear' (hclock'.symm ▸ hclock)
  rw [hsame] at hcomes
  exact hcomes

theorem ite {c : Prop} [Decidable c] {x y : Turn Progress} (hx : Settling entry e owed waits x)
    (hy : Settling entry e owed waits y) : Settling entry e owed waits (if c then x else y) := by
  split
  · exact hx
  · exact hy

theorem look {f : World → Turn Progress} (hf : ∀ w, Settling entry e owed waits (f w)) :
    Settling entry e owed waits (get >>= f) := after (fun _ => rfl) hf

theorem wait {stage : Stage} (hpunctual : e.Punctual) (howed : stage.owed = owed)
    (hwaits : stage.waits < waits) : Settling entry e owed waits (pure (.suspended stage)) :=
  fun _ _ _ => ⟨hpunctual, hwaits, howed ▸ rfl, rfl⟩

theorem counted {x : Turn Progress} (hx : Settling entry e owed waits x) :
    Settling entry e (owed + 1) waits (Turn.countFailed >>= fun _ => x) :=
  fun w hclear hclock => (hx { w with failed := w.failed + 1 } hclear hclock).counted

end Settling

namespace Turn

variable {entry : Entry} {e : Envelope} {ids ids' : IdSupply}

section Settling

variable {waits : Nat} {handler : Handler} (id : TaskId) (slot : Slot)
variable (hread : Envelope.decode entry ids = (.ok e, ids')) (hrewritable : e.Rewritable)

include hread hrewritable

variable (hhandler : ∀ d, Maintains World.tally (handler d))

include hhandler

end Settling

end Turn

def counted (turns : List (World × World)) : Int :=
  (turns.map fun turn =>
    (turn.2.processed + turn.2.failed : Int) - (turn.1.processed + turn.1.failed)).sum

section Processing

variable {handler : Handler} {meanwhile : Stage → World → World} {id : TaskId} {slot : Slot}
variable {entry : Entry} {e : Envelope} {ids ids' : IdSupply}

end Processing

section Raising

open Turn

variable {entry : Entry} {e : Envelope} {w : World} {fault : Queue.Fault} (id : TaskId) (slot : Slot)

def failing : Handler := fun _ => pure (.error "")

end Raising

end Worker

end SignalCoach
