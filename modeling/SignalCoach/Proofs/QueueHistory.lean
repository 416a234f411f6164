import SignalCoach.Proofs.DrawnIds
import SignalCoach.Proofs.QueueJobs
import SignalCoach.Proofs.Runs

/-! Runs of the queue's operations in any order, and what is known about their jobs. -/
namespace SignalCoach.Queue

inductive Operation where
  | enqueue (now : Int) (name : String) (data : Fields) (maxAttempts backoff delay : Int)
  | promoteDue (now : Int)
  | reserve (now : Int)
  | reserveAfterWait
  | complete (e : Envelope)
  | fail (now : Int) (e : Envelope) (error : String) (retry : Bool)
  | recoverStalled

/-- The queue after some steps, with a record of them. -/
structure History where
  broker : Broker := {}
  /-- The ids of the jobs whose enqueueing returned. -/
  enqueued : List String := []
  /-- The ids of the jobs that were removed when they were complete. -/
  completed : List String := []
  /-- Every envelope that anybody was given. -/
  given : List Envelope := []
  /-- The envelopes of the jobs that were reserved, and neither settled nor recovered since. -/
  reserved : List Envelope := []
  /-- The envelopes of reserved jobs that somebody still holds. -/
  held : List Envelope := []

inductive Step where
  /-- An operation, and the refusals it meets. -/
  | operate (outage : Outage) (operation : Operation)
  /-- Whoever held a job is gone. -/
  | letGo (id : String)
  /-- An id is drawn for something else. -/
  | draw

namespace History

abbrev contents (h : History) : Contents := h.broker.contents

def act (h : History) (outage : Outage) (action : Action α) (done : History → α → History)
    (refused : History → History) : History :=
  Program.outcome action { h.broker with outage } (fun a broker => done { h with broker } a)
    fun broker => refused { h with broker }

def noteEnqueued (h : History) (e : Envelope) : History :=
  { h with enqueued := e.id :: h.enqueued, given := e :: h.given }

def noteReserved (h : History) : Reservation → History
  | .job e => { h with given := e :: h.given, reserved := e :: h.reserved, held := e :: h.held }
  | _ => h

def release (h : History) (id : String) : History :=
  { h with reserved := h.reserved.filter (·.id ≠ id), held := h.held.filter (·.id ≠ id) }

def noteCompleted (h : History) (e : Envelope) (removed : Bool) : History :=
  { h.release e.id with completed := if removed then e.id :: h.completed else h.completed }

def noteFailed (h : History) (before after : Envelope) : History :=
  { h.release before.id with given := after :: h.given }

def noteUnrecorded (h : History) (before after : Envelope) : History :=
  { h with given := after :: h.given,
           held := after :: h.held.filter (·.id ≠ before.id) }

def operate (h : History) (outage : Outage) : Operation → History
  | .enqueue now name data maxAttempts backoff delay =>
    h.act outage (enqueue now name data maxAttempts backoff delay) noteEnqueued id
  | .promoteDue now => h.act outage (promoteDue now) (fun h _ => h) id
  | .reserve now => h.act outage (reserve now) noteReserved id
  | .reserveAfterWait => h.act outage reserveAfterWait noteReserved id
  | .complete e =>
    let removed := e.bytes?.any h.contents.processing.contains
    h.act outage (complete e) (fun h _ => h.noteCompleted e removed) id
  | .fail now e error retry =>
    h.act outage (fail now e error retry) (fun h answer => h.noteFailed e answer.2)
      (·.noteUnrecorded e (e.failed error))
  | .recoverStalled => h.act outage recoverStalled (fun h _ => { h with reserved := [] }) id

def step (h : History) : Step → History
  | .operate outage operation => h.operate outage operation
  | .letGo id => { h with held := h.held.filter (·.id ≠ id) }
  | .draw => { h with broker := { h.broker with ids := h.broker.ids.draw.2 } }

def run (h : History) (steps : List Step) : History := steps.foldl step h

def start (contents : Contents) (ids : IdSupply) : History := { broker := { contents, ids } }

abbrev Follows (allowed : History → Step → Prop) (h : History) (steps : List Step) : Prop :=
  SignalCoach.Follows step allowed h steps

/-- An action of which nothing is recorded leaves the queue behind, however it ends. -/
theorem act_eq_after (h : History) (outage : Outage) (action : Action α) :
    h.act outage action (fun h _ => h) id =
      { h with broker := action.after { h.broker with outage } } := by
  unfold act Program.outcome Action.after
  cases action { h.broker with outage } <;> rfl

def reservation : List Step :=
  [.operate {} (.enqueue 0 evaluateName [] 3 1000 0), .operate {} (.reserve 0)]

theorem reservation_held : ((start {} {}).run reservation).held ≠ [] := by
  have hlength : ((start {} {}).run reservation).held.length = 1 := by decide +kernel
  exact List.ne_nil_of_length_pos (by omega)

theorem operate_enqueue_held (h : History) (outage : Outage) (now : Int) (name : String)
    (data : Fields) (maxAttempts backoff delay : Int) :
    (h.operate outage (.enqueue now name data maxAttempts backoff delay)).held = h.held := by
  rw [operate]
  exact Program.outcome_cases (P := fun h' : History => h'.held = h.held) (fun _ _ _ => rfl) (fun _ _ _ => rfl)

theorem operate_reserve_given {h : History} (hempty : h.held = []) (outage : Outage) (now : Int) :
    ∀ e ∈ (h.operate outage (.reserve now)).held,
      e ∈ (h.operate outage (.reserve now)).given := by
  rw [operate]
  refine Program.outcome_cases (P := fun h' : History => ∀ e ∈ h'.held, e ∈ h'.given) (fun found b _ => ?_)
    (fun _ b _ => by simp [hempty])
  cases found with
  | job e => simp [noteReserved, hempty]
  | _ => simp [noteReserved, hempty]

theorem reservation_given :
    ∀ e ∈ ((start {} {}).run reservation).held, e ∈ ((start {} {}).run reservation).given := by
  rw [run, reservation, List.foldl_cons, List.foldl_cons, List.foldl_nil, step, step]
  exact operate_reserve_given (operate_enqueue_held _ _ _ _ _ _ _ _) _ _

def reservedJob : Envelope := ((start {} {}).run reservation).held.head reservation_held

theorem reservedJob_held : reservedJob ∈ ((start {} {}).run reservation).held :=
  List.head_mem _

end History

end SignalCoach.Queue
