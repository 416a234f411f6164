import SignalCoach.Proofs.ClearQueue

/-! The operations of the queue, command by command. Workers that share a queue take turns at single
commands, so between two commands of one operation any other may be carried out. The phases of an
operation, one right after the other, are the operation. -/
namespace SignalCoach.Queue

open SignalCoach.Queue.Action

inductive Target where
  | ready
  | failed
  | delayed (due : Int)

def Target.add (entry : Entry) : Target → Contents → Contents
  | ready => Contents.pushReady entry
  | failed => Contents.pushFailed entry
  | delayed due => Contents.delay due entry

def Target.command (entry : Entry) : Target → Action Unit
  | delayed due => delay due entry
  | target => perform (target.add entry)

@[simp] theorem Target.command_ready (entry : Entry) :
    Target.ready.command entry = perform (Contents.pushReady entry) := rfl

@[simp] theorem Target.command_failed (entry : Entry) :
    Target.failed.command entry = perform (Contents.pushFailed entry) := rfl

@[simp] theorem Target.command_delayed (entry : Entry) (due : Int) :
    (Target.delayed due).command entry = delay due entry := rfl

inductive Answer where
  | enqueued (e : Envelope)
  | promoted (count : Nat)
  | reserved (reservation : Reservation)
  | completed (e : Envelope)
  | failed (delayed : Bool) (e : Envelope)

/-- What is next in the middle of an operation: one command, or to read the clock. What promotes
entries goes on to take one if it is `reserving`. -/
inductive Phase where
  | listing (reserving : Bool) (now : Int)
  /-- An entry that was listed is taken off the schedule, if it is still there. -/
  | undelaying (reserving : Bool) (promoted : Nat) (entry : Entry) (rest : List Entry)
  | pushing (reserving : Bool) (promoted : Nat) (entry : Entry) (rest : List Entry)
  | taking
  /-- An entry that cannot be read leaves processing. -/
  | discarding (entry : Entry)
  | completing (e : Envelope) (entry : Entry)
  /-- The bytes before a failed attempt leave processing, those after it wait for their place. -/
  | failing (e : Envelope) (before entry : Entry) (retry : Bool)
  | rescheduling (e : Envelope) (entry : Entry) (retry : Bool)
  | adding (entry : Entry) (target : Target) (answer : Answer)

inductive Progress where
  | goesOn (p : Phase)
  | ends (answer : Answer)

def promoting (reserving : Bool) (promoted : Nat) : List Entry → Progress
  | entry :: rest => .goesOn (.undelaying reserving promoted entry rest)
  | [] => if reserving then .goesOn .taking else .ends (.promoted promoted)

namespace Phase

def carryOut (clock : Int) : Phase → Action Progress
  | listing reserving now => do pure (promoting reserving 0 (← ask (Contents.due now)))
  | undelaying reserving promoted entry rest => do
    if ← command (Contents.undelay entry) then
      pure (.goesOn (.pushing reserving promoted entry rest))
    else pure (promoting reserving promoted rest)
  | pushing reserving promoted entry rest => do
    perform (Contents.pushReady entry)
    pure (promoting reserving (promoted + 1) rest)
  | taking => do
    match ← command Contents.take with
    | none => pure (.ends (.reserved .nothing))
    | some entry =>
      match ← decode entry with
      | .ok e => pure (.ends (.reserved (.job e)))
      | .error _ => pure (.goesOn (.discarding entry))
  | discarding entry => do
    perform (Contents.settle entry)
    pure (.goesOn (.adding entry .failed (.reserved .unreadable)))
  | completing e entry => do
    perform (Contents.settle entry)
    pure (.ends (.completed e))
  | failing e before entry retry => do
    perform (Contents.settle before)
    pure (.goesOn (.rescheduling e entry retry))
  | rescheduling e entry retry =>
    let delayed := retry && !e.exhausted
    let target := if delayed then .delayed (clock + e.retryDelay) else .failed
    pure (.goesOn (.adding entry target (.failed delayed { e with stored := some entry })))
  | adding entry target answer => do
    target.command entry
    pure (.ends answer)

def finishPromotion (reserving : Bool) (promoted : Nat) (rest : List Entry) : Action Answer := do
  let more ← promote rest
  if reserving then return .reserved (← openedOrNothing (← command Contents.take))
  else return .promoted (promoted + more)

def finish (clock : Int) : Phase → Action Answer
  | listing reserving now => do finishPromotion reserving 0 (← ask (Contents.due now))
  | undelaying reserving promoted entry rest => finishPromotion reserving promoted (entry :: rest)
  | pushing reserving promoted entry rest => do
    perform (Contents.pushReady entry)
    finishPromotion reserving (promoted + 1) rest
  | taking => do return .reserved (← openedOrNothing (← command Contents.take))
  | discarding entry => do
    perform (Contents.settle entry)
    perform (Contents.pushFailed entry)
    return .reserved .unreadable
  | completing e entry => do
    perform (Contents.settle entry)
    return .completed e
  | failing e before entry retry => do
    perform (Contents.settle before)
    return .failed (← reschedule clock e entry retry) { e with stored := some entry }
  | rescheduling e entry retry => do
    return .failed (← reschedule clock e entry retry) { e with stored := some entry }
  | adding entry target answer => do
    target.command entry
    return answer

end Phase

def Progress.finish (clock : Int) : Progress → Action Answer
  | goesOn p => p.finish clock
  | ends answer => pure answer

inductive Request where
  | enqueue (name : String) (data : Fields) (maxAttempts backoff delay : Int)
  | promoteDue
  | reserve
  | complete (e : Envelope)
  | fail (e : Envelope) (error : String) (retry : Bool)

namespace Request

def begin (now : Int) : Request → Action Phase
  | enqueue name data maxAttempts backoff delay => do
    let id ← freshId
    let envelope : Envelope :=
      { name, data, id, maxAttempts := max 1 maxAttempts, backoff, enqueuedAt := now }
    let entry ← encode envelope
    let target := if 0 < delay then .delayed (now + delay) else .ready
    return .adding entry target (.enqueued envelope)
  | promoteDue => return .listing false now
  | reserve => return .listing true now
  | complete e => do return .completing e (← held e)
  | fail e error retry => do
    let before ← held e
    return .failing (e.failed error) before (← encode (e.failed error)) retry

def perform (now : Int) : Request → Action Answer
  | enqueue name data maxAttempts backoff delay =>
    .enqueued <$> Queue.enqueue now name data maxAttempts backoff delay
  | promoteDue => .promoted <$> Queue.promoteDue now
  | reserve => .reserved <$> Queue.reserve now
  | complete e => (fun _ => .completed e) <$> Queue.complete e
  | fail e error retry => (fun answer => .failed answer.1 answer.2) <$> Queue.fail now e error retry

end Request

theorem finish_promoting (clock : Int) (reserving : Bool) (promoted : Nat) (rest : List Entry) :
    (promoting reserving promoted rest).finish clock =
      Phase.finishPromotion reserving promoted rest := by
  cases rest with
  | nil =>
    cases reserving <;>
      simp [promoting, Progress.finish, Phase.finish, Phase.finishPromotion, promote]
  | cons entry rest => rfl

theorem Phase.finish_eq (clock : Int) (p : Phase) :
    p.finish clock = p.carryOut clock >>= Progress.finish clock := by
  cases p with
  | listing reserving now => simp [finish, carryOut, finish_promoting]
  | undelaying reserving promoted entry rest =>
    simp only [finish, carryOut, finishPromotion, promote, bind_assoc]
    refine bind_congr fun found => ?_
    cases found with
    | false => simp [finish_promoting, finishPromotion]
    | true => simp [Progress.finish, finish, finishPromotion, Nat.add_right_comm, ← Nat.add_assoc]
  | pushing reserving promoted entry rest => simp [finish, carryOut, finish_promoting]
  | taking =>
    simp only [finish, carryOut, bind_assoc]
    refine bind_congr fun found => ?_
    cases found with
    | none => simp [openedOrNothing, Progress.finish]
    | some entry =>
      simp only [openedOrNothing, opened, bind_assoc]
      refine bind_congr fun outcome => ?_
      cases outcome <;> simp [Progress.finish, finish]
  | discarding entry => simp [finish, carryOut, Progress.finish]
  | completing e entry => simp [finish, carryOut, Progress.finish]
  | failing e before entry retry => simp [finish, carryOut, Progress.finish]
  | rescheduling e entry retry =>
    cases hdelayed : retry && !e.exhausted <;>
      simp [finish, carryOut, Progress.finish, reschedule, hdelayed]
  | adding entry target answer => simp [finish, carryOut, Progress.finish]

inductive Advances (clock : Int) (c : Contents) (ids : IdSupply) :
    Phase → Progress → Contents → IdSupply → Prop where
  | listed {reserving : Bool} {now : Int} :
    Advances clock c ids (.listing reserving now) (promoting reserving 0 (c.due now)) c ids
  | won {reserving : Bool} {promoted : Nat} {entry : Entry} {rest : List Entry}
      (h : entry ∈ c.delayed.map Prod.snd) :
    Advances clock c ids (.undelaying reserving promoted entry rest)
      (.goesOn (.pushing reserving promoted entry rest)) (c.undelay entry).2 ids
  | lost {reserving : Bool} {promoted : Nat} {entry : Entry} {rest : List Entry} :
    Advances clock c ids (.undelaying reserving promoted entry rest)
      (promoting reserving promoted rest) c ids
  | pushed {reserving : Bool} {promoted : Nat} {entry : Entry} {rest : List Entry} :
    Advances clock c ids (.pushing reserving promoted entry rest)
      (promoting reserving (promoted + 1) rest) (c.pushReady entry) ids
  | foundNothing : Advances clock c ids .taking (.ends (.reserved .nothing)) c ids
  | took {entry : Entry} {e : Envelope} {c' : Contents} {ids' : IdSupply}
      (htake : c.take = (some entry, c')) (hread : Envelope.decode entry ids = (.ok e, ids')) :
    Advances clock c ids .taking (.ends (.reserved (.job e))) c' ids'
  | tookUnreadable {entry : Entry} {m : Envelope.Malformed} {c' : Contents} {ids' : IdSupply}
      (htake : c.take = (some entry, c')) (hread : Envelope.decode entry ids = (.error m, ids')) :
    Advances clock c ids .taking (.goesOn (.discarding entry)) c' ids'
  | discarded {entry : Entry} :
    Advances clock c ids (.discarding entry)
      (.goesOn (.adding entry .failed (.reserved .unreadable))) (c.settle entry) ids
  | completed {e : Envelope} {entry : Entry} :
    Advances clock c ids (.completing e entry) (.ends (.completed e)) (c.settle entry) ids
  | settled {e : Envelope} {before entry : Entry} {retry : Bool} :
    Advances clock c ids (.failing e before entry retry) (.goesOn (.rescheduling e entry retry))
      (c.settle before) ids
  | rescheduled {e : Envelope} {entry : Entry} {retry delayed : Bool} {target : Target}
      (htarget : target = if delayed then .delayed (clock + e.retryDelay) else .failed) :
    Advances clock c ids (.rescheduling e entry retry)
      (.goesOn (.adding entry target (.failed delayed { e with stored := some entry }))) c ids
  | added {entry : Entry} {target : Target} {answer : Answer} :
    Advances clock c ids (.adding entry target answer) (.ends answer) (target.add entry c) ids

theorem Phase.carryOut_adding (clock : Int) (c : Contents) (ids : IdSupply) (entry : Entry)
    (target : Target) (answer : Answer) :
    carryOut clock (adding entry target answer) { contents := c, ids } =
        .ok (.ends answer) { contents := target.add entry c, ids } ∨
      ∃ fault b, carryOut clock (adding entry target answer) { contents := c, ids } =
        .error fault b := by
  rw [carryOut, Program.bind_apply]
  cases target with
  | ready => exact .inl rfl
  | failed => exact .inl rfl
  | delayed due =>
    rw [Target.command_delayed]
    cases hprintable : Text.isPrintable due with
    | true =>
      rw [delay_of_printable entry hprintable]
      exact .inl rfl
    | false =>
      rw [delay_of_not_printable entry hprintable]
      exact .inr ⟨_, _, rfl⟩

theorem Phase.carryOut_advances (clock : Int) (c : Contents) (ids : IdSupply) (p : Phase) :
    (∃ progress c' ids', p.carryOut clock { contents := c, ids } =
        .ok progress { contents := c', ids := ids' } ∧
      Advances clock c ids p progress c' ids') ∨
    ∃ fault b, p.carryOut clock { contents := c, ids } = .error fault b := by
  cases p with
  | listing reserving now => exact .inl ⟨_, _, _, rfl, .listed⟩
  | undelaying reserving promoted entry rest =>
    rw [carryOut, Program.bind_apply, command_of_next rfl]
    by_cases hmem : entry ∈ c.delayed.map Prod.snd
    · refine .inl ⟨_, _, _, ?_, .won hmem⟩
      simp only [undelay_found hmem, if_true]
      rfl
    · refine .inl ⟨_, _, _, ?_, .lost⟩
      simp only [if_neg (undelay_missing hmem)]
      rw [Contents.undelay, Contents.without_of_notMem hmem]
      rfl
  | pushing reserving promoted entry rest => exact .inl ⟨_, _, _, rfl, .pushed⟩
  | taking =>
    rw [carryOut, Program.bind_apply, command_of_next rfl]
    rcases htake : c.take with ⟨_ | entry, c'⟩
    · obtain rfl := Contents.take_eq_none htake
      exact .inl ⟨_, _, _, rfl, .foundNothing⟩
    · simp only
      rw [Program.bind_apply, Action.decode]
      rcases hread : Envelope.decode entry ids with ⟨m | e, ids'⟩
      · exact .inl ⟨_, _, _, rfl, .tookUnreadable htake hread⟩
      · exact .inl ⟨_, _, _, rfl, .took htake hread⟩
  | discarding entry => exact .inl ⟨_, _, _, rfl, .discarded⟩
  | completing e entry => exact .inl ⟨_, _, _, rfl, .completed⟩
  | failing e before entry retry => exact .inl ⟨_, _, _, rfl, .settled⟩
  | rescheduling e entry retry => exact .inl ⟨_, _, _, rfl, .rescheduled rfl⟩
  | adding entry target answer =>
    exact (carryOut_adding clock c ids entry target answer).imp_left
      fun hadded => ⟨_, _, _, hadded, .added⟩

/-- An operation is what comes before its first phase, and then all of its phases. -/
theorem Request.perform_eq (now : Int) (request : Request) :
    request.perform now = request.begin now >>= Phase.finish now := by
  cases request with
  | enqueue name data maxAttempts backoff delay =>
    by_cases hdelay : 0 < delay <;>
      simp [perform, begin, Queue.enqueue, Phase.finish, hdelay]
  | promoteDue => simp [perform, begin, Queue.promoteDue, Phase.finish, Phase.finishPromotion]
  | reserve =>
    simp [perform, begin, Queue.reserve, take, Queue.promoteDue, Phase.finish,
      Phase.finishPromotion]
  | complete e => simp [perform, begin, Queue.complete, Phase.finish]
  | fail e error retry => simp [perform, begin, Queue.fail, Phase.finish]

end SignalCoach.Queue
