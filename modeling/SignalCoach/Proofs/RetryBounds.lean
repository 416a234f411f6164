import SignalCoach.Proofs.EnvelopeRetry
import SignalCoach.Proofs.JobPlaces
import SignalCoach.Proofs.QueueCustody

/-! The retries of a job: there are no more attempts at it than it was given, and it is not handed out
again before its backoff is over. -/
namespace SignalCoach

namespace Envelope

structure Attempt (e₀ : Envelope) (failures : Nat) (e : Envelope) : Prop where
  id : e.id = e₀.id
  attempts : e.attempts = failures
  maxAttempts : e.maxAttempts = e₀.maxAttempts
  backoff : e.backoff = e₀.backoff
  enqueuedAt : e.enqueuedAt = e₀.enqueuedAt
  depth : (Value.obj e.data).depth < Json.maxWrittenDepth

def Writes (entry : Entry) (e₀ : Envelope) (failures : Nat) : Prop :=
  ∃ e, e₀.Attempt failures e ∧ ∀ ids, decode entry ids = (.ok e, ids)

variable {e₀ e : Envelope} {entry : Entry} {failures : Nat}

theorem words_of_encode? (h : e.encode? = some entry) :
    isWord e.maxAttempts = true ∧ isWord e.backoff = true ∧ isWord e.enqueuedAt = true ∧
      (Value.obj e.data).depth < Json.maxWrittenDepth := by
  obtain ⟨rest, hdocument⟩ : ∃ rest, e.document = .obj (
      (.text "id", .str e.id) :: (.text "name", .str e.name) :: (.text "data", .obj e.data) ::
      (.text "attempts", .int e.attempts) :: (.text "max_attempts", .int e.maxAttempts) ::
      (.text "backoff_ms", .int e.backoff) :: (.text "enqueued_at", .int e.enqueuedAt) :: rest) := by
    unfold document
    cases e.lastError <;> exact ⟨_, rfl⟩
  unfold encode? Json.write? at h
  rw [hdocument] at h
  split at h
  next hwritable =>
    simp only [Json.isWritable, Json.fieldsWritable, Value.depth, Value.depthFields,
      Bool.and_eq_true] at hwritable
    obtain ⟨⟨-, -, -, -, hmax, hbackoff, hat, -⟩, hdepth⟩ := hwritable
    refine ⟨hmax, hbackoff, hat, ?_⟩
    have hdepth := of_decide_eq_true hdepth
    rw [Value.depth]
    omega
  next => cases h

theorem writes_of_encode? (h : e₀.encode? = some entry) (hid : e₀.id ≠ "")
    (hattempts : e₀.attempts = 0) : Writes entry e₀ 0 := by
  refine ⟨e₀.reread entry, ⟨rfl, hattempts, rfl, rfl, rfl, ?_⟩, decode_of_encode? h hid⟩
  exact (Json.depth_reread_le (.obj e₀.data)).trans_lt (words_of_encode? h).2.2.2

theorem Writes.isOf (h : Writes entry e₀ failures) : Queue.Contents.isOf e₀.id entry = true := by
  obtain ⟨e, hattempt, hread⟩ := h
  simp [Queue.Contents.isOf, writtenId?, hread, hattempt.id]

theorem Attempt.writes_failed {first : Entry} (hfirst : e₀.encode? = some first)
    (h : e₀.Attempt failures e) (hread : ∀ ids, decode entry ids = (.ok e, ids))
    (hbelow : failures < e₀.maxAttempts) (error : String) :
    ∃ entry', (e.failed error).encode? = some entry' ∧ Writes entry' e₀ (failures + 1) := by
  obtain ⟨hmax, hbackoff, hat, -⟩ := words_of_encode? hfirst
  have hword : isWord (e.attempts + 1) = true := by
    unfold isWord at hmax ⊢
    rw [h.attempts]
    simp only [Bool.and_eq_true, decide_eq_true_eq] at hmax ⊢
    omega
  have hrewritable : e.Rewritable :=
    ⟨hword, h.maxAttempts ▸ hmax, h.backoff ▸ hbackoff, h.enqueuedAt ▸ hat, h.depth⟩
  obtain ⟨entry', hentry⟩ := Option.isSome_iff_exists.1
    ((encode?_failed_isSome_iff (plain_of_decode (hread {})).2 error).2 hrewritable)
  have hattempts : e.attempts + 1 = ((failures + 1 : Nat) : Int) := by
    rw [h.attempts]
    rfl
  exact ⟨entry', hentry, { e.failed error with stored := some entry' },
    ⟨h.id, hattempts, h.maxAttempts, h.backoff, h.enqueuedAt, h.depth⟩,
    decode_failed (hread {}) hentry⟩

theorem Attempt.retryDelay_failed (h : e₀.Attempt failures e) (error : String) :
    (e.failed error).retryDelay = e₀.backoff * 2 ^ failures := by
  have hattempts : (e.failed error).attempts = failures + 1 := by
    rw [failed, h.attempts]
  have hpositive : ¬ ((failures : Int) + 1 ≤ 0) := by omega
  have hbackoff : (e.failed error).backoff = e₀.backoff := h.backoff
  rw [retryDelay, hattempts, if_neg hpositive, hbackoff, power]
  simp

theorem Attempt.exhausted_failed (h : e₀.Attempt failures e) (error : String) :
    (!(e.failed error).exhausted) = decide ((failures : Int) + 1 < e₀.maxAttempts) := by
  have hattempts : (e.failed error).attempts = failures + 1 := by
    rw [failed, h.attempts]
  have hmax : (e.failed error).maxAttempts = e₀.maxAttempts := h.maxAttempts
  rw [exhausted, hattempts, hmax, ← decide_not]
  simp

end Envelope

namespace Queue

open SignalCoach.Queue.Action
open Envelope (writtenId? Attempt Writes)

inductive JobEvent where
  | failed (now : Int) (retry : Bool)
  | handedOut (now : Int)
  deriving DecidableEq

def JobEvent.isFailure : JobEvent → Bool
  | failed _ _ => true
  | handedOut _ => false

def failures (record : List JobEvent) : Nat := record.countP JobEvent.isFailure

theorem failures_failed (now : Int) (retry : Bool) (record : List JobEvent) :
    failures (.failed now retry :: record) = failures record + 1 :=
  List.countP_cons_of_pos rfl

theorem failures_handedOut (now : Int) (record : List JobEvent) :
    failures (.handedOut now :: record) = failures record :=
  List.countP_cons_of_neg Bool.false_ne_true

/-- What the clock shows in a step, if it showed `clock` before. -/
def Step.now (clock : Int) : Step → Int
  | .operate _ (.enqueue now ..) => now
  | .operate _ (.promoteDue now) => now
  | .operate _ (.reserve now) => now
  | .operate _ (.fail now ..) => now
  | _ => clock

def Ticks : Int → List Step → Prop
  | _, [] => True
  | clock, step :: rest => clock ≤ step.now clock ∧ Ticks (step.now clock) rest

namespace History

def handOut? (id : String) (now : Int) : EStateM.Result Fault Broker Reservation → Option JobEvent
  | .ok (.job e) _ => if e.id = id then some (.handedOut now) else none
  | _ => none

def event? (h : History) (id : String) (clock : Int) : Step → Option JobEvent
  | .operate _ (.fail now e _ retry) => if e.id = id then some (.failed now retry) else none
  | .operate outage (.reserve now) => handOut? id now (reserve now { h.broker with outage })
  | .operate outage .reserveAfterWait =>
    handOut? id clock (reserveAfterWait { h.broker with outage })
  | _ => none

def record (id : String) : Int → History → List Step → List JobEvent
  | _, _, [] => []
  | clock, h, step :: rest =>
    (h.event? id clock step).toList ++ record id (step.now clock) (h.step step) rest

/-- No command fails, be it refused or with a due time that cannot be written, and recovery waits
until nobody holds a job. -/
def Calm (h : History) : Step → Prop
  | .operate outage .recoverStalled => outage.count = 0 ∧ h.held = []
  | .operate outage (.fail now e error retry) =>
    outage.count = 0 ∧ untimely now (e.failed error) retry = false
  | .operate outage _ => outage.count = 0
  | _ => True

/-- An attempt at the job is recorded as failed by one who holds it. -/
def HeldToFail (id : String) (h : History) : Step → Prop
  | .operate _ (.fail _ e _ _) => e.id = id → e ∈ h.held
  | _ => True

def Attended (id : String) (h : History) (step : Step) : Prop := h.Calm step ∧ h.HeldToFail id step

structure Retrying (e₀ : Envelope) (n : Nat) (place : Place) (entry : Entry) (h : History) : Prop where
  stands : h.contents.Stands e₀.id entry place
  writes : Writes entry e₀ n
  written : ∃ first, e₀.encode? = some first
  held : ∀ e ∈ h.held, e.id = e₀.id →
    (∀ ids, Envelope.decode entry ids = (.ok e, ids)) ∧ (place = .processing ∨ place = .nowhere)
  drawn : h.broker.ids.Drew e₀.id
  most : n ≤ e₀.maxAttempts
  below : place ≠ .failed → n < e₀.maxAttempts

namespace Retrying

variable {e₀ : Envelope} {n : Nat} {place place' : Place} {entry : Entry} {h h' : History} {now : Int}

theorem moved (hr : Retrying e₀ n place entry h) (hids : h.broker.ids.next ≤ h'.broker.ids.next)
    (hmoves : place.Moves now (h.held = []) place') (hstands : h'.contents.Stands e₀.id entry place')
    (hheld : ∀ e ∈ h'.held, e.id = e₀.id → e ∈ h.held) : Retrying e₀ n place' entry h' where
  stands := hstands
  writes := hr.writes
  written := hr.written
  held e he hid := by
    have hmem := hheld e he hid
    obtain ⟨hread, hplace⟩ := hr.held e hmem hid
    refine ⟨hread, ?_⟩
    cases hmoves with
    | stays => exact hplace
    | ripens _ => simp at hplace
    | drops => exact .inr rfl
    | recovers hidle => simp [hidle] at hmem
  drawn := hr.drawn.mono hids
  most := hr.most
  below hplace := by
    refine hr.below ?_
    rintro rfl
    cases hmoves
    exact hplace rfl

inductive After (e₀ : Envelope) (n : Nat) (place : Place) (entry : Entry) (now : Int) (idle : Prop)
    (h' : History) : Option JobEvent → Prop where
  | moved {place' : Place} (hmoves : place.Moves now idle place')
      (hr : Retrying e₀ n place' entry h') : After e₀ n place entry now idle h' none
  | handedOut (hmoves : place.Moves now idle .ready) (hr : Retrying e₀ n .processing entry h') :
      After e₀ n place entry now idle h' (some (.handedOut now))
  /-- The job waits for its backoff, or is laid aside. -/
  | failed {retry : Bool} {entry' : Entry} (hplace : place = .processing ∨ place = .nowhere)
      (hr : Retrying e₀ (n + 1)
        (if retry ∧ n + 1 < e₀.maxAttempts then .delayed (now + e₀.backoff * 2 ^ n) else .failed)
        entry' h') : After e₀ n place entry now idle h' (some (.failed now retry))

theorem looked (hr : Retrying e₀ n place entry h) {outage : Outage} {action : Action Reservation}
    (hlooks : Succeeds { h.broker with outage } action fun reservation b' =>
      h.broker.ids.next ≤ b'.ids.next ∧
        Looks e₀.id entry now (h.held = []) place reservation b'.contents) :
    After e₀ n place entry now (h.held = []) (h.act outage action noteReserved id)
      (handOut? e₀.id now (action { h.broker with outage })) := by
  obtain ⟨reservation, broker, hrun, -, hids, hlooks⟩ := hlooks
  rw [act, Program.outcome, hrun]
  cases hlooks with
  | @handedOut e _ hid hread hmoves hstands =>
    rw [handOut?, if_pos hid]
    refine .handedOut hmoves ⟨hstands, hr.writes, hr.written, ?_, hr.drawn.mono hids, hr.most, ?_⟩
    · intro e' he' hid'
      rcases List.mem_cons.1 he' with rfl | he'
      · exact ⟨hread, .inl rfl⟩
      · exact ⟨(hr.held e' he' hid').1, .inl rfl⟩
    · intro _
      refine hr.below ?_
      rintro rfl
      cases hmoves
  | @left reservation _ place' hother hmoves hstands =>
    have hnone : handOut? e₀.id now (.ok reservation broker) = none := by
      cases reservation with
      | job e => exact if_neg (hother e rfl)
      | _ => rfl
    rw [hnone]
    have hheld : ∀ e ∈ (({ h with broker } : History).noteReserved reservation).held,
        e.id = e₀.id → e ∈ h.held := by
      intro e he hid
      cases reservation with
      | job e' =>
        rcases List.mem_cons.1 he with rfl | he
        · exact absurd hid (hother e rfl)
        · exact he
      | _ => exact he
    refine .moved hmoves (hr.moved ?_ hmoves ?_ hheld)
    · cases reservation <;> exact hids
    · cases reservation <;> exact hstands

theorem attemptFailed (hr : Retrying e₀ n place entry h) {outage : Outage} (hclear : outage.count = 0)
    {e : Envelope} (hid : e.id = e₀.id) (he : e ∈ h.held) {error : String} {retry : Bool}
    (htimely : untimely now (e.failed error) retry = false) :
    After e₀ n place entry now (h.held = []) (h.operate outage (.fail now e error retry))
      (some (.failed now retry)) := by
  obtain ⟨hread, hplace⟩ := hr.held e he hid
  obtain ⟨e', hattempt, hread'⟩ := hr.writes
  obtain rfl : e' = e := Except.ok.inj (congrArg Prod.fst ((hread' {}).symm.trans (hread {})))
  obtain ⟨first, hfirst⟩ := hr.written
  have hbelow : n < e₀.maxAttempts := hr.below (by rcases hplace with rfl | rfl <;> simp)
  obtain ⟨entry', hentry, hwrites⟩ := hattempt.writes_failed hfirst hread hbelow error
  have hbytes := Envelope.bytes?_of_decode (hread {})
  obtain ⟨answer, broker, hrun, -, -, hids, hcontents⟩ :=
    fail_succeeds (b := { h.broker with outage }) now retry hclear hbytes hentry htimely
  have hsettled : (h.contents.settle entry).Stands e₀.id entry .nowhere := by
    rw [Contents.Stands, Contents.only_settle, hr.stands]
    rcases hplace with rfl | rfl <;> simp [Place.contents, Contents.settle]
  have hstands := hsettled.putBack hwrites.isOf now (e'.failed error) retry
  rw [hattempt.exhausted_failed, hattempt.retryDelay_failed] at hstands
  refine .failed hplace (?_ : Retrying e₀ (n + 1) _ entry' _)
  rw [operate, act, Program.outcome, hrun]
  refine ⟨?_, hwrites, hr.written, fun other hother hid' => ?_, ?_, ?_, fun hretried => ?_⟩
  · rw [show (({ h with broker } : History).noteFailed e' answer.2).contents = _ from hcontents]
    simpa using hstands
  · have hne := (List.mem_filter.1 hother).2
    simp [hid, hid'] at hne
  · exact hr.drawn.mono (Nat.le_of_eq (congrArg IdSupply.next hids.symm))
  · push_cast
    omega
  · push_cast
    by_contra hleast
    exact hretried (if_neg fun hretry => hleast hretry.2)

theorem acted (hr : Retrying e₀ n place entry h) {outage : Outage} {action : Action α}
    {done : History → α → History} {refused : History → History}
    (hids : h.broker.ids.next ≤ (after action { h.broker with outage }).ids.next)
    (hstands : ∃ place', place.Moves now (h.held = []) place' ∧
      (after action { h.broker with outage }).contents.Stands e₀.id entry place')
    (hdone : ∀ a broker, (done { h with broker } a).broker = broker ∧
      ∀ e ∈ (done { h with broker } a).held, e.id = e₀.id → e ∈ h.held)
    (hrefused : ∀ broker, (refused { h with broker }).broker = broker ∧
      ∀ e ∈ (refused { h with broker }).held, e.id = e₀.id → e ∈ h.held) :
    After e₀ n place entry now (h.held = []) (h.act outage action done refused) none := by
  obtain ⟨place', hmoves, hstands⟩ := hstands
  have hmoved {h' : History} (hbroker : h'.broker = after action { h.broker with outage })
      (hheld : ∀ e ∈ h'.held, e.id = e₀.id → e ∈ h.held) : Retrying e₀ n place' entry h' :=
    hr.moved (hbroker ▸ hids) hmoves (by rw [contents, hbroker]; exact hstands) hheld
  refine .moved hmoves (Program.outcome_cases (P := Retrying e₀ n place' entry) ?_ ?_)
  · intro a broker hrun
    obtain ⟨hbroker, hheld⟩ := hdone a broker
    exact hmoved (hbroker.trans (after_of_ok hrun).symm) hheld
  · intro fault broker hrun
    obtain ⟨hbroker, hheld⟩ := hrefused broker
    exact hmoved (hbroker.trans (after_of_error hrun).symm) hheld

theorem acted_of_succeeds (hr : Retrying e₀ n place entry h) {outage : Outage} {action : Action α}
    {done : History → α → History}
    (hsucceeds : Succeeds { h.broker with outage } action fun _ b' => b'.ids = h.broker.ids ∧
      ∃ place', place.Moves now (h.held = []) place' ∧ b'.contents.Stands e₀.id entry place')
    (hdone : ∀ a broker, (done { h with broker } a).broker = broker ∧
      ∀ e ∈ (done { h with broker } a).held, e.id = e₀.id → e ∈ h.held) :
    After e₀ n place entry now (h.held = []) (h.act outage action done id) none := by
  obtain ⟨a, broker, hrun, -, hids, hstands⟩ := hsucceeds
  rw [← after_of_ok hrun] at hids hstands
  exact hr.acted (Nat.le_of_eq (congrArg IdSupply.next hids.symm)) hstands hdone
    fun _ => ⟨rfl, fun _ he _ => he⟩

theorem otherFailed (hr : Retrying e₀ n place entry h) {outage : Outage} {e : Envelope}
    (hid : e.id ≠ e₀.id) (error : String) (retry : Bool) :
    After e₀ n place entry now (h.held = []) (h.operate outage (.fail now e error retry)) none := by
  obtain ⟨hids, hstands⟩ := fail_stands_other (b := { h.broker with outage }) now error retry
    hid hr.stands
  rw [operate]
  refine hr.acted (Nat.le_of_eq (congrArg IdSupply.next hids.symm)) hstands ?_ ?_
  · exact fun _ _ => ⟨rfl, fun _ he _ => (List.mem_filter.1 he).1⟩
  · refine fun _ => ⟨rfl, fun other hother hid' => ?_⟩
    rcases List.mem_cons.1 hother with rfl | hother
    · exact absurd hid' hid
    · exact (List.mem_filter.1 hother).1

theorem step (hr : Retrying e₀ n place entry h) {step : Step} (hattended : h.Attended e₀.id step)
    (clock : Int) :
    After e₀ n place entry (step.now clock) (h.held = []) (h.step step)
      (h.event? e₀.id clock step) := by
  have hstays : place.Moves clock (h.held = []) place := .stays
  cases step with
  | letGo id =>
    exact .moved hstays (hr.moved (Nat.le_refl _) hstays hr.stands fun e he _ =>
      (List.mem_filter.1 he).1)
  | draw =>
    exact .moved hstays (hr.moved (draw_next _) hstays hr.stands fun _ he _ => he)
  | operate outage operation =>
    obtain ⟨hcalm, hheld⟩ := hattended
    rw [History.step]
    cases operation with
    | enqueue now name data maxAttempts backoff delay =>
      obtain ⟨hids, hstands⟩ := enqueue_stands (b := { h.broker with outage }) now name data
        maxAttempts backoff delay hr.drawn hr.stands
      refine hr.acted (hids ▸ draw_next _) ⟨place, .stays, hstands⟩ ?_ ?_
      · exact fun _ _ => ⟨rfl, fun _ he _ => he⟩
      · exact fun _ => ⟨rfl, fun _ he _ => he⟩
    | promoteDue now =>
      rw [operate]
      refine hr.acted_of_succeeds ?_ ?_
      · exact promoteDue_stands now hcalm hr.stands
      · exact fun _ _ => ⟨rfl, fun _ he _ => he⟩
    | reserve now => exact hr.looked (reserve_looks now hcalm hr.drawn hr.stands)
    | reserveAfterWait => exact hr.looked (reserveAfterWait_looks clock hcalm hr.drawn hr.stands)
    | complete e =>
      obtain ⟨hids, hstands⟩ := complete_stands (b := { h.broker with outage }) clock e hr.stands
      rw [operate]
      refine hr.acted (Nat.le_of_eq (congrArg IdSupply.next hids.symm)) hstands ?_ ?_
      · exact fun _ _ => ⟨rfl, fun _ he _ => (List.mem_filter.1 he).1⟩
      · exact fun _ => ⟨rfl, fun _ he _ => he⟩
    | fail now e error retry =>
      by_cases hid : e.id = e₀.id
      · rw [event?, if_pos hid]
        exact hr.attemptFailed hcalm.1 hid (hheld hid) hcalm.2
      · rw [event?, if_neg hid]
        exact hr.otherFailed hid error retry
    | recoverStalled =>
      rw [operate]
      refine hr.acted_of_succeeds ?_ ?_
      · exact recoverStalled_stands clock hcalm.2 hcalm.1 hr.stands
      · exact fun _ _ => ⟨rfl, fun _ he _ => he⟩

/-- What a run comes to: as many failed attempts more as it records. -/
theorem run (hr : Retrying e₀ n place entry h) {steps : List Step}
    (hattended : Follows (Attended e₀.id) h steps) (clock : Int) :
    ∃ place' entry', Retrying e₀ (n + failures (h.record e₀.id clock steps)) place' entry'
      (h.run steps) := by
  induction steps generalizing h n place entry clock with
  | nil => exact ⟨place, entry, hr⟩
  | cons step rest ih =>
    have hafter := hr.step hattended.1 clock
    rw [record]
    generalize h.event? e₀.id clock step = event at hafter ⊢
    cases hafter with
    | moved _ hr' => exact ih hr' hattended.2 _
    | handedOut _ hr' =>
      rw [Option.toList_some, List.singleton_append, failures_handedOut]
      exact ih hr' hattended.2 _
    | failed _ hr' =>
      rw [Option.toList_some, List.singleton_append, failures_failed, ← Nat.add_assoc,
        Nat.add_right_comm]
      exact ih hr' hattended.2 _

theorem later (hr : Retrying e₀ n place entry h) {steps : List Step}
    (hattended : Follows (Attended e₀.id) h steps) {clock time : Int} (hticks : Ticks clock steps)
    (hlater : time ≤ clock ∨ place.NotBefore time) :
    ∀ at', .handedOut at' ∈ h.record e₀.id clock steps → time ≤ at' := by
  induction steps generalizing h n place entry clock with
  | nil => simp [record]
  | cons step rest ih =>
    have hafter := hr.step hattended.1 clock
    have hmoved {place' : Place} (hmoves : place.Moves (step.now clock) (h.held = []) place') :
        time ≤ step.now clock ∨ place'.NotBefore time :=
      hlater.elim (fun hclock => .inl (hclock.trans hticks.1)) (·.moves hmoves)
    rw [record]
    generalize h.event? e₀.id clock step = event at hafter ⊢
    cases hafter with
    | moved hmoves hr' => exact ih hr' hattended.2 hticks.2 (hmoved hmoves)
    | handedOut hmoves hr' =>
      have hnow : time ≤ step.now clock := (hmoved hmoves).resolve_right id
      have hrest := ih hr' hattended.2 hticks.2 (.inl hnow)
      intro at' hmem
      rcases List.mem_cons.1 hmem with hfirst | hmem
      · cases hfirst
        exact hnow
      · exact hrest at' hmem
    | failed hplace hr' =>
      have hclock : time ≤ clock := hlater.resolve_right (by rcases hplace with rfl | rfl <;> exact id)
      have hrest := ih hr' hattended.2 hticks.2 (.inl (hclock.trans hticks.1))
      intro at' hmem
      rcases List.mem_cons.1 hmem with hfirst | hmem
      · cases hfirst
      · exact hrest at' hmem

theorem laidAside (hr : Retrying e₀ n .failed entry h) {steps : List Step}
    (hattended : Follows (Attended e₀.id) h steps) : Retrying e₀ n .failed entry (h.run steps) := by
  refine Follows.induction (P := Retrying e₀ n .failed entry) (fun h step hallowed hr => ?_) hattended hr
  have hafter := hr.step hallowed 0
  generalize h.event? e₀.id 0 step = event at hafter
  cases hafter with
  | moved hmoves hr' =>
    cases hmoves
    exact hr'
  | handedOut hmoves => cases hmoves
  | failed hplace => simp at hplace

theorem from_failure (hr : Retrying e₀ n place entry h) {steps : List Step}
    (hattended : Follows (Attended e₀.id) h steps) {clock : Int} (hticks : Ticks clock steps)
    {earlier later : List JobEvent} {now : Int} {retry : Bool} {k : Nat}
    (hrecord : h.record e₀.id clock steps = earlier ++ .failed now retry :: later)
    (hk : n + failures earlier = k) :
    ∃ h' rest entry', h.run steps = h'.run rest ∧ later = h'.record e₀.id now rest ∧
      Follows (Attended e₀.id) h' rest ∧ Ticks now rest ∧
      Retrying e₀ (k + 1) (if retry ∧ k + 1 < e₀.maxAttempts then
        .delayed (now + e₀.backoff * 2 ^ k) else .failed) entry' h' := by
  induction steps generalizing h n place entry clock earlier with
  | nil => simp [record] at hrecord
  | cons step rest ih =>
    have hafter := hr.step hattended.1 clock
    rw [record] at hrecord
    generalize h.event? e₀.id clock step = event at hafter hrecord
    cases hafter with
    | moved _ hr' => exact ih hr' hattended.2 hticks.2 hrecord hk
    | handedOut _ hr' =>
      cases earlier with
      | nil => cases hrecord
      | cons first earlier =>
        obtain ⟨rfl, hrest⟩ := List.cons.inj hrecord
        rw [failures_handedOut] at hk
        exact ih hr' hattended.2 hticks.2 hrest hk
    | failed hplace hr' =>
      cases earlier with
      | nil =>
        cases hrecord
        obtain rfl : n = k := hk
        exact ⟨h.step step, rest, _, rfl, rfl, hattended.2, hticks.2, hr'⟩
      | cons first earlier =>
        obtain ⟨rfl, hrest⟩ := List.cons.inj hrecord
        rw [failures_failed] at hk
        exact ih hr' hattended.2 hticks.2 hrest (by omega)

end Retrying

structure Unknown (h : History) (id : String) : Prop where
  entries : ∀ entry ∈ h.contents.entries, writtenId? entry ≠ some id
  held : ∀ e ∈ h.held, e.id ≠ id

theorem Accounted.drew {h : History} {id : String} {entry : Entry} (hacc : h.Accounted)
    (hentry : entry ∈ h.contents.entries) (hwritten : writtenId? entry = some id) :
    h.broker.ids.Drew id :=
  hacc.drawn id (hacc.all.mem_iff.1
    (List.mem_append_left _ (List.mem_filterMap.2 ⟨entry, hentry, hwritten⟩)))

theorem Accounted.unknown {h : History} (hacc : h.Accounted) :
    h.Unknown h.broker.ids.draw.1 where
  entries _ hentry hwritten := h.broker.ids.not_drew_next (hacc.drew hentry hwritten)
  held e he hid := by
    obtain ⟨r, hr, hsame, -⟩ := hacc.held e he
    obtain ⟨entry, hentry, -, hwritten⟩ := hacc.reserved_bytes hr
    rw [hsame, hid] at hwritten
    exact h.broker.ids.not_drew_next
      (hacc.drew (by simp [Contents.entries, hentry]) hwritten)

inductive Enqueues (h : History) (now maxAttempts backoff : Int) : Envelope → History → Prop where
  | intro {outage : Outage} {name : String} {data : Fields} {delay : Int} {e : Envelope}
      {broker : Broker}
      (hrun : enqueue now name data maxAttempts backoff delay { h.broker with outage } =
        .ok e broker)
      (hunknown : h.Unknown e.id) : Enqueues h now maxAttempts backoff e
        (h.operate outage (.enqueue now name data maxAttempts backoff delay))

section Enqueued

variable {h h' : History} {now maxAttempts backoff : Int} {e : Envelope}

theorem Enqueues.given (henqueues : h.Enqueues now maxAttempts backoff e h') :
    e.maxAttempts = max 1 maxAttempts ∧ e.backoff = backoff := by
  obtain @⟨outage, name, data, delay, _, broker, hrun, -⟩ := henqueues
  have hcases := enqueue_cases now name data maxAttempts backoff delay { h.broker with outage }
  rw [hrun] at hcases
  rw [hcases.2.1]
  exact ⟨rfl, rfl⟩

theorem Enqueues.retrying (henqueues : h.Enqueues now maxAttempts backoff e h') :
    ∃ place entry, Retrying e 0 place entry h' := by
  have hpositive : 0 < e.maxAttempts := by
    rw [henqueues.given.1]
    omega
  obtain @⟨outage, name, data, delay, _, broker, hrun, hunknown⟩ := henqueues
  have hcases := enqueue_cases now name data maxAttempts backoff delay { h.broker with outage }
  rw [hrun] at hcases
  obtain ⟨hids, he, entry, hentry, hadds⟩ := hcases
  have hdrew : broker.ids.Drew e.id := by
    rw [hids, he]
    exact h.broker.ids.drew_draw
  have hwrites := Envelope.writes_of_encode? hentry hdrew.ne_empty (by rw [he])
  have hnowhere : h.contents.Stands e.id entry .nowhere := Contents.only_eq_empty hunknown.entries
  obtain ⟨place, hstands⟩ := hnowhere.adds hwrites.isOf hadds
  refine ⟨place, entry, ?_⟩
  rw [operate, act, Program.outcome, hrun]
  exact ⟨hstands, hwrites, ⟨entry, hentry⟩, fun e' he' hid => absurd hid (hunknown.held e' he'),
    hdrew, le_of_lt hpositive, fun _ => hpositive⟩

structure RetriesBounded (id : String) (maxAttempts backoff : Int) (record : List JobEvent)
    (c : Contents) : Prop where
  bounded : failures record ≤ maxAttempts
  /-- What may still be handed out counts the failed attempts, and there is one left. -/
  counted : ∀ entry ∈ c.ready ++ (c.processing ++ c.delayed.map Prod.snd),
    writtenId? entry = some id → ∃ e, (∀ ids, Envelope.decode entry ids = (.ok e, ids)) ∧
      e.attempts = failures record ∧ e.attempts < maxAttempts
  /-- A job that is retried is not handed out before its backoff is over. -/
  neverEarly : ∀ earlier now later, record = earlier ++ .failed now true :: later →
    failures earlier + 1 < maxAttempts →
      ∀ time, .handedOut time ∈ later → now + backoff * 2 ^ failures earlier ≤ time
  /-- A job that is not retried is laid aside for good. -/
  laidAside : ∀ earlier now retry later, record = earlier ++ .failed now retry :: later →
    retry = false ∨ maxAttempts ≤ failures earlier + 1 →
      (∃ entry ∈ c.failed, writtenId? entry = some id) ∧ ∀ time, .handedOut time ∉ later

/-- A job fails as often as it was given attempts at most, each envelope of it counts the failures, and
none is handed out before its backoff is over, or once the job was laid aside. -/
theorem retries_bounded {steps : List Step} (henqueues : h.Enqueues now maxAttempts backoff e h')
    (hattended : Follows (Attended e.id) h' steps) (hticks : Ticks now steps) :
    RetriesBounded e.id (max 1 maxAttempts) backoff (h'.record e.id now steps)
      (h'.run steps).contents := by
  obtain ⟨hmax, hbackoff⟩ := henqueues.given
  obtain ⟨place, entry, hr⟩ := henqueues.retrying
  rw [← hmax, ← hbackoff]
  obtain ⟨place', entry', hend⟩ := hr.run hattended now
  rw [Nat.zero_add] at hend
  refine ⟨hend.most, fun other hmem hwritten => ?_, ?_, ?_⟩
  · obtain ⟨rfl, hplace⟩ := hend.stands.eq_of_mem (decide_eq_true hwritten) hmem
    obtain ⟨e', hattempt, hread⟩ := hend.writes
    exact ⟨e', hread, hattempt.attempts, hattempt.attempts ▸ hend.below hplace⟩
  · intro earlier at' later hrecord hleft time hmem
    obtain ⟨h₁, rest, entry₁, -, rfl, hattended', hticks', hr'⟩ :=
      hr.from_failure hattended hticks hrecord (Nat.zero_add _)
    rw [if_pos ⟨rfl, hleft⟩] at hr'
    exact hr'.later hattended' hticks' (.inr (le_refl _)) time hmem
  · intro earlier at' retry later hrecord hlast
    obtain ⟨h₁, rest, entry₁, hrun, rfl, hattended', hticks', hr'⟩ :=
      hr.from_failure hattended hticks hrecord (Nat.zero_add _)
    rw [if_neg (by rintro ⟨rfl, hleft⟩; simp at hlast; omega)] at hr'
    refine ⟨⟨entry₁, ?_⟩, fun time hmem => ?_⟩
    · obtain ⟨hmem, hof⟩ := (hr'.laidAside hattended').stands.mem_failed
      exact ⟨hrun ▸ hmem, of_decide_eq_true hof⟩
    · have hplace : Place.failed.NotBefore (time + 1) := trivial
      have hnever := hr'.later hattended' hticks' (.inr hplace) time hmem
      omega

end Enqueued

def enqueueFirst : Step := .operate {} (.enqueue 0 evaluateName [] 3 1000 0)

def retried : List Step :=
  [.operate {} (.reserve 0), .operate {} (.fail 0 reservedJob "error" true),
    .operate {} (.reserve 1000)]

def firstJob : Envelope where
  name := evaluateName
  data := []
  id := ({} : IdSupply).draw.1
  maxAttempts := 3
  backoff := 1000
  enqueuedAt := 0

theorem enqueues_first :
    (start {} {}).Enqueues 0 3 1000 firstJob ((start {} {}).step enqueueFirst) := by
  have hsome : firstJob.encode?.isSome := by decide
  obtain ⟨entry, hentry⟩ := Option.isSome_iff_exists.1 hsome
  obtain ⟨e, broker, hrun, -, he⟩ := enqueue_succeeds
    (b := { (start {} {}).broker with outage := {} }) 0 evaluateName [] 3 1000 0 rfl rfl hentry nofun
  rw [he] at hrun
  rw [enqueueFirst, step]
  exact .intro hrun ⟨by simp [start, Contents.entries], by simp [start]⟩

theorem held_retried :
    reservedJob ∈ (((start {} {}).step enqueueFirst).step (.operate {} (.reserve 0))).held := by
  have hheld := reservedJob_held
  rw [run, reservation, List.foldl_cons, List.foldl_cons, List.foldl_nil] at hheld
  exact hheld

theorem retries_bounded_retried :
    (start {} {}).Enqueues 0 3 1000 firstJob ((start {} {}).step enqueueFirst) ∧
    Follows (Attended firstJob.id) ((start {} {}).step enqueueFirst) retried ∧ Ticks 0 retried ∧
    ((start {} {}).step enqueueFirst).record firstJob.id 0 retried =
      [.handedOut 0, .failed 0 true, .handedOut 1000] ∧
    RetriesBounded firstJob.id (max 1 3) 1000
      (((start {} {}).step enqueueFirst).record firstJob.id 0 retried)
      (((start {} {}).step enqueueFirst).run retried).contents := by
  have hattended : Follows (Attended firstJob.id) ((start {} {}).step enqueueFirst) retried :=
    ⟨⟨rfl, trivial⟩, ⟨⟨rfl, by decide +kernel⟩, fun _ => held_retried⟩, ⟨rfl, trivial⟩, trivial⟩
  have hticks : Ticks 0 retried := ⟨by decide, by decide, by decide, trivial⟩
  exact ⟨enqueues_first, hattended, hticks, by decide +kernel,
    retries_bounded enqueues_first hattended hticks⟩

def failedJob : Envelope :=
  { reservedJob.failed "error" with stored := (reservedJob.failed "error").encode? }

/-- The failure of the first job is recorded again, by one who no longer holds it. -/
def failedTwice : List Step :=
  [.operate {} (.reserve 0), .operate {} (.fail 0 reservedJob "error" true),
    .operate {} (.fail 0 failedJob "error" true), .operate {} (.reserve 1000)]

/-- Retries come early where a failure may be recorded by one who does not hold the job. -/
theorem not_always_bounded : ¬ ∀ (h h' : History) (now maxAttempts backoff : Int) (e : Envelope)
    (steps : List Step), h.Enqueues now maxAttempts backoff e h' → Follows Calm h' steps →
    Ticks now steps → RetriesBounded e.id (max 1 maxAttempts) backoff (h'.record e.id now steps)
      (h'.run steps).contents := by
  intro hall
  have hticks : Ticks 0 failedTwice := ⟨by decide, by decide, by decide, by decide, trivial⟩
  have hcalm : Follows Calm ((start {} {}).step enqueueFirst) failedTwice :=
    ⟨rfl, ⟨rfl, by decide +kernel⟩, ⟨rfl, by decide +kernel⟩, rfl, trivial⟩
  have hbounded := hall _ _ _ _ _ _ failedTwice enqueues_first hcalm hticks
  have hrecord : ((start {} {}).step enqueueFirst).record firstJob.id 0 failedTwice =
      [.handedOut 0, .failed 0 true, .failed 0 true, .handedOut 1000] := by decide +kernel
  have hearly : (0 : Int) + 1000 * 2 ^ 1 ≤ 1000 :=
    hbounded.neverEarly [.handedOut 0, .failed 0 true] 0 [.handedOut 1000] hrecord (by decide) 1000
      List.mem_cons_self
  omega

end History

end Queue

end SignalCoach
